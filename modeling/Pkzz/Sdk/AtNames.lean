import Mathlib.Data.List.ReduceOption
import Pkzz.Lib.ByteIndex
import Pkzz.Lib.Json

/-!
# Mentions by name

The names behind the `@`s of a message. `extract_at_names` goes over the characters of the text and
takes one word behind each `@`. `extract_at_mentions_with_known` goes over its bytes and tries the
names it knows first, the longest one first, because a display name may be several words.

What both find is a matter of the places where an `@` counts and of what is said there: `MentionAt`
states it without a scanner and without an order of the names. Everything follows from it being a
function: the order of the known names cannot matter, since it is not part of it.
-/

namespace Pkzz.Sdk

open Lib
open Lib.ByteIndex (toList_toAsciiLowercase)

/-! ## Extraction -/

/-- The characters of a name of one word. -/
def isNameChar (c : Char) : Bool := c.isAlphanum || c == '.' || c == '-' || c == '_'

/-- `char::is_ascii_whitespace`. -/
def isAsciiWhitespace (c : Char) : Bool := ByteIndex.isAsciiWhitespace c.toNat

/-- `names`, with a name that has not been seen. -/
def push (names : List String) (name : String) : List String :=
    if name ∈ names then names else names ++ [name]

/-- The loop over the characters, behind the one that was there last. -/
def scanAtNames (last : Option Char) (names : List String) : List Char → List String
  | [] => names
  | c :: rest =>
    let word := rest.takeWhile isNameChar
    if c = '@' ∧ last.all isAsciiWhitespace ∧ rest ≠ [] ∧ word ≠ [] then
      scanAtNames (some c) (push names (Str.toAsciiLowercase (String.ofList word))) rest
    else scanAtNames (some c) names rest

/-- Extract single-word `@mention` names from message content. -/
def extractAtNames (content : String) : List String :=
  if content = "" ∨ '@' ∉ content.toList then [] else scanAtNames none [] content.toList

def isWordBoundary (s : List Char) : Bool :=
  s.head?.all fun c =>
    isAsciiWhitespace c || c == ',' || c == ';' || c == '.' || c == '!' || c == '?' || c == ':'
    || c == ')' || c == ']' || c == '}'

/-- The condition of the search. There is no result when the second slice panics. -/
def matchesKnown (rest : List Char) (k : String) : Option Bool :=
  match ByteIndex.sliceTo (Str.len k) rest with
  | none => some false
  | some s =>
    if Str.eqIgnoreAsciiCase (String.ofList s) k then
      (ByteIndex.sliceFrom (Str.len k) rest).map isWordBoundary
    else some false

/-- `sorted.iter().find(..)`. -/
def findKnown (rest : List Char) : List String → Option (Option String)
  | [] => some none
  | k :: sorted => do
      if ← matchesKnown rest k then return some k
      findKnown rest sorted

/-- What is said behind an `@`, in lower case, if it is a name. -/
def lowerAt (sorted : List String) (rest : List Char) : Option (Option String) := do
  match ← findKnown rest sorted with
  | some known => return some (Str.toAsciiLowercase known)
  | none =>
    let stop := (ByteIndex.find (fun c => !isNameChar c) rest).getD (ByteIndex.byteLen rest)
    if stop = 0 then return none
    let word ← ByteIndex.sliceTo stop rest
    return some (Str.toAsciiLowercase (String.ofList word))

/-- Whether the byte in front of an offset is white space, or there is none. -/
def preceded (content : List Char) (i : Nat) : Option Bool :=
  if i = 0 then some true
  else ((content.flatMap String.utf8EncodeChar)[i - 1]?).map fun byte =>
    ByteIndex.isAsciiWhitespace byte.toNat

/-- What becomes of the names at an `@`. -/
def mention (names : List String) : Option String → List String
  | none => names
  | some lower => push names lower

/-- What is done with an `@` at a byte offset. -/
def atMention (content : List Char) (sorted : List String) (names : List String) (i : Nat) :
    Option (List String) := do
  if !(← preceded content i) then return names
  let rest ← ByteIndex.sliceFrom (i + 1) content
  if rest.isEmpty then return names
  return mention names (← lowerAt sorted rest)

/-- Empty and whitespace-only names are ignored. -/
def blank (name : String) : Bool := Str.trim name == ""

/-- The known names that count, the longest first. -/
def sortedKnown (known : List String) : List String :=
  (known.filter fun n => !blank n).mergeSort fun a b => decide (Str.len b ≤ Str.len a)

/-- Extract `@mention` names from message content using known member names. There is no result when
a slice panics. -/
def extractAtMentionsWithKnown (content : String) (known : List String) : Option (List String) :=
  if content = "" ∨ '@' ∉ content.toList then some []
  else (ByteIndex.matchIndices '@' 0 content.toList).foldlM
    (atMention content.toList (sortedKnown known)) []

/-! ## Profiles -/

structure MentionProfile where
  pubkey : String
  contentJson : String

/-- `Value::get` with a key. -/
def getField (key : String) : Json → Option Json
  | .obj fields => fields.lookup key
  | _ => none

def asStr : Json → Option String
  | .str s => some s
  | _ => none

/-- The `display_name` of a profile, or its `name` if it has none. -/
def profileName (value : Json) : String :=
  ((((getField "display_name" value).or (getField "name" value)).bind asStr)).getD ""

/-- Match extracted `@names` against channel-member profiles. -/
def matchNamesToProfiles (fromStr : String → Option Json) (names : List String)
    (profiles : List MentionProfile) : List String :=
  if names.isEmpty then []
  else profiles.filterMap fun p => do
    let value ← fromStr p.contentJson
    let name := profileName value
    if name = "" then none
    else if names.any fun n => Str.eqIgnoreAsciiCase n name then some p.pubkey
    else none

/-- The display names of profiles, as callers take them. -/
def displayNames (fromStr : String → Option Json) (profiles : List MentionProfile) : List String :=
  (profiles.filterMap fun p => (fromStr p.contentJson).map profileName).filter fun name => name ≠ ""

/-! ## What is mentioned -/

/-- The texts behind the `@`s that count, at the start or behind ASCII white space. -/
def eligible (last : Option Char) : List Char → List (List Char)
  | [] => []
  | c :: rest =>
    if c = '@' ∧ last.all isAsciiWhitespace then
      rest :: eligible (some c) rest else eligible (some c) rest

/-- A text begins with a name, in any ASCII case, and the name ends at a word boundary. -/
def FollowedBy (rest : List Char) (name : String) : Prop :=
  ∃ front tail, rest = front ++ tail ∧ front.map Char.toLower = name.toList.map Char.toLower ∧
    isWordBoundary tail = true

/-- A known name that counts, none is longer of those the text begins with. -/
structure Longest (known : List String) (rest : List Char) (name : String) : Prop where
  mem : name ∈ known
  notBlank : blank name = false
  followed : FollowedBy rest name
  longest : ∀ m ∈ known, blank m = false → FollowedBy rest m → Str.len m ≤ Str.len name

/-- What is mentioned by an `@` in front of a text: the longest known name, or else a word, or else
nothing. -/
inductive MentionAt (known : List String) (rest : List Char) : Option String → Prop where
  | known (name : String) (h : Longest known rest name) :
      MentionAt known rest (some (Str.toAsciiLowercase name))
  | word (hknown : ∀ m ∈ known, blank m = false →
      ¬ FollowedBy rest m) (hword : rest.takeWhile isNameChar ≠ []) :
      MentionAt known rest (some (Str.toAsciiLowercase (String.ofList (rest.takeWhile isNameChar))))
  | nothing (hknown : ∀ m ∈ known, blank m = false →
      ¬ FollowedBy rest m) (hword : rest.takeWhile isNameChar = []) : MentionAt known rest none

theorem len_eq_byteLen (s : String) : Str.len s = ByteIndex.byteLen s.toList :=
  (ByteIndex.byteLen_eq_length _).symm

/-- Names of one length that a text begins with are equal up to case. -/
theorem lowercase_unique {rest : List Char} {a b : String} (ha : FollowedBy rest a)
    (hb : FollowedBy rest b)
    (hlen : Str.len a = Str.len b) : Str.toAsciiLowercase a = Str.toAsciiLowercase b := by
  obtain ⟨front, tail, rfl, hfront, _⟩ := ha
  obtain ⟨front', tail', hrest, hfront', _⟩ := hb
  have hbytes : ByteIndex.byteLen front = ByteIndex.byteLen front' := by
    rw [ByteIndex.byteLen_of_toLower hfront, ByteIndex.byteLen_of_toLower hfront', ← len_eq_byteLen,
      ← len_eq_byteLen, hlen]
  obtain ⟨rfl, rfl⟩ := ByteIndex.append_inj_of_byteLen hrest hbytes
  rw [← String.toList_inj, toList_toAsciiLowercase, toList_toAsciiLowercase, ← hfront, ← hfront']

variable {known : List String}

/-- **What is mentioned is determined**, by the names that are known and not by their order or
number. -/
theorem MentionAt.unique {known' : List String} (hsame : ∀ n, n ∈ known ↔ n ∈ known')
    {rest : List Char}
    {o o' : Option String} (h : MentionAt known rest o) (h' : MentionAt known' rest o') :
    o = o' := by
  cases h with
  | known name hl =>
    cases h' with
    | known name' hl' =>
      have hle := hl.longest name' ((hsame _).mpr hl'.mem) hl'.notBlank hl'.followed
      have hge := hl'.longest name ((hsame _).mp hl.mem) hl.notBlank hl.followed
      exact congrArg some (lowercase_unique hl.followed hl'.followed (by omega))
    | word hknown' _ | nothing hknown' _ =>
      exact (hknown' name ((hsame _).mp hl.mem) hl.notBlank hl.followed).elim
  | word hknown hword =>
    cases h' with
    | known name' hl' => exact (hknown name' ((hsame _).mpr hl'.mem) hl'.notBlank hl'.followed).elim
    | word _ _ => rfl
    | nothing _ hword' => exact (hword hword').elim
  | nothing hknown hword =>
    cases h' with
    | known name' hl' => exact (hknown name' ((hsame _).mpr hl'.mem) hl'.notBlank hl'.followed).elim
    | word _ hword' => exact (hword' hword).elim
    | nothing _ _ => rfl

/-! ## The words -/

/-- The word behind an `@`. -/
def atWord (rest : List Char) : Option String :=
  if rest.takeWhile isNameChar = [] then
    none else some (Str.toAsciiLowercase (String.ofList (rest.takeWhile isNameChar)))

/-- A name that has not been seen goes behind the others. -/
theorem push_eraseDups (names : List String) (name : String) :
    push names.eraseDups name = (names ++ [name]).eraseDups := by
  rw [List.eraseDups_append, push]
  by_cases h : name ∈ names <;> simp [h, List.removeAll, List.eraseDups_cons]

theorem scanAtNames_eq (cs : List Char) (last : Option Char) (names : List String) :
    scanAtNames last names.eraseDups cs =
      (names ++ (eligible last cs).filterMap atWord).eraseDups := by
  induction cs generalizing last names with
  | nil => simp [scanAtNames, eligible]
  | cons c rest ih =>
    simp only [scanAtNames, eligible]
    by_cases hat : c = '@' ∧ last.all isAsciiWhitespace = true
    · by_cases hword : rest.takeWhile isNameChar = []
      · rw [if_neg (fun h => h.2.2.2 hword), if_pos hat, ih]
        simp [atWord, hword]
      · -- a text with a word in front is not empty
        have hrest : rest ≠ [] := by
          rintro rfl
          exact hword rfl
        rw [if_pos ⟨hat.1, hat.2, hrest, hword⟩, if_pos hat, push_eraseDups, ih]
        simp [atWord, hword]
    · rw [if_neg (fun h => hat ⟨h.1, h.2.1⟩), if_neg hat, ih]

theorem eligible_of_notMem {cs : List Char} (h : '@' ∉ cs) (last : Option Char) :
    eligible last cs = [] := by
  induction cs generalizing last with
  | nil => rfl
  | cons c rest ih =>
    rw [List.mem_cons, not_or] at h
    rw [eligible, if_neg (fun hat => h.1 hat.1.symm)]
    exact ih h.2 _

/-- The first scanner takes the words. -/
theorem extractAtNames_eq (content : String) :
    extractAtNames content = ((eligible none content.toList).filterMap atWord).eraseDups := by
  unfold extractAtNames
  split
  · rename_i h
    have hnone : '@' ∉ content.toList := by
      rcases h with rfl | h
      · simp
      · exact h
    rw [eligible_of_notMem hnone]
    rfl
  · exact scanAtNames_eq content.toList none []

/-! ## The known names -/

/-- The condition of the search is that the text begins with the name; the second slice is at the
end of the first. -/
theorem matchesKnown_spec (rest : List Char) (k : String) :
    ∃ found, matchesKnown rest k = some found ∧ (found = true ↔ FollowedBy rest k) := by
  have hfront : ∀ front tail, rest = front ++ tail →
      front.map Char.toLower = k.toList.map Char.toLower →
      ByteIndex.splitAt? (Str.len k) rest = some (front, tail) := by
    intro front tail hrest hlower
    rw [hrest, len_eq_byteLen, ← ByteIndex.byteLen_of_toLower hlower, ByteIndex.splitAt?_append]
  unfold matchesKnown ByteIndex.sliceTo ByteIndex.sliceFrom
  cases hsplit : ByteIndex.splitAt? (Str.len k) rest with
  | none =>
    refine ⟨false, rfl, by simp, ?_⟩
    rintro ⟨front, tail, hrest, hlower, _⟩
    rw [hfront front tail hrest hlower] at hsplit
    cases hsplit
  | some parts =>
    obtain ⟨s, tail⟩ := parts
    obtain ⟨hrest, hlen⟩ := ByteIndex.splitAt?_eq_some hsplit
    simp only [Option.map_some]
    split
    · rename_i hcase
      have hlower : s.map Char.toLower = k.toList.map Char.toLower := by
        have hstr : Str.toAsciiLowercase (String.ofList s) = Str.toAsciiLowercase k :=
          beq_iff_eq.mp hcase
        rw [← String.toList_inj, toList_toAsciiLowercase, toList_toAsciiLowercase,
          String.toList_ofList] at hstr
        exact hstr
      refine ⟨isWordBoundary tail, rfl, fun h => ⟨s, tail, hrest, hlower, h⟩, ?_⟩
      rintro ⟨front', tail', hrest', hlower', hboundary⟩
      rw [hfront front' tail' hrest' hlower'] at hsplit
      rw [← (Prod.mk.inj (Option.some.inj hsplit)).2]
      exact hboundary
    · rename_i hcase
      refine ⟨false, rfl, by simp, ?_⟩
      rintro ⟨front', tail', hrest', hlower', _⟩
      rw [hfront front' tail' hrest' hlower'] at hsplit
      cases hsplit
      refine (hcase ?_).elim
      rw [Str.eqIgnoreAsciiCase, beq_iff_eq, ← String.toList_inj, toList_toAsciiLowercase,
        toList_toAsciiLowercase, String.toList_ofList]
      exact hlower'

/-- The search over names that are sorted finds a longest one. -/
theorem findKnown_spec (rest : List Char) {sorted : List String}
    (hsorted : sorted.Pairwise fun a b => Str.len b ≤ Str.len a) :
    ∃ found, findKnown rest sorted = some found
      ∧ (found = none → ∀ m ∈ sorted, ¬ FollowedBy rest m)
      ∧ ∀ k, found = some k → k ∈ sorted ∧ FollowedBy rest k ∧ ∀ m ∈ sorted, FollowedBy rest m →
        Str.len m ≤ Str.len k := by
  induction sorted with
  | nil => exact ⟨none, rfl, by simp, by simp⟩
  | cons k sorted ih =>
    obtain ⟨hfirst, hsorted⟩ := List.pairwise_cons.mp hsorted
    obtain ⟨found, hfound, hiff⟩ := matchesKnown_spec rest k
    cases found with
    | true =>
      have hk := hiff.mp rfl
      refine ⟨some k, by simp [findKnown, hfound], by simp, ?_⟩
      intro k' hk'
      cases hk'
      refine ⟨List.mem_cons_self, hk, ?_⟩
      intro m hm _
      rcases List.mem_cons.mp hm with rfl | hm
      · exact Nat.le_refl _
      · exact hfirst m hm
    | false =>
      have hk : ¬ FollowedBy rest k := by
        intro h
        cases hiff.mpr h
      obtain ⟨found, hlater, hnone, hsome⟩ := ih hsorted
      refine ⟨found, by simp [findKnown, hfound, hlater], ?_, ?_⟩
      · intro h m hm
        rcases List.mem_cons.mp hm with rfl | hm
        · exact hk
        · exact hnone h m hm
      · intro k' hk'
        obtain ⟨hmem, hfollowed, hlongest⟩ := hsome k' hk'
        refine ⟨List.mem_cons_of_mem _ hmem, hfollowed, ?_⟩
        intro m hm hm'
        rcases List.mem_cons.mp hm with rfl | hm
        · exact (hk hm').elim
        · exact hlongest m hm hm'

theorem mem_sortedKnown {n : String} : n ∈ sortedKnown known ↔ n ∈ known ∧ blank n = false := by
  simp [sortedKnown]

theorem sortedKnown_pairwise (known : List String) : (sortedKnown known).Pairwise fun a b =>
    Str.len b ≤ Str.len a := by
  have h := @List.pairwise_mergeSort _ (fun a b : String => decide (Str.len b ≤ Str.len a))
    (fun a b c hab hbc => by
      have := of_decide_eq_true hab
      have := of_decide_eq_true hbc
      exact decide_eq_true (by omega))
    (fun a b => by
      by_cases h : Str.len b ≤ Str.len a
      · simp [h]
      · simp [show Str.len a ≤ Str.len b by omega])
    (known.filter fun n => !blank n)
  exact h.imp fun hab => of_decide_eq_true hab

/-! ## The second scanner -/

/-- The byte in front of an `@` says what the character there is. -/
theorem preceded_eq (front rest : List Char) :
    preceded (front ++ '@' :: rest) (ByteIndex.byteLen front) =
      some (front.getLast?.all isAsciiWhitespace) := by
  unfold preceded
  rcases List.eq_nil_or_concat front with rfl | ⟨init, last, rfl⟩
  · rfl
  have hpos := last.utf8Size_pos
  rw [if_neg (by simp [ByteIndex.byteLen_append]; omega)]
  have h := ByteIndex.isAsciiWhitespace_last init ('@' :: rest) last
  simp only [List.concat_eq_append, List.append_assoc, List.singleton_append] at h ⊢
  rw [h]
  simp [isAsciiWhitespace]

/-- No slice panics behind an `@`, and what is said there is what it mentions. -/
theorem lowerAt_spec (known : List String) (rest : List Char) :
    ∃ o, MentionAt known rest o ∧ lowerAt (sortedKnown known) rest = some o := by
  obtain ⟨found, hfound, hnone, hsome⟩ := findKnown_spec rest (sortedKnown_pairwise known)
  unfold lowerAt
  rw [hfound]
  cases found with
  | some k =>
    obtain ⟨hmem, hfollowed, hlongest⟩ := hsome k rfl
    obtain ⟨hknown, hblank⟩ := mem_sortedKnown.mp hmem
    refine ⟨_, .known k ⟨hknown, hblank, hfollowed, ?_⟩, rfl⟩
    intro m hm hmblank hmfollowed
    exact hlongest m (mem_sortedKnown.mpr ⟨hm, hmblank⟩) hmfollowed
  | none =>
    have hknown : ∀ m ∈ known, blank m = false → ¬ FollowedBy rest m :=
      fun m hm hmblank => hnone rfl m (mem_sortedKnown.mpr ⟨hm, hmblank⟩)
    simp only [Option.bind_eq_bind, Option.bind_some, ByteIndex.find_not_getD]
    by_cases hword : rest.takeWhile isNameChar = []
    · refine ⟨none, .nothing hknown hword, ?_⟩
      simp [hword]
    refine ⟨_, .word hknown hword, ?_⟩
    have hcut := ByteIndex.sliceTo_append (rest.takeWhile isNameChar) (rest.dropWhile isNameChar)
    rw [List.takeWhile_append_dropWhile] at hcut
    have hlen : ByteIndex.byteLen (rest.takeWhile isNameChar) ≠ 0 := fun h =>
      hword (ByteIndex.byteLen_eq_zero h)
    simp [hlen, hcut]

/-- Nothing is mentioned by an `@` at the end. -/
theorem mentionAt_nil {o : Option String} (h : MentionAt known [] o) : o = none := by
  refine h.unique (fun _ => Iff.rfl) (.nothing ?_ rfl)
  rintro m _ hblank ⟨front, tail, hparts, hlower, _⟩
  obtain ⟨rfl, rfl⟩ := List.append_eq_nil_iff.mp hparts.symm
  have hempty : m = "" := by
    rw [← String.toList_inj]
    exact List.map_eq_nil_iff.mp hlower.symm
  rw [hempty] at hblank
  cases hblank

/-- **One `@`.** No slice panics, and if it counts what is mentioned there is added. -/
theorem atMention_spec (known : List String) (front rest : List Char) (names : List String) :
    ∃ o, MentionAt known rest o
      ∧ atMention (front ++ '@' :: rest) (sortedKnown known) names (ByteIndex.byteLen front)
          = some (if front.getLast?.all isAsciiWhitespace then mention names o else names) := by
  have hslice : ByteIndex.sliceFrom (ByteIndex.byteLen front + 1) (front ++ '@' :: rest) =
      some rest := by
    have h := ByteIndex.sliceFrom_append (front ++ ['@']) rest
    rw [ByteIndex.byteLen_append, List.append_assoc] at h
    exact h
  obtain ⟨o, ho, hlower⟩ := lowerAt_spec known rest
  refine ⟨o, ho, ?_⟩
  unfold atMention
  rw [preceded_eq]
  cases hws : front.getLast?.all isAsciiWhitespace with
  | false => rfl
  | true =>
    simp only [Option.bind_eq_bind, Option.bind_some, Bool.not_true, hslice, hlower]
    cases rest with
    | nil =>
      rw [mentionAt_nil ho]
      rfl
    | cons c rest => rfl

/-- The second scanner adds what is mentioned at each `@` that counts, one after the other. -/
theorem foldlM_atMention (known : List String) (cs : List Char) (front : List Char)
    (names : List String) : ∃ ms, List.Forall₂ (MentionAt known) (eligible front.getLast? cs) ms
      ∧ (ByteIndex.matchIndices '@' (ByteIndex.byteLen front) cs).foldlM
        (atMention (front ++ cs) (sortedKnown known))
          names.eraseDups = some (names ++ ms.reduceOption).eraseDups := by
  induction cs generalizing front names with
  | nil => exact ⟨[], .nil, by simp [ByteIndex.matchIndices, List.reduceOption]⟩
  | cons c rest ih =>
    have hlast : (front ++ [c]).getLast? = some c := by simp
    have hstop : ByteIndex.byteLen (front ++ [c]) = ByteIndex.byteLen front + c.utf8Size := by simp
    have hcontent : front ++ [c] ++ rest = front ++ c :: rest := by simp
    by_cases hc : c = '@'
    · subst hc
      obtain ⟨o, ho, hat⟩ := atMention_spec known front rest names.eraseDups
      cases hws : front.getLast?.all isAsciiWhitespace with
      | false =>
        obtain ⟨ms, hms, hfold⟩ := ih (front ++ ['@']) names
        rw [hlast] at hms
        rw [hcontent, hstop] at hfold
        refine ⟨ms, by simpa [eligible, hws] using hms, ?_⟩
        rw [ByteIndex.matchIndices, if_pos rfl, List.foldlM_cons, hat, hws]
        exact hfold
      | true =>
        obtain ⟨ms, hms, hfold⟩ := ih (front ++ ['@']) (names ++ o.toList)
        rw [hlast] at hms
        rw [hcontent, hstop] at hfold
        refine ⟨o :: ms, ?_, ?_⟩
        · rw [eligible, if_pos ⟨rfl, hws⟩]
          exact .cons ho hms
        · have hadd : mention names.eraseDups o = (names ++ o.toList).eraseDups := by
            cases o with
            | none => simp [mention]
            | some name => exact push_eraseDups names name
          rw [ByteIndex.matchIndices, if_pos rfl, List.foldlM_cons, hat, hws, if_pos rfl, hadd]
          rw [Option.bind_eq_bind, Option.bind_some, hfold]
          cases o <;> simp [List.reduceOption]
    · obtain ⟨ms, hms, hfold⟩ := ih (front ++ [c]) names
      rw [hlast] at hms
      rw [hcontent, hstop] at hfold
      refine ⟨ms, by simpa [eligible, hc] using hms, ?_⟩
      rw [ByteIndex.matchIndices, if_neg hc]
      exact hfold

theorem extractAtMentionsWithKnown_spec (content : String) (known : List String) :
    ∃ ms, List.Forall₂ (MentionAt known) (eligible none content.toList) ms
      ∧ extractAtMentionsWithKnown content known = some ms.reduceOption.eraseDups := by
  unfold extractAtMentionsWithKnown
  split
  · rename_i h
    have hnone : '@' ∉ content.toList := by
      rcases h with rfl | h
      · simp
      · exact h
    rw [eligible_of_notMem hnone]
    exact ⟨[], .nil, rfl⟩
  · exact foldlM_atMention known content.toList [] []

/-! ## Known names -/

/-- The order of the known names and their repetition do not matter. -/
theorem extractAtMentionsWithKnown_congr (content : String) {known' : List String}
    (hsame : ∀ n, n ∈ known ↔ n ∈ known') :
    extractAtMentionsWithKnown content known = extractAtMentionsWithKnown content known' := by
  obtain ⟨ms, hms, hnames⟩ := extractAtMentionsWithKnown_spec content known
  obtain ⟨ms', hms', hnames'⟩ := extractAtMentionsWithKnown_spec content known'
  have hunique : ∀ {rests : List (List Char)} {ms ms' : List (Option String)},
      List.Forall₂ (MentionAt known) rests ms → List.Forall₂ (MentionAt known') rests ms' →
        ms = ms' := by
    intro rests ms ms' h
    induction h generalizing ms' with
    | nil =>
      intro h'
      cases h'
      rfl
    | cons ho _ ih =>
      intro h'
      cases h' with
      | cons ho' hrest' => rw [ho.unique hsame ho', ih hrest']
  rw [hnames, hnames', hunique hms hms']

/-- Where nothing is known, what is mentioned is the word. -/
theorem mentionAt_atWord (hblank : ∀ n ∈ known, blank n = true) (rest : List Char) :
    MentionAt known rest (atWord rest) := by
  have hknown : ∀ m ∈ known, blank m = false → ¬ FollowedBy rest m := by
    intro m hm hnot
    rw [hblank m hm] at hnot
    cases hnot
  unfold atWord
  split
  · rename_i hword
    exact .nothing hknown hword
  · rename_i hword
    exact .word hknown hword

theorem extractAtMentionsWithKnown_of_blank (content : String)
    (hblank : ∀ n ∈ known, blank n = true) :
    extractAtMentionsWithKnown content known = some (extractAtNames content) := by
  obtain ⟨ms, hms, hnames⟩ := extractAtMentionsWithKnown_spec content known
  have hwords : ms = (eligible none content.toList).map atWord := by
    clear hnames
    generalize eligible none content.toList = rests at hms
    induction hms with
    | nil => rfl
    | cons ho _ ih => rw [List.map_cons, ho.unique (fun _ => Iff.rfl) (mentionAt_atWord hblank _),
        ih]
  rw [hnames, hwords, extractAtNames_eq]
  simp [List.reduceOption, List.filterMap_map]

theorem nodup_eraseDups (names : List String) : names.eraseDups.Nodup := by
  induction h : names.length using Nat.strongRecOn generalizing names with
  | ind n ih =>
    cases names with
    | nil => simp
    | cons name names =>
      rw [List.eraseDups_cons, List.nodup_cons]
      refine ⟨by simp, ih _ ?_ _ rfl⟩
      rw [← h]
      exact Nat.lt_succ_of_le (List.length_filter_le _ _)

/-- Where a text begins with a known name, the longest one is mentioned. -/
theorem longest_of_followedBy {rest : List Char} {o : Option String} (ho : MentionAt known rest o)
    {n : String} (hn : n ∈ known) (hblank : blank n = false) (hfollowed : FollowedBy rest n) :
    ∃ name, Longest known rest name ∧ Str.len n ≤ Str.len name ∧
      o = some (Str.toAsciiLowercase name) := by
  cases ho with
  | known name h => exact ⟨name, h, h.longest n hn hblank hfollowed, rfl⟩
  | word hknown _ => exact (hknown n hn hblank hfollowed).elim
  | nothing hknown _ => exact (hknown n hn hblank hfollowed).elim

/-- A name that is mentioned finds every profile of this name, in any case. -/
theorem mem_matchNamesToProfiles {fromStr : String → Option Json} {names : List String}
    {profiles : List MentionProfile}
    {p : MentionProfile} (hp : p ∈ profiles) {value : Json}
    (hvalue : fromStr p.contentJson = some value)
    (hne : profileName value ≠ "") (hmem : Str.toAsciiLowercase (profileName value) ∈ names) :
    p.pubkey ∈ matchNamesToProfiles fromStr names profiles := by
  have hlower : ∀ s : String, Str.toAsciiLowercase (Str.toAsciiLowercase s) =
      Str.toAsciiLowercase s := by
    intro s
    rw [← String.toList_inj, toList_toAsciiLowercase, toList_toAsciiLowercase, List.map_map]
    refine List.map_congr_left fun c _ => ?_
    exact ByteIndex.toLower_toLower c
  have hany : (names.any fun n => Str.eqIgnoreAsciiCase n (profileName value)) = true := by
    refine List.any_eq_true.mpr ⟨_, hmem, ?_⟩
    rw [Str.eqIgnoreAsciiCase, hlower]
    exact beq_self_eq_true _
  have hnames : names.isEmpty = false := by
    cases names with
    | nil => cases hmem
    | cons => rfl
  unfold matchNamesToProfiles
  rw [hnames]
  refine List.mem_filterMap.mpr ⟨p, hp, ?_⟩
  simp only [hvalue, Option.bind_eq_bind, Option.bind_some, if_neg hne, if_pos hany]

/-- **Known names are found whatever their order is.** No slice panics. The names are what is
mentioned at the `@`s that count, each where it is mentioned first; an `@` in front of known names
mentions the longest one, and with the names of profiles this finds each profile of a name that is
the longest one somewhere. -/
theorem known_mentions (content : String) :
    (∀ known known', (∀ n, n ∈ known ↔ n ∈ known') →
        extractAtMentionsWithKnown content known = extractAtMentionsWithKnown content known')
      ∧ (∀ known, (∀ n ∈ known, blank n = true) →
        extractAtMentionsWithKnown content known = some (extractAtNames content))
      ∧ ∀ known, ∃ names ms, extractAtMentionsWithKnown content known = some names
          ∧ names.Nodup
          ∧ List.Forall₂ (MentionAt known) (eligible none content.toList) ms
          ∧ names = ms.reduceOption.eraseDups
          ∧ (∀ (i : Nat) (rest : List Char) (n : String),
            (eligible none content.toList)[i]? = some rest → n ∈ known →
              blank n = false → FollowedBy rest n →
              ∃ name, Longest known rest name ∧ Str.len n ≤ Str.len name
                ∧ ms[i]? = some (some (Str.toAsciiLowercase name)) ∧
                  Str.toAsciiLowercase name ∈ names)
          ∧ ∀ (fromStr : String → Option Json) (profiles : List MentionProfile),
              (∀ n, n ∈ known ↔ n ∈ displayNames fromStr profiles) →
              ∀ p ∈ profiles, ∀ value, fromStr p.contentJson = some value →
                (∃ rest ∈ eligible none content.toList, Longest known rest (profileName value)) →
                p.pubkey ∈ matchNamesToProfiles fromStr names profiles := by
  refine ⟨fun known known' => extractAtMentionsWithKnown_congr content, fun known =>
    extractAtMentionsWithKnown_of_blank content, ?_⟩
  intro known
  obtain ⟨ms, hms, hnames⟩ := extractAtMentionsWithKnown_spec content known
  have hmentioned : ∀ (i : Nat) (rest : List Char) (n : String),
      (eligible none content.toList)[i]? = some rest →
      n ∈ known → blank n = false → FollowedBy rest n →
      ∃ name, Longest known rest name ∧ Str.len n ≤ Str.len name
        ∧ ms[i]? = some (some (Str.toAsciiLowercase name)) ∧
          Str.toAsciiLowercase name ∈ ms.reduceOption.eraseDups := by
    intro i rest n hrest hn hblank hfollowed
    obtain ⟨o, ho, hmention⟩ : ∃ o, ms[i]? = some o ∧ MentionAt known rest o := by
      have hlt : i < ms.length := by
        rw [← hms.length_eq]
        exact (List.getElem?_eq_some_iff.mp hrest).1
      refine ⟨ms[i], List.getElem?_eq_getElem hlt, ?_⟩
      obtain ⟨hi, rfl⟩ := List.getElem?_eq_some_iff.mp hrest
      exact (List.forall₂_iff_get.mp hms).2 i hi hlt
    obtain ⟨name, hlongest, hle, rfl⟩ := longest_of_followedBy hmention hn hblank hfollowed
    refine ⟨name, hlongest, hle, ho, ?_⟩
    rw [List.mem_eraseDups]
    exact List.reduceOption_mem_iff.mpr (List.mem_of_getElem? ho)
  refine ⟨_, ms, hnames, nodup_eraseDups _, hms, rfl, hmentioned, ?_⟩
  rintro fromStr profiles _ p hp value hvalue ⟨rest, hrest, hlongest⟩
  obtain ⟨i, hi⟩ := List.getElem?_of_mem hrest
  obtain ⟨name, hname, _, _, hmem⟩ :=
    hmentioned i rest _ hi hlongest.mem hlongest.notBlank hlongest.followed
  -- both are longest there, so they are equal up to case
  have hlen : Str.len name = Str.len (profileName value) := by
    have := hname.longest _ hlongest.mem hlongest.notBlank hlongest.followed
    have := hlongest.longest _ hname.mem hname.notBlank hname.followed
    omega
  rw [lowercase_unique hname.followed hlongest.followed hlen] at hmem
  refine mem_matchNamesToProfiles hp hvalue ?_ hmem
  intro hempty
  have hblank := hlongest.notBlank
  rw [hempty] at hblank
  cases hblank

/-- A blank name is followed like any other, but it is not taken for a name. -/
theorem blank_name_not_mentioned :
    ∃ content known rest name, rest ∈ eligible none content.toList ∧ name ∈ known ∧
      FollowedBy rest name ∧ (∀ m ∈ known, FollowedBy rest m → Str.len m ≤ Str.len name)
      ∧ ∃ names, extractAtMentionsWithKnown content known = some names ∧
        Str.toAsciiLowercase name ∉ names := by
  have hnames : extractAtMentionsWithKnown "@ x" [""] = some [] :=
    (extractAtMentionsWithKnown_of_blank "@ x" (by decide)).trans (by decide)
  refine ⟨"@ x", [""], [' ', 'x'],
    "", by decide, by simp, ⟨[], [' ', 'x'], rfl, rfl, rfl⟩, ?_, [], hnames, by simp⟩
  intro m hm _
  rw [List.mem_singleton.mp hm]

end Pkzz.Sdk
