import Mathlib.Data.List.Nodup
import Pkzz.Core.Engram

/-!
# What the reference scan finds

A scan can only step over an opener that stands directly behind another bracket of the same
kind: the inner loop stops at every opener, and behind a closer it goes on with the next
byte. So each reference that is not preceded by `[` is found, whatever stands before it.
Both ends of a candidate stand next to ASCII bytes, so it is a slice between characters.
-/

namespace Pkzz.Core.Engram

open Pkzz.Lib

/-- The bytes of a list of characters. -/
abbrev encoded (l : List Char) : List UInt8 := l.flatMap String.utf8EncodeChar

/-! ## Character boundaries -/

theorem slice_of_toList {s : String} {p m q : List Char} (h : s.toList = p ++ (m ++ q)) :
    slice s (encoded p).length ((encoded p).length + (encoded m).length) =
      some (String.ofList m) := by
  have hslice := ByteIndex.slice_append p m q
  rw [ByteIndex.byteLen_eq_length p, ByteIndex.byteLen_eq_length m] at hslice
  rw [slice, h, hslice]
  rfl

variable {l : List Char} {c : Char}

/-- An ASCII byte at a position is a character there. -/
theorem exists_split_of_ascii (hc : c.toNat < 128) {k : Nat}
    (h : (encoded l)[k]? = some (UInt8.ofNat c.toNat)) : ∃ p q, l = p ++ c :: q ∧
    (encoded p).length = k := by
  obtain ⟨hlt, hget⟩ := List.getElem?_eq_some_iff.mp h
  have hsplit : encoded l = (encoded l).take k ++
      UInt8.ofNat c.toNat :: (encoded l).drop (k + 1) := by
    rw [← hget, List.cons_getElem_drop_succ, List.take_append_drop]
  obtain ⟨p, q, hl, hp, -⟩ := Str.flatMap_utf8EncodeChar_ascii hc hsplit
  refine ⟨p, q, hl, ?_⟩
  rw [encoded, ← hp, List.length_take]
  exact Nat.min_eq_left (Nat.le_of_lt hlt)

theorem eq_nil_of_length_encoded (h : (encoded l).length = 0) : l = [] := by
  cases l with
  | nil => rfl
  | cons c l =>
    have hpos : 0 < (String.utf8EncodeChar c).length :=
      List.length_pos_iff.mpr String.utf8EncodeChar_ne_nil
    rw [encoded, List.flatMap_cons, List.length_append] at h
    omega

theorem exists_cons_of_ascii (hc : c.toNat < 128)
    (h : (encoded l)[0]? = some (UInt8.ofNat c.toNat)) : ∃ q, l = c :: q := by
  obtain ⟨p, q, hl, hp⟩ := exists_split_of_ascii hc h
  rw [eq_nil_of_length_encoded hp] at hl
  exact ⟨q, hl⟩

theorem encoded_cons_ascii (hc : c.toNat < 128) (l : List Char) :
    encoded (c :: l) = UInt8.ofNat c.toNat :: encoded l := by
  rw [encoded, List.flatMap_cons, Str.utf8EncodeChar_ascii hc]
  rfl

/-- The two characters of a pair. -/
theorem exists_pair (hc : c.toNat < 128) {k : Nat}
    (h : pairAt (encoded l) (UInt8.ofNat c.toNat) k = true) :
    ∃ p q, l = p ++ c :: c :: q ∧ (encoded p).length = k := by
  unfold pairAt at h
  rw [Bool.and_eq_true, beq_iff_eq, beq_iff_eq] at h
  obtain ⟨p, q, rfl, hp⟩ := exists_split_of_ascii hc h.1
  have hsecond : (encoded q)[0]? = some (UInt8.ofNat c.toNat) := by
    have h2 := h.2
    rw [encoded, List.flatMap_append, ← encoded, ← encoded, encoded_cons_ascii hc,
      List.getElem?_append_right (by omega), hp, Nat.add_sub_cancel_left] at h2
    exact h2
  obtain ⟨q', rfl⟩ := exists_cons_of_ascii hc hsecond
  exact ⟨p, q', rfl, hp⟩

/-! ## Occurrences -/

/-- `[[s]]` stands in the body behind the text `before`. -/
def OccursBehind (body : String) (before : List Char) (s : String) : Prop :=
  ∃ rest, body.toList = before ++ '[' :: '[' :: (s.toList ++ ']' :: ']' :: rest)

/-- A slice from behind an opener to a closer is a reference. -/
theorem occurs_of_pairs {body : String} {i j : Nat}
    (hopen : pairAt (Str.asBytes body) openBracket i = true)
    (hclose : pairAt (Str.asBytes body) closeBracket j = true) (hle : i + 2 ≤ j) :
    ∃ before s, OccursBehind body before s ∧ (encoded before).length = i ∧
      slice body (i + 2) j = some s := by
  obtain ⟨before, q, hl, hbefore⟩ := exists_pair (c := '[') (by decide) hopen
  have hbytes : Str.asBytes body = encoded before ++ 0x5b :: 0x5b :: encoded q := by
    unfold Str.asBytes
    rw [hl, List.flatMap_append]
    rfl
  have hclose' : pairAt (encoded q) (UInt8.ofNat (']' : Char).toNat) (j - (i + 2)) = true := by
    unfold pairAt at hclose ⊢
    rw [hbytes, List.getElem?_append_right (by omega), List.getElem?_append_right (by omega),
      hbefore] at hclose
    obtain ⟨n, rfl⟩ := Nat.exists_eq_add_of_le hle
    rw [show i + 2 + n - i = n + 2 by omega, show i + 2 + n + 1 - i = n + 1 + 2 by omega] at hclose
    rw [show i + 2 + n - (i + 2) = n by omega]
    exact hclose
  obtain ⟨m, rest, hq, hm⟩ := exists_pair (c := ']') (by decide) hclose'
  refine ⟨before, String.ofList m, ⟨rest, ?_⟩, hbefore, ?_⟩
  · rw [hl, hq, String.toList_ofList]
  · have hcut : body.toList = (before ++ ['[', '[']) ++ (m ++ ']' :: ']' :: rest) := by
      rw [hl, hq, List.append_assoc]
      rfl
    have hslice := slice_of_toList hcut
    have hstart : (encoded (before ++ ['[', '['])).length = i + 2 := by
      rw [encoded, List.flatMap_append, List.length_append]
      exact congrArg (· + 2) hbefore
    rw [hstart, hm, show i + 2 + (j - (i + 2)) = j by omega] at hslice
    exact hslice

/-! ## Slugs have no brackets -/

theorem segmentByte_ne {b : UInt8} (h : isSegmentByte b = true) : b ≠ openBracket ∧
    b ≠ closeBracket := by
  constructor
  · rintro rfl
    exact absurd h (by decide)
  · rintro rfl
    exact absurd h (by decide)

theorem isSegmentByte_of_isLowerAlnum {b : UInt8} (h : isLowerAlnum b = true) :
    isSegmentByte b = true := by
  unfold isSegmentByte
  rw [h]
  rfl

theorem bytes_of_validateSegment {s : String} (h : validateSegment s = .ok ()) :
    ∀ b ∈ Str.asBytes s, isSegmentByte b = true := by
  unfold validateSegment at h
  split at h
  · cases h
  rename_i first rest hbytes
  split at h
  · cases h
  split at h
  · cases h
  rename_i hfirst
  split at h
  · rename_i hrest
    rw [hbytes]
    intro b hb
    rcases List.mem_cons.mp hb with rfl | hb
    · exact isSegmentByte_of_isLowerAlnum (by simpa using hfirst)
    · exact List.all_eq_true.mp hrest b hb
  · cases h

theorem segments_of_validateSegments {i : Nat} {segments : List String}
    (h : validateSegments i segments = .ok ()) : ∀ s ∈ segments, validateSegment s = .ok () := by
  induction segments generalizing i with
  | nil => exact fun s hs => nomatch hs
  | cons segment rest ih =>
    rw [validateSegments] at h
    cases hseg : validateSegment segment with
    | error why =>
      rw [hseg] at h
      cases h
    | ok u =>
      rw [hseg] at h
      intro s hs
      rcases List.mem_cons.mp hs with rfl | hs
      · exact hseg
      · exact ih h s hs

/-- A character of a text split at `/` is a slash or in one of the parts. -/
theorem mem_split {s : String} {d : Char} (hc : c ∈ s.toList) :
    c = d ∨ ∃ t ∈ Str.split s d, c ∈ t.toList := by
  have hjoin : [d].intercalate (s.toList.splitOn d) = s.toList := List.intercalate_splitOn d
  rw [← hjoin] at hc
  have hmem : ∀ parts : List (List Char), c ∈ [d].intercalate parts → c = d ∨
      ∃ t ∈ parts, c ∈ t := by
    intro parts hc
    unfold List.intercalate at hc
    obtain ⟨t, ht, hct⟩ := List.mem_flatten.mp hc
    have hsep : t = [d] ∨ t ∈ parts := by
      clear hc hct
      induction parts with
      | nil => cases ht
      | cons p parts ih =>
        cases parts with
        | nil =>
          rw [List.intersperse_singleton] at ht
          exact .inr ht
        | cons p' parts =>
          rw [List.intersperse_cons_cons] at ht
          rcases List.mem_cons.mp ht with rfl | ht
          · exact .inr List.mem_cons_self
          · rcases List.mem_cons.mp ht with rfl | ht
            · exact .inl rfl
            · exact (ih ht).imp id (List.mem_cons_of_mem _)
    rcases hsep with rfl | ht
    · exact .inl (List.mem_singleton.mp hct)
    · exact .inr ⟨t, ht, hct⟩
  rcases hmem _ hc with hd | ⟨t, ht, hct⟩
  · exact .inl hd
  · refine .inr ⟨String.ofList t, List.mem_map_of_mem ht, ?_⟩
    rw [String.toList_ofList]
    exact hct

theorem noBracket_of_validateSlug {s : String} (h : validateSlug s = .ok ()) :
    '[' ∉ s.toList ∧ ']' ∉ s.toList := by
  unfold validateSlug at h
  split at h
  · rename_i hcore
    rw [hcore]
    decide
  split at h
  · cases h
  · split at h
    · cases h
    · rename_i rest hrest
      split at h
      · cases h
      -- the prefix, the slashes and the segments
      have hsegments := segments_of_validateSegments h
      obtain ⟨t, ht, hrest'⟩ := Option.map_eq_some_iff.mp hrest
      obtain ⟨p, hcut, hp⟩ := List.dropPrefix?_eq_some_iff.mp ht
      rw [eq_of_beq hp] at hcut
      have ht' : rest.toList = t := by rw [← hrest', String.toList_ofList]
      have hchar : ∀ c ∈ t, c.toNat < 128 → UInt8.ofNat c.toNat ≠ openBracket ∧
          UInt8.ofNat c.toNat ≠ closeBracket := by
        intro c hc hascii
        rw [← ht'] at hc
        rcases mem_split (d := '/') hc with rfl | ⟨u, hu, hcu⟩
        · decide
        · exact segmentByte_ne
            (bytes_of_validateSegment (hsegments u hu) _ (Str.mem_asBytes_of_ascii hcu hascii))
      rw [hcut]
      constructor
      · intro hmem
        rcases List.mem_append.mp hmem with hmem | hmem
        · exact absurd hmem (by decide)
        · exact (hchar '[' hmem (by decide)).1 (by decide)
      · intro hmem
        rcases List.mem_append.mp hmem with hmem | hmem
        · exact absurd hmem (by decide)
        · exact (hchar ']' hmem (by decide)).2 (by decide)

/-! ## First occurrences -/

/-- Each member once, in the order of first occurrence. -/
structure FirstsOf {A : Type} [DecidableEq A] (firsts all : List A) : Prop where
  nodup : firsts.Nodup
  mem_iff : ∀ a, a ∈ firsts ↔ a ∈ all
  ordered : firsts.Pairwise fun a b => all.idxOf a < all.idxOf b

theorem FirstsOf.push {A : Type} [DecidableEq A] {firsts all : List A}
    (h : FirstsOf firsts all) (a : A) :
    FirstsOf (if firsts.contains a then firsts else firsts ++ [a]) (all ++ [a]) := by
  have hkept : firsts.Pairwise fun b c => (all ++ [a]).idxOf b < (all ++ [a]).idxOf c := by
    refine h.ordered.imp_of_mem ?_
    intro b c hb hc hlt
    rw [List.idxOf_append_of_mem ((h.mem_iff b).mp hb),
      List.idxOf_append_of_mem ((h.mem_iff c).mp hc)]
    exact hlt
  by_cases ha : a ∈ firsts
  · rw [if_pos (List.contains_iff_mem.mpr ha)]
    refine ⟨h.nodup, fun b => ?_, hkept⟩
    rw [List.mem_append, List.mem_singleton, h.mem_iff]
    refine (or_iff_left_of_imp ?_).symm
    rintro rfl
    exact (h.mem_iff b).mp ha
  · rw [if_neg (fun hc => ha (List.contains_iff_mem.mp hc))]
    refine ⟨?_, fun b => ?_, ?_⟩
    · exact h.nodup.append (List.nodup_singleton a) (List.disjoint_singleton.mpr ha)
    · rw [List.mem_append, List.mem_append, h.mem_iff]
    · refine List.pairwise_append.mpr ⟨hkept, List.pairwise_singleton _ _, ?_⟩
      intro b hb c hc
      have hall : a ∉ all := fun hmem => ha ((h.mem_iff a).mpr hmem)
      rw [List.mem_singleton.mp hc, List.idxOf_append_of_mem ((h.mem_iff b).mp hb),
        List.idxOf_append_of_notMem hall]
      have hlt := List.idxOf_lt_length_of_mem ((h.mem_iff b).mp hb)
      omega

theorem FirstsOf.foldl {A : Type} [DecidableEq A] {firsts all : List A} (h : FirstsOf firsts all)
    (l : List A) :
    FirstsOf (l.foldl (fun out a => if out.contains a then out else out ++ [a]) firsts)
      (all ++ l) := by
  induction l generalizing firsts all with
  | nil =>
    rw [List.append_nil]
    exact h
  | cons a l ih =>
    rw [List.foldl_cons, List.append_cons all]
    exact ih (h.push a)

theorem firstsOf_nil {A : Type} [DecidableEq A] : FirstsOf ([] : List A) [] :=
  ⟨List.nodup_nil, fun _ => Iff.rfl, List.Pairwise.nil⟩

/-! ## The scan -/

variable {bytes : List UInt8} {body : String} {i j : Nat}

/-- A closer that was found: no opener stands before it. -/
theorem findClose_closed (h : (findClose bytes j).2 = true) :
    pairAt bytes closeBracket (findClose bytes j).1 = true ∧
      ∀ k, j ≤ k → k < (findClose bytes j).1 → pairAt bytes openBracket k = false := by
  fun_induction findClose bytes j with
  | case1 => cases h
  | case2 j _ _ hclose => exact ⟨hclose, fun k hk hlt => absurd hlt (Nat.not_lt.mpr hk)⟩
  | case3 j _ hopen _ ih =>
    obtain ⟨hclose, hbefore⟩ := ih h
    refine ⟨hclose, fun k hk hlt => ?_⟩
    rcases Nat.eq_or_lt_of_le hk with rfl | hk
    · exact Bool.eq_false_iff.mpr hopen
    · exact hbefore k hk hlt
  | case4 => cases h

theorem findClose_eq {e : Nat} (he : e + 1 < bytes.length)
    (hclose : pairAt bytes closeBracket e = true)
    (hopen : ∀ k, j ≤ k → k ≤ e → pairAt bytes openBracket k = false)
    (hbefore : ∀ k, j ≤ k → k < e → pairAt bytes closeBracket k = false) (hle : j ≤ e) :
    findClose bytes j = (e, true) := by
  obtain ⟨n, rfl⟩ := Nat.exists_eq_add_of_le hle
  induction n generalizing j with
  | zero =>
    rw [Nat.add_zero] at he hclose ⊢
    rw [findClose, if_pos he, hopen j (Nat.le_refl _) hle, hclose]
    rfl
  | succ n ih =>
    rw [findClose, if_pos (by omega), hopen j (Nat.le_refl _) hle,
      hbefore j (Nat.le_refl _) (by omega)]
    have hshift : j + (n + 1) = j + 1 + n := by omega
    rw [hshift] at he hclose hopen hbefore ⊢
    exact ih he hclose (fun k hk => hopen k (by omega)) (fun k hk => hbefore k (by omega))
      (by omega)

/-- The occurrences the scan reports from a position on. -/
def reported (body : String) (bytes : List UInt8) (i : Nat) : List (Nat × String) :=
  if i + 3 < bytes.length then
    if pairAt bytes openBracket i then
      if (findClose bytes (i + 2)).2 then
        match slice body (i + 2) (findClose bytes (i + 2)).1 with
        | none => []
        | some candidate =>
          let later := reported body bytes ((findClose bytes (i + 2)).1 + 2)
          if (validateSlug candidate).isOk then (i, candidate) :: later else later
      else reported body bytes (i + 2)
    else reported body bytes (i + 1)
  else []
termination_by bytes.length - i
decreasing_by
  · have hle := le_findClose bytes (i + 2)
    omega
  · omega
  · omega

theorem reported_of_slice {candidate : String} (hlen : i + 3 < bytes.length)
    (hopen : pairAt bytes openBracket i = true) (hclosed : (findClose bytes (i + 2)).2 = true)
    (hslice : slice body (i + 2) (findClose bytes (i + 2)).1 = some candidate) :
    reported body bytes i = if (validateSlug candidate).isOk then
        (i, candidate) :: reported body bytes ((findClose bytes (i + 2)).1 + 2)
      else reported body bytes ((findClose bytes (i + 2)).1 + 2) := by
  rw [reported.eq_def body bytes i, if_pos hlen, if_pos hopen, if_pos hclosed, hslice]

theorem reported_of_not_closed (hlen : i + 3 < bytes.length)
    (hopen : pairAt bytes openBracket i = true)
    (hclosed : ¬ (findClose bytes (i + 2)).2 = true) :
    reported body bytes i = reported body bytes (i + 2) := by
  rw [reported.eq_def body bytes i, if_pos hlen, if_pos hopen, if_neg hclosed]

theorem reported_of_not_open (hlen : i + 3 < bytes.length)
    (hopen : ¬ pairAt bytes openBracket i = true) :
    reported body bytes i = reported body bytes (i + 1) := by
  rw [reported.eq_def body bytes i, if_pos hlen, if_neg hopen]

theorem reported_of_end (hlen : ¬ i + 3 < bytes.length) : reported body bytes i = [] := by
  rw [reported.eq_def body bytes i, if_neg hlen]

/-- The scan collects the first occurrence of each slug it reports, and no slice fails. -/
theorem extractLoop_eq (body : String) (i : Nat) (out : List String) :
    extractLoop body (Str.asBytes body) i out =
      some (((reported body (Str.asBytes body) i).map Prod.snd).foldl
      (fun out s => if out.contains s then out else out ++ [s]) out) := by
  fun_induction extractLoop body (Str.asBytes body) i out with
  | case1 i out hlen hopen start hclosed hslice =>
    obtain ⟨_, s, _, _, hsome⟩ :=
      occurs_of_pairs hopen (findClose_closed hclosed).1 (le_findClose _ _)
    rw [hslice] at hsome
    cases hsome
  | case2 i out hlen hopen start hclosed candidate hslice ih =>
    rw [ih, reported_of_slice hlen hopen hclosed hslice, report]
    by_cases hok : (validateSlug candidate).isOk = true
    · rw [if_pos hok, List.map_cons, List.foldl_cons, hok]
      congr 2
      cases out.contains candidate <;> rfl
    · rw [if_neg hok, Bool.eq_false_iff.mpr hok]
      rfl
  | case3 i out hlen hopen start hclosed ih => rw [ih, reported_of_not_closed hlen hopen hclosed]
  | case4 i out hlen hopen ih => rw [ih, reported_of_not_open hlen hopen]
  | case5 i out hlen => rw [reported_of_end hlen, List.map_nil, List.foldl_nil]

/-- What is reported is a reference to a slug, at its place. -/
theorem reported_sound {e : Nat × String} (h : e ∈ reported body (Str.asBytes body) i) :
    i ≤ e.1 ∧ validateSlug e.2 = .ok () ∧ ∃ before, OccursBehind body before e.2 ∧
      (encoded before).length = e.1 := by
  fun_induction reported body (Str.asBytes body) i with
  | case1 => cases h
  | case2 i hlen hopen hclosed candidate hslice later hok ih =>
    have hle := le_findClose (Str.asBytes body) (i + 2)
    rcases List.mem_cons.mp h with rfl | h
    · obtain ⟨before, s, hoccurs, hbefore, hsome⟩ :=
        occurs_of_pairs hopen (findClose_closed hclosed).1 hle
      rw [hslice] at hsome
      refine ⟨Nat.le_refl _, ?_, before, Option.some.inj hsome ▸ hoccurs, hbefore⟩
      cases hv : validateSlug candidate with
      | ok u => rfl
      | error why =>
        rw [hv] at hok
        cases hok
    · obtain ⟨hi, hrest⟩ := ih h
      exact ⟨by omega, hrest⟩
  | case3 i hlen hopen hclosed candidate hslice later hok ih =>
    have hle := le_findClose (Str.asBytes body) (i + 2)
    obtain ⟨hi, hrest⟩ := ih h
    exact ⟨by omega, hrest⟩
  | case4 i hlen hopen hclosed ih =>
    obtain ⟨hi, hrest⟩ := ih h
    exact ⟨by omega, hrest⟩
  | case5 i hlen hopen ih =>
    obtain ⟨hi, hrest⟩ := ih h
    exact ⟨by omega, hrest⟩
  | case6 => cases h

theorem reported_pairwise (body : String) (i : Nat) :
    (reported body (Str.asBytes body) i).Pairwise fun a b => a.1 < b.1 := by
  fun_induction reported body (Str.asBytes body) i with
  | case1 => exact List.Pairwise.nil
  | case2 i hlen hopen hclosed candidate hslice later hok ih =>
    have hle := le_findClose (Str.asBytes body) (i + 2)
    refine List.pairwise_cons.mpr ⟨fun e he => ?_, ih⟩
    have hi := (reported_sound he).1
    omega
  | case3 i hlen hopen hclosed candidate hslice later hok ih => exact ih
  | case4 i hlen hopen hclosed ih => exact ih
  | case5 i hlen hopen ih => exact ih
  | case6 => exact List.Pairwise.nil

/-- A reference as the scan sees it: an opener that is not preceded by another bracket, and a
closer before which nothing opens or closes. -/
structure Reference (bytes : List UInt8) (q e : Nat) : Prop where
  opener : pairAt bytes openBracket q = true
  first : ∀ k, q = k + 1 → bytes[k]? ≠ some openBracket
  le : q + 2 ≤ e
  lt : e + 1 < bytes.length
  closer : pairAt bytes closeBracket e = true
  noOpener : ∀ k, q + 2 ≤ k → k ≤ e → pairAt bytes openBracket k = false
  noCloser : ∀ k, q + 2 ≤ k → k < e → pairAt bytes closeBracket k = false

theorem Reference.findClose {q e : Nat} (h : Reference bytes q e) :
    findClose bytes (q + 2) = (e, true) :=
  findClose_eq h.lt h.closer h.noOpener h.noCloser h.le

/-- The second byte of an opener does not start a reference. -/
theorem Reference.ne_succ {q e : Nat} (h : Reference bytes q e)
    (hopen : pairAt bytes openBracket i = true) : q ≠ i + 1 := by
  intro hq
  unfold pairAt at hopen
  rw [Bool.and_eq_true, beq_iff_eq] at hopen
  exact h.first i hq hopen.1

/-- An opener is not a closer. -/
theorem not_closer {q : Nat} (hopen : pairAt bytes openBracket q = true) :
    bytes[q]? ≠ some closeBracket := by
  unfold pairAt at hopen
  rw [Bool.and_eq_true, beq_iff_eq] at hopen
  rw [hopen.1]
  decide

/-- Between an opener and its closer no other reference begins. -/
theorem behind_closer {q e : Nat} (href : Reference bytes q e)
    (hopen : pairAt bytes openBracket i = true)
    (hclosed : (findClose bytes (i + 2)).2 = true) (hi : i < q) :
    (findClose bytes (i + 2)).1 + 2 ≤ q := by
  obtain ⟨hclose, hbefore⟩ := findClose_closed hclosed
  have hne := href.ne_succ hopen
  unfold pairAt at hclose
  rw [Bool.and_eq_true, beq_iff_eq, beq_iff_eq] at hclose
  by_contra hnot
  rcases Nat.lt_or_ge q (findClose bytes (i + 2)).1 with hlt | hge
  · have hnone := hbefore q (by omega) hlt
    rw [href.opener] at hnone
    cases hnone
  -- it would begin with a closing bracket
  rcases Nat.eq_or_lt_of_le hge with heq | hlt
  · rw [heq] at hclose
    exact not_closer href.opener hclose.1
  · rw [show q = (findClose bytes (i + 2)).1 + 1 by omega] at href
    exact not_closer href.opener hclose.2

/-- **No reference is stepped over.** -/
theorem reported_complete {q e : Nat} (href : Reference (Str.asBytes body) q e) (hi : i ≤ q)
    {s : String} (hslice : slice body (q + 2) e = some s) (hok : (validateSlug s).isOk = true) :
    (q, s) ∈ reported body (Str.asBytes body) i := by
  have hlt := href.lt
  have hle := href.le
  fun_induction reported body (Str.asBytes body) i with
  | case1 i hlen hopen hclosed hnone =>
    obtain ⟨_, _, _, _, hsome⟩ :=
      occurs_of_pairs hopen (findClose_closed hclosed).1 (le_findClose _ _)
    rw [hnone] at hsome
    cases hsome
  | case2 i hlen hopen hclosed candidate hcand later hvalid ih =>
    rcases Nat.eq_or_lt_of_le hi with rfl | hlt'
    · rw [href.findClose, hslice] at hcand
      rw [Option.some.inj hcand]
      exact List.mem_cons_self
    · exact List.mem_cons_of_mem _ (ih (behind_closer href hopen hclosed hlt'))
  | case3 i hlen hopen hclosed candidate hcand later hvalid ih =>
    rcases Nat.eq_or_lt_of_le hi with rfl | hlt'
    · rw [href.findClose, hslice] at hcand
      rw [Option.some.inj hcand] at hok
      exact absurd hok hvalid
    · exact ih (behind_closer href hopen hclosed hlt')
  | case4 i hlen hopen hclosed ih =>
    rcases Nat.eq_or_lt_of_le hi with rfl | hlt'
    · rw [href.findClose] at hclosed
      exact absurd rfl hclosed
    · have hne := href.ne_succ hopen
      exact ih (by omega)
  | case5 i hlen hopen ih =>
    rcases Nat.eq_or_lt_of_le hi with rfl | hlt'
    · exact absurd href.opener hopen
    · exact ih hlt'
  | case6 i hlen => omega

/-! ## References of a text -/

/-- A text without the ASCII character has no byte of it. -/
theorem getElem?_encoded_ne (hc : c.toNat < 128) (h : c ∉ l) (k : Nat) :
    (encoded l)[k]? ≠ some (UInt8.ofNat c.toNat) := by
  intro hk
  obtain ⟨p, q, rfl, -⟩ := exists_split_of_ascii hc hk
  exact h (List.mem_append_right _ List.mem_cons_self)

section Occurrence

variable {before rest : List Char} {s : String}

theorem asBytes_of_occurs
    (h : body.toList = before ++ '[' :: '[' :: (s.toList ++ ']' :: ']' :: rest)) :
    Str.asBytes body = encoded before ++
      (openBracket :: openBracket ::
        (encoded s.toList ++ closeBracket :: closeBracket :: encoded rest)) := by
  unfold Str.asBytes
  rw [h, List.flatMap_append, List.flatMap_cons, List.flatMap_cons, List.flatMap_append]
  rfl

/-- A byte of an occurrence, counted from its opener. -/
theorem getElem?_occurs (h : body.toList = before ++ '[' :: '[' :: (s.toList ++ ']' :: ']' :: rest))
    (n : Nat) : (Str.asBytes body)[(encoded before).length + n]? =
      (openBracket :: openBracket ::
        (encoded s.toList ++ closeBracket :: closeBracket :: encoded rest))[n]? := by
  rw [asBytes_of_occurs h, List.getElem?_append_right (Nat.le_add_right _ _),
    Nat.add_sub_cancel_left]

/-- And from the start of what it names. -/
theorem getElem?_named (h : body.toList = before ++ '[' :: '[' :: (s.toList ++ ']' :: ']' :: rest))
    (n : Nat) : (Str.asBytes body)[(encoded before).length + 2 + n]? =
      (encoded s.toList ++ closeBracket :: closeBracket :: encoded rest)[n]? := by
  rw [Nat.add_assoc, getElem?_occurs h, Nat.add_comm 2 n]
  rfl

/-- The two closing brackets. -/
theorem getElem?_closer (h : body.toList = before ++ '[' :: '[' :: (s.toList ++ ']' :: ']' :: rest))
    {n : Nat} (hn : n < 2) :
    (Str.asBytes body)[(encoded before).length + 2 + (encoded s.toList).length + n]? =
    some closeBracket := by
  rw [Nat.add_assoc, getElem?_named h, List.getElem?_append_right (Nat.le_add_right _ _),
    Nat.add_sub_cancel_left]
  rcases Nat.lt_or_ge n 1 with h0 | h1
  · rw [Nat.lt_one_iff.mp h0]
    rfl
  · rw [show n = 1 by omega]
    rfl

/-- Inside a name without brackets no pair begins. -/
theorem pairAt_named (h : body.toList = before ++ '[' :: '[' :: (s.toList ++ ']' :: ']' :: rest))
    {c : Char}
    (hc : c.toNat < 128) (hnot : c ∉ s.toList) {k : Nat} (hk : (encoded before).length + 2 ≤ k)
    (hlt : k < (encoded before).length + 2 + (encoded s.toList).length) :
    pairAt (Str.asBytes body) (UInt8.ofNat c.toNat) k = false := by
  obtain ⟨n, rfl⟩ := Nat.exists_eq_add_of_le hk
  have hne : (Str.asBytes body)[(encoded before).length + 2 + n]? ≠ some (UInt8.ofNat c.toNat) := by
    rw [getElem?_named h, List.getElem?_append_left (by omega)]
    exact getElem?_encoded_ne hc hnot n
  unfold pairAt
  rw [Bool.and_eq_false_iff, beq_eq_false_iff_ne]
  exact .inl hne

/-- The byte before the opener is the last one of the text before it. -/
theorem getElem?_preceding
    (h : body.toList = before ++ '[' :: '[' :: (s.toList ++ ']' :: ']' :: rest))
    (hfirst : before.getLast? ≠ some '[') {k : Nat} (hk : (encoded before).length = k + 1) :
    (Str.asBytes body)[k]? ≠ some openBracket := by
  intro hbyte
  rw [asBytes_of_occurs h, List.getElem?_append_left (by omega)] at hbyte
  obtain ⟨p, q, hsplit, hp⟩ := exists_split_of_ascii (c := '[') (by decide) hbyte
  have hlen : (encoded before).length = (encoded p).length + (1 + (encoded q).length) := by
    rw [hsplit, encoded, List.flatMap_append, List.flatMap_cons, List.length_append,
      List.length_append]
    rfl
  have hq : q = [] := eq_nil_of_length_encoded (by omega)
  rw [hsplit, hq, List.getLast?_concat] at hfirst
  exact hfirst rfl

/-- A reference to a slug, seen as the scan sees it. -/
theorem reference_of_occurs (h : OccursBehind body before s) (hfirst : before.getLast? ≠ some '[')
    (hopen : '[' ∉ s.toList) (hclose : ']' ∉ s.toList) :
    Reference (Str.asBytes body) (encoded before).length
      ((encoded before).length + 2 + (encoded s.toList).length) := by
  obtain ⟨rest, hbody⟩ := h
  have hlen := congrArg List.length (asBytes_of_occurs hbody)
  simp only [List.length_append, List.length_cons] at hlen
  refine ⟨?_, fun k hk => getElem?_preceding hbody hfirst hk, by omega, by omega, ?_, ?_, ?_⟩
  · unfold pairAt
    rw [getElem?_occurs hbody 1, ← Nat.add_zero (encoded before).length, getElem?_occurs hbody 0]
    rfl
  · unfold pairAt
    rw [getElem?_closer hbody (by omega), ← Nat.add_zero ((encoded before).length + 2 + _),
      getElem?_closer hbody (by omega)]
    rfl
  · intro k hk hle
    rcases Nat.eq_or_lt_of_le hle with rfl | hlt
    · unfold pairAt
      have hend : _ = some closeBracket := getElem?_closer hbody (n := 0) (by omega)
      rw [Nat.add_zero] at hend
      rw [hend]
      rfl
    · exact pairAt_named hbody (c := '[') (by decide) hopen hk hlt
  · intro k hk hlt
    exact pairAt_named hbody (c := ']') (by decide) hclose hk hlt

theorem slice_of_occurs (h : OccursBehind body before s) :
    slice body ((encoded before).length + 2)
      ((encoded before).length + 2 + (encoded s.toList).length) = some s := by
  obtain ⟨rest, hbody⟩ := h
  have hcut : body.toList = (before ++ ['[', '[']) ++ (s.toList ++ ']' :: ']' :: rest) := by
    rw [hbody, List.append_assoc]
    rfl
  have hstart : (encoded (before ++ ['[', '['])).length = (encoded before).length + 2 := by
    rw [encoded, List.flatMap_append, List.length_append]
    rfl
  have hslice := slice_of_toList hcut
  rw [hstart, String.ofList_toList] at hslice
  exact hslice

end Occurrence

/-- **The references of a text.** The scan ends without slicing inside a character. What it
returns are the first occurrences of what it reports, from left to right; each report is a
reference to a valid slug at its place, and every reference to a valid slug that is not
preceded by `[` is reported. -/
theorem extractRefs_spec (body : String) :
    ∃ (refs : List String) (found : List (Nat × String)), extractRefs body = some refs ∧
      FirstsOf refs (found.map Prod.snd) ∧ found.Pairwise (fun a b => a.1 < b.1) ∧
      (∀ place s, (place, s) ∈ found → validateSlug s = .ok () ∧
        ∃ before, OccursBehind body before s ∧ (encoded before).length = place) ∧
      ∀ before s, OccursBehind body before s →
        before.getLast? ≠ some '[' → validateSlug s = .ok () →
        ((encoded before).length, s) ∈ found := by
  refine ⟨_, reported body (Str.asBytes body) 0, extractLoop_eq body 0 [], ?_,
    reported_pairwise body 0, ?_, ?_⟩
  · exact firstsOf_nil.foldl _
  · intro place s hfound
    exact (reported_sound hfound).2
  · intro before s hoccurs hfirst hvalid
    obtain ⟨hopen, hclose⟩ := noBracket_of_validateSlug hvalid
    refine reported_complete (reference_of_occurs hoccurs hfirst hopen hclose) (Nat.zero_le _)
      (slice_of_occurs hoccurs) ?_
    rw [hvalid]
    rfl

end Pkzz.Core.Engram
