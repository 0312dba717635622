import Pkzz.Lib.Str

/-!
# Texts and byte offsets

A `str` is sliced at byte offsets, and a slice that would begin or end inside a character panics.
Here a text is the list of its characters. Slicing splits it, and has no result where the program
would panic. What a search reports is the number of bytes in front of a match, so slicing there is
the split of the list.
-/

namespace Pkzz.Lib.ByteIndex

/-- The number of bytes of a text. -/
def byteLen (cs : List Char) : Nat := (cs.map Char.utf8Size).sum

/-- The text in front of a byte offset and the text from there on, if no character is cut. -/
def splitAt? : Nat → List Char → Option (List Char × List Char)
  | 0, cs => some ([], cs)
  | _ + 1, [] => none
  | n + 1, c :: cs =>
    if c.utf8Size ≤ n + 1 then (splitAt? (n + 1 - c.utf8Size) cs).map fun (front, rest) =>
      (c :: front, rest) else none

/-- `str::get(..n)`. -/
def sliceTo (n : Nat) (cs : List Char) : Option (List Char) := (splitAt? n cs).map Prod.fst

/-- `str::get(n..)`. -/
def sliceFrom (n : Nat) (cs : List Char) : Option (List Char) := (splitAt? n cs).map Prod.snd

/-- `str::get(a..b)`. -/
def slice (a b : Nat) (cs : List Char) : Option (List Char) :=
  if a ≤ b then (sliceFrom a cs).bind (sliceTo (b - a)) else none

/-- `str::find` for a condition on a character. -/
def find (p : Char → Bool) : List Char → Option Nat
  | [] => none
  | c :: cs => if p c then some 0 else (find p cs).map (· + c.utf8Size)

/-- `str::match_indices` for a character, in a text that begins at an offset. -/
def matchIndices (c : Char) : Nat → List Char → List Nat
  | _, [] => []
  | i, d :: cs => if d = c then
      i :: matchIndices c (i + d.utf8Size) cs else matchIndices c (i + d.utf8Size) cs

/-- `u8::is_ascii_whitespace`, and `char::is_ascii_whitespace`. -/
def isAsciiWhitespace (code : Nat) : Bool :=
  code == 0x20 || code == 0x09 || code == 0x0a || code == 0x0c || code == 0x0d

/-! ## Splitting -/

@[simp] theorem byteLen_nil : byteLen [] = 0 := rfl

@[simp] theorem byteLen_cons (c : Char) (cs : List Char) :
    byteLen (c :: cs) = c.utf8Size + byteLen cs := by
  simp [byteLen]

@[simp] theorem byteLen_append (a b : List Char) : byteLen (a ++ b) = byteLen a + byteLen b := by
  simp [byteLen]

/-- A text is as long as its octets. -/
theorem byteLen_eq_length (cs : List Char) :
    byteLen cs = (cs.flatMap String.utf8EncodeChar).length := by
  induction cs with
  | nil => rfl
  | cons c cs ih => simp [ih]

theorem byteLen_eq_zero {cs : List Char} (h : byteLen cs = 0) : cs = [] := by
  cases cs with
  | nil => rfl
  | cons c cs =>
    have := c.utf8Size_pos
    rw [byteLen_cons] at h
    omega

theorem splitAt?_cons (n : Nat) (c : Char) (cs : List Char) :
    splitAt? (n + 1) (c :: cs)
      = if c.utf8Size ≤ n + 1 then (splitAt? (n + 1 - c.utf8Size) cs).map fun (front, rest) =>
        (c :: front, rest) else none :=
  rfl

theorem splitAt?_append (a b : List Char) : splitAt? (byteLen a) (a ++ b) = some (a, b) := by
  induction a with
  | nil => cases b <;> rfl
  | cons c a ih =>
    have hpos := c.utf8Size_pos
    obtain ⟨n, hn⟩ : ∃ n, byteLen (c :: a) = n + 1 :=
      ⟨byteLen (c :: a) - 1, by rw [byteLen_cons]; omega⟩
    have hrest : n + 1 - c.utf8Size = byteLen a := by
      rw [byteLen_cons] at hn
      omega
    rw [hn, List.cons_append, splitAt?_cons, if_pos (by rw [byteLen_cons] at hn; omega), hrest, ih]
    rfl

/-- A split that does not panic is a split of the characters. -/
theorem splitAt?_eq_some {n : Nat} {cs a b : List Char} (h : splitAt? n cs = some (a, b)) :
    cs = a ++ b ∧ byteLen a = n := by
  induction cs generalizing n a with
  | nil =>
    cases n with
    | zero =>
      cases h
      exact ⟨rfl, rfl⟩
    | succ n => cases h
  | cons c cs ih =>
    cases n with
    | zero =>
      cases h
      exact ⟨rfl, rfl⟩
    | succ n =>
      rw [splitAt?_cons] at h
      split at h
      · rename_i hle
        obtain ⟨⟨front, rest⟩, hsplit, heq⟩ := Option.map_eq_some_iff.mp h
        cases heq
        obtain ⟨rfl, hlen⟩ := ih hsplit
        refine ⟨rfl, ?_⟩
        rw [byteLen_cons, hlen]
        omega
      · cases h

theorem sliceTo_append (a b : List Char) : sliceTo (byteLen a) (a ++ b) = some a := by
  rw [sliceTo, splitAt?_append]
  rfl

theorem sliceFrom_append (a b : List Char) : sliceFrom (byteLen a) (a ++ b) = some b := by
  rw [sliceFrom, splitAt?_append]
  rfl

theorem slice_append (a b c : List Char) :
    slice (byteLen a) (byteLen a + byteLen b) (a ++ (b ++ c)) = some b := by
  rw [slice, if_pos (Nat.le_add_right _ _), sliceFrom_append, Nat.add_sub_cancel_left]
  exact sliceTo_append b c

/-- Two fronts of a text of one length are the same. -/
theorem append_inj_of_byteLen {a b c d : List Char} (h : a ++ b = c ++ d)
    (hlen : byteLen a = byteLen c) : a = c ∧ b = d := by
  have hsplit := splitAt?_append a b
  rw [h, hlen, splitAt?_append] at hsplit
  obtain ⟨hac, hbd⟩ := Prod.mk.inj (Option.some.inj hsplit)
  exact ⟨hac.symm, hbd.symm⟩

theorem find_cons (p : Char → Bool) (c : Char) (cs : List Char) :
    find p (c :: cs) = if p c then some 0 else (find p cs).map (· + c.utf8Size) := rfl

/-- A search for the end of a run of characters, which may go to the end of the text. -/
theorem find_not_getD (p : Char → Bool) (cs : List Char) :
    (find (fun c => !p c) cs).getD (byteLen cs) = byteLen (cs.takeWhile p) := by
  induction cs with
  | nil => rfl
  | cons c cs ih =>
    cases hc : p c with
    | false => simp [find_cons, hc]
    | true =>
      cases hfind : find (fun c => !p c) cs with
      | none =>
        rw [hfind] at ih
        simp [find_cons, hc, hfind, ← ih]
      | some i =>
        rw [hfind] at ih
        simp only [Option.getD_some] at ih
        simp [find_cons, hc, hfind, ih]
        omega

/-! ## Letter case -/

theorem toList_toAsciiLowercase (s : String) :
    (Str.toAsciiLowercase s).toList = s.toList.map Char.toLower := by
  rw [Str.toAsciiLowercase, String.toList_ofList]

/-- An upper case letter becomes a lower case one, and other characters stay. -/
theorem toLower_cases (c : Char) :
    (65 ≤ c.toNat ∧ c.toNat ≤ 90 ∧ c.toLower.toNat = c.toNat + 32) ∨
    (¬ (65 ≤ c.toNat ∧ c.toNat ≤ 90) ∧ c.toLower = c) := by
  unfold Char.toLower
  split
  · rename_i h
    have h1 : 65 ≤ c.toNat := UInt32.le_iff_toNat_le.mp h.1
    have h2 : c.toNat ≤ 90 := UInt32.le_iff_toNat_le.mp h.2
    have h32 : ('a'.val - 'A'.val).toNat = 32 := rfl
    have hsum : (c.val + ('a'.val - 'A'.val)).toNat = (c.toNat + 32) % 2 ^ 32 := by
      rw [UInt32.toNat_add, h32]
      rfl
    refine .inl ⟨h1, h2, hsum.trans ?_⟩
    omega
  · rename_i h
    refine .inr ⟨fun hc => h ?_, rfl⟩
    exact ⟨UInt32.le_iff_toNat_le.mpr hc.1, UInt32.le_iff_toNat_le.mpr hc.2⟩

theorem toLower_toLower (c : Char) : c.toLower.toLower = c.toLower := by
  rcases toLower_cases c.toLower with ⟨h1, h2, _⟩ | ⟨_, h⟩
  · rcases toLower_cases c with ⟨h3, h4, h5⟩ | ⟨h3, h4⟩
    · omega
    · rw [h4, h4]
  · exact h

theorem utf8Size_toLower (c : Char) : c.toLower.utf8Size = c.utf8Size := by
  have hsize : ∀ d : Char, d.toNat ≤ 127 → d.utf8Size = 1 := by
    intro d hd
    exact Char.utf8Size_eq_one_iff.mpr (UInt32.le_iff_toNat_le.mpr hd)
  rcases toLower_cases c with ⟨h1, h2, h3⟩ | ⟨_, h⟩
  · rw [hsize c (by omega), hsize c.toLower (by omega)]
  · rw [h]

/-- Texts that differ in ASCII case only are of one length. -/
theorem byteLen_of_toLower {a b : List Char} (h : a.map Char.toLower = b.map Char.toLower) :
    byteLen a = byteLen b := by
  have hsize : ∀ cs : List Char, byteLen (cs.map Char.toLower) = byteLen cs := by
    intro cs
    induction cs with
    | nil => rfl
    | cons c cs ih => rw [List.map_cons, byteLen_cons, byteLen_cons, utf8Size_toLower, ih]
  rw [← hsize a, h, hsize b]

/-! ## The byte in front of an offset -/

/-- The byte in front of an offset is the last one of the character there. -/
theorem getElem?_last (a b : List Char) (c : Char) :
    ((a ++ c :: b).flatMap String.utf8EncodeChar)[byteLen (a ++ [c]) - 1]? =
      (String.utf8EncodeChar c)[c.utf8Size - 1]? := by
  have hpos := c.utf8Size_pos
  have hindex : byteLen (a ++ [c]) - 1 =
      (a.flatMap String.utf8EncodeChar).length + (c.utf8Size - 1) := by
    rw [byteLen_append, byteLen_cons, byteLen_nil, ← byteLen_eq_length]
    omega
  rw [List.flatMap_append, List.flatMap_cons, hindex,
    List.getElem?_append_right (Nat.le_add_right _ _),
    Nat.add_sub_cancel_left,
      List.getElem?_append_left (by rw [String.length_utf8EncodeChar]; omega)]

/-- An ASCII character is its last byte, and the last byte of any other character is not ASCII. -/
theorem last_cases (c : Char) :
    ∃ byte, (String.utf8EncodeChar c)[c.utf8Size - 1]? = some byte ∧
      (byte.toNat = c.toNat ∨ 128 ≤ byte.toNat ∧ 128 ≤ c.toNat) := by
  have hpos := c.utf8Size_pos
  by_cases hascii : c.toNat < 128
  · have hsize : c.utf8Size = 1 := by
      rw [← String.length_utf8EncodeChar, Str.utf8EncodeChar_ascii hascii]
      rfl
    refine ⟨UInt8.ofNat c.toNat, ?_, .inl (UInt8.toNat_ofNat_of_lt' (by simp [UInt8.size]; omega))⟩
    rw [hsize, Str.utf8EncodeChar_ascii hascii]
    rfl
  · have hlt : c.utf8Size - 1 < (String.utf8EncodeChar c).length := by
      rw [String.length_utf8EncodeChar]
      omega
    have hbyte := Str.utf8EncodeChar_not_ascii (by omega) _ (List.getElem_mem hlt)
    exact ⟨_, List.getElem?_eq_getElem hlt, .inr ⟨hbyte, by omega⟩⟩

/-- The last byte of a character is ASCII white space exactly when the character is. -/
theorem isAsciiWhitespace_last (a b : List Char) (c : Char) :
    (((a ++ c :: b).flatMap String.utf8EncodeChar)[byteLen (a ++ [c]) - 1]?).map
    (fun byte => isAsciiWhitespace byte.toNat)
      = some (isAsciiWhitespace c.toNat) := by
  have hnot : ∀ n, 128 ≤ n → isAsciiWhitespace n = false := by
    intro n hn
    simp only [isAsciiWhitespace, Bool.or_eq_false_iff, beq_eq_false_iff_ne]
    omega
  obtain ⟨byte, hbyte, hcases⟩ := last_cases c
  rw [getElem?_last, hbyte, Option.map_some]
  rcases hcases with heq | ⟨hbig, hc⟩
  · rw [heq]
  · rw [hnot _ hbig, hnot _ hc]

end Pkzz.Lib.ByteIndex

namespace Pkzz.Lib.Str

/-! ## Suffixes -/

/-- `str::strip_suffix`. -/
def stripSuffix (s suffix : String) : Option String :=
  if endsWith s suffix then
    some (String.ofList (s.toList.take (s.toList.length - suffix.toList.length))) else none

theorem stripSuffix_append (s suffix : String) : stripSuffix (s ++ suffix) suffix = some s := by
  have hends : endsWith (s ++ suffix) suffix = true := by
    rw [endsWith, String.toList_append, List.isSuffixOf_iff_suffix]
    exact List.suffix_append _ _
  rw [stripSuffix, if_pos hends, String.toList_append, List.length_append, Nat.add_sub_cancel,
    List.take_left', String.ofList_toList]
  rfl

theorem append_of_stripSuffix {s suffix t : String} (h : stripSuffix s suffix = some t) :
    s = t ++ suffix := by
  unfold stripSuffix at h
  split at h
  · rename_i hends
    obtain ⟨front, hfront⟩ := List.isSuffixOf_iff_suffix.mp hends
    cases h
    refine String.toList_inj.mp ?_
    rw [String.toList_append, String.toList_ofList, ← hfront, List.length_append,
      Nat.add_sub_cancel, List.take_left]
  · cases h

theorem stripSuffix_eq_none {s suffix : String} (h : ¬ suffix.toList <:+ s.toList) :
    stripSuffix s suffix = none := by
  rw [stripSuffix, if_neg]
  rw [endsWith, List.isSuffixOf_iff_suffix]
  exact h

end Pkzz.Lib.Str
