import Mathlib.Algebra.GroupWithZero.Nat
import Mathlib.Data.List.Infix
import Pkzz.Lib.PrefixCode

/-!
# Strings as programs see them

Rust's `str` is UTF-8 text: `chars()` sees code points, `len()` and `as_bytes()` see
octets, `to_string()` on an unsigned integer gives its decimal digits. Lean's `String`
carries the same text; the functions here are the ones a Rust program applies to it.
-/

namespace Pkzz.Lib.Str

/-- `str::as_bytes`: the UTF-8 octets. -/
def asBytes (s : String) : List UInt8 := s.toList.flatMap String.utf8EncodeChar

/-- `str::len`: the number of octets, not of characters. -/
def len (s : String) : Nat := (asBytes s).length

/-- `str::starts_with` for a string pattern. -/
def startsWith (s p : String) : Bool := p.toList.isPrefixOf s.toList

/-- `str::ends_with` for a string pattern. -/
def endsWith (s p : String) : Bool := p.toList.isSuffixOf s.toList

/-- `str::contains` for a string pattern. -/
def contains (s p : String) : Bool := decide (p.toList <:+: s.toList)

/-- `str::strip_prefix` for a string pattern. -/
def stripPrefix (s p : String) : Option String :=
  (s.toList.dropPrefix? p.toList).map String.ofList

/-- `str::split` on one character. -/
def split (s : String) (c : Char) : List String := (s.toList.splitOn c).map String.ofList

/-- `char::is_ascii_hexdigit`. -/
def isAsciiHexdigit (c : Char) : Bool :=
  c.isDigit || ('a' ≤ c && c ≤ 'f') || ('A' ≤ c && c ≤ 'F')

/-- `str::to_ascii_lowercase`. -/
def toAsciiLowercase (s : String) : String := String.ofList (s.toList.map Char.toLower)

/-- `str::eq_ignore_ascii_case`. -/
def eqIgnoreAsciiCase (s t : String) : Bool := toAsciiLowercase s == toAsciiLowercase t

/-- `char::is_whitespace`: the code points with the property `White_Space`. -/
def isWhitespace (c : Char) : Bool :=
  (0x09 ≤ c.toNat && c.toNat ≤ 0x0d) || c.toNat == 0x20 || c.toNat == 0x85 || c.toNat == 0xa0
    || c.toNat == 0x1680 || (0x2000 ≤ c.toNat && c.toNat ≤ 0x200a) || c.toNat == 0x2028
    || c.toNat == 0x2029 || c.toNat == 0x202f || c.toNat == 0x205f || c.toNat == 0x3000

/-- `str::trim`. -/
def trim (s : String) : String :=
  String.ofList (((s.toList.dropWhile isWhitespace).reverse.dropWhile isWhitespace).reverse)

theorem isAlpha_range {c : Char} (h : c.isAlpha = true) :
    65 ≤ c.toNat ∧ c.toNat ≤ 90 ∨ 97 ≤ c.toNat ∧ c.toNat ≤ 122 := by
  replace h : (decide (65 ≤ c.val ∧ c.val ≤ 90) || (decide (97 ≤ c.val) && decide (c.val ≤ 122))) =
    true := h
  simp only [Bool.or_eq_true, Bool.and_eq_true, decide_eq_true_eq, UInt32.le_iff_toNat_le] at h
  exact h

theorem dropWhile_of_forall {l : List Char} {p : Char → Bool} (h : ∀ c ∈ l, p c = false) :
    l.dropWhile p = l := by
  cases l with
  | nil => rfl
  | cons c l => rw [List.dropWhile_cons_of_neg (by simp [h c (by simp)])]

variable {s : String}

/-- Text without white space is not changed by trimming. -/
theorem trim_of_forall (h : ∀ c ∈ s.toList, isWhitespace c = false) : trim s = s := by
  unfold trim
  rw [dropWhile_of_forall h, dropWhile_of_forall (fun c hc => h c (List.mem_reverse.mp hc)),
    List.reverse_reverse, String.ofList_toList]

/-! ## Splitting -/

variable {c : Char}

theorem split_of_notMem (h : c ∉ s.toList) : split s c = [s] := by
  unfold split
  rw [List.splitOn_eq_singleton h, List.map_singleton, String.ofList_toList]

/-- What stands before the first separator, and the split of what stands behind it. -/
theorem split_append {t u : String} (h : c ∉ s.toList) (ht : t.toList = [c]) :
    split (s ++ t ++ u) c = s :: split u c := by
  unfold split
  rw [String.toList_append, String.toList_append, ht, List.append_assoc, List.singleton_append,
    List.splitOn_append_cons_self_of_not_mem h, List.map_cons, String.ofList_toList]

/-- The parts determine the text. -/
theorem split_inj {t : String} (h : split s c = split t c) : s = t := by
  have hinj : Function.Injective String.ofList := fun a b hab => String.ofList_inj.mp hab
  have hparts : s.toList.splitOn c = t.toList.splitOn c := List.map_injective_iff.mpr hinj h
  have hjoin := congrArg ([c].intercalate ·) hparts
  simp only [List.intercalate_splitOn] at hjoin
  exact String.toList_inj.mp hjoin

theorem infix_intercalate {sep l : List Char} : ∀ {ls : List (List Char)}, l ∈ ls →
    l <:+: sep.intercalate ls
  | [], h => nomatch h
  | [l'], h => by
    rw [List.mem_singleton.mp h, List.intercalate_singleton]
  | l' :: l'' :: ls, h => by
    rw [List.intercalate_cons_cons]
    rcases List.mem_cons.mp h with rfl | h
    · exact ⟨[], sep ++ sep.intercalate (l'' :: ls), by simp⟩
    · exact (infix_intercalate h).trans (List.suffix_append _ _).isInfix

/-- A part is contained in the text. -/
theorem contains_of_mem_split {t : String} (h : t ∈ split s c) : contains s t = true := by
  obtain ⟨l, hl, rfl⟩ := List.mem_map.mp h
  unfold contains
  have hin := @infix_intercalate [c] l _ hl
  rw [List.intercalate_splitOn] at hin
  rw [String.toList_ofList]
  exact decide_eq_true hin

theorem stripPrefix_append (p s : String) : stripPrefix (p ++ s) p = some s := by
  have hdrop : (p.toList ++ s.toList).dropPrefix? p.toList = some s.toList := by
    rw [List.dropPrefix?_eq_some_iff]
    exact ⟨p.toList, rfl, beq_self_eq_true _⟩
  rw [stripPrefix, String.toList_append, hdrop, Option.map_some, String.ofList_toList]

/-! ## Octets -/

theorem asBytes_inj {t : String} (h : asBytes s = asBytes t) : s = t := by
  have hs : s.toByteArray = (asBytes s).toByteArray := String.utf8Encode_toList.symm
  have ht : t.toByteArray = (asBytes t).toByteArray := String.utf8Encode_toList.symm
  exact String.toByteArray_inj.mp (by rw [hs, ht, h])

theorem asBytes_append (s t : String) : asBytes (s ++ t) = asBytes s ++ asBytes t := by
  unfold asBytes
  rw [String.toList_append, List.flatMap_append]

theorem len_append (s t : String) : len (s ++ t) = len s + len t := by
  rw [len, asBytes_append, List.length_append, ← len, ← len]

theorem asBytes_eq_nil (h : asBytes s = []) : s = "" :=
  asBytes_inj h

/-- An ASCII character is one octet, its own code. -/
theorem utf8EncodeChar_ascii (h : c.toNat < 128) :
    String.utf8EncodeChar c = [UInt8.ofNat c.toNat] := by
  have hv : c.val.toNat ≤ 127 := Nat.le_of_lt_succ h
  unfold String.utf8EncodeChar
  simp only [if_pos hv]
  rfl

/-- No octet of any other character is an ASCII code. -/
theorem utf8EncodeChar_not_ascii (h : 128 ≤ c.toNat) :
    ∀ b ∈ String.utf8EncodeChar c, 128 ≤ b.toNat := by
  have hv : ¬ c.val.toNat ≤ 127 := Nat.not_le.mpr h
  intro b hb
  unfold String.utf8EncodeChar at hb
  simp only [if_neg hv] at hb
  split at hb
  · simp only [List.mem_cons, List.not_mem_nil, or_false] at hb
    rcases hb with hb | hb <;> rw [hb] <;> simp <;> omega
  split at hb
  · simp only [List.mem_cons, List.not_mem_nil, or_false] at hb
    rcases hb with hb | hb | hb <;> rw [hb] <;> simp <;> omega
  · simp only [List.mem_cons, List.not_mem_nil, or_false] at hb
    rcases hb with hb | hb | hb | hb <;> rw [hb] <;> simp <;> omega

/-- An ASCII code among the octets of a text stands for a character of the text. -/
theorem flatMap_utf8EncodeChar_ascii : ∀ {l : List Char} {x y : List UInt8} {c : Char},
    c.toNat < 128 → l.flatMap String.utf8EncodeChar = x ++ UInt8.ofNat c.toNat :: y →
    ∃ p q, l = p ++ c :: q ∧ x = p.flatMap String.utf8EncodeChar
      ∧ y = q.flatMap String.utf8EncodeChar
  | [], x, y, c, _, h => by simp at h
  | d :: l, x, y, c, hc, h => by
    have hbyte : (UInt8.ofNat c.toNat).toNat = c.toNat := by
      rw [UInt8.toNat_ofNat_of_lt' (by simp [UInt8.size]; omega)]
    rw [List.flatMap_cons] at h
    rcases List.append_eq_append_iff.mp h with ⟨m, hx, hl⟩ | ⟨m, hd, hy⟩
    · obtain ⟨p, q, hp, hxp, hyq⟩ := flatMap_utf8EncodeChar_ascii hc hl
      refine ⟨d :: p, q, ?_, ?_, hyq⟩
      · rw [hp, List.cons_append]
      · rw [hx, hxp, List.flatMap_cons]
    · cases m with
      | nil =>
        -- the split falls between two characters
        obtain ⟨p, q, hp, hxp, hyq⟩ := @flatMap_utf8EncodeChar_ascii l [] y c hc hy.symm
        refine ⟨d :: p, q, ?_, ?_, hyq⟩
        · rw [hp, List.cons_append]
        · rw [List.flatMap_cons, ← hxp, hd]
          simp
      | cons b m =>
        obtain ⟨hb, hy⟩ := List.cons.inj hy
        by_cases hascii : d.toNat < 128
        · rw [utf8EncodeChar_ascii hascii] at hd
          cases x with
          | nil =>
            obtain ⟨hdb, hm⟩ := List.cons.inj hd
            have hdc : d = c := by
              have hval := congrArg UInt8.toNat (hdb.trans hb.symm)
              rw [hbyte, UInt8.toNat_ofNat_of_lt' (by simp [UInt8.size]; omega)] at hval
              exact Char.ext (UInt32.toNat_inj.mp hval)
            refine ⟨[], l, ?_, rfl, ?_⟩
            · rw [hdc, List.nil_append]
            · rw [hy, ← hm]
              rfl
          | cons a x => simp at hd
        · have hmem : b ∈ String.utf8EncodeChar d := by
            rw [hd]
            simp
          have hge := utf8EncodeChar_not_ascii (by omega) b hmem
          rw [← hb, hbyte] at hge
          omega

/-- ASCII text has one octet per character. -/
theorem asBytes_ascii (h : ∀ c ∈ s.toList, c.toNat < 128) :
    asBytes s = s.toList.map fun c => UInt8.ofNat c.toNat := by
  unfold asBytes
  generalize s.toList = l at h
  induction l with
  | nil => rfl
  | cons c l ih =>
    rw [List.flatMap_cons, List.map_cons, utf8EncodeChar_ascii (h c (by simp)),
      ih fun d hd => h d (List.mem_cons_of_mem _ hd)]
    rfl

theorem len_ascii (h : ∀ c ∈ s.toList, c.toNat < 128) : len s = s.toList.length := by
  unfold len
  rw [asBytes_ascii h, List.length_map]

/-- A property of every ASCII character's code holds of every octet of ASCII text. -/
theorem forall_asBytes {D : UInt8 → Prop}
    (h : ∀ c ∈ s.toList, c.toNat < 128 ∧ D (UInt8.ofNat c.toNat)) : ∀ b ∈ asBytes s, D b := by
  intro b hb
  rw [asBytes_ascii fun c hc => (h c hc).1] at hb
  obtain ⟨c, hc, rfl⟩ := List.mem_map.mp hb
  exact (h c hc).2

theorem toNat_le_of_isAsciiHexdigit (h : isAsciiHexdigit c = true) : c.toNat ≤ 102 := by
  simp only [isAsciiHexdigit, Char.isDigit, Bool.or_eq_true, Bool.and_eq_true,
    decide_eq_true_eq] at h
  have hle : ∀ d : Char, c ≤ d → c.toNat ≤ d.toNat := fun d hd => UInt32.le_iff_toNat_le.mp hd
  rcases h with (⟨_, h⟩ | ⟨_, h⟩) | ⟨_, h⟩
  · exact Nat.le_trans (UInt32.le_iff_toNat_le.mp h) (by decide)
  · exact hle 'f' h
  · exact Nat.le_trans (hle 'F' h) (by decide)

theorem le_toNat_of_isAsciiHexdigit (h : isAsciiHexdigit c = true) : 48 ≤ c.toNat := by
  simp only [isAsciiHexdigit, Char.isDigit, Bool.or_eq_true, Bool.and_eq_true,
    decide_eq_true_eq] at h
  have hle : ∀ d : Char, d ≤ c → d.toNat ≤ c.toNat := fun d hd => UInt32.le_iff_toNat_le.mp hd
  rcases h with (⟨h, _⟩ | ⟨h, _⟩) | ⟨h, _⟩
  · exact UInt32.le_iff_toNat_le.mp h
  · exact Nat.le_trans (by decide) (hle 'a' h)
  · exact Nat.le_trans (by decide) (hle 'A' h)

/-- The octets of hex digits lie below those of most punctuation. -/
theorem asBytes_le_of_isAsciiHexdigit (h : s.toList.all isAsciiHexdigit = true) :
    ∀ b ∈ asBytes s, b.toNat ≤ 102 := by
  refine forall_asBytes fun c hc => ?_
  have hle := toNat_le_of_isAsciiHexdigit (List.all_eq_true.mp h c hc)
  refine ⟨by omega, ?_⟩
  rw [UInt8.toNat_ofNat_of_lt' (by simp [UInt8.size]; omega)]
  exact hle

/-! ## Digits and decimal numbers -/

/-- Hex digits of different values are different characters. -/
theorem digitChar_inj {m n : Nat} (hm : m < 16) (hn : n < 16)
    (h : Nat.digitChar m = Nat.digitChar n) : m = n := by
  have hall : ∀ a < 16, ∀ b < 16, Nat.digitChar a = Nat.digitChar b → a = b := by decide
  exact hall m hm n hn h

/-- The octets `0`–`9`. -/
def IsDigit (b : UInt8) : Prop := 48 ≤ b.toNat ∧ b.toNat ≤ 57

theorem isDigit_of_char (h : c.isDigit = true) :
    c.toNat < 128 ∧ IsDigit (UInt8.ofNat c.toNat) := by
  simp only [Char.isDigit, ge_iff_le, Bool.and_eq_true, decide_eq_true_eq] at h
  have h1 : 48 ≤ c.toNat := by simpa using UInt32.le_iff_toNat_le.mp h.1
  have h2 : c.toNat ≤ 57 := by simpa using UInt32.le_iff_toNat_le.mp h.2
  refine ⟨by omega, ?_⟩
  unfold IsDigit
  rw [UInt8.toNat_ofNat_of_lt' (by simp [UInt8.size]; omega)]
  exact ⟨h1, h2⟩

/-- `{:0width}` on an unsigned integer. -/
def zeroPadded (width n : Nat) : List Char :=
  List.replicate (width - (Nat.toDigits 10 n).length) '0' ++ Nat.toDigits 10 n

theorem zeroPadded_isDigit {width n : Nat} : ∀ c ∈ zeroPadded width n, c.isDigit = true := by
  intro c hc
  rcases List.mem_append.mp hc with hc | hc
  · rw [List.eq_of_mem_replicate hc]
    decide
  · exact Nat.isDigit_of_mem_toDigits (by decide) (by decide) hc

theorem zeroPadded_inj {width m n : Nat} (h : zeroPadded width m = zeroPadded width n) : m = n := by
  have hval : ∀ n, Nat.ofDigitChars 10 (zeroPadded width n) 0 = n := by
    intro n
    unfold zeroPadded
    rw [Nat.ofDigitChars_append, Nat.ofDigitChars_replicate_zero, Nat.mul_zero,
      Nat.ofDigitChars_ten_toDigits]
  calc m = Nat.ofDigitChars 10 (zeroPadded width m) 0 := (hval m).symm
    _ = Nat.ofDigitChars 10 (zeroPadded width n) 0 := by rw [h]
    _ = n := hval n

/-- A number that fits takes exactly the width. -/
theorem length_zeroPadded {width n : Nat} (hpos : 0 < width) (h : n < 10 ^ width) :
    (zeroPadded width n).length = width := by
  have hle := (Nat.length_toDigits_le_iff (by decide) hpos).mpr h
  unfold zeroPadded
  rw [List.length_append, List.length_replicate]
  omega

/-- `to_string()` on an unsigned integer, as octets. -/
def decimal (n : Nat) : List UInt8 := asBytes n.repr

theorem decimal_isDigit (n : Nat) : ∀ b ∈ decimal n, IsDigit b := by
  refine forall_asBytes fun c hc => ?_
  rw [Nat.toList_repr] at hc
  exact isDigit_of_char (Nat.isDigit_of_mem_toDigits (by decide) (by decide) hc)

theorem decimal_inj {m n : Nat} (h : decimal m = decimal n) : m = n := by
  have hd : Nat.toDigits 10 m = Nat.toDigits 10 n := by
    rw [← Nat.toList_repr, ← Nat.toList_repr, asBytes_inj h]
  calc m = Nat.ofDigitChars 10 (Nat.toDigits 10 m) 0 := Nat.ofDigitChars_ten_toDigits.symm
    _ = Nat.ofDigitChars 10 (Nat.toDigits 10 n) 0 := by rw [hd]
    _ = n := Nat.ofDigitChars_ten_toDigits

/-- A decimal number delimits itself against anything that is not a digit. -/
theorem decimal_selfDelimiting : SelfDelimiting (fun _ => True) (StopsAt IsDigit) decimal :=
  SelfDelimiting.of_alphabet (fun n _ => decimal_isDigit n) (fun _ _ _ _ h => decimal_inj h)

end Pkzz.Lib.Str
