import Mathlib.Data.String.Basic
import Pkzz.Lib.Str

/-!
# UTF-8: reading it back, and its order

The octets of a string decode to the string, and strings compare the same way octet by octet
as they do character by character. The second is what lets a program that sorts octets and
one that sorts strings agree.
-/

namespace Pkzz.Lib.Str

/-- `str::from_utf8`. -/
def fromUtf8 (bs : List UInt8) : Option String :=
  bs.toByteArray.utf8Decode?.map fun cs => String.ofList cs.toList

theorem fromUtf8_asBytes (s : String) : fromUtf8 (asBytes s) = some s := by
  have h : (asBytes s).toByteArray = s.toList.utf8Encode := rfl
  rw [fromUtf8, h, List.utf8Decode?_utf8Encode, Option.map_some, List.toList_toArray,
    String.ofList_toList]

/-- What was read back is written as it was. -/
theorem asBytes_of_fromUtf8 {bs : List UInt8} {s : String} (h : fromUtf8 bs = some s) :
    asBytes s = bs := by
  obtain ⟨cs, hcs, rfl⟩ := Option.map_eq_some_iff.mp h
  have hsome : bs.toByteArray.utf8Decode?.isSome = true := by rw [hcs]; rfl
  have hencode := ByteArray.utf8Encode_get_utf8Decode? (h := hsome)
  rw [Option.get_of_eq_some hsome hcs] at hencode
  refine List.toByteArray_inj.mp ?_
  rw [asBytes, String.toList_ofList]
  exact hencode

/-! ## ASCII text -/

/-- The text of octets below 128. -/
def ofAscii (bs : List UInt8) : String := String.ofList (bs.map fun b => Char.ofNat b.toNat)

theorem toNat_ofAscii {b : UInt8} (h : b.toNat < 128) : (Char.ofNat b.toNat).toNat = b.toNat := by
  have hvalid : b.toNat.isValidChar := .inl (by omega)
  unfold Char.ofNat
  rw [dif_pos hvalid]
  rfl

theorem asBytes_ofAscii {bs : List UInt8} (h : ∀ b ∈ bs, b.toNat < 128) :
    asBytes (ofAscii bs) = bs := by
  have hascii : ∀ c ∈ (ofAscii bs).toList, c.toNat < 128 := by
    intro c hc
    rw [ofAscii, String.toList_ofList] at hc
    obtain ⟨b, hb, rfl⟩ := List.mem_map.mp hc
    rw [toNat_ofAscii (h b hb)]
    exact h b hb
  rw [asBytes_ascii hascii, ofAscii, String.toList_ofList, List.map_map]
  refine (List.map_congr_left fun b hb => ?_).trans (List.map_id bs)
  show UInt8.ofNat (Char.ofNat b.toNat).toNat = b
  rw [toNat_ofAscii (h b hb), UInt8.ofNat_toNat]

/-! ## Lossy reading -/

/-- `0x80..=0xBF`. -/
def isContinuation (b : UInt8) : Bool := 0x80 ≤ b && b ≤ 0xBF

/-- The second octets that may stand behind the first octet of a sequence of three or four. -/
def secondOk (first b : UInt8) : Bool :=
  if first = 0xE0 then 0xA0 ≤ b && b ≤ 0xBF
  else if first = 0xED then 0x80 ≤ b && b ≤ 0x9F
  else if first = 0xF0 then 0x90 ≤ b && b ≤ 0xBF
  else if first = 0xF4 then 0x80 ≤ b && b ≤ 0x8F
  else isContinuation b

/-- How many octets behind `first` belong to the same broken sequence. -/
def brokenTail (first : UInt8) (rest : List UInt8) : Nat :=
  if 0xE0 ≤ first && first ≤ 0xF4 && secondOk first (rest.getD 0 0) then
    if 0xF0 ≤ first && isContinuation (rest.getD 1 0) then 2 else 1
  else 0

/-- The characters of `String::from_utf8_lossy`: one replacement for each broken sequence. -/
def lossyChars : List UInt8 → List Char
  | [] => []
  | b :: rest =>
    match (b :: rest).toByteArray.utf8DecodeChar? 0 with
    | some c => c :: lossyChars (rest.drop (c.utf8Size - 1))
    | none => Char.ofNat 0xFFFD :: lossyChars (rest.drop (brokenTail b rest))
  termination_by bs => bs.length
  decreasing_by all_goals (simp only [List.length_drop, List.length_cons]; omega)

/-- `String::from_utf8_lossy`. -/
def fromUtf8Lossy (bs : List UInt8) : String := String.ofList (lossyChars bs)

theorem lossyChars_utf8EncodeChar_append (c : Char) (rest : List UInt8) :
    lossyChars (String.utf8EncodeChar c ++ rest) = c :: lossyChars rest := by
  have hlen := String.length_utf8EncodeChar c
  have hread : (String.utf8EncodeChar c ++ rest).toByteArray.utf8DecodeChar? 0 = some c := by
    rw [List.toByteArray_append]
    exact ByteArray.utf8DecodeChar?_utf8EncodeChar_append
  cases hc : String.utf8EncodeChar c with
  | nil => exact absurd hc String.utf8EncodeChar_ne_nil
  | cons b t =>
    rw [hc] at hread hlen
    rw [List.length_cons] at hlen
    rw [List.cons_append] at hread ⊢
    rw [lossyChars, hread]
    simp only
    rw [← hlen, Nat.add_sub_cancel, List.drop_left]

/-- Text that is UTF-8 loses nothing. -/
theorem fromUtf8Lossy_asBytes (s : String) : fromUtf8Lossy (asBytes s) = s := by
  have hall : ∀ l : List Char, lossyChars (l.flatMap String.utf8EncodeChar) = l := by
    intro l
    induction l with
    | nil => rw [List.flatMap_nil, lossyChars]
    | cons c l ih => rw [List.flatMap_cons, lossyChars_utf8EncodeChar_append, ih]
  rw [fromUtf8Lossy, asBytes, hall, String.ofList_toList]

/-! ## The order of octets -/

/-- Octets given by number: the first difference decides. -/
theorem ofNat_cons_lt {m n : Nat} {x y : List UInt8} (hn : n < 256) (hle : m ≤ n)
    (h : m = n → x < y) : UInt8.ofNat m :: x < UInt8.ofNat n :: y := by
  rw [List.cons_lt_cons_iff]
  rcases Nat.lt_or_eq_of_le hle with hlt | rfl
  · refine .inl (UInt8.lt_iff_toNat_lt.mpr ?_)
    rw [UInt8.toNat_ofNat_of_lt' (Nat.lt_trans hlt hn), UInt8.toNat_ofNat_of_lt' hn]
    exact hlt
  · exact .inr ⟨rfl, h rfl⟩

/-- The encodings of two characters differ, and first where the characters' order says. -/
theorem utf8EncodeChar_lt {c d : Char} (h : c < d) (x y : List UInt8) :
    String.utf8EncodeChar c ++ x < String.utf8EncodeChar d ++ y := by
  have hlt : c.val.toNat < d.val.toNat := UInt32.lt_iff_toNat_lt.mp h
  have hd : d.val.toNat < 0x110000 := by
    rcases d.valid with h | h
    · exact Nat.lt_trans h (by decide)
    · exact h.2
  unfold String.utf8EncodeChar
  dsimp only
  generalize c.val.toNat = m at hlt ⊢
  generalize d.val.toNat = n at hlt hd ⊢
  -- a longer encoding has a larger first octet; among equal lengths the digits decide in turn
  split_ifs <;> try omega
  · exact ofNat_cons_lt (by omega) (by omega) (by omega)
  · exact ofNat_cons_lt (by omega) (by omega) (by omega)
  · exact ofNat_cons_lt (by omega) (by omega) (by omega)
  · exact ofNat_cons_lt (by omega) (by omega) (by omega)
  · refine ofNat_cons_lt (by omega) (by omega) fun h1 => ?_
    exact ofNat_cons_lt (by omega) (by omega) (by omega)
  · exact ofNat_cons_lt (by omega) (by omega) (by omega)
  · exact ofNat_cons_lt (by omega) (by omega) (by omega)
  · refine ofNat_cons_lt (by omega) (by omega) fun h1 => ?_
    refine ofNat_cons_lt (by omega) (by omega) fun h2 => ?_
    exact ofNat_cons_lt (by omega) (by omega) (by omega)
  · exact ofNat_cons_lt (by omega) (by omega) (by omega)
  · refine ofNat_cons_lt (by omega) (by omega) fun h1 => ?_
    refine ofNat_cons_lt (by omega) (by omega) fun h2 => ?_
    refine ofNat_cons_lt (by omega) (by omega) fun h3 => ?_
    exact ofNat_cons_lt (by omega) (by omega) (by omega)

theorem flatMap_utf8EncodeChar_lt : ∀ {l m : List Char}, l < m →
    l.flatMap String.utf8EncodeChar < m.flatMap String.utf8EncodeChar
  | l, [], h => absurd h (List.not_lt_nil l)
  | [], d :: m, _ => by
    have hne := String.utf8EncodeChar_ne_nil (c := d)
    rw [List.flatMap_cons]
    cases hd : String.utf8EncodeChar d with
    | nil => exact absurd hd hne
    | cons b t => exact List.nil_lt_cons b _
  | c :: l, d :: m, h => by
    rw [List.flatMap_cons, List.flatMap_cons]
    rcases List.cons_lt_cons_iff.mp h with hlt | ⟨rfl, hlt⟩
    · exact utf8EncodeChar_lt hlt _ _
    · exact List.append_left_lt (flatMap_utf8EncodeChar_lt hlt)

/-- **UTF-8 keeps the order of strings**: octet by octet is character by character. -/
theorem asBytes_lt_iff {s t : String} : asBytes s < asBytes t ↔ s < t := by
  have hmono : ∀ {a b : String}, a < b → asBytes a < asBytes b := fun h =>
    flatMap_utf8EncodeChar_lt (String.lt_iff_toList_lt.mp h)
  refine ⟨fun h => ?_, hmono⟩
  rcases lt_trichotomy s t with hlt | rfl | hgt
  · exact hlt
  · exact absurd h (List.lt_irrefl _)
  · exact absurd h (List.lt_asymm (hmono hgt))

/--
A symbol smaller than every other keeps the order of what stands in front of it, also where
one text begins with the other.
-/
theorem append_cons_lt_append_cons {s : UInt8} {x y : List UInt8} : ∀ {l m : List UInt8},
    (∀ b ∈ l, s < b) → (∀ b ∈ m, s < b) → l < m → l ++ s :: x < m ++ s :: y
  | l, [], _, _, h => absurd h (List.not_lt_nil l)
  | [], b :: m, _, hm, _ => List.cons_lt_cons_iff.mpr (.inl (hm b (by simp)))
  | a :: l, b :: m, hl, hm, h => by
    obtain ⟨_, hl⟩ := List.forall_mem_cons.mp hl
    obtain ⟨_, hm⟩ := List.forall_mem_cons.mp hm
    rw [List.cons_append, List.cons_append, List.cons_lt_cons_iff]
    rcases List.cons_lt_cons_iff.mp h with hab | ⟨hab, hlt⟩
    · exact .inl hab
    · exact .inr ⟨hab, append_cons_lt_append_cons hl hm hlt⟩

/-! ## Which octets a string has -/

theorem mem_asBytes_of_ascii {s : String} {c : Char} (hc : c ∈ s.toList) (h : c.toNat < 128) :
    UInt8.ofNat c.toNat ∈ asBytes s := by
  refine List.mem_flatMap.mpr ⟨c, hc, ?_⟩
  rw [utf8EncodeChar_ascii h]
  simp

theorem ascii_of_mem_asBytes {s : String} {b : UInt8} (hb : b ∈ asBytes s) (h : b.toNat < 128) :
    ∃ c ∈ s.toList, c.toNat = b.toNat := by
  obtain ⟨c, hc, hbc⟩ := List.mem_flatMap.mp hb
  by_cases hascii : c.toNat < 128
  · rw [utf8EncodeChar_ascii hascii, List.mem_singleton] at hbc
    refine ⟨c, hc, ?_⟩
    rw [hbc, UInt8.toNat_ofNat_of_lt' (by simp [UInt8.size]; omega)]
  · have hge := utf8EncodeChar_not_ascii (by omega) b hbc
    omega

/-- An ASCII character is in a string just if its octet is in the octets. -/
theorem mem_toList_iff {s : String} {c : Char} (h : c.toNat < 128) :
    c ∈ s.toList ↔ UInt8.ofNat c.toNat ∈ asBytes s := by
  refine ⟨fun hc => mem_asBytes_of_ascii hc h, fun hb => ?_⟩
  have hval : (UInt8.ofNat c.toNat).toNat = c.toNat :=
    UInt8.toNat_ofNat_of_lt' (by simp [UInt8.size]; omega)
  obtain ⟨d, hd, hdc⟩ := ascii_of_mem_asBytes hb (by omega)
  have hcd : d = c := Char.ext (UInt32.toNat_inj.mp (hdc.trans hval))
  rw [← hcd]
  exact hd

end Pkzz.Lib.Str
