import Mathlib.Tactic.IntervalCases
import Pkzz.Lib.Str

/-!
# Identifiers

UUIDs, event ids and public keys are byte strings of a fixed length. The length is part
of the value, so no identifier of another length can be built.
-/

namespace Pkzz.Core

open Pkzz.Lib

/-- A byte string of length `n`. -/
structure FixedBytes (n : Nat) where
  bytes : List UInt8
  length_eq : bytes.length = n
  deriving DecidableEq

namespace FixedBytes

variable {n : Nat}

variable {a b : FixedBytes n}

@[ext] theorem ext (h : a.bytes = b.bytes) : a = b := by
  cases a; cases b; congr

/-- The big-endian bytes of a number, as `Uuid::from_u128` lays them out. -/
def ofNat (n v : Nat) : FixedBytes n where
  bytes := (List.range n).map fun i => UInt8.ofNat (v / 256 ^ (n - 1 - i))
  length_eq := by simp

/-- The last byte, and the bytes of what is left of the number. -/
theorem ofNat_succ_bytes (n v : Nat) :
    (ofNat (n + 1) v).bytes = (ofNat n (v / 256)).bytes ++ [UInt8.ofNat v] := by
  unfold ofNat
  simp only
  rw [List.range_succ, List.map_append, List.map_singleton]
  congr 1
  · refine List.map_congr_left fun i hi => ?_
    have hi := List.mem_range.mp hi
    have hexp : n + 1 - 1 - i = n - 1 - i + 1 := by omega
    rw [hexp, Nat.pow_succ, Nat.mul_comm, Nat.div_div_eq_div_mul]
  · simp

/-- Numbers that fit are told apart by their bytes. -/
theorem ofNat_inj : ∀ {n v w : Nat}, v < 256 ^ n → w < 256 ^ n → ofNat n v = ofNat n w → v = w
  | 0, v, w, hv, hw, _ => by omega
  | n + 1, v, w, hv, hw, h => by
    have hbytes := congrArg bytes h
    rw [ofNat_succ_bytes, ofNat_succ_bytes] at hbytes
    obtain ⟨hinit, hlast⟩ := List.append_inj' hbytes rfl
    rw [Nat.pow_succ] at hv hw
    have hdiv : v / 256 = w / 256 :=
      ofNat_inj (Nat.div_lt_of_lt_mul (by omega)) (Nat.div_lt_of_lt_mul (by omega)) (ext hinit)
    have hmod : v % 256 = w % 256 := by
      have hval := congrArg UInt8.toNat (List.cons.inj hlast).1
      simpa using hval
    omega

/-- The two lower-case hex digits of an octet. -/
def hexByte (b : UInt8) : List Char := [Nat.digitChar (b.toNat / 16), Nat.digitChar (b.toNat % 16)]

/-- `to_hex()`: two lower-case digits for each octet. -/
def toHex (a : FixedBytes n) : String := String.ofList (a.bytes.flatMap hexByte)

/-! ### Hex text -/

/-- The digits `0`–`9` and `a`–`f`. -/
def isLowerHexdigit (c : Char) : Bool := c.isDigit || ('a' ≤ c && c ≤ 'f')

theorem digitChar_isLowerHexdigit {d : Nat} (h : d < 16) :
    isLowerHexdigit (Nat.digitChar d) = true := by
  have hall : ∀ d < 16, isLowerHexdigit (Nat.digitChar d) = true := by decide
  exact hall d h

theorem hexByte_isLowerHexdigit (b : UInt8) : ∀ c ∈ hexByte b, isLowerHexdigit c = true := by
  have hb := UInt8.toNat_lt b
  intro c hc
  unfold hexByte at hc
  rcases List.mem_cons.mp hc with hc | hc
  · rw [hc]
    exact digitChar_isLowerHexdigit (by omega)
  · rw [List.mem_singleton.mp hc]
    exact digitChar_isLowerHexdigit (by omega)

theorem hexByte_inj {b c : UInt8} (h : hexByte b = hexByte c) : b = c := by
  have hb := UInt8.toNat_lt b
  have hc := UInt8.toNat_lt c
  unfold hexByte at h
  obtain ⟨hhi, hlo⟩ := List.cons.inj h
  have h1 := Str.digitChar_inj (by omega) (by omega) hhi
  have h2 := Str.digitChar_inj (by omega) (by omega) (List.cons.inj hlo).1
  refine UInt8.toNat_inj.mp ?_
  omega

theorem flatMap_hexByte_inj : ∀ {l m : List UInt8}, l.flatMap hexByte = m.flatMap hexByte → l = m
  | [], [], _ => rfl
  | [], c :: m, h => absurd h (by simp [hexByte])
  | b :: l, [], h => absurd h (by simp [hexByte])
  | b :: l, c :: m, h => by
    rw [List.flatMap_cons, List.flatMap_cons] at h
    obtain ⟨hbc, hrest⟩ := List.append_inj h (by simp [hexByte])
    rw [hexByte_inj hbc, flatMap_hexByte_inj hrest]

theorem toList_toHex (a : FixedBytes n) : a.toHex.toList = a.bytes.flatMap hexByte := by
  unfold toHex
  rw [String.toList_ofList]

theorem toHex_isLowerHexdigit (a : FixedBytes n) :
    ∀ c ∈ a.toHex.toList, isLowerHexdigit c = true := by
  intro c hc
  rw [toList_toHex] at hc
  obtain ⟨b, _, hcb⟩ := List.mem_flatMap.mp hc
  exact hexByte_isLowerHexdigit b c hcb

theorem length_toHex (a : FixedBytes n) : a.toHex.toList.length = 2 * n := by
  have hall : ∀ l : List UInt8, (l.flatMap hexByte).length = 2 * l.length := by
    intro l
    induction l with
    | nil => rfl
    | cons b l ih =>
      rw [List.flatMap_cons, List.length_append, ih, List.length_cons]
      simp only [hexByte, List.length_cons, List.length_nil]
      omega
  rw [toList_toHex, hall, a.length_eq]

theorem toNat_of_isLowerHexdigit {c : Char} (h : isLowerHexdigit c = true) :
    48 ≤ c.toNat ∧ c.toNat ≤ 102 := by
  simp only [isLowerHexdigit, Char.isDigit, ge_iff_le, Bool.or_eq_true, Bool.and_eq_true,
    decide_eq_true_eq] at h
  rcases h with ⟨h1, h2⟩ | ⟨h1, h2⟩
  · have h48 : 48 ≤ c.toNat := UInt32.le_iff_toNat_le.mp h1
    have h57 : c.toNat ≤ 57 := UInt32.le_iff_toNat_le.mp h2
    omega
  · have h97 : 97 ≤ c.toNat := UInt32.le_iff_toNat_le.mp h1
    have h102 : c.toNat ≤ 102 := UInt32.le_iff_toNat_le.mp h2
    omega

theorem len_toHex (a : FixedBytes n) : Str.len a.toHex = 2 * n := by
  have hascii : ∀ c ∈ a.toHex.toList, c.toNat < 128 := by
    intro c hc
    have h := toNat_of_isLowerHexdigit (toHex_isLowerHexdigit a c hc)
    omega
  rw [Str.len_ascii hascii, length_toHex]

theorem trim_toHex (a : FixedBytes n) : Str.trim a.toHex = a.toHex := by
  refine Str.trim_of_forall fun c hc => ?_
  have h := toNat_of_isLowerHexdigit (toHex_isLowerHexdigit a c hc)
  unfold Str.isWhitespace
  simp only [Bool.or_eq_false_iff, Bool.and_eq_false_iff, decide_eq_false_iff_not,
    beq_eq_false_iff_ne]
  omega

theorem toHex_inj (h : a.toHex = b.toHex) : a = b := by
  have hl := congrArg String.toList h
  rw [toList_toHex, toList_toHex] at hl
  exact ext (flatMap_hexByte_inj hl)

theorem toLower_of_isLowerHexdigit {c : Char} (h : isLowerHexdigit c = true) : c.toLower = c := by
  have hc : 48 ≤ c.toNat ∧ c.toNat ≤ 57 ∨ 97 ≤ c.toNat ∧ c.toNat ≤ 102 := by
    simp only [isLowerHexdigit, Char.isDigit, ge_iff_le, Bool.or_eq_true, Bool.and_eq_true,
      decide_eq_true_eq] at h
    rcases h with ⟨h1, h2⟩ | ⟨h1, h2⟩
    · exact .inl ⟨UInt32.le_iff_toNat_le.mp h1, UInt32.le_iff_toNat_le.mp h2⟩
    · exact .inr ⟨UInt32.le_iff_toNat_le.mp h1, UInt32.le_iff_toNat_le.mp h2⟩
  unfold Char.toLower
  rw [dif_neg]
  intro hup
  have h65 : 65 ≤ c.toNat := UInt32.le_iff_toNat_le.mp hup.1
  have h90 : c.toNat ≤ 90 := UInt32.le_iff_toNat_le.mp hup.2
  omega

theorem toAsciiLowercase_toHex (a : FixedBytes n) : Str.toAsciiLowercase a.toHex = a.toHex := by
  have hmap : a.toHex.toList.map Char.toLower = a.toHex.toList := by
    rw [List.map_congr_left fun c hc => toLower_of_isLowerHexdigit (toHex_isLowerHexdigit a c hc)]
    exact List.map_id _
  unfold Str.toAsciiLowercase
  rw [hmap, String.ofList_toList]

theorem eqIgnoreAsciiCase_toHex : Str.eqIgnoreAsciiCase a.toHex b.toHex = true ↔ a = b := by
  unfold Str.eqIgnoreAsciiCase
  rw [toAsciiLowercase_toHex, toAsciiLowercase_toHex, beq_iff_eq]
  exact ⟨toHex_inj, congrArg toHex⟩

/-- Texts of one length are equal where one starts with the other. -/
theorem startsWith_toHex : Str.startsWith a.toHex b.toHex = true ↔ a = b := by
  unfold Str.startsWith
  rw [List.isPrefixOf_iff_prefix]
  constructor
  · intro h
    have hl := h.eq_of_length (by rw [length_toHex, length_toHex])
    exact (toHex_inj (String.toList_inj.mp hl)).symm
  · intro h
    rw [h]

end FixedBytes

/-- `uuid::Uuid`. -/
abbrev Uuid := FixedBytes 16

/-- The hyphenated form `Uuid`'s `Display` writes. -/
def Uuid.toString (u : Uuid) : String :=
  let hex := u.bytes.flatMap FixedBytes.hexByte
  String.ofList (hex.take 8 ++ '-' :: (hex.drop 8).take 4 ++ '-' :: (hex.drop 12).take 4
    ++ '-' :: (hex.drop 16).take 4 ++ '-' :: hex.drop 20)

/-! ## `Uuid::parse_str` -/

def hexValue (c : Char) : Option Nat :=
  if c.isDigit then some (c.toNat - '0'.toNat)
  else if 'a' ≤ c ∧ c ≤ 'f' then some (c.toNat - 'a'.toNat + 10)
  else if 'A' ≤ c ∧ c ≤ 'F' then some (c.toNat - 'A'.toNat + 10)
  else none

/-- The octets of an even number of hex digits, of either case. -/
def decodeHex : List Char → Option (List UInt8)
  | [] => some []
  | hi :: lo :: rest =>
    match hexValue hi, hexValue lo, decodeHex rest with
    | some h, some l, some bytes => some (UInt8.ofNat (16 * h + l) :: bytes)
    | _, _, _ => none
  | [_] => none

/-- `parse_simple`: 32 digits. -/
def Uuid.parseSimple (s : List Char) : Option Uuid :=
  match decodeHex s with
  | some bytes => if h : bytes.length = 16 then some ⟨bytes, h⟩ else none
  | none => none

/-- `parse_hyphenated`: 36 characters, hyphens between the groups. -/
def Uuid.parseHyphenated (s : List Char) : Option Uuid :=
  if s.length = 36 ∧ s[8]? = some '-' ∧ s[13]? = some '-' ∧ s[18]? = some '-' ∧
    s[23]? = some '-' then
    parseSimple (s.take 8 ++ (s.drop 9).take 4 ++ (s.drop 14).take 4 ++
      (s.drop 19).take 4 ++ s.drop 24)
  else none

/-- `Uuid::parse_str`, for ASCII and for any other text. -/
def Uuid.parse (text : String) : Option Uuid :=
  let s := text.toList
  if s.length = 32 then parseSimple s
  else if s.length = 38 ∧ s.head? = some '{' ∧ s.getLast? = some '}' then
    parseHyphenated ((s.drop 1).take 36)
  else if s.length = 45 ∧ s.take 9 = "urn:uuid:".toList then parseHyphenated (s.drop 9)
  else parseHyphenated s

theorem hexValue_digitChar {d : Nat} (h : d < 16) : hexValue (Nat.digitChar d) = some d := by
  have hall : ∀ d < 16, hexValue (Nat.digitChar d) = some d := by decide
  exact hall d h

theorem decodeHex_hexByte : ∀ l : List UInt8, decodeHex (l.flatMap FixedBytes.hexByte) = some l
  | [] => rfl
  | b :: l => by
    have hb := UInt8.toNat_lt b
    have hhi : b.toNat / 16 < 16 := by omega
    have hlo : b.toNat % 16 < 16 := by omega
    have hsum : 16 * (b.toNat / 16) + b.toNat % 16 = b.toNat := by omega
    rw [List.flatMap_cons]
    show decodeHex (Nat.digitChar (b.toNat / 16) :: Nat.digitChar
      (b.toNat % 16) :: l.flatMap FixedBytes.hexByte) = _
    rw [decodeHex, hexValue_digitChar hhi, hexValue_digitChar hlo, decodeHex_hexByte l]
    simp only [hsum, UInt8.ofNat_toNat]

theorem digitChar_of_hexValue {c : Char} (h : FixedBytes.isLowerHexdigit c = true) :
    ∃ v, hexValue c = some v ∧ v < 16 ∧ Nat.digitChar v = c := by
  have hall : ∀ n, 48 ≤ n → n ≤ 102 → FixedBytes.isLowerHexdigit (Char.ofNat n) = true →
      ∃ v < 16, hexValue (Char.ofNat n) = some v ∧ Nat.digitChar v = Char.ofNat n := by
    intro n h48 h102
    interval_cases n <;> decide
  obtain ⟨h48, h102⟩ := FixedBytes.toNat_of_isLowerHexdigit h
  have hc : Char.ofNat c.toNat = c := Char.ofNat_toNat c
  obtain ⟨v, hv, hval, hdigit⟩ := hall c.toNat h48 h102 (by rw [hc]; exact h)
  rw [hc] at hval hdigit
  exact ⟨v, hval, hv, hdigit⟩

/-- Lower-case digits in pairs are the digits of the octets that they decode to. -/
theorem decodeHex_of_isLowerHexdigit : ∀ {n : Nat} {l : List Char}, l.length = 2 * n →
    (∀ c ∈ l, FixedBytes.isLowerHexdigit c = true) →
    ∃ bytes, decodeHex l = some bytes ∧ bytes.length = n ∧ bytes.flatMap FixedBytes.hexByte = l
  | 0, l, hlen, _ => by
    obtain rfl : l = [] := List.length_eq_zero_iff.mp hlen
    exact ⟨[], rfl, rfl, rfl⟩
  | n + 1, [], hlen, _ => by simp at hlen
  | n + 1, [_], hlen, _ => by simp at hlen; omega
  | n + 1, hi :: lo :: l, hlen, h => by
    obtain ⟨bytes, hbytes, hn, hflat⟩ := @decodeHex_of_isLowerHexdigit n l
      (by simp only [List.length_cons] at hlen; omega)
      (fun c hc => h c (List.mem_cons_of_mem _ (List.mem_cons_of_mem _ hc)))
    obtain ⟨x, hx, hx16, hxc⟩ := digitChar_of_hexValue (h hi (by simp))
    obtain ⟨y, hy, hy16, hyc⟩ := digitChar_of_hexValue (h lo (by simp))
    have hval : (UInt8.ofNat (16 * x + y)).toNat = 16 * x + y :=
      UInt8.toNat_ofNat_of_lt' (by simp [UInt8.size]; omega)
    have hhi : (16 * x + y) / 16 = x := by omega
    have hlo : (16 * x + y) % 16 = y := by omega
    refine ⟨UInt8.ofNat (16 * x + y) :: bytes, ?_, by rw [List.length_cons, hn], ?_⟩
    · rw [decodeHex, hx, hy, hbytes]
    · rw [List.flatMap_cons, FixedBytes.hexByte, hval, hhi, hlo, hxc, hyc, hflat]
      rfl

/-- `from_hex`, for digits of either case. -/
def FixedBytes.fromHex (n : Nat) (text : String) : Option (FixedBytes n) :=
  match decodeHex text.toList with
  | some bytes => if h : bytes.length = n then some ⟨bytes, h⟩ else none
  | none => none

theorem FixedBytes.fromHex_toHex {n : Nat} (a : FixedBytes n) : fromHex n a.toHex = some a := by
  unfold fromHex
  rw [toList_toHex, decodeHex_hexByte]
  exact dif_pos a.length_eq

/-- Lower-case text is the hex form of what is read from it. -/
theorem FixedBytes.fromHex_of_isLowerHexdigit {n : Nat} {text : String}
    (hlen : text.toList.length = 2 * n)
    (h : ∀ c ∈ text.toList, isLowerHexdigit c = true) : ∃ a, fromHex n text = some a ∧
    a.toHex = text := by
  obtain ⟨bytes, hbytes, hn, hflat⟩ := decodeHex_of_isLowerHexdigit hlen h
  refine ⟨⟨bytes, hn⟩, ?_, ?_⟩
  · unfold fromHex
    rw [hbytes]
    exact dif_pos hn
  · rw [toHex, hflat, String.ofList_toList]

theorem parseHyphenated_groups {a b c d e : List Char} (ha : a.length = 8) (hb : b.length = 4)
    (hc : c.length = 4) (hd : d.length = 4) (he : e.length = 12) :
    Uuid.parseHyphenated (a ++ '-' :: b ++ '-' :: c ++ '-' :: d ++ '-' :: e) =
      Uuid.parseSimple (a ++ b ++ c ++ d ++ e) := by
  unfold Uuid.parseHyphenated
  rw [if_pos (by simp [ha, hb, hc, hd, he])]
  congr 1
  simp [List.drop_append, ha, hb, hc, hd, List.drop_of_length_le]

theorem Uuid.length_hex (u : Uuid) : (u.bytes.flatMap FixedBytes.hexByte).length = 32 := by
  rw [← FixedBytes.toList_toHex, FixedBytes.length_toHex]

/-- What `Display` writes is read back. -/
theorem Uuid.parse_toString (u : Uuid) : Uuid.parse u.toString = some u := by
  have hlen := u.length_hex
  have hsimple : Uuid.parseSimple (u.bytes.flatMap FixedBytes.hexByte) = some u := by
    unfold Uuid.parseSimple
    rw [decodeHex_hexByte]
    simp only
    rw [dif_pos u.length_eq]
  unfold Uuid.toString Uuid.parse
  simp only [String.toList_ofList]
  generalize u.bytes.flatMap FixedBytes.hexByte = hex at hlen hsimple
  have hgroups := @parseHyphenated_groups (hex.take 8) ((hex.drop 8).take 4) ((hex.drop 12).take 4)
    ((hex.drop 16).take 4) (hex.drop 20) (by simp [hlen]) (by simp [hlen]) (by simp [hlen])
      (by simp [hlen])
    (by simp [hlen])
  have hjoin : hex.take 8 ++ (hex.drop 8).take 4 ++ (hex.drop 12).take 4 ++ (hex.drop 16).take 4 ++
      hex.drop 20 = hex := by
    rw [← List.take_add, ← List.take_add, ← List.take_add, List.take_append_drop]
  rw [hjoin, hsimple] at hgroups
  rw [if_neg, if_neg, if_neg]
  · exact hgroups
  · simp [hlen]
  · simp [hlen]
  · simp [hlen]

theorem Uuid.isLowerHexdigit_toString {u : Uuid} {c : Char} (h : c ∈ u.toString.toList) :
    FixedBytes.isLowerHexdigit c = true ∨ c = '-' := by
  unfold Uuid.toString at h
  simp only [String.toList_ofList, List.mem_append, List.mem_cons] at h
  have hhex : ∀ c, c ∈ u.bytes.flatMap FixedBytes.hexByte →
      FixedBytes.isLowerHexdigit c = true := by
    intro c hc
    obtain ⟨b, _, hcb⟩ := List.mem_flatMap.mp hc
    exact FixedBytes.hexByte_isLowerHexdigit b c hcb
  rcases h with (((h | h | h) | h | h) | h | h) | h | h
  · exact .inl (hhex c (List.mem_of_mem_take h))
  · exact .inr h
  · exact .inl (hhex c (List.mem_of_mem_drop (List.mem_of_mem_take h)))
  · exact .inr h
  · exact .inl (hhex c (List.mem_of_mem_drop (List.mem_of_mem_take h)))
  · exact .inr h
  · exact .inl (hhex c (List.mem_of_mem_drop (List.mem_of_mem_take h)))
  · exact .inr h
  · exact .inl (hhex c (List.mem_of_mem_drop h))

/-- A server-resolved community. -/
structure CommunityId where
  uuid : Uuid
  deriving DecidableEq

/-- `nostr::EventId`. -/
abbrev EventId := FixedBytes 32

/-- `nostr::PublicKey`, the x-only key. -/
abbrev PublicKey := FixedBytes 32

end Pkzz.Core
