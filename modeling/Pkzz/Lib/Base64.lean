import Mathlib.Data.List.Basic

/-!
# Base64

The standard alphabet with padding. A text that is decoded has to be the one that its bytes are
written as: the bits behind the last byte are zero, and the last group is padded.
-/

namespace Pkzz.Lib.Base64

/-- The character of six bits. -/
def sextet (n : Nat) : Char :=
  if n < 26 then Char.ofNat (65 + n)
  else if n < 52 then Char.ofNat (71 + n)
  else if n < 62 then Char.ofNat (n - 4)
  else if n = 62 then '+' else '/'

/-- The six bits of a character. -/
def value (c : Char) : Option Nat :=
  if 'A' ≤ c ∧ c ≤ 'Z' then some (c.toNat - 65)
  else if 'a' ≤ c ∧ c ≤ 'z' then some (c.toNat - 71)
  else if '0' ≤ c ∧ c ≤ '9' then some (c.toNat + 4)
  else if c = '+' then some 62
  else if c = '/' then some 63
  else none

theorem value_sextet {n : Nat} (h : n < 64) : value (sextet n) = some n := by
  have hall : ∀ m ∈ List.range 64, value (sextet m) = some m := by decide
  exact hall n (List.mem_range.mpr h)

theorem sextet_ne_pad {n : Nat} (h : n < 64) : sextet n ≠ '=' := by
  intro heq
  have hvalue := value_sextet h
  rw [heq] at hvalue
  cases hvalue

/-- Three bytes are four characters. -/
def encode : List UInt8 → List Char
  | a :: b :: c :: rest =>
    sextet (a.toNat / 4) :: sextet (a.toNat % 4 * 16 + b.toNat / 16) :: sextet
      (b.toNat % 16 * 4 + c.toNat / 64) :: sextet (c.toNat % 64) :: encode rest
  | [a, b] => [sextet (a.toNat / 4), sextet (a.toNat % 4 * 16 + b.toNat / 16),
      sextet (b.toNat % 16 * 4), '=']
  | [a] => [sextet (a.toNat / 4), sextet (a.toNat % 4 * 16), '=', '=']
  | [] => []

theorem encode_cons (a b c : UInt8) (rest : List UInt8) :
    encode (a :: b :: c :: rest)
      = sextet (a.toNat / 4) :: sextet (a.toNat % 4 * 16 + b.toNat / 16) :: sextet
        (b.toNat % 16 * 4 + c.toNat / 64) :: sextet (c.toNat % 64) :: encode rest := rfl

theorem encode_pair (a b : UInt8) :
    encode [a, b] = [sextet (a.toNat / 4), sextet (a.toNat % 4 * 16 + b.toNat / 16),
      sextet (b.toNat % 16 * 4), '='] :=
  rfl

theorem encode_singleton (a : UInt8) :
    encode [a] = [sextet (a.toNat / 4), sextet (a.toNat % 4 * 16), '=', '='] := rfl

/-- The bytes of a last group that is padded. -/
def decodeLast (w x y : Char) : Option (List UInt8) :=
  match value w, value x with
  | some w, some x =>
    if y = '=' then if x % 16 = 0 then some [UInt8.ofNat (w * 4 + x / 16)] else none
    else
      match value y with
      | some y => if y % 4 = 0 then
          some [UInt8.ofNat (w * 4 + x / 16), UInt8.ofNat (x % 16 * 16 + y / 4)] else none
      | none => none
  | _, _ => none

def decode : List Char → Option (List UInt8)
  | w :: x :: y :: z :: rest =>
    if z = '=' ∧ rest = [] then decodeLast w x y
    else
      match value w, value x, value y, value z, decode rest with
      | some w, some x, some y, some z, some bytes =>
        some (UInt8.ofNat (w * 4 + x / 16) :: UInt8.ofNat (x % 16 * 16 + y / 4) :: UInt8.ofNat
          (y % 4 * 64 + z) :: bytes)
      | _, _, _, _, _ => none
  | [] => some []
  | _ => none

theorem ofNat_eq {b : UInt8} {n : Nat} (h : n = b.toNat) : UInt8.ofNat n = b := by
  rw [h, UInt8.ofNat_toNat]

/-- **What was encoded is decoded.** -/
theorem decode_encode : ∀ bytes : List UInt8, decode (encode bytes) = some bytes
  | a :: b :: c :: rest => by
    have ha := a.toNat_lt
    have hb := b.toNat_lt
    have hc := c.toNat_lt
    have hlast : sextet (c.toNat % 64) ≠ '=' := sextet_ne_pad (by omega)
    rw [encode_cons, decode, if_neg fun h => hlast h.1, value_sextet (by omega),
      value_sextet (by omega), value_sextet (by omega), value_sextet (by omega), decode_encode rest]
    dsimp only
    rw [ofNat_eq (b := a) (by omega), ofNat_eq (b := b) (by omega), ofNat_eq (b := c) (by omega)]
  | [a, b] => by
    have ha := a.toNat_lt
    have hb := b.toNat_lt
    have hlast : sextet (b.toNat % 16 * 4) ≠ '=' := sextet_ne_pad (by omega)
    rw [encode_pair, decode, if_pos ⟨rfl, rfl⟩, decodeLast, value_sextet (by omega),
      value_sextet (by omega)]
    dsimp only
    rw [if_neg hlast, value_sextet (by omega)]
    dsimp only
    rw [if_pos (by omega), ofNat_eq (b := a) (by omega), ofNat_eq (b := b) (by omega)]
  | [a] => by
    have ha := a.toNat_lt
    rw [encode_singleton, decode, if_pos ⟨rfl, rfl⟩, decodeLast, value_sextet (by omega),
      value_sextet (by omega)]
    dsimp only
    rw [if_pos rfl, if_pos (by omega), ofNat_eq (b := a) (by omega)]
  | [] => rfl

/-! ## What is decoded -/

theorem sextet_of_value {c : Char} {n : Nat} (h : value c = some n) : n < 64 ∧ sextet n = c := by
  unfold value at h
  split at h
  · rename_i hupper
    have hlo : 65 ≤ c.toNat := hupper.1
    have hhi : c.toNat ≤ 90 := hupper.2
    cases h
    refine ⟨by omega, ?_⟩
    rw [sextet, if_pos (by omega), Nat.add_sub_cancel' hlo, Char.ofNat_toNat]
  · split at h
    · rename_i hlower
      have hlo : 97 ≤ c.toNat := hlower.1
      have hhi : c.toNat ≤ 122 := hlower.2
      cases h
      refine ⟨by omega, ?_⟩
      rw [sextet, if_neg (by omega), if_pos (by omega), Nat.add_sub_cancel' (by omega),
        Char.ofNat_toNat]
    · split at h
      · rename_i hdigit
        have hlo : 48 ≤ c.toNat := hdigit.1
        have hhi : c.toNat ≤ 57 := hdigit.2
        cases h
        refine ⟨by omega, ?_⟩
        rw [sextet, if_neg (by omega), if_neg (by omega), if_pos (by omega), Nat.add_sub_cancel,
          Char.ofNat_toNat]
      · split at h
        · rename_i hplus
          cases h
          exact ⟨by decide, hplus.symm⟩
        · split at h
          · rename_i hslash
            cases h
            exact ⟨by decide, hslash.symm⟩
          · cases h

theorem toNat_ofNat {n : Nat} (h : n < 256) : (UInt8.ofNat n).toNat = n :=
  UInt8.toNat_ofNat_of_lt' h

/-- A last group is the one that its bytes are written as. -/
theorem encode_of_decodeLast {w x y : Char} {bytes : List UInt8}
    (h : decodeLast w x y = some bytes) : encode bytes = [w, x, y, '='] := by
  unfold decodeLast at h
  split at h
  · rename_i m n hw hx
    obtain ⟨hm, hw⟩ := sextet_of_value hw
    obtain ⟨hn, hx⟩ := sextet_of_value hx
    split at h
    · rename_i hpad
      split at h
      · cases h
        rw [encode_singleton, toNat_ofNat (by omega), show (m * 4 + n / 16) / 4 = m by omega,
          show (m * 4 + n / 16) % 4 * 16 = n by omega,
          hw, hx, hpad]
      · cases h
    · split at h
      · rename_i k hy
        obtain ⟨hk, hy⟩ := sextet_of_value hy
        split at h
        · cases h
          rw [encode_pair, toNat_ofNat (by omega), toNat_ofNat (by omega),
            show (m * 4 + n / 16) / 4 = m by omega,
            show (m * 4 + n / 16) % 4 * 16 + (n % 16 * 16 + k / 4) / 16 = n by omega,
            show (n % 16 * 16 + k / 4) % 16 * 4 = k by omega, hw, hx, hy]
        · cases h
      · cases h
  · cases h

/-- **What was decoded is encoded as it was.** -/
theorem encode_of_decode : ∀ (s : List Char) (bytes : List UInt8), decode s = some bytes →
    encode bytes = s
  | [], bytes, h => by
    cases h
    rfl
  | [_], _, h => by cases h
  | [_, _], _, h => by cases h
  | [_, _, _], _, h => by cases h
  | w :: x :: y :: z :: rest, bytes, h => by
    rw [decode] at h
    split at h
    · rename_i hlast
      rw [encode_of_decodeLast h, hlast.1, hlast.2]
    split at h
    · rename_i m n k l more hw hx hy hz hrest
      obtain ⟨hm, hw⟩ := sextet_of_value hw
      obtain ⟨hn, hx⟩ := sextet_of_value hx
      obtain ⟨hk, hy⟩ := sextet_of_value hy
      obtain ⟨hl, hz⟩ := sextet_of_value hz
      cases h
      rw [encode_cons, toNat_ofNat (by omega), toNat_ofNat (by omega), toNat_ofNat (by omega),
        encode_of_decode rest more hrest,
        show (m * 4 + n / 16) / 4 =
          m by omega, show (m * 4 + n / 16) % 4 * 16 + (n % 16 * 16 + k / 4) / 16 = n by omega,
        show (n % 16 * 16 + k / 4) % 16 * 4 + (k % 4 * 64 + l) / 64 =
          k by omega, show (k % 4 * 64 + l) % 64 = l by omega,
        hw, hx, hy, hz]
    · cases h

/-! ## What is written -/

theorem length_encode : ∀ bytes : List UInt8, (encode bytes).length = 4 * ((bytes.length + 2) / 3)
  | [] => rfl
  | [_] => by simp [encode_singleton]
  | [_, _] => by simp [encode_pair]
  | a :: b :: c :: rest => by
    rw [encode_cons]
    simp only [List.length_cons, length_encode rest]
    omega

/-- The alphabet, as what `encode` writes is concerned. -/
def IsBase64 (c : Char) : Prop := c.isAlphanum = true ∨ c = '+' ∨ c = '/' ∨ c = '='

theorem isBase64_sextet {n : Nat} (h : n < 64) : IsBase64 (sextet n) := by
  have hall : (List.range 64).all (fun m =>
    (sextet m).isAlphanum || sextet m == '+' || sextet m == '/') = true := by decide
  have hn := List.all_eq_true.mp hall n (List.mem_range.mpr h)
  simp only [Bool.or_eq_true, beq_iff_eq] at hn
  rcases hn with (halnum | hplus) | hslash
  · exact .inl halnum
  · exact .inr (.inl hplus)
  · exact .inr (.inr (.inl hslash))

theorem isBase64_encode : ∀ bytes : List UInt8, ∀ c ∈ encode bytes, IsBase64 c
  | [], c, h => by cases h
  | [a], c, h => by
    have ha := a.toNat_lt
    simp only [encode_singleton, List.mem_cons, List.not_mem_nil, or_false] at h
    rcases h with rfl | rfl | rfl | rfl
    · exact isBase64_sextet (by omega)
    · exact isBase64_sextet (by omega)
    · exact .inr (.inr (.inr rfl))
    · exact .inr (.inr (.inr rfl))
  | [a, b], c, h => by
    have ha := a.toNat_lt
    have hb := b.toNat_lt
    simp only [encode_pair, List.mem_cons, List.not_mem_nil, or_false] at h
    rcases h with rfl | rfl | rfl | rfl
    · exact isBase64_sextet (by omega)
    · exact isBase64_sextet (by omega)
    · exact isBase64_sextet (by omega)
    · exact .inr (.inr (.inr rfl))
  | a :: b :: c :: rest, d, h => by
    have ha := a.toNat_lt
    have hb := b.toNat_lt
    have hc := c.toNat_lt
    simp only [encode_cons, List.mem_cons] at h
    rcases h with rfl | rfl | rfl | rfl | h
    · exact isBase64_sextet (by omega)
    · exact isBase64_sextet (by omega)
    · exact isBase64_sextet (by omega)
    · exact isBase64_sextet (by omega)
    · exact isBase64_encode rest d h

end Pkzz.Lib.Base64
