import Pkzz.Lib.Str

/-!
# Percent-encoding

Octets outside a chosen set are written as `%` and two hex digits. Reading takes a `%` in front
of two hex digits, of either case, for the octet they name, and any other octet for itself, so it
inverts writing for every set that leaves out `%`.
-/

namespace Pkzz.Lib.Percent

/-- The octet of `%`. -/
def sign : UInt8 := 37

/-- The upper-case hex digit of a number below 16. -/
def hexDigit (d : Nat) : UInt8 := UInt8.ofNat (if d < 10 then 48 + d else 55 + d)

/-- `char::to_digit(16)`. -/
def toDigit (b : UInt8) : Option Nat :=
  if 48 ≤ b.toNat ∧ b.toNat ≤ 57 then some (b.toNat - 48)
  else if 65 ≤ b.toNat ∧ b.toNat ≤ 70 then some (b.toNat - 55)
  else if 97 ≤ b.toNat ∧ b.toNat ≤ 102 then some (b.toNat - 87)
  else none

section

variable (keep : UInt8 → Bool)

def escape (b : UInt8) : List UInt8 :=
  if keep b then [b] else [sign, hexDigit (b.toNat / 16), hexDigit (b.toNat % 16)]

def encode (bs : List UInt8) : List UInt8 := bs.flatMap (escape keep)

end

def decode : List UInt8 → List UInt8
  | b :: hi :: lo :: rest =>
    if b = sign then
      match toDigit hi, toDigit lo with
      | some h, some l => UInt8.ofNat (16 * h + l) :: decode rest
      | _, _ => b :: decode (hi :: lo :: rest)
    else b :: decode (hi :: lo :: rest)
  | b :: rest => b :: decode rest
  | [] => []

/-! ## Digits -/

theorem toNat_hexDigit {d : Nat} (h : d < 16) : (hexDigit d).toNat = if d < 10 then
    48 + d else 55 + d := by
  unfold hexDigit
  rw [UInt8.toNat_ofNat_of_lt']
  split <;> simp [UInt8.size] <;> omega

theorem toDigit_hexDigit {d : Nat} (h : d < 16) : toDigit (hexDigit d) = some d := by
  unfold toDigit
  rw [toNat_hexDigit h]
  by_cases hd : d < 10
  · rw [if_pos hd, if_pos (by omega)]
    simp
  · rw [if_neg hd, if_neg (by omega), if_pos (by omega)]
    simp

/-! ## Writing and reading back -/

theorem decode_cons {b : UInt8} (h : b ≠ sign) (rest : List UInt8) :
    decode (b :: rest) = b :: decode rest := by
  match rest with
  | [] => rfl
  | [_] => rfl
  | _ :: _ :: _ => rw [decode, if_neg h]

theorem decode_sign {d e : Nat} (hd : d < 16) (he : e < 16) (rest : List UInt8) :
    decode (sign :: hexDigit d :: hexDigit e :: rest) =
      UInt8.ofNat (16 * d + e) :: decode rest := by
  rw [decode, if_pos rfl, toDigit_hexDigit hd, toDigit_hexDigit he]

variable {keep : UInt8 → Bool}

theorem decode_escape (hkeep : keep sign = false) (b : UInt8) (rest : List UInt8) :
    decode (escape keep b ++ rest) = b :: decode rest := by
  have hb := UInt8.toNat_lt b
  unfold escape
  by_cases hk : keep b = true
  · rw [if_pos hk, List.singleton_append]
    refine decode_cons ?_ rest
    intro hsign
    rw [hsign, hkeep] at hk
    cases hk
  · have hsum : 16 * (b.toNat / 16) + b.toNat % 16 = b.toNat := by omega
    rw [if_neg hk]
    show decode (sign :: hexDigit _ :: hexDigit _ :: rest) = _
    rw [decode_sign (by omega) (by omega), hsum, UInt8.ofNat_toNat]

/-- **What is written is read back**, whatever stands behind it. -/
theorem decode_encode_append (hkeep : keep sign = false) (rest : List UInt8) :
    ∀ bs : List UInt8, decode (encode keep bs ++ rest) = bs ++ decode rest
  | [] => rfl
  | b :: bs => by
    rw [encode, List.flatMap_cons, List.append_assoc, decode_escape hkeep]
    rw [← encode, decode_encode_append hkeep rest bs, List.cons_append]

theorem decode_encode (hkeep : keep sign = false) (bs : List UInt8) :
    decode (encode keep bs) = bs := by
  have h := decode_encode_append hkeep [] bs
  rw [List.append_nil] at h
  rw [h, decode, List.append_nil]

/-- An octet of what is written is one of the set, the sign or a digit. -/
theorem mem_encode {bs : List UInt8} {b : UInt8} (h : b ∈ encode keep bs) :
    keep b = true ∨ b = sign ∨ ∃ d < 16, b = hexDigit d := by
  obtain ⟨c, _, hb⟩ := List.mem_flatMap.mp h
  have hc := UInt8.toNat_lt c
  unfold escape at hb
  split at hb
  · rename_i hk
    rw [List.mem_singleton.mp hb]
    exact .inl hk
  rcases List.mem_cons.mp hb with hb | hb
  · exact .inr (.inl hb)
  rcases List.mem_cons.mp hb with hb | hb
  · exact .inr (.inr ⟨_, by omega, hb⟩)
  · exact .inr (.inr ⟨_, by omega, List.mem_singleton.mp hb⟩)

theorem length_encode (bs : List UInt8) :
    (encode keep bs).length = (bs.map fun b => if keep b then 1 else 3).sum := by
  induction bs with
  | nil => rfl
  | cons b bs ih =>
    rw [encode, List.flatMap_cons, List.length_append, ← encode, ih, List.map_cons, List.sum_cons]
    congr 1
    unfold escape
    split <;> rfl

end Pkzz.Lib.Percent
