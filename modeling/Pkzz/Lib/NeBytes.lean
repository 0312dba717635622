import Mathlib.Algebra.GroupWithZero.Nat
import Pkzz.Lib.PrefixCode

/-!
# Numbers as bytes

What a hasher is fed for an integer: its bytes in the order of the machine. Whatever the order is,
the bytes of a number that fits the width determine the number, and the width delimits them.
-/

namespace Pkzz.Lib

/-- The order of the bytes of a word. -/
inductive ByteOrder where
  | little
  | big
deriving DecidableEq

/-- The low bytes of a number, the lowest first. -/
def leBytes : Nat → Nat → List UInt8
  | 0, _ => []
  | width + 1, v => UInt8.ofNat v :: leBytes width (v / 256)

/-- `to_ne_bytes`. -/
def neBytes (order : ByteOrder) (width v : Nat) : List UInt8 :=
  match order with
  | .little => leBytes width v
  | .big => (leBytes width v).reverse

theorem leBytes_length (width v : Nat) : (leBytes width v).length = width := by
  induction width generalizing v with
  | zero => rfl
  | succ width ih => simp [leBytes, ih]

@[simp] theorem neBytes_length (order : ByteOrder) (width v : Nat) :
    (neBytes order width v).length = width := by
  cases order <;> simp [neBytes, leBytes_length]

theorem leBytes_inj {width v w : Nat} (hv : v < 256 ^ width) (hw : w < 256 ^ width)
    (h : leBytes width v = leBytes width w) : v = w := by
  induction width generalizing v w with
  | zero =>
    simp at hv hw
    omega
  | succ width ih =>
    obtain ⟨hlow, hhigh⟩ := List.cons.inj h
    have hdiv : v / 256 = w / 256 := by
      rw [Nat.pow_succ] at hv hw
      exact ih (Nat.div_lt_of_lt_mul (by omega)) (Nat.div_lt_of_lt_mul (by omega)) hhigh
    have hmod : v % 256 = w % 256 := by
      have := congrArg UInt8.toNat hlow
      simpa using this
    omega

/-- The bytes of a number that fits, in front of anything. -/
theorem neBytes_selfDelimiting (order : ByteOrder) (width : Nat) :
    SelfDelimiting (· < 256 ^ width) AnyRest (neBytes order width) := by
  refine SelfDelimiting.of_length (fun v _ => neBytes_length order width v) ?_
  intro v w hv hw h
  cases order with
  | little => exact leBytes_inj hv hw h
  | big => exact leBytes_inj hv hw (List.reverse_injective h)

theorem leBytes_zero (width : Nat) : leBytes width 0 = List.replicate width 0 := by
  induction width with
  | zero => rfl
  | succ width ih =>
    rw [leBytes, Nat.zero_div, ih]
    rfl

theorem neBytes_zero (order : ByteOrder) (width : Nat) :
    neBytes order width 0 = List.replicate width 0 := by
  cases order <;> simp [neBytes, leBytes_zero]

/-- The bytes of zero are those of two zeros. -/
theorem neBytes_zero_add (order : ByteOrder) (width width' : Nat) :
    neBytes order (width + width') 0 = neBytes order width 0 ++ neBytes order width' 0 := by
  rw [neBytes_zero, neBytes_zero, neBytes_zero, List.replicate_append_replicate]

end Pkzz.Lib
