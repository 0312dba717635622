import Mathlib.Order.BoundedOrder.Lattice
import Pkzz.Lib.OrderedMap

/-!
# Grow-only registers

A state-based register per key: a state is a function from keys to a join semilattice, an
update offers one value for one key, and a state takes the join of what it is offered.
What a register holds is then a matter of which updates reached it, not of their order,
their batches or their repetitions.
-/

namespace Pkzz.Lib

variable {K V : Type} [DecidableEq K] [SemilatticeSup V] [OrderBot V]

/-- The join of the values offered for a key. -/
def joined : List (K × V) → K → V
  | [], _ => ⊥
  | u :: us, k => if u.1 = k then u.2 ⊔ joined us k else joined us k

variable {us vs : List (K × V)} {k : K} {v b : V}

@[simp] theorem joined_nil (k : K) : joined ([] : List (K × V)) k = ⊥ := rfl

theorem joined_cons (u : K × V) (us : List (K × V)) (k : K) :
    joined (u :: us) k = if u.1 = k then u.2 ⊔ joined us k else joined us k := rfl

theorem le_joined (h : (k, v) ∈ us) : v ≤ joined us k := by
  induction us with
  | nil => cases h
  | cons u us ih =>
    rw [joined_cons]
    rcases List.mem_cons.mp h with hu | hus
    · rw [← hu, if_pos rfl]
      exact le_sup_left
    by_cases hk : u.1 = k
    · rw [if_pos hk]
      exact le_sup_of_le_right (ih hus)
    · rw [if_neg hk]
      exact ih hus

theorem joined_le (h : ∀ v, (k, v) ∈ us → v ≤ b) : joined us k ≤ b := by
  induction us with
  | nil => exact bot_le
  | cons u us ih =>
    have hus : joined us k ≤ b := ih fun v hv => h v (List.mem_cons_of_mem _ hv)
    rw [joined_cons]
    by_cases hk : u.1 = k
    · rw [if_pos hk]
      refine sup_le (h u.2 ?_) hus
      rw [← hk]
      exact List.mem_cons_self
    · rw [if_neg hk]
      exact hus

theorem joined_append (us vs : List (K × V)) : joined (us ++ vs) = joined us ⊔ joined vs := by
  funext k
  rw [Pi.sup_apply]
  induction us with
  | nil => simp
  | cons u us ih =>
    rw [List.cons_append, joined_cons, joined_cons, ih]
    by_cases hk : u.1 = k
    · rw [if_pos hk, if_pos hk, sup_assoc]
    · rw [if_neg hk, if_neg hk]

/-- One update changes its own key only. -/
theorem joined_singleton (k k' : K) (v : V) : joined [(k, v)] k' = if k = k' then v else ⊥ := by
  rw [joined_cons, joined_nil, sup_bot_eq]

/-- What is offered elsewhere, at least as high, offers nothing new. -/
theorem joined_le_joined (h : ∀ v, (k, v) ∈ us → ∃ w, (k, w) ∈ vs ∧ v ≤ w) :
    joined us k ≤ joined vs k := by
  refine joined_le ?_
  intro v hv
  obtain ⟨w, hw, hvw⟩ := h v hv
  exact le_trans hvw (le_joined hw)

/-- **Convergence.** Registers that received the same updates hold the same values: the
order, the repetitions and the batches do not matter. -/
theorem joined_congr (h : ∀ u, u ∈ us ↔ u ∈ vs) : joined us = joined vs := by
  funext k
  refine le_antisymm ?_ ?_
  · exact joined_le_joined fun v hv => ⟨v, (h _).mp hv, le_refl v⟩
  · exact joined_le_joined fun v hv => ⟨v, (h _).mpr hv, le_refl v⟩

/-! ## Registers kept in a map

An absent key stands for the least value, which is not stored. -/

section Stored

variable {K V : Type} [DecidableEq K] [LinearOrder V] [OrderBot V]

def register (m : OrderedMap K V) (k : K) : V := (m.get k).getD ⊥

/-- Store a value that is greater than the one held. -/
def raise (m : OrderedMap K V) (k : K) (v : V) : OrderedMap K V :=
    if v ≤ register m k then m else m.set k v

def raiseAll (m : OrderedMap K V) (us : List (K × V)) : OrderedMap K V :=
  us.foldl (fun m u => raise m u.1 u.2) m

/-- The least value is not stored. -/
def NoBottom (m : OrderedMap K V) : Prop := ∀ k, m.get k ≠ some ⊥

variable {m n : OrderedMap K V} {us vs : List (K × V)} {k : K} {v : V}

@[simp] theorem raiseAll_nil : raiseAll m [] = m := rfl

theorem raiseAll_cons (u : K × V) : raiseAll m (u :: us) = raiseAll (raise m u.1 u.2) us := rfl

theorem raiseAll_append : raiseAll m (us ++ vs) = raiseAll (raiseAll m us) vs := List.foldl_append

theorem register_raise : register (raise m k v) = register m ⊔ joined [(k, v)] := by
  funext k'
  rw [Pi.sup_apply, joined_singleton]
  unfold raise
  by_cases hv : v ≤ register m k
  · rw [if_pos hv]
    by_cases hk : k = k'
    · rw [if_pos hk, ← hk, sup_eq_left.mpr hv]
    · rw [if_neg hk, sup_bot_eq]
  · rw [if_neg hv]
    unfold register at hv ⊢
    rw [OrderedMap.get_set]
    by_cases hk : k = k'
    · rw [if_pos hk.symm, if_pos hk, ← hk, sup_eq_right.mpr (le_of_lt (not_le.mp hv))]
      rfl
    · rw [if_neg (Ne.symm hk), if_neg hk, sup_bot_eq]

/-- **Every update is joined in.** -/
theorem register_raiseAll : register (raiseAll m us) = register m ⊔ joined us := by
  induction us generalizing m with
  | nil =>
    funext k
    simp
  | cons u us ih =>
    rw [raiseAll_cons, ih, register_raise, sup_assoc, ← joined_append]
    rfl

theorem NoBottom.raise (h : NoBottom m) : NoBottom (raise m k v) := by
  intro k' hk'
  unfold Lib.raise at hk'
  by_cases hv : v ≤ register m k
  · rw [if_pos hv] at hk'
    exact h k' hk'
  rw [if_neg hv, OrderedMap.get_set] at hk'
  by_cases hk : k' = k
  · rw [if_pos hk] at hk'
    rw [Option.some.inj hk'] at hv
    exact hv bot_le
  · rw [if_neg hk] at hk'
    exact h k' hk'

theorem NoBottom.raiseAll (h : NoBottom m) : NoBottom (raiseAll m us) := by
  induction us generalizing m with
  | nil => exact h
  | cons u us ih => exact ih h.raise

/-- Updates that the register has reached already change nothing at all. -/
theorem raiseAll_of_le (h : ∀ u ∈ us, u.2 ≤ register m u.1) : raiseAll m us = m := by
  induction us with
  | nil => rfl
  | cons u us ih =>
    have hu : raise m u.1 u.2 = m := if_pos (h u List.mem_cons_self)
    rw [raiseAll_cons, hu]
    exact ih fun u' hu' => h u' (List.mem_cons_of_mem _ hu')

/-- What a map holds is what it was filled with. -/
theorem register_eq_joined (m : OrderedMap K V) : register m = joined m.entries := by
  funext k
  unfold register
  refine le_antisymm ?_ ?_
  · cases hk : m.get k with
    | none => exact bot_le
    | some v => exact le_joined (OrderedMap.mem_entries.mpr hk)
  · refine joined_le ?_
    intro v hv
    rw [OrderedMap.mem_entries.mp hv]
    exact le_refl v

theorem NoBottom.get_eq (h : NoBottom m) (k : K) :
    m.get k = if register m k = ⊥ then none else some (register m k) := by
  unfold register
  cases hk : m.get k with
  | none => exact (if_pos rfl).symm
  | some v =>
    have hv : v ≠ ⊥ := by
      intro hv
      exact h k (by rw [hk, hv])
    exact (if_neg hv).symm

/-- The registers decide what is stored. -/
theorem NoBottom.get_congr (hm : NoBottom m) (hn : NoBottom n) (h : register m k = register n k) :
    m.get k = n.get k := by
  rw [hm.get_eq, hn.get_eq, h]

end Stored

end Pkzz.Lib
