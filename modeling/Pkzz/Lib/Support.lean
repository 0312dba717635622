import Mathlib.Data.Finset.Insert
import Mathlib.Data.Finset.Card
import Mathlib.Data.Multiset.Bind
import Mathlib.Logic.Function.Basic

/-!
# Partial functions that hold finitely much

`Support g s` says that `s` is where `g` has a value, and `values g s` are those values, each
as often as it is held. Books kept about a changing `g` balance one key at a time: a key that
gets a value adds it, a key that loses one gives it up.
-/

namespace Pkzz.Lib

variable {K V W : Type}

/-- `s` is where `g` has a value. -/
def Support (g : K → Option V) (s : Finset K) : Prop := ∀ k, k ∈ s ↔ (g k).isSome = true

/-- The values held on `s`. -/
def values (g : K → Option V) (s : Finset K) : Multiset V := s.val.filterMap g

theorem Support.unique {g : K → Option V} {s t : Finset K} (hs : Support g s)
    (ht : Support g t) : s = t :=
  Finset.ext fun k => (hs k).trans (ht k).symm

theorem support_none : Support (fun _ : K => (none : Option V)) ∅ := by
  intro k
  simp

/-- What is held does not depend on what the function does elsewhere. -/
theorem values_congr {f g : K → Option V} {s : Finset K} (h : ∀ k ∈ s, f k = g k) :
    values f s = values g s := by
  unfold values
  rw [Multiset.filterMap_eq_bind, Multiset.filterMap_eq_bind]
  exact Multiset.bind_congr fun k hk => by rw [h k hk]

theorem values_map (g : K → Option V) (f : V → W) (s : Finset K) :
    values (fun k => (g k).map f) s = (values g s).map f := by
  unfold values
  rw [← Multiset.filterMap_eq_map, Multiset.filterMap_filterMap]
  refine congrArg (fun h => Multiset.filterMap h s.val) (funext fun k => ?_)
  cases g k <;> rfl

/-- A multiset of values is read off any list of the keys. -/
theorem values_toFinset [DecidableEq K] (g : K → Option V) {l : List K} (hl : l.Nodup) :
    values g l.toFinset = (l.filterMap g : List V) := by
  unfold values
  rw [List.toFinset_val, List.dedup_eq_self.mpr hl]
  rfl

section

variable [DecidableEq K] {g : K → Option V} {s : Finset K}

/-- A key that gets a value. -/
theorem Support.insert (h : Support g s) (k : K) (v : V) :
    Support (Function.update g k (some v)) (Insert.insert k s) := by
  intro k'
  rw [Finset.mem_insert, Function.update_apply]
  split
  · simp [*]
  · rename_i hne
    simp [hne, h k']

theorem values_insert (h : Support g s) {k : K} (v : V) (hk : g k = none) :
    values (Function.update g k (some v)) (Insert.insert k s) = v ::ₘ values g s := by
  have hnot : k ∉ s := by
    rw [h k, hk]
    simp
  have hrest : values (Function.update g k (some v)) s = values g s := by
    refine values_congr fun k' hk' => Function.update_of_ne ?_ _ _
    rintro rfl
    exact hnot hk'
  unfold values at hrest ⊢
  rw [Finset.insert_val_of_notMem hnot,
    Multiset.filterMap_cons_some _ _ _ (Function.update_self k _ g), hrest]

/-- A key that loses its value. -/
theorem Support.erase (h : Support g s) (k : K) :
    Support (Function.update g k none) (s.erase k) := by
  intro k'
  rw [Finset.mem_erase, Function.update_apply]
  split
  · simp [*]
  · rename_i hne
    simp [hne, h k']

theorem values_erase (h : Support g s) {k : K} {v : V} (hk : g k = some v) :
    values g s = v ::ₘ values (Function.update g k none) (s.erase k) := by
  have hmem : k ∈ s := by
    rw [h k, hk]
    rfl
  have hback := values_insert (h.erase k) v (Function.update_self k none g)
  rw [Function.update_idem, Finset.insert_erase hmem, ← hk, Function.update_eq_self] at hback
  exact hback

/-- A key that had none. -/
theorem update_none_of_none (hk : g k = none) : Function.update g k none = g := by
  rw [← hk, Function.update_eq_self]

end

end Pkzz.Lib
