import Mathlib.Data.String.Basic
import Pkzz.Lib.Json

/-!
# JSON values up to the order of their keys

An object is a map: no key occurs twice, and the order in which a program holds its fields
means nothing. `sortKeys` puts every object into the order of its keys; two values are the
same up to key order when it makes them equal.
-/

namespace Pkzz.Lib

namespace Json

mutual

/-- No object has a key twice. -/
def distinctKeys : Json → Bool
  | .null => true
  | .bool _ => true
  | .num _ => true
  | .str _ => true
  | .arr items => distinctItems items
  | .obj fields => decide (fields.map Prod.fst).Nodup && distinctFields fields

def distinctItems : List Json → Bool
  | [] => true
  | v :: vs => distinctKeys v && distinctItems vs

def distinctFields : List (String × Json) → Bool
  | [] => true
  | (_, v) :: fs => distinctKeys v && distinctFields fs

end

/-- The order of `BTreeMap<&str, _>`. -/
def sortByKey {V : Type} (l : List (String × V)) : List (String × V) :=
  l.insertionSort fun a b => a.1 ≤ b.1

mutual

/-- Every object in the order of its keys. -/
def sortKeys : Json → Json
  | .null => .null
  | .bool b => .bool b
  | .num n => .num n
  | .str s => .str s
  | .arr items => .arr (sortKeysItems items)
  | .obj fields => .obj (sortByKey (sortKeysFields fields))

def sortKeysItems : List Json → List Json
  | [] => []
  | v :: vs => sortKeys v :: sortKeysItems vs

def sortKeysFields : List (String × Json) → List (String × Json)
  | [] => []
  | (k, v) :: fs => (k, sortKeys v) :: sortKeysFields fs

end

/-- Sorting by key commutes with a change of the values. -/
theorem sortByKey_map {V W : Type} (f : String → V → W) (l : List (String × V)) :
    sortByKey (l.map fun e => (e.1, f e.1 e.2)) = (sortByKey l).map fun e => (e.1, f e.1 e.2) :=
  (List.map_insertionSort (fun a b : String × V => a.1 ≤ b.1) (fun a b : String × W => a.1 ≤ b.1)
    (fun e => (e.1, f e.1 e.2)) l fun _ _ _ _ => Iff.rfl).symm

/-- The value that all entries of a key have is found under it. -/
theorem lookup_of_forall {V : Type} {k : String} {v : V} : ∀ {l : List (String × V)}, (k, v) ∈ l →
    (∀ e ∈ l, e.1 = k → e.2 = v) → l.lookup k = some v
  | [], hmem, _ => by cases hmem
  | (k', v') :: l, hmem, hall => by
    rw [List.lookup_cons]
    by_cases hk : k = k'
    · have hv : v' = v := hall (k', v') List.mem_cons_self hk.symm
      simp [hk, hv]
    · rw [beq_false_of_ne hk]
      have hmem := (List.mem_cons.mp hmem).resolve_left fun heq => hk (congrArg Prod.fst heq)
      exact lookup_of_forall hmem fun e he => hall e (List.mem_cons_of_mem _ he)

/-- A key that was put into an object is found there. -/
theorem lookup_sortByKey_put {V : Type} (k : String) (v : V) (l : List (String × V)) :
    (sortByKey ((k, v) :: l.filter fun e => e.1 ≠ k)).lookup k = some v := by
  have hperm := List.perm_insertionSort (fun a b : String × V => a.1 ≤ b.1)
    ((k, v) :: l.filter fun e => e.1 ≠ k)
  refine lookup_of_forall (hperm.mem_iff.mpr List.mem_cons_self) ?_
  intro e he hek
  rcases List.mem_cons.mp (hperm.mem_iff.mp he) with rfl | he
  · rfl
  · exact absurd hek (by simpa using (List.mem_filter.mp he).2)

end Json

end Pkzz.Lib
