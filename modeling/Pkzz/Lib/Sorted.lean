import Mathlib.Data.List.Sort
import Mathlib.Data.String.Basic

/-!
# Sorted collections

`BTreeMap<String, V>` keeps its entries in the order of their keys; `sort` followed by
`dedup` turns a list of strings into the sorted list of its members. Both orders are the
order of the octets of the strings, which is the order of their code points.
-/

namespace Pkzz.Lib

/-- A `BTreeMap` with string keys: its entries, in the order of their keys. -/
structure SortedMap (V : Type) where
  entries : List (String × V)
  sorted : entries.Pairwise fun a b => a.1 < b.1
  deriving DecidableEq

namespace SortedMap

variable {V : Type}

def empty : SortedMap V := ⟨[], List.Pairwise.nil⟩

def keys (m : SortedMap V) : List String := m.entries.map Prod.fst

def values (m : SortedMap V) : List V := m.entries.map Prod.snd

def containsKey (m : SortedMap V) (k : String) : Bool := m.keys.contains k

@[ext] theorem ext {m n : SortedMap V} (h : m.entries = n.entries) : m = n := by
  cases m; cases n; congr

end SortedMap

/-! ## Sorting and removing repetitions -/

/-- `Vec::dedup`: drop each element that equals the one before it. -/
def dedupAdjacent : List String → List String
  | [] => []
  | [a] => [a]
  | a :: b :: l => if a = b then dedupAdjacent (b :: l) else a :: dedupAdjacent (b :: l)

/-- `sort` and `dedup`. -/
def sortDedup (l : List String) : List String := dedupAdjacent (l.insertionSort (· ≤ ·))

theorem mem_dedupAdjacent {x : String} : ∀ {l : List String}, x ∈ dedupAdjacent l ↔ x ∈ l
  | [] => by rw [dedupAdjacent]
  | [a] => by rw [dedupAdjacent]
  | a :: b :: l => by
    rw [dedupAdjacent]
    have ih := @mem_dedupAdjacent x (b :: l)
    by_cases hab : a = b
    · rw [if_pos hab, ih, hab]
      simp
    · rw [if_neg hab, List.mem_cons, ih, ← List.mem_cons]

@[simp] theorem mem_sortDedup {x : String} {l : List String} : x ∈ sortDedup l ↔ x ∈ l := by
  unfold sortDedup
  rw [mem_dedupAdjacent]
  exact (List.perm_insertionSort _ _).mem_iff

/-- Once the equal neighbours of a sorted list are gone, it increases strictly. -/
theorem dedupAdjacent_pairwise :
    ∀ {l : List String}, l.Pairwise (· ≤ ·) → (dedupAdjacent l).Pairwise (· < ·)
  | [], _ => by rw [dedupAdjacent]; exact List.Pairwise.nil
  | [a], _ => by rw [dedupAdjacent]; exact List.pairwise_singleton _ _
  | a :: b :: l, h => by
    rw [dedupAdjacent]
    obtain ⟨ha, hl⟩ := List.pairwise_cons.mp h
    have ih := dedupAdjacent_pairwise hl
    by_cases hab : a = b
    · rw [if_pos hab]
      exact ih
    rw [if_neg hab]
    refine List.pairwise_cons.mpr ⟨?_, ih⟩
    intro x hx
    have hxl := mem_dedupAdjacent.mp hx
    have hbx : b ≤ x := by
      rcases List.mem_cons.mp hxl with hxb | hxl
      · exact le_of_eq hxb.symm
      · exact (List.pairwise_cons.mp hl).1 x hxl
    exact lt_of_lt_of_le (lt_of_le_of_ne (ha b (by simp)) hab) hbx

theorem dedupAdjacent_of_pairwise :
    ∀ {l : List String}, l.Pairwise (· < ·) → dedupAdjacent l = l
  | [], _ => by rw [dedupAdjacent]
  | [a], _ => by rw [dedupAdjacent]
  | a :: b :: l, h => by
    obtain ⟨ha, hl⟩ := List.pairwise_cons.mp h
    rw [dedupAdjacent, if_neg (ne_of_lt (ha b (by simp))), dedupAdjacent_of_pairwise hl]

theorem sortDedup_pairwise (l : List String) : (sortDedup l).Pairwise (· < ·) :=
  dedupAdjacent_pairwise (List.pairwise_insertionSort _ _)

/-- Sorting twice changes nothing. -/
theorem sortDedup_sortDedup (l : List String) : sortDedup (sortDedup l) = sortDedup l := by
  have hlt := sortDedup_pairwise l
  have hsort : (sortDedup l).insertionSort (· ≤ ·) = sortDedup l :=
    List.Pairwise.insertionSort_eq (hlt.imp le_of_lt)
  calc sortDedup (sortDedup l)
      = dedupAdjacent ((sortDedup l).insertionSort (· ≤ ·)) := rfl
    _ = dedupAdjacent (sortDedup l) := by rw [hsort]
    _ = sortDedup l := dedupAdjacent_of_pairwise hlt

end Pkzz.Lib
