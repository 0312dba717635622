import Mathlib.Algebra.GroupWithZero.Nat
import Mathlib.Data.List.Nodup

/-!
# Maps that remember insertion order

A JavaScript `Map`: setting a key that is present replaces its value where it stands,
setting a new one puts it last, and iteration goes through the entries in that order.
-/

namespace Pkzz.Lib

structure OrderedMap (K V : Type) where
  entries : List (K × V)
  /-- A key has one entry. -/
  nodup : (entries.map Prod.fst).Nodup
  deriving DecidableEq

namespace OrderedMap

variable {K V : Type} [DecidableEq K]

def empty : OrderedMap K V := ⟨[], List.nodup_nil⟩

def keys (m : OrderedMap K V) : List K := m.entries.map Prod.fst

def values (m : OrderedMap K V) : List V := m.entries.map Prod.snd

/-! ## Lookup -/

def find (k : K) : List (K × V) → Option V
  | [] => none
  | e :: es => if e.1 = k then some e.2 else find k es

@[simp] theorem find_nil (k : K) : find k ([] : List (K × V)) = none := rfl

theorem find_cons (k : K) (e : K × V) (es : List (K × V)) :
    find k (e :: es) = if e.1 = k then some e.2 else find k es := rfl

/-- `map.get(k)`. -/
def get (m : OrderedMap K V) (k : K) : Option V := find k m.entries

/-- `map.has(k)`. -/
def has (m : OrderedMap K V) (k : K) : Bool := (m.get k).isSome

variable {k : K}

theorem mem_of_find {v : V} : ∀ {es : List (K × V)}, find k es = some v → (k, v) ∈ es
  | [], h => by cases h
  | e :: es, h => by
    rw [find_cons] at h
    by_cases he : e.1 = k
    · rw [if_pos he] at h
      rw [← he, ← Option.some.inj h]
      exact List.mem_cons_self
    · rw [if_neg he] at h
      exact List.mem_cons_of_mem _ (mem_of_find h)

theorem find_eq_none : ∀ {es : List (K × V)}, find k es = none ↔ k ∉ es.map Prod.fst
  | [] => by simp
  | e :: es => by
    rw [find_cons, List.map_cons, List.mem_cons, not_or]
    by_cases he : e.1 = k
    · rw [if_pos he]
      simp [he]
    · rw [if_neg he, find_eq_none]
      simp [Ne.symm he]

theorem find_of_mem {v : V} :
    ∀ {es : List (K × V)}, (es.map Prod.fst).Nodup → (k, v) ∈ es → find k es = some v
  | [], _, h => by cases h
  | e :: es, hnd, h => by
    rw [List.map_cons, List.nodup_cons] at hnd
    rw [find_cons]
    rcases List.mem_cons.mp h with he | h
    · rw [← he, if_pos rfl]
    have hne : e.1 ≠ k := by
      intro he
      rw [he] at hnd
      exact hnd.1 (List.mem_map_of_mem h)
    rw [if_neg hne]
    exact find_of_mem hnd.2 h

theorem mem_entries {m : OrderedMap K V} {v : V} : (k, v) ∈ m.entries ↔ m.get k = some v :=
  ⟨find_of_mem m.nodup, mem_of_find⟩

theorem mem_keys {m : OrderedMap K V} : k ∈ m.keys ↔ ∃ v, m.get k = some v := by
  cases h : m.get k with
  | none => simp [keys, find_eq_none.mp h]
  | some v =>
    have hmem : k ∈ m.keys := List.mem_map.mpr ⟨(k, v), mem_entries.mpr h, rfl⟩
    simp [hmem]

theorem mem_values {m : OrderedMap K V} {v : V} : v ∈ m.values ↔ ∃ k, m.get k = some v := by
  unfold values
  rw [List.mem_map]
  constructor
  · intro h
    obtain ⟨e, he, hev⟩ := h
    exact ⟨e.1, mem_entries.mp (by rw [← hev]; exact he)⟩
  · intro h
    obtain ⟨k, hk⟩ := h
    exact ⟨(k, v), mem_entries.mpr hk, rfl⟩

@[simp] theorem get_empty (k : K) : (empty : OrderedMap K V).get k = none := rfl

/-! ## Setting a key -/

def put (k : K) (v : V) : List (K × V) → List (K × V)
  | [] => [(k, v)]
  | e :: es => if e.1 = k then (k, v) :: es else e :: put k v es

@[simp] theorem put_nil (k : K) (v : V) : put k v [] = [(k, v)] := rfl

theorem put_cons (k : K) (v : V) (e : K × V) (es : List (K × V)) :
    put k v (e :: es) = if e.1 = k then (k, v) :: es else e :: put k v es := rfl

theorem mem_keys_put {k' : K} {v : V} :
    ∀ {es : List (K × V)}, k' ∈ (put k v es).map Prod.fst → k' = k ∨ k' ∈ es.map Prod.fst
  | [], h => by simpa using h
  | e :: es, h => by
    rw [put_cons] at h
    by_cases he : e.1 = k
    · rw [if_pos he, List.map_cons, List.mem_cons] at h
      rcases h with h | h
      · exact .inl h
      · exact .inr (List.mem_cons_of_mem _ h)
    · rw [if_neg he, List.map_cons, List.mem_cons] at h
      rcases h with h | h
      · exact .inr (by rw [h]; exact List.mem_cons_self)
      · rcases mem_keys_put h with h | h
        · exact .inl h
        · exact .inr (List.mem_cons_of_mem _ h)

theorem nodup_put {v : V} :
    ∀ {es : List (K × V)}, (es.map Prod.fst).Nodup → ((put k v es).map Prod.fst).Nodup
  | [], _ => by simp
  | e :: es, h => by
    rw [List.map_cons, List.nodup_cons] at h
    rw [put_cons]
    by_cases he : e.1 = k
    · rw [if_pos he, List.map_cons, List.nodup_cons]
      exact ⟨by rw [← he]; exact h.1, h.2⟩
    rw [if_neg he, List.map_cons, List.nodup_cons]
    refine ⟨?_, nodup_put h.2⟩
    intro hmem
    rcases mem_keys_put hmem with hk | hk
    · exact he hk
    · exact h.1 hk

theorem find_put {k' : K} {v : V} :
    ∀ {es : List (K × V)}, find k' (put k v es) = if k' = k then some v else find k' es
  | [] => by
    simp only [put_nil, find_cons, find_nil]
    by_cases h : k' = k
    · rw [if_pos h.symm, if_pos h]
    · rw [if_neg (Ne.symm h), if_neg h]
  | e :: es => by
    rw [put_cons]
    by_cases he : e.1 = k
    · rw [if_pos he]
      simp only [find_cons]
      by_cases h : k' = k
      · rw [if_pos h.symm, if_pos h]
      · rw [if_neg (Ne.symm h), if_neg h, if_neg (by rw [he]; exact Ne.symm h)]
    · rw [if_neg he]
      simp only [find_cons, find_put]
      by_cases h : k' = k
      · rw [if_neg (by rw [h]; exact he), if_pos h, if_pos h]
      · rw [if_neg h, if_neg h]

/-- `map.set(k, v)`. -/
def set (m : OrderedMap K V) (k : K) (v : V) : OrderedMap K V :=
  ⟨put k v m.entries, nodup_put m.nodup⟩

theorem get_set (m : OrderedMap K V) (k k' : K) (v : V) :
    (m.set k v).get k' = if k' = k then some v else m.get k' := find_put

/-- `new Map(entries)`, `entries.collect()`: the last entry of a key counts. -/
def collect (es : List (K × V)) : OrderedMap K V := es.foldl (fun m e => m.set e.1 e.2) empty

theorem get_foldl_set : ∀ {es : List (K × V)} {m : OrderedMap K V}, (es.map Prod.fst).Nodup →
    (es.foldl (fun m e => m.set e.1 e.2) m).get k = (find k es).or (m.get k)
  | [], _, _ => rfl
  | e :: es, m, hnd => by
    rw [List.map_cons, List.nodup_cons] at hnd
    rw [List.foldl_cons, get_foldl_set hnd.2, get_set, find_cons]
    by_cases hk : e.1 = k
    · -- a later entry of the key would be a duplicate
      rw [if_pos hk, if_pos hk.symm, find_eq_none.mpr (hk ▸ hnd.1)]
      rfl
    · rw [if_neg hk, if_neg (Ne.symm hk)]

theorem get_collect {es : List (K × V)} (hnd : (es.map Prod.fst).Nodup) (k : K) :
    (collect es).get k = find k es := by
  rw [collect, get_foldl_set hnd, get_empty, Option.or_none]

/-! ## Removing entries -/

/-- The entries that are kept, in their order. -/
def filter (m : OrderedMap K V) (p : K → Bool) : OrderedMap K V where
  entries := m.entries.filter fun e => p e.1
  nodup := by
    refine m.nodup.sublist ?_
    exact List.Sublist.map _ List.filter_sublist

/-- `map.delete(k)`. -/
def erase (m : OrderedMap K V) (k : K) : OrderedMap K V := m.filter fun k' => k' ≠ k

theorem get_filter (m : OrderedMap K V) (p : K → Bool) (k : K) :
    (m.filter p).get k = if p k then m.get k else none := by
  refine Option.ext fun v => ?_
  rw [← mem_entries]
  unfold filter
  rw [List.mem_filter, mem_entries]
  by_cases hp : p k = true
  · simp [hp]
  · simp [hp]

theorem get_erase (m : OrderedMap K V) (k k' : K) :
    (m.erase k).get k' = if k' = k then none else m.get k' := by
  unfold erase
  rw [get_filter]
  by_cases h : k' = k <;> simp [h]

theorem filter_ne_of_notMem {es : List (K × V)} (h : k ∉ es.map Prod.fst) :
    (es.filter fun e => decide (e.1 ≠ k)) = es := by
  refine List.filter_eq_self.mpr ?_
  intro e he
  exact decide_eq_true fun heq => h (List.mem_map.mpr ⟨e, he, heq⟩)

end OrderedMap

end Pkzz.Lib
