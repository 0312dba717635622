import Mathlib.Data.Finmap

/-!
# Hash maps

A Rust `HashMap` (or `DashMap`, used by one caller at a time) is a finite map: Mathlib's
`Finmap`. Two things are added here.

* **Buckets.** A map whose values are lists, where an absent key stands for the empty
  list: `entry(k).or_default().push(x)`, and `retain` followed by dropping an emptied
  entry. Every operation is characterised by what it does to each bucket.
* **Iteration order.** A hash map hands out its keys in an order nobody may rely on.
  `HashOrder` is any such order; a program that iterates takes one as an argument, so a
  theorem about the program covers all of them.
-/

namespace Pkzz.Lib

/-- A finite map from `K` to `V`. -/
abbrev Map (K V : Type) := Finmap (fun _ : K => V)

namespace Map

variable {K V : Type} [DecidableEq K]

theorem lookup_insert_eq (m : Map K V) (k k' : K) (v : V) :
    Finmap.lookup k' (Finmap.insert k v m) = if k' = k then some v else Finmap.lookup k' m := by
  by_cases h : k' = k
  · subst h
    rw [Finmap.lookup_insert, if_pos rfl]
  · rw [Finmap.lookup_insert_of_ne m h, if_neg h]

theorem lookup_erase_eq (m : Map K V) (k k' : K) :
    Finmap.lookup k' (Finmap.erase k m) = if k' = k then none else Finmap.lookup k' m := by
  by_cases h : k' = k
  · subst h
    rw [Finmap.lookup_erase, if_pos rfl]
  · rw [Finmap.lookup_erase_ne h, if_neg h]

/-- `HashMap::retain`: the entries that are kept. -/
def filter (m : Map K V) (keep : K → V → Bool) : Map K V where
  entries := m.entries.filter fun e => keep e.1 e.2
  nodupKeys := by
    rw [← Multiset.nodup_keys]
    have hnd := Multiset.nodup_keys.mpr m.nodupKeys
    exact Multiset.nodup_of_le (Multiset.map_le_map (Multiset.filter_le _ _)) hnd

theorem lookup_filter (m : Map K V) (keep : K → V → Bool) (k : K) :
    Finmap.lookup k (filter m keep) = (Finmap.lookup k m).filter (keep k) := by
  refine Option.ext fun v => ?_
  rw [Finmap.lookup_eq_some_iff, Option.filter_eq_some_iff, Finmap.lookup_eq_some_iff]
  exact Multiset.mem_filter

/-! ## Buckets -/

/-- The list stored under a key; an absent key holds the empty list. -/
def bucket (m : Map K (List V)) (k : K) : List V := (Finmap.lookup k m).getD []

/-- `entry(k).or_default().push(x)`. -/
def pushBack (m : Map K (List V)) (k : K) (x : V) : Map K (List V) :=
  Finmap.insert k (bucket m k ++ [x]) m

/-- Store a bucket, dropping the entry when nothing is left in it. -/
def setBucket (m : Map K (List V)) (k : K) (l : List V) : Map K (List V) :=
  if l.isEmpty then Finmap.erase k m else Finmap.insert k l m

/-- `get_mut(k)`, `retain`, and removal of the entry when it became empty. -/
def retain (m : Map K (List V)) (k : K) (keep : V → Bool) : Map K (List V) :=
  match Finmap.lookup k m with
  | none => m
  | some l => setBucket m k (l.filter keep)

theorem bucket_insert (m : Map K (List V)) (k k' : K) (l : List V) :
    bucket (Finmap.insert k l m) k' = if k' = k then l else bucket m k' := by
  unfold bucket
  rw [lookup_insert_eq]
  split <;> rfl

theorem bucket_erase (m : Map K (List V)) (k k' : K) :
    bucket (Finmap.erase k m) k' = if k' = k then [] else bucket m k' := by
  unfold bucket
  rw [lookup_erase_eq]
  split <;> rfl

theorem bucket_pushBack (m : Map K (List V)) (k k' : K) (x : V) :
    bucket (pushBack m k x) k' = if k' = k then bucket m k ++ [x] else bucket m k' :=
  bucket_insert m k k' _

theorem bucket_setBucket (m : Map K (List V)) (k k' : K) (l : List V) :
    bucket (setBucket m k l) k' = if k' = k then l else bucket m k' := by
  unfold setBucket
  by_cases hl : l = []
  · subst hl
    rw [if_pos (by rfl), bucket_erase]
  · rw [if_neg (by simpa using hl), bucket_insert]

theorem bucket_retain (m : Map K (List V)) (k k' : K) (keep : V → Bool) :
    bucket (retain m k keep) k' = if k' = k then (bucket m k).filter keep else bucket m k' := by
  unfold retain
  cases hl : Finmap.lookup k m with
  | none =>
    by_cases h : k' = k
    · subst h
      rw [if_pos rfl]
      simp [bucket, hl]
    · rw [if_neg h]
  | some l =>
    have hb : bucket m k = l := by simp [bucket, hl]
    dsimp only
    rw [bucket_setBucket, hb]

theorem mem_bucket_pushBack {m : Map K (List V)} {k k' : K} {x y : V} :
    y ∈ bucket (pushBack m k x) k' ↔ y ∈ bucket m k' ∨ (y = x ∧ k' = k) := by
  rw [bucket_pushBack]
  by_cases h : k' = k
  · subst h
    simp
  · rw [if_neg h]
    simp [h]

theorem mem_bucket_retain {m : Map K (List V)} {k k' : K} {keep : V → Bool} {y : V} :
    y ∈ bucket (retain m k keep) k' ↔ y ∈ bucket m k' ∧ (k' = k → keep y = true) := by
  rw [bucket_retain]
  by_cases h : k' = k
  · subst h
    simp
  · rw [if_neg h]
    simp [h]

/-- Pushing one value under several keys adds it to exactly their buckets. -/
theorem mem_bucket_foldl_pushBack {A : Type} {f : A → K} {x : V} {k' : K} {y : V} :
    ∀ (as : List A) (m : Map K (List V)),
      y ∈ bucket (as.foldl (fun idx a => pushBack idx (f a) x) m) k'
        ↔ y ∈ bucket m k' ∨ (y = x ∧ ∃ a ∈ as, f a = k')
  | [], m => by simp
  | a :: as, m => by
    rw [List.foldl_cons, mem_bucket_foldl_pushBack as, mem_bucket_pushBack]
    constructor
    · rintro ((hy | ⟨hy, ha⟩) | ⟨hy, b, hb, hfb⟩)
      · exact .inl hy
      · exact .inr ⟨hy, a, by simp, ha.symm⟩
      · exact .inr ⟨hy, b, List.mem_cons_of_mem _ hb, hfb⟩
    · rintro (hy | ⟨hy, b, hb, hfb⟩)
      · exact .inl (.inl hy)
      · rcases List.mem_cons.mp hb with hba | hb
        · subst hba
          exact .inl (.inr ⟨hy, hfb.symm⟩)
        · exact .inr ⟨hy, b, hb, hfb⟩

/-- Filtering under several keys filters exactly their buckets. -/
theorem mem_bucket_foldl_retain {A : Type} {f : A → K} {keep : V → Bool} {k' : K} {y : V} :
    ∀ (as : List A) (m : Map K (List V)),
      y ∈ bucket (as.foldl (fun idx a => retain idx (f a) keep) m) k'
        ↔ y ∈ bucket m k' ∧ ((∃ a ∈ as, f a = k') → keep y = true)
  | [], m => by simp
  | a :: as, m => by
    rw [List.foldl_cons, mem_bucket_foldl_retain as, mem_bucket_retain]
    constructor
    · rintro ⟨⟨hy, ha⟩, hrest⟩
      refine ⟨hy, ?_⟩
      rintro ⟨b, hb, hfb⟩
      rcases List.mem_cons.mp hb with hba | hb
      · subst hba
        exact ha hfb.symm
      · exact hrest ⟨b, hb, hfb⟩
    · rintro ⟨hy, hall⟩
      exact ⟨⟨hy, fun ha => hall ⟨a, by simp, ha.symm⟩⟩,
        fun ⟨b, hb, hfb⟩ => hall ⟨b, List.mem_cons_of_mem _ hb, hfb⟩⟩

/-- A key with something in its bucket is present in the map. -/
theorem mem_of_mem_bucket {m : Map K (List V)} {k : K} {x : V} (h : x ∈ bucket m k) : k ∈ m := by
  cases hl : Finmap.lookup k m with
  | none => simp [bucket, hl] at h
  | some l => exact Finmap.mem_of_lookup_eq_some hl

/-! ## What all values meet -/

/-- Every value in the map meets `P`. -/
def AllValues {U : Type} (P : U → Prop) (m : Map K U) : Prop :=
  ∀ k v, Finmap.lookup k m = some v → P v

section

variable {U : Type} {P : U → Prop} {m : Map K U}

theorem allValues_empty : AllValues P (∅ : Map K U) := by
  intro k v h
  rw [Finmap.lookup_empty] at h
  cases h

theorem AllValues.insert (h : AllValues P m) (k : K) {v : U} (hv : P v) :
    AllValues P (Finmap.insert k v m) := by
  intro k' v' hlookup
  rw [lookup_insert_eq] at hlookup
  split at hlookup
  · cases hlookup
    exact hv
  · exact h k' v' hlookup

theorem AllValues.erase (h : AllValues P m) (k : K) : AllValues P (Finmap.erase k m) := by
  intro k' v' hlookup
  rw [lookup_erase_eq] at hlookup
  split at hlookup
  · cases hlookup
  · exact h k' v' hlookup

end

section

variable {P : List V → Prop} {m : Map K (List V)}

/-- An absent key stands for the empty list. -/
theorem AllValues.bucket (h : AllValues P m) (hnil : P []) (k : K) : P (bucket m k) := by
  unfold Map.bucket
  cases hl : Finmap.lookup k m with
  | none => exact hnil
  | some l => exact h k l hl

theorem AllValues.setBucket (h : AllValues P m) (k : K) {l : List V} (hl : l ≠ [] → P l) :
    AllValues P (setBucket m k l) := by
  unfold Map.setBucket
  split
  next => exact h.erase k
  next hne => exact h.insert k (hl (by simpa using hne))

theorem AllValues.retain (h : AllValues P m) (k : K) (keep : V → Bool)
    (hkeep : ∀ l, P l → l.filter keep ≠ [] → P (l.filter keep)) :
    AllValues P (retain m k keep) := by
  unfold Map.retain
  cases hl : Finmap.lookup k m with
  | none => exact h
  | some l => exact h.setBucket k (hkeep l (h k l hl))

theorem AllValues.foldl_retain {A : Type} {f : A → K}
    (hkeep : ∀ (keep : V → Bool) (l : List V), P l →
    l.filter keep ≠ [] → P (l.filter keep)) (keep : V → Bool) :
      ∀ (as : List A) {m : Map K (List V)},
    AllValues P m → AllValues P (as.foldl (fun idx a => Map.retain idx (f a) keep) m)
  | [], _, h => h
  | a :: as, _, h => AllValues.foldl_retain hkeep keep as (h.retain (f a) keep (hkeep keep))

/-- A bucket something was pushed into is not empty. -/
theorem allValues_pushBack (h : AllValues (fun l => l ≠ []) m) (k : K) (x : V) :
    AllValues (fun l => l ≠ []) (pushBack m k x) :=
  h.insert k (by simp)

theorem allValues_foldl_pushBack {A : Type} {f : A → K} {x : V} :
    ∀ (as : List A) {m : Map K (List V)}, AllValues (fun l => l ≠ []) m →
      AllValues (fun l => l ≠ []) (as.foldl (fun idx a => pushBack idx (f a) x) m)
  | [], _, h => h
  | a :: as, _, h => allValues_foldl_pushBack as (allValues_pushBack h (f a) x)

/-- Where no value is empty, a key is present exactly when there is something under it. -/
theorem mem_iff_bucket_ne_nil (h : AllValues (fun l => l ≠ []) m) (k : K) : k ∈ m ↔
    Map.bucket m k ≠ [] := by
  rw [← Finmap.lookup_isSome]
  unfold Map.bucket
  cases hl : Finmap.lookup k m with
  | none => simp
  | some l => simpa using h k l hl

end

end Map

/-! ## Iteration order -/

/--
An order in which a hash map may hand out its keys: every key once, and nothing else is
promised. It is a function of the key set so that one value serves every map.
-/
structure HashOrder (K : Type) where
  /-- The keys of a map, in the order they are visited. -/
  iter : Finset K → List K
  /-- No key is visited twice. -/
  nodup : ∀ s, (iter s).Nodup
  /-- Exactly the keys are visited. -/
  mem_iter : ∀ s k, k ∈ iter s ↔ k ∈ s

namespace HashOrder

variable {K : Type}

/-- Some order always exists. -/
noncomputable def any (K : Type) : HashOrder K where
  iter := Finset.toList
  nodup := Finset.nodup_toList
  mem_iter := fun _ _ => Finset.mem_toList

@[simp] theorem iter_empty (o : HashOrder K) : o.iter ∅ = [] :=
  List.eq_nil_iff_forall_not_mem.mpr fun k hk => by simp [o.mem_iter] at hk

/-- The keys of a map, in the order they are visited. -/
def keys {V : Type} (o : HashOrder K) (m : Map K V) : List K := o.iter m.keys

theorem mem_keys {V : Type} (o : HashOrder K) (m : Map K V) (k : K) : k ∈ o.keys m ↔ k ∈ m := by
  unfold keys
  rw [o.mem_iter, Finmap.mem_keys]

theorem nodup_keys {V : Type} (o : HashOrder K) (m : Map K V) : (o.keys m).Nodup :=
  o.nodup m.keys

theorem length_keys [DecidableEq K] {V : Type} (o : HashOrder K) (m : Map K V) :
    (o.keys m).length = m.keys.card := by
  have hset : (o.keys m).toFinset = m.keys := Finset.ext fun k => by
    rw [List.mem_toFinset, o.mem_keys, Finmap.mem_keys]
  rw [← hset, List.toFinset_card_of_nodup (o.nodup_keys m)]

/-- Where one key qualifies, the order does not matter. -/
theorem filter_keys_eq_singleton {V : Type} (o : HashOrder K) {m : Map K V} {p : K → Bool} {k : K}
    (hk : k ∈ m) (hp : p k = true) (hall : ∀ k', p k' = true → k' = k) :
    (o.keys m).filter p = [k] := by
  refine List.perm_singleton.mp ?_
  refine (List.perm_ext_iff_of_nodup ((o.nodup_keys m).filter _) (List.nodup_singleton k)).mpr ?_
  intro k'
  rw [List.mem_filter, o.mem_keys, List.mem_singleton]
  constructor
  · intro h
    exact hall k' h.2
  · intro h
    rw [h]
    exact ⟨hk, hp⟩

end HashOrder

end Pkzz.Lib
