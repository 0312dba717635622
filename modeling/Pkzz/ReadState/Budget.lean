import Pkzz.ReadState.Format

/-!
# Fitting contexts into blobs

`trimContextsToBudget` and `splitContextsIntoBudgetedSlots`. Messages and threads may be
left out of a blob, channels never are; when the channels alone are too large they are
dealt out to several slots.
-/

namespace Pkzz.ReadState

open Pkzz.Lib

/-- A key of neither reserved family. -/
def isChannelKey (key : String) : Bool :=
  !Str.startsWith key msgPrefix && !Str.startsWith key threadPrefix

/-! ## Sizes -/

/-- `{v: 1, client_id, contexts}`. -/
def blobJson (clientId : String) (contexts : Record) : Json :=
  .obj [("v", .num (.ofNat 1)), ("client_id", .str clientId),
    ("contexts", .obj (contexts.entries.map fun e => (e.1, .num (.ofNat e.2))))]

/-- `encoder.encode(blobFor(contexts)).length`. -/
def blobBytes (clientId : String) (contexts : Record) : Nat :=
  ((blobJson clientId contexts).text.map Char.utf8Size).sum

/-! ## Trimming -/

structure TrimResult where
  evicted : Nat
  fitsAfterTrim : Bool

/-- `sort((a, b) => a[1] - b[1])`, which is stable. -/
def oldestFirst (entries : List (String × Nat)) : List (String × Nat) :=
  entries.insertionSort fun a b => a.2 ≤ b.2

/-- The entries that may go, in the order in which they go. -/
def evictionOrder (contexts : Record) : List (String × Nat) :=
  oldestFirst (contexts.entries.filter fun e => Str.startsWith e.1 msgPrefix)
    ++ oldestFirst (contexts.entries.filter fun e =>
      !Str.startsWith e.1 msgPrefix && Str.startsWith e.1 threadPrefix)

/-- `,"key":timestamp`. -/
def entryBytes (e : String × Nat) : Nat := utf16Length e.1 + 3 + e.2.repr.length + 1

def toEvict (maxBytes : Nat) : Nat → List (String × Nat) → List String
  | _, [] => []
  | currentBytes, e :: es =>
    if currentBytes ≤ maxBytes then [] else e.1 :: toEvict maxBytes (currentBytes - entryBytes e) es

def trimContextsToBudget (contexts : Record) (clientId : String) (maxBytes : Nat) :
    Record × TrimResult :=
  let currentBytes := blobBytes clientId contexts
  if currentBytes ≤ maxBytes then (contexts, ⟨0, true⟩)
  else
    let evict := toEvict maxBytes currentBytes (evictionOrder contexts)
    let kept := evict.foldl OrderedMap.erase contexts
    (kept, ⟨evict.length, decide (blobBytes clientId kept ≤ maxBytes)⟩)

variable {maxBytes : Nat}

theorem mem_toEvict {k : String} :
    ∀ {es : List (String × Nat)} {currentBytes : Nat}, k ∈ toEvict maxBytes currentBytes es →
      ∃ e ∈ es, e.1 = k
  | [], _, h => by cases h
  | e :: es, currentBytes, h => by
    rw [toEvict] at h
    by_cases hfit : currentBytes ≤ maxBytes
    · rw [if_pos hfit] at h
      cases h
    rw [if_neg hfit] at h
    rcases List.mem_cons.mp h with h | h
    · exact ⟨e, List.mem_cons_self, h.symm⟩
    · obtain ⟨e', he', hk⟩ := mem_toEvict h
      exact ⟨e', List.mem_cons_of_mem _ he', hk⟩

theorem get_foldl_erase {k : String} : ∀ {keys : List String} {r : Record},
    (keys.foldl OrderedMap.erase r).get k = if k ∈ keys then none else r.get k
  | [], _ => by simp
  | key :: keys, r => by
    rw [List.foldl_cons, get_foldl_erase, OrderedMap.get_erase]
    by_cases h : k ∈ keys
    · rw [if_pos h, if_pos (List.mem_cons_of_mem _ h)]
    rw [if_neg h]
    by_cases hk : k = key
    · rw [if_pos hk, if_pos (by rw [hk]; exact List.mem_cons_self)]
    rw [if_neg hk, if_neg]
    intro hmem
    rcases List.mem_cons.mp hmem with hmem | hmem
    · exact hk hmem
    · exact h hmem

variable {contexts : Record}

/-- No channel is evicted. -/
theorem notMem_evictionOrder {k : String} (hk : isChannelKey k = true) :
    ¬ ∃ e ∈ evictionOrder contexts, e.1 = k := by
  intro h
  obtain ⟨e, he, hek⟩ := h
  unfold isChannelKey at hk
  rw [Bool.and_eq_true, Bool.not_eq_true', Bool.not_eq_true', ← hek] at hk
  rcases List.mem_append.mp he with he | he
  · have hmem := List.mem_filter.mp ((List.mem_insertionSort _).mp he)
    rw [hk.1] at hmem
    exact absurd hmem.2 (by decide)
  · have hmem := List.mem_filter.mp ((List.mem_insertionSort _).mp he)
    rw [hk.2, Bool.and_false] at hmem
    exact absurd hmem.2 (by decide)

/-- Channel keys are never evicted. -/
theorem get_trim_of_isChannelKey {clientId : String} {k : String} (hk : isChannelKey k = true) :
    (trimContextsToBudget contexts clientId maxBytes).1.get k = contexts.get k := by
  unfold trimContextsToBudget
  by_cases hfit : blobBytes clientId contexts ≤ maxBytes
  · simp only [if_pos hfit]
  simp only [if_neg hfit]
  rw [get_foldl_erase, if_neg]
  intro hmem
  exact notMem_evictionOrder hk (mem_toEvict hmem)

/-- Trimming adds nothing. -/
theorem of_get_trim {clientId : String} {k : String} {t : Nat}
    (h : (trimContextsToBudget contexts clientId maxBytes).1.get k = some t) :
    contexts.get k = some t := by
  unfold trimContextsToBudget at h
  by_cases hfit : blobBytes clientId contexts ≤ maxBytes
  · simpa only [if_pos hfit] using h
  simp only [if_neg hfit] at h
  rw [get_foldl_erase] at h
  split at h
  · cases h
  · exact h

/-! ## Splitting -/

structure SlotSplitResult where
  /-- The primary slot comes first. -/
  slots : List Record
  extraSlotIds : List String

/-- `slotContexts[i % count][key] = ts` for the `i`-th channel. -/
def deal (count : Nat) (slots : List Record) (e : (String × Nat) × Nat) : List Record :=
  slots.modify (e.2 % count) fun r => r.assign e.1.1 e.1.2

def distribute (channelEntries : List (String × Nat)) (count : Nat) : List Record :=
  channelEntries.zipIdx.foldl (deal count) (List.replicate count .empty)

/-- The `while` loop: `spare` more slots may be allocated. -/
def growSlotCount (exceeds : Nat → Bool) (slotCount : Nat) : Nat → Nat
  | 0 => slotCount
  | spare + 1 => if exceeds slotCount then
      growSlotCount exceeds (slotCount + 1) spare else slotCount

/-- `slotIdGenerator n` is the `n`-th identifier that is generated. -/
def splitContextsIntoBudgetedSlots (channelEntries threadMsgEntries : List (String × Nat))
    (clientId : String)
    (initialSlotCount maxSlots maxBytes : Nat) (slotIdGenerator : Nat → String) :
    Option SlotSplitResult :=
  let exceeds := fun count => (distribute channelEntries count).any fun c =>
    decide (blobBytes clientId c > maxBytes)
  let slotCount := growSlotCount exceeds initialSlotCount (maxSlots - initialSlotCount)
  if exceeds slotCount then none
  else
    some {
      slots := (distribute channelEntries slotCount).modify 0 fun c =>
        (trimContextsToBudget (c.assignAll threadMsgEntries) clientId maxBytes).1
      extraSlotIds := (List.range (slotCount - initialSlotCount)).map slotIdGenerator }

theorem length_foldl_deal {count : Nat} :
    ∀ {es : List ((String × Nat) × Nat)} {slots : List Record},
    (es.foldl (deal count) slots).length = slots.length
  | [], _ => rfl
  | e :: es, slots => by
    rw [List.foldl_cons, length_foldl_deal]
    exact List.length_modify ..

theorem getElem?_deal {count : Nat} {e : (String × Nat) × Nat} {slots : List Record} {j : Nat}
    {c : Record} (h : (deal count slots e)[j]? = some c) :
    ∃ c', slots[j]? = some c' ∧ (c = c' ∨ c = c'.assign e.1.1 e.1.2) := by
  unfold deal at h
  rw [List.getElem?_modify] at h
  obtain ⟨c', hc', hc⟩ := Option.map_eq_some_iff.mp h
  refine ⟨c', hc', ?_⟩
  by_cases hj : e.2 % count = j
  · rw [if_pos hj] at hc
    exact .inr hc.symm
  · rw [if_neg hj] at hc
    exact .inl hc.symm

/-- A slot holds only what it was dealt. -/
theorem of_foldl_deal {count : Nat} {k : String} {t : Nat} {j : Nat} {c : Record} :
    ∀ {es : List ((String × Nat) × Nat)} {slots : List Record},
      (es.foldl (deal count) slots)[j]? = some c → c.get k = some t →
      ((k, t) ∈ es.map Prod.fst ∧ k ≠ "__proto__") ∨ ∃ c', slots[j]? = some c' ∧ c'.get k = some t
  | [], _, hc, hk => .inr ⟨c, hc, hk⟩
  | e :: es, slots, hc, hk => by
    rcases @of_foldl_deal count k t j c es (deal count slots e) hc hk with h | ⟨c', hc', hk'⟩
    · exact .inl ⟨List.mem_cons_of_mem _ h.1, h.2⟩
    obtain ⟨c₀, hc₀, hcase⟩ := getElem?_deal hc'
    rcases hcase with hcase | hcase
    · exact .inr ⟨c₀, hc₀, by rw [← hcase]; exact hk'⟩
    rw [hcase] at hk'
    rcases Record.of_get_assign hk' with ⟨hk, ht, hproto⟩ | hk
    · refine .inl ⟨?_, hproto⟩
      rw [hk, ht]
      exact List.mem_cons_self
    · exact .inr ⟨c₀, hc₀, hk⟩

/-- A slot keeps what it holds for keys that are not dealt again. -/
theorem foldl_deal_keeps {count : Nat} {k : String} {j : Nat} :
    ∀ {es : List ((String × Nat) × Nat)} {slots : List Record} {c : Record},
      k ∉ es.map (fun e => e.1.1) → slots[j]? = some c →
      ∃ c', (es.foldl (deal count) slots)[j]? = some c' ∧ c'.get k = c.get k
  | [], _, c, _, hc => ⟨c, hc, rfl⟩
  | e :: es, slots, c, hk, hc => by
    rw [List.map_cons, List.mem_cons, not_or] at hk
    have hdeal : ∃ c₁, (deal count slots e)[j]? = some c₁ ∧ c₁.get k = c.get k := by
      unfold deal
      rw [List.getElem?_modify, hc]
      refine ⟨_, rfl, ?_⟩
      split
      · exact Record.get_assign_of_ne hk.1
      · rfl
    obtain ⟨c₁, hc₁, hget₁⟩ := hdeal
    obtain ⟨c₂, hc₂, hget₂⟩ := foldl_deal_keeps hk.2 hc₁
    exact ⟨c₂, hc₂, hget₂.trans hget₁⟩

theorem le_growSlotCount {exceeds : Nat → Bool} : ∀ {spare slotCount : Nat},
    slotCount ≤ growSlotCount exceeds slotCount spare
  | 0, slotCount => Nat.le_refl slotCount
  | spare + 1, slotCount => by
    rw [growSlotCount]
    split
    · exact Nat.le_trans (Nat.le_succ slotCount) le_growSlotCount
    · exact Nat.le_refl slotCount

theorem growSlotCount_le {exceeds : Nat → Bool} : ∀ {spare slotCount : Nat},
    growSlotCount exceeds slotCount spare ≤ slotCount + spare
  | 0, slotCount => Nat.le_refl slotCount
  | spare + 1, slotCount => by
    have ih := @growSlotCount_le exceeds spare (slotCount + 1)
    rw [growSlotCount]
    split <;> omega

theorem map_fst_zipIdx (l : List (String × Nat)) : l.zipIdx.map Prod.fst = l := by simp

section Split

variable {channelEntries threadMsgEntries : List (String × Nat)} {clientId : String}
  {initialSlotCount maxSlots maxBytes : Nat} {slotIdGenerator : Nat →
    String} {result : SlotSplitResult}

/-- The parts of a split that succeeds. -/
theorem split_eq_some (h : splitContextsIntoBudgetedSlots channelEntries threadMsgEntries clientId
      initialSlotCount maxSlots maxBytes slotIdGenerator = some result) :
    ∃ slotCount, initialSlotCount ≤ slotCount ∧
      slotCount ≤ initialSlotCount + (maxSlots - initialSlotCount)
      ∧ result.slots = (distribute channelEntries slotCount).modify 0 (fun c =>
          (trimContextsToBudget (c.assignAll threadMsgEntries) clientId maxBytes).1)
      ∧ result.extraSlotIds = (List.range (slotCount - initialSlotCount)).map slotIdGenerator := by
  unfold splitContextsIntoBudgetedSlots at h
  dsimp only at h
  split at h
  · cases h
  · cases h
    exact ⟨_, le_growSlotCount, growSlotCount_le, rfl, rfl⟩

/-- There is one slot per identifier. -/
theorem split_length (h : splitContextsIntoBudgetedSlots channelEntries threadMsgEntries clientId
      initialSlotCount maxSlots maxBytes slotIdGenerator = some result) :
    result.slots.length = initialSlotCount + result.extraSlotIds.length := by
  obtain ⟨slotCount, hle, _, hslots, hextra⟩ := split_eq_some h
  rw [hslots, hextra, List.length_modify, List.length_map, List.length_range]
  unfold distribute
  rw [length_foldl_deal, List.length_replicate]
  omega

/-- A slot holds only entries it was given. -/
theorem of_split (h : splitContextsIntoBudgetedSlots channelEntries threadMsgEntries clientId
      initialSlotCount maxSlots maxBytes slotIdGenerator = some result)
    {c : Record} (hc : c ∈ result.slots) {k : String} {t : Nat} (hk : c.get k = some t) :
    ((k, t) ∈ channelEntries ∨ (k, t) ∈ threadMsgEntries) ∧ k ≠ "__proto__" := by
  obtain ⟨slotCount, _, _, hslots, _⟩ := split_eq_some h
  obtain ⟨j, hj⟩ := List.mem_iff_getElem?.mp hc
  rw [hslots, List.getElem?_modify] at hj
  obtain ⟨c₀, hc₀, hcase⟩ := Option.map_eq_some_iff.mp hj
  have hdealt : ∀ {k t}, c₀.get k = some t → (k, t) ∈ channelEntries ∧ k ≠ "__proto__" := by
    intro k t hget
    rcases of_foldl_deal hc₀ hget with hmem | ⟨c', hc', hget'⟩
    · rwa [map_fst_zipIdx] at hmem
    · rw [(List.mem_replicate.mp (List.mem_of_getElem? hc')).2] at hget'
      cases hget'
  by_cases hj0 : 0 = j
  · rw [if_pos hj0] at hcase
    rw [← hcase] at hk
    rcases Record.of_get_assignAll (of_get_trim hk) with hmem | hget
    · exact ⟨.inr hmem.1, hmem.2⟩
    · exact ⟨.inl (hdealt hget).1, (hdealt hget).2⟩
  · rw [if_neg hj0] at hcase
    rw [← hcase] at hk
    exact ⟨.inl (hdealt hk).1, (hdealt hk).2⟩

end Split

end Pkzz.ReadState
