import Mathlib
import Pkzz.Lib.Register
import Pkzz.ReadState.Budget

/-!
# The read-state manager

`ReadStateManager`, one function at a time: what a context is advanced to, how blobs are
merged, and which contexts a publish carries. Timers are reduced to whether a publish is
scheduled; listeners and local storage are left out.
-/

namespace Pkzz.ReadState

open Pkzz.Lib

structure Manager where
  pubkey : String
  clientId : String
  slotId : String
  extraSlotIds : List String
  effectiveState : OrderedMap String Nat
  publishableContextIds : Finset String
  lastPublishedContexts : Record
  /-- `debounceTimer` is running. -/
  publishScheduled : Bool
  maxFetchedCreatedAt : Nat
  contextSourceCreatedAt : OrderedMap String Nat
  pendingSyncedAdvances : Finset String
  destroyed : Bool
  deriving DecidableEq

namespace Manager

/-! ## Contexts -/

inductive ApplyRemoteContextResult where
  | unchanged
  | advanced
  deriving DecidableEq

def resolveRemoteContextTimestamp (current timestamp : Nat) : Nat × ApplyRemoteContextResult :=
  let next := max current timestamp
  (next, if next = current then .unchanged else .advanced)

/-- The two maps it mutates are returned. -/
def applyRemoteContextTimestamp (effectiveState contextSourceCreatedAt : OrderedMap String Nat)
    (contextId : String) (timestamp eventCreatedAt : Nat) :
    OrderedMap String Nat × OrderedMap String Nat × ApplyRemoteContextResult :=
  let sourceCreatedAt := (contextSourceCreatedAt.get contextId).getD 0
  let current := (effectiveState.get contextId).getD 0
  let resolved := resolveRemoteContextTimestamp current timestamp
  (if resolved.2 = .advanced then effectiveState.set contextId resolved.1 else effectiveState,
    if eventCreatedAt > sourceCreatedAt then contextSourceCreatedAt.set contextId eventCreatedAt
      else contextSourceCreatedAt,
    resolved.2)

def advanceContext (mgr : Manager) (contextId : String) (unixTimestamp : Nat)
    (publishable : Bool) : Manager :=
  let current := (mgr.effectiveState.get contextId).getD 0
  if unixTimestamp ≤ current then
    if !publishable || decide (contextId ∈ mgr.publishableContextIds) then mgr
    else { mgr with
      publishableContextIds := insert contextId mgr.publishableContextIds
      publishScheduled := true }
  else
    { mgr with
      effectiveState := mgr.effectiveState.set contextId unixTimestamp
      publishableContextIds :=
        if publishable then insert contextId mgr.publishableContextIds
          else mgr.publishableContextIds
      publishScheduled := mgr.publishScheduled || publishable }

/-- `now` is `Math.floor(Date.now() / 1_000)`. -/
def markContextRead (mgr : Manager) (contextId : String) (unixTimestamp now : Nat) : Manager :=
  let mgr := mgr.advanceContext contextId unixTimestamp true
  { mgr with
    contextSourceCreatedAt :=
      mgr.contextSourceCreatedAt.set contextId (max now (mgr.maxFetchedCreatedAt + 1)) }

def seedContextRead (mgr : Manager) (contextId : String) (unixTimestamp : Nat) : Manager :=
  mgr.advanceContext contextId unixTimestamp false

/-! ## Merging -/

/-- The loop body of `mergeEvents` for one context. -/
def mergeContext (createdAt : Nat) (mgr : Manager) (e : String × Nat) : Manager :=
  let applied := applyRemoteContextTimestamp mgr.effectiveState mgr.contextSourceCreatedAt e.1
      e.2 createdAt
  let mgr := { mgr with effectiveState := applied.1, contextSourceCreatedAt := applied.2.1 }
  if applied.2.2 = .advanced then
    { mgr with
      pendingSyncedAdvances := insert e.1 mgr.pendingSyncedAdvances
      publishableContextIds := insert e.1 mgr.publishableContextIds }
  else mgr

/-- `ownBlobsBySlot`. -/
abbrev OwnBlobs := OrderedMap String (ReadStateBlob × Nat)

/-- The first loop of `mergeEvents`, for one event. -/
def mergeEvent (mgr : Manager) (own : OwnBlobs) (parsed : ParsedReadStateEvent) :
    Manager × OwnBlobs :=
  let fetched := { mgr with maxFetchedCreatedAt := max mgr.maxFetchedCreatedAt parsed.createdAt }
  let merged := parsed.blob.contexts.entries.foldl (mergeContext parsed.createdAt) fetched
  let newest := match own.get parsed.dTag with
    | none => true
    | some existing => decide (parsed.createdAt > existing.2)
  (merged,
    if parsed.blob.clientId = mgr.clientId ∧ newest = true then
      own.set parsed.dTag (parsed.blob, parsed.createdAt)
    else own)

/-- The second loop, for one event: another client's blob lies at this client's coordinate. -/
def squatted (mgr : Manager) (parsed : ParsedReadStateEvent) : Bool :=
  decide (parsed.dTag = readStateDTagPrefix ++ mgr.slotId) &&
    decide (parsed.blob.clientId ≠ mgr.clientId)

/-- `generateHex(16)` gave `slotId`. -/
def rotateSlot (mgr : Manager) (slotId : String) : Manager := { mgr with slotId }

/-- `if (existing === undefined || ts > existing) unionContexts[key] = ts`; what a plain
object inherits is neither undefined nor less than a number. -/
def unionAssign (union : Record) (e : String × Nat) : Record :=
  match union.get e.1 with
  | some existing => if e.2 > existing then union.assign e.1 e.2 else union
  | none => if e.1 ∈ Record.inherited then union else union.assign e.1 e.2

def unionContexts (blobs : List Record) : Record :=
  blobs.foldl (fun union contexts => contexts.entries.foldl unionAssign union) .empty

/-- The end of `mergeEvents`. -/
def finishMerge (mgr : Manager) (own : OwnBlobs) : Manager :=
  if own.entries = [] then mgr
  else
    { mgr with
      lastPublishedContexts := unionContexts (own.values.map fun b => b.1.contexts)
      publishableContextIds :=
        mgr.publishableContextIds ∪ (own.values.flatMap fun b => b.1.contexts.keys).toFinset }

/-- The loop body of `handleIncomingEvent` for one context, with `anyAdvanced`. -/
def incomingContext (createdAt : Nat) (acc : Manager × Bool) (e : String × Nat) : Manager × Bool :=
  let (mgr, anyAdvanced) := acc
  let applied := applyRemoteContextTimestamp mgr.effectiveState mgr.contextSourceCreatedAt e.1
      e.2 createdAt
  let advanced := decide (applied.2.2 = .advanced)
  ({ mgr with
      effectiveState := applied.1
      contextSourceCreatedAt := applied.2.1
      pendingSyncedAdvances :=
        if advanced then insert e.1 mgr.pendingSyncedAdvances else mgr.pendingSyncedAdvances
      publishableContextIds := insert e.1 mgr.publishableContextIds },
    anyAdvanced || advanced || decide (e.1 ∉ mgr.publishableContextIds))

/-- `handleIncomingEvent`, once the event is parsed. -/
def handleIncomingEvent (mgr : Manager) (parsed : ParsedReadStateEvent) : Manager :=
  let fetched := { mgr with maxFetchedCreatedAt := max mgr.maxFetchedCreatedAt parsed.createdAt }
  let (merged, anyAdvanced) :=
    parsed.blob.contexts.entries.foldl (incomingContext parsed.createdAt) (fetched, false)
  if anyAdvanced && decide (parsed.blob.clientId ≠ mgr.clientId) then
    { merged with publishScheduled := true }
  else merged

/-! ## Publishing -/

/-- The contexts this client is allowed to publish. -/
def publishableEntries (mgr : Manager) : List (String × Nat) :=
  mgr.effectiveState.entries.filter fun e => decide (e.1 ∈ mgr.publishableContextIds)

/-- `none` where the channels exceed the budget of one slot. -/
def currentContexts (mgr : Manager) : Option Record :=
  let trimmed := trimContextsToBudget (Record.assignAll .empty mgr.publishableEntries) mgr.clientId
    readStateMaxPlaintextBytes
  if trimmed.2.fitsAfterTrim then some trimmed.1 else none

/-- Slot identifiers that are allocated are kept, and every slot is returned with its share. -/
def splitContextsIntoSlots (mgr : Manager) (generateHex : Nat → String) :
    Option (Manager × List (String × Record)) :=
  let allSlotIds := mgr.slotId :: mgr.extraSlotIds
  match splitContextsIntoBudgetedSlots (mgr.publishableEntries.filter fun e => isChannelKey e.1)
      (mgr.publishableEntries.filter fun e => !isChannelKey e.1) mgr.clientId allSlotIds.length
      readStateMaxSlots readStateMaxPlaintextBytes generateHex with
  | none => none
  | some result =>
    some ({ mgr with extraSlotIds := mgr.extraSlotIds ++ result.extraSlotIds }, (allSlotIds ++
      result.extraSlotIds).zip result.slots)

def isIdenticalToLastPublished (mgr : Manager) (contexts : Record) : Bool :=
  decide (mgr.lastPublishedContexts.entries.length = contexts.entries.length)
    && contexts.entries.all fun e => decide (mgr.lastPublishedContexts.get e.1 = some e.2)

/-- The event `publishOneSlot` signs. -/
def slotEvent (mgr : Manager) (slotId content : String) (now : Nat) : RelayEvent where
  pubkey := mgr.pubkey
  createdAt := max now (mgr.maxFetchedCreatedAt + 1)
  kind := kindReadState
  tags := [["d", readStateDTagPrefix ++ slotId], ["t", "read-state"]]
  content

/-- `publishOneSlot`, once the relay has accepted the event. -/
def slotPublished (mgr : Manager) (contexts : Record) (createdAt : Nat) : Manager :=
  { mgr with
    contextSourceCreatedAt := contexts.entries.foldl (fun sources e =>
        if mgr.lastPublishedContexts.get e.1 ≠ some e.2 then sources.set e.1 createdAt else sources)
      mgr.contextSourceCreatedAt
    lastPublishedContexts := mgr.lastPublishedContexts.assignAll contexts.entries
    maxFetchedCreatedAt := max mgr.maxFetchedCreatedAt createdAt }

/-! ## What is advanced

Every function that touches `effectiveState` raises it, and by exactly the timestamps it
is given. -/

theorem applyRemoteContextTimestamp_fst
    (effectiveState contextSourceCreatedAt : OrderedMap String Nat)
    (contextId : String) (timestamp eventCreatedAt : Nat) :
    (applyRemoteContextTimestamp effectiveState contextSourceCreatedAt contextId timestamp
      eventCreatedAt).1 = raise effectiveState contextId timestamp := by
  unfold applyRemoteContextTimestamp resolveRemoteContextTimestamp raise register
  dsimp only
  rw [Nat.bot_eq_zero]
  by_cases h : timestamp ≤ (effectiveState.get contextId).getD 0
  · rw [if_pos h, if_pos (Nat.max_eq_left h), if_neg (by decide)]
  · have hmax : max ((effectiveState.get contextId).getD 0) timestamp = timestamp := by omega
    have hne : timestamp ≠ (effectiveState.get contextId).getD 0 := by omega
    rw [if_neg h, hmax, if_neg hne, if_pos rfl]

theorem advanceContext_effectiveState (mgr : Manager) (contextId : String) (unixTimestamp : Nat)
    (publishable : Bool) :
    (mgr.advanceContext contextId unixTimestamp publishable).effectiveState
      = raise mgr.effectiveState contextId unixTimestamp := by
  unfold advanceContext raise register
  dsimp only
  rw [Nat.bot_eq_zero]
  by_cases h : unixTimestamp ≤ (mgr.effectiveState.get contextId).getD 0
  · rw [if_pos h, if_pos h]
    split <;> rfl
  · rw [if_neg h, if_neg h]

theorem markContextRead_effectiveState (mgr : Manager) (contextId : String)
    (unixTimestamp now : Nat) : (mgr.markContextRead contextId unixTimestamp now).effectiveState
      = raise mgr.effectiveState contextId unixTimestamp :=
  mgr.advanceContext_effectiveState contextId unixTimestamp true

theorem seedContextRead_effectiveState (mgr : Manager) (contextId : String) (unixTimestamp : Nat) :
    (mgr.seedContextRead contextId unixTimestamp).effectiveState
      = raise mgr.effectiveState contextId unixTimestamp :=
  mgr.advanceContext_effectiveState contextId unixTimestamp false

theorem mergeContext_effectiveState (createdAt : Nat) (mgr : Manager) (e : String × Nat) :
    (mergeContext createdAt mgr e).effectiveState = raise mgr.effectiveState e.1 e.2 := by
  unfold mergeContext
  dsimp only
  split <;> exact applyRemoteContextTimestamp_fst _ mgr.contextSourceCreatedAt _ _ createdAt

theorem foldl_mergeContext_effectiveState (createdAt : Nat) :
    ∀ (us : List (String × Nat)) (mgr : Manager),
    (us.foldl (mergeContext createdAt) mgr).effectiveState = raiseAll mgr.effectiveState us
  | [], _ => rfl
  | u :: us, mgr => by
    rw [List.foldl_cons, foldl_mergeContext_effectiveState createdAt us,
      mergeContext_effectiveState, raiseAll_cons]

theorem mergeEvent_effectiveState (mgr : Manager) (own : OwnBlobs) (parsed : ParsedReadStateEvent) :
    (mgr.mergeEvent own parsed).1.effectiveState
      = raiseAll mgr.effectiveState parsed.blob.contexts.entries :=
  foldl_mergeContext_effectiveState ..

theorem finishMerge_effectiveState (mgr : Manager) (own : OwnBlobs) :
    (mgr.finishMerge own).effectiveState = mgr.effectiveState := by
  unfold finishMerge
  split <;> rfl

theorem foldl_incomingContext_effectiveState (createdAt : Nat) :
    ∀ (us : List (String × Nat)) (acc : Manager × Bool),
      (us.foldl (incomingContext createdAt) acc).1.effectiveState = raiseAll acc.1.effectiveState us
  | [], _ => rfl
  | u :: us, acc => by
    have hstep : (incomingContext createdAt acc u).1.effectiveState =
        raise acc.1.effectiveState u.1 u.2 :=
      applyRemoteContextTimestamp_fst _ acc.1.contextSourceCreatedAt _ _ createdAt
    rw [List.foldl_cons, foldl_incomingContext_effectiveState createdAt us, hstep, raiseAll_cons]

theorem handleIncomingEvent_effectiveState (mgr : Manager) (parsed : ParsedReadStateEvent) :
    (mgr.handleIncomingEvent parsed).effectiveState
      = raiseAll mgr.effectiveState parsed.blob.contexts.entries := by
  unfold handleIncomingEvent
  dsimp only
  split <;> exact foldl_incomingContext_effectiveState ..

/-! ## Who publishes where -/

/-- The key and the client that sign a blob, and the slots it goes to. -/
def place (mgr : Manager) : String × String × String × List String :=
  (mgr.pubkey, mgr.clientId, mgr.slotId, mgr.extraSlotIds)

theorem advanceContext_place (mgr : Manager) (contextId : String) (unixTimestamp : Nat)
    (publishable : Bool) :
    (mgr.advanceContext contextId unixTimestamp publishable).place = mgr.place := by
  unfold advanceContext
  dsimp only
  split
  · split <;> rfl
  · rfl

theorem mergeContext_place (createdAt : Nat) (mgr : Manager) (e : String × Nat) :
    (mergeContext createdAt mgr e).place = mgr.place := by
  unfold mergeContext
  dsimp only
  split <;> rfl

theorem foldl_mergeContext_place (createdAt : Nat) : ∀ (us : List (String × Nat)) (mgr : Manager),
    (us.foldl (mergeContext createdAt) mgr).place = mgr.place
  | [], _ => rfl
  | u :: us, mgr => by
    rw [List.foldl_cons, foldl_mergeContext_place createdAt us, mergeContext_place]

theorem mergeEvent_place (mgr : Manager) (own : OwnBlobs) (parsed : ParsedReadStateEvent) :
    (mgr.mergeEvent own parsed).1.place = mgr.place :=
  foldl_mergeContext_place ..

theorem finishMerge_place (mgr : Manager) (own : OwnBlobs) :
    (mgr.finishMerge own).place = mgr.place := by
  unfold finishMerge
  split <;> rfl

theorem foldl_incomingContext_place (createdAt : Nat) :
    ∀ (us : List (String × Nat)) (acc : Manager × Bool),
      (us.foldl (incomingContext createdAt) acc).1.place = acc.1.place
  | [], _ => rfl
  | u :: us, acc => by
    rw [List.foldl_cons, foldl_incomingContext_place createdAt us]
    rfl

theorem handleIncomingEvent_place (mgr : Manager) (parsed : ParsedReadStateEvent) :
    (mgr.handleIncomingEvent parsed).place = mgr.place := by
  unfold handleIncomingEvent
  dsimp only
  split <;> exact foldl_incomingContext_place ..

/-! ## What is published -/

variable {mgr : Manager} {k : String} {t : Nat}

theorem mem_publishableEntries :
    (k, t) ∈ mgr.publishableEntries
      ↔ mgr.effectiveState.get k = some t ∧ k ∈ mgr.publishableContextIds := by
  unfold publishableEntries
  rw [List.mem_filter, OrderedMap.mem_entries, decide_eq_true_iff]

/-- The manager holds the marker and may publish it. -/
structure Remembers (mgr : Manager) (k : String) (t : Nat) : Prop where
  le : t ≤ register mgr.effectiveState k
  publishable : k ∈ mgr.publishableContextIds
  named : k ≠ "__proto__"

theorem Remembers.of_entry (h : (k, t) ∈ mgr.publishableEntries)
    (hproto : k ≠ "__proto__") : mgr.effectiveState.get k = some t ∧ mgr.Remembers k t := by
  obtain ⟨hget, hpub⟩ := mem_publishableEntries.mp h
  refine ⟨hget, ?_, hpub, hproto⟩
  unfold register
  rw [hget]
  exact le_refl t

/-- A marker that is remembered is among the entries that are published. -/
theorem Remembers.entry (h : mgr.Remembers k t) (hpos : 0 < t) :
    ∃ v, (k, v) ∈ mgr.publishableEntries ∧ t ≤ v := by
  have hle := h.le
  unfold register at hle
  cases hget : mgr.effectiveState.get k with
  | none =>
    rw [hget] at hle
    exact absurd hle (Nat.not_le_of_lt hpos)
  | some v =>
    rw [hget] at hle
    exact ⟨v, mem_publishableEntries.mpr ⟨hget, h.publishable⟩, hle⟩

/-- A blob carries what the manager holds. -/
theorem of_currentContexts {contexts : Record} (h : mgr.currentContexts = some contexts)
 (hk : contexts.get k = some t) :
    mgr.effectiveState.get k = some t ∧ mgr.Remembers k t := by
  unfold currentContexts at h
  dsimp only at h
  split at h
  · rw [← Option.some.inj h] at hk
    rcases Record.of_get_assignAll (of_get_trim hk) with hmem | hget
    · exact Remembers.of_entry hmem.1 hmem.2
    · cases hget
  · cases h

variable {generateHex : Nat → String} {slots : List (String × Record)}

theorem splitContextsIntoSlots_eq_some {mgr' : Manager}
 (h : mgr.splitContextsIntoSlots generateHex = some (mgr', slots)) :
    ∃ result, splitContextsIntoBudgetedSlots
      (mgr.publishableEntries.filter fun e => isChannelKey e.1)
        (mgr.publishableEntries.filter fun e => !isChannelKey e.1) mgr.clientId
        (mgr.slotId :: mgr.extraSlotIds).length readStateMaxSlots
          readStateMaxPlaintextBytes generateHex
        = some result
      ∧ mgr' = { mgr with extraSlotIds := mgr.extraSlotIds ++ result.extraSlotIds }
      ∧ slots = (mgr.slotId :: mgr.extraSlotIds ++ result.extraSlotIds).zip result.slots := by
  unfold splitContextsIntoSlots at h
  dsimp only at h
  split at h
  · cases h
  · rename_i result hsplit
    have h := Prod.mk.inj (Option.some.inj h)
    exact ⟨result, hsplit, h.1.symm, h.2.symm⟩

theorem of_splitContextsIntoSlots {mgr' : Manager}
 (h : mgr.splitContextsIntoSlots generateHex = some (mgr', slots))
    {slot : String × Record} (hslot : slot ∈ slots) (hk : slot.2.get k = some t) :
    mgr.effectiveState.get k = some t ∧ mgr.Remembers k t := by
  obtain ⟨result, hsplit, _, hslots⟩ := splitContextsIntoSlots_eq_some h
  rw [hslots] at hslot
  obtain ⟨hmem, hproto⟩ := of_split hsplit (List.of_mem_zip hslot).2 hk
  rcases hmem with hmem | hmem <;> exact Remembers.of_entry (List.mem_filter.mp hmem).1 hproto

end Manager

end Pkzz.ReadState
