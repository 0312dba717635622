import Pkzz.Lib.Machine
import Pkzz.ReadState.Manager

/-!
# A device

One `ReadStateManager` in time. A step runs from one `await` to the next: calls from the
user interface, live events whose content has been decrypted, the merges of `initialize`
one event at a time, and a publish from its fetch to the answer for its last slot. What
the relay answers and what is drawn at random comes with the step. A publish is started by
the timer, or by `destroy` in its place, when the one before it has returned.

The device also records what it was given and what the relay has stored for it.
-/

namespace Pkzz.ReadState

open Pkzz.Lib

/-! ## Merging, one event at a time -/

/-- A call of `mergeEvents` between two events. -/
structure MergeTask where
  /-- The first loop still has these to merge. -/
  todo : List RelayEvent
  own : Manager.OwnBlobs
  /-- The second loop still has these to check. -/
  toCheck : List RelayEvent

def MergeTask.start (events : List RelayEvent) : MergeTask := ⟨events, .empty, events⟩

/-- The manager, what is left of the call, and the events this step has merged. -/
def mergeStep (cipher : Cipher) (mgr : Manager) (task : MergeTask) (slotId : String) :
    Manager × Option MergeTask × List RelayEvent :=
  match task.todo with
  | event :: todo =>
    match parseReadStateEvent cipher event mgr.pubkey with
    | none => (mgr, some { task with todo }, [event])
    | some parsed =>
      let merged := mgr.mergeEvent task.own parsed
      (merged.1, some { task with todo, own := merged.2 }, [event])
  | [] =>
    match task.toCheck with
    | event :: toCheck =>
      if (parseReadStateEvent cipher event mgr.pubkey).any mgr.squatted then
        (mgr.rotateSlot slotId, some { task with toCheck := [] }, [])
      else (mgr, some { task with toCheck }, [])
    | [] => (mgr.finishMerge task.own, none, [])

/-! ## Publishing, one call at a time -/

inductive Phase where
  | idle
  /-- `fetchOwnBlobBeforePublish` waits for the relay. -/
  | fetching
  | merging (task : MergeTask)
  /-- The fetch has returned. -/
  | ready
  /-- `deleteExtraSlots`, before the contexts go into one slot. -/
  | deleting (slotIds : List String) (contexts : Record)
  /-- The slots that remain; the event for the first of them may be on its way. -/
  | publishing (slots : List (String × Record)) (sent : Option RelayEvent)

/-- After a call of `publishOneSlot`. -/
def Phase.next (slots : List (String × Record)) : Phase :=
  if slots.isEmpty then .idle else .publishing slots none

namespace Manager

/-- The end of `publish` in single-slot mode. -/
def publishSingle (mgr : Manager) (contexts : Record) : Phase :=
  if mgr.isIdenticalToLastPublished contexts then
    .idle else .publishing [(mgr.slotId, contexts)] none

/-- The end of `deleteExtraSlots`, and the reset in `publish`. -/
def extraSlotsDeleted (mgr : Manager) : Manager :=
  { mgr with extraSlotIds := [], lastPublishedContexts := .empty }

/-- `publishSplitSlots`, up to its first slot. -/
def publishSplitSlots (mgr : Manager) (generateHex : Nat → String) : Manager × Phase :=
  match mgr.splitContextsIntoSlots generateHex with
  | none => (mgr, .idle)
  | some (mgr, slots) =>
    if mgr.isIdenticalToLastPublished (unionContexts (slots.map Prod.snd)) then (mgr, .idle)
    else ({ mgr with lastPublishedContexts := .empty }, .next slots)

/-- `publish`, once the fetch has returned. -/
def choosePhase (mgr : Manager) (generateHex : Nat → String) : Manager × Phase :=
  match mgr.currentContexts with
  | none => mgr.publishSplitSlots generateHex
  | some contexts =>
    if mgr.extraSlotIds.length > 0 then (mgr, .deleting mgr.extraSlotIds contexts)
    else (mgr, mgr.publishSingle contexts)

/-- The end of `initialize`. -/
def initialized (mgr : Manager) : Manager :=
  if mgr.destroyed then mgr
  else match mgr.currentContexts with
  | none => { mgr with publishScheduled := true }
  | some contexts =>
    if mgr.isIdenticalToLastPublished contexts then mgr else { mgr with publishScheduled := true }

end Manager

/-! ## The device -/

structure Device where
  mgr : Manager
  /-- Live events whose content is being decrypted. -/
  handling : List RelayEvent
  /-- The merges of `initialize`. -/
  merges : List MergeTask
  phase : Phase
  /-- What the user interface advanced, in order. -/
  advances : List (String × Nat)
  /-- The events that were merged or handled, in order. -/
  processed : List RelayEvent
  /-- The slot events the relay has stored, in order. -/
  published : List RelayEvent

inductive DeviceAction where
  | markContextRead (contextId : String) (unixTimestamp now : Nat)
  | seedContextRead (contextId : String) (unixTimestamp : Nat)
  /-- The live subscription hands over an event. -/
  | receive (event : RelayEvent)
  /-- The content of the `i`-th event being handled is decrypted. -/
  | handle (i : Nat)
  /-- The fetch of `initialize` is answered. -/
  | initialFetch (events : Option (List RelayEvent))
  | mergeNext (i : Nat) (slotId : String)
  | publish
  /-- The fetch of the publish is answered. -/
  | fetched (events : Option (List RelayEvent))
  | mergeOwn (slotId : String)
  | choose (generateHex : Nat → String)
  /-- The next deletion is answered, or they are all done. -/
  | deleteNext
  /-- The next slot is encrypted, signed and sent. -/
  | send (nonce now : Nat)
  /-- Its publish call returns: whether the relay has stored the event, and whether the call
  succeeded. It may time out after the event was stored, and a stale event is accepted as a
  duplicate without being stored. -/
  | answered (stored accepted : Bool)
  | destroy

namespace Device

def handle (cipher : Cipher) (d : Device) (i : Nat) : Option Device :=
  match d.handling[i]? with
  | none => none
  | some event =>
    some { d with
      mgr := match parseReadStateEvent cipher event d.mgr.pubkey with
        | none => d.mgr
        | some parsed => d.mgr.handleIncomingEvent parsed
      handling := d.handling.eraseIdx i
      processed := d.processed ++ [event] }

def initialFetch (d : Device) (events : Option (List RelayEvent)) : Option Device :=
  if d.mgr.destroyed then none
  else match events with
  | none => some { d with mgr := d.mgr.initialized }
  | some events => some { d with merges := d.merges ++ [.start events] }

def mergeNext (cipher : Cipher) (d : Device) (i : Nat) (slotId : String) : Option Device :=
  match d.merges[i]? with
  | none => none
  | some task =>
    match mergeStep cipher d.mgr task slotId with
    | (mgr, some task, events) =>
      some { d with mgr, merges := d.merges.set i task, processed := d.processed ++ events }
    | (mgr, none, events) =>
      some { d with
        mgr := mgr.initialized, merges := d.merges.eraseIdx i, processed := d.processed ++ events }

def publish (d : Device) : Option Device :=
  match d.phase with
  | .idle =>
    if d.mgr.publishScheduled then
      some { d with mgr := { d.mgr with publishScheduled := false }, phase := .fetching }
    else none
  | _ => none

/-- `none` where the fetch failed. -/
def fetched (d : Device) (events : Option (List RelayEvent)) : Option Device :=
  match d.phase, events with
  | .fetching, none => some { d with phase := .ready }
  | .fetching, some events => some { d with phase := .merging (.start events) }
  | _, _ => none

def mergeOwn (cipher : Cipher) (d : Device) (slotId : String) : Option Device :=
  match d.phase with
  | .merging task =>
    match mergeStep cipher d.mgr task slotId with
    | (mgr, some task, events) =>
        some { d with mgr, phase := .merging task, processed := d.processed ++ events }
    | (mgr, none, events) =>
        some { d with mgr, phase := .ready, processed := d.processed ++ events }
  | _ => none

def choose (d : Device) (generateHex : Nat → String) : Option Device :=
  match d.phase with
  | .ready => some { d with
      mgr := (d.mgr.choosePhase generateHex).1, phase := (d.mgr.choosePhase generateHex).2 }
  | _ => none

def deleteNext (d : Device) : Option Device :=
  match d.phase with
  | .deleting (_ :: slotIds) contexts => some { d with phase := .deleting slotIds contexts }
  | .deleting [] contexts =>
    let mgr := d.mgr.extraSlotsDeleted
    some { d with mgr, phase := mgr.publishSingle contexts }
  | _ => none

/-- A failure before the event is sent ends the call. -/
def send (cipher : Cipher) (d : Device) (nonce now : Nat) : Option Device :=
  match d.phase with
  | .publishing ((slotId, contexts) :: slots) none =>
    match cipher.encrypt nonce { clientId := d.mgr.clientId, contexts } with
    | none => some { d with phase := .next slots }
    | some content =>
      some { d with
        phase := .publishing ((slotId, contexts) :: slots)
          (some (d.mgr.slotEvent slotId content now)) }
  | _ => none

def answered (d : Device) (stored accepted : Bool) : Option Device :=
  match d.phase with
  | .publishing ((_, contexts) :: slots) (some event) =>
    some { d with
      mgr := if accepted then d.mgr.slotPublished contexts event.createdAt else d.mgr
      phase := .next slots
      published := if stored then d.published ++ [event] else d.published }
  | _ => none

def step (cipher : Cipher) (d : Device) : DeviceAction → Option Device
  | .markContextRead contextId unixTimestamp now =>
    some { d with
      mgr := d.mgr.markContextRead contextId unixTimestamp now
      advances := d.advances ++ [(contextId, unixTimestamp)] }
  | .seedContextRead contextId unixTimestamp =>
    some { d with
      mgr := d.mgr.seedContextRead contextId unixTimestamp
      advances := d.advances ++ [(contextId, unixTimestamp)] }
  | .receive event =>
    if event.pubkey ≠ d.mgr.pubkey ∨ d.mgr.destroyed = true then some d
    else some { d with handling := d.handling ++ [event] }
  | .handle i => handle cipher d i
  | .initialFetch events => initialFetch d events
  | .mergeNext i slotId => mergeNext cipher d i slotId
  | .publish => publish d
  | .fetched events => fetched d events
  | .mergeOwn slotId => mergeOwn cipher d slotId
  | .choose generateHex => choose d generateHex
  | .deleteNext => deleteNext d
  | .send nonce now => send cipher d nonce now
  | .answered stored accepted => answered d stored accepted
  | .destroy => some { d with mgr := { d.mgr with destroyed := true } }

def machine (cipher : Cipher) : Machine Device DeviceAction := ⟨step cipher⟩

end Device

end Pkzz.ReadState
