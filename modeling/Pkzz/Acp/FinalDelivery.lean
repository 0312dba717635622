import Pkzz.Acp.FinalRecord
import Pkzz.Lib.Machine

/-!
# Host-final delivery

A signed answer is written to disk before it is sent, and each submission is counted on disk before
it is made. The process may die between any two steps, and any write may fail: the disk then has
what it had before. The next process reads the directory.
-/

namespace Pkzz.Acp.FinalDelivery

open Pkzz.Core Pkzz.Lib

/-- `DELIVERY_RETRY_DELAY`, in milliseconds. -/
def DELIVERY_RETRY_DELAY : Nat := 1000

/-- The files of the outbox: a record under each event id. -/
abbrev Disk := Map String HostFinalDeliveryRecord

/-! ## The outbox -/

def indexRecord (index : OutboxIndex) (record : HostFinalDeliveryRecord) : OutboxIndex where
  records := Finmap.insert record.eventId record index.records
  sourceEventIds := index.sourceEventIds ∪ record.sourceEventIds.toFinset
  loadIssues := index.loadIssues

/-- The atomic write, which takes place or fails. -/
def writeRecord (disk : Disk) (record : HostFinalDeliveryRecord) (succeeds : Bool) : Option Disk :=
  if isHexEventId record.eventId && succeeds then
    some (Finmap.insert record.eventId record disk) else none

def OutboxIndex.containsSourceEvent (index : OutboxIndex) (eventId : EventId) : Bool :=
  decide (eventId.toHex ∈ index.sourceEventIds)

def OutboxIndex.recordLoadIssue (index : OutboxIndex) (issue : LoadIssue) : OutboxIndex :=
  { index with loadIssues := index.loadIssues ++ [issue] }

/-- What a delivery reads of a `FinalReplyTarget`. -/
structure FinalReplyTarget where
  channelId : Uuid
  triggerEventId : EventId

def isRetryable (record : HostFinalDeliveryRecord) : Bool :=
  match record.state with
  | .pending | .awaitingRetry => true
  | .accepted | .terminalFailed => false

section Outbox

variable (parse : List UInt8 → Option SignedEvent) (scope : OutboxScope)

/-- The record that `persist_signed` writes. -/
def signedRecord (eventId : EventId) (eventBytes : List UInt8) (target : FinalReplyTarget)
    (sourceEventIds : List EventId) : HostFinalDeliveryRecord where
  version := 1
  eventId := eventId.toHex
  eventBytesB64 := some (encodeEventBytes eventBytes)
  relayUrl := scope.relayUrl
  senderPubkey := scope.senderPubkey
  channelId := target.channelId.toString
  triggerEventId := target.triggerEventId.toHex
  sourceEventIds := sourceEventIds.map FixedBytes.toHex
  logicalAttempts := 0
  state := .pending
  nextAttemptUnixMs := none
  diagnostic := none

def persistSigned (disk : Disk) (index : OutboxIndex) (eventId : EventId) (eventBytes : List UInt8)
    (target : FinalReplyTarget)
    (sourceEventIds : List EventId) (succeeds : Bool) : Except String (Disk × OutboxIndex) :=
  if sourceEventIds = [] then .error "host_final_missing_source_events"
  else
    let record := signedRecord scope eventId eventBytes target sourceEventIds
    match validateRecord parse record scope with
    | .error reason => .error reason
    | .ok () =>
      if (Finmap.lookup record.eventId index.records).isSome then
        .error "host_final_duplicate_event_id"
      else
        match writeRecord disk record succeeds with
        | none => .error "failed_to_write_host_final_record"
        | some disk => .ok (disk, indexRecord index record)

/-- One entry of `load_existing_records`: the record as it is indexed, and what the disk has then.
-/
def loadRecord (writes : String → Bool) (outbox : Disk × OutboxIndex) (name : String) :
    Disk × OutboxIndex :=
  match Finmap.lookup name outbox.1 with
  | none => outbox
  | some record =>
    let rewritten (record : HostFinalDeliveryRecord) (reason : String) : Disk × OutboxIndex :=
      match writeRecord outbox.1 record (writes name) with
      | some disk => (disk, indexRecord outbox.2 record)
      | none => (outbox.1,
          indexRecord (outbox.2.recordLoadIssue ⟨some record.eventId, Uuid.parse record.channelId,
          reason⟩) record)
    let validation := validateRecord parse record scope
    -- another identity's record is left alone
    if validation = .error "record_scope_mismatch" then outbox
    else if validation ≠ .ok () ∨ record.logicalAttempts > MAX_LOGICAL_RECEIPT_SUBMISSIONS ∨
        (record.logicalAttempts = MAX_LOGICAL_RECEIPT_SUBMISSIONS ∧ isRetryable record) then
      rewritten (record.terminalize "record_validation_or_retry_budget_failed")
        "persist_terminal_failed"
    else if record.isTerminal ∧ record.eventBytesB64.isSome then
      rewritten record.compactTerminalBody "persist_terminal_compaction_failed"
    else (outbox.1, indexRecord outbox.2 record)

/-- `load_existing_records`, as far as it gets. -/
def loadExistingRecords (writes : String → Bool) (disk : Disk) (names : List String) :
    Disk × OutboxIndex :=
  names.foldl (loadRecord parse scope writes) (disk, OutboxIndex.empty)

end Outbox

/-! ## A delivery -/

/-- What follows on `replace_record`. -/
inductive After
  | retry
  | send
  | done
  deriving DecidableEq

/-- Where `deliver_until_terminal` is. -/
inductive Delivery
  /-- At the head of the loop. -/
  | top
  /-- Until `next_attempt_unix_ms`. -/
  | waiting (record : HostFinalDeliveryRecord)
  /-- In `replace_record`, before the write. -/
  | writing (record : HostFinalDeliveryRecord) (after : After)
  /-- In `replace_record`, before the index has it. -/
  | indexing (record : HostFinalDeliveryRecord) (after : After)
  | sending (record : HostFinalDeliveryRecord)
  /-- Until the relay has answered. -/
  | submitted (record : HostFinalDeliveryRecord)
  deriving DecidableEq

inductive DeliveryStep
  | loop
  | wake
  | write (succeeds : Bool)
  | index
  | submit
  | answer (accepted : Bool) (now : Nat)
  deriving DecidableEq

/-- What is delivered, as it was given to `persist_signed`. -/
structure Persisted where
  eventBytes : List UInt8
  sourceEventIds : List EventId

structure Process where
  index : OutboxIndex
  deliveries : Map EventId Delivery
  /-- What `resume_pending` has not come to. -/
  pending : List String

structure Host where
  disk : Disk
  process : Option Process
  /-- The events that were persisted. Nothing reads it. -/
  persisted : Map EventId Persisted
  /-- The logical submissions. Nothing reads it. -/
  submitted : List (EventId × List UInt8)

def Host.init (disk : Disk) : Host := ⟨disk, none, ∅, []⟩

/-- What was submitted of an event. -/
def Host.submissions (s : Host) (eventId : EventId) : List (List UInt8) :=
  (s.submitted.filter fun submission => submission.1 = eventId).map Prod.snd

inductive Action
  /-- Another identity's outbox writes to the shared directory. -/
  | neighbour (name : String) (record : HostFinalDeliveryRecord)
  /-- `HostFinalDeliveryOutbox::open`, which may die after some of the files. -/
  | start (order : HashOrder String) (writes : String → Bool) (dies : Option Nat)
  /-- `persist_signed`, which may die between the write and the index. -/
  | persist (eventId : EventId) (eventBytes : List UInt8) (target : FinalReplyTarget)
      (sourceEventIds : List EventId) (succeeds dies : Bool)
  | deliver (eventId : EventId)
  | resumePending (order : HashOrder String)
  | resumeNext
  | delivery (eventId : EventId) (step : DeliveryStep)
  | crash

section Machine

variable (parse : List UInt8 → Option SignedEvent) (scope : OutboxScope)

/-- From the head of the loop to where it has to wait or to write; `none` when it returns. -/
def Delivery.loop (index : OutboxIndex) (eventId : EventId) : Option Delivery :=
  match Finmap.lookup eventId.toHex index.records with
  | none => none
  | some record =>
    match record.state with
    | .accepted | .terminalFailed => none
    | .pending | .awaitingRetry =>
      if validateRecord parse record scope = .error "record_scope_mismatch" then none
      else if validateRecord parse record scope ≠ .ok () then
        some (.writing (record.terminalize "record_validation_failed") .done)
      else if record.logicalAttempts ≥ MAX_LOGICAL_RECEIPT_SUBMISSIONS then
        some (.writing (record.terminalize "retry_budget_exhausted") .done)
      else some (.waiting record)

/-- The record of the next attempt. -/
def HostFinalDeliveryRecord.sending (record : HostFinalDeliveryRecord) : HostFinalDeliveryRecord :=
  { record with
    logicalAttempts := record.logicalAttempts + 1, state := .pending, nextAttemptUnixMs := none,
    diagnostic := none }

/-- What the relay's answer is to be recorded as. -/
def HostFinalDeliveryRecord.answered (record : HostFinalDeliveryRecord) (accepted : Bool)
    (now : Nat) : Delivery :=
  if accepted then .writing record.accept .done
  else if record.logicalAttempts < MAX_LOGICAL_RECEIPT_SUBMISSIONS then
    .writing { record with
      state := .awaitingRetry, nextAttemptUnixMs := some (now + DELIVERY_RETRY_DELAY),
      diagnostic := some "relay_rejected_or_unconfirmed" } .retry
  else .writing (record.terminalize "relay_rejected_or_unconfirmed") .done

def After.next (record : HostFinalDeliveryRecord) : After → Option Delivery
  | .retry => some .top
  | .send => some (.sending record)
  | .done => none

/-- The delivery goes on, or returns. -/
def Process.proceed (p : Process) (eventId : EventId) (next : Option Delivery) : Process :=
  match next with
  | some d => { p with deliveries := Finmap.insert eventId d p.deliveries }
  | none => { p with deliveries := Finmap.erase eventId p.deliveries }

def Host.with (s : Host) (p : Process) : Host := { s with process := some p }

/-- One step of `deliver_until_terminal`. -/
def deliveryStep (s : Host) (p : Process) (eventId : EventId) : Delivery →
    DeliveryStep → Option Host
  | .top, .loop => some (s.with (p.proceed eventId (Delivery.loop parse scope p.index eventId)))
  | .waiting record, .wake =>
      some (s.with (p.proceed eventId (some (.writing record.sending .send))))
  | .writing record after, .write succeeds =>
    match writeRecord s.disk record succeeds with
    | none => some (s.with (p.proceed eventId none))
    | some disk => some { s with
        disk := disk, process := some (p.proceed eventId (some (.indexing record after))) }
  | .indexing record after, .index =>
    some (s.with ({ p with index := indexRecord p.index record }.proceed eventId
      (after.next record)))
  | .sending record, .submit =>
    match decodeEventBytes record with
    | .error _ => some (s.with
        (p.proceed eventId (some (.writing (record.terminalize "record_validation_failed") .done))))
    | .ok bytes =>
      some { s with
        submitted := s.submitted ++ [(eventId, bytes)],
        process := some (p.proceed eventId (some (.submitted record))) }
  | .submitted record, .answer accepted now =>
      some (s.with (p.proceed eventId (some (record.answered accepted now))))
  | _, _ => none

/-- A call of `deliver_until_terminal`: one at a time for each record. -/
def Process.deliver (p : Process) (eventId : EventId) : Option Process :=
  match Finmap.lookup eventId p.deliveries with
  | some _ => none
  | none => some (p.proceed eventId (some .top))

/-- **The host.** -/
def host : Machine Host Action where
  step s
    | .neighbour name record =>
      if Foreign scope record ∧ ∀ r ∈ Finmap.lookup name s.disk, Foreign scope r then
        some { s with disk := Finmap.insert name record s.disk }
      else none
    | .start order writes dies =>
      match s.process, dies with
      | some _, _ => none
      | none, none =>
        let outbox := loadExistingRecords parse scope writes s.disk (order.keys s.disk)
        some { s with disk := outbox.1, process := some ⟨outbox.2, ∅, []⟩ }
      | none, some n => some
          { s with
            disk := (loadExistingRecords parse scope writes s.disk ((order.keys s.disk).take n)).1 }
    | .persist eventId eventBytes target sourceEventIds succeeds dies =>
      match s.process with
      | none => none
      | some p =>
        match persistSigned parse scope s.disk p.index eventId eventBytes target
        sourceEventIds succeeds with
        | .error _ => some s
        | .ok outbox =>
          some { s with
            disk := outbox.1, process := if dies then none else some { p with index := outbox.2 },
            persisted := Finmap.insert eventId ⟨eventBytes, sourceEventIds⟩ s.persisted }
    | .deliver eventId =>
      match s.process with
      | none => none
      | some p => (p.deliver eventId).map s.with
    | .resumePending order =>
      match s.process with
      | none => none
      | some p =>
        let pending := (order.keys p.index.records).filter fun id =>
          (Finmap.lookup id p.index.records).any isRetryable
        some (s.with { p with
          index := { p.index with loadIssues := [] }, pending := p.pending ++ pending })
    | .resumeNext =>
      match s.process with
      | none => none
      | some p =>
        match p.pending with
        | [] => none
        | id :: pending =>
          match eventIdFromHex id with
          | none => some (s.with { p with pending := pending })
          | some eventId => (({ p with pending := pending } : Process).deliver eventId).map s.with
    | .delivery eventId step =>
      match s.process with
      | none => none
      | some p =>
        match Finmap.lookup eventId p.deliveries with
        | none => none
        | some d => deliveryStep parse scope s p eventId d step
    | .crash => some { s with process := none }

end Machine

end Pkzz.Acp.FinalDelivery
