import Pkzz.Audit.AuditLog
import Pkzz.Lib.HashChain
import Pkzz.Lib.Machine
import Pkzz.Lib.Map

/-!
# The audit service

`buzz-audit`'s `service.rs`. `log` takes the advisory lock of its community, reads the head
of the community's chain, makes the next entry and inserts it, all in one transaction, and
gives the lock back whatever happened. `verify_chain` walks over a range of rows.

Calls of `log` from all relay processes run side by side: `appends` is the machine whose
steps are their statements. A statement of a call may fail, and the call may panic, at any
point; its transaction then leaves nothing, and the lock is given back.
-/

namespace Pkzz.Audit

open Pkzz.Core Pkzz.Lib

inductive AuditError where
  | database
  | chainViolation (seq : Int64)
  | hashMismatch (seq : Int64)
  | unknownAction
  | serialization
  deriving DecidableEq

/-- A call that does not return a value. -/
inductive Failure where
  | error (e : AuditError)
  /-- `row.get` on a column that is `NULL`. -/
  | panic
  deriving DecidableEq

structure NewAuditEntry where
  communityId : Uuid
  action : AuditAction
  actorPubkey : Option (List UInt8)
  objectId : Option String
  detail : Value

/-- What comes back from the columns of a rich type. -/
structure Columns where
  timestamptz : DateTime → DateTime
  jsonb : Value → Value

/-- Stored values read back equal, at the precision of microseconds. -/
structure Columns.Faithful (cols : Columns) : Prop where
  timestamptz : ∀ t, (cols.timestamptz t).toStoragePrecision = t.toStoragePrecision
  /-- Objects are equal as maps. -/
  jsonb : ∀ v, (cols.jsonb v).json.sortKeys = v.json.sortKeys

/-! ## Rows and entries -/

/-- `FromStr` of `AuditAction`. -/
def AuditAction.parse (s : String) : Option AuditAction :=
  AuditAction.all.find? fun a => a.asStr = s

theorem AuditAction.parse_asStr (a : AuditAction) : AuditAction.parse a.asStr = some a := by
  cases a <;> decide

/-- The row that is inserted for an entry. -/
def AuditEntry.toRow (cols : Columns) (e : AuditEntry) : AuditRow where
  communityId := e.communityId
  seq := e.seq
  hash := e.hash
  prevHash := e.prevHash
  action := e.action.asStr
  actorPubkey := e.actorPubkey
  objectId := e.objectId
  detail := some (cols.jsonb e.detail)
  createdAt := cols.timestamptz e.createdAt

def rowToAuditEntry (row : AuditRow) : Except Failure AuditEntry :=
  match AuditAction.parse row.action, row.detail with
  | none, _ => .error (.error .unknownAction)
  | some _, none => .error .panic
  | some action, some detail =>
    .ok
      { communityId := row.communityId
        seq := row.seq
        hash := row.hash
        prevHash := row.prevHash
        action
        actorPubkey := row.actorPubkey
        objectId := row.objectId
        detail
        createdAt := row.createdAt }

/-! ## Appending -/

def logTimestamp (now : DateTime) : DateTime := now.toStoragePrecision

/-- The entry that `log_inner` writes behind the head it read. -/
def nextEntry (sha256 : List UInt8 → FixedBytes 32) (head : Option (Int64 × List UInt8))
    (now : DateTime) (entry : NewAuditEntry) : AuditEntry :=
  let (prevSeq, prevHash) : Int64 × Option (List UInt8) :=
    match head with
    | some (seq, hash) => (seq, some hash)
    | none => (0, none)
  let auditEntry : AuditEntry :=
    { communityId := entry.communityId
      seq := prevSeq + 1
      hash := []
      prevHash
      action := entry.action
      actorPubkey := entry.actorPubkey
      objectId := entry.objectId
      detail := entry.detail
      createdAt := logTimestamp now }
  { auditEntry with hash := (auditEntry.computeHash sha256).bytes }

/-! ## Verifying -/

/-- The loop of `verify_chain`. -/
def verifyRows (sha256 : List UInt8 → FixedBytes 32) :
    Option (List UInt8) → List AuditRow → Except Failure Bool
  | _, [] => .ok true
  | expectedPrev, row :: rows =>
    match rowToAuditEntry row with
    | .error e => .error e
    | .ok entry =>
      if expectedPrev.isSome && entry.prevHash != expectedPrev then
        .error (.error (.chainViolation entry.seq))
      else if (entry.computeHash sha256).bytes ≠ entry.hash then
        .error (.error (.hashMismatch entry.seq))
      else verifyRows sha256 (some entry.hash) rows

def verifyChain (sha256 : List UInt8 → FixedBytes 32) (log : AuditLog) (community : Uuid)
    (fromSeq toSeq : Int64) : Except Failure Bool :=
  let rows := log.select community fromSeq toSeq
  if rows.isEmpty then .ok false else verifyRows sha256 none rows

/-! ## Calls side by side -/

/-- A call of `log`, named by its community and a number of its own. -/
structure CallId where
  communityId : Uuid
  number : Nat
  deriving DecidableEq

/-- How far a call that holds the lock has come. -/
inductive Phase where
  | locked
  | headRead (head : Option (Int64 × List UInt8))
  /-- Inserted, but not committed. -/
  | inserted (auditEntry : AuditEntry)
  /-- The transaction is over. -/
  | ended

structure Call where
  entry : NewAuditEntry
  phase : Phase

structure Appends where
  /-- The committed rows. -/
  log : AuditLog
  /-- The advisory locks and their holders. -/
  locks : Map Int64 CallId
  calls : Map CallId Call

inductive AppendOp where
  /-- `pg_advisory_lock` is granted, and the transaction begins. -/
  | lock (number : Nat) (entry : NewAuditEntry)
  | readHead (id : CallId)
  | insert (id : CallId) (now : DateTime)
  | commit (id : CallId)
  /-- A statement fails or the call panics, and the transaction is rolled back. -/
  | fail (id : CallId)
  | unlock (id : CallId)

def AppendOp.communityId : AppendOp → Uuid
  | lock _ entry => entry.communityId
  | readHead id | insert id _ | commit id | fail id | unlock id => id.communityId

namespace Appends

variable (sha256 : List UInt8 → FixedBytes 32) (cols : Columns) (lockKey : Uuid → Int64)

def init : Appends := ⟨AuditLog.empty, ∅, ∅⟩

/-- The call goes on to another phase. -/
def advance (w : Appends) (id : CallId) (call : Call) (phase : Phase) : Appends :=
  { w with calls := w.calls.insert id { call with phase } }

def step (w : Appends) : AppendOp → Option Appends
  | .lock number entry =>
    let id := ⟨entry.communityId, number⟩
    match w.locks.lookup (lockKey entry.communityId), w.calls.lookup id with
    | none, none =>
      some { w with
        locks := w.locks.insert (lockKey entry.communityId) id
        calls := w.calls.insert id ⟨entry, .locked⟩ }
    | _, _ => none
  | .readHead id =>
    match w.calls.lookup id with
    | some ⟨entry, .locked⟩ =>
        some (w.advance id ⟨entry, .locked⟩ (.headRead (w.log.head id.communityId)))
    | _ => none
  | .insert id now =>
    match w.calls.lookup id with
    | some ⟨entry, .headRead head⟩ =>
      some (w.advance id ⟨entry, .headRead head⟩ (.inserted (nextEntry sha256 head now entry)))
    | _ => none
  | .commit id =>
    match w.calls.lookup id with
    | some ⟨entry, .inserted auditEntry⟩ =>
      match w.log.insert (auditEntry.toRow cols) with
      | some log => some { w.advance id ⟨entry, .inserted auditEntry⟩ .ended with log }
      -- a violated constraint: only `fail` is left
      | none => none
    | _ => none
  | .fail id =>
    match w.calls.lookup id with
    | some ⟨_, .ended⟩ => none
    | some call => some (w.advance id call .ended)
    | none => none
  | .unlock id =>
    match w.calls.lookup id with
    | some ⟨_, .ended⟩ =>
      some { w with
        locks := w.locks.erase (lockKey id.communityId)
        calls := w.calls.erase id }
    | _ => none

end Appends

/-- The calls of `log` of all relay processes, on one database. -/
def appends (sha256 : List UInt8 → FixedBytes 32) (cols : Columns) (lockKey : Uuid → Int64) :
    Machine Appends AppendOp where
  step := Appends.step sha256 cols lockKey

end Pkzz.Audit
