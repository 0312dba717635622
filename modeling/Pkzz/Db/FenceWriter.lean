import Pkzz.Db.ReplicaFence
import Pkzz.Lib.Machine
import Pkzz.Lib.Threads

/-!
# The writer and the probes

The writer database: its clock, the transactions in its backends, the prepared ones, and
the commits in their order. Around it any number of pods run `probe_once`, each statement of
it a step: first the clock, then the activity scan, backend after backend, then the
prepared transactions, and the heartbeat last.

The deferred guard of migration 0021 checks each row version of a transaction once, at a clock
reading of its own: when `SET CONSTRAINTS` makes it immediate, or else in `COMMIT` or `PREPARE`
before the commit record or the stamp. A transaction shows in `pg_stat_activity` until after its
commit record, a prepared one in `pg_prepared_xacts`. The connections the probes are pinned
to hold no transaction that writes events; they are not among the backends.
-/

namespace Pkzz.Db

open Pkzz.Core Pkzz.Lib

structure Transaction where
  xactStart : Int
  /-- Row versions whose guard has not run yet. -/
  pending : List EventRow
  checked : List EventRow
  /-- The commit record is written, or the transaction is prepared. -/
  done : Bool

structure PreparedXact where
  prepared : Int
  rows : List EventRow
  done : Bool

inductive BackendType where
  | clientBackend
  | other
  deriving DecidableEq

inductive BackendState where
  | idle
  | notIdle
  deriving DecidableEq

/-- How much of a backend the probe's role is shown: all, nothing, or, where the backend does
not track activities, no `xact_start`. -/
inductive Visibility where
  | full
  | hidden
  | untracked
  deriving DecidableEq

structure Backend where
  backendType : BackendType
  state : BackendState
  visibility : Visibility
  xact : Option Transaction

/-- A row of `pg_stat_activity`. -/
structure ActivityRow where
  backendType : Option BackendType
  state : Option BackendState
  xactStart : Option Int

def Backend.activity (b : Backend) : ActivityRow :=
  match b.visibility with
  | .full => ⟨some b.backendType, some b.state, b.xact.map Transaction.xactStart⟩
  | .hidden => ⟨none, none, none⟩
  | .untracked => ⟨some b.backendType, some .notIdle, none⟩

/-- The `masked` column of the scan. -/
def ActivityRow.masked (row : ActivityRow) : Bool :=
  row.backendType.isNone ||
    (decide (row.backendType = some .clientBackend) &&
      (row.state.isNone || (decide (row.state ≠ some .idle) && row.xactStart.isNone)))

/-- `least` of two columns; a null one does not count. -/
def least : Option Int → Option Int → Option Int
  | none, b => b
  | a, none => a
  | some a, some b => some (min a b)

inductive Commit where
  | write (rows : List EventRow)
  | heartbeat (token : Int) (epoch : Uuid)

def Commit.eventRows : Commit → List EventRow
  | .write rows => rows
  | .heartbeat _ _ => []

structure Writer where
  clock : Int
  backends : List Backend
  preparedXacts : List PreparedXact
  /-- The row of `replica_heartbeat`. -/
  token : Int
  epoch : Uuid
  /-- What has been committed, in commit order. -/
  log : List Commit

/-- Where a pod is in `probe_once`. -/
inductive Probe where
  | idle
  /-- `S` is taken, and the backends before `next` are scanned. -/
  | scanning (sampledAt : Int) (next : Nat) (oldest : Option Int) (masked : Bool)
  | scanned (sampledAt : Int) (oldest : Option Int)
  /-- The heartbeat is committed and not yet recorded. -/
  | sampled (token : Int) (epoch : Uuid) (committedAt wall : Int)
  /-- `record` has found a regression. -/
  | rotating (wall : Int)
  | rotated (token : Int) (epoch : Uuid) (committedAt wall : Int)

structure Pod where
  fence : ReplicaFence
  probe : Probe

abbrev Cluster := Pool Writer Pod

namespace Writer

/-! ## Transactions -/

def setBackend (w : Writer) (k : Nat) (b : Backend) : Writer :=
  { w with backends := w.backends.set k b }

/-- The transaction that is open in backend `k`. -/
def xactAt (w : Writer) (k : Nat) : Option Transaction := w.backends[k]? |>.bind Backend.xact

def setXact (w : Writer) (k : Nat) (x : Option Transaction) : Writer :=
  match w.backends[k]? with
  | some b => w.setBackend k { b with xact := x }
  | none => w

inductive Action where
  | tick (duration : Nat)
  /-- What a backend reports about itself changes. -/
  | report (k : Nat) (state : BackendState) (visibility : Visibility)
  /-- The stamp is the arrival of the first statement. -/
  | begin (k : Nat) (xactStart : Int)
  | insert (k : Nat) (row : EventRow)
  | guard (k : Nat)
  | commit (k : Nat)
  | prepare (k : Nat)
  | abort (k : Nat)
  /-- A backend is done with its transaction. -/
  | finish (k : Nat)
  | commitPrepared (j : Nat)
  | rollbackPrepared (j : Nat)
  | finishPrepared (j : Nat)

def step (w : Writer) : Action → Option Writer
  | .tick duration => some { w with clock := w.clock + duration }
  | .report k state visibility =>
    match w.backends[k]? with
    | some b => some (w.setBackend k { b with state, visibility })
    | none => none
  | .begin k xactStart =>
    match w.backends[k]? with
    | some b =>
      if b.xact.isNone ∧ xactStart ≤ w.clock then
        some (w.setBackend k { b with xact := some ⟨xactStart, [], [], false⟩ })
      else none
    | none => none
  | .insert k row =>
    match w.backends[k]? with
    | some b =>
      match b.xact with
      | some x =>
        -- background workers do not write events
        if x.done = false ∧ b.backendType = .clientBackend then
          some (w.setBackend k { b with xact := some { x with pending := x.pending ++ [row] } })
        else none
      | none => none
    | none => none
  | .guard k =>
    match w.xactAt k with
    | some x =>
      match x.pending with
      | row :: pending =>
        if guardPasses w.clock row then
          some (w.setXact k (some { x with pending, checked := x.checked ++ [row] }))
        else some (w.setXact k none)
      | [] => none
    | none => none
  | .commit k =>
    match w.xactAt k with
    | some x =>
      if x.pending = [] ∧ x.done = false then
        some { w.setXact k (some { x with done := true }) with log := w.log ++ [.write x.checked] }
      else none
    | none => none
  | .prepare k =>
    match w.xactAt k with
    | some x =>
      if x.pending = [] ∧ x.done = false then
        some { w.setXact k (some { x with done := true }) with
          preparedXacts := w.preparedXacts ++ [⟨w.clock, x.checked, false⟩] }
      else none
    | none => none
  | .abort k =>
    match w.xactAt k with
    | some x => if x.done = false then some (w.setXact k none) else none
    | none => none
  | .finish k =>
    match w.xactAt k with
    | some x => if x.done = true then some (w.setXact k none) else none
    | none => none
  | .commitPrepared j =>
    match w.preparedXacts[j]? with
    | some p =>
      if p.done = false then
        some { w with
          preparedXacts := w.preparedXacts.set j { p with done := true }
          log := w.log ++ [.write p.rows] }
      else none
    | none => none
  | .rollbackPrepared j =>
    match w.preparedXacts[j]? with
    | some p =>
      if p.done = false then some { w with preparedXacts := w.preparedXacts.eraseIdx j } else none
    | none => none
  | .finishPrepared j =>
    match w.preparedXacts[j]? with
    | some p =>
      if p.done = true then some { w with preparedXacts := w.preparedXacts.eraseIdx j } else none
    | none => none

/-- `UPDATE replica_heartbeat SET token = token + 1`, with the epoch it leaves. -/
def beat (w : Writer) (epoch : Uuid) : Writer :=
  { w with token := w.token + 1, epoch, log := w.log ++ [.heartbeat (w.token + 1) epoch] }

end Writer

namespace Cluster

inductive Action where
  | writer (a : Writer.Action)
  /-- `SELECT clock_timestamp()`. -/
  | sample (i : Nat)
  | scanBackend (i : Nat)
  | scanPrepared (i : Nat)
  | commitToken (i : Nat) (committedAt : Int)
  | record (i : Nat)
  /-- The epoch is `gen_random_uuid()`. -/
  | rotate (i : Nat) (epoch : Uuid) (committedAt : Int)
  | recordRotated (i : Nat)
  /-- A statement of the probe has failed. -/
  | fail (i : Nat)
  | close (i : Nat)
  | restart (i : Nat)

def step (s : Cluster) : Action → Option Cluster
  | .writer a =>
    match s.shared.step a with
    | some w => some { s with shared := w }
    | none => none
  | .sample i =>
    match s.threads[i]? with
    | some ⟨fence, .idle⟩ => some (s.put i s.shared ⟨fence, .scanning s.shared.clock 0 none false⟩)
    | _ => none
  | .scanBackend i =>
    match s.threads[i]? with
    | some ⟨fence, .scanning sampledAt next oldest masked⟩ =>
      match s.shared.backends[next]? with
      | some b =>
        some (s.put i s.shared ⟨fence, .scanning sampledAt (next + 1)
          (least oldest b.activity.xactStart) (masked || b.activity.masked)⟩)
      | none => none
    | _ => none
  | .scanPrepared i =>
    match s.threads[i]? with
    | some ⟨fence, .scanning sampledAt next oldest masked⟩ =>
      if next = s.shared.backends.length then
        -- `ProbeError::MaskedActivity`
        if masked then some (s.put i s.shared ⟨fence.close, .idle⟩)
        else some (s.put i s.shared ⟨fence, .scanned sampledAt
          ((s.shared.preparedXacts.map PreparedXact.prepared).foldl (fun acc t =>
            least acc (some t)) oldest)⟩)
      else none
    | _ => none
  | .commitToken i committedAt =>
    match s.threads[i]? with
    | some ⟨fence, .scanned sampledAt oldest⟩ =>
      some (s.put i (s.shared.beat s.shared.epoch) ⟨fence,
        .sampled (s.shared.token + 1) s.shared.epoch committedAt (fenceWall sampledAt oldest)⟩)
    | _ => none
  | .record i =>
    match s.threads[i]? with
    | some ⟨fence, .sampled token epoch committedAt wall⟩ =>
      match fence.record token epoch committedAt wall with
      | (.recorded, fence') => some (s.put i s.shared ⟨fence', .idle⟩)
      | (.tokenRegression, fence') => some (s.put i s.shared ⟨fence', .rotating wall⟩)
    | _ => none
  | .rotate i epoch committedAt =>
    match s.threads[i]? with
    | some ⟨fence, .rotating wall⟩ =>
      some (s.put i (s.shared.beat epoch) ⟨fence,
        .rotated (s.shared.token + 1) epoch committedAt wall⟩)
    | _ => none
  | .recordRotated i =>
    match s.threads[i]? with
    | some ⟨fence, .rotated token epoch committedAt wall⟩ =>
      some (s.put i s.shared ⟨(fence.record token epoch committedAt wall).2, .idle⟩)
    | _ => none
  | .fail i =>
    match s.threads[i]? with
    | some pod => some (s.put i s.shared ⟨pod.fence.close, .idle⟩)
    | none => none
  | .close i =>
    match s.threads[i]? with
    | some pod => some (s.put i s.shared ⟨pod.fence.close, pod.probe⟩)
    | none => none
  | .restart i =>
    match s.threads[i]? with
    | some _ => some (s.put i s.shared ⟨.new, .idle⟩)
    | none => none

def machine : Machine Cluster Action := ⟨step⟩

/-- A writer whose backends are idle, and `pods` pods that have not probed yet. -/
def init (backends : List BackendType) (token : Int) (epoch : Uuid) (clock : Int)
    (pods : Nat) : Cluster :=
  ⟨{ clock
     backends := backends.map fun t => ⟨t, .idle, .full, none⟩
     preparedXacts := []
     token
     epoch
     log := [] }, List.replicate pods ⟨.new, .idle⟩⟩

end Cluster

/-- What a reader session whose snapshot has replayed these commits sees of the heartbeat;
`seed` is the row before the first of them. -/
def observeHeartbeat (seed : Int × Uuid) (snapshot : List Commit) : Int × Uuid :=
  snapshot.foldl (fun seen c => match c with
    | .heartbeat token epoch => (token, epoch)
    | .write _ => seen) seed

end Pkzz.Db
