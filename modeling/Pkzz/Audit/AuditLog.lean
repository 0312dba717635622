import Pkzz.Audit.Hash
import Mathlib.Data.List.MinMax
import Mathlib.Data.List.Pairwise

/-!
# The table `audit_log`

The rows of the audit log with the constraints of the migration that makes the table: the
primary key `(community_id, seq)` and the unique index on `(community_id, hash)`. What the
two columns of a rich type do to a value is a parameter (`Columns`): `TIMESTAMPTZ` keeps
microseconds, and `JSONB` does not keep the order of keys.
-/

namespace Pkzz.Audit

open Pkzz.Core Pkzz.Lib

structure AuditRow where
  communityId : Uuid
  seq : Int64
  hash : List UInt8
  prevHash : Option (List UInt8)
  action : String
  actorPubkey : Option (List UInt8)
  objectId : Option String
  /-- The column may be `NULL`. -/
  detail : Option Value
  createdAt : DateTime

/-- Two rows that cannot stand in the table together. -/
def AuditRow.Conflicts (a b : AuditRow) : Prop :=
  a.communityId = b.communityId ∧ (a.seq = b.seq ∨ a.hash = b.hash)

instance (a b : AuditRow) : Decidable (a.Conflicts b) := by
  unfold AuditRow.Conflicts
  infer_instance

instance : Std.Symm fun a b : AuditRow => ¬ a.Conflicts b :=
  ⟨fun _ _ h hba => h ⟨hba.1.symm, hba.2.imp Eq.symm Eq.symm⟩⟩

/-- A relation of Postgres has at most 32 TB, and so fewer rows than that. -/
def maxRows : Nat := 2 ^ 45

structure AuditLog where
  rows : List AuditRow
  /-- The primary key and the unique index. -/
  keys : rows.Pairwise fun a b => ¬ a.Conflicts b
  fits : rows.length ≤ maxRows

namespace AuditLog

def empty : AuditLog := ⟨[], List.Pairwise.nil, Nat.zero_le _⟩

/-- `INSERT`; it fails on a conflict, and when the table is full. -/
def insert (log : AuditLog) (row : AuditRow) : Option AuditLog :=
  if h : (∀ r ∈ log.rows, ¬ r.Conflicts row) ∧ log.rows.length < maxRows then
    some
      { rows := log.rows ++ [row]
        keys := List.pairwise_append.mpr ⟨log.keys, List.pairwise_singleton _ _, by
          intro a ha b hb
          rw [List.mem_singleton.mp hb]
          exact h.1 a ha⟩
        fits := by
          rw [List.length_append]
          exact h.2 }
  else none

/-- The rows of one community. -/
def of (log : AuditLog) (community : Uuid) : List AuditRow :=
  log.rows.filter fun r => r.communityId = community

/-- The first of the rows with the greatest key. -/
def greatest (f : AuditRow → Int) (rows : List AuditRow) : Option AuditRow :=
  @List.argmax AuditRow Int Int.instLinearOrder.toPreorder (fun a b => Int.decLt a b) f rows

/-- `SELECT seq, hash … ORDER BY seq DESC LIMIT 1`. -/
def head (log : AuditLog) (community : Uuid) : Option (Int64 × List UInt8) :=
  (greatest (fun r => r.seq.toInt) (log.of community)).map fun r => (r.seq, r.hash)

/-- `SELECT … seq BETWEEN fromSeq AND toSeq ORDER BY seq ASC`. -/
def select (log : AuditLog) (community : Uuid) (fromSeq toSeq : Int64) : List AuditRow :=
  ((log.of community).filter fun r =>
    fromSeq.toInt ≤ r.seq.toInt && r.seq.toInt ≤ toSeq.toInt).insertionSort
    fun a b => a.seq.toInt ≤ b.seq.toInt

variable {log log' : AuditLog} {row r : AuditRow} {c : Uuid} {fromSeq toSeq : Int64}

theorem insert_eq_some_iff : log.insert row = some log' ↔
    log'.rows = log.rows ++ [row] ∧ (∀ r ∈ log.rows, ¬ r.Conflicts row) ∧
      log.rows.length < maxRows := by
  unfold insert
  constructor
  · intro h
    split at h
    · rename_i hfree
      cases h
      exact ⟨rfl, hfree⟩
    · cases h
  · intro h
    rw [dif_pos h.2]
    cases log'
    congr 1
    congr 1
    exact h.1.symm

theorem mem_of : r ∈ log.of c ↔ r ∈ log.rows ∧ r.communityId = c := by
  unfold of
  rw [List.mem_filter]
  simp

/-- An inserted row goes to the end of its community's rows. -/
theorem of_insert_self (h : log.insert row = some log') :
    log'.of row.communityId = log.of row.communityId ++ [row] := by
  unfold of
  rw [(insert_eq_some_iff.mp h).1, List.filter_append]
  simp

theorem of_insert_other (h : log.insert row = some log') (hc : row.communityId ≠ c) :
    log'.of c = log.of c := by
  unfold of
  rw [(insert_eq_some_iff.mp h).1, List.filter_append]
  simp [hc]

theorem of_length_le : (log.of c).length ≤ maxRows :=
  Nat.le_trans (List.length_filter_le _ _) log.fits

/-- The index on the hash. -/
theorem eq_of_hash {a b : AuditRow} (ha : a ∈ log.of c) (hb : b ∈ log.of c) (h : a.hash = b.hash) :
    a = b := by
  obtain ⟨ha, hac⟩ := mem_of.mp ha
  obtain ⟨hb, hbc⟩ := mem_of.mp hb
  by_contra hne
  exact log.keys.forall ha hb hne ⟨hac.trans hbc.symm, .inr h⟩

theorem mem_select : r ∈ log.select c fromSeq toSeq ↔
    r ∈ log.of c ∧ fromSeq.toInt ≤ r.seq.toInt ∧ r.seq.toInt ≤ toSeq.toInt := by
  unfold select
  rw [List.mem_insertionSort, List.mem_filter]
  simp

end AuditLog

end Pkzz.Audit
