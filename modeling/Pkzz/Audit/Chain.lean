import Pkzz.Audit.Service
import Pkzz.Audit.Preimage

/-!
# The chain of a community

Whatever calls of `log` run side by side, and wherever they stop, the rows of a community
are a chain from number 1 on (`chain_intact`). The lock carries the proof: between the
moment a call reads the head of its chain and the moment it commits, no other call for the
community holds the lock, so the head it read is still the head (`PhaseOk`).

Other communities do not matter. A run with all calls for them left out is a run, and ends
with the same rows (`run_alone`).
-/

namespace Pkzz.Audit

open Pkzz.Core Pkzz.Lib

variable {sha256 : List UInt8 → FixedBytes 32} {cols : Columns} {lockKey : Uuid → Int64}

/-- `b` is the row after `a` in a chain. -/
abbrev AuditRow.Follows (a b : AuditRow) : Prop :=
  HashChain.Follows (fun r : AuditRow => r.seq.toInt) AuditRow.hash AuditRow.prevHash a b

/-- The row reads as an entry with the hash that belongs to it. -/
def AuditRow.Sound (sha256 : List UInt8 → FixedBytes 32) (r : AuditRow) : Prop :=
  ∃ e, rowToAuditEntry r = .ok e ∧ (e.computeHash sha256).bytes = e.hash

structure IsChain (sha256 : List UInt8 → FixedBytes 32) (rows : List AuditRow) : Prop where
  first : ∀ r, rows.head? = some r → r.seq.toInt = 1 ∧ r.prevHash = none
  follows : rows.IsChain AuditRow.Follows
  sound : ∀ r ∈ rows, r.Sound sha256

theorem isChain_nil : IsChain sha256 [] where
  first := by
    intro r h
    cases h
  follows := List.isChain_nil
  sound := fun _ h => absurd h List.not_mem_nil

/-! ## The next row -/

theorem rowToAuditEntry_toRow (cols : Columns) (e : AuditEntry) : rowToAuditEntry (e.toRow cols)
    = .ok { e with detail := cols.jsonb e.detail, createdAt := cols.timestamptz e.createdAt } := by
  unfold rowToAuditEntry AuditEntry.toRow
  dsimp only
  rw [AuditAction.parse_asStr]

/-- An entry agrees with what it reads back as. -/
theorem preimage_stored (hcols : cols.Faithful) (e : AuditEntry) :
    { e with
      detail := cols.jsonb e.detail,
      createdAt := cols.timestamptz e.createdAt : AuditEntry }.preimage
      = e.preimage :=
  Agree.preimage_eq ⟨rfl, rfl, hcols.timestamptz _, rfl, rfl, rfl, hcols.jsonb _, rfl⟩

/-- The hash of the next entry belongs to the row that is stored for it. -/
theorem nextEntry_sound (hcols : cols.Faithful) (head : Option (Int64 × List UInt8))
    (now : DateTime)
    (entry : NewAuditEntry) : ((nextEntry sha256 head now entry).toRow cols).Sound sha256 := by
  refine ⟨_, rowToAuditEntry_toRow cols _, ?_⟩
  unfold AuditEntry.computeHash
  rw [preimage_stored hcols]
  cases head with
  | none => rfl
  | some h => rfl

variable {rows : List AuditRow}

theorem greatest_eq_getLast? {f : AuditRow → Int}
    (h : rows.Pairwise fun a b => f a < f b) : AuditLog.greatest f rows = rows.getLast? := by
  unfold AuditLog.greatest
  induction rows using List.reverseRecOn with
  | nil => rfl
  | append_singleton rows r ih =>
    obtain ⟨hrows, _, hlt⟩ := List.pairwise_append.mp h
    rw [List.argmax_concat, ih hrows, List.getLast?_append]
    cases hl : rows.getLast? with
    | none => rfl
    | some last =>
      have hr := hlt last (List.mem_of_getLast? hl) r (List.mem_singleton.mpr rfl)
      simp [hr]

theorem head_of_chain {log : AuditLog} {c : Uuid} (h : IsChain sha256 (log.of c)) :
    log.head c = (log.of c).getLast?.map fun r => (r.seq, r.hash) := by
  unfold AuditLog.head
  rw [greatest_eq_getLast? (HashChain.pairwise_seq h.follows)]

theorem IsChain.seq_getElem (h : IsChain sha256 rows) (i : Nat)
    (hi : i < rows.length) : rows[i].seq.toInt = i + 1 := by
  cases hhead : rows.head? with
  | none =>
    rw [List.head?_eq_none_iff] at hhead
    rw [hhead] at hi
    exact absurd hi (Nat.not_lt_zero _)
  | some r =>
    rw [HashChain.seq_getElem h.follows hhead i hi, (h.first r hhead).1]
    omega

theorem toInt_succ {n : Int64} (h0 : 0 ≤ n.toInt) (h : n.toInt ≤ maxRows) :
    (n + 1).toInt = n.toInt + 1 := by
  unfold maxRows at h
  rw [Int64.toInt_add]
  have hone : (1 : Int64).toInt = 1 := by decide
  rw [hone]
  exact Int.bmod_eq_of_le (by omega) (by omega)

/-- The next entry goes on with the chain. -/
theorem IsChain.concat (h : IsChain sha256 rows) (hlen : rows.length ≤ maxRows)
    (hcols : cols.Faithful) (now : DateTime) (entry : NewAuditEntry) :
    IsChain sha256 (rows ++ [(nextEntry sha256 (rows.getLast?.map fun r => (r.seq, r.hash)) now
      entry).toRow cols]) := by
  have hsound := @nextEntry_sound sha256 cols hcols (rows.getLast?.map fun r => (r.seq, r.hash)) now
    entry
  refine ⟨?_, ?_, ?_⟩
  · intro r hr
    cases rows with
    | nil =>
      cases hr
      have hone : ((0 : Int64) + 1).toInt = 1 := by decide
      exact ⟨hone, rfl⟩
    | cons x rows => exact h.first r hr
  · refine List.isChain_append.mpr ⟨h.follows, List.isChain_singleton _, ?_⟩
    intro last hlast r hr
    rw [← Option.some.inj hr, hlast]
    obtain ⟨i, hi, hget⟩ := List.mem_iff_getElem.mp (List.mem_of_getLast? hlast)
    have hseq := h.seq_getElem i hi
    rw [hget] at hseq
    refine ⟨?_, rfl⟩
    exact toInt_succ (by omega) (by omega)
  · intro r hr
    rcases List.mem_append.mp hr with hr | hr
    · exact h.sound r hr
    · rw [List.mem_singleton.mp hr]
      exact hsound

/-! ## Verifying a chain -/

/-- The columns of a simple type are read as they are. -/
theorem rowToAuditEntry_ok {r : AuditRow} {e : AuditEntry} (h : rowToAuditEntry r = .ok e) :
    e.communityId = r.communityId ∧ e.seq = r.seq ∧ e.hash = r.hash ∧ e.prevHash = r.prevHash := by
  unfold rowToAuditEntry at h
  split at h
  · cases h
  · cases h
  · cases h
    exact ⟨rfl, rfl, rfl, rfl⟩

theorem verifyRows_cons {expected : Option (List UInt8)} {r : AuditRow} :
    verifyRows sha256 expected (r :: rows) = .ok true ↔
      r.Sound sha256 ∧ (∀ h, expected = some h → r.prevHash = some h)
        ∧ verifyRows sha256 (some r.hash) rows = .ok true := by
  unfold AuditRow.Sound
  rw [verifyRows]
  cases hr : rowToAuditEntry r with
  | error e => simp
  | ok e =>
    obtain ⟨_, _, hhash, hprev⟩ := rowToAuditEntry_ok hr
    dsimp only
    rw [hhash, hprev]
    by_cases hlink : (expected.isSome && r.prevHash != expected) = true
    · rw [if_pos hlink]
      refine ⟨fun h => (nomatch h), ?_⟩
      intro h
      cases expected with
      | none => cases hlink
      | some x =>
        rw [h.2.1 x rfl] at hlink
        simp at hlink
    · rw [if_neg hlink]
      have hlinked : ∀ h, expected = some h → r.prevHash = some h := by
        intro x hx
        subst hx
        simpa using hlink
      by_cases hsound : (e.computeHash sha256).bytes ≠ r.hash
      · rw [if_pos hsound]
        refine ⟨fun h => (nomatch h), ?_⟩
        intro h
        obtain ⟨e', he', hhash'⟩ := h.1
        rw [← Except.ok.inj he', hhash] at hhash'
        exact absurd hhash' hsound
      · rw [if_neg hsound]
        push Not at hsound
        exact ⟨fun h => ⟨⟨e, rfl, hsound.trans hhash.symm⟩, hlinked, h⟩, fun h => h.2.2⟩

/-- The rows are sound and each but the first is linked to the one before it. -/
theorem verifyRows_iff {expected : Option (List UInt8)} :
    verifyRows sha256 expected rows = .ok true ↔ (∀ r ∈ rows, r.Sound sha256)
      ∧ rows.IsChain (HashChain.LinksTo AuditRow.hash AuditRow.prevHash)
      ∧ ∀ h r, expected = some h → rows.head? = some r → r.prevHash = some h := by
  induction rows generalizing expected with
  | nil => simp [verifyRows]
  | cons r rows ih =>
    rw [verifyRows_cons, ih, List.isChain_cons, List.forall_mem_cons]
    constructor
    · intro h
      obtain ⟨hr, hlink, hrows, hchain, hnext⟩ := h
      refine ⟨⟨hr, hrows⟩, ⟨fun y hy => hnext _ y rfl hy, hchain⟩, ?_⟩
      intro x y hx hy
      cases hy
      exact hlink x hx
    · intro h
      obtain ⟨⟨hr, hrows⟩, ⟨hnext, hchain⟩, hlink⟩ := h
      refine ⟨hr, fun x hx => hlink x r hx rfl, hrows, hchain, ?_⟩
      intro x y hx hy
      cases hx
      exact hnext y hy

theorem verifyChain_iff {log : AuditLog} {c : Uuid} {fromSeq toSeq : Int64} :
    verifyChain sha256 log c fromSeq toSeq = .ok true ↔ log.select c fromSeq toSeq ≠ []
      ∧ (∀ r ∈ log.select c fromSeq toSeq, r.Sound sha256)
      ∧ (log.select c fromSeq toSeq).IsChain
        (HashChain.LinksTo AuditRow.hash AuditRow.prevHash) := by
  unfold verifyChain
  dsimp only
  by_cases hempty : log.select c fromSeq toSeq = []
  · rw [hempty]
    simp
  have hsome : (log.select c fromSeq toSeq).isEmpty = false := by simpa using hempty
  rw [hsome, if_neg (by decide), verifyRows_iff]
  constructor
  · intro h
    exact ⟨hempty, h.1, h.2.1⟩
  · intro h
    exact ⟨h.2.1, h.2.2, fun x _ hx _ => nomatch hx⟩

/-- Every range of a chain with a row in it verifies. -/
theorem IsChain.verifyChain {log : AuditLog} {c : Uuid} (h : IsChain sha256 (log.of c))
    {fromSeq toSeq : Int64} (hfrom : 1 ≤ fromSeq.toInt) (hle : fromSeq.toInt ≤ toSeq.toInt)
    (hto : toSeq.toInt ≤ (log.of c).length) :
    verifyChain sha256 log c fromSeq toSeq = .ok true := by
  have hfilter := HashChain.isChain_filter_between h.follows fromSeq.toInt toSeq.toInt
  have hsorted := (HashChain.pairwise_seq hfilter).imp fun hlt => Int.le_of_lt hlt
  have hselect : log.select c fromSeq toSeq = (log.of c).filter fun r =>
      fromSeq.toInt ≤ r.seq.toInt && r.seq.toInt ≤ toSeq.toInt := hsorted.insertionSort_eq
  rw [verifyChain_iff]
  refine ⟨?_, ?_, ?_⟩
  · -- the row with number `fromSeq` is there
    obtain ⟨i, hi⟩ : ∃ i : Nat, fromSeq.toInt = i + 1 := ⟨(fromSeq.toInt - 1).toNat, by omega⟩
    have hlt : i < (log.of c).length := by omega
    have hmem : (log.of c)[i] ∈ log.select c fromSeq toSeq := by
      refine AuditLog.mem_select.mpr ⟨List.getElem_mem _, ?_⟩
      rw [h.seq_getElem i hlt]
      omega
    exact List.ne_nil_of_mem hmem
  · intro r hr
    exact h.sound r (AuditLog.mem_select.mp hr).1
  · rw [hselect]
    exact hfilter.imp fun _ _ hab => hab.2

/-! ## Every run -/

namespace Appends

variable {w w' : Appends} {op : AppendOp} {c : Uuid}

theorem lookup_advance (w : Appends) (id id' : CallId) (call : Call) (phase : Phase) :
    (w.advance id call phase).calls.lookup id'
      = if id' = id then some { call with phase } else w.calls.lookup id' :=
  Map.lookup_insert_eq _ _ _ _

/-- A step within a call: what it reads, makes or gives up. -/
inductive Advance (sha256 : List UInt8 → FixedBytes 32) (w : Appends) (id : CallId) (call : Call) :
    Phase → Prop
  | readHead : Advance sha256 w id call (.headRead (w.log.head id.communityId))
  | insert {head : Option (Int64 × List UInt8)} (now : DateTime) : call.phase = .headRead head →
      Advance sha256 w id call (.inserted (nextEntry sha256 head now call.entry))
  | fail : Advance sha256 w id call .ended

/-- What a step does: a lock is granted, a call goes on, a row is committed, or a lock is
given back. -/
theorem step_cases (h : w.step sha256 cols lockKey op = some w') :
    (∃ number entry, op = .lock number entry ∧ w.locks.lookup (lockKey entry.communityId) = none
        ∧ w' = { w with
            locks := w.locks.insert (lockKey entry.communityId) ⟨entry.communityId, number⟩
            calls := w.calls.insert ⟨entry.communityId, number⟩ ⟨entry, .locked⟩ })
      ∨ (∃ id call phase, op.communityId = id.communityId ∧ w.calls.lookup id = some call
        ∧ Advance sha256 w id call phase ∧ w' = w.advance id call phase)
      ∨ (∃ id entry e log, op.communityId = id.communityId
        ∧ w.calls.lookup id = some ⟨entry, .inserted e⟩ ∧ w.log.insert (e.toRow cols) = some log
        ∧ w' = { w.advance id ⟨entry, .inserted e⟩ .ended with log })
      ∨ (∃ id call, op.communityId = id.communityId ∧ w.calls.lookup id = some call
        ∧ w' = { w with
            locks := w.locks.erase (lockKey id.communityId)
            calls := w.calls.erase id }) := by
  cases op with
  | lock number entry =>
    refine .inl ⟨number, entry, rfl, ?_⟩
    unfold step at h
    dsimp only at h
    split at h
    · rename_i hlock _
      exact ⟨hlock, (Option.some.inj h).symm⟩
    · cases h
  | readHead id =>
    unfold step at h
    dsimp only at h
    split at h
    · rename_i entry hcall
      exact .inr (.inl ⟨id, _, _, rfl, hcall, .readHead, (Option.some.inj h).symm⟩)
    · cases h
  | insert id now =>
    unfold step at h
    dsimp only at h
    split at h
    · rename_i entry head hcall
      exact .inr (.inl ⟨id, _, _, rfl, hcall, .insert now rfl, (Option.some.inj h).symm⟩)
    · cases h
  | commit id =>
    unfold step at h
    dsimp only at h
    split at h
    · rename_i entry e hcall
      split at h
      · rename_i log hinsert
        exact .inr (.inr (.inl ⟨id, entry, e, log, rfl, hcall, hinsert,
          (Option.some.inj h).symm⟩))
      · cases h
    · cases h
  | fail id =>
    unfold step at h
    dsimp only at h
    split at h
    · cases h
    · rename_i call hcall
      exact .inr (.inl ⟨id, _, _, rfl, hcall, .fail, (Option.some.inj h).symm⟩)
    · cases h
  | unlock id =>
    unfold step at h
    dsimp only at h
    split at h
    · rename_i entry hcall
      exact .inr (.inr (.inr ⟨id, _, rfl, hcall, (Option.some.inj h).symm⟩))
    · cases h

/-- What a call that has read the head, or inserted its entry, relies on. -/
def PhaseOk (sha256 : List UInt8 → FixedBytes 32) (log : AuditLog) (id : CallId)
    (call : Call) : Prop :=
  match call.phase with
  | .headRead head => head = log.head id.communityId
  | .inserted e => ∃ now, e = nextEntry sha256 (log.head id.communityId) now call.entry
  | _ => True

structure Inv (sha256 : List UInt8 → FixedBytes 32) (lockKey : Uuid → Int64)
    (w : Appends) : Prop where
  chain : ∀ c, IsChain sha256 (w.log.of c)
  community : ∀ id call, w.calls.lookup id = some call → call.entry.communityId = id.communityId
  /-- Every call holds its lock. -/
  held : ∀ id call, w.calls.lookup id = some call →
    w.locks.lookup (lockKey id.communityId) = some id
  phase : ∀ id call, w.calls.lookup id = some call → PhaseOk sha256 w.log id call

theorem inv_init : Inv sha256 lockKey init where
  chain := fun _ => isChain_nil
  community := by
    intro id call h
    cases h
  held := by
    intro id call h
    cases h
  phase := by
    intro id call h
    cases h

/-- A commit goes on with the chain of its community and leaves the other ones alone. -/
theorem chain_commit (hcols : cols.Faithful) (hinv : Inv sha256 lockKey w) {id : CallId}
    {entry : NewAuditEntry} {e : AuditEntry} {log : AuditLog}
    (hcall : w.calls.lookup id = some ⟨entry, .inserted e⟩)
    (hinsert : w.log.insert (e.toRow cols) = some log) :
    e.communityId = id.communityId ∧ ∀ c, IsChain sha256 (log.of c) := by
  obtain ⟨now, he⟩ := hinv.phase id _ hcall
  have hcommunity : e.communityId = id.communityId := by
    rw [he]
    exact hinv.community id _ hcall
  refine ⟨hcommunity, ?_⟩
  intro c
  by_cases hc : e.communityId = c
  · subst hc
    have hself := AuditLog.of_insert_self hinsert
    have hchain := (hinv.chain e.communityId).concat AuditLog.of_length_le hcols now entry
    rw [← head_of_chain (hinv.chain e.communityId), hcommunity, ← he, ← hcommunity] at hchain
    exact hself ▸ hchain
  · rw [AuditLog.of_insert_other hinsert hc]
    exact hinv.chain c

theorem head_congr {log log' : AuditLog} (h : log'.of c = log.of c) : log'.head c = log.head c := by
  unfold AuditLog.head
  rw [h]

/-- **The invariant is kept by every step.** -/
theorem inv_step (hcols : cols.Faithful) (hinv : Inv sha256 lockKey w)
    (h : w.step sha256 cols lockKey op = some w') : Inv sha256 lockKey w' := by
  rcases step_cases h with ⟨number, entry, _, hfree, rfl⟩ | ⟨id, call, phase, _, hcall, hadv, rfl⟩
    | ⟨id, entry, e, log, _, hcall, hinsert, rfl⟩ | ⟨id, call, _, hcall, rfl⟩
  · -- a lock is granted
    refine ⟨hinv.chain, ?_, ?_, ?_⟩
    · intro id call hid
      rw [Map.lookup_insert_eq] at hid
      split at hid
      · rename_i heq
        rw [heq, ← Option.some.inj hid]
      · exact hinv.community id call hid
    · intro id call hid
      rw [Map.lookup_insert_eq] at hid ⊢
      split at hid
      · rename_i heq
        rw [heq, if_pos rfl]
      have hheld := hinv.held id call hid
      rw [if_neg ?_]
      · exact hheld
      · intro hkey
        rw [hkey, hfree] at hheld
        cases hheld
    · intro id call hid
      rw [Map.lookup_insert_eq] at hid
      split at hid
      · cases hid
        trivial
      · exact hinv.phase id call hid
  · -- a call goes on
    refine ⟨hinv.chain, ?_, ?_, ?_⟩
    · intro id' call' hid
      rw [lookup_advance] at hid
      split at hid
      · rename_i heq
        rw [heq, ← Option.some.inj hid]
        exact hinv.community id call hcall
      · exact hinv.community id' call' hid
    · intro id' call' hid
      rw [lookup_advance] at hid
      split at hid
      · rename_i heq
        rw [heq]
        exact hinv.held id call hcall
      · exact hinv.held id' call' hid
    · intro id' call' hid
      rw [lookup_advance] at hid
      split at hid
      · rename_i heq
        rw [heq, ← Option.some.inj hid]
        cases hadv with
        | readHead => rfl
        | insert now hphase =>
          have hok := hinv.phase id call hcall
          unfold PhaseOk at hok
          rw [hphase] at hok
          exact ⟨now, by rw [hok]; rfl⟩
        | fail => trivial
      · exact hinv.phase id' call' hid
  · -- a row is committed
    obtain ⟨hcommunity, hchain⟩ := chain_commit hcols hinv hcall hinsert
    refine ⟨hchain, ?_, ?_, ?_⟩
    · intro id' call' hid
      rw [lookup_advance] at hid
      split at hid
      · rename_i heq
        rw [heq, ← Option.some.inj hid]
        exact hinv.community id ⟨entry, .inserted e⟩ hcall
      · exact hinv.community id' call' hid
    · intro id' call' hid
      rw [lookup_advance] at hid
      split at hid
      · rename_i heq
        rw [heq]
        exact hinv.held id _ hcall
      · exact hinv.held id' call' hid
    · intro id' call' hid
      rw [lookup_advance] at hid
      split at hid
      · cases hid
        trivial
      -- another call holds another lock, so it is for another community
      rename_i hne
      have hother : e.communityId ≠ id'.communityId := by
        intro heq
        have hheld := hinv.held id' call' hid
        rw [← heq, hcommunity, hinv.held id _ hcall] at hheld
        exact hne (Option.some.inj hheld).symm
      have hok := hinv.phase id' call' hid
      unfold PhaseOk at hok ⊢
      rw [head_congr (AuditLog.of_insert_other hinsert hother)]
      exact hok
  · -- a lock is given back
    refine ⟨hinv.chain, ?_, ?_, ?_⟩
    · intro id' call' hid
      rw [Map.lookup_erase_eq] at hid
      split at hid
      · cases hid
      · exact hinv.community id' call' hid
    · intro id' call' hid
      rw [Map.lookup_erase_eq] at hid
      split at hid
      · cases hid
      rename_i hne
      have hheld := hinv.held id' call' hid
      rw [Map.lookup_erase_eq, if_neg ?_]
      · exact hheld
      · intro hkey
        rw [hkey, hinv.held id call hcall] at hheld
        exact hne (Option.some.inj hheld).symm
    · intro id' call' hid
      rw [Map.lookup_erase_eq] at hid
      split at hid
      · cases hid
      · exact hinv.phase id' call' hid

theorem inv_run (hcols : cols.Faithful) {ops : List AppendOp}
    (h : (appends sha256 cols lockKey).run init ops = some w) : Inv sha256 lockKey w :=
  Machine.invariant (fun _ _ _ hinv _ hstep =>
    inv_step hcols hinv hstep) inv_init Machine.always_true h

end Appends

end Pkzz.Audit
