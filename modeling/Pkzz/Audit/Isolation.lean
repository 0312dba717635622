import Pkzz.Audit.Chain

/-!
# Chains of different communities

A run of `log` calls with all calls for other communities left out is still a run, and
leaves the same rows for the community that is kept (`run_alone`). With the invariant of
`Chain` this is what the log promises under concurrency: `chain_intact`.
-/

namespace Pkzz.Audit

open Pkzz.Core Pkzz.Lib

variable {sha256 : List UInt8 → FixedBytes 32} {cols : Columns} {lockKey : Uuid → Int64}

namespace Appends

variable {w w' v : Appends} {op : AppendOp} {c : Uuid} {ops : List AppendOp}

/-- `v` is what `w` is for one community. -/
structure Alone (c : Uuid) (w v : Appends) : Prop where
  rows : v.log.of c = w.log.of c
  length : v.log.rows.length ≤ w.log.rows.length
  calls : ∀ id, id.communityId = c → v.calls.lookup id = w.calls.lookup id
  /-- Two communities may share a lock key; only this one holds locks in `v`. -/
  locks : ∀ key id, v.locks.lookup key = some id → id.communityId = c ∧ w.locks.lookup key = some id

theorem alone_init : Alone c init init where
  rows := rfl
  length := Nat.le_refl _
  calls := fun _ _ => rfl
  locks := by
    intro key id h
    cases h

theorem alone_advance (h : Alone c w v) (id : CallId) (call : Call) (phase : Phase) :
    Alone c (w.advance id call phase) (v.advance id call phase) where
  rows := h.rows
  length := h.length
  calls := by
    intro id' hid'
    rw [lookup_advance, lookup_advance, h.calls id' hid']
  locks := h.locks

/-- A row of the community that can be inserted into `w` can be inserted into `v`. -/
theorem insert_alone (h : Alone c w v) {row : AuditRow} {log : AuditLog}
    (hrow : row.communityId = c)
    (hinsert : w.log.insert row = some log) : ∃ log', v.log.insert row = some log'
      ∧ log'.of c = log.of c ∧ log'.rows.length ≤ log.rows.length := by
  obtain ⟨hrows, hfree, hfits⟩ := AuditLog.insert_eq_some_iff.mp hinsert
  have hcan : (∀ r ∈ v.log.rows, ¬ r.Conflicts row) ∧ v.log.rows.length < maxRows := by
    refine ⟨?_, Nat.lt_of_le_of_lt h.length hfits⟩
    intro r hr hconflict
    have hmem : r ∈ v.log.of c := AuditLog.mem_of.mpr ⟨hr, hconflict.1.trans hrow⟩
    rw [h.rows] at hmem
    exact hfree r (AuditLog.mem_of.mp hmem).1 hconflict
  obtain ⟨log', hlog'⟩ : ∃ log', v.log.insert row = some log' := by
    unfold AuditLog.insert
    rw [dif_pos hcan]
    exact ⟨_, rfl⟩
  have hrows' := (AuditLog.insert_eq_some_iff.mp hlog').1
  refine ⟨log', hlog', ?_, ?_⟩
  · subst hrow
    rw [AuditLog.of_insert_self hlog', AuditLog.of_insert_self hinsert, h.rows]
  · have hlength := h.length
    rw [hrows', hrows, List.length_append, List.length_append]
    omega

/-- A step for the community does the same in `v`. -/
theorem alone_keep (hinv : Inv sha256 lockKey w) (h : Alone c w v) (hc : op.communityId = c)
    (hstep : w.step sha256 cols lockKey op = some w') :
    ∃ v', v.step sha256 cols lockKey op = some v' ∧ Alone c w' v' := by
  cases op with
  | lock number entry =>
    unfold step at hstep ⊢
    dsimp only at hstep ⊢
    rw [h.calls _ hc]
    split at hstep
    · rename_i hlock hcall
      -- a lock that is free in `w` cannot be held in `v`
      have hfree : v.locks.lookup (lockKey entry.communityId) = none := by
        cases hv : v.locks.lookup (lockKey entry.communityId) with
        | none => rfl
        | some id => exact absurd (hlock.symm.trans (h.locks _ id hv).2) (by simp)
      rw [hfree, hcall]
      refine ⟨_, rfl, ?_⟩
      cases hstep
      refine ⟨h.rows, h.length, ?_, ?_⟩
      · intro id hid
        rw [Map.lookup_insert_eq, Map.lookup_insert_eq, h.calls id hid]
      · intro key id hid
        rw [Map.lookup_insert_eq] at hid ⊢
        split at hid
        · rename_i hkey
          rw [← Option.some.inj hid, if_pos hkey]
          exact ⟨hc, rfl⟩
        · rename_i hkey
          rw [if_neg hkey]
          exact h.locks key id hid
    · cases hstep
  | readHead id =>
    unfold step at hstep ⊢
    dsimp only at hstep ⊢
    rw [h.calls id hc]
    split at hstep
    · rename_i entry hcall
      have hid : id.communityId = c := hc
      -- the head is read from rows of the community alone
      have hhead : v.log.head id.communityId = w.log.head id.communityId := by
        rw [hid]
        exact head_congr h.rows
      refine ⟨_, rfl, ?_⟩
      rw [← Option.some.inj hstep, hhead]
      exact alone_advance h _ _ _
    · cases hstep
  | insert id now =>
    unfold step at hstep ⊢
    dsimp only at hstep ⊢
    rw [h.calls id hc]
    split at hstep
    · rename_i entry head _
      refine ⟨_, rfl, ?_⟩
      cases hstep
      exact alone_advance h _ _ _
    · cases hstep
  | commit id =>
    unfold step at hstep ⊢
    dsimp only at hstep ⊢
    rw [h.calls id hc]
    split at hstep
    · rename_i entry e hcall
      split at hstep
      · rename_i log hinsert
        obtain ⟨now, he⟩ := hinv.phase id _ hcall
        have hcommunity : (e.toRow cols).communityId = c := by
          rw [he]
          exact (hinv.community id _ hcall).trans hc
        obtain ⟨log', hlog', hrows, hlength⟩ := insert_alone h hcommunity hinsert
        rw [hlog']
        refine ⟨_, rfl, ?_⟩
        cases hstep
        have hadv := alone_advance h id ⟨entry, .inserted e⟩ .ended
        exact ⟨hrows, hlength, hadv.calls, hadv.locks⟩
      · cases hstep
    · cases hstep
  | fail id =>
    unfold step at hstep ⊢
    dsimp only at hstep ⊢
    rw [h.calls id hc]
    split at hstep
    · cases hstep
    · rename_i call _ _
      refine ⟨_, rfl, ?_⟩
      cases hstep
      exact alone_advance h _ _ _
    · cases hstep
  | unlock id =>
    unfold step at hstep ⊢
    dsimp only at hstep ⊢
    rw [h.calls id hc]
    split at hstep
    · rename_i entry hcall
      refine ⟨_, rfl, ?_⟩
      cases hstep
      refine ⟨h.rows, h.length, ?_, ?_⟩
      · intro id' hid'
        rw [Map.lookup_erase_eq, Map.lookup_erase_eq, h.calls id' hid']
      · intro key id' hid'
        rw [Map.lookup_erase_eq] at hid' ⊢
        split at hid'
        · cases hid'
        · rename_i hkey
          rw [if_neg hkey]
          exact h.locks key id' hid'
    · cases hstep

/-- A step for another community does not concern `v`. -/
theorem alone_skip (hcols : cols.Faithful) (hinv : Inv sha256 lockKey w) (h : Alone c w v)
    (hc : op.communityId ≠ c) (hstep : w.step sha256 cols lockKey op = some w') : Alone c w' v := by
  rcases step_cases hstep with ⟨number, entry, rfl, hfree, rfl⟩ |
    ⟨id, call, phase, hop, hcall, _, rfl⟩
    | ⟨id, entry, e, log, hop, hcall, hinsert, rfl⟩ | ⟨id, call, hop, hcall, rfl⟩
  · refine ⟨h.rows, h.length, ?_, ?_⟩
    · intro id hid
      rw [Map.lookup_insert_eq, if_neg ?_, h.calls id hid]
      intro heq
      rw [heq] at hid
      exact hc hid
    · intro key id hid
      obtain ⟨hidc, hheld⟩ := h.locks key id hid
      refine ⟨hidc, ?_⟩
      rw [Map.lookup_insert_eq, if_neg ?_, hheld]
      intro hkey
      rw [hkey, hfree] at hheld
      cases hheld
  · refine ⟨h.rows, h.length, ?_, h.locks⟩
    intro id' hid'
    rw [lookup_advance, if_neg ?_, h.calls id' hid']
    intro heq
    rw [heq, ← hop] at hid'
    exact hc hid'
  · have hother : (e.toRow cols).communityId ≠ c := by
      have hcommunity : (e.toRow cols).communityId = id.communityId :=
        (chain_commit hcols hinv hcall hinsert).1
      rw [hcommunity, ← hop]
      exact hc
    refine ⟨?_, ?_, ?_, h.locks⟩
    · rw [AuditLog.of_insert_other hinsert hother]
      exact h.rows
    · have hlength := h.length
      rw [(AuditLog.insert_eq_some_iff.mp hinsert).1, List.length_append]
      omega
    · intro id' hid'
      rw [lookup_advance, if_neg ?_, h.calls id' hid']
      intro heq
      rw [heq, ← hop] at hid'
      exact hc hid'
  · refine ⟨h.rows, h.length, ?_, ?_⟩
    · intro id' hid'
      rw [Map.lookup_erase_eq, if_neg ?_, h.calls id' hid']
      intro heq
      rw [heq, ← hop] at hid'
      exact hc hid'
    · intro key id' hid'
      obtain ⟨hidc, hheld⟩ := h.locks key id' hid'
      refine ⟨hidc, ?_⟩
      rw [Map.lookup_erase_eq, if_neg ?_, hheld]
      -- the lock that is given back is held by another community
      intro hkey
      rw [hkey, hinv.held id call hcall] at hheld
      rw [← Option.some.inj hheld, ← hop] at hidc
      exact hc hidc

/-- The calls for one community alone. -/
theorem run_alone (hcols : cols.Faithful) (h : (appends sha256 cols lockKey).run init ops = some w)
    (c : Uuid) :
    ∃ v, (appends sha256 cols lockKey).run init (ops.filter fun op => op.communityId = c) = some v
      ∧ Alone c w v :=
  Machine.run_filter (I := Inv sha256 lockKey) (R := Alone c)
    (fun _ _ _ _ hinv hR hp hstep => alone_keep hinv hR (of_decide_eq_true hp) hstep)
    (fun _ _ _ _ hinv hR hp hstep => alone_skip hcols hinv hR (of_decide_eq_false hp) hstep)
    (fun _ _ _ hinv hstep => inv_step hcols hinv hstep) inv_init alone_init h

end Appends

/-- What is promised about the rows of a community. -/
structure Intact (sha256 : List UInt8 → FixedBytes 32) (log : AuditLog) (c : Uuid) : Prop where
  /-- The numbers are 1, 2 and so on. -/
  seq : ∀ i (hi : i < (log.of c).length), (log.of c)[i].seq.toInt = i + 1
  first : ∀ r, (log.of c).head? = some r → r.prevHash = none
  link : ∀ i (hi : i + 1 < (log.of c).length), (log.of c)[i + 1].prevHash = some (log.of c)[i].hash
  verifies : ∀ fromSeq toSeq : Int64, 1 ≤ fromSeq.toInt → fromSeq.toInt ≤ toSeq.toInt →
    toSeq.toInt ≤ (log.of c).length → verifyChain sha256 log c fromSeq toSeq = .ok true

theorem IsChain.intact {log : AuditLog} {c : Uuid} (h : IsChain sha256 (log.of c)) :
    Intact sha256 log c where
  seq := h.seq_getElem
  first := fun r hr => (h.first r hr).2
  link := fun i hi => (List.isChain_iff_getElem.mp h.follows i hi).2
  verifies := fun _ _ => h.verifyChain

/-- **In every run of calls of `log` the rows of a community are an unbroken chain, every part of
it verifies, and the calls for other communities have nothing to do with it.** -/
theorem chain_intact (hcols : cols.Faithful) {ops : List AppendOp} {w : Appends}
    (h : (appends sha256 cols lockKey).run Appends.init ops = some w) (c : Uuid) :
    Intact sha256 w.log c
      ∧ ∃ v, (appends sha256 cols lockKey).run Appends.init
        (ops.filter fun op => op.communityId = c) = some v ∧ v.log.of c = w.log.of c := by
  obtain ⟨v, hv, halone⟩ := Appends.run_alone hcols h c
  exact ⟨((Appends.inv_run hcols h).chain c).intact, v, hv, halone.rows⟩

/-! ## Two communities -/

def exampleCommunity (n : Nat) : Uuid := FixedBytes.ofNat 16 n

/-- Stands in for SHA-256; it tells the entries of one community apart by their number. -/
def exampleSha256 (l : List UInt8) : FixedBytes 32 :=
  FixedBytes.ofNat 32 ((l.drop 23).headD 0).toNat

def exampleColumns : Columns := ⟨DateTime.toStoragePrecision, id⟩

theorem toStoragePrecision_idem (t : DateTime) :
    t.toStoragePrecision.toStoragePrecision = t.toStoragePrecision := by
  unfold DateTime.toStoragePrecision
  congr 1
  dsimp only
  omega

theorem exampleColumns_faithful : exampleColumns.Faithful where
  timestamptz := toStoragePrecision_idem
  jsonb := fun _ => rfl

def exampleNewEntry (n : Nat) : NewAuditEntry where
  communityId := exampleCommunity n
  action := .eventCreated
  actorPubkey := none
  objectId := none
  detail := ⟨.null, rfl⟩

/-- The statements of a call that goes through. -/
def exampleLog (n number : Nat) : List AppendOp :=
  [.lock number (exampleNewEntry n), .readHead ⟨exampleCommunity n, number⟩,
    .insert ⟨exampleCommunity n, number⟩ (exampleEntry "" 0).createdAt,
    .commit ⟨exampleCommunity n, number⟩, .unlock ⟨exampleCommunity n, number⟩]

/-- The row of such an entry behind a given head. -/
def exampleRow (c : Nat) (head : Option (Int64 × List UInt8)) : AuditRow :=
  (nextEntry exampleSha256 head (exampleEntry "" 0).createdAt (exampleNewEntry c)).toRow
    exampleColumns

def exampleLock (c : Uuid) : Int64 := if c = exampleCommunity 1 then 1 else 2

/-- The calls of two communities interleave, one of them fails, and a row is chained to another. -/
def exampleRun : List AppendOp :=
  [.lock 0 (exampleNewEntry 1), .lock 0 (exampleNewEntry 2), .readHead ⟨exampleCommunity 1, 0⟩,
    .readHead ⟨exampleCommunity 2, 0⟩, .insert ⟨exampleCommunity 2,
      0⟩ (exampleEntry "" 0).createdAt,
    .insert ⟨exampleCommunity 1, 0⟩ (exampleEntry "" 0).createdAt, .commit ⟨exampleCommunity 1, 0⟩,
    .fail ⟨exampleCommunity 2, 0⟩, .unlock ⟨exampleCommunity 2, 0⟩, .unlock ⟨exampleCommunity 1,
      0⟩] ++ exampleLog 2 1 ++ exampleLog 1 1

/-- Two rows of one community and one of the other, both chains intact. -/
theorem chain_intact_two :
    ∃ w, (appends exampleSha256 exampleColumns exampleLock).run Appends.init exampleRun = some w
    ∧ (w.log.of (exampleCommunity 1)).length = 2 ∧ (w.log.of (exampleCommunity 2)).length = 1
    ∧ Intact exampleSha256 w.log (exampleCommunity 1) ∧
      Intact exampleSha256 w.log (exampleCommunity 2) := by
  obtain ⟨w, hw, hfirst, hsecond⟩ :
      ∃ w, (appends exampleSha256 exampleColumns exampleLock).run Appends.init exampleRun = some w
      ∧ (w.log.of (exampleCommunity 1)).length = 2 ∧ (w.log.of (exampleCommunity 2)).length = 1 :=
        ⟨_, rfl, rfl, rfl⟩
  exact ⟨w, hw, hfirst, hsecond, (chain_intact exampleColumns_faithful hw (exampleCommunity 1)).1,
    (chain_intact exampleColumns_faithful hw (exampleCommunity 2)).1⟩

end Pkzz.Audit
