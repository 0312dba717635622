import Pkzz.Mesh.Table

/-!
# One exchange of digests and deltas

A delta holds what a node knows better than the digest it answers, so a table that applies
it reaches, for every runtime but its own, the greater of the two versions, also where the
digest is older than the table. A node never learns of its own record from others.
-/

namespace Pkzz.Mesh

open Lib Pkzz.Core

variable {k : RuntimeId}

/-! ## Digests and deltas of a list of records -/

/-- The records of a table, each under its runtime. -/
structure Listed (t : RuntimeId → Option GossipRecord) (records : List GossipRecord) : Prop where
  mem_iff : ∀ record, record ∈ records ↔ t record.runtimeId = some record
  nodup : (records.map GossipRecord.runtimeId).Nodup

variable {records : List GossipRecord}

theorem mem_sortRecords {record : GossipRecord} :
    record ∈ sortRecords records ↔ record ∈ records := by
  unfold sortRecords
  exact (List.perm_insertionSort _ records).mem_iff

theorem perm_sortEntries (entries : List GossipDigestEntry) : (sortEntries entries).Perm entries :=
  List.perm_insertionSort _ entries

/-- A digest read back gives the version held for each runtime. -/
theorem remoteVersions_digest {t : RuntimeId → Option GossipRecord}
    (hkeyed : LastWins.Keyed GossipRecord.runtimeId t) (h : Listed t records) (k : RuntimeId) :
    (remoteVersions (sortEntries (records.map GossipRecord.entry))).get k =
    (t k).map GossipRecord.version := by
  have hperm := perm_sortEntries (records.map GossipRecord.entry)
  have hkeys : (((sortEntries (records.map GossipRecord.entry)).map
      fun entry => (entry.runtimeId, entry.version)).map Prod.fst).Nodup := by
    rw [List.map_map]
    refine ((hperm.map _).nodup_iff).mpr ?_
    rw [List.map_map]
    exact h.nodup
  have hmem : ∀ v, (k, v) ∈ (sortEntries (records.map GossipRecord.entry)).map
      (fun entry => (entry.runtimeId, entry.version)) ↔
        (t k).map GossipRecord.version = some v := by
    intro v
    rw [List.mem_map, Option.map_eq_some_iff]
    constructor
    · intro ⟨entry, hentry, heq⟩
      obtain ⟨record, hrecord, rfl⟩ := List.mem_map.mp (hperm.mem_iff.mp hentry)
      cases heq
      exact ⟨record, (h.mem_iff record).mp hrecord, rfl⟩
    · intro ⟨record, hrecord, hv⟩
      have hk : record.runtimeId = k := hkeyed k record hrecord
      refine ⟨record.entry, hperm.mem_iff.mpr (List.mem_map_of_mem ?_), by rw [← hk, ← hv]; rfl⟩
      exact (h.mem_iff record).mpr (hk ▸ hrecord)
  unfold remoteVersions
  rw [OrderedMap.get_collect hkeys]
  refine Option.ext fun v => ?_
  rw [← hmem]
  exact ⟨OrderedMap.mem_of_find, OrderedMap.find_of_mem hkeys⟩

/-- The delta for the digest of a table is what that table is missing. -/
theorem missing_delta {t t' : RuntimeId → Option GossipRecord} {records' : List GossipRecord}
    (h : Listed t records) (hkeyed' : LastWins.Keyed GossipRecord.runtimeId t')
    (h' : Listed t' records') :
    LastWins.Missing GossipRecord.runtimeId GossipRecord.version t (fun k => heldVersion (t' k))
      (sortRecords (records.filter (remoteLacks (remoteVersions
        (sortEntries (records'.map GossipRecord.entry)))))) := by
  intro record
  rw [mem_sortRecords, List.mem_filter, h.mem_iff]
  refine and_congr Iff.rfl ?_
  unfold remoteLacks
  rw [remoteVersions_digest hkeyed' h']
  change _ ↔ heldVersion (t' record.runtimeId) < _
  cases t' record.runtimeId with
  | none => simp
  | some held => simp

/-! ## Two membership tables -/

namespace MeshMembership

theorem listed_records (m : MeshMembership) : Listed m.recordOf m.records := by
  have hpeers : ∀ record, record ∈ m.peers.values.map PeerState.record ↔
      m.peerRecord record.runtimeId = some record := by
    intro record
    rw [List.mem_map, peerRecord, Option.map_eq_some_iff]
    constructor
    · rintro ⟨peer, hpeer, heq⟩
      obtain ⟨k, hk⟩ := OrderedMap.mem_values.mp hpeer
      rw [← heq, m.keyed k peer hk]
      exact ⟨peer, hk, rfl⟩
    · rintro ⟨peer, hpeer, heq⟩
      exact ⟨peer, OrderedMap.mem_values.mpr ⟨_, hpeer⟩, heq⟩
  constructor
  · intro record
    unfold records
    rw [List.mem_append, List.mem_singleton, hpeers]
    by_cases hk : record.runtimeId = m.localRuntimeId
    · rw [hk, recordOf_local, peerRecord_local]
      simp [eq_comm]
    rw [recordOf_foreign hk]
    refine or_iff_left ?_
    intro heq
    exact hk (heq ▸ m.local_eq)
  · unfold records
    have hkeys : (m.peers.values.map PeerState.record).map GossipRecord.runtimeId =
        m.peers.keys := by
      unfold OrderedMap.values OrderedMap.keys
      rw [List.map_map, List.map_map]
      refine List.map_congr_left fun e he => ?_
      exact m.keyed e.1 e.2 (OrderedMap.mem_entries.mp he)
    rw [List.map_append, hkeys, List.nodup_append]
    refine ⟨m.peers.nodup, List.nodup_singleton _, ?_⟩
    intro k hk k' hk'
    obtain ⟨peer, hpeer⟩ := OrderedMap.mem_keys.mp hk
    rw [List.map_singleton, List.mem_singleton, m.local_eq] at hk'
    rintro rfl
    rw [hk', m.foreign] at hpeer
    cases hpeer

/-- What `delta_for` sends for the digest of another node. -/
theorem missing_deltaRecords (m n : MeshMembership) :
    LastWins.Missing GossipRecord.runtimeId GossipRecord.version m.recordOf n.versionOf
      (m.deltaRecords n.digestEntries) :=
  missing_delta m.listed_records n.keyed_recordOf n.listed_records

variable {a b c m n : MeshMembership}

theorem versionOf_local (m : MeshMembership) :
    m.versionOf m.localRuntimeId = (m.localRecord.version : WithBot U64) := by
  unfold versionOf
  rw [recordOf_local]
  rfl

/-- **One direction.** Node `m` applies what `n` sends for a digest that `m` gave out before,
as `old`. -/
theorem versionOf_applyRecords_delta (old : MeshMembership) (hold : old.versionOf k ≤ m.versionOf k)
    (hk : k ≠ m.localRuntimeId) :
    (m.applyRecords (n.deltaRecords old.digestEntries)).versionOf k =
    m.versionOf k ⊔ n.versionOf k := by
  have hforeign : k ≠ (m.applyRecords (n.deltaRecords old.digestEntries)).localRuntimeId := by
    rw [applyRecords_localRuntimeId]
    exact hk
  have hoffer := (missing_deltaRecords n old).level_offerAll (t := m.recordOf) n.keyed_recordOf hold
  unfold versionOf at hoffer ⊢
  rw [recordOf_foreign hforeign, peerRecord_applyRecords hk, ← hoffer]
  exact congrArg heldVersion (LastWins.offerAll_congr_key (recordOf_foreign hk).symm)

/-- A node knows its own record as before. -/
theorem versionOf_local_applyRecords (m : MeshMembership) (records : List GossipRecord) :
    (m.applyRecords records).versionOf m.localRuntimeId = m.versionOf m.localRuntimeId := by
  have h := versionOf_local (m.applyRecords records)
  rw [applyRecords_localRuntimeId, applyRecords_localRecord] at h
  rw [h, versionOf_local]

/-- Two nodes that each apply the `delta_for` of the other's digest, with nothing else in
between. A digest is taken before the delta for it arrives; so either both digests are
answered before a delta is applied, or one node has applied its delta when it answers. -/
inductive Exchange (a b : MeshMembership) : MeshMembership → MeshMembership → Prop where
  | crossed : Exchange a b (a.applyRecords (b.deltaRecords a.digestEntries))
      (b.applyRecords (a.deltaRecords b.digestEntries))
  | firstApplied : Exchange a b (a.applyRecords (b.deltaRecords a.digestEntries))
      (b.applyRecords ((a.applyRecords (b.deltaRecords a.digestEntries)).deltaRecords
        b.digestEntries))
  | secondApplied : Exchange a b
      (a.applyRecords ((b.applyRecords (a.deltaRecords b.digestEntries)).deltaRecords
        a.digestEntries))
      (b.applyRecords (a.deltaRecords b.digestEntries))

variable {a' b' : MeshMembership}

theorem Exchange.symm (h : Exchange a b a' b') : Exchange b a b' a' := by
  cases h with
  | crossed => exact .crossed
  | firstApplied => exact .secondApplied
  | secondApplied => exact .firstApplied

/-- The first node after an exchange, with the state in which the second one answered it. -/
theorem Exchange.fst_eq (h : Exchange a b a' b') :
    ∃ c, a' = a.applyRecords (c.deltaRecords a.digestEntries) ∧
      (c = b ∨ c = b.applyRecords (a.deltaRecords b.digestEntries)) := by
  cases h with
  | crossed => exact ⟨b, rfl, .inl rfl⟩
  | firstApplied => exact ⟨b, rfl, .inl rfl⟩
  | secondApplied => exact ⟨_, rfl, .inr rfl⟩

/-- After an exchange a node knows the greater version of every runtime but its own. -/
theorem Exchange.versionOf_fst (h : Exchange a b a' b') (hk : k ≠ a.localRuntimeId) :
    a'.versionOf k = a.versionOf k ⊔ b.versionOf k := by
  obtain ⟨c, rfl, hc⟩ := h.fst_eq
  rw [versionOf_applyRecords_delta a (le_refl _) hk]
  rcases hc with rfl | rfl
  · rfl
  -- the other side knows what it knew, or what `a` told it
  by_cases hb : k = b.localRuntimeId
  · rw [hb, versionOf_local_applyRecords]
  · rw [versionOf_applyRecords_delta b (le_refl _) hb, sup_comm (b.versionOf k),
      ← sup_assoc, sup_idem]

theorem Exchange.localRecord_fst (h : Exchange a b a' b') :
    a'.localRuntimeId = a.localRuntimeId ∧ a'.localRecord = a.localRecord := by
  obtain ⟨c, rfl, -⟩ := h.fst_eq
  exact ⟨applyRecords_localRuntimeId _ _, applyRecords_localRecord _ _⟩

theorem Exchange.versionOf_local_fst (h : Exchange a b a' b') :
    a'.versionOf a.localRuntimeId = a.versionOf a.localRuntimeId := by
  obtain ⟨c, rfl, -⟩ := h.fst_eq
  exact versionOf_local_applyRecords _ _

/-- A node ends level with the greater version of every runtime, if and only if the other
held no newer record of it than its own. -/
theorem Exchange.fst_level_iff (h : Exchange a b a' b') :
    (∀ k, a'.versionOf k = a.versionOf k ⊔ b.versionOf k) ↔
      b.versionOf a.localRuntimeId ≤ a.versionOf a.localRuntimeId := by
  constructor
  · intro hall
    have hown := hall a.localRuntimeId
    rw [h.versionOf_local_fst] at hown
    exact left_eq_sup.mp hown
  · intro hle k
    by_cases hk : k = a.localRuntimeId
    · rw [hk, h.versionOf_local_fst]
      exact left_eq_sup.mpr hle
    · exact h.versionOf_fst hk

/-- A node sends nothing exactly when the other knows every runtime as well as it does. -/
theorem deltaRecords_eq_nil_iff (m n : MeshMembership) :
    m.deltaRecords n.digestEntries = [] ↔ ∀ k, m.versionOf k ≤ n.versionOf k :=
  (missing_deltaRecords m n).eq_nil_iff m.keyed_recordOf

/-- Synchronised nodes exchange empty deltas. -/
theorem deltaFor_of_level (h : ∀ k, m.versionOf k = n.versionOf k) :
    m.deltaFor n.digestEntries = .delta gossipPayloadVersion [] := by
  unfold deltaFor
  rw [(deltaRecords_eq_nil_iff m n).mpr fun k => (h k).le]

end MeshMembership

/-! ## `GossipState` -/

namespace GossipState

variable {s s' : GossipState} {record : GossipRecord} {records : List GossipRecord}

def versionOf (s : GossipState) (k : RuntimeId) : WithBot U64 := heldVersion (s.get k)

theorem keyed_get (s : GossipState) : LastWins.Keyed GossipRecord.runtimeId s.get := s.keyed

theorem listed_records (s : GossipState) : Listed s.get s.records.values := by
  constructor
  · intro record
    rw [OrderedMap.mem_values]
    constructor
    · intro ⟨k, hk⟩
      rw [s.keyed k record hk]
      exact hk
    · intro h
      exact ⟨record.runtimeId, h⟩
  · have hkeys : s.records.values.map GossipRecord.runtimeId = s.records.keys := by
      unfold OrderedMap.values OrderedMap.keys
      rw [List.map_map]
      refine List.map_congr_left fun e he => ?_
      exact s.keyed e.1 e.2 (OrderedMap.mem_entries.mp he)
    rw [hkeys]
    exact s.records.nodup

/-- A record is applied where it is newer than what is held. -/
theorem applyRecord_eq (s : GossipState) (record : GossipRecord) :
    s.applyRecord record =
      if s.versionOf record.runtimeId < (record.version : WithBot U64) then
        (s.insert record, [record.runtimeId])
      else (s, []) := by
  unfold applyRecord versionOf GossipState.get
  cases s.records.get record.runtimeId with
  | none => simp
  | some held => simp

theorem get_applyRecord (s : GossipState) (record : GossipRecord) :
    (s.applyRecord record).1.get =
    LastWins.offer GossipRecord.runtimeId GossipRecord.version s.get record := by
  funext k
  have hinsert : (s.insert record).get k = if k = record.runtimeId then some record else s.get k :=
    OrderedMap.get_set ..
  rw [applyRecord_eq, LastWins.offer]
  unfold versionOf
  by_cases hk : record.runtimeId = k
  · subst hk
    rw [if_pos rfl] at hinsert ⊢
    cases hheld : s.get record.runtimeId with
    | none =>
      rw [if_pos (by simp)]
      exact hinsert
    | some held =>
      rw [LastWins.newer]
      by_cases hle : record.version ≤ held.version
      · rw [if_pos hle, if_neg (by simpa using hle)]
        exact hheld
      · rw [if_neg hle, if_pos (by simpa using hle)]
        exact hinsert
  · rw [if_neg hk]
    rw [if_neg (Ne.symm hk)] at hinsert
    split
    · exact hinsert
    · rfl

/-- `apply_delta` is one offer after the other. -/
theorem get_applyDelta (s : GossipState) (records : List GossipRecord) :
    (s.applyDelta records).1.get =
      LastWins.offerAll GossipRecord.runtimeId GossipRecord.version s.get records := by
  have hfold : ∀ step : GossipState × List RuntimeId → GossipRecord → GossipState × List RuntimeId,
      (∀ acc record, (step acc record).1 = (acc.1.applyRecord record).1) →
      ∀ (records : List GossipRecord) (acc : GossipState × List RuntimeId),
      (records.foldl step acc).1.get =
        LastWins.offerAll GossipRecord.runtimeId GossipRecord.version acc.1.get records := by
    intro step hstep records
    induction records with
    | nil => intro acc; rfl
    | cons record records ih =>
      intro acc
      rw [List.foldl_cons, ih, LastWins.offerAll_cons, hstep]
      exact congrArg (LastWins.offerAll _ _ · records) (get_applyRecord acc.1 record)
  refine hfold _ ?_ records (s, [])
  intro acc record
  rfl

theorem missing_deltaRecords (s s' : GossipState) :
    LastWins.Missing GossipRecord.runtimeId GossipRecord.version s.get s'.versionOf
      (s.deltaRecords s'.digestEntries) :=
  missing_delta s.listed_records s'.keyed_get s'.listed_records

/-- The pure table refuses nothing, so it reaches the greater version of every runtime. -/
theorem versionOf_applyDelta (old : GossipState) (hold : old.versionOf k ≤ s.versionOf k) :
    (s.applyDelta (s'.deltaRecords old.digestEntries)).1.versionOf k =
    s.versionOf k ⊔ s'.versionOf k := by
  have hoffer := (missing_deltaRecords s' old).level_offerAll (t := s.get) s'.keyed_get hold
  unfold versionOf at hoffer ⊢
  rw [get_applyDelta]
  exact hoffer

theorem deltaRecords_eq_nil_iff (s s' : GossipState) :
    s.deltaRecords s'.digestEntries = [] ↔ ∀ k, s.versionOf k ≤ s'.versionOf k :=
  (missing_deltaRecords s s').eq_nil_iff s.keyed_get

end GossipState

end Pkzz.Mesh
