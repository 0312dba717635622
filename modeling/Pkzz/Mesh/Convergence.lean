import Pkzz.Mesh.Owners

/-!
# Gossip converges

What a table holds for a foreign runtime is the greatest version it received; two nodes that
exchange digests and deltas end with the greater version of every runtime, provided neither
held a newer record of the other than the other itself, as in every mesh in which only the
owner of a record counts it up.
-/

namespace Pkzz.Mesh

open Lib Pkzz.Core

namespace MeshMembership

variable {verifySig : RuntimeId → String → String → Bool} {m a b a' b' : MeshMembership}
    {k : RuntimeId}

/-- The records that a run of operations offers to the table. -/
def received (verifySig : RuntimeId → String → String → Bool) (m : MeshMembership)
    (es : List NodeEvent) : List GossipRecord :=
  es.flatMap (NodeEvent.offers verifySig m.expectedRelayPubkey)

/-- What the table of a node held or was offered. -/
abbrev known (verifySig : RuntimeId → String → String → Bool) (m : MeshMembership)
    (es : List NodeEvent) (record : GossipRecord) : Prop :=
  LastWins.Known m.peerRecord (m.received verifySig es) record

theorem peerRecord_run (hk : k ≠ m.localRuntimeId) (es : List NodeEvent) :
    (NodeEvent.run verifySig m es).peerRecord k =
      LastWins.offerAll GossipRecord.runtimeId GossipRecord.version m.peerRecord
        (m.received verifySig es) k :=
  (stepped_run m es).peerRecord k hk

theorem peerRecord_run_local (m : MeshMembership) (es : List NodeEvent) :
    (NodeEvent.run verifySig m es).peerRecord m.localRuntimeId = none := by
  have h := peerRecord_local (NodeEvent.run verifySig m es)
  rw [(stepped_run m es).localRuntimeId] at h
  exact h

/-- The latest record received of each foreign runtime, and no other. -/
theorem peerRecord_run_eq_some_iff {es : List NodeEvent}
    (hone : OneRecordPerVersion (m.known verifySig es))
    (hk : k ≠ m.localRuntimeId) {record : GossipRecord} :
    (NodeEvent.run verifySig m es).peerRecord k = some record ↔ Latest
    (m.known verifySig es) k record := by
  rw [peerRecord_run hk]
  exact LastWins.offerAll_eq_some_iff m.keyed_peerRecord hone

/-- Runs that receive the same records leave the same table. -/
theorem peerRecord_run_congr {es es' : List NodeEvent}
    (hone : OneRecordPerVersion (m.known verifySig es))
    (hsame : ∀ record, record ∈ m.received verifySig es ↔ record ∈ m.received verifySig es')
    (k : RuntimeId) :
    (NodeEvent.run verifySig m es).peerRecord k = (NodeEvent.run verifySig m es').peerRecord k := by
  by_cases hk : k = m.localRuntimeId
  · rw [hk, peerRecord_run_local, peerRecord_run_local]
  · rw [peerRecord_run hk, peerRecord_run hk, LastWins.offerAll_congr m.keyed_peerRecord hone hsame]

/-- Both nodes are level with the greater version of every runtime. -/
def BothLevel (a b a' b' : MeshMembership) : Prop :=
  ∀ k, a'.versionOf k = a.versionOf k ⊔ b.versionOf k ∧
    b'.versionOf k = a.versionOf k ⊔ b.versionOf k

/-- Neither node holds a newer record of the other than the other's own. -/
def NeitherAhead (a b : MeshMembership) : Prop :=
  b.versionOf a.localRuntimeId ≤ a.versionOf a.localRuntimeId ∧
    a.versionOf b.localRuntimeId ≤ b.versionOf b.localRuntimeId

theorem Exchange.versionOf_snd (h : Exchange a b a' b') (hk : k ≠ b.localRuntimeId) :
    b'.versionOf k = a.versionOf k ⊔ b.versionOf k := by
  rw [h.symm.versionOf_fst hk, sup_comm]

theorem Exchange.bothLevel_iff (h : Exchange a b a' b') : BothLevel a b a' b' ↔
    NeitherAhead a b := by
  unfold BothLevel NeitherAhead
  rw [forall_and, ← h.fst_level_iff, ← h.symm.fst_level_iff]
  refine and_congr Iff.rfl (forall_congr' fun k => ?_)
  rw [sup_comm]

/-- In a mesh whose owners lead, an exchange brings any two nodes level. -/
theorem Exchange.bothLevel_of_reachable (h : Exchange a b a' b') {s : Network} {i j : RuntimeId}
    (hs : Network.Reachable verifySig s) (ha : s.node i = some a) (hb : s.node j = some b) :
    BothLevel a b a' b' :=
  h.bothLevel_iff.mpr ⟨Network.versionOf_le_own hs ha hb, Network.versionOf_le_own hs hb ha⟩

/-- **Gossip converges.** The peer table is a last-version-wins map of what was received; an
exchange ends with the greater versions where nobody is ahead of an owner, and the owners of
every mesh lead; where nothing is missing, nothing is sent. -/
theorem gossip_converges (verifySig : RuntimeId → String → String → Bool) (m : MeshMembership)
    (es es' : List NodeEvent) (hx : Exchange a b a' b') :
    (OneRecordPerVersion (m.known verifySig es) →
      (∀ k, k ≠ m.localRuntimeId → ∀ record,
        (NodeEvent.run verifySig m es).peerRecord k = some record ↔ Latest
          (m.known verifySig es) k record) ∧
      ((∀ record, record ∈ m.received verifySig es ↔ record ∈ m.received verifySig es') →
        ∀ k, (NodeEvent.run verifySig m es).peerRecord k =
          (NodeEvent.run verifySig m es').peerRecord k)) ∧
    (NodeEvent.run verifySig m es).localRecord =
      (NodeEvent.run verifySig m (es.filter NodeEvent.isLocal)).localRecord ∧
    ((∀ k, k ≠ a.localRuntimeId → a'.versionOf k = a.versionOf k ⊔ b.versionOf k) ∧
      (∀ k, k ≠ b.localRuntimeId → b'.versionOf k = a.versionOf k ⊔ b.versionOf k) ∧
      a'.localRecord = a.localRecord ∧ b'.localRecord = b.localRecord) ∧
    (BothLevel a b a' b' ↔ NeitherAhead a b) ∧
    (∀ s i j, Network.Reachable verifySig s → s.node i = some a → s.node j = some b →
      BothLevel a b a' b') ∧
    ((∀ k, a.versionOf k = b.versionOf k) →
      a.deltaFor b.digestEntries = .delta gossipPayloadVersion [] ∧
        b.deltaFor a.digestEntries = .delta gossipPayloadVersion []) := by
  refine ⟨fun hone => ⟨?_, ?_⟩, localRecord_run rfl es,
    ⟨?_, ?_, hx.localRecord_fst.2, hx.symm.localRecord_fst.2⟩, hx.bothLevel_iff, ?_, ?_⟩
  · intro k hk record
    exact peerRecord_run_eq_some_iff hone hk
  · intro hsame k
    exact peerRecord_run_congr hone hsame k
  · intro k hk
    exact hx.versionOf_fst hk
  · intro k hk
    exact hx.versionOf_snd hk
  · intro s i j hs ha hb
    exact hx.bothLevel_of_reachable hs ha hb
  · intro hlevel
    exact ⟨deltaFor_of_level hlevel, deltaFor_of_level fun k => (hlevel k).symm⟩

/-- A record of version `version` of the runtime numbered `n`. -/
def sampleRecord (n : Nat) (version : U64) : GossipRecord :=
  { GossipRecord.new (FixedBytes.ofNat 32 n) ["127.0.0.1:3478"] 1 0 with version }

/-- Node 1 hears of node 2 twice, the older record last; nodes 1 and 3 exchange and are level. -/
theorem gossip_converges_sample :
    let m := MeshMembership.new (sampleRecord 1 1)
    let es := [NodeEvent.gossip (sampleRecord 2 5), NodeEvent.gossip (sampleRecord 2 4)]
    let b := MeshMembership.new (sampleRecord 3 7)
    (NodeEvent.run (fun _ _ _ => true) m es).peerRecord (FixedBytes.ofNat 32 2) = some
    (sampleRecord 2 5) ∧
      BothLevel m b (m.applyRecords (b.deltaRecords m.digestEntries))
        (b.applyRecords (m.deltaRecords b.digestEntries)) := by
  intro m es b
  have hne : FixedBytes.ofNat 32 2 ≠ m.localRuntimeId := by decide
  have hreceived : ∀ record, m.known (fun _ _ _ => true) es record ↔
      record ∈ [sampleRecord 2 5, sampleRecord 2 4] :=
    fun record => or_iff_right fun ⟨k, hk⟩ => by cases hk
  have hone : OneRecordPerVersion (m.known (fun _ _ _ => true) es) := by
    intro x y hx hy _ hversion
    rw [hreceived, List.mem_pair] at hx hy
    rcases hx with rfl | rfl <;> rcases hy with rfl | rfl
    · rfl
    · exact absurd hversion (by decide)
    · exact absurd hversion (by decide)
    · rfl
  have hall := gossip_converges (fun _ _ _ => true) m es es (Exchange.crossed (a := m) (b := b))
  refine ⟨((hall.1 hone).1 _ hne _).mpr ⟨?_, rfl, ?_⟩, hall.2.2.2.1.mpr ⟨bot_le, bot_le⟩⟩
  · exact (hreceived _).mpr List.mem_cons_self
  · intro y hy _
    rw [hreceived, List.mem_pair] at hy
    rcases hy with rfl | rfl
    · exact le_refl _
    · decide

/-- A node that holds a newer record of another node than that node's own cannot bring it
level: the owner refuses the record. -/
theorem not_gossip_converges :
    ¬ ∀ a b a' b' : MeshMembership, Exchange a b a' b' → BothLevel a b a' b' := by
  intro h
  have hahead := (Exchange.bothLevel_iff Exchange.crossed).mp
      (h (MeshMembership.new (sampleRecord 1 1))
    ((MeshMembership.new (sampleRecord 2 1)).applyRecords [sampleRecord 1 5]) _ _ .crossed)
  exact absurd (WithBot.coe_le_coe.mp hahead.1) (by decide)

end MeshMembership

namespace GossipState

/-- The pure table has no record of its own to refuse: an exchange always ends level, in any
order of the two answers. -/
theorem applyDelta_level (a b : GossipState) (k : RuntimeId) :
    let a' := (a.applyDelta (b.deltaRecords a.digestEntries)).1
    a'.versionOf k = a.versionOf k ⊔ b.versionOf k ∧
      (b.applyDelta (a.deltaRecords b.digestEntries)).1.versionOf k =
        a.versionOf k ⊔ b.versionOf k ∧
      (b.applyDelta (a'.deltaRecords b.digestEntries)).1.versionOf k =
        a.versionOf k ⊔ b.versionOf k := by
  have hfirst : (a.applyDelta (b.deltaRecords a.digestEntries)).1.versionOf k =
      a.versionOf k ⊔ b.versionOf k :=
    versionOf_applyDelta a (le_refl _)
  refine ⟨hfirst, ?_, ?_⟩
  · rw [versionOf_applyDelta b (le_refl _), sup_comm]
  · rw [versionOf_applyDelta b (le_refl _), hfirst, sup_comm, sup_assoc, sup_idem]

end GossipState

end Pkzz.Mesh
