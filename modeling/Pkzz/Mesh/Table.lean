import Pkzz.Lib.LastWins
import Pkzz.Mesh.Gossip

/-!
# The table as a function of what was received

`apply_gossip_record` refuses a record of the local runtime. For every other runtime it is
one offer to a table in which the last version wins, so what a run of the table's operations
leaves there depends on the set of records that were offered, and the local record depends
on the local updates alone.
-/

namespace Pkzz.Mesh

open Lib Pkzz.Core

/-- The records of a table and their versions. -/
abbrev Latest (known : GossipRecord → Prop) (k : RuntimeId) (record : GossipRecord) : Prop :=
  LastWins.IsLatest GossipRecord.runtimeId GossipRecord.version known k record

/-- Records of one runtime with equal versions are equal. -/
abbrev OneRecordPerVersion (known : GossipRecord → Prop) : Prop :=
  LastWins.Consistent GossipRecord.runtimeId GossipRecord.version known

/-- The version of what is held for a runtime; nothing is below every version. -/
abbrev heldVersion (held : Option GossipRecord) : WithBot U64 :=
  LastWins.level GossipRecord.version held

namespace MeshMembership

/-- What the peer table holds for a runtime. -/
def peerRecord (m : MeshMembership) (k : RuntimeId) : Option GossipRecord :=
  (m.peers.get k).map PeerState.record

/-- What a node knows of a runtime. -/
def recordOf (m : MeshMembership) (k : RuntimeId) : Option GossipRecord :=
  if k = m.localRuntimeId then some m.localRecord else m.peerRecord k

/-- The version of a runtime that a node knows. -/
def versionOf (m : MeshMembership) (k : RuntimeId) : WithBot U64 := heldVersion (m.recordOf k)

variable {m n : MeshMembership} {k : RuntimeId} {record x : GossipRecord}
    {records : List GossipRecord}

theorem recordOf_local (m : MeshMembership) : m.recordOf m.localRuntimeId = some m.localRecord :=
  if_pos rfl

theorem recordOf_foreign (hk : k ≠ m.localRuntimeId) : m.recordOf k = m.peerRecord k := if_neg hk

theorem keyed_peerRecord (m : MeshMembership) :
    LastWins.Keyed GossipRecord.runtimeId m.peerRecord := by
  intro k record h
  obtain ⟨peer, hp, hpr⟩ := Option.map_eq_some_iff.mp h
  rw [← hpr]
  exact m.keyed k peer hp

theorem keyed_recordOf (m : MeshMembership) : LastWins.Keyed GossipRecord.runtimeId m.recordOf := by
  intro k record h
  by_cases hk : k = m.localRuntimeId
  · rw [hk, recordOf_local] at h
    rw [hk, ← Option.some.inj h]
    exact m.local_eq
  · rw [recordOf_foreign hk] at h
    exact m.keyed_peerRecord k record h

theorem peerRecord_local (m : MeshMembership) : m.peerRecord m.localRuntimeId = none := by
  unfold peerRecord
  rw [m.foreign]
  rfl

theorem peerRecord_insertPeer (m : MeshMembership) (peer : PeerState)
    (h : peer.record.runtimeId ≠ m.localRuntimeId) (k : RuntimeId) :
    (m.insertPeer peer h).peerRecord k = if k = peer.record.runtimeId then
    some peer.record else m.peerRecord k := by
  unfold peerRecord insertPeer
  rw [OrderedMap.get_set]
  split <;> rfl

/-! ## `apply_gossip_record` -/

/-- What one call changes: nothing but the table, and there what one offer changes. -/
structure Applied (m : MeshMembership) (record : GossipRecord) (m' : MeshMembership) : Prop where
  localRuntimeId : m'.localRuntimeId = m.localRuntimeId
  localRecord : m'.localRecord = m.localRecord
  draining : m'.draining = m.draining
  expectedRelayPubkey : m'.expectedRelayPubkey = m.expectedRelayPubkey
  peerRecord : ∀ k, k ≠ m.localRuntimeId →
    m'.peerRecord k = LastWins.offer GossipRecord.runtimeId GossipRecord.version
      m.peerRecord record k

theorem applied_applyGossipRecord (m : MeshMembership) (record : GossipRecord) :
    Applied m record (m.applyGossipRecord record).1 := by
  unfold applyGossipRecord
  by_cases hlocal : record.runtimeId = m.localRuntimeId
  · rw [dif_pos hlocal]
    refine ⟨rfl, rfl, rfl, rfl, fun k hk => ?_⟩
    rw [LastWins.offer, if_neg]
    intro h
    exact hk (h.symm.trans hlocal)
  · rw [dif_neg hlocal]
    cases hp : m.peers.get record.runtimeId with
    | none =>
      refine ⟨rfl, rfl, rfl, rfl, fun k _ => ?_⟩
      simp only [peerRecord_insertPeer]
      rw [LastWins.offer]
      by_cases hk : record.runtimeId = k
      · rw [if_pos hk.symm, if_pos hk, peerRecord, ← hk, hp]
        rfl
      · rw [if_neg (Ne.symm hk), if_neg hk]
    | some peer =>
      simp only []
      have hheld : m.peerRecord record.runtimeId = some peer.record := by
        rw [peerRecord, hp]
        rfl
      by_cases hle : record.version ≤ peer.record.version
      · rw [if_pos hle]
        refine ⟨rfl, rfl, rfl, rfl, fun k _ => ?_⟩
        rw [LastWins.offer]
        by_cases hk : record.runtimeId = k
        · rw [if_pos hk, ← hk, hheld, LastWins.newer, if_pos hle]
        · rw [if_neg hk]
      · rw [if_neg hle]
        refine ⟨rfl, rfl, rfl, rfl, fun k _ => ?_⟩
        simp only [peerRecord_insertPeer]
        rw [LastWins.offer]
        by_cases hk : record.runtimeId = k
        · rw [if_pos hk.symm, if_pos hk, ← hk, hheld, LastWins.newer, if_neg hle]
        · rw [if_neg (Ne.symm hk), if_neg hk]

/-! ## The loop over a delta -/

theorem applyRecords_cons :
    m.applyRecords (record :: records) = (m.applyGossipRecord record).1.applyRecords records := rfl

@[simp] theorem applyRecords_localRuntimeId (m : MeshMembership) (records : List GossipRecord) :
    (m.applyRecords records).localRuntimeId = m.localRuntimeId := by
  induction records generalizing m with
  | nil => rfl
  | cons record records ih =>
      rw [applyRecords_cons, ih, (applied_applyGossipRecord m record).localRuntimeId]

@[simp] theorem applyRecords_localRecord (m : MeshMembership) (records : List GossipRecord) :
    (m.applyRecords records).localRecord = m.localRecord := by
  induction records generalizing m with
  | nil => rfl
  | cons record records ih =>
      rw [applyRecords_cons, ih, (applied_applyGossipRecord m record).localRecord]

theorem applyRecords_expectedRelayPubkey (m : MeshMembership) (records : List GossipRecord) :
    (m.applyRecords records).expectedRelayPubkey = m.expectedRelayPubkey := by
  induction records generalizing m with
  | nil => rfl
  | cons record records ih =>
      rw [applyRecords_cons, ih, (applied_applyGossipRecord m record).expectedRelayPubkey]

theorem peerRecord_applyRecords (hk : k ≠ m.localRuntimeId) (records : List GossipRecord) :
    (m.applyRecords records).peerRecord k =
      LastWins.offerAll GossipRecord.runtimeId GossipRecord.version m.peerRecord records k := by
  induction records generalizing m with
  | nil => rfl
  | cons record records ih =>
    have happ := applied_applyGossipRecord m record
    rw [applyRecords_cons, LastWins.offerAll_cons, ih (by rw [happ.localRuntimeId]; exact hk)]
    exact LastWins.offerAll_congr_key (happ.peerRecord k hk)

/-- A message is dropped, answered from the table, or applied to it. -/
theorem receive_cases (m : MeshMembership) (message : GossipMessage) :
    m.receive message = (m, none) ∨
      (∃ entries, m.receive message = (m, some (m.deltaFor entries))) ∨
      ∃ records, message = .delta gossipPayloadVersion records ∧
        m.receive message = (m.applyRecords records, none) := by
  cases message with
  | digest version entries =>
    by_cases hv : version = gossipPayloadVersion
    · exact .inr (.inl ⟨entries, if_neg (not_not.mpr hv)⟩)
    · exact .inl (if_pos hv)
  | delta version records =>
    by_cases hv : version = gossipPayloadVersion
    · exact .inr (.inr ⟨records, by rw [hv], if_neg (not_not.mpr hv)⟩)
    · exact .inl (if_pos hv)

end MeshMembership

/-! ## Runs of one node -/

/-- The operations of a membership table. -/
inductive NodeEvent where
  | gossip (record : GossipRecord)
  | seed (ready : ReadyRecord) (now : U64)
  | connection (runtimeId : RuntimeId) (state : ConnectionState)
  | update (u : LocalUpdate) (now : U64)
  | drain (now : U64)

namespace NodeEvent

/-- The operations of the local runtime on its own record. -/
def isLocal : NodeEvent → Bool
  | update .. | drain .. => true
  | _ => false

variable (verifySig : RuntimeId → String → String → Bool)

def apply (m : MeshMembership) : NodeEvent → MeshMembership
  | gossip record => (m.applyGossipRecord record).1
  | seed ready now => m.applyReadyRecord verifySig ready now
  | connection runtimeId state => m.markConnectionState runtimeId state
  | update u now => m.updateLocal u now
  | drain now => m.beginDrain now

def run (m : MeshMembership) (es : List NodeEvent) : MeshMembership := es.foldl (apply verifySig) m

/-- A ready record that enters the table: its key is the expected one and its attestation
verifies. -/
def admits (expected : Option String) (ready : ReadyRecord) : Bool :=
  expected = some ready.relayPubkey && ready.verifyAttestation verifySig

/-- The records an operation offers to the table. -/
def offers (expected : Option String) : NodeEvent → List GossipRecord
  | gossip record => [record]
  | seed ready now => if admits verifySig expected ready then [ready.hint now] else []
  | _ => []

end NodeEvent

namespace MeshMembership

variable {verifySig : RuntimeId → String → String → Bool} {m : MeshMembership} {k : RuntimeId}

/-- A seed of the local runtime is skipped before its key is looked at; as a gossip record it
would be refused. -/
theorem applyReadyRecord_eq (m : MeshMembership) (ready : ReadyRecord) (now : U64) :
    m.applyReadyRecord verifySig ready now =
      if NodeEvent.admits verifySig m.expectedRelayPubkey ready then
        (m.applyGossipRecord (ready.hint now)).1
      else m := by
  unfold applyReadyRecord NodeEvent.admits
  by_cases hlocal : ready.runtimeId = m.localRuntimeId
  · have hrefused : (m.applyGossipRecord (ready.hint now)).1 = m := by
      unfold applyGossipRecord
      exact congrArg Prod.fst (dif_pos hlocal)
    rw [if_pos hlocal, hrefused, ite_self]
  · rw [if_neg hlocal]
    by_cases hkey : m.expectedRelayPubkey = some ready.relayPubkey
    · by_cases hsig : ready.verifyAttestation verifySig = true
      · simp [hkey, hsig]
      · simp [hkey, hsig]
    · simp [hkey]

theorem peerRecord_markConnectionState (m : MeshMembership) (runtimeId : RuntimeId)
    (state : ConnectionState) :
    (m.markConnectionState runtimeId state).peerRecord = m.peerRecord := by
  funext k
  unfold markConnectionState
  split
  · rfl
  rename_i peer hp
  rw [peerRecord_insertPeer]
  have hkey : peer.record.runtimeId = runtimeId := m.keyed _ _ hp
  split
  · rename_i hk
    rw [peerRecord, hk.trans hkey, hp]
    rfl
  · rfl

/-- What one operation of any kind does. -/
structure Stepped (m : MeshMembership) (offered : List GossipRecord)
    (m' : MeshMembership) : Prop where
  localRuntimeId : m'.localRuntimeId = m.localRuntimeId
  expectedRelayPubkey : m'.expectedRelayPubkey = m.expectedRelayPubkey
  peerRecord : ∀ k, k ≠ m.localRuntimeId →
    m'.peerRecord k = LastWins.offerAll GossipRecord.runtimeId GossipRecord.version
      m.peerRecord offered k

theorem stepped_apply (m : MeshMembership) (e : NodeEvent) :
    Stepped m (e.offers verifySig m.expectedRelayPubkey) (e.apply verifySig m) := by
  cases e with
  | gossip record =>
    have h := applied_applyGossipRecord m record
    exact ⟨h.localRuntimeId, h.expectedRelayPubkey, h.peerRecord⟩
  | seed ready now =>
    simp only [NodeEvent.apply, applyReadyRecord_eq, NodeEvent.offers]
    split
    · have h := applied_applyGossipRecord m (ready.hint now)
      exact ⟨h.localRuntimeId, h.expectedRelayPubkey, h.peerRecord⟩
    · exact ⟨rfl, rfl, fun _ _ => rfl⟩
  | connection runtimeId state =>
    have h := peerRecord_markConnectionState m runtimeId state
    have hid : (m.markConnectionState runtimeId state).localRuntimeId = m.localRuntimeId ∧
        (m.markConnectionState runtimeId state).expectedRelayPubkey = m.expectedRelayPubkey := by
      unfold markConnectionState
      split <;> exact ⟨rfl, rfl⟩
    exact ⟨hid.1, hid.2, fun k _ => congrFun h k⟩
  | update u now => exact ⟨rfl, rfl, fun _ _ => rfl⟩
  | drain now => exact ⟨rfl, rfl, fun _ _ => rfl⟩

/-- A run is a step of everything it offered. -/
theorem stepped_run (m : MeshMembership) (es : List NodeEvent) :
    Stepped m (es.flatMap (NodeEvent.offers verifySig m.expectedRelayPubkey))
      (NodeEvent.run verifySig m es) := by
  induction es generalizing m with
  | nil => exact ⟨rfl, rfl, fun _ _ => rfl⟩
  | cons e es ih =>
    have hstep : Stepped m (e.offers verifySig m.expectedRelayPubkey) (e.apply verifySig m) :=
      stepped_apply m e
    have hrun := ih (e.apply verifySig m)
    rw [hstep.expectedRelayPubkey] at hrun
    refine ⟨hrun.localRuntimeId.trans hstep.localRuntimeId,
      hrun.expectedRelayPubkey.trans hstep.expectedRelayPubkey, fun k hk => ?_⟩
    rw [List.flatMap_cons, LastWins.offerAll_append]
    refine (hrun.peerRecord k (by rw [hstep.localRuntimeId]; exact hk)).trans ?_
    exact LastWins.offerAll_congr_key (hstep.peerRecord k hk)

theorem localRecord_apply (m : MeshMembership) {e : NodeEvent} (h : e.isLocal = false) :
    (e.apply verifySig m).localRecord = m.localRecord := by
  cases e with
  | gossip record => exact (applied_applyGossipRecord m record).localRecord
  | seed ready now =>
    rw [NodeEvent.apply, applyReadyRecord_eq]
    split
    · exact (applied_applyGossipRecord m _).localRecord
    · rfl
  | connection runtimeId state =>
    simp only [NodeEvent.apply, markConnectionState]
    split <;> rfl
  | update u now => cases h
  | drain now => cases h

theorem localRecord_apply_congr {m n : MeshMembership} (h : m.localRecord = n.localRecord)
    {e : NodeEvent}
    (he : e.isLocal = true) :
    (e.apply verifySig m).localRecord = (e.apply verifySig n).localRecord := by
  cases e with
  | update u now => simp only [NodeEvent.apply, updateLocal, h]
  | drain now => simp only [NodeEvent.apply, beginDrain, updateLocal, h]
  | gossip record => cases he
  | seed ready now => cases he
  | connection runtimeId state => cases he

/-- The local record is what the local updates made of it. -/
theorem localRecord_run {m n : MeshMembership} (h : m.localRecord = n.localRecord)
    (es : List NodeEvent) : (NodeEvent.run verifySig m es).localRecord =
      (NodeEvent.run verifySig n (es.filter NodeEvent.isLocal)).localRecord := by
  induction es generalizing m n with
  | nil => exact h
  | cons e es ih =>
    cases he : e.isLocal with
    | false =>
      rw [List.filter_cons_of_neg (by rw [he]; exact Bool.false_ne_true)]
      exact ih ((localRecord_apply m he).trans h)
    | true =>
      rw [List.filter_cons_of_pos he]
      exact ih (localRecord_apply_congr h he)

end MeshMembership

end Pkzz.Mesh
