import Mathlib.Logic.Relation
import Pkzz.Mesh.Exchange

/-!
# A mesh in which only owners count up

Runtimes start with version 1 of their own record, seeds from the registry enter as version
1, and only `update_local` counts a version up. Over any network (messages lost, repeated,
out of order) no node then holds a newer record of a runtime than that runtime itself, so
the refusal of records of the local runtime costs an exchange nothing.
-/

namespace Pkzz.Mesh

open Lib Pkzz.Core

/-- The nodes of a mesh and every gossip message ever sent. -/
structure Network where
  node : RuntimeId → Option MeshMembership
  sent : List GossipMessage

namespace Network

def init : Network := ⟨fun _ => none, []⟩

/-- A network in which one node has moved on and messages may have been sent. -/
def setNode (s : Network) (k : RuntimeId) (m : MeshMembership)
    (messages : List GossipMessage) : Network :=
  ⟨Function.update s.node k (some m), messages ++ s.sent⟩

variable (verifySig : RuntimeId → String → String → Bool)

/-- The steps of a mesh. A message stays in `sent`, so it can arrive late, twice or never. -/
inductive Step : Network → Network → Prop where
  /-- A runtime boots: its id is new and its record is a `GossipRecord::new`. -/
  | start {s : Network} (record : GossipRecord) (expected : Option String)
      (hnew : s.node record.runtimeId = none) (hversion : record.version = 1) :
      Step s (s.setNode record.runtimeId
        { MeshMembership.new record with expectedRelayPubkey := expected } [])
  /-- A seed from the registry, a change of a connection, an update or a drain. -/
  | operate {s : Network} {k : RuntimeId} {m : MeshMembership} (e : NodeEvent)
      (he : ∀ record, e ≠ .gossip record) (hnode : s.node k = some m) :
      Step s (s.setNode k (e.apply verifySig m) [])
  /-- `gossip_tick_loop`: the heartbeat, then the digest. -/
  | tick {s : Network} {k : RuntimeId} {m : MeshMembership} (now : U64)
      (hnode : s.node k = some m) :
      Step s (s.setNode k (m.updateLocal .heartbeat now) [(m.updateLocal .heartbeat now).digest])
  /-- A message arrives; a digest is answered. -/
  | deliver {s : Network} {k : RuntimeId} {m : MeshMembership} {message : GossipMessage}
      (hsent : message ∈ s.sent) (hnode : s.node k = some m) :
      Step s (s.setNode k (m.receive message).1 (m.receive message).2.toList)

def Reachable (s : Network) : Prop := Relation.ReflTransGen (Step verifySig) init s

/-- The version a runtime has reached; one that has not booted may be seeded with version 1. -/
def lead (s : Network) (k : RuntimeId) : U64 :=
  match s.node k with
  | none => 1
  | some m => m.localRecord.version

/-- No record is ahead of its runtime. -/
structure OwnersLead (s : Network) : Prop where
  node_id : ∀ k m, s.node k = some m → m.localRuntimeId = k
  started : ∀ k, 1 ≤ s.lead k
  table : ∀ k m, s.node k = some m → ∀ record, m.peerRecord record.runtimeId = some record →
    record.version ≤ s.lead record.runtimeId
  wire : ∀ version records, GossipMessage.delta version records ∈ s.sent → ∀ record ∈ records,
    record.version ≤ s.lead record.runtimeId

variable {verifySig} {s s' : Network} {k j : RuntimeId} {m m' : MeshMembership}
    {messages : List GossipMessage}

theorem lead_of_node (h : s.node k = some m) : s.lead k = m.localRecord.version := by
  unfold lead
  rw [h]

theorem ownersLead_init : OwnersLead init where
  node_id := fun _ _ h => by cases h
  started := fun _ => le_refl _
  table := fun _ _ h => by cases h
  wire := fun _ _ h => by cases h

/-- The frame of every step: one node moves on without stepping back, keeps what it knew or
takes over what is not ahead, and sends what is not ahead. -/
theorem OwnersLead.setNode (h : OwnersLead s) (hid : m'.localRuntimeId = k)
    (hlead : s.lead k ≤ m'.localRecord.version)
    (htable : ∀ record, m'.peerRecord record.runtimeId = some record →
      record.version ≤ s.lead record.runtimeId)
    (hwire : ∀ version records, GossipMessage.delta version records ∈ messages → ∀ record ∈ records,
      record.version ≤ s.lead record.runtimeId) : OwnersLead (s.setNode k m' messages) := by
  have hnode : ∀ j, (s.setNode k m' messages).node j = if j = k then some m' else s.node j :=
    fun j => Function.update_apply ..
  have hmono : ∀ j, s.lead j ≤ (s.setNode k m' messages).lead j := by
    intro j
    by_cases hj : j = k
    · have hlead' : (s.setNode k m' messages).lead j = m'.localRecord.version :=
        lead_of_node (by rw [hnode, if_pos hj])
      rw [hlead', hj]
      exact hlead
    · unfold lead
      rw [hnode, if_neg hj]
  refine ⟨fun j n hn => ?_, fun j => le_trans (h.started j) (hmono j), fun j n hn record hr => ?_,
    fun version records hmem record hr => ?_⟩
  · rw [hnode] at hn
    split at hn
    · rename_i hj
      rw [← Option.some.inj hn, hj, hid]
    · exact h.node_id j n hn
  · refine le_trans ?_ (hmono _)
    rw [hnode] at hn
    split at hn
    · rw [← Option.some.inj hn] at hr
      exact htable record hr
    · exact h.table j n hn record hr
  · refine le_trans ?_ (hmono _)
    rcases List.mem_append.mp hmem with hnew | hold
    · exact hwire version records hnew record hr
    · exact h.wire version records hold record hr

/-- What a node knows, its own record included, is not ahead. -/
theorem OwnersLead.recordOf (h : OwnersLead s) (hnode : s.node k = some m) {record : GossipRecord}
    (hr : m.recordOf record.runtimeId = some record) :
    record.version ≤ s.lead record.runtimeId := by
  by_cases hlocal : record.runtimeId = m.localRuntimeId
  · rw [hlocal, MeshMembership.recordOf_local] at hr
    rw [hlocal, h.node_id k m hnode, lead_of_node hnode, Option.some.inj hr]
  · rw [MeshMembership.recordOf_foreign hlocal] at hr
    exact h.table k m hnode record hr

/-- A step of a node's table that offers only records that are not ahead. -/
theorem OwnersLead.peerRecord_of_stepped (h : OwnersLead s) (hnode : s.node k = some m)
    {offered : List GossipRecord} (hstep : MeshMembership.Stepped m offered m')
    (hoffered : ∀ record ∈ offered, record.version ≤ s.lead record.runtimeId)
    (record : GossipRecord) (hr : m'.peerRecord record.runtimeId = some record) :
    record.version ≤ s.lead record.runtimeId := by
  have hforeign : record.runtimeId ≠ m.localRuntimeId := by
    intro heq
    rw [heq, ← hstep.localRuntimeId, MeshMembership.peerRecord_local] at hr
    cases hr
  rw [hstep.peerRecord _ hforeign] at hr
  rcases LastWins.known_of_offerAll hr with hold | hnew
  · exact h.table k m hnode record hold
  · exact hoffered record hnew

theorem version_le_localRecord_apply (m : MeshMembership) (e : NodeEvent) :
    m.localRecord.version ≤ (e.apply verifySig m).localRecord.version := by
  cases he : e.isLocal with
  | false => rw [MeshMembership.localRecord_apply m he]
  | true =>
    cases e with
    | update u now =>
      refine le_trans (le_of_eq (u.version_eq m.localRecord).symm) ?_
      exact le_saturatingSucc _
    | drain now => exact le_saturatingSucc _
    | gossip record => cases he
    | seed ready now => cases he
    | connection runtimeId state => cases he

theorem OwnersLead.step (h : OwnersLead s) (hstep : Step verifySig s s') : OwnersLead s' := by
  cases hstep with
  | start record expected hnew hversion =>
    refine h.setNode rfl ?_ (fun r hr => by cases hr) (fun _ _ hmem => by cases hmem)
    unfold lead
    rw [hnew]
    exact le_of_eq hversion.symm
  | @operate k m e he hnode =>
    have hstepped : MeshMembership.Stepped m (e.offers verifySig m.expectedRelayPubkey)
        (e.apply verifySig m) :=
      MeshMembership.stepped_apply m e
    refine h.setNode (hstepped.localRuntimeId.trans (h.node_id k m hnode)) ?_ ?_
      (fun _ _ hmem => by cases hmem)
    · rw [lead_of_node hnode]
      exact version_le_localRecord_apply m e
    · refine h.peerRecord_of_stepped hnode hstepped fun record hr => ?_
      -- only a seed offers a record, and it is of version 1
      cases e with
      | gossip r => exact absurd rfl (he r)
      | seed ready now =>
        rw [NodeEvent.offers] at hr
        split at hr
        · rw [List.mem_singleton.mp hr]
          exact h.started _
        · cases hr
      | connection => cases hr
      | update => cases hr
      | drain => cases hr
  | @tick k m now hnode =>
    refine h.setNode (h.node_id k m hnode) ?_ (fun record hr => h.table k m hnode record hr) ?_
    · rw [lead_of_node hnode]
      exact le_saturatingSucc _
    · intro version records hmem
      cases List.mem_singleton.mp hmem
  | @deliver k m message hsent hnode =>
    have hkeep : ∀ {messages}, (∀ version records, GossipMessage.delta version records ∈ messages →
        ∀ record ∈ records, record.version ≤ s.lead record.runtimeId) →
          OwnersLead (s.setNode k m messages) :=
      fun hwire => h.setNode (h.node_id k m hnode) (lead_of_node hnode).le
        (fun record hr => h.table k m hnode record hr) hwire
    rcases m.receive_cases message with hr | ⟨entries, hr⟩ | ⟨records, hmsg, hr⟩
    · rw [hr]
      exact hkeep fun _ _ hmem => by cases hmem
    · rw [hr]
      -- the answer is made of records the node knows
      refine hkeep fun version records hmem record hrecord => ?_
      obtain ⟨-, rfl⟩ := GossipMessage.delta.inj (List.mem_singleton.mp hmem)
      have hmem' := (List.mem_filter.mp (mem_sortRecords.mp hrecord)).1
      exact h.recordOf hnode ((m.listed_records.mem_iff record).mp hmem')
    · rw [hr]
      rw [hmsg] at hsent
      refine h.setNode ?_ ?_ ?_ (fun _ _ hmem => by cases hmem)
      · rw [MeshMembership.applyRecords_localRuntimeId]
        exact h.node_id k m hnode
      · rw [MeshMembership.applyRecords_localRecord]
        exact (lead_of_node hnode).le
      · refine h.peerRecord_of_stepped hnode ⟨?_, ?_, ?_⟩ (h.wire _ records hsent)
        · exact MeshMembership.applyRecords_localRuntimeId m records
        · exact MeshMembership.applyRecords_expectedRelayPubkey m records
        · exact fun j hj => MeshMembership.peerRecord_applyRecords hj records

theorem ownersLead_of_reachable (h : Reachable verifySig s) : OwnersLead s := by
  induction h with
  | refl => exact ownersLead_init
  | tail _ hstep ih => exact ih.step hstep

/-- No node of a mesh holds a newer record of another node than that node's own. -/
theorem versionOf_le_own (h : Reachable verifySig s) (hm : s.node k = some m) {n : MeshMembership}
    (hn : s.node j = some n) : n.versionOf m.localRuntimeId ≤ m.versionOf m.localRuntimeId := by
  have hlead := ownersLead_of_reachable h
  have hid := hlead.node_id k m hm
  rw [MeshMembership.versionOf_local]
  unfold MeshMembership.versionOf
  cases hr : n.recordOf m.localRuntimeId with
  | none => exact bot_le
  | some record =>
    have hkey := n.keyed_recordOf _ _ hr
    have hr' : n.recordOf record.runtimeId = some record := by
      rw [hkey]
      exact hr
    have hle := hlead.recordOf hn hr'
    rw [hkey, hid, lead_of_node hm] at hle
    exact WithBot.coe_le_coe.mpr hle

end Network

end Pkzz.Mesh
