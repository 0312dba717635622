import Pkzz.Audio.Placed

/-!
# Leases are given to one renewer

A lease is acquired once, because the generation of a session only rises, and goes from the
connection that acquired it to one renewer at most, whatever the registry does with it.
-/

namespace Pkzz.Audio

open Pkzz.Core Pkzz.Lib Pkzz.Tunnel
open Finmap (lookup)

variable {cfg : Config} {r r' : Relay} {conn : Connection} {stage' : Option JoinStage} {s s' : Pod}
    {a : Event} {c : Nat}
  {o : HuddleOwnerRegistry}

/-- The leases that were given to a renewer. -/
def HuddleOwnerRegistry.leases (o : HuddleOwnerRegistry) : List SessionLease :=
  o.renewers.map Renewer.lease

/-- The stage's lease is of the generation that was resolved. -/
def JoinStage.Agrees : JoinStage → Prop
  | resolved (some (.localOwner generation)) (some lease) => lease.generation = generation
  | obtained _ (some (.localOwner generation)) (some lease) => lease.generation = generation
  | admitted _ _ (some (.localOwner generation)) (some lease) => lease.generation = generation
  | installing _ _ generation lease => lease.generation = generation
  | _ => True

structure Leases (s : Pod) : Prop where
  fenced : Fenced s.relay.sessions
  renewers : ∀ lease ∈ s.relay.owners.leases, lease ∈ s.relay.sessions.acquired
  distinct : s.relay.owners.leases.Nodup
  pending : ∀ c conn lease, lookup c s.connections = some conn → conn.stage.lease = some lease →
    lease ∈ s.relay.sessions.acquired ∧ lease ∉ s.relay.owners.leases
  /-- Two connections do not have one lease. -/
  apart : ∀ c c' conn conn' lease, lookup c s.connections = some conn →
    lookup c' s.connections = some conn' →
    conn.stage.lease = some lease → conn'.stage.lease = some lease → c = c'
  agrees : ∀ c conn, lookup c s.connections = some conn → conn.stage.Agrees

/-- What a connection's step does with leases: it keeps its own or drops it, gives it to a renewer,
or acquires one. -/
inductive LeaseEffect (r : Relay) (conn : Connection) (r' : Relay)
    (next : Option SessionLease) : Prop where
  | keep (hsessions : r'.sessions = r.sessions) (hleases : r'.owners.leases = r.owners.leases)
      (hnext : ∀ lease ∈ next, conn.stage.lease = some lease)
  | give {lease : SessionLease} (hsessions : r'.sessions = r.sessions)
      (hlease : conn.stage.lease = some lease)
      (hleases : r'.owners.leases = r.owners.leases ++ [lease]) (hnext : next = none)
  | acquire {d : SessionDirectory} {call : Call} (hcall : (sessions d).step r.sessions call =
      some r'.sessions)
      (howners : r'.owners = r.owners) (hnext : ∀ lease ∈ next, lease ∈ r'.sessions.acquired ∧
        lease ∉ r.sessions.acquired)

theorem leases_spawn (o : HuddleOwnerRegistry) (lease : SessionLease) (draining cancelled : Bool) :
    (o.spawn lease draining cancelled).leases = o.leases ++ [lease] := by
  rw [HuddleOwnerRegistry.leases, HuddleOwnerRegistry.spawn, List.map_append]
  rfl

theorem leases_removeIf (o : HuddleOwnerRegistry) (sessionId : Uuid) (generation : Nat)
    {f : Renewer → Renewer}
    (hf : ∀ rn, (f rn).lease = rn.lease) :
    (o.removeIf sessionId generation f).leases = o.leases := by
  rw [HuddleOwnerRegistry.removeIf]
  cases lookup sessionId o.entries with
  | none => rfl
  | some entry =>
    dsimp only
    split
    · refine List.ext_getElem? ?_
      intro i
      rw [HuddleOwnerRegistry.leases, HuddleOwnerRegistry.leases, List.getElem?_map,
        List.getElem?_map, List.getElem?_modify]
      cases o.renewers[i]? with
      | none => rfl
      | some rn =>
        show some ((if entry.renewer = i then f rn else rn).lease) = some rn.lease
        split
        · rw [hf]
        · rfl
    · rfl

theorem leases_set {i : Nat} {rn rn' : Renewer} (hrn : o.renewers[i]? = some rn)
    (hlease : rn'.lease = rn.lease) :
    ({ o with renewers := o.renewers.set i rn' } : HuddleOwnerRegistry).leases = o.leases := by
  refine List.ext_getElem? ?_
  intro j
  rw [HuddleOwnerRegistry.leases, HuddleOwnerRegistry.leases, List.getElem?_map, List.getElem?_map]
  dsimp only
  by_cases heq : i = j
  · obtain ⟨hlt, _⟩ := List.getElem?_eq_some_iff.mp hrn
    rw [← heq, List.getElem?_set_self hlt, hrn]
    exact congrArg some hlease
  · rw [List.getElem?_set_ne heq]

/-- The next generation is new. -/
theorem acquired_new {d : SessionDirectory} {t : Sessions} {now : Int} {communityId : CommunityId}
    {sessionId : Uuid} {owner : RuntimeId} {profile : Profile} {lease : SessionLease} (h : Fenced t)
    (hacquired : (d.acquire t.redis now communityId sessionId owner profile).2 =
      .ok (.acquired lease)) : lease ∉ t.acquired := by
  intro hmem
  have hstep : (sessions d).step t (.acquire now communityId sessionId owner profile) =
      some ⟨(d.acquire t.redis now communityId sessionId owner profile).1,
        t.acquired ++ [lease]⟩ := by
    show some (_ : Sessions) = _
    rw [hacquired]
    rfl
  have hincreasing := (fenced_step h hstep lease.communityId lease.sessionId).increasing
  rw [acquiredOf, List.filter_append, List.pairwise_append] at hincreasing
  have hmine : decide (lease.communityId = lease.communityId ∧ lease.sessionId = lease.sessionId) =
      true := by simp
  have hlt := hincreasing.2.2 lease (List.mem_filter.mpr ⟨hmem, hmine⟩) lease
    (List.mem_filter.mpr ⟨List.mem_singleton_self _, hmine⟩)
  exact absurd hlt (lt_irrefl _)

theorem resolve_leases {now : Int} (hfenced : Fenced r.sessions)
    (hstep : conn.resolve cfg r now = some (r', stage')) :
    LeaseEffect r conn r' (stage'.bind JoinStage.lease) := by
  rw [Connection.resolve] at hstep
  split at hstep
  · split at hstep
    · cases hstep
      exact .keep rfl rfl (by rw [Option.bind_some, found_lease]; intro _ hlease; cases hlease)
    · cases hstep
      exact .keep rfl rfl (fun _ hlease => by cases hlease)
    · cases hstep
      exact .keep rfl rfl (fun _ hlease => by cases hlease)
  · dsimp only at hstep
    have hcall : ∀ stage' : Option JoinStage, (∀ lease ∈ stage'.bind JoinStage.lease,
        (cfg.directory.acquire r.sessions.redis now conn.communityId conn.channelId
          cfg.localRuntimeId .huddleControl).2 = .ok (.acquired lease)) →
        LeaseEffect r conn
          { r with
            sessions := ⟨(cfg.directory.acquire r.sessions.redis now conn.communityId conn.channelId
              cfg.localRuntimeId .huddleControl).1,
              r.sessions.acquired ++
                handedOut (cfg.directory.acquire r.sessions.redis now conn.communityId
                conn.channelId cfg.localRuntimeId .huddleControl).2⟩ }
          (stage'.bind JoinStage.lease) := by
      intro stage' hstage
      have hcall : (sessions cfg.directory).step r.sessions
          (.acquire now conn.communityId conn.channelId cfg.localRuntimeId .huddleControl) =
            some _ := rfl
      refine .acquire hcall rfl ?_
      intro lease hmem
      have hacquired := hstage lease hmem
      refine ⟨List.mem_append_right _ ?_, acquired_new hfenced hacquired⟩
      rw [hacquired]
      exact List.mem_singleton_self _
    split at hstep
    · rename_i lease hacquired
      cases hstep
      refine hcall _ ?_
      intro lease' hmem
      cases hmem
      exact hacquired
    · cases hstep
      refine hcall _ ?_
      intro lease hmem
      rw [Option.bind_some, found_lease] at hmem
      cases hmem
    · cases hstep
      exact hcall none (fun _ hlease => by cases hlease)
  · split at hstep <;> cases hstep <;> exact .keep rfl rfl (fun _ hlease => by cases hlease)
  · split at hstep <;> cases hstep <;> exact .keep rfl rfl (fun _ hlease => by cases hlease)
  · cases hstep

theorem attach_leases (hstep : conn.attach r = some (r', stage')) :
    LeaseEffect r conn r' (stage'.bind JoinStage.lease) := by
  rw [Connection.attach] at hstep
  split at hstep
  · rename_i hstage
    split at hstep
    · rename_i attached hattached
      cases hstep
      rw [HuddleOwnerRegistry.attachSignals] at hattached
      split at hattached
      · cases hattached
        exact .give rfl (by rw [hstage]; rfl) (leases_spawn _ _ true true) rfl
      split at hattached
      · cases hattached
        exact .give rfl (by rw [hstage]; rfl) (leases_spawn _ _ false true) rfl
      · cases hattached
    · cases hstep
      exact .keep rfl rfl (by rw [hstage]; exact fun _ => id)
  · cases hstep
    exact .keep rfl rfl (fun _ hlease => by cases hlease)
  · cases hstep
    exact .keep rfl rfl (fun _ hlease => by cases hlease)
  · rename_i lease hstage
    cases hstep
    refine .give rfl (by rw [hstage]; rfl) ?_ rfl
    rw [HuddleOwnerRegistry.install]
    split
    · exact leases_spawn _ _ true true
    · exact leases_spawn _ _ false false
  · cases hstep
    exact .keep rfl rfl (fun _ hlease => by cases hlease)
  · cases hstep

variable {event : ConnectionEvent}

theorem join_leases (hstep : conn.join r event = some (r', stage')) :
    LeaseEffect r conn r' (stage'.bind JoinStage.lease) := by
  cases event with
  | getOrCreate =>
    rw [Connection.join] at hstep
    split at hstep
    · rename_i hstage
      cases hstep
      exact .keep rfl rfl (by rw [hstage]; exact fun _ => id)
    · cases hstep
  | refuse failure =>
    rw [Connection.join] at hstep
    split at hstep
    · dsimp only at hstep
      split at hstep
      · split at hstep <;> cases hstep
        exact .keep rfl rfl (fun _ hlease => by cases hlease)
      · cases hstep
        exact .keep rfl rfl (fun _ hlease => by cases hlease)
      · cases hstep
        exact .keep rfl rfl (fun _ hlease => by cases hlease)
      · split at hstep <;> cases hstep
        exact .keep rfl rfl (fun _ hlease => by cases hlease)
      · split at hstep <;> cases hstep
        exact .keep rfl rfl (fun _ hlease => by cases hlease)
    · cases hstep
  | addPeer peerId ownerIndex =>
    rw [Connection.join] at hstep
    split at hstep
    · rename_i hstage
      split at hstep
      · split at hstep
        · cases hstep
          exact .keep rfl rfl (by rw [hstage]; exact fun _ => id)
        · cases hstep
          exact .keep rfl rfl (fun _ hlease => by cases hlease)
      · cases hstep
    · cases hstep
  | resolve now => cases hstep
  | giveUp => cases hstep
  | attach => cases hstep
  | leave archived => cases hstep

theorem leave_leases {archived : Bool} (hstep : conn.leave r archived = some (r', stage')) :
    LeaseEffect r conn r' (stage'.bind JoinStage.lease) := by
  rw [Connection.leave] at hstep
  split at hstep
  · cases hstep
    refine .keep rfl rfl ?_
    rw [Option.bind_some]
    split <;> exact fun _ hlease => by cases hlease
  · split at hstep <;> cases hstep <;> exact .keep rfl rfl (fun _ hlease => by cases hlease)
  · cases hstep
    refine .keep rfl rfl ?_
    split
    · split <;> exact fun _ hlease => by cases hlease
    · exact fun _ hlease => by cases hlease
  · cases hstep
    exact .keep rfl (leases_removeIf _ _ _ fun _ => rfl) (fun _ hlease => by cases hlease)
  · cases hstep

theorem connection_leases (hfenced : Fenced r.sessions)
    (hstep : conn.step cfg r event = some (r', stage')) :
    LeaseEffect r conn r' (stage'.bind JoinStage.lease) := by
  cases event with
  | resolve now => exact resolve_leases hfenced hstep
  | giveUp =>
    rw [Connection.step] at hstep
    split at hstep <;> cases hstep <;> exact .keep rfl rfl (fun _ hlease => by cases hlease)
  | attach => exact attach_leases hstep
  | leave archived => exact leave_leases hstep
  | getOrCreate => exact join_leases (show conn.join r .getOrCreate = _ from hstep)
  | refuse failure => exact join_leases (show conn.join r (.refuse failure) = _ from hstep)
  | addPeer peerId ownerIndex =>
      exact join_leases (show conn.join r (.addPeer peerId ownerIndex) = _ from hstep)

/-- The generation of a join stays with its lease. -/
theorem connection_agrees {stage : JoinStage} (h : conn.stage.Agrees)
    (hstep : conn.step cfg r event = some (r', some stage)) : stage.Agrees := by
  cases event with
  | resolve now =>
    have hstep : conn.resolve cfg r now = _ := hstep
    have hfound : ∀ lease, (cfg.found lease).Agrees := by
      intro lease
      rw [Config.found]
      split <;> trivial
    rw [Connection.resolve] at hstep
    split at hstep
    · split at hstep <;> cases hstep
      · exact hfound _
      · trivial
    · dsimp only at hstep
      split at hstep <;> cases hstep
      · rfl
      · exact hfound _
    · split at hstep <;> cases hstep <;> trivial
    · split at hstep <;> cases hstep
      trivial
    · cases hstep
  | giveUp =>
    rw [Connection.step] at hstep
    split at hstep <;> cases hstep
  | getOrCreate =>
    have hstep : conn.join r .getOrCreate = _ := hstep
    rw [Connection.join] at hstep
    split at hstep
    · rename_i pendingRemote acquiredLease hstage
      cases hstep
      rw [hstage] at h
      -- only the lease that was acquired names a local generation
      cases pendingRemote with
      | none => trivial
      | some outcome =>
        cases outcome with
        | localOwner generation =>
          cases acquiredLease with
          | none => trivial
          | some lease => exact h
        | remoteOwner ownerRuntimeId generation => trivial
    · cases hstep
  | refuse failure =>
    have hstep : conn.join r (.refuse failure) = _ := hstep
    rw [Connection.join] at hstep
    split at hstep
    · dsimp only at hstep
      split at hstep
      · split at hstep <;> cases hstep
      · cases hstep
      · cases hstep
      · split at hstep <;> cases hstep
      · split at hstep <;> cases hstep
    · cases hstep
  | addPeer peerId ownerIndex =>
    have hstep : conn.join r (.addPeer peerId ownerIndex) = _ := hstep
    rw [Connection.join] at hstep
    split at hstep
    · rename_i room pendingRemote acquiredLease hstage
      rw [hstage] at h
      split at hstep
      · split at hstep
        · cases hstep
          cases pendingRemote with
          | none => trivial
          | some outcome =>
            cases outcome with
            | localOwner generation =>
              cases acquiredLease with
              | none => trivial
              | some lease => exact h
            | remoteOwner ownerRuntimeId generation => trivial
        · cases hstep
      · cases hstep
    · cases hstep
  | attach =>
    have hstep : conn.attach r = _ := hstep
    rw [Connection.attach] at hstep
    split at hstep
    · rename_i hstage
      rw [hstage] at h
      split at hstep
      · cases hstep
        trivial
      · cases hstep
        exact h
    all_goals
      cases hstep
      try trivial
  | leave archived =>
    have hstep : conn.leave r archived = _ := hstep
    rw [Connection.leave] at hstep
    split at hstep
    · cases hstep
      split <;> trivial
    · split at hstep <;> cases hstep
      trivial
    · obtain ⟨_, hstage'⟩ := Prod.mk.inj (Option.some.inj hstep)
      split at hstage'
      · split at hstage' <;> cases hstage'
        trivial
      · cases hstage'
    · cases hstep
    · cases hstep

theorem stream_sessions {st : ControlStream} {event : StreamEvent} {st' : Option ControlStream}
    (hstep : st.step r event = some (r', st')) : r'.sessions = r.sessions := by
  have hteardown : ∀ st : ControlStream, (st.teardown r).sessions = r.sessions := by
    intro st
    rw [ControlStream.teardown]
    split <;> rfl
  cases event with
  | register communityId pubkey protocolVersion =>
    rw [ControlStream.step] at hstep
    split at hstep
    · cases hstep
    split at hstep
    · cases hstep
      exact hteardown _
    dsimp only at hstep
    split at hstep <;> cases hstep
    · exact hteardown _
    · rfl
  | fence peerId =>
    rw [ControlStream.step] at hstep
    split at hstep
    · split at hstep
      · split at hstep
        · split at hstep <;> cases hstep <;> rfl
        · cases hstep
          exact hteardown _
        · cases hstep
          rfl
      · cases hstep
    · cases hstep
  | unregister pubkey =>
    rw [ControlStream.step] at hstep
    split at hstep
    · cases hstep
    split at hstep
    · dsimp only at hstep
      split at hstep <;> cases hstep <;> rfl
    · cases hstep
      rfl
  | close =>
    cases hstep
    exact hteardown _

/-- A renewer only makes calls for its own lease. -/
theorem renewer_redis {d : SessionDirectory} {t : Sessions} {redis' : Redis} {rn rn' : Renewer}
    {event : RenewerEvent} (h : Fenced t)
    (hstep : rn.step d t.redis event = some (redis', rn')) : Fenced { t with redis := redis' } := by
  cases event with
  | tick now failed =>
    rw [Renewer.step] at hstep
    split at hstep
    · cases hstep
    split at hstep
    · cases hstep
      exact h
    · have hcall : (sessions d).step t (.renew now rn.lease) = some _ := rfl
      dsimp only at hstep
      split at hstep <;> cases hstep <;> exact fenced_step h hcall
  | cancelled =>
    rw [Renewer.step] at hstep
    split at hstep <;> cases hstep
    exact h
  | release failed =>
    rw [Renewer.step] at hstep
    split at hstep
    · split at hstep
      · cases hstep
        exact h
      · have hcall : (sessions d).step t (.release rn.lease) = some _ := rfl
        dsimp only at hstep
        split at hstep <;> cases hstep <;> exact fenced_step h hcall
    · cases hstep

theorem leases_start : Leases .start := by
  refine ⟨fenced_start, nofun, List.nodup_nil, ?_, ?_, ?_⟩
  · intro c conn lease hconn
    cases hconn
  · intro c c' conn conn' lease hconn
    cases hconn
  · intro c conn hconn
    cases hconn

/-- Where only Redis has moved on, and no lease was given out or dropped. -/
theorem leases_mono (h : Leases s) (hconnections : s'.connections = s.connections)
    (hfenced : Fenced s'.relay.sessions)
    (hacquired : ∀ lease ∈ s.relay.sessions.acquired, lease ∈ s'.relay.sessions.acquired)
    (hleases : s'.relay.owners.leases = s.relay.owners.leases) : Leases s' := by
  obtain ⟨_, hrenewers, hdistinct, hpending, hapart, hagrees⟩ := h
  refine ⟨hfenced, ?_, ?_, ?_, ?_, ?_⟩
  · rw [hleases]
    exact fun lease hmem => hacquired lease (hrenewers lease hmem)
  · rw [hleases]
    exact hdistinct
  · rw [hconnections, hleases]
    intro c conn lease hconn hlease
    obtain ⟨hmem, hnot⟩ := hpending c conn lease hconn hlease
    exact ⟨hacquired lease hmem, hnot⟩
  · rw [hconnections]
    exact hapart
  · rw [hconnections]
    exact hagrees

/-- A connection of the next state is one of this state, or the one that took the step. -/
theorem lookup_next {stage' : Option JoinStage} {c' : Nat} {conn' : Connection}
    (h : lookup c' (put s.connections c (stage'.map fun stage => { conn with stage })) =
      some conn') :
    (c' = c ∧ ∃ stage, stage' = some stage ∧ conn' = { conn with stage }) ∨
    (c' ≠ c ∧ lookup c' s.connections = some conn') := by
  rw [lookup_put] at h
  split at h
  · rename_i heq
    obtain ⟨stage, hstage, hconn⟩ := Option.map_eq_some_iff.mp h
    exact .inl ⟨heq, stage, hstage, hconn.symm⟩
  · rename_i hne
    exact .inr ⟨hne, h⟩

theorem leases_connection (h : Leases s) (hconn : lookup c s.connections = some conn)
    (hstep : conn.step cfg s.relay event = some (r', stage')) :
    Leases { s with
      relay := r',
      connections := put s.connections c (stage'.map fun stage => { conn with stage }) } := by
  have hagrees : ∀ c' conn',
      lookup c' (put s.connections c (stage'.map fun stage => { conn with stage })) = some conn' →
      conn'.stage.Agrees := by
    intro c' conn' hconn'
    rcases lookup_next hconn' with ⟨_, stage, hstage, rfl⟩ | ⟨_, hold⟩
    · rw [hstage] at hstep
      exact connection_agrees (h.agrees c conn hconn) hstep
    · exact h.agrees c' conn' hold
  cases connection_leases h.fenced hstep with
  | keep hsessions hleases hnext =>
    -- the connection keeps its lease or drops it
    have hold : ∀ c' conn' lease,
        lookup c' (put s.connections c (stage'.map fun stage => { conn with stage })) = some conn' →
        conn'.stage.lease = some lease → ∃ conn₀, lookup c' s.connections = some conn₀ ∧
          conn₀.stage.lease = some lease := by
      intro c' conn' lease hconn' hlease
      rcases lookup_next hconn' with ⟨rfl, stage, rfl, rfl⟩ | ⟨_, hold⟩
      · exact ⟨conn, hconn, hnext lease hlease⟩
      · exact ⟨conn', hold, hlease⟩
    refine ⟨by rw [hsessions]; exact h.fenced, ?_, ?_, ?_, ?_, hagrees⟩
    · rw [hsessions, hleases]
      exact h.renewers
    · rw [hleases]
      exact h.distinct
    · rw [hsessions, hleases]
      intro c' conn' lease hconn' hlease
      obtain ⟨conn₀, hconn₀, hlease₀⟩ := hold c' conn' lease hconn' hlease
      exact h.pending c' conn₀ lease hconn₀ hlease₀
    · intro c₁ c₂ conn₁ conn₂ lease hconn₁ hconn₂ hlease₁ hlease₂
      obtain ⟨_, hold₁, hlease₁⟩ := hold c₁ conn₁ lease hconn₁ hlease₁
      obtain ⟨_, hold₂, hlease₂⟩ := hold c₂ conn₂ lease hconn₂ hlease₂
      exact h.apart c₁ c₂ _ _ lease hold₁ hold₂ hlease₁ hlease₂
  | @give given hsessions hgiven hleases hnext =>
    -- its lease goes to the registry, which then renews it
    have hpending := h.pending c conn given hconn hgiven
    have hold : ∀ c' conn' lease,
        lookup c' (put s.connections c (stage'.map fun stage => { conn with stage })) = some conn' →
        conn'.stage.lease = some lease → c' ≠ c ∧ lookup c' s.connections = some conn' := by
      intro c' conn' lease hconn' hlease
      rcases lookup_next hconn' with ⟨_, stage, rfl, rfl⟩ | hold
      · have hlease : stage.lease = some lease := hlease
        rw [Option.bind_some, hlease] at hnext
        cases hnext
      · exact hold
    refine ⟨by rw [hsessions]; exact h.fenced, ?_, ?_, ?_, ?_, hagrees⟩
    · rw [hsessions, hleases]
      intro lease hmem
      rcases List.mem_append.mp hmem with hmem | hmem
      · exact h.renewers lease hmem
      · rw [List.mem_singleton.mp hmem]
        exact hpending.1
    · rw [hleases]
      exact h.distinct.append (List.nodup_singleton _) (List.disjoint_singleton.mpr hpending.2)
    · rw [hsessions, hleases]
      intro c' conn' lease hconn' hlease
      obtain ⟨hne, hconn₀⟩ := hold c' conn' lease hconn' hlease
      obtain ⟨hmem, hnot⟩ := h.pending c' conn' lease hconn₀ hlease
      refine ⟨hmem, ?_⟩
      intro hin
      rcases List.mem_append.mp hin with hin | hin
      · exact hnot hin
      · rw [List.mem_singleton.mp hin] at hlease
        exact hne (h.apart c' c conn' conn given hconn₀ hconn hlease hgiven)
    · intro c₁ c₂ conn₁ conn₂ lease hconn₁ hconn₂ hlease₁ hlease₂
      exact h.apart c₁ c₂ conn₁ conn₂ lease (hold c₁ conn₁ lease hconn₁ hlease₁).2
        (hold c₂ conn₂ lease hconn₂ hlease₂).2 hlease₁ hlease₂
  | acquire hcall howners hnext =>
    -- a new lease has a generation nobody has seen
    have hacquired : ∀ lease ∈ s.relay.sessions.acquired, lease ∈ r'.sessions.acquired :=
      fun lease hmem => acquired_step hcall hmem
    refine ⟨fenced_step h.fenced hcall, ?_, ?_, ?_, ?_, hagrees⟩
    · rw [howners]
      exact fun lease hmem => hacquired lease (h.renewers lease hmem)
    · rw [howners]
      exact h.distinct
    · rw [howners]
      intro c' conn' lease hconn' hlease
      rcases lookup_next hconn' with ⟨_, stage, rfl, rfl⟩ | ⟨_, hold⟩
      · obtain ⟨hmem, hnew⟩ := hnext lease hlease
        exact ⟨hmem, fun hin => hnew (h.renewers lease hin)⟩
      · obtain ⟨hmem, hnot⟩ := h.pending c' conn' lease hold hlease
        exact ⟨hacquired lease hmem, hnot⟩
    · intro c₁ c₂ conn₁ conn₂ lease hconn₁ hconn₂ hlease₁ hlease₂
      rcases lookup_next hconn₁ with ⟨h₁, stage₁, hstage₁, rfl⟩ | ⟨_, hold₁⟩
      · rcases lookup_next hconn₂ with ⟨h₂, _⟩ | ⟨_, hold₂⟩
        · exact h₁.trans h₂.symm
        · rw [hstage₁] at hnext
          exact absurd (h.pending c₂ conn₂ lease hold₂ hlease₂).1 (hnext lease hlease₁).2
      · rcases lookup_next hconn₂ with ⟨_, stage₂, hstage₂, rfl⟩ | ⟨_, hold₂⟩
        · rw [hstage₂] at hnext
          exact absurd (h.pending c₁ conn₁ lease hold₁ hlease₁).1 (hnext lease hlease₂).2
        · exact h.apart c₁ c₂ conn₁ conn₂ lease hold₁ hold₂ hlease₁ hlease₂

/-- **Every step keeps the leases apart.** -/
theorem leases_step (h : Leases s) (hstep : (pod cfg).step s a = some s') : Leases s' := by
  cases a with
  | connect c communityId channelId pubkey protocolVersion =>
    rw [pod] at hstep
    dsimp only at hstep
    split at hstep
    · cases hstep
    cases hstep
    -- a connection starts without a lease
    have hnew : ∀ stage :
        JoinStage, (stage = if cfg.mesh then .resolving else .resolved none none) →
        stage.lease = none ∧ stage.Agrees := by
      intro stage hstage
      rw [hstage]
      split <;> exact ⟨rfl, trivial⟩
    have hold : ∀ c' conn' lease, lookup c' (Finmap.insert c
        ⟨communityId, channelId, pubkey, protocolVersion, if cfg.mesh then
          .resolving else .resolved none none⟩ s.connections) = some conn' →
        conn'.stage.lease = some lease → lookup c' s.connections = some conn' := by
      intro c' conn' lease hconn' hlease
      rw [Map.lookup_insert_eq] at hconn'
      split at hconn'
      · rw [← Option.some.inj hconn'] at hlease
        rw [(hnew _ rfl).1] at hlease
        cases hlease
      · exact hconn'
    refine ⟨h.fenced, h.renewers, h.distinct, ?_, ?_, ?_⟩
    · intro c' conn' lease hconn' hlease
      exact h.pending c' conn' lease (hold c' conn' lease hconn' hlease) hlease
    · intro c₁ c₂ conn₁ conn₂ lease hconn₁ hconn₂ hlease₁ hlease₂
      exact h.apart c₁ c₂ conn₁ conn₂ lease (hold c₁ conn₁ lease hconn₁ hlease₁)
        (hold c₂ conn₂ lease hconn₂ hlease₂) hlease₁ hlease₂
    · intro c' conn' hconn'
      dsimp only at hconn'
      rw [Map.lookup_insert_eq] at hconn'
      split at hconn'
      · cases hconn'
        exact (hnew _ rfl).2
      · exact h.agrees c' conn' hconn'
  | connection c event =>
    rw [pod] at hstep
    dsimp only at hstep
    split at hstep
    · rename_i conn hconn
      obtain ⟨⟨r', stage'⟩, hstage, rfl⟩ := Option.map_eq_some_iff.mp hstep
      exact leases_connection h hconn hstage
    · cases hstep
  | accept st fenced =>
    rw [pod] at hstep
    dsimp only at hstep
    split at hstep
    · cases hstep
    · cases hstep
      exact leases_mono h rfl h.fenced (fun _ => id) rfl
  | stream st event =>
    rw [pod] at hstep
    dsimp only at hstep
    split at hstep
    · obtain ⟨⟨r', next⟩, hnext, rfl⟩ := Option.map_eq_some_iff.mp hstep
      have hsessions := stream_sessions hnext
      exact leases_mono h rfl (by rw [hsessions]; exact h.fenced)
        (by rw [hsessions]; exact fun _ => id) (by rw [stream_owners hnext])
    · cases hstep
  | renewer i event =>
    rw [pod] at hstep
    dsimp only at hstep
    split at hstep
    · rename_i renewer hrenewer
      obtain ⟨⟨redis, renewer'⟩, hrenewer', rfl⟩ := Option.map_eq_some_iff.mp hstep
      exact leases_mono h rfl (renewer_redis h.fenced hrenewer') (fun _ => id)
        (leases_set hrenewer (renewer_step hrenewer').lease)
    · cases hstep
  | drain sessionId generation =>
    cases hstep
    exact leases_mono h rfl h.fenced (fun _ => id) (leases_removeIf _ _ _ fun _ => rfl)
  | startDrain =>
    cases hstep
    exact leases_mono h rfl h.fenced (fun _ => id) rfl
  | world call =>
    obtain ⟨next, hnext, rfl⟩ := Option.map_eq_some_iff.mp hstep
    exact leases_mono h rfl (fenced_step h.fenced hnext)
      (fun lease hmem => acquired_step hnext hmem) rfl

/-- Two renewers do not have leases of one generation. -/
theorem renewer_unique (h : Leases s) {i j : Nat} {rn rn' : Renewer}
    (hrn : s.relay.owners.renewers[i]? = some rn)
    (hrn' : s.relay.owners.renewers[j]? = some rn')
    (hcommunity : rn.lease.communityId = rn'.lease.communityId)
    (hsession : rn.lease.sessionId = rn'.lease.sessionId)
    (hgeneration : rn.lease.generation = rn'.lease.generation) : i = j := by
  have hlookup : ∀ {k : Nat} {x : Renewer}, s.relay.owners.renewers[k]? = some x →
      s.relay.owners.leases[k]? = some x.lease := by
    intro k x hx
    rw [HuddleOwnerRegistry.leases, List.getElem?_map, hx]
    rfl
  have hmem : ∀ {k : Nat} {x : Renewer}, s.relay.owners.renewers[k]? = some x →
      x.lease ∈ s.relay.sessions.acquired :=
    fun hx => h.renewers _ (List.mem_of_getElem? (hlookup hx))
  have hincreasing := (h.fenced rn.lease.communityId rn.lease.sessionId).increasing
  have : Std.Symm fun a b : SessionLease => a.generation ≠ b.generation := ⟨fun _ _ => Ne.symm⟩
  have hdistinct := hincreasing.imp fun hlt => Nat.ne_of_lt hlt
  have hsame : rn.lease = rn'.lease := by
    by_contra hne
    refine hdistinct.forall ?_ ?_ hne hgeneration
    · exact List.mem_filter.mpr ⟨hmem hrn, by simp⟩
    · exact List.mem_filter.mpr ⟨hmem hrn', by simp [hcommunity, hsession]⟩
  obtain ⟨hlt, _⟩ := List.getElem?_eq_some_iff.mp (hlookup hrn)
  refine (List.getElem?_inj hlt h.distinct).mp ?_
  rw [hlookup hrn, hlookup hrn', hsame]

end Pkzz.Audio
