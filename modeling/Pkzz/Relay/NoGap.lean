import Pkzz.Relay.Delivery

/-!
# No gap between history and live delivery

An event can pass the subscription by: another pod publishes it while the pod is not
subscribed, or it is fanned out before the registration. Such an event has to come with the
history. The invariant says that it does: an event that has passed by has been delivered, or
found, or the database is still to be asked.
-/

namespace Pkzz.Relay

open Pkzz.Core Pkzz.Lib Pkzz.PubSub

/-! ## The history -/

namespace Request

variable {req : Request} {c : CommunityId} {stored : StoredEvent} {answers : Answers}
    {row : EventRow}

theorem accepts_of_matches (h : req.Matches c stored) : req.accepts stored = true := by
  obtain ⟨_, hchannel, hfilter, hvisible⟩ := h
  unfold accepts
  rw [hfilter, hvisible, hchannel]
  simp [req.accessible]

/-- Every accepted event is sent, or has been seen. -/
theorem mem_send (hacc : req.accepts stored = true) :
    ∀ {events : List StoredEvent} {seen : List EventId}, stored ∈ events →
      stored.event.id ∈ req.send seen events ∨ stored.event.id ∈ seen
  | [], _, h => by cases h
  | se :: rest, seen, h => by
    unfold send
    rcases List.mem_cons.mp h with heq | hrest
    · rw [← heq, hacc, Bool.not_true, if_neg (by simp)]
      split
      · rename_i hseen
        exact .inr (List.contains_iff_mem.mp hseen)
      · exact .inl List.mem_cons_self
    · split
      · exact mem_send hacc hrest
      · split
        · exact mem_send hacc hrest
        · rcases @mem_send hacc rest (se.event.id :: seen) hrest with hsent | hseen
          · exact .inl (List.mem_cons_of_mem _ hsent)
          · rcases List.mem_cons.mp hseen with heq | hseen
            · rw [heq]
              exact .inl List.mem_cons_self
            · exact .inr hseen

/-- A selected row among those read is found. -/
theorem mem_historical {db : RouteConfig} {log : List EventRow} {session : ReadSession}
    (h : req.Matches row.communityId row.stored) (hread : row ∈ db.rowsRead log req.query session)
    (hsel : req.query.selects row = true)
    (hlimit : (db.rowsRead log req.query session).countP req.query.selects ≤
      req.query.pageLimit.toNat) :
    row.event.id ∈ req.historical db log session := by
  unfold historical RouteConfig.queryEventsRouted
  have hsel' := hsel
  simp only [EventQuery.selects, Bool.and_eq_true, Bool.not_eq_true'] at hsel'
  cases hevents : queryEventsOn (db.rowsRead log req.query session) req.query with
  | none =>
    unfold queryEventsOn at hevents
    rw [if_neg (by simp [hsel'.1.1.1]), if_pos (by simpa using hsel'.1.1.2)] at hevents
    cases hevents
  | some events =>
    have hmem := mem_queryEventsOn hread hsel hlimit hevents
    rcases @mem_send req row.stored (accepts_of_matches h) events [] hmem with hsent | hseen
    · exact hsent
    · cases hseen

/-! ## The fan-out -/

/-- The lookups know the connection and find that the reader has access. -/
structure AccessGiven (req : Request) (answers : Answers) : Prop where
  community : answers.communityForConn = some req.community
  reader : answers.pubkeyForConn = some req.reader
  channel : answers.channelVisibility.any (fun v =>
    v != "private" || decide (answers.isMember = some true)) = true

instance (req : Request) (answers : Answers) : Decidable (req.AccessGiven answers) :=
  decidable_of_iff (_ ∧ _ ∧ _) ⟨fun h => ⟨h.1, h.2.1, h.2.2⟩, fun h =>
    ⟨h.community, h.reader, h.channel⟩⟩

/-- The access check lets a reader have what the history would show. -/
theorem filterFanoutByAccess_of_accessGiven (ha : req.AccessGiven answers)
    (h : req.Matches c stored) : filterFanoutByAccess answers c stored = true := by
  obtain ⟨hc, _, _, hvisible⟩ := h
  obtain ⟨hconn, hpk, hchannel⟩ := ha
  obtain ⟨v, hv, hmember⟩ := (Option.any_eq_true _ _).mp hchannel
  simp only [eventVisibleToReader, isAuthorOnlyEvent, Bool.and_eq_true, Bool.not_eq_true',
    Bool.and_eq_false_iff, decide_eq_false_iff_not, ne_eq, not_not] at hvisible
  obtain ⟨⟨hauthor, hshared⟩, _⟩ := hvisible
  have hprivate : (v != "private" ||
      (answers.pubkeyForConn.isSome && decide (answers.isMember = some true))) = true := by
    rw [hpk]
    exact hmember
  unfold filterFanoutByAccess
  simp only [Bool.and_eq_true, Bool.or_eq_true, Bool.not_eq_true', decide_eq_true_eq]
  refine ⟨⟨⟨?_, ?_⟩, ?_⟩, ?_⟩
  · rw [hconn, hc]
  · rcases hauthor with hkind | hself
    · exact .inl hkind
    · exact .inr (by rw [hpk, hself])
  · rw [hpk, Option.any_some, hshared]
    exact .inr (by simp)
  · rw [hv]
    split
    · rfl
    · exact hprivate

end Request

namespace State

variable {req : Request} {db : RouteConfig} {s s' : State} {a : Action} {c : CommunityId}
    {stored : StoredEvent}
  {answers : Answers} {d : Dispatch}

/-! ## What is asked of a run -/

def opened (s : State) : Bool :=
  match s.req with
  | .new => false
  | _ => true

/-- From the registration on the subscription stays, and the connection to Redis holds; the
history keeps within its limit. -/
def Granted (req : Request) (db : RouteConfig) (s : State) : Action → Prop
  | .registry call => s.opened = true →
      (s.registry.call call).getEntry req.connId req.subId =
        s.registry.getEntry req.connId req.subId
  | .pubsub .lose | .pubsub .fail => s.opened = false
  | .query session => (db.rowsRead s.log req.query session).countP req.query.selects ≤
      req.query.pageLimit.toNat
  | _ => True

/-- Sent, found, or still to be looked for. -/
def Covered (s : State) (id : EventId) : Prop := id ∈ s.delivered ∨ id ∈ s.history ∨
    s.beforeQuery = true

/-- The event will not come to the pod's fan-out any more. -/
def PassedBy (req : Request) (s : State) (d : Dispatch) : Prop :=
  if d.pod = req.pod then d.stage = .done
  else d.stage ≠ .committed ∧ d.row.message ∉ s.stream ∧ d.row.channelEvent ∉ s.broadcast

/-- No step lets an event go by for good. Another pod's PUBLISH finds the pod subscribed,
unless the history covers the event; the history has what has passed by; the consumer keeps up
with the bus; the access checks admit the reader. -/
def Caught (req : Request) (db : RouteConfig) (s : State) : Action → Prop
  | .publish i => ∀ d ∈ s.dispatches[i]?, d.pod ≠ req.pod →
      req.Matches d.row.communityId d.row.stored →
      d.row.topic.redisChannel ∈ s.pubsub.redis ∨ s.Covered d.row.event.id
  | .query session => ∀ d ∈ s.dispatches, req.Matches d.row.communityId d.row.stored →
      s.PassedBy req d →
      d.row.event.id ∉ s.delivered → d.row ∈ db.rowsRead s.log req.query session ∧
        req.query.selects d.row = true
  | .receive => s.broadcast.length < BROADCAST_CAPACITY
  | .fanOut i answers => ∀ d ∈ s.dispatches[i]?, d.pod = req.pod →
      req.Matches d.row.communityId d.row.stored →
      req.AccessGiven answers ∧ ownerGate answers.pubkeyForConn d.row.event = true
  | .consume answers => ∀ e ∈ s.broadcast.head?, req.Matches e.communityId e.stored →
      req.AccessGiven answers
  | _ => True

/-! ## The invariant -/

structure Inv (req : Request) (s : State) : Prop where
  index : SubscriptionRegistry.IndexInv s.registry
  entry : s.opened = true → s.registry.getEntry req.connId req.subId = some req.entry
  logged : ∀ row ∈ s.log, ∃ d ∈ s.dispatches, d.row = row
  dispatched : ∀ d ∈ s.dispatches, d.row ∈ s.log
  distinct : (s.dispatches.map fun d => d.row.key).Nodup
  marked : ∀ key ∈ s.localEventIds, ∃ d ∈ s.dispatches, d.pod = req.pod ∧ d.row.key = key
  covered : ∀ d ∈ s.dispatches, req.Matches d.row.communityId d.row.stored → s.PassedBy req d →
    s.Covered d.row.event.id

theorem inv_init : Inv req init where
  index := SubscriptionRegistry.indexInv_new
  entry := fun h => absurd h (by simp [opened, init])
  logged := fun _ h => absurd h List.not_mem_nil
  dispatched := fun _ h => absurd h List.not_mem_nil
  distinct := List.nodup_nil
  marked := fun _ h => absurd h (Finset.notMem_empty _)
  covered := fun _ h => absurd h List.not_mem_nil

/-- An open subscription is reached by what it is for. -/
theorem reaches_of_opened (h : Inv req s) (hopen : s.opened = true) (hm : req.Matches c stored)
    (ha : req.AccessGiven answers) : s.reaches req answers c stored = true := by
  unfold reaches
  rw [Request.filterFanoutByAccess_of_accessGiven ha hm, Bool.and_true, List.contains_iff_mem,
    SubscriptionRegistry.mem_fanOutScoped h.index]
  exact ⟨req.entry, h.entry hopen, hm.1.symm, hm.2.1.symm, hm.2.2.1⟩

theorem covered_of_not_opened (h : s.opened ≠ true) (id : EventId) : s.Covered id := by
  refine .inr (.inr ?_)
  unfold opened at h
  unfold beforeQuery
  split at h
  · rename_i hreq
    rw [hreq]
  · exact absurd rfl h

/-- Two dispatches of one key are one. -/
theorem eq_of_key {d e : Dispatch} (h : Inv req s) (hd : d ∈ s.dispatches) (he : e ∈ s.dispatches)
    (hkey : d.row.key = e.row.key) : d = e :=
  List.inj_on_of_nodup_map h.distinct hd he hkey

/-! ## The steps of a dispatch -/

/-- A dispatch that moved on keeps its pod and its row. -/
theorem mem_set_of_mem {i : Nat} {stage : Stage} {e : Dispatch} (hi : s.dispatches[i]? = some d)
    (hmem : e ∈ s.dispatches) : ∃ e' ∈ s.dispatches.set i { d with stage }, e'.pod = e.pod ∧
    e'.row = e.row := by
  obtain ⟨j, hj⟩ := List.mem_iff_getElem?.mp hmem
  by_cases hji : j = i
  · rw [hji, hi] at hj
    cases hj
    obtain ⟨hlt, _⟩ := List.getElem?_eq_some_iff.mp hi
    exact ⟨{ d with stage }, List.mem_iff_getElem?.mpr ⟨i, List.getElem?_set_self hlt⟩, rfl, rfl⟩
  · refine ⟨e, List.mem_iff_getElem?.mpr ⟨j, ?_⟩, rfl, rfl⟩
    rw [List.getElem?_set_ne (fun h => hji h.symm), hj]

theorem map_key_set {i : Nat} {stage : Stage} (hi : s.dispatches[i]? = some d) :
    ((s.dispatches.set i { d with stage }).map fun d => d.row.key) = s.dispatches.map fun d =>
    d.row.key := by
  rw [List.map_set]
  refine List.ext_getElem? ?_
  intro j
  by_cases hji : i = j
  · rw [← hji, List.getElem?_map, hi]
    have hlt : i < (s.dispatches.map fun d => d.row.key).length := by
      rw [List.length_map]
      exact (List.getElem?_eq_some_iff.mp hi).1
    rw [List.getElem?_set_self hlt]
    rfl
  · rw [List.getElem?_set_ne hji]

/-- What all dispatches hold among them is kept when one of them moves on. -/
theorem inv_moved {i : Nat} {stage : Stage} {localEventIds : Finset (CommunityId × EventId)}
    {stream : List Message}
    {delivered : List EventId} (h : Inv req s) (hi : s.dispatches[i]? = some d)
    (hmarked : ∀ key ∈ localEventIds, key ∈ s.localEventIds ∨ (d.pod = req.pod ∧ d.row.key = key))
    (hstream : ∀ m ∈ s.stream, m ∈ stream) (hdelivered : ∀ id ∈ s.delivered, id ∈ delivered)
    (hself : req.Matches d.row.communityId d.row.stored →
      PassedBy req { s with
        dispatches := s.dispatches.set i { d with stage }, localEventIds, stream, delivered }
        { d with stage } → d.row.event.id ∈ delivered ∨ d.row.event.id ∈ s.history ∨
          s.beforeQuery = true) :
    Inv req { s with
      dispatches := s.dispatches.set i { d with stage }, localEventIds, stream, delivered } where
  index := h.index
  entry := h.entry
  logged := by
    intro row hrow
    obtain ⟨e, he, heq⟩ := h.logged row hrow
    obtain ⟨e', he', _, hrow'⟩ := mem_set_of_mem hi he
    exact ⟨e', he', by rw [hrow', heq]⟩
  dispatched := by
    intro e he
    rcases List.mem_or_eq_of_mem_set he with he | he
    · exact h.dispatched e he
    · rw [he]
      exact h.dispatched d (List.mem_of_getElem? hi)
  distinct := by
    show ((s.dispatches.set i { d with stage }).map fun d => d.row.key).Nodup
    rw [map_key_set hi]
    exact h.distinct
  marked := by
    intro key hkey
    rcases hmarked key hkey with hold | ⟨hpod, hd⟩
    · obtain ⟨e, he, hpod, hrow⟩ := h.marked key hold
      obtain ⟨e', he', hpod', hrow'⟩ := mem_set_of_mem hi he
      exact ⟨e', he', by rw [hpod', hpod], by rw [hrow', hrow]⟩
    · obtain ⟨e', he', hpod', hrow'⟩ := mem_set_of_mem hi (List.mem_of_getElem? hi)
      exact ⟨e', he', by rw [hpod', hpod], by rw [hrow', hd]⟩
  covered := by
    intro e he hm hpassed
    rcases List.mem_or_eq_of_mem_set he with he | he
    · have hold : s.PassedBy req e := by
        unfold PassedBy at hpassed ⊢
        split at hpassed
        · rename_i hpod
          rw [if_pos hpod]
          exact hpassed
        · rename_i hpod
          rw [if_neg hpod]
          exact ⟨hpassed.1, fun hmem => hpassed.2.1 (hstream _ hmem), hpassed.2.2⟩
      rcases h.covered e he hm hold with hdone | hrest
      · exact .inl (hdelivered _ hdone)
      · exact .inr hrest
    · rw [he] at hm hpassed ⊢
      exact hself hm hpassed

theorem inv_publish {i : Nat} (h : Inv req s) (hcaught : Caught req db s (.publish i))
    (hstep : step req db s (.publish i) = some s') : Inv req s' := by
  simp only [step] at hstep
  split at hstep
  · rename_i pod row hi
    cases hstep
    refine @inv_moved req s ⟨pod, row, .committed⟩ i .published _ _ _ h hi ?_ ?_
      (fun _ hid => hid) ?_
    · intro key hkey
      split at hkey
      · rename_i hpod
        rcases Finset.mem_insert.mp hkey with heq | hold
        · exact .inr ⟨hpod, heq.symm⟩
        · exact .inl hold
      · exact .inl hkey
    · intro m hm
      split
      · exact List.mem_append_left _ hm
      · exact hm
    · intro hm hpassed
      unfold PassedBy at hpassed
      split at hpassed
      · cases hpassed
      rename_i hpod
      rcases hcaught _ hi hpod hm with hsub | hcov
      · -- the message is on the connection
        obtain ⟨_, hstream, _⟩ := hpassed
        simp only at hstream hsub
        rw [if_pos hsub] at hstream
        exact absurd (List.mem_append_right _ (List.mem_singleton.mpr rfl)) hstream
      · exact hcov
  · cases hstep

theorem inv_fanOut {i : Nat} (h : Inv req s) (hcaught : Caught req db s (.fanOut i answers))
    (hstep : step req db s (.fanOut i answers) = some s') : Inv req s' := by
  simp only [step] at hstep
  split at hstep
  · rename_i pod row hi
    cases hstep
    refine @inv_moved req s ⟨pod, row, .published⟩ i .done _ _ _ h hi (fun _ hkey => .inl hkey)
      (fun _ hm => hm) ?_ ?_
    · intro id hid
      split
      · exact List.mem_append_left _ hid
      · exact hid
    · intro hm hpassed
      by_cases hpod : pod = req.pod
      · by_cases hopen : s.opened = true
        · obtain ⟨haccess, howner⟩ := hcaught _ hi hpod hm
          rw [if_pos ⟨hpod, reaches_of_opened h hopen hm haccess, howner⟩]
          exact .inl (List.mem_append_right _ (List.mem_singleton.mpr rfl))
        · rcases covered_of_not_opened hopen row.event.id with hdone | hrest
          · split
            · exact .inl (List.mem_append_left _ hdone)
            · exact .inl hdone
          · exact .inr hrest
      · -- another pod's own subscribers are not this one
        rw [if_neg (fun hc => hpod hc.1)]
        refine h.covered _ (List.mem_of_getElem? hi) hm ?_
        unfold PassedBy at hpassed ⊢
        rw [if_neg hpod] at hpassed ⊢
        exact ⟨by simp, hpassed.2⟩
  · cases hstep

/-! ## The other steps -/

theorem inv_commit {pod : Nat} {row : EventRow} (h : Inv req s)
    (hstep : step req db s (.commit pod row) = some s') : Inv req s' := by
  simp only [step] at hstep
  split at hstep
  · rename_i hnew
    cases hstep
    exact
      { index := h.index
        entry := h.entry
        logged := by
          intro r hr
          rcases List.mem_append.mp hr with hr | hr
          · obtain ⟨d, hd, heq⟩ := h.logged r hr
            exact ⟨d, List.mem_append_left _ hd, heq⟩
          · exact ⟨⟨pod, row, .committed⟩, List.mem_append_right _ (List.mem_singleton.mpr rfl),
              (List.mem_singleton.mp hr).symm⟩
        dispatched := by
          intro d hd
          rcases List.mem_append.mp hd with hd | hd
          · exact List.mem_append_left _ (h.dispatched d hd)
          · rw [List.mem_singleton.mp hd]
            exact List.mem_append_right _ (List.mem_singleton.mpr rfl)
        distinct := by
          rw [List.map_append, List.map_singleton, List.nodup_append]
          refine ⟨h.distinct, List.nodup_singleton _, ?_⟩
          intro k hk k' hk' heq
          obtain ⟨d, hd, hdk⟩ := List.mem_map.mp hk
          rw [List.mem_singleton.mp hk'] at heq
          exact hnew.2 d.row (h.dispatched d hd) (hdk.trans heq)
        marked := by
          intro key hkey
          obtain ⟨d, hd, hpod, heq⟩ := h.marked key hkey
          exact ⟨d, List.mem_append_left _ hd, hpod, heq⟩
        covered := by
          intro d hd hm hpassed
          rcases List.mem_append.mp hd with hd | hd
          · exact h.covered d hd hm hpassed
          rw [List.mem_singleton.mp hd] at hpassed
          unfold PassedBy at hpassed
          split at hpassed
          · cases hpassed
          · exact absurd rfl hpassed.1 }
  · cases hstep

/-- The event of a row's message is read back with its topic. -/
theorem parse_message (row : EventRow) :
    EventTopicKey.parseRedisChannel row.message.channel = .ok row.topic :=
  parse_redisChannel row.topic

theorem inv_receive (h : Inv req s) (hcaught : Caught req db s .receive)
    (hstep : step req db s .receive = some s') : Inv req s' := by
  simp only [step] at hstep
  split at hstep
  · rename_i message rest htask hstream
    split at hstep
    · split at hstep
      · rename_i key hparse
        have hroom : s.broadcast.length < BROADCAST_CAPACITY := hcaught
        rw [if_pos hroom] at hstep
        cases hstep
        refine { h with covered := ?_ }
        intro d hd hm hpassed
        refine h.covered d hd hm ?_
        unfold PassedBy at hpassed ⊢
        split at hpassed
        · rename_i hpod
          rw [if_pos hpod]
          exact hpassed
        rename_i hpod
        rw [if_neg hpod, hstream]
        obtain ⟨hstage, hrest, hbroadcast⟩ := hpassed
        refine ⟨hstage, ?_, fun hmem => hbroadcast (List.mem_append_left _ hmem)⟩
        intro hmem
        rcases List.mem_cons.mp hmem with heq | hmem
        · -- what leaves the stream arrives in the broadcast
          rw [← heq, parse_message] at hparse
          refine hbroadcast (List.mem_append_right _ (List.mem_singleton.mpr ?_))
          rw [← Except.ok.inj hparse, ← heq]
          rfl
        · exact hrest hmem
      · rename_i hparse
        cases hstep
        refine { h with covered := ?_ }
        intro d hd hm hpassed
        refine h.covered d hd hm ?_
        unfold PassedBy at hpassed ⊢
        split at hpassed
        · rename_i hpod
          rw [if_pos hpod]
          exact hpassed
        rename_i hpod
        rw [if_neg hpod, hstream]
        refine ⟨hpassed.1, ?_, hpassed.2.2⟩
        intro hmem
        rcases List.mem_cons.mp hmem with heq | hmem
        · rw [← heq, parse_message] at hparse
          cases hparse
        · exact hpassed.2.1 hmem
    · cases hstep
  · cases hstep

theorem stored_channelEvent (row : EventRow) : row.channelEvent.stored = row.stored := by
  obtain ⟨c, ⟨event, channelId⟩, dTag, mentions, deleted⟩ := row
  cases channelId with
  | none => rfl
  | some id => rfl

/-- Of an event that leaves the broadcast, only the pods' marks and the access check can keep
it from the subscription. -/
theorem inv_consume (h : Inv req s) (hcaught : Caught req db s (.consume answers))
    (hstep : step req db s (.consume answers) = some s') : Inv req s' := by
  simp only [step] at hstep
  split at hstep
  · rename_i e rest hbroadcast
    -- what is asked of a dispatch whose event stays covered
    have hkeep : ∀ {delivered : List EventId} {d : Dispatch}, d ∈ s.dispatches →
        req.Matches d.row.communityId d.row.stored → (∀ id ∈ s.delivered, id ∈ delivered) →
        (d.pod ≠ req.pod → d.row.channelEvent = e →
          d.row.event.id ∈ delivered ∨ d.row.event.id ∈ s.history ∨ s.beforeQuery = true) →
        (if d.pod = req.pod then d.stage = .done
          else d.stage ≠ .committed ∧ d.row.message ∉ s.stream ∧ d.row.channelEvent ∉ rest) →
        d.row.event.id ∈ delivered ∨ d.row.event.id ∈ s.history ∨ s.beforeQuery = true := by
      intro delivered d hd hm hmono hself hpassed
      by_cases hpod : d.pod = req.pod
      · rw [if_pos hpod] at hpassed
        rcases h.covered d hd hm (by unfold PassedBy; rw [if_pos hpod]; exact hpassed)
          with hdone | hrest
        · exact .inl (hmono _ hdone)
        · exact .inr hrest
      · rw [if_neg hpod] at hpassed
        by_cases heq : d.row.channelEvent = e
        · exact hself hpod heq
        rcases h.covered d hd hm (by
          unfold PassedBy
          rw [if_neg hpod, hbroadcast]
          exact ⟨hpassed.1, hpassed.2.1, List.not_mem_cons_of_ne_of_not_mem heq hpassed.2.2⟩)
            with hdone | hrest
        · exact .inl (hmono _ hdone)
        · exact .inr hrest
    split at hstep
    · rename_i hmark
      cases hstep
      refine { h with
        marked := fun key hkey => h.marked key (Finset.mem_of_mem_erase hkey), covered := ?_ }
      intro d hd hm hpassed
      refine hkeep hd hm (fun _ hid => hid) ?_ hpassed
      intro hpod heq
      -- the mark is of an event of this pod
      obtain ⟨d', hd', hpod', hkey⟩ := h.marked _ hmark
      have hsame := eq_of_key h hd hd' (by rw [hkey, ← heq]; rfl)
      rw [hsame] at hpod
      exact absurd hpod' hpod
    · split at hstep
      · cases hstep
        refine { h with covered := ?_ }
        intro d hd hm hpassed
        refine hkeep hd hm (fun _ hid => List.mem_append_left _ hid) ?_ hpassed
        intro _ heq
        refine .inl (List.mem_append_right _ (List.mem_singleton.mpr ?_))
        rw [← heq]
        rfl
      · rename_i hunreached
        cases hstep
        refine { h with covered := ?_ }
        intro d hd hm hpassed
        refine hkeep hd hm (fun _ hid => hid) ?_ hpassed
        intro _ heq
        refine covered_of_not_opened ?_ _
        intro hopen
        have hme : req.Matches e.communityId e.stored := by
          rw [← heq, stored_channelEvent]
          exact hm
        exact hunreached (reaches_of_opened h hopen hme (hcaught e (by rw [hbroadcast]; rfl) hme))
  · cases hstep

theorem inv_query {session : ReadSession} (h : Inv req s)
    (hgranted : Granted req db s (.query session))
    (hcaught : Caught req db s (.query session))
    (hstep : step req db s (.query session) = some s') : Inv req s' := by
  simp only [step] at hstep
  split at hstep
  · rename_i hreq
    cases hstep
    refine { h with entry := fun _ => h.entry (by simp [opened, hreq]), covered := ?_ }
    intro d hd hm hpassed
    by_cases hdone : d.row.event.id ∈ s.delivered
    · exact .inl hdone
    · obtain ⟨hread, hsel⟩ := hcaught d hd hm hpassed hdone
      exact .inr (.inl (Request.mem_historical hm hread hsel hgranted))
  · cases hstep

theorem inv_eose (h : Inv req s) (hstep : step req db s .eose = some s') : Inv req s' := by
  simp only [step] at hstep
  split at hstep
  · rename_i found hreq
    cases hstep
    refine { h with entry := fun _ => h.entry (by simp [opened, hreq]), covered := ?_ }
    intro d hd hm hpassed
    rcases h.covered d hd hm hpassed with hdone | hfound | hbefore
    · exact .inl (List.mem_append_left _ hdone)
    · unfold history at hfound
      rw [hreq] at hfound
      exact .inl (List.mem_append_right _ hfound)
    · unfold beforeQuery at hbefore
      rw [hreq] at hbefore
      cases hbefore
  · cases hstep

theorem inv_pubsub {action : PubSub.Action} (h : Inv req s)
    (hgranted : Granted req db s (.pubsub action))
    (hstep : step req db s (.pubsub action) = some s') : Inv req s' := by
  simp only [step] at hstep
  split at hstep
  · cases hstep
    refine { h with covered := ?_ }
    by_cases hfail : action = .fail
    · rw [hfail] at hgranted
      have hclosed : s.opened = false := hgranted
      intro d _ _ _
      refine covered_of_not_opened ?_ d.row.event.id
      show s.opened ≠ true
      rw [hclosed]
      simp
    · rw [if_neg hfail]
      exact h.covered
  · cases hstep

/-- **The invariant of one step.** -/
theorem inv_step (h : Inv req s) (hgranted : Granted req db s a) (hcaught : Caught req db s a)
    (hstep : step req db s a = some s') : Inv req s' := by
  cases a with
  | registry call =>
    cases hstep
    refine { h with index := SubscriptionRegistry.indexInv_call h.index call, entry := ?_ }
    intro hopen
    exact (hgranted hopen).trans (h.entry hopen)
  | pubsub action => exact inv_pubsub h hgranted hstep
  | commit pod row => exact inv_commit h hstep
  | publish i => exact inv_publish h hcaught hstep
  | fanOut i answers => exact inv_fanOut h hcaught hstep
  | receive => exact inv_receive h hcaught hstep
  | consume answers => exact inv_consume h hcaught hstep
  | expire key =>
    cases hstep
    exact { h with marked := fun k hk => h.marked k (Finset.mem_of_mem_erase hk) }
  | register =>
    simp only [step] at hstep
    split at hstep
    · rename_i hreq
      cases hstep
      refine { h with
        index := SubscriptionRegistry.indexInv_registerScoped h.index _ _ _ _ _
        entry := fun _ => by
          rw [SubscriptionRegistry.getEntry_registerScoped, if_pos ⟨rfl, rfl⟩]
          rfl
        covered := fun d _ _ _ => .inr (.inr rfl) }
    · cases hstep
  | release =>
    simp only [step] at hstep
    split at hstep
    · rename_i replaced hreq
      cases hstep
      refine { h with
        entry := fun _ => h.entry (by simp [opened, hreq]),
        covered := fun d _ _ _ => .inr (.inr rfl) }
    · rename_i hreq
      cases hstep
      refine { h with
        entry := fun _ => h.entry (by simp [opened, hreq]),
        covered := fun d _ _ _ => .inr (.inr rfl) }
    · cases hstep
  | retain =>
    simp only [step] at hstep
    split at hstep
    · rename_i hreq
      cases hstep
      refine { h with
        entry := fun _ => h.entry (by simp [opened, hreq]),
        covered := fun d _ _ _ => .inr (.inr rfl) }
    · cases hstep
  | query session => exact inv_query h hgranted hcaught hstep
  | eose => exact inv_eose h hstep

theorem inv_run {as : List Action} (hrun : (machine req db).run init as = some s)
    (hkept : (machine req db).Always (fun s a => Granted req db s a ∧ Caught req db s a) init as) :
    Inv req s :=
  Machine.invariant (fun _ _ _ h hk hstep => inv_step h hk.1 hk.2 hstep) inv_init hkept hrun

/-- Where everything has gone its way, every event has passed by. -/
theorem passedBy_of_settled (h : s.Settled) (hd : d ∈ s.dispatches) : s.PassedBy req d := by
  have hdone := h.dispatches d hd
  unfold PassedBy
  split
  · exact hdone
  · rw [hdone, h.stream, h.broadcast]
    exact ⟨by simp, List.not_mem_nil, List.not_mem_nil⟩

/-- **No gap.** In every interleaving whose steps let no event go by for good, every event the
subscription is for is delivered, as history or live. -/
theorem no_gap (req : Request) (db : RouteConfig) (as : List Action) (s : State)
    (hrun : (machine req db).run init as = some s)
    (hkept : (machine req db).Always (fun s a => Granted req db s a ∧ Caught req db s a) init as)
    (hsettled : s.Settled) : NoGap req s := by
  have hinv := inv_run hrun hkept
  intro row hrow hm
  obtain ⟨d, hd, heq⟩ := hinv.logged row hrow
  rw [← heq] at hm ⊢
  rcases hinv.covered d hd hm (passedBy_of_settled hsettled hd) with hdone | hfound | hbefore
  · exact hdone
  · unfold history at hfound
    rw [hsettled.req] at hfound
    cases hfound
  · unfold beforeQuery at hbefore
    rw [hsettled.req] at hbefore
    cases hbefore

/-! ## Runs -/

instance decidableGranted (req : Request) (db : RouteConfig) (s : State) :
    ∀ a, Decidable (Granted req db s a)
  | .registry _ => inferInstanceAs (Decidable (_ → _))
  | .pubsub action =>
    match action with
    | .lose | .fail => inferInstanceAs (Decidable (_ = _))
    | .retain _ | .release _ | .elapse _ | .send _ | .connect | .snapshot
        _ | .subscribeInitial | .listen | .receive
    | .subscribed | .check | .unsubscribed => isTrue trivial
  | .query _ => inferInstanceAs (Decidable (_ ≤ _))
  | .commit _ _ | .publish _ | .fanOut _ _ | .receive | .consume _ | .expire
      _ | .register | .release | .retain | .eose =>
    isTrue trivial

instance (s : State) (id : EventId) : Decidable (s.Covered id) :=
  inferInstanceAs (Decidable (_ ∨ _ ∨ _))

instance (req : Request) (s : State) (d : Dispatch) : Decidable (s.PassedBy req d) :=
  if h : d.pod = req.pod then decidable_of_iff (d.stage = .done) (by unfold PassedBy; rw [if_pos h])
  else decidable_of_iff (d.stage ≠ .committed ∧ d.row.message ∉ s.stream ∧
    d.row.channelEvent ∉ s.broadcast) (by unfold PassedBy; rw [if_neg h])

instance decidableCaught (req : Request) (db : RouteConfig) (s : State) :
    ∀ a, Decidable (Caught req db s a)
  | .publish i => inferInstanceAs (Decidable (∀ d ∈ s.dispatches[i]?, _))
  | .query _ => inferInstanceAs (Decidable (∀ d ∈ s.dispatches, _))
  | .receive => inferInstanceAs (Decidable (_ < _))
  | .fanOut i _ => inferInstanceAs (Decidable (∀ d ∈ s.dispatches[i]?, _))
  | .consume _ => inferInstanceAs (Decidable (∀ e ∈ s.broadcast.head?, _))
  | .registry _ | .pubsub _ | .commit _ _ | .expire _ | .register | .release | .retain | .eose =>
      isTrue trivial

/-- A request for the messages of a channel. -/
def someRequest : Request where
  pod := 0
  connId := .ofNat 16 1
  subId := "messages"
  community := ⟨.ofNat 16 2⟩
  reader := .ofNat 32 3
  filter := {
    kinds := some [9], genericTags := [(SingleLetterTag.h, [(Uuid.toString (.ofNat 16 4))])] }
  channelId := .ofNat 16 4
  accessibleChannels := [.ofNat 16 4]
  channelScoped := by decide
  noSearch := rfl
  accessible := by decide

/-- A message of the channel. -/
def someRow : EventRow :=
  ⟨someRequest.community,
    ⟨⟨.ofNat 32 5, .ofNat 32 6, 1700000000, 9, [⟨["h", Uuid.toString (.ofNat 16 4)], by simp⟩]⟩,
      some (.ofNat 16 4)⟩, none, [],
    false⟩

def writerOnly : RouteConfig := ⟨false, none⟩

def someSession : ReadSession := ⟨.new, 0, none, 0, 0, false⟩

def readerAnswers : Answers :=
  ⟨some someRequest.community, some someRequest.reader, some "open", none⟩

/-- The pod is connected, and the request retains its topic. -/
def asked : List Action :=
  [.pubsub .connect, .pubsub (.snapshot []), .pubsub .listen, .register, .release, .retain]

/-- The queued command is sent, taken, and carried out. -/
def subscribes : List Action := [.pubsub (.send 0), .pubsub .receive, .pubsub .subscribed]

def answered : List Action := [.query someSession, .eose]

/-- Another pod takes the message. -/
def published : List Action := [.commit 1 someRow, .publish 0, .fanOut 0 readerAnswers]

/-- With the SUBSCRIBE in effect the message of another pod arrives live. -/
theorem no_gap_live :
    ∃ s, (machine someRequest writerOnly).run init
        (asked ++ subscribes ++ answered ++ published ++ [.receive, .consume readerAnswers]) =
          some s
      ∧ someRow ∈ s.log ∧ someRow.event.id ∈ s.delivered := by
  have hany : ((machine someRequest writerOnly).run init
      (asked ++ subscribes ++ answered ++ published ++ [.receive,
        .consume readerAnswers])).any (fun s =>
      decide (s.req = .done) && decide (s.dispatches = [⟨1, someRow, .done⟩]) &&
        decide (s.stream = [])
        && decide (s.broadcast = []) && decide (s.log = [someRow])) = true := by decide
  obtain ⟨s, hrun, hvals⟩ := (Option.any_eq_true _ _).mp hany
  simp only [Bool.and_eq_true, decide_eq_true_eq] at hvals
  obtain ⟨⟨⟨⟨hreq, hdispatches⟩, hstream⟩, hbroadcast⟩, hlog⟩ := hvals
  have hsettled : s.Settled := ⟨hreq, by rw [hdispatches]; simp, hstream, hbroadcast⟩
  have hrow : someRow ∈ s.log := by rw [hlog]; simp
  exact ⟨s, hrun, hrow,
    no_gap someRequest writerOnly _ s hrun (by decide) hsettled someRow hrow (by decide)⟩

/-- The SUBSCRIBE is still queued when another pod publishes: neither the history nor the bus
brings the message. -/
theorem not_no_gap :
    ¬ ∀ (req : Request) (db : RouteConfig) (as : List Action) (s : State),
      (machine req db).run init as = some s →
      (machine req db).Always (Granted req db) init as → s.Settled → NoGap req s := by
  intro h
  have hany : ((machine someRequest writerOnly).run init (asked ++ answered ++ published ++
      subscribes)).any (fun s =>
      decide (s.req = .done) && decide (s.dispatches = [⟨1, someRow, .done⟩]) &&
        decide (s.stream = [])
        && decide (s.broadcast = []) && decide (s.log = [someRow]) && decide (s.delivered = [])) =
          true := by decide
  obtain ⟨s, hrun, hvals⟩ := (Option.any_eq_true _ _).mp hany
  simp only [Bool.and_eq_true, decide_eq_true_eq] at hvals
  obtain ⟨⟨⟨⟨⟨hreq, hdispatches⟩, hstream⟩, hbroadcast⟩, hlog⟩, hdelivered⟩ := hvals
  have hgranted : (machine someRequest writerOnly).Always (Granted someRequest writerOnly) init
      (asked ++ answered ++ published ++ subscribes) := by decide
  have hsettled : s.Settled := ⟨hreq, by rw [hdispatches]; simp, hstream, hbroadcast⟩
  have hgap := h someRequest writerOnly _ s hrun hgranted hsettled someRow
      (by rw [hlog]; simp) (by decide)
  rw [hdelivered] at hgap
  cases hgap

end State

end Pkzz.Relay
