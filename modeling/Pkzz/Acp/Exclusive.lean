import Pkzz.Acp.Conservation

/-!
# No request is delivered twice

Every accepted event is accounted for once. So if no two accepted events share an id, no id
is in two places (`OnePlace`): that much needs nothing of the in-flight bookkeeping.

That a channel has one batch out at a time does: `flush_next` refuses channels that are in
flight, and what is open is in flight as long as no deadline expires (`OpenInv`).

An event whose native steer is pending is withheld until its steer is acknowledged, or its
channel is drained. Either way it departs, and what has departed is in no place any more.
-/

namespace Pkzz.Acp

open Pkzz.Core Pkzz.Lib

namespace EventQueue

variable {q q' : EventQueue} {now : Instant} {orders : IterOrders} {batch : FlushBatch}

/-- The channel of a batch was not in flight, and is now. -/
theorem inFlightChannels_flushNext_some (hfresh : ∀ id, ¬ q.Expired now id)
    (h : q.flushNext orders now = (q', some batch)) :
    batch.channelId ∉ q.inFlightChannels
      ∧ q'.inFlightChannels = insert batch.channelId q.inFlightChannels := by
  have hcases := flushNext_cases q orders now
  rw [expireInFlight_of_fresh orders.deadlines hfresh, h] at hcases
  rcases hcases with ⟨d, hnext, hflush⟩ | ⟨d, _, hnext, hflush⟩ | ⟨_, _, hflush⟩
  · obtain ⟨hq, hb⟩ := Prod.mk.inj hflush
    rw [hq, Option.some.inj hb]
    exact ⟨(flushable_of_nextQueued hnext).2.1, rfl⟩
  · obtain ⟨hq, hb⟩ := Prod.mk.inj hflush
    rw [hq, Option.some.inj hb]
    exact ⟨not_inFlight_of_nextCancelled hnext, rfl⟩
  · cases (Prod.mk.inj hflush).2

theorem withheldNativeSteer_flushNext (hfresh : ∀ id, ¬ q.Expired now id) :
    (q.flushNext orders now).1.withheldNativeSteer = q.withheldNativeSteer := by
  have hcases := flushNext_cases q orders now
  rw [expireInFlight_of_fresh orders.deadlines hfresh] at hcases
  rcases hcases with ⟨d, _, hflush⟩ | ⟨d, _, _, hflush⟩ | ⟨_, _, hflush⟩
  · rw [hflush]
    rfl
  · rw [hflush]
    rfl
  · rw [hflush]

theorem mem_heldAt_of_flushNext (h : q.flushNext orders now = (q', some batch)) {x : BatchEvent}
    (hx : x ∈ batch.requests) : x ∈ q.heldAt batch.channelId := by
  have hflush := heldAt_flushNext_some h batch.channelId
  rw [atChannel_self] at hflush
  have hexpire := @heldAt_expireInFlight q now orders.deadlines batch.channelId
  exact hexpire.subset (List.mem_append_left _ (hflush.subset (List.mem_append_right _ hx)))

end EventQueue

namespace World

variable {w w' : World} {op : Op} {mode : DedupMode} {secs : Nat} {ops : List Op}

/-! ## One place -/

/-- No two accepted events share an id. -/
def DistinctIds (w : World) : Prop := (w.accepted.map fun qe => qe.event.id).Nodup

/-- Where an id is, it is in one position of one channel's places. -/
def OnePlace (w : World) : Prop :=
  ∀ (c d : Uuid) (i j : Nat) (x y : BatchEvent), (w.placesAt c)[i]? = some x →
    (w.placesAt d)[j]? = some y → x.event.id = y.event.id → c = d ∧ i = j

/-- The places of a channel and what departed from it, by id. -/
def idsAt (w : World) (c : Uuid) : List EventId :=
  (w.placesAt c ++ w.departedAt c).map fun x => x.event.id

variable {c : Uuid}

theorem mem_acceptedAt {x : BatchEvent} :
    x ∈ w.acceptedAt c ↔ ∃ qe ∈ w.accepted, qe.channelId = c ∧ qe.toBatchEvent = x := by
  unfold acceptedAt
  rw [List.mem_map]
  constructor
  · intro h
    obtain ⟨qe, hqe, hx⟩ := h
    obtain ⟨hmem, hc⟩ := List.mem_filter.mp hqe
    exact ⟨qe, hmem, of_decide_eq_true hc, hx⟩
  · intro h
    obtain ⟨qe, hmem, hc, hx⟩ := h
    exact ⟨qe, List.mem_filter.mpr ⟨hmem, decide_eq_true hc⟩, hx⟩

theorem subperm_acceptedAt (h : w.Accounted) (c : Uuid) :
    (w.placesAt c ++ w.departedAt c).Subperm (w.acceptedAt c) := by
  refine List.subperm_ext_iff.mpr ?_
  intro x _
  have hcx := h c x
  unfold placesAt
  unfold tally at hcx
  simp only [List.count_append]
  omega

theorem nodup_idsAt (h : w.Accounted) (hids : w.DistinctIds) (c : Uuid) : (w.idsAt c).Nodup := by
  have haccepted : ((w.acceptedAt c).map fun x => x.event.id).Nodup := by
    unfold acceptedAt
    rw [List.map_map]
    exact hids.sublist (List.filter_sublist.map _)
  obtain ⟨l, hperm, hsub⟩ := subperm_acceptedAt h c
  have hnd : (l.map fun x => x.event.id).Nodup := haccepted.sublist (hsub.map _)
  exact (hperm.map _).nodup_iff.mp hnd

/-- An id belongs to one channel. -/
theorem channel_unique (h : w.Accounted) (hids : w.DistinctIds) {d : Uuid} {x y : BatchEvent}
    (hx : x ∈ w.placesAt c ++ w.departedAt c) (hy : y ∈ w.placesAt d ++ w.departedAt d)
    (hid : x.event.id = y.event.id) : c = d := by
  obtain ⟨qe, hqe, hc, hqx⟩ := mem_acceptedAt.mp ((subperm_acceptedAt h c).subset hx)
  obtain ⟨qe', hqe', hd, hqy⟩ := mem_acceptedAt.mp ((subperm_acceptedAt h d).subset hy)
  have hsame : qe.event.id = qe'.event.id := by
    rw [← hqx, ← hqy] at hid
    exact hid
  have heq : qe = qe' := List.inj_on_of_nodup_map hids hqe hqe' hsame
  rw [← hc, ← hd, heq]

theorem onePlace_of_accounted (h : w.Accounted) (hids : w.DistinctIds) : w.OnePlace := by
  intro c d i j x y hx hy hid
  have hxc := List.mem_append_left (w.departedAt c) (List.mem_of_getElem? hx)
  have hyd := List.mem_append_left (w.departedAt d) (List.mem_of_getElem? hy)
  have hcd := channel_unique h hids hxc hyd hid
  subst hcd
  refine ⟨rfl, ?_⟩
  have hnd : ((w.placesAt c).map fun x => x.event.id).Nodup := by
    have hall := nodup_idsAt h hids c
    unfold idsAt at hall
    rw [List.map_append] at hall
    exact (List.nodup_append.mp hall).1
  have hlt : i < ((w.placesAt c).map fun x => x.event.id).length := by
    rw [List.length_map]
    exact (List.getElem?_eq_some_iff.mp hx).1
  refine (List.getElem?_inj hlt hnd).mp ?_
  rw [List.getElem?_map, List.getElem?_map, hx, hy]
  exact congrArg some hid

/-! ## One batch for each channel -/

/-- No deadline of a prompt in flight has passed when the queue looks at them. -/
def NoExpiry (w : World) : Op → Prop
  | .flushNext _ => ∀ id, ¬ w.queue.Expired w.now id
  | .hasFlushableWork _ => ∀ id, ¬ w.queue.Expired w.now id
  | _ => True

/-- The channels with a batch that was handed out and not marked complete since. -/
def openChannels (w : World) : List Uuid :=
  w.outstanding.map FlushBatch.channelId ++ w.closing.map Prod.fst

structure OpenInv (w : World) : Prop where
  /-- One batch for each channel. -/
  nodup : w.openChannels.Nodup
  /-- What is open is in flight. -/
  inFlight : ∀ c ∈ w.openChannels, c ∈ w.queue.inFlightChannels

theorem openInv_init : OpenInv (init mode secs) where
  nodup := List.nodup_nil
  inFlight := by
    intro c hc
    cases hc

/-- Only `mark_complete` takes a channel out of flight. -/
theorem inFlight_call (hfresh : w.NoExpiry op) (hc : c ∈ w.queue.inFlightChannels)
    (hne : ∀ how, op ≠ .markComplete c how) : c ∈ (w.queue.call w.now op).inFlightChannels := by
  cases op with
  | push event =>
    obtain ⟨m, hframe⟩ := @EventQueue.push_frame w.queue event
    rw [EventQueue.call, hframe]
    exact hc
  | flushNext orders =>
    rw [EventQueue.call]
    cases hflush : w.queue.flushNext orders w.now with
    | mk q handed =>
      cases handed with
      | none =>
        rw [EventQueue.flushNext_none hflush, EventQueue.expireInFlight_of_fresh _ hfresh]
        exact hc
      | some batch =>
        rw [(EventQueue.inFlightChannels_flushNext_some hfresh hflush).2]
        exact Finset.mem_insert_of_mem hc
  | hasFlushableWork orders =>
    show c ∈ (w.queue.expireInFlight orders.deadlines w.now).inFlightChannels
    rw [EventQueue.expireInFlight_of_fresh _ hfresh]
    exact hc
  | requeue batch jitter =>
    obtain ⟨m, counts, after, hframe⟩ := @EventQueue.requeue_frame w.queue w.now jitter batch
    rw [EventQueue.call, hframe]
    exact hc
  | markComplete d how =>
    have hcd : c ≠ d := by
      intro h
      exact hne how (by rw [h])
    obtain ⟨counts, after, hframe⟩ := @EventQueue.markComplete_frame w.queue w.now d
    rw [EventQueue.call, hframe]
    exact Finset.mem_erase.mpr ⟨hcd, hc⟩
  | markNativeSteerPending d eventId =>
    obtain ⟨m, n, hframe⟩ := @EventQueue.markNativeSteerPending_frame w.queue d eventId
    rw [EventQueue.call, hframe]
    exact hc
  | releaseNativeSteer d eventId =>
    obtain ⟨m, n, hframe⟩ := @EventQueue.releaseNativeSteer_frame w.queue d eventId
    rw [EventQueue.call, hframe]
    exact hc
  | extendInFlightDeadline d maxTurnSecs =>
    obtain ⟨m, hframe⟩ := @EventQueue.extendInFlightDeadline_frame w.queue w.now d maxTurnSecs
    rw [EventQueue.call, hframe]
    exact hc
  | tick d => exact hc
  | finish batch => exact hc
  | requeuePreserveTimestamps batch => exact hc
  | requeueAsCancelled batch reason => exact hc
  | removeEvent d eventId => exact hc
  | drainChannel d => exact hc
  | compactExpiredState => exact hc

theorem openInv_step (hfresh : w.NoExpiry op) (hw : w.OpenInv) (h : w.step op = some w') :
    w'.OpenInv := by
  have hqueue := (step_frame h).queue
  rcases step_open h with ⟨hout, hclosing, _, hne, _⟩ | ⟨orders, batch, hop, hbatch, hout, hclosing⟩
    | ⟨batch, how, hcloses, hmem, hout, hclosing⟩ | ⟨c, how, hop, hmem, hout, hclosing⟩
  · have hopen : w'.openChannels = w.openChannels := by
      unfold openChannels
      rw [hout, hclosing]
    refine ⟨?_, ?_⟩
    · rw [hopen]
      exact hw.nodup
    · intro c hc
      rw [hopen] at hc
      rw [hqueue]
      exact inFlight_call hfresh (hw.inFlight c hc) (fun how => hne c how)
  · -- the channel of the new batch was not in flight, so it was not open
    have hopen : w'.openChannels = batch.channelId :: w.openChannels := by
      unfold openChannels
      rw [hout, hclosing]
      rfl
    subst hop
    obtain ⟨hnew, hinsert⟩ := EventQueue.inFlightChannels_flushNext_some hfresh
      (Prod.ext rfl hbatch : w.queue.flushNext orders w.now = (_, some batch))
    refine ⟨?_, ?_⟩
    · rw [hopen]
      refine List.nodup_cons.mpr ⟨?_, hw.nodup⟩
      intro hc
      exact hnew (hw.inFlight _ hc)
    · intro c hc
      rw [hopen] at hc
      rw [hqueue]
      show c ∈ (w.queue.flushNext orders w.now).1.inFlightChannels
      rw [hinsert, Finset.mem_insert]
      rcases List.mem_cons.mp hc with hc | hc
      · exact .inl hc
      · exact .inr (hw.inFlight c hc)
  · -- the batch is not outstanding any more, but its channel stays open
    have hopen : w'.openChannels.Perm w.openChannels := by
      unfold openChannels
      rw [hout, hclosing, List.map_cons]
      refine List.perm_middle.trans ?_
      exact ((List.perm_cons_erase hmem).map FlushBatch.channelId).symm.append_right _
    refine ⟨hopen.nodup_iff.mpr hw.nodup, ?_⟩
    intro c hc
    rw [hqueue]
    refine inFlight_call hfresh (hw.inFlight c (hopen.subset hc)) ?_
    intro how' hop
    rw [hop] at hcloses
    cases hcloses
  · have hopen : w.openChannels.Perm (c :: w'.openChannels) := by
      unfold openChannels
      rw [hout, hclosing]
      refine (List.Perm.append_left _ ((List.perm_cons_erase hmem).map Prod.fst)).trans ?_
      exact List.perm_middle
    obtain ⟨hnot, hnd⟩ := List.nodup_cons.mp (hopen.nodup_iff.mp hw.nodup)
    refine ⟨hnd, ?_⟩
    intro d hd
    rw [hqueue]
    refine inFlight_call hfresh (hw.inFlight d (hopen.symm.subset (List.mem_cons_of_mem _ hd))) ?_
    intro how' hop'
    rw [hop] at hop'
    cases hop'
    exact hnot hd

theorem openInv_run (h : dispatch.run (init mode secs) ops = some w)
    (hfresh : dispatch.Always NoExpiry (init mode secs) ops) : w.OpenInv :=
  Machine.invariant (fun _ _ _ hs hf hstep => openInv_step hf hs hstep) openInv_init hfresh h

/-! ## Acknowledged steers -/

/-- An event with this id departed from the channel. -/
def Gone (w : World) (c : Uuid) (eventId : String) : Prop :=
  ∃ d ∈ w.departed, d.channelId = c ∧ d.event.event.id.toHex = eventId

/-- An event with this id is withheld, or it departed since. -/
def SteerPending (w : World) (c : Uuid) (eventId : String) : Prop :=
  (∃ qe ∈ Map.bucket w.queue.withheldNativeSteer c, QueuedEvent.hasId eventId qe = true)
    ∨ w.Gone c eventId

variable {eventId : String}

theorem gone_step (hw : w.Gone c eventId) (h : w.step op = some w') :
    w'.Gone c eventId := by
  obtain ⟨d, hd, hdc⟩ := hw
  obtain ⟨l, hl⟩ := (step_frame h).departed
  refine ⟨d, ?_, hdc⟩
  rw [hl]
  exact List.mem_append_left _ hd

theorem gone_of_depart {fate : Fate} {l : List BatchEvent}
    {qe : QueuedEvent} (hqe : qe.toBatchEvent ∈ l) (hid : QueuedEvent.hasId eventId qe = true)
    (hdep : w'.departed = (w.depart c fate l).departed) : w'.Gone c eventId := by
  refine ⟨Departure.mk c fate qe.toBatchEvent, ?_, rfl, ?_⟩
  · rw [hdep]
    exact List.mem_append_right _ (List.mem_map_of_mem hqe)
  · exact beq_iff_eq.mp hid

/-- The acknowledgement takes the event away. -/
theorem gone_removeEvent (hw : w.SteerPending c eventId)
    (h : w.step (.removeEvent c eventId) = some w') : w'.Gone c eventId := by
  rcases hw with ⟨qe, hqe, hid⟩ | hgone
  · cases h
    refine @gone_of_depart w _ _ _ _ _ qe ?_ hid rfl
    refine List.mem_map_of_mem (List.mem_append_left _ ?_)
    exact List.mem_filter.mpr ⟨hqe, hid⟩
  · exact gone_step hgone h

/-- A pending steer stays pending until it is released. -/
theorem steerPending_step (hfresh : w.NoExpiry op)
    (hne : op ≠ .releaseNativeSteer c eventId) (hw : w.SteerPending c eventId)
    (h : w.step op = some w') : w'.SteerPending c eventId := by
  rcases hw with ⟨qe, hqe, hid⟩ | hgone
  swap
  · exact .inr (gone_step hgone h)
  have hqueue := (step_frame h).queue
  have hkept : (w.queue.call w.now op).withheldNativeSteer = w.queue.withheldNativeSteer →
      w'.SteerPending c eventId := by
    intro hsame
    refine .inl ⟨qe, ?_, hid⟩
    rw [hqueue, hsame]
    exact hqe
  cases op with
  | push event =>
    obtain ⟨m, hframe⟩ := @EventQueue.push_frame w.queue event
    refine hkept ?_
    rw [EventQueue.call, hframe]
  | flushNext orders => exact hkept (EventQueue.withheldNativeSteer_flushNext hfresh)
  | hasFlushableWork orders =>
    refine hkept ?_
    show (w.queue.expireInFlight orders.deadlines w.now).withheldNativeSteer = _
    rw [EventQueue.expireInFlight_of_fresh _ hfresh]
  | requeue batch jitter =>
    obtain ⟨m, counts, after, hframe⟩ := @EventQueue.requeue_frame w.queue w.now jitter batch
    refine hkept ?_
    rw [EventQueue.call, hframe]
  | markComplete d how =>
    obtain ⟨counts, after, hframe⟩ := @EventQueue.markComplete_frame w.queue w.now d
    refine hkept ?_
    rw [EventQueue.call, hframe]
  | extendInFlightDeadline d maxTurnSecs =>
    obtain ⟨m, hframe⟩ := @EventQueue.extendInFlightDeadline_frame w.queue w.now d maxTurnSecs
    refine hkept ?_
    rw [EventQueue.call, hframe]
  | markNativeSteerPending d eventId' =>
    -- one more event may be withheld
    cases hfind : (Map.bucket w.queue.queues d).find? (QueuedEvent.hasId eventId') with
    | none =>
      refine hkept ?_
      rw [EventQueue.call, EventQueue.markNativeSteerPending_of_none hfind]
    | some qe' =>
      refine .inl ⟨qe, ?_, hid⟩
      rw [hqueue, EventQueue.call, EventQueue.markNativeSteerPending_of_some hfind]
      exact Map.mem_bucket_pushBack.mpr (.inl hqe)
  | releaseNativeSteer d eventId' =>
    cases hfind : (Map.bucket w.queue.withheldNativeSteer d).find? (QueuedEvent.hasId eventId') with
    | none =>
      refine hkept ?_
      rw [EventQueue.call, EventQueue.releaseNativeSteer_of_none hfind]
    | some qe' =>
      refine .inl ⟨qe, ?_, hid⟩
      rw [hqueue, EventQueue.call, EventQueue.releaseNativeSteer_of_some hfind]
      show qe ∈ Map.bucket (Map.setBucket _ _ _) c
      rw [Map.bucket_setBucket]
      by_cases hcd : c = d
      · -- another event of this channel is released
        subst hcd
        have hother : ¬ QueuedEvent.hasId eventId' qe = true := by
          intro hid'
          unfold QueuedEvent.hasId at hid hid'
          have hsame : eventId = eventId' := (beq_iff_eq.mp hid).symm.trans (beq_iff_eq.mp hid')
          exact hne (by rw [hsame])
        rw [if_pos rfl]
        exact (List.mem_eraseP_of_neg hother).mpr hqe
      · rw [if_neg hcd]
        exact hqe
  | removeEvent d eventId' =>
    by_cases hsame : c = d ∧ QueuedEvent.hasId eventId' qe = true
    · obtain ⟨hcd, hid'⟩ := hsame
      subst hcd
      cases h
      refine .inr (@gone_of_depart w _ _ _ _ _ qe ?_ hid rfl)
      refine List.mem_map_of_mem (List.mem_append_left _ ?_)
      exact List.mem_filter.mpr ⟨hqe, hid'⟩
    · refine .inl ⟨qe, ?_, hid⟩
      rw [hqueue, EventQueue.call]
      refine Map.mem_bucket_retain.mpr ⟨hqe, ?_⟩
      intro hcd
      have hnot : ¬ QueuedEvent.hasId eventId' qe = true := fun hid' => hsame ⟨hcd, hid'⟩
      simpa using hnot
  | drainChannel d =>
    by_cases hcd : c = d
    · subst hcd
      cases h
      refine .inr (@gone_of_depart w _ _ _ _ _ qe ?_ hid rfl)
      exact List.mem_append_right _ (List.mem_append_left _ (List.mem_map_of_mem hqe))
    · refine .inl ⟨qe, ?_, hid⟩
      rw [hqueue, EventQueue.call]
      show qe ∈ Map.bucket (Finmap.erase d w.queue.withheldNativeSteer) c
      rw [Map.bucket_erase, if_neg hcd]
      exact hqe
  | tick d | finish batch | requeuePreserveTimestamps batch | requeueAsCancelled batch reason
  | compactExpiredState => exact hkept rfl

theorem steerPending_of_mark (hmark : (w.queue.markNativeSteerPending c eventId).2 = true)
    (h : w.step (.markNativeSteerPending c eventId) = some w') : w'.SteerPending c eventId := by
  cases hfind : (Map.bucket w.queue.queues c).find? (QueuedEvent.hasId eventId) with
  | none =>
    rw [EventQueue.markNativeSteerPending_of_none hfind] at hmark
    cases hmark
  | some qe =>
    refine .inl ⟨qe, ?_, List.find?_some hfind⟩
    rw [(step_frame h).queue, EventQueue.call, EventQueue.markNativeSteerPending_of_some hfind]
    exact Map.mem_bucket_pushBack.mpr (.inr ⟨rfl, rfl⟩)

/-- Between the two calls of an acknowledged steer. -/
theorem steerPending_run (hnot : Op.releaseNativeSteer c eventId ∉ ops)
    (hfresh : dispatch.Always NoExpiry w ops) (hw : w.SteerPending c eventId)
    (h : dispatch.run w ops = some w') : w'.SteerPending c eventId := by
  induction ops generalizing w with
  | nil =>
    cases h
    exact hw
  | cons op ops ih =>
    obtain ⟨v, hstep, hrest⟩ := Machine.run_cons.mp h
    rw [List.mem_cons, not_or] at hnot
    refine ih hnot.2 (hfresh.2 v hstep) ?_ hrest
    exact steerPending_step hfresh.1 (Ne.symm hnot.1) hw hstep

/-- What is gone is in no batch. -/
theorem not_mem_of_gone (hw : w.Accounted) (hids : w.DistinctIds)
    (hgone : w.Gone c eventId) {orders : IterOrders} {q : EventQueue} {batch : FlushBatch}
    (hflush : w.queue.flushNext orders w.now = (q, some batch)) :
    ∀ x ∈ batch.requests, x.event.id.toHex ≠ eventId := by
  intro x hx hxid
  obtain ⟨d, hd, hdc, hdid⟩ := hgone
  have hplace : x ∈ w.placesAt batch.channelId :=
    List.mem_append_left _ (EventQueue.mem_heldAt_of_flushNext hflush hx)
  have hdeparted : d.event ∈ w.departedAt c := by
    unfold departedAt
    exact List.mem_map_of_mem (List.mem_filter.mpr ⟨hd, decide_eq_true hdc⟩)
  have hid : x.event.id = d.event.event.id := FixedBytes.toHex_inj (hxid.trans hdid.symm)
  have hcd := channel_unique hw hids (List.mem_append_left _ hplace)
    (List.mem_append_right (w.placesAt c) hdeparted) hid
  have hnd := nodup_idsAt hw hids c
  unfold idsAt at hnd
  rw [List.map_append] at hnd
  rw [hcd] at hplace
  refine (List.nodup_append.mp hnd).2.2 _ (List.mem_map_of_mem hplace) _
    (List.mem_map_of_mem hdeparted) hid

/-- In the run, the event was withheld for a steer, and the steer was acknowledged: whatever
else happened in between, it was not released. -/
def SteerAcknowledged (start : World) (ops : List Op) (c : Uuid) (eventId : String) : Prop :=
  ∃ before between after v, ops = before
      ++ .markNativeSteerPending c eventId :: (between ++ .removeEvent c eventId :: after)
    ∧ dispatch.run start before = some v
    ∧ (v.queue.markNativeSteerPending c eventId).2 = true
    ∧ Op.releaseNativeSteer c eventId ∉ between

theorem gone_of_steerAcknowledged
    (h : dispatch.run w ops = some w') (hfresh : dispatch.Always NoExpiry w ops)
    (hack : SteerAcknowledged w ops c eventId) : w'.Gone c eventId := by
  obtain ⟨before, between, after, v, hops, hbefore, hmark, hnot⟩ := hack
  rw [hops] at h hfresh
  obtain ⟨v', hv', hrun⟩ := Machine.run_append.mp h
  rw [hbefore] at hv'
  rw [← Option.some.inj hv'] at hrun
  have hfresh' := ((Machine.always_append hbefore).mp hfresh).2
  obtain ⟨v₁, hstep, hrun⟩ := Machine.run_cons.mp hrun
  obtain ⟨v₂, hbetween, hrun⟩ := Machine.run_append.mp hrun
  obtain ⟨v₃, hremove, hafter⟩ := Machine.run_cons.mp hrun
  have hfresh₁ := ((Machine.always_append hbetween).mp (hfresh'.2 v₁ hstep)).1
  have hpending := steerPending_run hnot hfresh₁ (steerPending_of_mark hmark hstep) hbetween
  have hgone : v₃.Gone c eventId := gone_removeEvent hpending hremove
  exact Machine.invariant (I := fun u => u.Gone c eventId) (fun _ _ _ hg _ => gone_step hg) hgone
    Machine.always_true hafter

/-- **No request is delivered twice**, in a run whose accepted events have distinct ids and in
which no deadline expires: no id is in two places, no channel has two batches open, and an
event whose steer was acknowledged is in no later batch. -/
theorem delivered_once (h : dispatch.run (init mode secs) ops = some w)
    (hfresh : dispatch.Always NoExpiry (init mode secs) ops) (hids : w.DistinctIds) :
    w.OnePlace ∧ w.openChannels.Nodup
      ∧ ∀ c eventId, SteerAcknowledged (init mode secs) ops c eventId →
          ∀ orders q batch, w.queue.flushNext orders w.now = (q, some batch) →
            ∀ x ∈ batch.requests, x.event.id.toHex ≠ eventId := by
  have hw := accounted_run h
  refine ⟨onePlace_of_accounted hw hids, (openInv_run h hfresh).nodup, ?_⟩
  intro c eventId hack orders q batch hflush
  exact not_mem_of_gone hw hids (gone_of_steerAcknowledged h hfresh hack) hflush

/-! ## A steer in the middle of a turn -/

def exampleEventId (n : Nat) : String := (exampleEvent n).event.id.toHex

noncomputable def exampleSteer : List Op :=
  [.push (exampleEvent 1), .flushNext exampleOrders, .push (exampleEvent 2),
    .markNativeSteerPending exampleChannel (exampleEventId 2),
    .removeEvent exampleChannel (exampleEventId 2), .finish (exampleBatch [1] [] none),
    .markComplete exampleChannel .finished]

def exampleSteered : World :=
  { init .queue 7200 with
    accepted := [exampleEvent 1, exampleEvent 2]
    departed :=
      [⟨exampleChannel, .steered, (exampleEvent 2).toBatchEvent⟩,
        ⟨exampleChannel, .delivered, (exampleEvent 1).toBatchEvent⟩] }

theorem exampleSteered_run :
    dispatch.run (init .queue 7200) exampleSteer = some exampleSteered := by
  refine Machine.run_cons.mpr ⟨_, rfl, ?_⟩
  refine Machine.run_cons.mpr ⟨_, step_flushNext_of_only (c := exampleChannel) ?_ ?_ ?_, ?_⟩
  · exact EventQueue.not_expired_of_empty rfl
  · decide
  · exact EventQueue.eq_of_flushable_of_singleton (l := [exampleEvent 1]) rfl
  · rfl

theorem exampleSteered_fresh : dispatch.Always NoExpiry (init .queue 7200) exampleSteer := by
  refine ⟨trivial, ?_⟩
  intro w h
  cases h
  refine ⟨EventQueue.not_expired_of_empty rfl, ?_⟩
  intro _ _
  exact ⟨trivial, fun _ _ => ⟨trivial, fun _ _ => ⟨trivial, fun _ _ => ⟨trivial, fun _ _ =>
    ⟨trivial, fun _ _ => trivial⟩⟩⟩⟩⟩

/-- Nothing is in two places after it. -/
theorem delivered_once_steered : exampleSteered.OnePlace ∧ exampleSteered.openChannels.Nodup := by
  have hids : exampleSteered.DistinctIds := by
    unfold DistinctIds
    decide
  have h := delivered_once exampleSteered_run exampleSteered_fresh hids
  exact ⟨h.1, h.2.1⟩

end World

end Pkzz.Acp
