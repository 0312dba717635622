import Pkzz.Acp.Conservation

/-!
# Retries are bounded as long as nobody resets the counter

`requeue` counts the failed attempts of a channel and dead-letters the batch when there
were too many. The count is only as good as the counter's life: `mark_complete` removes it
unless a throttle is active, which is how it tells a success from a failure. A batch that
was given back because no agent was free sets no throttle, so the `mark_complete` that
follows takes it for a success (`not_retriesBounded`).

`CounterSafe` is the condition on the state before a call under which the call does not do
that. A run in which every call meets it is exactly one in which the counter is reset only
by a success, a dead letter or a drain, and then at most `MAX_RETRIES` attempts in a row
fail without a dead letter (`retriesBounded_iff`).
-/

namespace Pkzz.Acp

open Pkzz.Core Pkzz.Lib

namespace EventQueue

variable {q : EventQueue} {now : Instant} {c d : Uuid}

/-! ## The counter after each call -/

theorem markComplete_of_throttled {t : Instant} (h : q.retryAfter.lookup d = some t)
    (ht : now < t) : q.markComplete now d
      = { q with
          inFlightChannels := q.inFlightChannels.erase d
          inFlightDeadlines := q.inFlightDeadlines.erase d
          inFlightBatchSizes := q.inFlightBatchSizes.erase d } := by
  unfold markComplete
  dsimp only
  rw [h]
  exact if_pos ht

theorem markComplete_of_over {t : Instant} (h : q.retryAfter.lookup d = some t) (ht : t ≤ now) :
    q.markComplete now d
      = { q with
          inFlightChannels := q.inFlightChannels.erase d
          inFlightDeadlines := q.inFlightDeadlines.erase d
          inFlightBatchSizes := q.inFlightBatchSizes.erase d
          retryAfter := q.retryAfter.erase d
          retryCounts := q.retryCounts.erase d } := by
  unfold markComplete
  dsimp only
  rw [h]
  exact if_neg (Nat.not_lt.mpr ht)

theorem not_throttled_of_empty (h : q.retryAfter = ∅) : ¬ q.Throttled now d := by
  unfold Throttled
  rw [h]
  simp

theorem not_throttled_of_le {t : Instant} (h : q.retryAfter.lookup d = some t) (ht : t ≤ now) :
    ¬ q.Throttled now d := by
  intro hthrottled
  obtain ⟨t', ht', hlt⟩ := hthrottled
  have htt : t = t' := Option.some.inj (h.symm.trans ht')
  rw [← htt] at hlt
  exact Nat.not_lt.mpr ht hlt

theorem flushable_of_singleton {l : List QueuedEvent} (hq : q.queues = Finmap.singleton c l)
    (hl : l ≠ []) (hflight : q.inFlightChannels = ∅) (hthrottle : ¬ q.Throttled now c) :
    q.Flushable now c := by
  refine ⟨?_, ?_, hthrottle⟩
  · unfold Map.bucket
    rw [hq, Finmap.lookup_singleton_eq]
    exact hl
  · rw [hflight]
    exact Finset.notMem_empty c

/-- `mark_complete` removes the counter unless a throttle is active. -/
theorem retryCounts_markComplete :
    (q.markComplete now d).retryCounts = if q.Throttled now d then
    q.retryCounts else q.retryCounts.erase d := by
  cases hl : q.retryAfter.lookup d with
  | none =>
    have hnot : ¬ q.Throttled now d := by
      unfold Throttled
      rw [hl]
      simp
    rw [if_neg hnot]
    unfold markComplete
    dsimp only
    rw [hl]
  | some t =>
    rcases Nat.lt_or_ge now t with ht | ht
    · have hthrottled : q.Throttled now d := ⟨t, hl, ht⟩
      rw [if_pos hthrottled, markComplete_of_throttled hl ht]
    · rw [if_neg (not_throttled_of_le hl ht), markComplete_of_over hl ht]

theorem retryCounts_releaseExpired : (q.releaseExpired d).retryCounts = q.retryCounts := by
  unfold releaseExpired recoverWithheldForExpiredChannel
  dsimp only
  cases q.withheldNativeSteer.lookup d with
  | none => rfl
  | some entries => rfl

theorem retryCounts_expireInFlight (order : HashOrder Uuid) :
    (q.expireInFlight order now).retryCounts = q.retryCounts := by
  unfold expireInFlight
  generalize q.expiredChannels order now = l
  induction l generalizing q with
  | nil => rfl
  | cons d l ih =>
    rw [List.foldl_cons, ih]
    exact retryCounts_releaseExpired

theorem retryCounts_flushNext (orders : IterOrders) :
    (q.flushNext orders now).1.retryCounts = q.retryCounts := by
  rw [← @retryCounts_expireInFlight q now orders.deadlines]
  rcases flushNext_cases q orders now with ⟨d, _, hflush⟩ | ⟨d, _, _, hflush⟩ | ⟨_, _, hflush⟩
  · rw [hflush]
    rfl
  · rw [hflush]
    rfl
  · rw [hflush]

/-- The channels that keep their counter when expired state is compacted. -/
def Busy (q : EventQueue) (now : Instant) (c : Uuid) : Prop :=
  q.Throttled now c ∨ Map.bucket q.queues c ≠ [] ∨ c ∈ q.inFlightChannels

theorem mem_filter_retryAfter :
    (c ∈ Map.filter q.retryAfter fun _ deadline => deadline > now) ↔ q.Throttled now c := by
  rw [Finmap.mem_iff]
  unfold Throttled
  constructor
  · intro h
    obtain ⟨t, ht⟩ := h
    rw [Map.lookup_filter, Option.filter_eq_some_iff] at ht
    exact ⟨t, ht.1, of_decide_eq_true ht.2⟩
  · intro h
    obtain ⟨t, ht, hlt⟩ := h
    refine ⟨t, ?_⟩
    rw [Map.lookup_filter, Option.filter_eq_some_iff]
    exact ⟨ht, decide_eq_true hlt⟩

theorem lookup_retryCounts_compact (hbusy : q.Busy now c) :
    (q.compactExpiredState now).retryCounts.lookup c = q.retryCounts.lookup c := by
  have hkeep : (c ∈ Map.filter q.retryAfter fun _ deadline => deadline > now)
      ∨ Map.bucket q.queues c ≠ [] ∨ c ∈ q.inFlightChannels := by
    rw [mem_filter_retryAfter]
    exact hbusy
  unfold compactExpiredState
  rw [Map.lookup_filter]
  cases q.retryCounts.lookup c with
  | none => rfl
  | some n => exact Option.filter_some_pos (decide_eq_true hkeep)

theorem lookup_retryCounts_compact_of_idle (hidle : ¬ q.Busy now c) :
    (q.compactExpiredState now).retryCounts.lookup c = none := by
  have hdrop : ¬ ((c ∈ Map.filter q.retryAfter fun _ deadline => deadline > now)
      ∨ Map.bucket q.queues c ≠ [] ∨ c ∈ q.inFlightChannels) := by
    rw [mem_filter_retryAfter]
    exact hidle
  unfold compactExpiredState
  rw [Map.lookup_filter]
  exact Option.filter_eq_none_iff.mpr fun _ _ => by simpa using hdrop

end EventQueue

namespace World

variable {w w' : World} {op : Op} {mode : DedupMode} {secs : Nat} {ops : List Op} {c : Uuid}

/-- The attempts counted for a channel, if any are. -/
def counter (w : World) (c : Uuid) : Option Nat := w.queue.retryCounts.lookup c

/-- The call dead-letters a batch of the channel. -/
def DeadLetters (c : Uuid) (w : World) (op : Op) : Prop :=
  ∃ batch jitter, op = .requeue batch jitter ∧ batch.channelId = c
    ∧ (w.queue.requeue w.now jitter batch).2 ≠ none

/-- A success, a dead letter or a drain of the channel. -/
def Settles (c : Uuid) (w : World) (op : Op) : Prop :=
  op = .markComplete c .finished ∨ op = .drainChannel c ∨ DeadLetters c w op

/-- The call resets the counter only as it should. -/
def KeepsCounter (c : Uuid) (w : World) (op : Op) : Prop :=
  ∀ w', w.step op = some w' → w.counter c ≠ none → w'.counter c = none → Settles c w op

/-- `mark_complete` finds no counter or an active throttle, unless the batch was done with, and
`compact_expired_state` finds no counter or a busy channel. -/
def CounterSafe (c : Uuid) (w : World) : Op → Prop
  | .markComplete d how => d = c → how ≠ .finished → w.counter c = none ∨ w.queue.Throttled w.now c
  | .compactExpiredState => w.counter c = none ∨ w.queue.Busy w.now c
  | _ => True

theorem deadLetters_requeue {batch : FlushBatch} {jitter : Nat → Duration} :
    DeadLetters c w (.requeue batch jitter)
      ↔ batch.channelId = c ∧ maxRetries ≤ w.queue.attempts batch.channelId := by
  unfold DeadLetters
  constructor
  · intro h
    obtain ⟨b, j, hop, hc, hsome⟩ := h
    cases hop
    refine ⟨hc, ?_⟩
    rcases Nat.lt_or_ge (w.queue.attempts batch.channelId) maxRetries with hretry | hexhausted
    · rw [EventQueue.requeue_of_retry hretry] at hsome
      exact absurd rfl hsome
    · exact hexhausted
  · intro h
    refine ⟨batch, jitter, rfl, h.1, ?_⟩
    rw [EventQueue.requeue_of_exhausted h.2]
    exact Option.some_ne_none _

/-- What a step does to the counter of a channel: nothing, count a failure, or reset it. -/
theorem counter_step (h : w.step op = some w') :
    (w'.counter c = w.counter c ∧ ∀ batch jitter, op = .requeue batch jitter → batch.channelId ≠ c)
      ∨ (∃ batch jitter, op = .requeue batch jitter ∧ batch.channelId = c
        ∧ w.queue.attempts c < maxRetries ∧ w'.counter c = some (w.queue.attempts c + 1))
      ∨ (w'.counter c = none ∧ (Settles c w op ∨ ¬ CounterSafe c w op ∨ w.counter c = none)
        ∧ ∀ batch jitter, op = .requeue batch jitter → DeadLetters c w op) := by
  have hqueue := (step_frame h).queue
  have hsame : (w.queue.call w.now op).retryCounts = w.queue.retryCounts →
      (∀ batch jitter, op ≠ .requeue batch jitter) →
      w'.counter c = w.counter c ∧ ∀ batch jitter, op = .requeue batch jitter →
        batch.channelId ≠ c := by
    intro hcounts hop
    refine ⟨?_, fun batch jitter hb => absurd hb (hop batch jitter)⟩
    unfold counter
    rw [hqueue, hcounts]
  cases op with
  | push event =>
    obtain ⟨m, hframe⟩ := @EventQueue.push_frame w.queue event
    refine .inl (hsame ?_ (by simp))
    rw [EventQueue.call, hframe]
  | flushNext orders => exact .inl (hsame (EventQueue.retryCounts_flushNext orders) (by simp))
  | hasFlushableWork orders =>
    exact .inl (hsame (EventQueue.retryCounts_expireInFlight orders.deadlines) (by simp))
  | requeue batch jitter =>
    unfold counter
    rw [hqueue, EventQueue.call]
    by_cases hc : batch.channelId = c
    · subst hc
      -- a retry counts the failure, the last attempt is dead-lettered
      rcases Nat.lt_or_ge (w.queue.attempts batch.channelId) maxRetries with hretry | hexhausted
      · refine .inr (.inl ⟨batch, jitter, rfl, rfl, hretry, ?_⟩)
        rw [EventQueue.requeue_of_retry hretry]
        exact Finmap.lookup_insert _
      have hdead : DeadLetters batch.channelId w (.requeue batch jitter) :=
        deadLetters_requeue.mpr ⟨rfl, hexhausted⟩
      refine .inr (.inr ⟨?_, .inl (.inr (.inr hdead)), fun _ _ _ => hdead⟩)
      rw [EventQueue.requeue_of_exhausted hexhausted]
      exact Finmap.lookup_erase _ _
    · refine .inl ⟨?_, ?_⟩
      · rcases Nat.lt_or_ge (w.queue.attempts batch.channelId) maxRetries with hretry | hexhausted
        · rw [EventQueue.requeue_of_retry hretry]
          exact Finmap.lookup_insert_of_ne _ (Ne.symm hc)
        · rw [EventQueue.requeue_of_exhausted hexhausted]
          exact Finmap.lookup_erase_ne (Ne.symm hc)
      · intro b j hb
        cases hb
        exact hc
  | markComplete d how =>
    unfold counter
    rw [hqueue, EventQueue.call, EventQueue.retryCounts_markComplete]
    -- a throttled channel counts as unhealthy and keeps its counter
    by_cases hthrottled : w.queue.Throttled w.now d
    · rw [if_pos hthrottled]
      exact .inl ⟨rfl, by simp⟩
    rw [if_neg hthrottled]
    by_cases hd : d = c
    · subst hd
      refine .inr (.inr ⟨Finmap.lookup_erase _ _, ?_, by simp⟩)
      by_cases hhow : how = .finished
      · exact .inl (.inl (by rw [hhow]))
      by_cases hnone : w.counter d = none
      · exact .inr (.inr hnone)
      -- a give-back whose throttle is over is taken for a success
      refine .inr (.inl ?_)
      intro hsafe
      rcases hsafe rfl hhow with hcounter | hactive
      · exact hnone hcounter
      · exact hthrottled hactive
    · refine .inl ⟨?_, by simp⟩
      exact Finmap.lookup_erase_ne (Ne.symm hd)
  | markNativeSteerPending d eventId =>
    obtain ⟨m, n, hframe⟩ := @EventQueue.markNativeSteerPending_frame w.queue d eventId
    refine .inl (hsame ?_ (by simp))
    rw [EventQueue.call, hframe]
  | releaseNativeSteer d eventId =>
    obtain ⟨m, n, hframe⟩ := @EventQueue.releaseNativeSteer_frame w.queue d eventId
    refine .inl (hsame ?_ (by simp))
    rw [EventQueue.call, hframe]
  | extendInFlightDeadline d maxTurnSecs =>
    obtain ⟨m, hframe⟩ := @EventQueue.extendInFlightDeadline_frame w.queue w.now d maxTurnSecs
    refine .inl (hsame ?_ (by simp))
    rw [EventQueue.call, hframe]
  | drainChannel d =>
    unfold counter
    rw [hqueue, EventQueue.call]
    by_cases hd : d = c
    · subst hd
      exact .inr (.inr ⟨Finmap.lookup_erase _ _, .inl (.inr (.inl rfl)), by simp⟩)
    · exact .inl ⟨Finmap.lookup_erase_ne (Ne.symm hd), by simp⟩
  | compactExpiredState =>
    unfold counter
    rw [hqueue, EventQueue.call]
    -- only a channel that is neither throttled, queued nor in flight is compacted
    by_cases hbusy : w.queue.Busy w.now c
    · exact .inl ⟨EventQueue.lookup_retryCounts_compact hbusy, by simp⟩
    refine .inr (.inr ⟨EventQueue.lookup_retryCounts_compact_of_idle hbusy, ?_, by simp⟩)
    by_cases hnone : w.counter c = none
    · exact .inr (.inr hnone)
    refine .inr (.inl ?_)
    intro hsafe
    rcases hsafe with hcounter | hactive
    · exact hnone hcounter
    · exact hbusy hactive
  | tick d | finish batch | requeuePreserveTimestamps batch | requeueAsCancelled batch reason
  | removeEvent d eventId => exact .inl (hsame rfl (by simp))

/-- A call that is not safe resets a counter, and is none of the calls that should. -/
theorem unsafe_resets (hreset : ¬ CounterSafe c w op) (h : w.step op = some w') :
    w.counter c ≠ none ∧ w'.counter c = none ∧ ¬ Settles c w op := by
  have hqueue := (step_frame h).queue
  cases op with
  | markComplete d how =>
    unfold CounterSafe at hreset
    push Not at hreset
    obtain ⟨hd, hhow, hcounter, hthrottled⟩ := hreset
    subst hd
    refine ⟨hcounter, ?_, ?_⟩
    · unfold counter
      rw [hqueue, EventQueue.call, EventQueue.retryCounts_markComplete, if_neg hthrottled]
      exact Finmap.lookup_erase _ _
    · intro hsettles
      rcases hsettles with hop | hop | ⟨batch, jitter, hop, _⟩
      · cases hop
        exact hhow rfl
      · cases hop
      · cases hop
  | compactExpiredState =>
    unfold CounterSafe at hreset
    push Not at hreset
    obtain ⟨hcounter, hidle⟩ := hreset
    refine ⟨hcounter, ?_, ?_⟩
    · unfold counter
      rw [hqueue]
      exact EventQueue.lookup_retryCounts_compact_of_idle hidle
    · intro hsettles
      rcases hsettles with hop | hop | ⟨batch, jitter, hop, _⟩
      · cases hop
      · cases hop
      · cases hop
  | _ => exact absurd trivial hreset

/-- For a call that can be made, safe is the same as keeping the counter. -/
theorem keepsCounter_iff (h : w.step op = some w') : KeepsCounter c w op ↔ CounterSafe c w op := by
  constructor
  · intro hkeeps
    by_contra hreset
    obtain ⟨hcounter, hnone, hnot⟩ := unsafe_resets hreset h
    exact hnot (hkeeps w' h hcounter hnone)
  · intro hsafe v hv hcounter hnone
    rcases counter_step (c := c) hv with ⟨hsame, _⟩ | ⟨_, _, _, _, _, hcount⟩ | ⟨_, hreset, _⟩
    · rw [hsame] at hnone
      exact absurd hnone hcounter
    · rw [hcount] at hnone
      cases hnone
    · rcases hreset with hsettles | hreset | habsent
      · exact hsettles
      · exact absurd hsafe hreset
      · exact absurd habsent hcounter

/-! ## Failing stretches -/

/-- A call that may stand in a stretch in which every batch of the channel fails: batches of
the channel are neither done with nor cancelled, and the channel is not drained. Whatever
happens to other channels, pushes, flushes, give-backs for want of an agent, steers and
upkeep may stand there. -/
def Failing (c : Uuid) : Op → Prop
  | .finish batch => batch.channelId ≠ c
  | .requeueAsCancelled batch _ => batch.channelId ≠ c
  | .markComplete d how => d = c → how = .requeued ∨ how = .preserved
  | .drainChannel d => d ≠ c
  | _ => True

/-- A failed attempt at a batch of the channel. -/
def isFailure (c : Uuid) : Op → Bool
  | .requeue batch _ => batch.channelId = c
  | _ => false

/-- However a run goes on, it counts at most `MAX_RETRIES` failed attempts of the channel before
one of them is dead-lettered. -/
def RetriesBounded (c : Uuid) (start : World) (ops : List Op) : Prop :=
  ∀ before stretch w, ops = before ++ stretch → dispatch.run start before = some w →
    (∀ op ∈ stretch, Failing c op) → dispatch.Always (fun v op => ¬ DeadLetters c v op) w stretch →
    stretch.countP (isFailure c) ≤ maxRetries

theorem attempts_eq (w : World) (c : Uuid) : w.queue.attempts c = (w.counter c).getD 0 := rfl

theorem attempts_le_step (hw : w.queue.attempts c ≤ maxRetries) (h : w.step op = some w') :
    w'.queue.attempts c ≤ maxRetries := by
  rw [attempts_eq] at hw ⊢
  rcases counter_step (c := c) h with ⟨hsame, _⟩ | ⟨_, _, _, _, hlt, hcount⟩ | ⟨hnone, _, _⟩
  · rw [hsame]
    exact hw
  · rw [hcount]
    exact hlt
  · rw [hnone]
    exact Nat.zero_le _

theorem attempts_le_run (h : dispatch.run (init mode secs) ops = some w) (c : Uuid) :
    w.queue.attempts c ≤ maxRetries :=
  Machine.invariant (I := fun v => v.queue.attempts c ≤ maxRetries)
    (fun _ _ _ hs _ hstep => attempts_le_step hs hstep) (Nat.zero_le _) Machine.always_true h

/-- In a failing stretch the counter counts every failure. -/
theorem attempts_failing_step (hfailing : Failing c op) (hsafe : CounterSafe c w op)
    (hlive : ¬ DeadLetters c w op) (h : w.step op = some w') :
    w.queue.attempts c + (if isFailure c op then 1 else 0) ≤ w'.queue.attempts c := by
  rw [attempts_eq w']
  rcases counter_step (c := c) h with ⟨hsame, hnot⟩ | ⟨batch, jitter, hop, hc, _, hcount⟩
    | ⟨hnone, hreset, hdead⟩
  · have hno : isFailure c op = false := by
      cases op with
      | requeue batch jitter => exact decide_eq_false (hnot batch jitter rfl)
      | _ => rfl
    rw [hsame, hno, attempts_eq]
    exact Nat.le_refl _
  · have hyes : isFailure c op = true := by
      rw [hop]
      exact decide_eq_true hc
    rw [hcount, hyes]
    exact Nat.le_refl _
  · have hno : isFailure c op = false := by
      cases op with
      | requeue batch jitter => exact absurd (hdead batch jitter rfl) hlive
      | _ => rfl
    have habsent : w.counter c = none := by
      rcases hreset with (hop | hop | hd) | hreset | habsent
      · rw [hop] at hfailing
        rcases hfailing rfl with hhow | hhow
        · cases hhow
        · cases hhow
      · rw [hop] at hfailing
        exact absurd rfl hfailing
      · exact absurd hd hlive
      · exact absurd hsafe hreset
      · exact habsent
    rw [hno, hnone, attempts_eq, habsent]
    exact Nat.le_refl _

theorem attempts_failing_run (hfailing : ∀ op ∈ ops, Failing c op)
    (hsafe : dispatch.Always (CounterSafe c) w ops)
    (hlive : dispatch.Always (fun v op => ¬ DeadLetters c v op) w ops)
    (h : dispatch.run w ops = some w') :
    w.queue.attempts c + ops.countP (isFailure c) ≤ w'.queue.attempts c := by
  induction ops generalizing w with
  | nil =>
    cases h
    exact Nat.le_refl _
  | cons op ops ih =>
    obtain ⟨v, hstep, hrest⟩ := Machine.run_cons.mp h
    have hone := attempts_failing_step (hfailing op List.mem_cons_self) hsafe.1 hlive.1 hstep
    have hmore := ih (fun o ho => hfailing o (List.mem_cons_of_mem _ ho)) (hsafe.2 v hstep)
      (hlive.2 v hstep) hrest
    rw [List.countP_cons]
    omega

theorem retriesBounded_of_safe (h : dispatch.run (init mode secs) ops = some w)
    (hsafe : dispatch.Always (CounterSafe c) (init mode secs) ops) :
    RetriesBounded c (init mode secs) ops := by
  intro before stretch v hops hbefore hfailing hlive
  rw [hops] at h hsafe
  obtain ⟨v', hv', hstretch⟩ := Machine.run_append.mp h
  have hvv : v = v' := Option.some.inj (hbefore.symm.trans hv')
  subst hvv
  have hrun := attempts_failing_run hfailing
      ((Machine.always_append hbefore).mp hsafe).2 hlive hstretch
  have hbound := attempts_le_run h c
  omega

theorem always_keepsCounter_iff (h : dispatch.run w ops = some w') :
    dispatch.Always (KeepsCounter c) w ops ↔ dispatch.Always (CounterSafe c) w ops := by
  induction ops generalizing w with
  | nil => exact Iff.rfl
  | cons op ops ih =>
    obtain ⟨v, hstep, hrest⟩ := Machine.run_cons.mp h
    rw [Machine.always_cons_of_step hstep, Machine.always_cons_of_step hstep,
      keepsCounter_iff hstep, ih hrest]

/-- **Retries are bounded, and the counter is reset only by a success, a dead letter or a drain,
exactly in the runs all of whose calls are safe.** -/
theorem retriesBounded_iff (h : dispatch.run (init mode secs) ops = some w) (c : Uuid) :
    (RetriesBounded c (init mode secs) ops ∧ dispatch.Always (KeepsCounter c) (init mode secs) ops)
      ↔ dispatch.Always (CounterSafe c) (init mode secs) ops := by
  rw [always_keepsCounter_iff h]
  exact ⟨And.right, fun hsafe => ⟨retriesBounded_of_safe h hsafe, hsafe⟩⟩

/-! ## Failing for ever -/

/-- Jitter at its lower end, four fifths of a delay. -/
def exampleJitter (secs : Nat) : Duration := secs * 800000000

/-- The first delay. -/
def exampleDelay : Duration := exampleJitter (EventQueue.cappedDelaySecs 1)

/-- One event is queued. -/
def exampleWaiting (t : Instant) : World :=
  { init .queue 7200 with
    queue := { (init .queue 7200).queue with
      queues := Finmap.singleton exampleChannel [exampleEvent 1] }
    now := t
    accepted := [exampleEvent 1] }

/-- Its first attempt failed at `t`, and the throttle is set. -/
def exampleThrottled (t now : Instant) : World :=
  { exampleWaiting now with
    queue := { (exampleWaiting now).queue with
      retryAfter := Finmap.singleton exampleChannel (t + exampleDelay)
      retryCounts := Finmap.singleton exampleChannel 1 } }

/-- The batch was given back, and `mark_complete` is due. -/
def exampleReturned (w : World) (how : Closing) : World :=
  { w with
    queue := { w.queue with
      inFlightChannels := {exampleChannel}
      inFlightDeadlines := Finmap.singleton exampleChannel (w.now + w.queue.inFlightDeadline)
      inFlightBatchSizes := Finmap.singleton exampleChannel 1 }
    closing := [(exampleChannel, how)] }

theorem step_markComplete_of_mem {d : Uuid} {how : Closing} (h : (d, how) ∈ w.closing) :
    w.step (.markComplete d how) = some { w with
      queue := w.queue.markComplete w.now d
      closing := w.closing.erase (d, how) } := by
  rw [step, if_pos h]

theorem exampleReturned_step {how : Closing} {q : EventQueue}
    (h : (exampleReturned w how).queue.markComplete w.now exampleChannel = q) :
    dispatch.step (exampleReturned w how) (.markComplete exampleChannel how)
      = some { w with queue := q, closing := [] } := by
  have hclosing : [(exampleChannel, how)].erase (exampleChannel, how) = [] :=
    List.erase_cons_head _ _
  have hstep := @step_markComplete_of_mem
      (exampleReturned w how) exampleChannel how List.mem_cons_self
  rw [← h, ← hclosing]
  exact hstep

/-- An attempt that fails. -/
noncomputable def exampleAttempt : List Op :=
  [.flushNext exampleOrders, .requeue (exampleBatch [1] [] none) exampleJitter,
    .markComplete exampleChannel .requeued, .tick exampleDelay]

/-- The throttle is over, but no agent is free. -/
noncomputable def exampleNoAgent : List Op :=
  [.flushNext exampleOrders, .requeuePreserveTimestamps (exampleBatch [1] [] none),
    .markComplete exampleChannel .preserved]

theorem exampleFailure_run (t : Instant) :
    dispatch.run (exampleWaiting t) [.flushNext exampleOrders,
      .requeue (exampleBatch [1] [] none) exampleJitter]
      = some (exampleReturned (exampleThrottled t t) .requeued) := by
  refine Machine.run_cons.mpr ⟨_, step_flushNext_of_only (c := exampleChannel) ?_ ?_ ?_, rfl⟩
  · exact EventQueue.not_expired_of_empty rfl
  · exact EventQueue.flushable_of_singleton (l := [exampleEvent 1]) rfl (by decide) rfl
      (EventQueue.not_throttled_of_empty rfl)
  · exact EventQueue.eq_of_flushable_of_singleton (l := [exampleEvent 1]) rfl

theorem exampleThrottled_throttled (t : Instant) :
    (exampleReturned (exampleThrottled t t) .requeued).queue.Throttled t exampleChannel :=
  ⟨t + exampleDelay, rfl, Nat.lt_add_of_pos_right (by decide)⟩

theorem exampleClosing_run (t : Instant) :
    dispatch.run (exampleReturned (exampleThrottled t t) .requeued)
      [.markComplete exampleChannel .requeued, .tick exampleDelay] = some
        (exampleThrottled t (t + exampleDelay)) := by
  have hcounter := EventQueue.markComplete_of_throttled
    (q := (exampleReturned (exampleThrottled t t) .requeued).queue) (d := exampleChannel)
    (t := t + exampleDelay) rfl (Nat.lt_add_of_pos_right (by decide))
  exact Machine.run_cons.mpr ⟨_, exampleReturned_step hcounter, rfl⟩

theorem exampleAttempt_run (t : Instant) :
    dispatch.run (exampleWaiting t) exampleAttempt = some (exampleThrottled t (t + exampleDelay)) :=
  Machine.run_append.mpr ⟨_, exampleFailure_run t, exampleClosing_run t⟩

theorem exampleNoAgent_run (t : Instant) : dispatch.run (exampleThrottled t (t + exampleDelay))
    exampleNoAgent = some (exampleWaiting (t + exampleDelay)) := by
  refine Machine.run_cons.mpr ⟨_, step_flushNext_of_only (c := exampleChannel) ?_ ?_ ?_, ?_⟩
  · exact EventQueue.not_expired_of_empty rfl
  · exact EventQueue.flushable_of_singleton (l := [exampleEvent 1]) rfl (by decide) rfl
      (EventQueue.not_throttled_of_le (t := t + exampleDelay) rfl (Nat.le_refl _))
  · exact EventQueue.eq_of_flushable_of_singleton (l := [exampleEvent 1]) rfl
  · refine Machine.run_cons.mpr
      ⟨exampleReturned (exampleThrottled t (t + exampleDelay)) .preserved, rfl, ?_⟩
    have hcounter := EventQueue.markComplete_of_over
      (q := (exampleReturned (exampleThrottled t (t + exampleDelay)) .preserved).queue)
      (d := exampleChannel) (t := t + exampleDelay) rfl (Nat.le_refl _)
    exact Machine.run_cons.mpr ⟨_, exampleReturned_step hcounter, rfl⟩

/-- A failed attempt, a flush without an agent, and so on. -/
noncomputable def exampleCycles : Nat → List Op
  | 0 => []
  | n + 1 => (exampleAttempt ++ exampleNoAgent) ++ exampleCycles n

theorem exampleCycle_run (t : Instant) : dispatch.run (exampleWaiting t)
    (exampleAttempt ++ exampleNoAgent) = some (exampleWaiting (t + exampleDelay)) :=
  Machine.run_append.mpr ⟨_, exampleAttempt_run t, exampleNoAgent_run t⟩

theorem exampleCycles_run (n : Nat) (t : Instant) :
    ∃ w, dispatch.run (exampleWaiting t) (exampleCycles n) = some w := by
  induction n generalizing t with
  | zero => exact ⟨_, rfl⟩
  | succ n ih =>
    obtain ⟨w, hw⟩ := ih (t + exampleDelay)
    exact ⟨w, Machine.run_append.mpr ⟨_, exampleCycle_run t, hw⟩⟩

theorem exampleCycles_failures (n : Nat) :
    (exampleCycles n).countP (isFailure exampleChannel) = n := by
  induction n with
  | zero => rfl
  | succ n ih =>
    have hone : (exampleAttempt ++ exampleNoAgent).countP (isFailure exampleChannel) = 1 := rfl
    rw [exampleCycles, List.countP_append, hone, ih, Nat.add_comm]

theorem exampleCycles_failing (n : Nat) : ∀ op ∈ exampleCycles n, Failing exampleChannel op := by
  induction n with
  | zero => exact fun _ hop => absurd hop List.not_mem_nil
  | succ n ih =>
    intro op hop
    rw [exampleCycles, List.mem_append] at hop
    rcases hop with hcycle | hrest
    · have hall : ∀ o ∈ exampleAttempt ++ exampleNoAgent, Failing exampleChannel o := by
        simp [exampleAttempt, exampleNoAgent, Failing]
      exact hall op hcycle
    · exact ih op hrest

theorem not_deadLetters_of_ne (h : ∀ batch jitter, op ≠ .requeue batch jitter) :
    ¬ DeadLetters c w op := by
  intro hdead
  obtain ⟨batch, jitter, hop, _⟩ := hdead
  exact h batch jitter hop

/-- No attempt but the first has been counted whenever one fails. -/
theorem exampleCycles_live (n : Nat) (t : Instant) :
    dispatch.Always (fun v op => ¬ DeadLetters exampleChannel v op) (exampleWaiting t)
      (exampleCycles n) := by
  induction n generalizing t with
  | zero => trivial
  | succ n ih =>
    refine (Machine.always_append (exampleCycle_run t)).mpr ⟨?_, ih (t + exampleDelay)⟩
    refine (Machine.always_append (exampleAttempt_run t)).mpr ⟨?_, ?_⟩
    · refine ⟨not_deadLetters_of_ne (by simp), ?_⟩
      intro v hv
      refine ⟨?_, fun _ _ => ⟨not_deadLetters_of_ne (by simp), fun _ _ =>
        ⟨not_deadLetters_of_ne (by simp), fun _ _ => trivial⟩⟩⟩
      have hstep : (exampleWaiting t).step (.flushNext exampleOrders) = some v := hv
      have hcounts : v.queue.retryCounts = ∅ := by
        rw [(step_frame hstep).queue]
        exact EventQueue.retryCounts_flushNext exampleOrders
      intro hdead
      have hover := (deadLetters_requeue.mp hdead).2
      unfold EventQueue.attempts at hover
      rw [hcounts, Finmap.lookup_empty] at hover
      exact absurd hover (by decide)
    · exact ⟨not_deadLetters_of_ne (by simp), fun _ _ => ⟨not_deadLetters_of_ne (by simp),
        fun _ _ => ⟨not_deadLetters_of_ne (by simp), fun _ _ => trivial⟩⟩⟩

theorem exampleWaiting_run :
    dispatch.run (init .queue 7200) [.push (exampleEvent 1)] = some (exampleWaiting 0) := rfl

/-- The second attempt failed at `t`. -/
def exampleThrottledAgain (t now : Instant) : World :=
  { exampleWaiting now with
    queue := { (exampleWaiting now).queue with
      retryAfter := Finmap.singleton exampleChannel
        (t + exampleJitter (EventQueue.cappedDelaySecs 2))
      retryCounts := Finmap.singleton exampleChannel 2 } }

/-- Once the throttle is over, the event is tried again. -/
theorem exampleRetry_run (t : Instant) : dispatch.run (exampleThrottled t (t + exampleDelay))
    [.flushNext exampleOrders, .requeue (exampleBatch [1] [] none) exampleJitter]
      = some (exampleReturned
        (exampleThrottledAgain (t + exampleDelay) (t + exampleDelay)) .requeued) := by
  refine Machine.run_cons.mpr ⟨_, step_flushNext_of_only (c := exampleChannel) ?_ ?_ ?_, rfl⟩
  · exact EventQueue.not_expired_of_empty rfl
  · exact EventQueue.flushable_of_singleton (l := [exampleEvent 1]) rfl (by decide) rfl
      (EventQueue.not_throttled_of_le (t := t + exampleDelay) rfl (Nat.le_refl _))
  · exact EventQueue.eq_of_flushable_of_singleton (l := [exampleEvent 1]) rfl

/-- A failed attempt is given back, `mark_complete` finds the channel throttled, and the event is
tried again. -/
noncomputable def exampleRetried : List Op :=
  [.push (exampleEvent 1)] ++ (exampleAttempt
    ++ [.flushNext exampleOrders, .requeue (exampleBatch [1] [] none) exampleJitter])

theorem exampleRetried_run : dispatch.run (init .queue 7200) exampleRetried
    = some (exampleReturned (exampleThrottledAgain exampleDelay exampleDelay) .requeued) :=
  Machine.run_append.mpr ⟨_, exampleWaiting_run,
    Machine.run_append.mpr ⟨_, exampleAttempt_run 0, exampleRetry_run 0⟩⟩

theorem exampleRetried_safe :
    dispatch.Always (CounterSafe exampleChannel) (init .queue 7200) exampleRetried := by
  refine (Machine.always_append exampleWaiting_run).mpr ⟨⟨trivial, fun _ _ => trivial⟩, ?_⟩
  refine (Machine.always_append (exampleAttempt_run 0)).mpr
    ⟨?_, trivial, fun _ _ => ⟨trivial, fun _ _ => trivial⟩⟩
  refine (Machine.always_append (exampleFailure_run 0)).mpr ⟨⟨trivial,
    fun _ _ => ⟨trivial, fun _ _ => trivial⟩⟩, ?_⟩
  exact ⟨fun _ _ => .inr (exampleThrottled_throttled 0), fun _ _ => ⟨trivial, fun _ _ => trivial⟩⟩

/-- A second attempt within one count. -/
theorem retriesBounded_iff_waiting : RetriesBounded exampleChannel (init .queue 7200) exampleRetried
    ∧ dispatch.Always (KeepsCounter exampleChannel) (init .queue 7200) exampleRetried
    ∧ (exampleReturned (exampleThrottledAgain exampleDelay exampleDelay) .requeued).counter
      exampleChannel = some 2 :=
  have h := (retriesBounded_iff exampleRetried_run exampleChannel).mpr exampleRetried_safe
  ⟨h.1, h.2, rfl⟩

/-- One attempt after the other fails, and none of them is the last. -/
theorem not_retriesBounded : ¬ ∀ mode secs ops w c, dispatch.run (init mode secs) ops = some w →
    RetriesBounded c (init mode secs) ops ∧
      dispatch.Always (KeepsCounter c) (init mode secs) ops := by
  intro hall
  obtain ⟨w, hw⟩ := exampleCycles_run (maxRetries + 1) 0
  have hrun := Machine.run_append.mpr ⟨_, exampleWaiting_run, hw⟩
  have hbounded := (hall _ _ _ _ exampleChannel hrun).1 _ _ _ rfl exampleWaiting_run
    (exampleCycles_failing _) (exampleCycles_live _ _)
  rw [exampleCycles_failures] at hbounded
  exact absurd hbounded (by decide)

end World

end Pkzz.Acp
