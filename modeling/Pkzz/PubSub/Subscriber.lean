import Pkzz.Lib.Machine
import Pkzz.Lib.Map
import Pkzz.PubSub.Topic

/-!
# The subscriber task

`buzz-pubsub`'s `lib.rs` and `subscriber.rs`. `retain_topic` and `release_topic` count the
local interest in a topic under a lock; the task that owns the Redis connection hears of it
through a bounded channel, and of the last release only after a delay. The count and the
command are two steps of a call, so the task may see one without the other.

The invariant: a topic that is retained is subscribed, or is about to be by what the task has
still to do, or a `Subscribe` for it is on its way.
-/

namespace Pkzz.PubSub

open Pkzz.Core Pkzz.Lib

inductive SubscriptionCommand where
  | subscribe (topic : EventTopicKey)
  | unsubscribeIfIdle (topic : EventTopicKey)
  deriving DecidableEq

/-- What `mpsc::channel` was made for. -/
def COMMAND_CAPACITY : Nat := 4096

/-- Where `run_subscriber` is. -/
inductive Task where
  /-- Between two connections. -/
  | backoff
  /-- Connected, before the desired topics are read. -/
  | connected
  /-- In the loop over `initial_topics`. -/
  | initial (topics : List EventTopicKey)
  /-- At the `select!`. -/
  | listening
  | subscribing (topic : EventTopicKey)
  /-- In `desired_refcount`. -/
  | checking (topic : EventTopicKey)
  | unsubscribing (topic : EventTopicKey)
  deriving DecidableEq

structure PubSubManager where
  desiredTopics : Map EventTopicKey Nat
  /-- Commands in a `send` that has not returned. -/
  sending : List SubscriptionCommand
  /-- Topics whose last release waits for the debounce. -/
  debouncing : List EventTopicKey
  subscriptionRx : List SubscriptionCommand
  task : Task
  /-- Whether the connection of the task still stands. -/
  alive : Bool
  activeTopics : Finset String
  /-- What Redis has subscribed on this connection. -/
  redis : Finset String

namespace PubSubManager

def init : PubSubManager := ⟨∅, [], [], [], .backoff, false, ∅, ∅⟩

/-- `topic_refcount` and `desired_refcount`. -/
def refcount (s : PubSubManager) (topic : EventTopicKey) : Nat :=
  (s.desiredTopics.lookup topic).getD 0

/-- The locked part of `retain_topic`, and whether a `Subscribe` is sent after it. -/
def retain (s : PubSubManager) (topic : EventTopicKey) : PubSubManager :=
  let wasZero := s.refcount topic = 0
  { s with
    desiredTopics := s.desiredTopics.insert topic (s.refcount topic + 1)
    sending := if wasZero then s.sending ++ [.subscribe topic] else s.sending }

/-- `release_topic`; a topic without an entry is only warned about. -/
def release (s : PubSubManager) (topic : EventTopicKey) : PubSubManager :=
  match s.desiredTopics.lookup topic with
  | none => s
  | some count =>
    if count - 1 = 0 then
      { s with desiredTopics := s.desiredTopics.erase topic, debouncing := s.debouncing ++ [topic] }
    else { s with desiredTopics := s.desiredTopics.insert topic (count - 1) }

/-- The topics with `count > 0`. -/
def wanted (s : PubSubManager) : Finset EventTopicKey := s.desiredTopics.keys.filter fun topic =>
    0 < s.refcount topic

end PubSubManager

inductive Action where
  | retain (topic : EventTopicKey)
  | release (topic : EventTopicKey)
  /-- The debounce of the `i`-th waiting topic is over. -/
  | elapse (i : Nat)
  /-- The `i`-th `send` finds room in the channel. -/
  | send (i : Nat)
  | connect
  /-- `initial_topics`, in the order the map gives them. -/
  | snapshot (topics : List EventTopicKey)
  /-- `sink.subscribe` of the next initial topic has returned. -/
  | subscribeInitial
  | listen
  | receive
  /-- `sink.subscribe` has returned. -/
  | subscribed
  /-- `desired_refcount` has returned. -/
  | check
  /-- `sink.unsubscribe` has returned. -/
  | unsubscribed
  /-- The connection breaks, which the task need not see yet. -/
  | lose
  /-- The stream ends or a call on the sink fails. -/
  | fail
  deriving DecidableEq

namespace PubSubManager

def step (s : PubSubManager) : Action → Option PubSubManager
  | .retain topic => some (s.retain topic)
  | .release topic => some (s.release topic)
  | .elapse i =>
    match s.debouncing[i]? with
    | some topic =>
      some { s with
        debouncing := s.debouncing.eraseIdx i, sending := s.sending ++ [.unsubscribeIfIdle topic] }
    | none => none
  | .send i =>
    match s.sending[i]? with
    | some command =>
      if s.subscriptionRx.length < COMMAND_CAPACITY then
        some { s with
          sending := s.sending.eraseIdx i, subscriptionRx := s.subscriptionRx ++ [command] }
      else none
    | none => none
  | .connect =>
    match s.task with
    | .backoff => some { s with task := .connected, alive := true, activeTopics := ∅, redis := ∅ }
    | _ => none
  | .snapshot topics =>
    match s.task with
    | .connected => if topics.Nodup ∧ topics.toFinset = s.wanted then
        some { s with task := .initial topics } else none
    | _ => none
  | .subscribeInitial =>
    match s.task with
    | .initial (topic :: topics) =>
      if s.alive then
        some { s with
          task := .initial topics
          redis := insert topic.redisChannel s.redis
          activeTopics := insert topic.redisChannel s.activeTopics }
      else none
    | _ => none
  | .listen =>
    match s.task with
    | .initial [] => some { s with task := .listening }
    | _ => none
  | .receive =>
    match s.task, s.subscriptionRx with
    | .listening, .subscribe topic :: rest =>
      if topic.redisChannel ∈ s.activeTopics then some { s with subscriptionRx := rest }
      else
        some { s with
          subscriptionRx := rest
          activeTopics := insert topic.redisChannel s.activeTopics
          task := .subscribing topic }
    | .listening, .unsubscribeIfIdle topic :: rest =>
        some { s with subscriptionRx := rest, task := .checking topic }
    | _, _ => none
  | .subscribed =>
    match s.task with
    | .subscribing topic =>
      if s.alive then some { s with redis := insert topic.redisChannel s.redis, task := .listening }
        else none
    | _ => none
  | .check =>
    match s.task with
    | .checking topic =>
      -- from here on the lock is free again, and a retain may come in
      if s.refcount topic = 0 ∧ topic.redisChannel ∈ s.activeTopics then
        some { s with
          activeTopics := s.activeTopics.erase topic.redisChannel, task := .unsubscribing topic }
      else some { s with task := .listening }
    | _ => none
  | .unsubscribed =>
    match s.task with
    | .unsubscribing topic =>
      if s.alive then some { s with redis := s.redis.erase topic.redisChannel, task := .listening }
        else none
    | _ => none
  | .lose => if s.alive then some { s with alive := false, redis := ∅ } else none
  | .fail =>
    match s.task with
    | .backoff => none
    | _ => some { s with task := .backoff, alive := false, activeTopics := ∅, redis := ∅ }

def machine : Machine PubSubManager Action := ⟨step⟩

/-! ## Counts -/

variable {s s' : PubSubManager} {t topic : EventTopicKey} {a : Action} {as : List Action}

theorem refcount_retain (s : PubSubManager) (topic t : EventTopicKey) :
    (s.retain topic).refcount t = if t = topic then s.refcount t + 1 else s.refcount t := by
  unfold retain refcount
  simp only
  rw [Map.lookup_insert_eq]
  by_cases h : t = topic
  · rw [if_pos h, if_pos h, h, Option.getD_some]
  · rw [if_neg h, if_neg h]

theorem refcount_release (s : PubSubManager) (topic t : EventTopicKey) :
    (s.release topic).refcount t = if t = topic then s.refcount t - 1 else s.refcount t := by
  unfold release
  by_cases h : t = topic
  · rw [if_pos h, h]
    cases hcount : s.desiredTopics.lookup topic with
    | none => simp [refcount, hcount]
    | some count =>
      simp only
      split
      · rename_i hzero
        simp [refcount, hcount, hzero]
      · simp [refcount, hcount]
  · rw [if_neg h]
    cases hcount : s.desiredTopics.lookup topic with
    | none => rfl
    | some count =>
      simp only
      split
      · simp [refcount, h]
      · simp [refcount, h]

/-- The calls of a run that count `topic` up. -/
def retains (topic : EventTopicKey) (as : List Action) : Nat := as.count (.retain topic)

def releases (topic : EventTopicKey) (as : List Action) : Nat := as.count (.release topic)

/-- The retains of `topic` that have not been released. -/
def outstanding (topic : EventTopicKey) (as : List Action) : Nat :=
  retains topic as - releases topic as

/-- Each release matches an earlier retain. -/
def Matched (as : List Action) : Prop :=
  ∀ (n : Nat) (topic : EventTopicKey), releases topic (as.take n) ≤ retains topic (as.take n)

/-- Only `retain_topic` and `release_topic` change the counts. -/
theorem refcount_step (hstep : s.step a = some s') (t : EventTopicKey) :
    s'.refcount t = if a = .retain t then s.refcount t + 1
      else if a = .release t then s.refcount t - 1 else s.refcount t := by
  have hsame : (∀ t, a ≠ .retain t) → (∀ t, a ≠ .release t) → s'.desiredTopics = s.desiredTopics →
      s'.refcount t = if a = .retain t then s.refcount t + 1
        else if a = .release t then s.refcount t - 1 else s.refcount t := by
    intro hretain hrelease hdesired
    rw [if_neg (hretain t), if_neg (hrelease t)]
    unfold refcount
    rw [hdesired]
  cases a with
  | retain topic =>
    rw [← Option.some.inj hstep, refcount_retain]
    by_cases h : t = topic
    · rw [if_pos h, if_pos (by rw [h])]
    · rw [if_neg h, if_neg (fun heq => h (Action.retain.inj heq).symm), if_neg (by simp)]
  | release topic =>
    rw [← Option.some.inj hstep, refcount_release,
      if_neg (show Action.release topic ≠ .retain t by simp)]
    by_cases h : t = topic
    · rw [if_pos h, if_pos (by rw [h])]
    · rw [if_neg h, if_neg (fun heq => h (Action.release.inj heq).symm)]
  | elapse i | send i | connect | snapshot topics | subscribeInitial | listen | receive | subscribed
  | check
  | unsubscribed | lose | fail =>
    refine hsame (by simp) (by simp) ?_
    simp only [step] at hstep
    -- every branch is a record update of other fields
    split at hstep <;> (try split at hstep) <;> first
      | (rw [← Option.some.inj hstep])
      | (cases hstep)

theorem refcount_run (hrun : machine.run init as = some s) (hmatched : Matched as)
    (t : EventTopicKey) : s.refcount t + releases t as = retains t as := by
  induction as using List.reverseRecOn generalizing s with
  | nil =>
    cases hrun
    rfl
  | append_singleton as a ih =>
    obtain ⟨u, hu, hlast⟩ := Machine.run_append.mp hrun
    obtain ⟨u', hstep, hs⟩ := Machine.run_cons.mp hlast
    have hus : u' = s := Option.some.inj hs
    rw [hus] at hstep
    have hbefore : Matched as := by
      intro n topic
      have h := hmatched (min n as.length) topic
      rw [List.take_append_of_le_length (by omega)] at h
      rw [← List.take_eq_take_min] at h
      exact h
    have hcount := ih hu hbefore
    have hlen := hmatched (as.length + 1) t
    rw [List.take_of_length_le (by simp)] at hlen
    have h := refcount_step hstep t
    simp only [releases, retains, List.count_append, List.count_singleton,
      beq_iff_eq] at hcount hlen ⊢
    by_cases hretain : a = .retain t
    · rw [if_pos hretain] at h
      rw [hretain] at hlen ⊢
      simp only [reduceCtorEq, if_false, if_true] at hlen ⊢
      omega
    · rw [if_neg hretain] at h
      rw [if_neg hretain] at hlen ⊢
      split at h
      · rename_i hrelease
        rw [if_pos hrelease] at hlen ⊢
        omega
      · rename_i hrelease
        rw [if_neg hrelease] at hlen ⊢
        omega

/-! ## What the task still does -/

/-- The topic is subscribed, as far as the task knows, or the task comes to it. -/
def InHand (active : Finset String) (topic : EventTopicKey) : Task → Prop
  | .backoff | .connected => True
  | .initial topics => topic ∈ topics ∨ topic.redisChannel ∈ active
  | .listening | .subscribing _ | .checking _ | .unsubscribing _ => topic.redisChannel ∈ active

/-- While the connection stands, Redis differs from `active_topics` in the call that is out. -/
def Mirrored (active redis : Finset String) : Task → Prop
  | .backoff => True
  | .connected => active = ∅ ∧ redis = ∅
  | .initial _ | .listening | .checking _ => redis = active
  | .subscribing topic => active = insert topic.redisChannel redis
  | .unsubscribing topic => active = redis.erase topic.redisChannel

structure Inv (s : PubSubManager) : Prop where
  cared : ∀ t, 0 < s.refcount t →
    .subscribe t ∈ s.sending ∨ .subscribe t ∈ s.subscriptionRx ∨ InHand s.activeTopics t s.task
  mirrored : s.alive = true → Mirrored s.activeTopics s.redis s.task

theorem inv_init : Inv init where
  cared := fun _ h => absurd h (by simp [refcount, init])
  mirrored := fun h => absurd h (by simp [init])

theorem inv_retain (h : Inv s) (topic : EventTopicKey) : Inv (s.retain topic) where
  mirrored := h.mirrored
  cared := by
    intro t ht
    rw [refcount_retain] at ht
    show _ ∈ (if s.refcount topic = 0 then s.sending ++ [.subscribe topic] else s.sending) ∨ _
    by_cases hzero : s.refcount topic = 0
    · rw [if_pos hzero]
      by_cases heq : t = topic
      · rw [heq]
        exact .inl (by simp)
      rw [if_neg heq] at ht
      rcases h.cared t ht with hsend | hrest
      · exact .inl (List.mem_append_left _ hsend)
      · exact .inr hrest
    · rw [if_neg hzero]
      refine h.cared t ?_
      split at ht
      · rename_i heq
        rw [heq]
        omega
      · exact ht

theorem inv_release (h : Inv s) (topic : EventTopicKey) : Inv (s.release topic) := by
  have hcared : ∀ t, 0 < (s.release topic).refcount t →
      .subscribe t ∈ s.sending ∨ .subscribe t ∈ s.subscriptionRx ∨
        InHand s.activeTopics t s.task := by
    intro t ht
    refine h.cared t ?_
    rw [refcount_release] at ht
    split at ht <;> omega
  unfold release at hcared ⊢
  split at hcared
  · exact ⟨hcared, h.mirrored⟩
  split at hcared
  · rename_i hzero
    rw [if_pos hzero]
    exact ⟨hcared, h.mirrored⟩
  · rename_i hzero
    rw [if_neg hzero]
    exact ⟨hcared, h.mirrored⟩

/-- The command taken out of the list is the only one that is missing from it. -/
theorem mem_eraseIdx {c d : SubscriptionCommand} {l : List SubscriptionCommand} {i : Nat}
    (hi : l[i]? = some c) (hd : d ∈ l) : d = c ∨ d ∈ l.eraseIdx i := by
  obtain ⟨hlt, hget⟩ := List.getElem?_eq_some_iff.mp hi
  have hperm := (List.getElem_cons_eraseIdx_perm hlt).mem_iff.mpr hd
  rw [hget] at hperm
  exact List.mem_cons.mp hperm

theorem inv_elapse {i : Nat} (h : Inv s) (hstep : s.step (.elapse i) = some s') : Inv s' := by
  simp only [step] at hstep
  split at hstep
  · cases hstep
    refine ⟨?_, h.mirrored⟩
    intro t ht
    rcases h.cared t ht with hsend | hrest
    · exact .inl (List.mem_append_left _ hsend)
    · exact .inr hrest
  · cases hstep

theorem inv_send {i : Nat} (h : Inv s) (hstep : s.step (.send i) = some s') : Inv s' := by
  simp only [step] at hstep
  split at hstep
  · rename_i command hi
    split at hstep
    · cases hstep
      refine ⟨?_, h.mirrored⟩
      intro t ht
      rcases h.cared t ht with hsend | hqueue | hhand
      · rcases mem_eraseIdx hi hsend with heq | hrest
        · exact .inr (.inl (by simp [heq]))
        · exact .inl hrest
      · exact .inr (.inl (List.mem_append_left _ hqueue))
      · exact .inr (.inr hhand)
    · cases hstep
  · cases hstep

/-- A new connection begins with every topic that is retained. -/
theorem inv_snapshot {topics : List EventTopicKey} (h : Inv s)
    (hstep : s.step (.snapshot topics) = some s') : Inv s' := by
  obtain ⟨_, hmirror⟩ := h
  simp only [step] at hstep
  split at hstep
  · rename_i htask
    rw [htask] at hmirror
    split at hstep
    · rename_i horder
      cases hstep
      refine ⟨?_, ?_⟩
      · intro t ht
        refine .inr (.inr (.inl ?_))
        rw [← List.mem_toFinset, horder.2, wanted, Finset.mem_filter, Finmap.mem_keys]
        refine ⟨?_, ht⟩
        have hpos : 0 < s.refcount t := ht
        cases hlookup : s.desiredTopics.lookup t with
        | none => simp [refcount, hlookup] at hpos
        | some n => exact Finmap.mem_of_lookup_eq_some hlookup
      · intro halive
        show s.redis = s.activeTopics
        rw [(hmirror halive).1, (hmirror halive).2]
    · cases hstep
  · cases hstep

theorem inv_subscribeInitial (h : Inv s) (hstep : s.step .subscribeInitial = some s') : Inv s' := by
  obtain ⟨hcared, hmirror⟩ := h
  simp only [step] at hstep
  split at hstep
  · rename_i topic topics htask
    rw [htask] at hcared hmirror
    split at hstep
    · rename_i halive
      cases hstep
      refine ⟨?_, ?_⟩
      · intro t ht
        rcases hcared t ht with hsend | hqueue | hmem | hactive
        · exact .inl hsend
        · exact .inr (.inl hqueue)
        · rcases List.mem_cons.mp hmem with heq | hmem
          · rw [heq]
            exact .inr (.inr (.inr (Finset.mem_insert_self _ _)))
          · exact .inr (.inr (.inl hmem))
        · exact .inr (.inr (.inr (Finset.mem_insert_of_mem hactive)))
      · intro _
        exact congrArg (insert topic.redisChannel) (hmirror halive)
    · cases hstep
  · cases hstep

theorem inv_listen (h : Inv s) (hstep : s.step .listen = some s') : Inv s' := by
  obtain ⟨hcared, hmirror⟩ := h
  simp only [step] at hstep
  split at hstep
  · rename_i htask
    rw [htask] at hcared hmirror
    cases hstep
    refine ⟨?_, hmirror⟩
    intro t ht
    rcases hcared t ht with hsend | hqueue | hmem | hactive
    · exact .inl hsend
    · exact .inr (.inl hqueue)
    · cases hmem
    · exact .inr (.inr hactive)
  · cases hstep

theorem inv_receive (h : Inv s) (hstep : s.step .receive = some s') : Inv s' := by
  obtain ⟨hcared, hmirror⟩ := h
  simp only [step] at hstep
  split at hstep
  · rename_i topic rest htask hrx
    rw [htask, hrx] at hcared
    rw [htask] at hmirror
    have hinserted : ∀ t, 0 < s.refcount t → .subscribe t ∈ s.sending ∨ .subscribe t ∈ rest
        ∨ t.redisChannel ∈ insert topic.redisChannel s.activeTopics := by
      intro t ht
      rcases hcared t ht with hsend | hqueue | hactive
      · exact .inl hsend
      · rcases List.mem_cons.mp hqueue with heq | hrest
        · rw [SubscriptionCommand.subscribe.inj heq]
          exact .inr (.inr (Finset.mem_insert_self _ _))
        · exact .inr (.inl hrest)
      · exact .inr (.inr (Finset.mem_insert_of_mem hactive))
    split at hstep
    · rename_i hactive
      rw [Finset.insert_eq_of_mem hactive] at hinserted
      cases hstep
      refine ⟨?_, ?_⟩
      · rw [htask]
        exact hinserted
      · rw [htask]
        exact hmirror
    · cases hstep
      exact ⟨hinserted, fun halive => congrArg (insert topic.redisChannel) (hmirror halive).symm⟩
  · rename_i topic rest htask hrx
    rw [htask, hrx] at hcared
    rw [htask] at hmirror
    cases hstep
    refine ⟨?_, hmirror⟩
    intro t ht
    rcases hcared t ht with hsend | hqueue | hactive
    · exact .inl hsend
    · rcases List.mem_cons.mp hqueue with heq | hrest
      · cases heq
      · exact .inr (.inl hrest)
    · exact .inr (.inr hactive)
  · cases hstep

/-- The topic found idle is not retained, and its channel is nobody else's. -/
theorem inv_check (h : Inv s) (hstep : s.step .check = some s') : Inv s' := by
  obtain ⟨hcared, hmirror⟩ := h
  simp only [step] at hstep
  split at hstep
  · rename_i topic htask
    rw [htask] at hcared hmirror
    split at hstep
    · rename_i hidle
      cases hstep
      refine ⟨?_, fun halive => congrArg (Finset.erase · topic.redisChannel) (hmirror halive).symm⟩
      intro t ht
      rcases hcared t ht with hsend | hqueue | hactive
      · exact .inl hsend
      · exact .inr (.inl hqueue)
      · have hne : t.redisChannel ≠ topic.redisChannel := by
          intro heq
          have hpos : 0 < s.refcount t := ht
          rw [redisChannel_inj heq, hidle.1] at hpos
          omega
        exact .inr (.inr (Finset.mem_erase.mpr ⟨hne, hactive⟩))
    · cases hstep
      exact ⟨hcared, hmirror⟩
  · cases hstep

theorem inv_subscribed (h : Inv s) (hstep : s.step .subscribed = some s') : Inv s' := by
  obtain ⟨hcared, hmirror⟩ := h
  simp only [step] at hstep
  split at hstep
  · rename_i topic htask
    rw [htask] at hcared hmirror
    split at hstep
    · rename_i halive
      cases hstep
      exact ⟨hcared, fun _ => (hmirror halive).symm⟩
    · cases hstep
  · cases hstep

theorem inv_unsubscribed (h : Inv s) (hstep : s.step .unsubscribed = some s') : Inv s' := by
  obtain ⟨hcared, hmirror⟩ := h
  simp only [step] at hstep
  split at hstep
  · rename_i topic htask
    rw [htask] at hcared hmirror
    split at hstep
    · rename_i halive
      cases hstep
      exact ⟨hcared, fun _ => (hmirror halive).symm⟩
    · cases hstep
  · cases hstep

/-- **What the task has in hand, or is told of, is never lost.** -/
theorem inv_step (h : Inv s) (hstep : s.step a = some s') : Inv s' := by
  cases a with
  | retain topic =>
    cases hstep
    exact inv_retain h topic
  | release topic =>
    cases hstep
    exact inv_release h topic
  | elapse i => exact inv_elapse h hstep
  | send i => exact inv_send h hstep
  | connect =>
    simp only [step] at hstep
    split at hstep
    · cases hstep
      exact ⟨fun _ _ => .inr (.inr trivial), fun _ => ⟨rfl, rfl⟩⟩
    · cases hstep
  | snapshot topics => exact inv_snapshot h hstep
  | subscribeInitial => exact inv_subscribeInitial h hstep
  | listen => exact inv_listen h hstep
  | receive => exact inv_receive h hstep
  | subscribed => exact inv_subscribed h hstep
  | check => exact inv_check h hstep
  | unsubscribed => exact inv_unsubscribed h hstep
  | lose =>
    simp only [step] at hstep
    split at hstep
    · cases hstep
      exact ⟨h.cared, fun halive => absurd halive (by simp)⟩
    · cases hstep
  | fail =>
    simp only [step] at hstep
    split at hstep
    · cases hstep
    · cases hstep
      exact ⟨fun _ _ => .inr (.inr trivial), fun halive => absurd halive (by simp)⟩

theorem inv_run (hrun : machine.run init as = some s) : Inv s :=
  Machine.invariant (fun _ _ _ h _ hstep => inv_step h hstep) inv_init Machine.always_true hrun

/-! ## Topic subscriptions follow the reference counts -/

/-- The connection stands and the task waits at its `select!`. -/
def Connected (s : PubSubManager) : Prop := s.alive = true ∧ s.task = .listening

/-- No command is left, and no call is about to send another `Subscribe`. -/
def Drained (s : PubSubManager) : Prop :=
  s.subscriptionRx = [] ∧ ∀ topic, .subscribe topic ∉ s.sending

/-- A retained topic is subscribed, unless a `Subscribe` for it has still to be taken. -/
theorem mem_redis (h : Inv s) (hconnected : s.Connected) (ht : 0 < s.refcount t) :
    .subscribe t ∈ s.sending ∨ .subscribe t ∈ s.subscriptionRx ∨ t.redisChannel ∈ s.redis := by
  obtain ⟨halive, htask⟩ := hconnected
  obtain ⟨hcared, hmirror⟩ := h
  rw [htask] at hcared hmirror
  have hredis : s.redis = s.activeTopics := hmirror halive
  rw [hredis]
  exact hcared t ht

/-- **Subscriptions follow the counts.** In every run the count of a topic is the number of
its outstanding retains, and whenever the task is connected with nothing left to be told,
every topic with outstanding retains is subscribed. The names keep the topics apart. -/
theorem topics_follow_refcounts (as : List Action) (s : PubSubManager)
    (hrun : machine.run init as = some s) (hmatched : Matched as) :
    (∀ topic, s.refcount topic = outstanding topic as)
      ∧ (s.Connected → s.Drained → ∀ topic, 0 < outstanding topic as → topic.redisChannel ∈ s.redis)
      ∧ (∀ key : EventTopicKey, EventTopicKey.parseRedisChannel key.redisChannel = .ok key)
      ∧ ∀ a b : EventTopicKey, a.communityId ≠ b.communityId → a.redisChannel ≠ b.redisChannel := by
  have hcount : ∀ topic, s.refcount topic = outstanding topic as := by
    intro topic
    have h := refcount_run hrun hmatched topic
    unfold outstanding
    omega
  refine ⟨hcount, ?_, parse_redisChannel, ?_⟩
  · intro hconnected hdrained topic hpos
    rw [← hcount topic] at hpos
    rcases mem_redis (inv_run hrun) hconnected hpos with hsend | hqueue | hredis
    · exact absurd hsend (hdrained.2 topic)
    · rw [hdrained.1] at hqueue
      cases hqueue
    · exact hredis
  · intro a b hne heq
    exact hne (congrArg EventTopicKey.communityId (redisChannel_inj heq))

/-- A topic that is released, idle, and retained again while it is being unsubscribed. -/
def backAgain (topic : EventTopicKey) : List Action :=
  [.connect, .snapshot [], .listen, .retain topic, .send 0, .receive, .subscribed, .release topic,
    .elapse 0, .send 0,
    .receive, .check, .retain topic, .unsubscribed, .send 0, .receive, .subscribed]

/-- In the end the topic is counted once and subscribed. -/
theorem topics_follow_refcounts_backAgain :
    ∃ (topic : EventTopicKey) (s : PubSubManager), machine.run init (backAgain topic) = some s
      ∧ s.refcount topic = 1 ∧ topic.redisChannel ∈ s.redis := by
  let topic : EventTopicKey := ⟨⟨.ofNat 16 1⟩, .global⟩
  have hmap : (machine.run init (backAgain topic)).map (fun s =>
    (s.alive, s.task, s.subscriptionRx, s.sending))
      = some (true, Task.listening, [], []) := by decide
  obtain ⟨s, hrun, hvals⟩ := Option.map_eq_some_iff.mp hmap
  obtain ⟨halive, hrest⟩ := Prod.mk.inj hvals
  obtain ⟨htask, hrest⟩ := Prod.mk.inj hrest
  obtain ⟨hrx, hsending⟩ := Prod.mk.inj hrest
  have hmatched : Matched (backAgain topic) := by
    intro n t
    by_cases ht : t = topic
    · rw [ht]
      have hall : ∀ n < 18, releases topic ((backAgain topic).take n) ≤
          retains topic ((backAgain topic).take n) := by decide
      by_cases hn : n < 18
      · exact hall n hn
      · rw [List.take_of_length_le (by simp [backAgain]; omega)]
        decide
    · have hnone : ∀ l : List Action, l <+: backAgain topic → releases t l = 0 := by
        intro l hl
        refine List.count_eq_zero.mpr ?_
        intro hmem
        have h := hl.subset hmem
        simp [backAgain] at h
        exact ht h
      rw [hnone _ (List.take_prefix n _)]
      exact Nat.zero_le _
  have hall := topics_follow_refcounts (backAgain topic) s hrun hmatched
  refine ⟨topic, s, hrun, ?_, ?_⟩
  · rw [hall.1]
    decide
  · refine hall.2.1 ⟨halive, htask⟩ ⟨hrx, ?_⟩ topic (by decide)
    intro t
    rw [hsending]
    exact List.not_mem_nil

end PubSubManager

end Pkzz.PubSub
