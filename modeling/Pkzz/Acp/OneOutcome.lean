import Pkzz.Acp.Permission

/-!
# One outcome for each request

A pending entry holds the one sender of its channel, and the channel is empty as long as it does. So
a request that has a value in its channel, or whose waiter has ended, has no entry, and nothing can
be sent to it any more. What `resolve` answered `Delivered` for is therefore the one value that the
waiter can find.
-/

namespace Pkzz.Acp.Permission

open Pkzz.Core Pkzz.Lib
open Finmap (lookup)

/-- How the waiter ended, from the moment it is decided. -/
def WaitPoint.ending : WaitPoint → Option Ending
  | returning ending => some ending
  | dropping ending | gone ending => ending
  | _ => none

/-- The waiter has its outcome, or is gone. -/
def WaitPoint.Ended (point : WaitPoint) : Prop := point.ending ≠ none ∨ point = .gone none

/-- What a poll of the channel would find. -/
def Oneshot.Resolved (c : Oneshot) (outcome : PermissionWaitOutcome) : Prop :=
  c.sent = some outcome ∨ (c.sent = none ∧ c.senderGone = true ∧ outcome = .unavailable)

/-- The sender has been used or dropped. -/
def Oneshot.Spent (c : Oneshot) : Prop := c.sent ≠ none ∨ c.senderGone = true

/-! ## Entries and their channels -/

/-- A waiter that has ended, or whose channel is spent, has no entry; and it ended by what was in
the channel. -/
structure Known (s : Rendezvous) (request : Nat) (w : PermissionWaiter) : Prop where
  lt : request < s.next
  ended : w.point.Ended → lookup w.binding s.broker.pending = none
  spent : (s.broker.channels request).Spent → lookup w.binding s.broker.pending = none
  took : ∀ outcome, w.point.ending = some (.channel outcome) →
    (s.broker.channels request).Resolved outcome

/-- The waiter of the entry is there, it was registered under the present scope, and its channel is
unused. -/
def Waited (s : Rendezvous) (key : PermissionBinding) (p : PendingPermission) : Prop :=
  ∃ w, lookup p.sender s.waiters = some w ∧ w.binding = key ∧ w.deadline = p.deadline ∧
    w.epoch = s.epoch ∧ ¬ (s.broker.channels p.sender).Spent

structure Inv (s : Rendezvous) : Prop where
  waiters : ∀ (request : Nat) (w : PermissionWaiter), lookup request s.waiters = some w →
    Known s request w
  pending : ∀ (key : PermissionBinding) (p : PendingPermission), lookup key s.broker.pending =
    some p → Waited s key p
  ids : ∀ (request request' : Nat) (w w' : PermissionWaiter), lookup request s.waiters = some w →
    lookup request' s.waiters = some w' → w.binding.requestId = w'.binding.requestId →
      request = request'

variable {s s' : Rendezvous} {b' : Broker} {request : Nat} {w : PermissionWaiter}

theorem inv_init : Inv Rendezvous.init := by
  refine ⟨?_, ?_, ?_⟩
  · intro request w h
    rw [Rendezvous.init, Finmap.lookup_empty] at h
    cases h
  · intro key p h
    rw [Rendezvous.init, Finmap.lookup_empty] at h
    cases h
  · intro request request' w w' h
    rw [Rendezvous.init, Finmap.lookup_empty] at h
    cases h

/-- Entries are taken out of the map, and no channel changes but those of the entries that are
taken. -/
structure Takes (b b' : Broker) : Prop where
  pending : ∀ (key : PermissionBinding) (p : PendingPermission),
    lookup key b'.pending = some p → lookup key b.pending = some p
  channels : ∀ n, ((b'.channels n).sent = (b.channels n).sent ∧
    (b'.channels n).senderGone = (b.channels n).senderGone) ∨
    ∃ key p, lookup key b.pending = some p ∧ p.sender = n ∧ lookup key b'.pending = none

theorem Takes.none_of_none {b : Broker} (h : Takes b b') {key : PermissionBinding}
    (hnone : lookup key b.pending = none) : lookup key b'.pending = none := by
  cases hkey : lookup key b'.pending with
  | none => rfl
  | some p =>
    rw [h.pending key p hkey] at hnone
    cases hnone

theorem spent_congr {c c' : Oneshot} (hsent : c'.sent = c.sent)
    (hgone : c'.senderGone = c.senderGone) : c'.Spent ↔ c.Spent := by
  unfold Oneshot.Spent
  rw [hsent, hgone]

variable {outcome : PermissionWaitOutcome}

theorem resolved_congr {c c' : Oneshot} (hsent : c'.sent = c.sent)
    (hgone : c'.senderGone = c.senderGone) : c'.Resolved outcome ↔ c.Resolved outcome := by
  unfold Oneshot.Resolved
  rw [hsent, hgone]

/-- Taking entries keeps the invariant. The scope may change when none is left. -/
theorem inv_take (hs : Inv s) (htake : Takes s.broker b') (hbroker : s'.broker = b')
    (hwaiters : s'.waiters = s.waiters)
    (hnext : s'.next = s.next) (hepoch : s'.epoch = s.epoch ∨ ∀ key, lookup key b'.pending = none) :
    Inv s' := by
  refine ⟨?_, ?_, ?_⟩
  · intro request w hw
    rw [hwaiters] at hw
    have hk := hs.waiters request w hw
    refine ⟨?_, ?_, ?_, ?_⟩
    · rw [hnext]
      exact hk.lt
    · intro hended
      rw [hbroker]
      exact htake.none_of_none (hk.ended hended)
    · intro hspent
      rw [hbroker] at hspent ⊢
      rcases htake.channels request with ⟨hsent, hgone⟩ | ⟨key, p, hp, hsender, hnone⟩
      · exact htake.none_of_none (hk.spent ((spent_congr hsent hgone).mp hspent))
      -- the entry that was taken is the one of this waiter
      obtain ⟨w', hw', hkey, _⟩ := hs.pending key p hp
      rw [hsender, hw] at hw'
      rw [Option.some.inj hw', hkey]
      exact hnone
    · intro outcome houtcome
      rw [hbroker]
      rcases htake.channels request with ⟨hsent, hgone⟩ | ⟨key, p, hp, hsender, _⟩
      · exact (resolved_congr hsent hgone).mpr (hk.took outcome houtcome)
      obtain ⟨w', hw', hkey, _⟩ := hs.pending key p hp
      rw [hsender, hw] at hw'
      cases hw'
      have hended := hk.ended (.inl (by rw [houtcome]; nofun))
      rw [hkey, hp] at hended
      cases hended
  · intro key p hp
    rw [hbroker] at hp
    rcases hepoch with hepoch | hempty
    · obtain ⟨w, hw, hkey, hdeadline, hold, hopen⟩ := hs.pending key p (htake.pending key p hp)
      refine ⟨w, ?_, hkey, hdeadline, ?_, ?_⟩
      · rw [hwaiters, hw]
      · rw [hepoch, hold]
      · rw [hbroker]
        rcases htake.channels p.sender with ⟨hsent, hgone⟩ | ⟨key', p', hp', hsender, hnone⟩
        · rw [spent_congr hsent hgone]
          exact hopen
        obtain ⟨w', hw', hkey', _⟩ := hs.pending key' p' hp'
        rw [hsender, hw] at hw'
        cases hw'
        rw [← hkey', hkey, hp] at hnone
        cases hnone
    · rw [hempty key] at hp
      cases hp
  · rw [hwaiters]
    exact hs.ids

variable {point : WaitPoint}

/-- A waiter moves on. -/
theorem inv_setPoint (hs : Inv s) (hw : lookup request s.waiters = some w)
    (hended : point.Ended → lookup w.binding s.broker.pending = none)
    (htook : ∀ outcome, point.ending = some (.channel outcome) →
      (s.broker.channels request).Resolved outcome) :
    Inv (s.setPoint request w point) := by
  refine ⟨?_, ?_, ?_⟩
  · intro r v hv
    rw [Rendezvous.setPoint, Map.lookup_insert_eq] at hv
    split at hv
    · rename_i hr
      subst hr
      cases hv
      have hk := hs.waiters r w hw
      exact ⟨hk.lt, hended, hk.spent, htook⟩
    · have hk := hs.waiters r v hv
      exact ⟨hk.lt, hk.ended, hk.spent, hk.took⟩
  · intro key p hp
    obtain ⟨v, hv, hkey, hdeadline, hepoch, hopen⟩ := hs.pending key p hp
    by_cases hr : p.sender = request
    · rw [hr, hw] at hv
      cases hv
      refine ⟨{ w with point := point }, ?_, hkey, hdeadline, hepoch, hopen⟩
      rw [Rendezvous.setPoint, hr, Finmap.lookup_insert]
    · refine ⟨v, ?_, hkey, hdeadline, hepoch, hopen⟩
      rw [Rendezvous.setPoint, Finmap.lookup_insert_of_ne _ hr, hv]
  · intro r r' v v' hv hv' hid
    -- the binding of a waiter stays
    have hsame : ∀ (q : Nat) (u : PermissionWaiter),
        lookup q (s.setPoint request w point).waiters = some u →
        ∃ u', lookup q s.waiters = some u' ∧ u'.binding = u.binding := by
      intro q u hu
      rw [Rendezvous.setPoint, Map.lookup_insert_eq] at hu
      split at hu
      · rename_i hq
        cases hu
        exact ⟨w, by rw [hq, hw], rfl⟩
      · exact ⟨u, hu, rfl⟩
    obtain ⟨u, hu, hub⟩ := hsame r v hv
    obtain ⟨u', hu', hub'⟩ := hsame r' v' hv'
    exact hs.ids r r' u u' hu hu' (by rw [hub, hub', hid])

/-- A new request has a channel of its own, and an id that no other has. -/
theorem inv_register (hs : Inv s) {requestId : Uuid} {sessionId : String}
    {context : ObserverContext} {deadline : Instant}
    (hfresh : DrawsFresh s (.register requestId sessionId context deadline)) :
    Inv (s.onRegister requestId sessionId context deadline) := by
  unfold Rendezvous.onRegister
  cases hreg : s.broker.register s.next requestId sessionId context deadline with
  | none => exact hs
  | some result =>
    obtain ⟨broker, binding⟩ := result
    unfold Broker.register at hreg
    split at hreg
    · cases hreg
    split at hreg
    · cases hreg
    split at hreg
    · cases hreg
    · rename_i scope _ hnew
      cases hreg
      have hother : ∀ (r : Nat) (v : PermissionWaiter), lookup r s.waiters = some v → r ≠ s.next :=
        fun r v hv => Nat.ne_of_lt (hs.waiters r v hv).lt
      refine ⟨?_, ?_, ?_⟩
      · intro r v hv
        dsimp only at hv
        rw [Map.lookup_insert_eq] at hv
        split at hv
        · rename_i hr
          subst hr
          cases hv
          refine ⟨Nat.lt_succ_self _, ?_, ?_, nofun⟩
          · intro hended
            rcases hended with h | h
            · exact absurd rfl h
            · cases h
          · intro hspent
            dsimp only at hspent
            rw [Function.update_self] at hspent
            rcases hspent with h | h
            · exact absurd rfl h
            · cases h
        · rename_i hr
          have hk := hs.waiters r v hv
          -- the new entry is under another id
          have hne : v.binding ≠ ⟨scope.agentPubkey, scope.relayUrl, sessionId, requestId⟩ :=
            fun h => hfresh r v hv (by rw [h])
          refine ⟨Nat.lt_succ_of_lt hk.lt, ?_, ?_, ?_⟩
          · intro hended
            dsimp only
            rw [Finmap.lookup_insert_of_ne _ hne]
            exact hk.ended hended
          · intro hspent
            dsimp only at hspent ⊢
            rw [Function.update_of_ne hr] at hspent
            rw [Finmap.lookup_insert_of_ne _ hne]
            exact hk.spent hspent
          · intro outcome houtcome
            dsimp only
            rw [Function.update_of_ne hr]
            exact hk.took outcome houtcome
      · intro key p hp
        dsimp only at hp
        rw [Map.lookup_insert_eq] at hp
        split at hp
        · rename_i hkey
          cases hp
          refine ⟨⟨key, deadline, .idle, s.epoch⟩, ?_, rfl, rfl, rfl, ?_⟩
          · dsimp only
            rw [Finmap.lookup_insert, hkey]
          · dsimp only
            rw [Function.update_self]
            rintro (h | h)
            · exact absurd rfl h
            · cases h
        · obtain ⟨v, hv, hkey, hdeadline, hepoch, hopen⟩ := hs.pending key p hp
          have hr := hother _ v hv
          refine ⟨v, ?_, hkey, hdeadline, hepoch, ?_⟩
          · dsimp only
            rw [Finmap.lookup_insert_of_ne _ hr, hv]
          · dsimp only
            rw [Function.update_of_ne hr]
            exact hopen
      · intro r r' v v' hv hv' hid
        dsimp only at hv hv'
        rw [Map.lookup_insert_eq] at hv hv'
        split at hv
        · rename_i hr
          split at hv'
          · rename_i hr'
            rw [hr, hr']
          · cases hv
            exact absurd hid.symm (hfresh r' v' hv')
        · split at hv'
          · cases hv'
            exact absurd hid (hfresh r v hv)
          · exact hs.ids r r' v v' hv hv' hid

/-! ## What the broker does to entries and channels -/

/-- No channel gets a decision. -/
def Plain (b b' : Broker) : Prop :=
  ∀ n, (b'.channels n).sent = (b.channels n).sent ∨ ∀ d, (b'.channels n).sent ≠ some (.decision d)

namespace Broker

variable {b : Broker} {outcome : PermissionWaitOutcome} {which : PendingPermission → Bool}
    {key : PermissionBinding}
  {p : PendingPermission}

theorem sent_send (c : Oneshot) : (c.send outcome).1.sent = c.sent ∨
    (c.send outcome).1.sent = some outcome := by
  unfold Oneshot.send
  split
  · exact .inl rfl
  · exact .inr rfl

theorem plain_send (c : Oneshot) (hplain : ∀ d, outcome ≠ .decision d) :
    (c.send outcome).1.sent = c.sent ∨ ∀ d, (c.send outcome).1.sent ≠ some (.decision d) := by
  rcases @sent_send outcome c with h | h
  · exact .inl h
  · refine .inr fun d hd => hplain d ?_
    rw [h] at hd
    exact Option.some.inj hd

theorem takes_sendAll : Takes b (b.sendAll which outcome) := by
  refine ⟨?_, ?_⟩
  · intro key p hp
    rw [sendAll, Map.lookup_filter, Option.filter_eq_some_iff] at hp
    exact hp.1
  · intro n
    by_cases hsends : b.Sends which n
    · obtain ⟨key, _, hany⟩ := hsends
      obtain ⟨p, hp, hwhich⟩ := (Option.any_eq_true _ _).mp hany
      rw [Bool.and_eq_true, decide_eq_true_eq] at hwhich
      refine .inr ⟨key, p, hp, hwhich.2, ?_⟩
      rw [sendAll, Map.lookup_filter, hp, Option.filter_some, hwhich.1]
      rfl
    · rw [sendAll]
      dsimp only
      rw [if_neg hsends]
      exact .inl ⟨rfl, rfl⟩

theorem plain_sendAll (hplain : ∀ d, outcome ≠ .decision d) :
    Plain b (b.sendAll which outcome) := by
  intro n
  rw [sendAll]
  dsimp only
  split
  · exact plain_send _ hplain
  · exact .inl rfl

theorem takes_sendOne (hp : lookup key b.pending = some p) :
    Takes b (b.sendOne key p.sender outcome).1 := by
  refine ⟨?_, ?_⟩
  · intro key' p' hp'
    rw [sendOne, Map.lookup_erase_eq] at hp'
    split at hp'
    · cases hp'
    · exact hp'
  · intro n
    by_cases hn : n = p.sender
    · refine .inr ⟨key, p, hp, hn.symm, ?_⟩
      rw [sendOne, Finmap.lookup_erase]
    rw [sendOne]
    dsimp only
    rw [Function.update_of_ne hn]
    exact .inl ⟨rfl, rfl⟩

theorem plain_sendOne (hplain : ∀ d, outcome ≠ .decision d) :
    Plain b (b.sendOne key p.sender outcome).1 := by
  intro n
  rw [sendOne]
  dsimp only
  by_cases hn : n = p.sender
  · rw [hn, Function.update_self]
    exact plain_send _ hplain
  · rw [Function.update_of_ne hn]
    exact .inl rfl

theorem takes_refl : Takes b b := ⟨fun _ _ h => h, fun _ => .inl ⟨rfl, rfl⟩⟩

theorem plain_refl : Plain b b := fun _ => .inl rfl

theorem takes_remove : Takes b (b.remove key) := by
  unfold remove
  split
  · exact takes_refl
  rename_i p hp
  refine ⟨?_, ?_⟩
  · intro key' p' hp'
    rw [Map.lookup_erase_eq] at hp'
    split at hp'
    · cases hp'
    · exact hp'
  · intro n
    dsimp only
    by_cases hn : n = p.sender
    · exact .inr ⟨key, p, hp, hn.symm, Finmap.lookup_erase key b.pending⟩
    · rw [Function.update_of_ne hn]
      exact .inl ⟨rfl, rfl⟩

theorem plain_remove : Plain b (b.remove key) := by
  unfold remove
  split
  · exact plain_refl
  rename_i p hp
  intro n
  dsimp only
  by_cases hn : n = p.sender
  · rw [hn, Function.update_self]
    exact .inl rfl
  · rw [Function.update_of_ne hn]
    exact .inl rfl

theorem lookup_remove : lookup key (b.remove key).pending = none := by
  unfold remove
  split
  · assumption
  · exact Finmap.lookup_erase key b.pending

/-- The receiver of a channel goes. -/
def closed (b : Broker) (n : Nat) : Broker :=
  { b with channels := Function.update b.channels n (b.channels n).dropReceiver }

theorem sent_closed (n m : Nat) : ((b.closed n).channels m).sent = (b.channels m).sent ∧
    ((b.closed n).channels m).senderGone = (b.channels m).senderGone := by
  unfold closed
  dsimp only
  by_cases hm : m = n
  · rw [hm, Function.update_self]
    exact ⟨rfl, rfl⟩
  · rw [Function.update_of_ne hm]
    exact ⟨rfl, rfl⟩

theorem takes_closed (n : Nat) : Takes b (b.closed n) :=
  ⟨fun _ _ h => h, fun m => .inl (sent_closed n m)⟩

theorem plain_closed (n : Nat) : Plain b (b.closed n) := fun m => .inl (sent_closed n m).1

/-- Draining takes every entry, whatever the scope is then. -/
theorem takes_drainLocked (scope : Option PermissionScope) :
    Takes b { b.drainLocked outcome with scope := scope } :=
  ⟨(takes_sendAll : Takes b (b.sendAll (fun _ => true) outcome)).pending, takes_sendAll.channels⟩

theorem lookup_drainLocked (last : PermissionWaitOutcome) (key : PermissionBinding) :
    lookup key (b.drainLocked last).pending = none := by
  rw [drainLocked, sendAll, Map.lookup_filter]
  cases lookup key b.pending with
  | none => rfl
  | some p => rfl

theorem takes_cancel : Takes b (b.cancel key).1 := by
  unfold cancel
  split
  · exact takes_refl
  · rename_i p hp
    exact takes_sendOne hp

theorem plain_cancel : Plain b (b.cancel key).1 := by
  unfold cancel
  split
  · exact plain_refl
  · exact plain_sendOne nofun

/-- `resolve` finds no entry, or one that is past its deadline, or one whose receiver has gone, or
delivers. -/
theorem resolve_cases (b : Broker) (key : PermissionBinding) (d : OwnerPermissionDecision)
    (now : Instant) :
    ((b.resolve key d now).2 = .notPending ∧ Takes b (b.resolve key d now).1 ∧
      Plain b (b.resolve key d now).1) ∨
    ∃ p, lookup key b.pending = some p ∧ now < p.deadline ∧ (b.resolve key d now).2 = .delivered ∧
      (b.resolve key d now).1 = (b.sendOne key p.sender (.decision d)).1 ∧
      (((b.resolve key d now).1.channels p.sender).sent = some (.decision d)) := by
  unfold resolve
  cases hp : lookup key b.pending with
  | none => exact .inl ⟨rfl, takes_refl, plain_refl⟩
  | some p =>
    dsimp only
    split
    · exact .inl ⟨rfl, takes_sendOne hp, plain_sendOne nofun⟩
    rename_i hdeadline
    have hchannel : ∀ m, ((b.sendOne key p.sender (.decision d)).1.channels m) =
        if m = p.sender then ((b.channels p.sender).send (.decision d)).1 else b.channels m := by
      intro m
      rw [sendOne]
      dsimp only
      by_cases hm : m = p.sender
      · rw [if_pos hm, hm, Function.update_self]
      · rw [if_neg hm, Function.update_of_ne hm]
    split
    · rename_i hsent
      refine .inr ⟨p, rfl, Nat.lt_of_not_le hdeadline, rfl, rfl, ?_⟩
      dsimp only
      rw [hchannel, if_pos rfl]
      rw [sendOne] at hsent
      unfold Oneshot.send at hsent ⊢
      split
      · rename_i hgone
        rw [if_pos hgone] at hsent
        cases hsent
      · rfl
    · rename_i hrefused
      refine .inl ⟨rfl, takes_sendOne hp, ?_⟩
      intro m
      dsimp only
      rw [hchannel]
      split
      · rename_i hm
        refine .inl ?_
        rw [sendOne] at hrefused
        unfold Oneshot.send at hrefused ⊢
        split
        · rw [hm]
        · rename_i hopen
          rw [if_neg hopen] at hrefused
          exact absurd rfl hrefused
      · exact .inl rfl

end Broker

/-! ## The moves -/

/-- A waiter that the invariant allows to be at `point` gets there. -/
structure Allowed (b : Broker) (request : Nat) (w : PermissionWaiter)
    (point : WaitPoint) : Prop where
  ended : point.Ended → lookup w.binding b.pending = none
  took : ∀ outcome, point.ending = some (.channel outcome) → (b.channels request).Resolved outcome

/-- What a move does. -/
inductive Stepped (s s' : Rendezvous) : Prop
  /-- A broker call that delivers no decision, or none at all. -/
  | called (takes : Takes s.broker s'.broker) (plain : Plain s.broker s'.broker)
      (waiters : s'.waiters = s.waiters)
      (next : s'.next = s.next) (epoch : s'.epoch = s.epoch ∨ ∀ key,
        lookup key s'.broker.pending = none)
      (answers : s'.answers = s.answers) (outcomes : s'.outcomes = s.outcomes)
  | registered (requestId : Uuid) (sessionId : String) (context : ObserverContext)
      (deadline : Instant) (fresh : DrawsFresh s (.register requestId sessionId context deadline))
      (eq : s' = s.onRegister requestId sessionId context deadline)
  | delivered (key : PermissionBinding) (d : OwnerPermissionDecision) (p : PendingPermission)
      (found : lookup key s.broker.pending = some p) (early : s.now < p.deadline)
      (broker : s'.broker = (s.broker.sendOne key p.sender (.decision d)).1)
      (sent : (s'.broker.channels p.sender).sent = some (.decision d))
        (waiters : s'.waiters = s.waiters)
      (next : s'.next = s.next) (epoch : s'.epoch = s.epoch)
      (answers : s'.answers = ⟨p.sender, key, d, s.now, s.epoch⟩ :: s.answers)
        (outcomes : s'.outcomes = s.outcomes)
  /-- A waiter moves, and returns its outcome if it is the last of its moves. -/
  | moved (request : Nat) (w : PermissionWaiter) (point : WaitPoint)
      (found : lookup request s.waiters = some w)
      (live : ∀ ending, w.point ≠ .gone ending) (takes : Takes s.broker s'.broker)
        (plain : Plain s.broker s'.broker)
      (allowed : Allowed s'.broker request w point)
      (waiters : s'.waiters = Finmap.insert request { w with point := point } s.waiters)
        (next : s'.next = s.next)
      (epoch : s'.epoch = s.epoch) (answers : s'.answers = s.answers)
      (outcomes : s'.outcomes = s.outcomes ∨
        ∃ ending, point = .gone (some ending) ∧
          s'.outcomes = ⟨request, ending, s.now, s.epoch⟩ :: s.outcomes)

theorem stepped_onResolve (key : PermissionBinding) (d : OwnerPermissionDecision) :
    Stepped s (s.onResolve key d) := by
  rcases Broker.resolve_cases s.broker key d s.now with ⟨hstatus, htakes, hplain⟩ |
    ⟨p, hp, hearly, hstatus, hbroker, hsent⟩
  · refine .called htakes hplain rfl rfl (.inl rfl) ?_ rfl
    unfold Rendezvous.onResolve
    dsimp only
    rw [hstatus]
    cases lookup key s.broker.pending with
    | none => rfl
    | some p => rfl
  · refine .delivered key d p hp hearly hbroker hsent rfl rfl rfl ?_ rfl
    unfold Rendezvous.onResolve
    dsimp only
    rw [hstatus, hp]

theorem ended_of_ending {ending : Ending} (h : point.ending = some ending) : point.Ended :=
  .inl (by rw [h]; nofun)

theorem resolved_of_poll {c : Oneshot} (h : c.poll = some outcome) :
    c.Resolved outcome ∧ c.Spent := by
  unfold Oneshot.poll at h
  split at h
  · rename_i o ho
    cases h
    exact ⟨.inl ho, .inl (by rw [ho]; nofun)⟩
  rename_i hnone
  split at h
  · rename_i hgone
    cases h
    exact ⟨.inr ⟨hnone, hgone, rfl⟩, .inr hgone⟩
  · cases h

/-- Points at which nothing has ended are always allowed. -/
theorem allowed_of_live {b : Broker} (hlive : ¬ point.Ended) : Allowed b request w point :=
  ⟨fun h => absurd h hlive, fun _ h => absurd (ended_of_ending h) hlive⟩

variable {move : Move}

theorem stepped_onWaiter (hs : Inv s) (hw : lookup request s.waiters = some w)
    (h : s.onWaiter request w move = some s') : Stepped s s' := by
  have hk := hs.waiters request w hw
  cases move with
  | pollReceiver r =>
    simp only [Rendezvous.onWaiter] at h
    split at h
    · rename_i hpoint
      have hlive : ∀ ending, w.point ≠ .gone ending := by
        intro ending hgone
        rcases hpoint with hp | hp
        · rw [hp] at hgone
          cases hgone
        · rw [hp] at hgone
          cases hgone
      split at h
      · rename_i outcome hpoll
        cases h
        obtain ⟨hresolved, hspent⟩ := resolved_of_poll hpoll
        refine .moved request w _ hw hlive Broker.takes_refl Broker.plain_refl ⟨fun _ =>
          hk.spent hspent, ?_⟩ rfl rfl rfl rfl (.inl rfl)
        intro o ho
        cases ho
        exact hresolved
      · cases h
        exact .moved request w _ hw hlive Broker.takes_refl Broker.plain_refl
          (allowed_of_live (by simp [WaitPoint.Ended, WaitPoint.ending])) rfl rfl rfl rfl (.inl rfl)
    · cases h
  | pollTimer r =>
    simp only [Rendezvous.onWaiter] at h
    split at h
    · rename_i hpoint
      have hlive : ∀ ending, w.point ≠ .gone ending := by
        intro ending hgone
        rw [hpoint] at hgone
        cases hgone
      split at h
      · cases h
        exact .moved request w _ hw hlive Broker.takes_refl Broker.plain_refl
          (allowed_of_live (by simp [WaitPoint.Ended, WaitPoint.ending])) rfl rfl rfl rfl (.inl rfl)
      · cases h
        exact .moved request w _ hw hlive Broker.takes_refl Broker.plain_refl
          (allowed_of_live (by simp [WaitPoint.Ended, WaitPoint.ending])) rfl rfl rfl rfl (.inl rfl)
    · cases h
  | removeExpired r =>
    simp only [Rendezvous.onWaiter] at h
    split at h
    · rename_i hpoint
      cases h
      refine .moved request w (.returning .timer) hw ?_ Broker.takes_remove Broker.plain_remove
        ⟨fun _ => Broker.lookup_remove, ?_⟩ rfl rfl rfl rfl (.inl rfl)
      · intro ending hgone
        rw [hpoint] at hgone
        cases hgone
      · intro outcome houtcome
        cases houtcome
    · cases h
  | dropReceiver r =>
    simp only [Rendezvous.onWaiter] at h
    split at h
    · rename_i ending hpoint
      cases h
      refine .moved request w (.dropping (some ending)) hw ?_ (Broker.takes_closed request)
        (Broker.plain_closed request) ⟨?_, ?_⟩ rfl rfl rfl rfl (.inl rfl)
      · intro other hgone
        rw [hpoint] at hgone
        cases hgone
      · intro _
        exact hk.ended (ended_of_ending (by rw [hpoint]; rfl))
      · intro outcome houtcome
        obtain ⟨hsent, hgone⟩ := Broker.sent_closed (b := s.broker) request request
        exact (resolved_congr hsent hgone).mpr (hk.took outcome (by rw [hpoint]; exact houtcome))
    · rename_i hpoint
      cases h
      refine .moved request w (.dropping none) hw ?_ (Broker.takes_closed request)
        (Broker.plain_closed request)
        (allowed_of_live (by simp [WaitPoint.Ended, WaitPoint.ending])) rfl rfl rfl rfl (.inl rfl)
      intro ending hgone
      rw [hpoint] at hgone
      cases hgone
    · cases h
  | removeDropped r =>
    simp only [Rendezvous.onWaiter] at h
    split at h
    · rename_i hpoint
      cases h
      refine .moved request w (.gone none) hw ?_ Broker.takes_remove Broker.plain_remove ⟨fun _ =>
        Broker.lookup_remove, nofun⟩ rfl rfl rfl rfl (.inl rfl)
      intro ending hgone
      rw [hpoint] at hgone
      cases hgone
    · rename_i ending hpoint
      cases h
      have hended := hk.ended (ended_of_ending (by rw [hpoint]; rfl))
      -- the entry has been gone since the outcome was decided
      have hsame : s.broker.remove w.binding = s.broker := by
        unfold Broker.remove
        rw [hended]
      refine .moved request w (.gone (some ending)) hw ?_ Broker.takes_remove Broker.plain_remove
        ⟨fun _ => Broker.lookup_remove, ?_⟩ rfl rfl rfl rfl (.inr ⟨ending, rfl, rfl⟩)
      · intro other hgone
        rw [hpoint] at hgone
        cases hgone
      · intro outcome houtcome
        dsimp only
        rw [hsame]
        exact hk.took outcome (by rw [hpoint]; exact houtcome)
    · cases h
  | dropWaiter r =>
    simp only [Rendezvous.onWaiter] at h
    split at h
    · rename_i hpoint
      cases h
      refine .moved request w (.gone none) hw ?_ ?_ ?_ ⟨fun _ => Broker.lookup_remove,
        nofun⟩ rfl rfl rfl rfl (.inl rfl)
      · intro ending hgone
        rw [hpoint] at hgone
        cases hgone
      · refine ⟨Broker.takes_remove.pending, ?_⟩
        intro n
        obtain ⟨hsent, hgone⟩ := Broker.sent_closed (b := s.broker.remove w.binding) request n
        rcases Broker.takes_remove.channels n with ⟨hsent', hgone'⟩ | htaken
        · exact .inl ⟨hsent.trans hsent', hgone.trans hgone'⟩
        · exact .inr htaken
      · intro n
        have hsent := (Broker.sent_closed (b := s.broker.remove w.binding) request n).1
        have hremoved : Plain s.broker (s.broker.remove w.binding) := Broker.plain_remove
        rcases hremoved n with hsame | hplain
        · exact .inl (hsent.trans hsame)
        · refine .inr fun d hd => hplain d ?_
          rw [← hsent]
          exact hd
    · cases h
  | tick later => cases h
  | enable scope => cases h
  | disable => cases h
  | register requestId sessionId context deadline => cases h
  | resolve key d => cases h
  | cancel key => cases h
  | cancelChannel channelId => cases h

theorem stepped (hs : Inv s) (hfresh : DrawsFresh s move) (h : rendezvous.step s move = some s') :
    Stepped s s' := by
  have hwaiter : ∀ r, (lookup r s.waiters).bind (fun w => s.onWaiter r w move) = some s' →
      Stepped s s' := by
    intro r hr
    obtain ⟨w, hw, hmove⟩ := Option.bind_eq_some_iff.mp hr
    exact stepped_onWaiter hs hw hmove
  cases move with
  | tick later =>
    simp only [rendezvous] at h
    split at h
    · cases h
      exact .called Broker.takes_refl Broker.plain_refl rfl rfl (.inl rfl) rfl rfl
    · cases h
  | enable scope =>
    cases h
    by_cases hscope : s.broker.scope = some scope
    · refine .called ?_ ?_ rfl rfl (.inl ?_) rfl rfl
      · dsimp only
        rw [Broker.enable, if_pos hscope]
        exact Broker.takes_refl
      · dsimp only
        rw [Broker.enable, if_pos hscope]
        exact Broker.plain_refl
      · exact if_pos hscope
    · refine .called ?_ ?_ rfl rfl (.inr ?_) rfl rfl
      · dsimp only
        rw [Broker.enable, if_neg hscope]
        exact Broker.takes_drainLocked _
      · dsimp only
        rw [Broker.enable, if_neg hscope]
        exact Broker.plain_sendAll nofun
      · dsimp only
        rw [Broker.enable, if_neg hscope]
        intro key
        exact Broker.lookup_drainLocked .unavailable key
  | disable =>
    cases h
    exact .called (Broker.takes_drainLocked _) (Broker.plain_sendAll nofun) rfl rfl
      (.inr (Broker.lookup_drainLocked .unavailable)) rfl rfl
  | register requestId sessionId context deadline =>
    cases h
    exact .registered requestId sessionId context deadline hfresh rfl
  | resolve key d =>
    cases h
    exact stepped_onResolve key d
  | cancel key =>
    cases h
    exact .called Broker.takes_cancel Broker.plain_cancel rfl rfl (.inl rfl) rfl rfl
  | cancelChannel channelId =>
    cases h
    exact .called Broker.takes_sendAll (Broker.plain_sendAll nofun) rfl rfl (.inl rfl) rfl rfl
  | pollReceiver r | pollTimer r | removeExpired r | dropReceiver r | removeDropped r
  | dropWaiter r => exact hwaiter r h

theorem inv_step (hs : Inv s) (hfresh : DrawsFresh s move) (h : rendezvous.step s move = some s') :
    Inv s' := by
  cases stepped hs hfresh h with
  | called takes plain waiters next epoch answers outcomes =>
      exact inv_take hs takes rfl waiters next epoch
  | registered requestId sessionId context deadline fresh eq =>
    rw [eq]
    exact inv_register hs fresh
  | delivered key d p found early broker sent waiters next epoch answers outcomes =>
    exact inv_take hs (Broker.takes_sendOne found) broker waiters next (.inl epoch)
  | moved r w point found live takes plain allowed waiters next epoch answers outcomes =>
    have hbroker : Inv { s with broker := s'.broker } := inv_take hs takes rfl rfl rfl (.inl rfl)
    have hpoint := inv_setPoint hbroker found allowed.ended allowed.took
    refine ⟨?_, ?_, ?_⟩
    · intro r' v hv
      rw [waiters] at hv
      have hk := hpoint.waiters r' v hv
      refine ⟨?_, hk.ended, hk.spent, hk.took⟩
      rw [next]
      exact hk.lt
    · intro key p hp
      obtain ⟨v, hv, hkey, hdeadline, hold, hopen⟩ := hpoint.pending key p hp
      refine ⟨v, ?_, hkey, hdeadline, ?_, hopen⟩
      · rw [waiters]
        exact hv
      · rw [epoch]
        exact hold
    · rw [waiters]
      exact hpoint.ids

/-! ## Answers and outcomes -/

/-- `resolve` answered `Delivered` for what is in the channel and for nothing else, and what was
returned is what the waiter ended by. -/
structure Recorded (s : Rendezvous) : Prop where
  answered : ∀ (request : Nat) (w : PermissionWaiter), lookup request s.waiters = some w → ∀ d,
    (s.broker.channels request).sent = some (.decision d) ↔ ∃ a ∈ s.answers, a.request = request ∧
      a.decision = d
  accepted : ∀ a ∈ s.answers, ∃ w, lookup a.request s.waiters = some w ∧ a.binding = w.binding ∧
    a.instant < w.deadline ∧ a.epoch = w.epoch
  answeredOnce : (s.answers.map Answer.request).Nodup
  returned : ∀ e ∈ s.outcomes, ∃ w, lookup e.request s.waiters = some w ∧
    w.point = .gone (some e.ending)
  once : (s.outcomes.map Returned.request).Nodup

theorem recorded_init : Recorded Rendezvous.init := by
  refine ⟨?_, nofun, List.nodup_nil, nofun, List.nodup_nil⟩
  intro request w h
  rw [Rendezvous.init, Finmap.lookup_empty] at h
  cases h

/-- A request that is pending has no answer. -/
theorem Recorded.not_answered (hr : Recorded s) (hs : Inv s) {key : PermissionBinding}
    {p : PendingPermission}
    (hp : lookup key s.broker.pending = some p) : ∀ a ∈ s.answers, a.request ≠ p.sender := by
  intro a ha heq
  obtain ⟨w, hw, _, _, _, hopen⟩ := hs.pending key p hp
  have hsent := (hr.answered p.sender w hw a.decision).mpr ⟨a, ha, heq, rfl⟩
  exact hopen (.inl (by rw [hsent]; nofun))

/-- Where no channel gets a decision, the answers stay right. -/
theorem answered_plain (hr : Recorded s) (hs : Inv s) (htakes : Takes s.broker b')
    (hplain : Plain s.broker b') {n : Nat}
    (hw : lookup n s.waiters = some w) (d : OwnerPermissionDecision) :
    (b'.channels n).sent = some (.decision d) ↔ ∃ a ∈ s.answers, a.request = n ∧
    a.decision = d := by
  rcases hplain n with hsame | hnone
  · rw [hsame]
    exact hr.answered n w hw d
  constructor
  · intro h
    exact absurd h (hnone d)
  · rintro ⟨a, ha, hn, hd⟩
    -- an answered request has no entry to take
    rcases htakes.channels n with ⟨hsent, _⟩ | ⟨key, p, hp, hsender, _⟩
    · rw [hsent]
      exact (hr.answered n w hw d).mpr ⟨a, ha, hn, hd⟩
    · exact absurd (hn.trans hsender.symm) (hr.not_answered hs hp a ha)

/-- The channel that is made has no decision, and no answer is for it. -/
theorem recorded_register (hr : Recorded s) (hs : Inv s) (requestId : Uuid) (sessionId : String)
    (context : ObserverContext)
    (deadline : Instant) : Recorded (s.onRegister requestId sessionId context deadline) := by
  unfold Rendezvous.onRegister
  cases hreg : s.broker.register s.next requestId sessionId context deadline with
  | none => exact hr
  | some result =>
    obtain ⟨broker, binding⟩ := result
    have hchannels : broker.channels =
        Function.update s.broker.channels s.next Oneshot.channel := by
      unfold Broker.register at hreg
      split at hreg
      · cases hreg
      split at hreg
      · cases hreg
      split at hreg
      · cases hreg
      · cases hreg
        rfl
    have hnew : ∀ (r : Nat) (v : PermissionWaiter), lookup r s.waiters = some v → r ≠ s.next :=
      fun r v hv => Nat.ne_of_lt (hs.waiters r v hv).lt
    refine ⟨?_, ?_, hr.answeredOnce, ?_, hr.once⟩
    · intro n w hw d
      dsimp only at hw ⊢
      rw [hchannels]
      rw [Map.lookup_insert_eq] at hw
      split at hw
      · rename_i hn
        rw [hn, Function.update_self]
        constructor
        · intro hsent
          cases hsent
        · rintro ⟨a, ha, hreq, _⟩
          obtain ⟨v, hv, _⟩ := hr.accepted a ha
          exact absurd hreq (hnew _ v hv)
      · rename_i hn
        rw [Function.update_of_ne hn]
        exact hr.answered n w hw d
    · intro a ha
      obtain ⟨v, hv, hrest⟩ := hr.accepted a ha
      refine ⟨v, ?_, hrest⟩
      dsimp only
      rw [Finmap.lookup_insert_of_ne _ (hnew _ v hv), hv]
    · intro e he
      obtain ⟨v, hv, hpoint⟩ := hr.returned e he
      refine ⟨v, ?_, hpoint⟩
      dsimp only
      rw [Finmap.lookup_insert_of_ne _ (hnew _ v hv), hv]

/-- A decision that is delivered is answered, and it is the first for its request. -/
theorem recorded_deliver (hr : Recorded s) (hs : Inv s) {key : PermissionBinding}
    {d : OwnerPermissionDecision} {p : PendingPermission}
    (found : lookup key s.broker.pending = some p) (early : s.now < p.deadline)
    (broker : s'.broker = (s.broker.sendOne key p.sender (.decision d)).1)
    (sent : (s'.broker.channels p.sender).sent = some (.decision d))
    (waiters : s'.waiters = s.waiters)
    (answers : s'.answers = ⟨p.sender, key, d, s.now, s.epoch⟩ :: s.answers)
    (outcomes : s'.outcomes = s.outcomes) : Recorded s' := by
  obtain ⟨w, hw, hkey, hdeadline, hold, hopen⟩ := hs.pending key p found
  have hno := hr.not_answered hs found
  refine ⟨?_, ?_, ?_, ?_, ?_⟩
  · intro n v hv d'
    rw [waiters] at hv
    rw [answers]
    by_cases hn : n = p.sender
    · rw [hn, sent]
      constructor
      · intro heq
        cases heq
        exact ⟨_, List.mem_cons_self, rfl, rfl⟩
      · rintro ⟨a, ha, hreq, hd⟩
        rcases List.mem_cons.mp ha with rfl | hold
        · rw [← hd]
        · exact absurd hreq (hno a hold)
    · have hsame : s'.broker.channels n = s.broker.channels n := by
        rw [broker, Broker.sendOne]
        dsimp only
        rw [Function.update_of_ne hn]
      rw [hsame, hr.answered n v hv d']
      constructor
      · rintro ⟨a, ha, hreq, hd⟩
        exact ⟨a, List.mem_cons_of_mem _ ha, hreq, hd⟩
      · rintro ⟨a, ha, hreq, hd⟩
        rcases List.mem_cons.mp ha with rfl | hold
        · exact absurd hreq.symm hn
        · exact ⟨a, hold, hreq, hd⟩
  · rw [answers, waiters]
    intro a ha
    rcases List.mem_cons.mp ha with rfl | hold'
    · refine ⟨w, hw, hkey.symm, ?_, hold.symm⟩
      rw [hdeadline]
      exact early
    · exact hr.accepted a hold'
  · rw [answers, List.map_cons, List.nodup_cons]
    refine ⟨?_, hr.answeredOnce⟩
    intro hmem
    obtain ⟨a, ha, hreq⟩ := List.mem_map.mp hmem
    exact hno a ha hreq
  · rw [outcomes, waiters]
    exact hr.returned
  · rw [outcomes]
    exact hr.once

/-- A waiter that moves returns what it ended by, if anything. -/
theorem recorded_move (hr : Recorded s) (hs : Inv s) {r : Nat} {point : WaitPoint}
    (found : lookup r s.waiters = some w)
    (live : ∀ ending, w.point ≠ .gone ending) (takes : Takes s.broker s'.broker)
    (plain : Plain s.broker s'.broker)
    (waiters : s'.waiters = Finmap.insert r { w with point := point } s.waiters)
    (answers : s'.answers = s.answers) (outcomes : s'.outcomes = s.outcomes ∨
      ∃ ending, point = .gone (some ending) ∧
        s'.outcomes = ⟨r, ending, s.now, s.epoch⟩ :: s.outcomes) : Recorded s' := by
  -- what was returned before is by another waiter
  have hother : ∀ e ∈ s.outcomes, e.request ≠ r := by
    intro e he heq
    obtain ⟨v, hv, hpoint⟩ := hr.returned e he
    rw [heq, found] at hv
    cases hv
    exact live _ hpoint
  have hreturned : ∀ e ∈ s.outcomes, ∃ v, lookup e.request s'.waiters = some v ∧
      v.point = .gone (some e.ending) := by
    intro e he
    obtain ⟨v, hv, hpoint⟩ := hr.returned e he
    refine ⟨v, ?_, hpoint⟩
    rw [waiters, Finmap.lookup_insert_of_ne _ (hother e he), hv]
  refine ⟨?_, ?_, ?_, ?_, ?_⟩
  · intro n v hv d
    rw [answers]
    rw [waiters, Map.lookup_insert_eq] at hv
    split at hv
    · rename_i hn
      rw [hn]
      exact answered_plain hr hs takes plain found d
    · exact answered_plain hr hs takes plain hv d
  · rw [answers, waiters]
    intro a ha
    obtain ⟨v, hv, hrest⟩ := hr.accepted a ha
    by_cases hreq : a.request = r
    · rw [hreq, found] at hv
      cases hv
      refine ⟨{ w with point := point }, ?_, hrest⟩
      rw [hreq, Finmap.lookup_insert]
    · refine ⟨v, ?_, hrest⟩
      rw [Finmap.lookup_insert_of_ne _ hreq, hv]
  · rw [answers]
    exact hr.answeredOnce
  · rcases outcomes with hsame | ⟨ending, hpoint, hnew⟩
    · rw [hsame]
      exact hreturned
    · rw [hnew]
      intro e he
      rcases List.mem_cons.mp he with rfl | hold
      · refine ⟨{ w with point := point }, ?_, hpoint⟩
        rw [waiters, Finmap.lookup_insert]
      · exact hreturned e hold
  · rcases outcomes with hsame | ⟨ending, hpoint, hnew⟩
    · rw [hsame]
      exact hr.once
    · rw [hnew, List.map_cons, List.nodup_cons]
      refine ⟨?_, hr.once⟩
      intro hmem
      obtain ⟨e, he, hreq⟩ := List.mem_map.mp hmem
      exact hother e he hreq

theorem recorded_step (hr : Recorded s) (hs : Inv s) (hfresh : DrawsFresh s move)
    (h : rendezvous.step s move = some s') : Recorded s' := by
  cases stepped hs hfresh h with
  | called takes plain waiters next epoch answers outcomes =>
    refine ⟨?_, ?_, ?_, ?_, ?_⟩
    · intro n w hw d
      rw [answers]
      rw [waiters] at hw
      exact answered_plain hr hs takes plain hw d
    · rw [answers, waiters]
      exact hr.accepted
    · rw [answers]
      exact hr.answeredOnce
    · rw [outcomes, waiters]
      exact hr.returned
    · rw [outcomes]
      exact hr.once
  | registered requestId sessionId context deadline fresh eq =>
    rw [eq]
    exact recorded_register hr hs requestId sessionId context deadline
  | delivered key d p found early broker sent waiters next epoch answers outcomes =>
    exact recorded_deliver hr hs found early broker sent waiters answers outcomes
  | moved r w point found live takes plain allowed waiters next epoch answers outcomes =>
    exact recorded_move hr hs found live takes plain waiters answers outcomes

/-! ## Whole runs -/

/-- What holds of the requests in a state of a run. -/
structure OneOutcome (s : Rendezvous) : Prop where
  /-- At most one outcome for each request, and it is the one its waiter ended by. -/
  once : (s.outcomes.map Returned.request).Nodup
  returned : ∀ e ∈ s.outcomes, ∃ w, lookup e.request s.waiters = some w ∧
    w.point = .gone (some e.ending)
  /-- A waiter that ended by its channel returned exactly the decision that `Delivered` was answered
  for, if any. -/
  delivered_iff : ∀ e ∈ s.outcomes, ∀ outcome, e.ending = .channel outcome → ∀ d,
    (∃ a ∈ s.answers, a.request = e.request ∧ a.decision = d) ↔ outcome = .decision d
  /-- No decision is returned that `Delivered` was not answered for. -/
  decided : ∀ e ∈ s.outcomes, ∀ d, e.ending.outcome = .decision d →
    ∃ a ∈ s.answers, a.request = e.request ∧ a.decision = d
  /-- `Delivered` is answered once for a request: under its own binding, before the deadline and in
  the scope it was registered in, which has not changed since. -/
  answeredOnce : (s.answers.map Answer.request).Nodup
  accepted : ∀ a ∈ s.answers, ∃ w, lookup a.request s.waiters = some w ∧ a.binding = w.binding ∧
    a.instant < w.deadline ∧ a.epoch = w.epoch
  /-- A waiter that polls its channel after `Delivered` finds exactly that decision. -/
  polled : ∀ a ∈ s.answers, ∀ s', rendezvous.step s (.pollReceiver a.request) = some s' →
    ∃ w, lookup a.request s'.waiters = some w ∧
      w.point = .returning (.channel (.decision a.decision))
  /-- A request that has an outcome, or whose waiter is gone, is not pending. -/
  settled : ∀ (request : Nat) (w : PermissionWaiter), lookup request s.waiters = some w →
    w.point.Ended ∨ (s.broker.channels request).sent ≠ none →
      lookup w.binding s.broker.pending = none

theorem delivered_iff_of_recorded (hs : Inv s) (hr : Recorded s) {e : Returned}
    (he : e ∈ s.outcomes)
 (hending : e.ending = .channel outcome) (d : OwnerPermissionDecision) :
    (∃ a ∈ s.answers, a.request = e.request ∧ a.decision = d) ↔ outcome = .decision d := by
  obtain ⟨w, hw, hpoint⟩ := hr.returned e he
  have htook := (hs.waiters e.request w hw).took outcome (by rw [hpoint, hending]; rfl)
  rw [← hr.answered e.request w hw d]
  rcases htook with hsent | ⟨hsent, _, hunavailable⟩
  · rw [hsent]
    exact ⟨Option.some.inj, congrArg some⟩
  rw [hsent, hunavailable]
  constructor
  · intro h
    cases h
  · intro h
    cases h

theorem oneOutcome_of_recorded (hs : Inv s) (hr : Recorded s) : OneOutcome s := by
  refine ⟨hr.once, hr.returned, fun e he outcome hending d =>
    delivered_iff_of_recorded hs hr he hending d, ?_, hr.answeredOnce, hr.accepted, ?_, ?_⟩
  · intro e he d hd
    cases hending : e.ending with
    | channel outcome =>
      rw [hending] at hd
      exact (delivered_iff_of_recorded hs hr he hending d).mpr hd
    | timer =>
      rw [hending] at hd
      cases hd
  · intro a ha s' hstep
    obtain ⟨w, hw, _⟩ := hr.accepted a ha
    have hsent := (hr.answered a.request w hw a.decision).mpr ⟨a, ha, rfl, rfl⟩
    have hpoll : (s.broker.channels a.request).poll = some (.decision a.decision) := by
      unfold Oneshot.poll
      rw [hsent]
    have hmove : s.onWaiter a.request w (.pollReceiver a.request) = some s' := by
      rw [← hstep]
      show _ = (lookup a.request s.waiters).bind _
      rw [hw]
      rfl
    simp only [Rendezvous.onWaiter] at hmove
    split at hmove
    · rw [hpoll] at hmove
      cases hmove
      refine ⟨{ w with point := .returning (.channel (.decision a.decision)) }, ?_, rfl⟩
      rw [Rendezvous.setPoint, Finmap.lookup_insert]
    · cases hmove
  · intro request w hw hsettled
    have hk := hs.waiters request w hw
    rcases hsettled with hended | hsent
    · exact hk.ended hended
    · exact hk.spent (.inl hsent)

/-- **Every request has one outcome in every interleaving.** -/
theorem one_outcome {moves : List Move} (hrun : rendezvous.run Rendezvous.init moves = some s)
    (hfresh : rendezvous.Always DrawsFresh Rendezvous.init moves) : OneOutcome s := by
  have hboth : Inv s ∧ Recorded s := by
    refine Machine.invariant (I := fun s => Inv s ∧ Recorded s) (fun s move s' hs hfresh h => ?_)
      ⟨inv_init, recorded_init⟩ hfresh hrun
    exact ⟨inv_step hs.1 hfresh h, recorded_step hs.2 hs.1 hfresh h⟩
  exact oneOutcome_of_recorded hboth.1 hboth.2

/-! ## Delivered before, returned after -/

def theScope : PermissionScope := ⟨"aa", "wss://relay.example"⟩

theorem length_zeros : (List.replicate 16 (0 : UInt8)).length = 16 := rfl

def theRequestId : Uuid := ⟨List.replicate 16 0, length_zeros⟩

def theBinding : PermissionBinding := ⟨"aa", "wss://relay.example", "session-a", theRequestId⟩

/-- The owner approves, the bridge is disabled and the deadline passes, and then the waiter is
polled. -/
def approvedThenDisabled : List Move :=
  [.enable theScope, .register theRequestId "session-a" ⟨some "channel-a", some "session-a"⟩ 120,
   .resolve theBinding .approveOnce, .disable, .tick 200, .pollReceiver 0, .dropReceiver 0,
     .removeDropped 0]

theorem drawsFresh_approvedThenDisabled :
    rendezvous.Always DrawsFresh Rendezvous.init approvedThenDisabled := by
  refine ⟨trivial, fun s hs =>
    ⟨?_, fun s _ => ⟨trivial, fun s _ => ⟨trivial, fun s _ => ⟨trivial, fun s _ =>
    ⟨trivial, fun s _ => ⟨trivial, fun s _ => ⟨trivial, fun s _ => trivial⟩⟩⟩⟩⟩⟩⟩⟩
  -- the one request of the run is its first
  cases hs
  intro request w hw
  cases hw

/-- The late approval is the only outcome of its request. -/
theorem one_outcome_approvedThenDisabled :
    ∃ s, rendezvous.run Rendezvous.init approvedThenDisabled = some s ∧ OneOutcome s := by
  have hrun : (rendezvous.run Rendezvous.init approvedThenDisabled).isSome = true := by decide
  obtain ⟨s, hs⟩ := Option.isSome_iff_exists.mp hrun
  exact ⟨s, hs, one_outcome hs drawsFresh_approvedThenDisabled⟩

/-- An approval is returned after the deadline and after a change of scope: it was accepted before
both. -/
theorem approved_late :
    ¬ ∀ (moves : List Move) (s : Rendezvous), rendezvous.run Rendezvous.init moves = some s →
    rendezvous.Always DrawsFresh Rendezvous.init moves →
      ∀ e ∈ s.outcomes, e.ending.outcome = .decision .approveOnce →
      ∃ w, lookup e.request s.waiters = some w ∧ e.instant < w.deadline ∧ e.epoch = w.epoch := by
  intro h
  have hend : ((rendezvous.run Rendezvous.init approvedThenDisabled).map fun s =>
      (s.outcomes, (lookup 0 s.waiters).map fun w => (w.deadline, w.epoch)))
      = some ([⟨0, .channel (.decision .approveOnce), 200, 2⟩], some (120, 1)) := by decide
  obtain ⟨s, hs, hpair⟩ := Option.map_eq_some_iff.mp hend
  have houtcomes := congrArg Prod.fst hpair
  have hwaiter := congrArg Prod.snd hpair
  dsimp only at houtcomes hwaiter
  obtain ⟨w, hw, hearly, _⟩ := h approvedThenDisabled s hs drawsFresh_approvedThenDisabled
    ⟨0, .channel (.decision .approveOnce), 200, 2⟩ (by rw [houtcomes]; exact List.mem_cons_self) rfl
  rw [hw, Option.map_some] at hwaiter
  have hdeadline : w.deadline = 120 := congrArg Prod.fst (Option.some.inj hwaiter)
  rw [hdeadline] at hearly
  exact absurd hearly (by decide)

end Pkzz.Acp.Permission
