import Pkzz.Auth.Nip98
import Pkzz.Lib.Machine
import Pkzz.Lib.Redis

/-!
# The seen-set of NIP-98 credentials

`buzz-auth`'s `nip98_replay.rs` over the Redis guard of `buzz-pubsub`. A request is verified at
one moment and claims the id of its event at a later one; a claim is one `SET .. NX EX`, whose
key goes away with its time. The requests in flight are those of all pods: they share the
server and the clock, and nothing else.

A credential is used once as long as no claim for it comes after the time of the first one is
up (`singleUse_iff`). The time is the width of the window that the verifier leaves, with both
its ends counted as moments; but the verifier counts seconds, and its window holds one more.
-/

namespace Pkzz.Auth

open Pkzz.Core Pkzz.Lib

def DEFAULT_REPLAY_TTL_SECS : Nat := 120

def MAX_REPLAY_TTL_SECS : Nat := 3600

/-- `u64::clamp` between the floor and the ceiling. -/
def clampTtl (ttlSecs : Nat) : Nat := min (max ttlSecs DEFAULT_REPLAY_TTL_SECS) MAX_REPLAY_TTL_SECS

def nip98ReplayKeyForScope (scope : String) (eventId : EventId) : String :=
  "buzz:" ++ scope ++ ":nip98:" ++ eventId.toHex

/-- What becomes of the command on its way to the server and back. -/
inductive Reply where
  | answered
  /-- Nothing reached the server. -/
  | poolFailed (message : String)
  /-- The call failed, before or after the server ran the command. -/
  | callFailed (ran : Bool) (message : String)

/-- The server ran the command. -/
def Reply.ran : Reply → Bool
  | .answered => true
  | .poolFailed _ => false
  | .callFailed ran _ => ran

/-- `RedisNip98ReplayGuard::try_mark_in_scope`, at the millisecond `now` of the server. -/
def tryMarkInScope (r : Redis) (now : Nat) (reply : Reply) (scope : String) (eventId : EventId)
    (ttlSecs : Nat) : Redis × Except AuthError Bool :=
  let marked := r.setNxEx now (nip98ReplayKeyForScope scope eventId) "1" (clampTtl ttlSecs)
  match reply with
  | .answered => (marked.1, .ok marked.2)
  | .poolFailed e => (r, .error (.internal ("Redis pool: " ++ e)))
  | .callFailed ran e =>
      (if ran then marked.1 else r, .error (.internal ("Redis SET NX EX: " ++ e)))

/-! ## Requests in flight -/

structure Request where
  scope : String
  eventJson : String
  expectedUrl : String
  expectedMethod : String
  body : Option (List UInt8)

/-- What a claim is for. -/
abbrev Use := String × EventId

/-- A request that has passed verification. -/
structure Verified where
  scope : String
  event : SignedEvent

def Verified.use (v : Verified) : Use := (v.scope, v.event.id)

/-- `claims` and `honored` keep what has happened. -/
structure State where
  /-- Milliseconds of the one clock. -/
  now : Nat
  redis : Redis
  pending : List Verified
  claims : List (Use × Nat)
  honored : List Use

def State.init (now : Nat) : State := ⟨now, ∅, [], [], []⟩

inductive Move where
  | tick (ms : Nat)
  | verify (request : Request)
  | claim (i : Nat) (reply : Reply)

section

variable (crates : Nip98Crates)

/-- The event of a request that `verify_nip98_event` accepts at the second of `now`. -/
def verifiedEvent (now : Nat) (request : Request) : Option SignedEvent :=
  match crates.fromStr request.eventJson,
      verifyNip98Event crates
        (now / 1000) request.eventJson request.expectedUrl request.expectedMethod request.body with
  | .ok event, .ok _ => some event
  | _, _ => none

variable (ttlSecs : Nat)

/-- Only `Ok(true)` lets the request through. -/
def State.claim (s : State) (v : Verified) (reply : Reply) : State :=
  let out := tryMarkInScope s.redis s.now reply v.scope v.event.id ttlSecs
  { s with
    redis := out.1
    claims := if reply.ran then s.claims ++ [(v.use, s.now)] else s.claims
    honored :=
      match out.2 with
      | .ok true => s.honored ++ [v.use]
      | _ => s.honored }

def step (s : State) : Move → Option State
  | .tick ms => some { s with now := s.now + ms }
  | .verify request =>
    match verifiedEvent crates s.now request with
    | some event => some { s with pending := s.pending ++ [⟨request.scope, event⟩] }
    | none => some s
  | .claim i reply =>
    s.pending[i]?.map fun v => { s.claim ttlSecs v reply with pending := s.pending.eraseIdx i }

def machine : Machine State Move := ⟨step crates ttlSecs⟩

end

/-- The moment of the first claim that the server ran. -/
def State.firstClaim (s : State) (use : Use) : Option Nat := s.claims.lookup use

/-- A claim that the server runs comes no later than the first one of its credential plus the time
of the entry. -/
def InTime (ttlSecs : Nat) (s : State) : Move → Prop
  | .claim i reply =>
    reply.ran = true → ∀ v ∈ s.pending[i]?, ∀ t ∈ s.firstClaim v.use,
      s.now ≤ t + 1000 * clampTtl ttlSecs
  | _ => True

instance (ttlSecs : Nat) (s : State) : ∀ move, Decidable (InTime ttlSecs s move)
  | .tick _ => isTrue trivial
  | .verify _ => isTrue trivial
  | .claim i reply => inferInstanceAs (Decidable
      (reply.ran = true → ∀ v ∈ s.pending[i]?, ∀ t ∈ s.firstClaim v.use,
        s.now ≤ t + 1000 * clampTtl ttlSecs))

/-- The reply of the server gets through whenever there is one. -/
def Move.Heard : Move → Prop
  | .claim _ reply => reply.ran = true → reply = .answered
  | _ => True

/-- No credential was let through twice in one scope. -/
def State.SingleUse (s : State) : Prop := s.honored.Nodup

instance (s : State) : Decidable s.SingleUse := inferInstanceAs (Decidable s.honored.Nodup)

variable {crates : Nip98Crates} {ttlSecs : Nat} {s s' : State} {moves : List Move}

/-! ## Keys -/

/-- The id has a fixed length, so a key has one scope and one id. -/
theorem nip98ReplayKeyForScope_inj {a b : Use}
    (h : nip98ReplayKeyForScope a.1 a.2 = nip98ReplayKeyForScope b.1 b.2) : a = b := by
  have hlist := congrArg String.toList h
  simp only [nip98ReplayKeyForScope, String.toList_append, List.append_assoc] at hlist
  have htail := List.append_cancel_left hlist
  rw [← List.append_assoc, ← List.append_assoc b.1.toList] at htail
  have hlen : a.2.toHex.toList.length = b.2.toHex.toList.length := by
    rw [FixedBytes.length_toHex, FixedBytes.length_toHex]
  obtain ⟨hscope, hid⟩ := List.append_inj' htail hlen
  have hscope := List.append_cancel_right hscope
  exact Prod.ext (String.toList_inj.mp hscope) (FixedBytes.toHex_inj (String.toList_inj.mp hid))

/-! ## One claim -/

def entryOf (ttlSecs t : Nat) : RedisEntry := ⟨"1", some (t + 1000 * clampTtl ttlSecs)⟩

theorem isOver_entryOf {t now : Nat} :
    Redis.isOver (entryOf ttlSecs t) now = decide (t + 1000 * clampTtl ttlSecs < now) := by
  unfold Redis.isOver entryOf
  rw [Option.any_some]
  congr 1
  apply propext
  omega

/-- The server has for each credential the entry of its first claim. -/
def Kept (ttlSecs : Nat) (s : State) : Prop :=
  ∀ use : Use, Finmap.lookup (nip98ReplayKeyForScope use.1 use.2) s.redis =
    (s.firstClaim use).map (entryOf ttlSecs)

/-- A claim after another is not the first one. -/
theorem lookup_claims_append {claims : List (Use × Nat)} {use : Use} {t : Nat} (use' : Use) :
    (claims ++ [(use, t)]).lookup use' = (claims.lookup use').or
    (if use' = use then some t else none) := by
  rw [List.lookup_append]
  by_cases h : use' = use
  · rw [if_pos h, h, List.lookup_cons_self]
  · rw [if_neg h, List.lookup_cons, beq_false_of_ne h, List.lookup_nil]

variable {reply : Reply}

/-- A claim that the server does not run changes nothing. -/
theorem State.claim_of_not_ran {v : Verified} (h : reply.ran = false) :
    s.claim ttlSecs v reply = s := by
  unfold State.claim tryMarkInScope
  cases reply with
  | answered => cases h
  | poolFailed e => rfl
  | callFailed ran e =>
    cases ran with
    | false => rfl
    | true => cases h

/-- Within the time of the first claim a further one is refused. -/
theorem State.claim_of_taken (hkept : Kept ttlSecs s) {v : Verified} {t : Nat}
    (ht : s.firstClaim v.use = some t) (hnow : s.now ≤ t + 1000 * clampTtl ttlSecs)
    (hran : reply.ran = true) :
    s.claim ttlSecs v reply = { s with claims := s.claims ++ [(v.use, s.now)] } := by
  have hentry := hkept v.use
  rw [ht, Option.map_some] at hentry
  have hlive : Redis.isOver (entryOf ttlSecs t) s.now = false := by
    rw [isOver_entryOf, decide_eq_false_iff_not]
    omega
  have hset := Redis.setNxEx_of_taken "1" (clampTtl ttlSecs) hentry hlive
  unfold Verified.use at hset
  unfold State.claim tryMarkInScope
  rw [hset]
  cases reply with
  | answered => rfl
  | poolFailed e => cases hran
  | callFailed ran e =>
    cases ran with
    | false => cases hran
    | true => rfl

/-- Otherwise it is granted, and honored if the reply gets through. -/
theorem State.claim_of_free (hkept : Kept ttlSecs s) (v : Verified)
    (h : ∀ t, s.firstClaim v.use = some t → t + 1000 * clampTtl ttlSecs < s.now)
    (hran : reply.ran = true) : (s.claim ttlSecs v reply).redis
        = s.redis.setPx (nip98ReplayKeyForScope v.scope v.event.id) "1"
          (s.now + 1000 * clampTtl ttlSecs)
      ∧ (s.claim ttlSecs v reply).claims = s.claims ++ [(v.use, s.now)]
      ∧ ((s.claim ttlSecs v reply).honored = s.honored ++ [v.use]
        ∨ reply ≠ .answered ∧ (s.claim ttlSecs v reply).honored = s.honored) := by
  have hset : s.redis.setNxEx s.now (nip98ReplayKeyForScope v.scope v.event.id) "1"
      (clampTtl ttlSecs) = (s.redis.setPx (nip98ReplayKeyForScope v.scope v.event.id) "1"
        (s.now + 1000 * clampTtl ttlSecs), true) := by
    refine Redis.setNxEx_of_free "1" (clampTtl ttlSecs) ?_
    intro e he
    have hentry := hkept v.use
    unfold Verified.use at hentry
    rw [he] at hentry
    obtain ⟨t, ht, rfl⟩ := Option.map_eq_some_iff.mp hentry.symm
    rw [isOver_entryOf, decide_eq_true_eq]
    exact h t ht
  unfold State.claim tryMarkInScope
  rw [hset]
  cases reply with
  | answered => exact ⟨rfl, rfl, .inl rfl⟩
  | poolFailed e => cases hran
  | callFailed ran e =>
    cases ran with
    | false => cases hran
    | true => exact ⟨rfl, rfl, .inr ⟨by simp, rfl⟩⟩

/-! ## Runs in which every claim comes in time -/

/-- What holds as long as the claims come in time. -/
structure Safe (ttlSecs : Nat) (s : State) : Prop where
  kept : Kept ttlSecs s
  claimed : ∀ use ∈ s.honored, s.firstClaim use ≠ none
  single : s.SingleUse

theorem safe_init (now : Nat) : Safe ttlSecs (State.init now) where
  kept := fun _ => by
    unfold State.firstClaim State.init
    rw [Finmap.lookup_empty]
    rfl
  claimed := fun _ h => by cases h
  single := List.nodup_nil

/-- The first claim of a credential is logged, the others leave the log's first entries alone. -/
theorem firstClaim_append {use : Use} {t : Nat} (h : s'.claims = s.claims ++ [(use, t)])
    (use' : Use) :
    s'.firstClaim use' = (s.firstClaim use').or (if use' = use then some t else none) := by
  unfold State.firstClaim
  rw [h, lookup_claims_append]

theorem firstClaim_append_of_some {use use' : Use} {t t₀ : Nat}
    (h : s'.claims = s.claims ++ [(use, t)])
    (hfirst : s.firstClaim use = some t₀) : s'.firstClaim use' = s.firstClaim use' := by
  rw [firstClaim_append h use']
  by_cases huse : use' = use
  · rw [huse, hfirst, Option.some_or]
  · rw [if_neg huse, Option.or_none]

theorem Safe.claim (hs : Safe ttlSecs s) {v : Verified}
    (hin : reply.ran = true → ∀ t ∈ s.firstClaim v.use, s.now ≤ t + 1000 * clampTtl ttlSecs) :
    Safe ttlSecs (s.claim ttlSecs v reply) := by
  cases hran : reply.ran with
  | false =>
    rw [State.claim_of_not_ran hran]
    exact hs
  | true =>
    cases hfirst : s.firstClaim v.use with
    | some t =>
      rw [State.claim_of_taken hs.kept hfirst (hin hran t hfirst) hran]
      have hsame : ∀ use', State.firstClaim { s with claims := s.claims ++ [(v.use, s.now)] } use'
          = s.firstClaim use' := fun use' => firstClaim_append_of_some rfl hfirst
      refine ⟨?_, ?_, hs.single⟩
      · intro use'
        rw [hsame]
        exact hs.kept use'
      · intro use' hmem
        rw [hsame]
        exact hs.claimed use' hmem
    | none =>
      obtain ⟨hredis, hclaims, hhonored⟩ :=
        State.claim_of_free hs.kept v (by rw [hfirst]; simp) hran
      have hlog := firstClaim_append hclaims
      refine ⟨?_, ?_, ?_⟩
      · intro use'
        rw [hredis, Redis.lookup_setPx, hlog]
        by_cases huse : use' = v.use
        · rw [if_pos (by rw [huse]; rfl), if_pos huse, huse, hfirst]
          rfl
        rw [if_neg, if_neg huse, Option.or_none]
        · exact hs.kept use'
        · intro hkey
          exact huse (nip98ReplayKeyForScope_inj hkey)
      · intro use' hmem
        rw [hlog]
        by_cases huse : use' = v.use
        · rw [if_pos huse]
          simp
        rw [if_neg huse, Option.or_none]
        rcases hhonored with hhonored | ⟨_, hhonored⟩
        · rw [hhonored, List.mem_append, List.mem_singleton] at hmem
          exact hs.claimed use' (hmem.resolve_right huse)
        · rw [hhonored] at hmem
          exact hs.claimed use' hmem
      · have hnew : v.use ∉ s.honored := fun hmem => hs.claimed _ hmem hfirst
        unfold State.SingleUse
        rcases hhonored with hhonored | ⟨_, hhonored⟩
        · rw [hhonored]
          exact hs.single.append (List.nodup_singleton _) (List.disjoint_singleton.mpr hnew)
        · rw [hhonored]
          exact hs.single

/-- A verification leaves a use pending, or changes nothing. -/
theorem verify_cases {request : Request}
    (h : (machine crates ttlSecs).step s (.verify request) = some s') :
    s' = s ∨ ∃ event, verifiedEvent crates s.now request = some event ∧
      s' = { s with pending := s.pending ++ [⟨request.scope, event⟩] } := by
  change (match verifiedEvent crates s.now request with
    | some event => some { s with pending := s.pending ++ [⟨request.scope, event⟩] }
    | none => some s) = some s' at h
  split at h
  · rename_i event hevent
    exact .inr ⟨event, hevent, (Option.some.inj h).symm⟩
  · exact .inl (Option.some.inj h).symm

variable {move : Move}

theorem Safe.step (hs : Safe ttlSecs s) (hin : InTime ttlSecs s move)
    (h : (machine crates ttlSecs).step s move = some s') : Safe ttlSecs s' := by
  cases move with
  | tick ms =>
    cases h
    exact ⟨hs.kept, hs.claimed, hs.single⟩
  | verify request =>
    obtain rfl | ⟨event, _, rfl⟩ := verify_cases h
    · exact hs
    · exact ⟨hs.kept, hs.claimed, hs.single⟩
  | claim i reply =>
    obtain ⟨v, hv, rfl⟩ := Option.map_eq_some_iff.mp h
    have hsafe := hs.claim fun hran => hin hran v hv
    exact ⟨hsafe.kept, hsafe.claimed, hsafe.single⟩

/-- **No credential is let through twice as long as its claims come in time.** -/
theorem singleUse_of_inTime {now : Nat}
    (h : (machine crates ttlSecs).run (State.init now) moves = some s)
    (hin : (machine crates ttlSecs).Always (InTime ttlSecs) (State.init now) moves) : s.SingleUse :=
  (Machine.invariant (I := Safe ttlSecs) (fun _ _ _ hs hin hstep => hs.step hin hstep)
    (safe_init now) hin h).single

/-! ## A claim that comes too late -/

/-- Whoever has claimed has been let through. -/
def AllHeard (s : State) : Prop := ∀ use, s.firstClaim use ≠ none → use ∈ s.honored

/-- What was honored stays so. -/
theorem honored_sublist (h : (machine crates ttlSecs).step s move = some s') :
    s.honored.Sublist s'.honored := by
  cases move with
  | tick ms =>
    cases h
    exact List.Sublist.refl _
  | verify request =>
    obtain rfl | ⟨event, _, rfl⟩ := verify_cases h <;> exact List.Sublist.refl _
  | claim i reply =>
    obtain ⟨v, _, rfl⟩ := Option.map_eq_some_iff.mp h
    change s.honored.Sublist (s.claim ttlSecs v reply).honored
    unfold State.claim
    dsimp only
    split
    · exact List.sublist_append_left _ _
    · exact List.Sublist.refl _

theorem honored_sublist_run (h : (machine crates ttlSecs).run s moves = some s') :
    s.honored.Sublist s'.honored :=
  Machine.invariant (I := fun u => s.honored.Sublist u.honored) (P := fun _ _ => True)
    (fun _ _ _ hu _ hstep =>
      hu.trans (honored_sublist hstep)) (List.Sublist.refl _) Machine.always_true h

theorem AllHeard.step (hs : Safe ttlSecs s) (hall : AllHeard s) (hin : InTime ttlSecs s move)
    (hheard : move.Heard) (h : (machine crates ttlSecs).step s move = some s') : AllHeard s' := by
  cases move with
  | tick ms =>
    cases h
    exact hall
  | verify request =>
    obtain rfl | ⟨event, _, rfl⟩ := verify_cases h <;> exact hall
  | claim i reply =>
    obtain ⟨v, hv, rfl⟩ := Option.map_eq_some_iff.mp h
    change AllHeard (s.claim ttlSecs v reply)
    cases hran : reply.ran with
    | false =>
      rw [State.claim_of_not_ran hran]
      exact hall
    | true =>
      cases hfirst : s.firstClaim v.use with
      | some t =>
        rw [State.claim_of_taken hs.kept hfirst (hin hran v hv t hfirst) hran]
        intro use' hclaimed
        rw [firstClaim_append_of_some rfl hfirst] at hclaimed
        exact hall use' hclaimed
      | none =>
        obtain ⟨_, hclaims, hhonored⟩ :=
          State.claim_of_free hs.kept v (by rw [hfirst]; simp) hran
        have hhonored := hhonored.resolve_right fun hlost => hlost.1 (hheard hran)
        intro use' hclaimed
        rw [firstClaim_append hclaims] at hclaimed
        rw [hhonored, List.mem_append, List.mem_singleton]
        by_cases huse : use' = v.use
        · exact .inr huse
        · rw [if_neg huse, Option.or_none] at hclaimed
          exact .inl (hall use' hclaimed)

/-- A claim that comes too late is granted, and the credential is used a second time. -/
theorem not_singleUse_of_late (hs : Safe ttlSecs s) (hall : AllHeard s) (hheard : move.Heard)
    (hlate : ¬ InTime ttlSecs s move) (h : (machine crates ttlSecs).step s move = some s') :
    ¬ s'.SingleUse := by
  cases move with
  | tick ms => exact absurd trivial hlate
  | verify request => exact absurd trivial hlate
  | claim i reply =>
    obtain ⟨v, hv, rfl⟩ := Option.map_eq_some_iff.mp h
    unfold InTime at hlate
    push Not at hlate
    obtain ⟨hran, v', hv', t, hfirst, hnow⟩ := hlate
    obtain rfl : v' = v := Option.some.inj (hv'.symm.trans hv)
    have hfirst : s.firstClaim v'.use = some t := hfirst
    obtain ⟨_, _, hhonored⟩ := State.claim_of_free hs.kept v' (by
      intro t' ht'
      rw [hfirst] at ht'
      cases ht'
      omega) hran
    have hhonored := hhonored.resolve_right fun hlost => hlost.1 (hheard hran)
    have hmem : v'.use ∈ s.honored := hall _ (by rw [hfirst]; simp)
    unfold State.SingleUse
    change ¬ (s.claim ttlSecs v' reply).honored.Nodup
    rw [hhonored]
    intro hnodup
    exact (List.nodup_append.mp hnodup).2.2 _ hmem _ (List.mem_singleton_self _) rfl

theorem always_inTime_of_singleUse {t : State} (hs : Safe ttlSecs s) (hall : AllHeard s)
    (hheard : ∀ move ∈ moves, move.Heard) (h : (machine crates ttlSecs).run s moves = some t)
    (ht : t.SingleUse) : (machine crates ttlSecs).Always (InTime ttlSecs) s moves := by
  induction moves generalizing s with
  | nil => trivial
  | cons move moves ih =>
    obtain ⟨s', hstep, hrest⟩ := Machine.run_cons.mp h
    have hmove := hheard move List.mem_cons_self
    rw [Machine.always_cons_of_step hstep]
    by_cases hin : InTime ttlSecs s move
    · refine ⟨hin, ih (hs.step hin hstep) (hall.step hs hin hmove hstep) ?_ hrest⟩
      exact fun m hm => hheard m (List.mem_cons_of_mem _ hm)
    · -- the second use stays in the list
      exact absurd (ht.sublist (honored_sublist_run hrest))
        (not_singleUse_of_late hs hall hmove hin hstep)

/-- **A run uses no credential twice if every claim comes in time, and only then, unless a reply of
the server is lost.** -/
theorem singleUse_iff (crates : Nip98Crates) (now : Nat) (moves : List Move) (s : State)
    (h : (machine crates DEFAULT_REPLAY_TTL_SECS).run (State.init now) moves = some s) :
    ((machine crates DEFAULT_REPLAY_TTL_SECS).Always (InTime DEFAULT_REPLAY_TTL_SECS)
      (State.init now) moves →
        s.SingleUse)
      ∧ ((∀ move ∈ moves, move.Heard) → (s.SingleUse ↔
        (machine crates DEFAULT_REPLAY_TTL_SECS).Always (InTime DEFAULT_REPLAY_TTL_SECS)
          (State.init now) moves)) := by
  refine ⟨singleUse_of_inTime h, ?_⟩
  intro hheard
  refine ⟨?_, singleUse_of_inTime h⟩
  exact always_inTime_of_singleUse (safe_init now) (fun use huse => absurd rfl huse) hheard h

/-! ## Where claims come in time -/

/-- A claim is made at most `slack` milliseconds after the second `created_at + 60` has begun. -/
def Within (slack : Nat) (s : State) : Move → Prop
  | .claim i _ => ∀ v ∈ s.pending[i]?,
      s.now ≤ 1000 * (v.event.createdAt + TIMESTAMP_TOLERANCE_SECS) + slack
  | _ => True

/-- No request was accepted, and no claim made, before the window of its event had opened. -/
structure Opened (crates : Nip98Crates) (s : State) : Prop where
  pending : ∀ v ∈ s.pending, verifyId crates v.event = true
    ∧ s.now + 1000 * TIMESTAMP_TOLERANCE_SECS ≥ 1000 * v.event.createdAt
  claims : ∀ c ∈ s.claims, ∃ event, verifyId crates event = true ∧ event.id = c.1.2
    ∧ c.2 + 1000 * TIMESTAMP_TOLERANCE_SECS ≥ 1000 * event.createdAt

theorem Opened.step (hs : Opened crates s) (h : (machine crates ttlSecs).step s move = some s') :
    Opened crates s' := by
  cases move with
  | tick ms =>
    obtain rfl := Option.some.inj h
    refine ⟨?_, hs.claims⟩
    intro v hv
    obtain ⟨hid, hopen⟩ := hs.pending v hv
    exact ⟨hid, Nat.le_trans hopen (by dsimp only; omega)⟩
  | verify request =>
    obtain rfl | ⟨event, hevent, rfl⟩ := verify_cases h
    · exact hs
    · refine ⟨?_, hs.claims⟩
      intro v hv
      rcases List.mem_append.mp hv with hv | hv
      · exact hs.pending v hv
      obtain rfl := List.mem_singleton.mp hv
      unfold verifiedEvent at hevent
      split at hevent
      · rename_i event' pubkey hfrom hok
        obtain rfl := Option.some.inj hevent
        obtain ⟨event'', hfrom', _, hacc⟩ := verifyNip98Event_ok hok
        obtain rfl : event'' = event' := Except.ok.inj (hfrom'.symm.trans hfrom)
        have hearly := hacc.not_early
        refine ⟨decide_eq_true hacc.id_eq, ?_⟩
        dsimp only
        -- the clock's second is rounded down
        have hround := Nat.div_mul_le_self s.now 1000
        omega
      · cases hevent
  | claim i reply =>
    obtain ⟨v, hv, rfl⟩ := Option.map_eq_some_iff.mp h
    refine ⟨fun v' hv' => hs.pending v' (List.mem_of_mem_eraseIdx hv'), ?_⟩
    change ∀ c ∈ (if reply.ran then s.claims ++ [(v.use, s.now)] else s.claims), _
    split
    · intro c hc
      rcases List.mem_append.mp hc with hc | hc
      · exact hs.claims c hc
      · obtain rfl := List.mem_singleton.mp hc
        obtain ⟨hid, hopen⟩ := hs.pending v (List.mem_of_getElem? hv)
        exact ⟨v.event, hid, rfl, hopen⟩
    · exact hs.claims

/-- **The window is two minutes wide, so an entry that outlives it by the slack is kept long
enough.** Ids are taken to be as good as the events they are hashes of. -/
theorem always_inTime_of_within {slack now : Nat}
    (hhash : ∀ a b : SignedEvent, verifyId crates a = true → verifyId crates b = true →
      a.id = b.id → a.createdAt = b.createdAt)
    (hslack : 2 * 1000 * TIMESTAMP_TOLERANCE_SECS + slack ≤ 1000 * clampTtl ttlSecs)
    (hwithin : (machine crates ttlSecs).Always (Within slack) (State.init now) moves) :
    (machine crates ttlSecs).Always (InTime ttlSecs) (State.init now) moves := by
  have hinit : Opened crates (State.init now) := by
    refine ⟨?_, ?_⟩
    · intro v hv
      cases hv
    · intro c hc
      cases hc
  refine Machine.Always.imp (fun _ _ _ hs _ hstep => Opened.step hs hstep) ?_ hinit hwithin
  intro s move hs hmove
  cases move with
  | tick ms => trivial
  | verify request => trivial
  | claim i reply =>
    intro _ v hv t ht
    have hnow := hmove v hv
    obtain ⟨hid, _⟩ := hs.pending v (List.mem_of_getElem? hv)
    have hlogged : (v.use, t) ∈ s.claims := by
      obtain ⟨front, back, hclaims, _⟩ := List.lookup_eq_some_iff.mp ht
      rw [hclaims]
      exact List.mem_append_right _ List.mem_cons_self
    obtain ⟨event, hid', hsame, hopen⟩ := hs.claims (v.use, t) hlogged
    have hcreated := hhash event v.event hid' hid hsame
    rw [hcreated] at hopen
    dsimp only at hopen
    omega

/-! ## A credential from the future -/

/-- A credential for `GET https://relay.example/query`, made at the second 1700000000. -/
def futureEvent : SignedEvent where
  id := FixedBytes.ofNat 32 0x9fb7cf64b105560ef22be691dace5cf11197c99a6d4fed002995dc5618648094
  pubkey := FixedBytes.ofNat 32 0xf9308a019258c31049344f85f89d5229b531c845836f99b08601f113bce036f9
  createdAt := 1700000000
  kind := 27235
  tags := [⟨["u", "https://relay.example/query"], by decide⟩, ⟨["method", "GET"], by decide⟩]
  content := ""
  sig := FixedBytes.ofNat 64
    0x369f9f71ccd673685372ab0b8ac7ea83c4cbc45f322ba9122a606b56c1b2acf108f8ab60e084f07f2450dfb5f755a9bc6e00d17cff4700b4fc0c03660746efb9

/-- The crates, as far as this credential needs them. -/
def exampleCrates : Nip98Crates where
  fromStr := fun _ => .ok futureEvent
  eventId := fun _ _ _ _ _ => futureEvent.id
  verifySignature := fun e => e.sig = futureEvent.sig
  sha256 := fun _ => FixedBytes.ofNat 32 0
  toLowercase := id
  Url := String
  parse := some
  path := fun _ => "/query"
  setPath := fun url _ => url
  toString := id

def futureRequest : Request where
  scope := "community"
  eventJson := "event"
  expectedUrl := "https://relay.example/query"
  expectedMethod := "GET"
  body := none

/-- The first request comes a minute before the second of the event, the other one half a second
after its last minute has run out; the clock still shows the last second. -/
def replay : List Move :=
  [.verify futureRequest, .claim 0 .answered, .tick 120500, .verify futureRequest,
    .claim 0 .answered]

/-- The same two requests a minute apart; the second one is refused. -/
def retried : List Move :=
  [.verify futureRequest, .claim 0 .answered, .tick 60000, .verify futureRequest,
    .claim 0 .answered]

/-- The same request a minute apart: the second use is refused. -/
theorem singleUse_iff_example : ∃ s, (machine exampleCrates DEFAULT_REPLAY_TTL_SECS).run
    (State.init 1699999940000) retried = some s ∧ s.claims.length = 2 ∧ s.honored.length = 1 ∧
    s.SingleUse := by
  have hheard : ∀ move ∈ retried, move.Heard := by simp [retried, Move.Heard]
  exact ⟨_, rfl, rfl, rfl,
    ((singleUse_iff exampleCrates 1699999940000 retried _ rfl).2 hheard).mpr (by decide)⟩

/-- A credential of the next minute is used a second time when the entry of its first use is gone.
-/
theorem not_singleUse : ¬ ∀ (crates : Nip98Crates) (now : Nat) (moves : List Move) (s : State),
    (machine crates DEFAULT_REPLAY_TTL_SECS).run (State.init now) moves = some s → s.SingleUse := by
  intro h
  have hreplay := h exampleCrates 1699999940000 replay _ rfl
  revert hreplay
  decide

end Pkzz.Auth
