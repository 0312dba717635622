import Pkzz.Lib.Machine
import Pkzz.Tunnel.Directory

/-!
# Sessions are owned under a fence

Any number of runtimes acquire, renew and release leases of any sessions, and lease keys go at any
moment. The counter of a session is never reset, and a lease that is stored always has the counter's
value as its generation, so what is older than the counter is never accepted again.

`acquired` records the leases that were handed out, in the order of time.
-/

namespace Pkzz.Tunnel

open Pkzz.Core Pkzz.Lib
open Pkzz.Workflow (parseU64)
open SessionDirectory

/-! ## Numbers and lease values -/

theorem parseU64_repr {n : Nat} (h : n < 2 ^ 64) : parseU64 n.repr = some n := by
  have hdigits : ∀ c ∈ Nat.toDigits 10 n, c.isDigit = true :=
    fun c hc => Nat.isDigit_of_mem_toDigits (by decide) (by decide) hc
  have hne : Nat.toDigits 10 n ≠ [] := Nat.toDigits_ne_nil
  unfold parseU64
  rw [Nat.toList_repr]
  extract_lets digits value
  have hplain : digits = Nat.toDigits 10 n := by
    unfold digits
    split
    · rename_i ds heq
      have hplus := hdigits '+' (by rw [heq]; exact List.mem_cons_self)
      cases hplus
    · rfl
  have hvalue : value = n := by
    show digits.foldl (fun n d => 10 * n + (d.toNat - 48)) 0 = n
    rw [hplain]
    exact Nat.ofDigitChars_eq_foldl.symm.trans Nat.ofDigitChars_ten_toDigits
  rw [hvalue, if_neg, if_pos h]
  rw [hplain]
  simpa [hne] using hdigits

theorem parseU64_exponent {s : String} (h : 'e' ∈ s.toList) : parseU64 s = none := by
  rw [parseU64]
  dsimp only
  rw [if_pos]
  rw [Bool.or_eq_true, Bool.not_eq_true']
  refine .inr (List.all_eq_false.mpr ⟨'e', ?_, by decide⟩)
  split
  · rename_i ds heq
    rw [heq] at h
    exact (List.mem_cons.mp h).resolve_left (by decide)
  · exact h

/-- What `ACQUIRE_SCRIPT` stores. -/
def leaseValue (owner : RuntimeId) (generation : Nat) (profile : Profile) : String :=
  owner.toHex ++ "|" ++ Redis.tostring generation ++ "|" ++ profile.asWireStr

theorem bar_notMem_toHex (owner : RuntimeId) : '|' ∉ owner.toHex.toList := by
  intro h
  exact absurd (owner.toHex_isLowerHexdigit _ h) (by decide)

theorem bar_notMem_tostring (n : Nat) : '|' ∉ (Redis.tostring n).toList := by
  intro h
  rcases Redis.mem_tostring h with h | h | h | h <;> exact absurd h (by decide)

/-- A lease value has three fields. -/
theorem split_leaseValue (owner : RuntimeId) (generation : Nat) (profile : Profile) :
    Str.split (leaseValue owner generation profile) '|' = [owner.toHex, Redis.tostring generation,
      profile.asWireStr] := by
  have hprofile : Str.split profile.asWireStr '|' = [profile.asWireStr] := by
    refine Str.split_of_notMem ?_
    cases profile <;> decide
  have hshape : leaseValue owner generation profile =
      owner.toHex ++ "|" ++ (Redis.tostring generation ++ "|" ++ profile.asWireStr) := by
    simp only [leaseValue, String.append_assoc]
  rw [hshape, Str.split_append (bar_notMem_toHex owner) rfl,
    Str.split_append (bar_notMem_tostring generation) rfl, hprofile]

theorem profileFromWire_asWireStr (profile : Profile) :
    profileFromWire profile.asWireStr = some profile := by
  cases profile <;> rfl

theorem runtimeFromHex_toHex (owner : RuntimeId) : runtimeFromHex owner.toHex = some owner := by
  rw [runtimeFromHex, FixedBytes.toList_toHex, decodeHex_hexByte]
  exact dif_pos owner.length_eq

variable {communityId communityId' : CommunityId} {sessionId sessionId' : Uuid} {owner : RuntimeId}
    {generation : Nat}
  {profile : Profile}

/-- A lease value is read back, as long as Lua writes its generation without an exponent. -/
theorem parseLease_leaseValue (hpos : 0 < generation) (hlt : generation < 10 ^ 14) :
    parseLease communityId sessionId (leaseValue owner generation profile) =
      .ok { communityId, sessionId, ownerRuntimeId := owner, generation, profile } := by
  rw [parseLease, split_leaseValue, Redis.tostring_of_lt hlt]
  dsimp only
  rw [parseU64_repr (by omega)]
  dsimp only
  rw [if_neg (by omega), profileFromWire_asWireStr]
  dsimp only
  rw [runtimeFromHex_toHex]
  rfl

/-- From `10 ^ 14` on a lease value is malformed. -/
theorem parseLease_exponent (hge : 10 ^ 14 ≤ generation) :
    parseLease communityId sessionId (leaseValue owner generation profile) =
      .error (.malformedLease communityId sessionId (leaseValue owner generation profile)) := by
  rw [parseLease, split_leaseValue]
  dsimp only
  rw [parseU64_exponent (Redis.exponent_mem_tostring hge)]

variable {lease : SessionLease}

/-- A lease value that is read has the generation that was written. -/
theorem parseLease_ok (hpos : 0 < generation)
    (h : parseLease communityId sessionId (leaseValue owner generation profile) = .ok lease) :
    lease = { communityId, sessionId, ownerRuntimeId := owner, generation, profile } := by
  by_cases hlt : generation < 10 ^ 14
  · rw [parseLease_leaseValue hpos hlt] at h
    exact (Except.ok.inj h).symm
  · rw [parseLease_exponent (Nat.not_lt.mp hlt)] at h
    cases h

theorem matchLease_leaseValue :
    ∀ match', matchLease (leaseValue owner generation profile) = some match' →
      match' = (owner.toHex, Redis.tostring generation, profile.asWireStr) := by
  intro match' h
  rw [matchLease, split_leaseValue] at h
  dsimp only at h
  split at h
  · cases h
  · exact (Option.some.inj h).symm

/-- Who holds a lease value knows its generation. -/
theorem generation_of_heldBy {held : String} {n : Nat}
    (h : heldBy held n.repr (leaseValue owner generation profile) = true) : n = generation := by
  rw [heldBy] at h
  split at h
  · rename_i currentOwner currentGeneration p hmatch
    have hparts := matchLease_leaseValue _ hmatch
    simp only [Prod.mk.injEq] at hparts
    rw [Bool.and_eq_true, beq_iff_eq, beq_iff_eq] at h
    have hrepr : Redis.tostring generation = n.repr := hparts.2.1.symm.trans h.2
    by_cases hlt : generation < 10 ^ 14
    · rw [Redis.tostring_of_lt hlt] at hrepr
      exact (Str.decimal_inj (congrArg Str.asBytes hrepr)).symm
    -- the exponent is no digit
    have hexp := Redis.exponent_mem_tostring (Nat.not_lt.mp hlt)
    rw [hrepr, Nat.toList_repr] at hexp
    exact absurd (Nat.isDigit_of_mem_toDigits (by decide) (by decide) hexp) (by decide)
  · cases h

/-! ## Keys -/

theorem length_toString (u : Uuid) : u.toString.toList.length = 36 := by
  have hlen := u.length_hex
  rw [Uuid.toString, String.toList_ofList]
  simp [hlen]

theorem toString_inj {u v : Uuid} (h : u.toString = v.toString) : u = v := by
  have hparse := u.parse_toString
  rw [h, v.parse_toString] at hparse
  exact (Option.some.inj hparse).symm

/-- The base of a key and what stands behind it are told apart. -/
theorem sessionBase_inj {x y : String}
    (h : sessionBase communityId sessionId ++ x = sessionBase communityId' sessionId' ++ y) :
    (communityId = communityId' ∧ sessionId = sessionId') ∧ x = y := by
  have hlists := congrArg String.toList h
  simp only [sessionBase, String.toList_append, List.append_assoc] at hlists
  have hcommunity := List.append_inj (List.append_cancel_left hlists)
      (by rw [length_toString, length_toString])
  have hsession := List.append_inj (List.append_cancel_left hcommunity.2)
      (by rw [length_toString, length_toString])
  refine ⟨⟨?_, toString_inj (String.toList_inj.mp hsession.1)⟩, String.toList_inj.mp hsession.2⟩
  have huuid := toString_inj (String.toList_inj.mp hcommunity.1)
  cases communityId
  cases communityId'
  cases huuid
  rfl

theorem leaseKey_inj : leaseKey communityId sessionId = leaseKey communityId' sessionId' ↔
    communityId = communityId' ∧ sessionId = sessionId' := by
  constructor
  · intro h
    exact (sessionBase_inj h).1
  · rintro ⟨rfl, rfl⟩
    rfl

theorem generationKey_inj :
    generationKey communityId sessionId = generationKey communityId' sessionId' ↔
    communityId = communityId' ∧ sessionId = sessionId' := by
  constructor
  · intro h
    exact (sessionBase_inj h).1
  · rintro ⟨rfl, rfl⟩
    rfl

theorem leaseKey_ne_generationKey :
    leaseKey communityId sessionId ≠ generationKey communityId' sessionId' := by
  intro h
  exact absurd (sessionBase_inj h).2 (by decide)

/-! ## The machine -/

inductive Call where
  | acquire (now : Int) (communityId : CommunityId) (sessionId : Uuid) (ownerRuntimeId : RuntimeId)
      (profile : Profile)
  | renew (now : Int) (lease : SessionLease)
  | release (lease : SessionLease)
  /-- The time of a lease key is up. -/
  | expire (communityId : CommunityId) (sessionId : Uuid)

/-- The session a call is for. -/
def Call.session : Call → CommunityId × Uuid
  | acquire _ communityId sessionId _ _ => (communityId, sessionId)
  | renew _ lease => (lease.communityId, lease.sessionId)
  | release lease => (lease.communityId, lease.sessionId)
  | expire communityId sessionId => (communityId, sessionId)

structure Sessions where
  redis : Redis
  acquired : List SessionLease

def Sessions.start : Sessions := ⟨∅, []⟩

/-- The lease of an `Acquired`. -/
def handedOut : Except DirectoryError AcquireResult → List SessionLease
  | .ok (.acquired lease) => [lease]
  | _ => []

variable (d : SessionDirectory)

def sessions : Machine Sessions Call where
  step s
    | .acquire now communityId sessionId owner profile =>
      let result := d.acquire s.redis now communityId sessionId owner profile
      some ⟨result.1, s.acquired ++ handedOut result.2⟩
    | .renew now lease => some { s with redis := (d.renew s.redis now lease).1 }
    | .release lease => some { s with redis := (release s.redis lease).1 }
    | .expire communityId sessionId =>
        some { s with redis := s.redis.del (leaseKey communityId sessionId) }

variable {d} in
theorem step_acquire {s s' : Sessions} {now : Int} {communityId : CommunityId} {sessionId : Uuid}
    {owner : RuntimeId}
    {profile : Profile} (h :
      (sessions d).step s (.acquire now communityId sessionId owner profile) = some s') :
    s' = ⟨(d.acquire s.redis now communityId sessionId owner profile).1,
      s.acquired ++ handedOut (d.acquire s.redis now communityId sessionId owner profile).2⟩ :=
  (Option.some.inj h).symm

/-- The leases of a session that were handed out. -/
def acquiredOf (s : Sessions) (communityId : CommunityId) (sessionId : Uuid) : List SessionLease :=
  s.acquired.filter fun lease => lease.communityId = communityId ∧ lease.sessionId = sessionId

/-- The counter of a session. -/
def counterOf (r : Redis) (communityId : CommunityId) (sessionId : Uuid) : Nat :=
  ((r.get (generationKey communityId sessionId)).bind Redis.integer).getD 0

/-! ## The invariant -/

/-- **A stored lease is of the counter's generation.** -/
structure FencedSession (s : Sessions) (communityId : CommunityId) (sessionId : Uuid) : Prop where
  counter : s.redis.get (generationKey communityId sessionId) =
    if counterOf s.redis communityId sessionId = 0 then
      none else some (counterOf s.redis communityId sessionId).repr
  bounded : counterOf s.redis communityId sessionId < 2 ^ 63
  lease : ∀ value, s.redis.get (leaseKey communityId sessionId) = some value →
    0 < counterOf s.redis communityId sessionId ∧
    ∃ owner profile, value = leaseValue owner (counterOf s.redis communityId sessionId) profile
  below : ∀ lease ∈ acquiredOf s communityId sessionId, lease.generation ≤
    counterOf s.redis communityId sessionId
  increasing : (acquiredOf s communityId sessionId).Pairwise fun a b => a.generation < b.generation

def Fenced (s : Sessions) : Prop := ∀ communityId sessionId, FencedSession s communityId sessionId

theorem fenced_start : Fenced .start := by
  intro communityId sessionId
  refine ⟨rfl, ?_, ?_, ?_, List.Pairwise.nil⟩
  · show 0 < 2 ^ 63
    decide
  · intro value h
    cases h
  · intro lease h
    cases h

/-! ### What a call does to the store -/

variable {d} {r : Redis} {now : Int} {s s' : Sessions}

/-- A lease is there, or a new generation is stored. -/
theorem acquire_cases (communityId : CommunityId) (sessionId : Uuid) (owner : RuntimeId)
    (profile : Profile) : ((d.acquire r now communityId sessionId owner profile).1 = r ∧
      handedOut (d.acquire r now communityId sessionId owner profile).2 = []) ∨
    r.get (leaseKey communityId sessionId) = none ∧
      ∃ r₁ generation deadline, r.incr (generationKey communityId sessionId) =
        .ok (r₁, generation) ∧ (d.acquire r now communityId sessionId owner profile).1 =
          r₁.setPx (leaseKey communityId sessionId) (leaseValue owner generation profile) deadline ∧
        ∀ lease ∈ handedOut (d.acquire r now communityId sessionId owner profile).2,
          handedOut (d.acquire r now communityId sessionId owner profile).2 = [lease] ∧
            parseLease communityId sessionId (leaseValue owner generation profile) = .ok lease := by
  rw [SessionDirectory.acquire]
  cases ttlMs d.leaseTtl with
  | error e => exact .inl ⟨rfl, rfl⟩
  | ok ttl =>
    dsimp only
    rw [acquireScript]
    cases hlease : r.get (leaseKey communityId sessionId) with
    | some current =>
      refine .inl ⟨rfl, ?_⟩
      dsimp only
      cases parseLease communityId sessionId current <;> rfl
    | none =>
      cases hincr : r.incr (generationKey communityId sessionId) with
      | error e => exact .inl ⟨rfl, rfl⟩
      | ok p =>
        obtain ⟨r₁, generation⟩ := p
        refine .inr ⟨rfl, r₁, generation, now + ttl, rfl, rfl, ?_⟩
        dsimp only
        have hvalue : owner.toHex ++ "|" ++ Redis.tostring generation ++ "|" ++ profile.asWireStr =
            leaseValue owner generation profile := rfl
        rw [hvalue]
        cases hparse : parseLease communityId sessionId (leaseValue owner generation profile) with
        | error e =>
          intro lease hmem
          cases hmem
        | ok lease' =>
          dsimp only
          rw [if_pos rfl]
          intro lease hmem
          rw [List.mem_singleton.mp hmem]
          exact ⟨rfl, rfl⟩

/-- A renewal touches the deadline of a lease its caller holds. -/
theorem renew_cases (lease : SessionLease) :
    (d.renew r now lease).1 = r ∨
      ∃ value deadline, r.get (leaseKey lease.communityId lease.sessionId) = some value ∧
        heldBy lease.ownerRuntimeId.toHex lease.generation.repr value = true ∧
        (d.renew r now lease).1 = r.pexpire
          (leaseKey lease.communityId lease.sessionId) deadline := by
  rw [SessionDirectory.renew]
  cases ttlMs d.leaseTtl with
  | error e => exact .inl rfl
  | ok ttl =>
    dsimp only
    rw [renewScript]
    cases hlease : r.get (leaseKey lease.communityId lease.sessionId) with
    | none => exact .inl rfl
    | some value =>
      dsimp only
      by_cases hheld : heldBy lease.ownerRuntimeId.toHex lease.generation.repr value = true
      · rw [if_pos hheld]
        exact .inr ⟨value, now + ttl, rfl, hheld, rfl⟩
      · rw [if_neg hheld]
        exact .inl rfl

/-- A release deletes a lease its caller holds. -/
theorem release_cases (lease : SessionLease) :
    (release r lease).1 = r ∨
      ∃ value, r.get (leaseKey lease.communityId lease.sessionId) = some value ∧
        heldBy lease.ownerRuntimeId.toHex lease.generation.repr value = true ∧
        (release r lease).1 = r.del (leaseKey lease.communityId lease.sessionId) := by
  rw [SessionDirectory.release]
  dsimp only
  rw [releaseScript]
  cases hlease : r.get (leaseKey lease.communityId lease.sessionId) with
  | none => exact .inl rfl
  | some value =>
    dsimp only
    by_cases hheld : heldBy lease.ownerRuntimeId.toHex lease.generation.repr value = true
    · rw [if_pos hheld]
      exact .inr ⟨value, rfl, hheld, rfl⟩
    · rw [if_neg hheld]
      exact .inl rfl

/-! ### The invariant is kept -/

/-- What a change to other keys leaves alone. -/
theorem fencedSession_congr (h : FencedSession s communityId sessionId)
    (hlease : s'.redis.get (leaseKey communityId sessionId) =
      s.redis.get (leaseKey communityId sessionId))
    (hcounter : s'.redis.get (generationKey communityId sessionId) =
      s.redis.get (generationKey communityId sessionId))
    (hacquired : acquiredOf s' communityId sessionId = acquiredOf s communityId sessionId) :
    FencedSession s' communityId sessionId := by
  have hcount : counterOf s'.redis communityId sessionId =
      counterOf s.redis communityId sessionId := by
    rw [counterOf, counterOf, hcounter]
  refine ⟨?_, ?_, ?_, ?_, ?_⟩
  · rw [hcounter, hcount]
    exact h.counter
  · rw [hcount]
    exact h.bounded
  · rw [hlease, hcount]
    exact h.lease
  · rw [hacquired, hcount]
    exact h.below
  · rw [hacquired]
    exact h.increasing

/-- A lease that goes leaves the session fenced. -/
theorem fencedSession_del (h : FencedSession s communityId sessionId) (communityId' : CommunityId)
    (sessionId' : Uuid) :
    FencedSession { s with redis := s.redis.del (leaseKey communityId' sessionId') } communityId
      sessionId := by
  have hcounter : (s.redis.del (leaseKey communityId' sessionId')).get
      (generationKey communityId sessionId) =
      s.redis.get (generationKey communityId sessionId) := by
    rw [Redis.get_del, if_neg leaseKey_ne_generationKey.symm]
  have hcount : counterOf (s.redis.del (leaseKey communityId' sessionId')) communityId sessionId =
      counterOf s.redis communityId sessionId := by
    rw [counterOf, counterOf, hcounter]
  refine ⟨?_, ?_, ?_, ?_, h.increasing⟩
  · dsimp only
    rw [hcounter, hcount]
    exact h.counter
  · dsimp only
    rw [hcount]
    exact h.bounded
  · intro value hvalue
    dsimp only at hvalue ⊢
    rw [Redis.get_del] at hvalue
    rw [hcount]
    split at hvalue
    · cases hvalue
    · exact h.lease value hvalue
  · dsimp only
    rw [hcount]
    exact h.below

/-- The next generation is above every lease that was handed out. -/
theorem fencedSession_acquire (h : FencedSession s communityId sessionId) (d : SessionDirectory)
    (now : Int) (owner : RuntimeId) (profile : Profile) :
    FencedSession ⟨(d.acquire s.redis now communityId sessionId owner profile).1,
      s.acquired ++ handedOut
        (d.acquire s.redis now communityId sessionId owner profile).2⟩ communityId sessionId := by
  rcases @acquire_cases d s.redis now communityId sessionId owner profile with
    ⟨hsame, hnone⟩ | ⟨_, r₁, generation, deadline, hincr, hredis, hhanded⟩
  · rw [hsame, hnone, List.append_nil]
    exact h
  · obtain ⟨hgen, hlt, hget⟩ := Redis.incr_counter h.counter hincr
    have hcounter : (r₁.setPx (leaseKey communityId sessionId)
        (leaseValue owner generation profile) deadline).get
        (generationKey communityId sessionId) = some generation.repr := by
      rw [Redis.get_setPx, if_neg leaseKey_ne_generationKey.symm, hget]
    have hcount : counterOf
        (r₁.setPx (leaseKey communityId sessionId) (leaseValue owner generation profile) deadline)
        communityId sessionId = generation := by
      rw [counterOf, hcounter, Option.bind_some, Redis.integer_repr hlt, Option.getD_some]
    rw [hredis]
    refine ⟨?_, ?_, ?_, ?_, ?_⟩
    · dsimp only
      rw [hcounter, hcount, if_neg (by omega)]
    · dsimp only
      rw [hcount]
      exact hlt
    · intro value hvalue
      dsimp only at hvalue ⊢
      rw [Redis.get_setPx, if_pos rfl] at hvalue
      rw [hcount, ← Option.some.inj hvalue]
      exact ⟨by omega, owner, profile, rfl⟩
    · intro lease hlease
      dsimp only
      rw [hcount]
      rw [acquiredOf, List.filter_append, List.mem_append] at hlease
      rcases hlease with hold | hnew
      · have hbelow := h.below lease hold
        omega
      · rw [parseLease_ok (by omega) (hhanded lease (List.mem_filter.mp hnew).1).2]
    · rw [acquiredOf, List.filter_append, List.pairwise_append]
      refine ⟨h.increasing, ?_, ?_⟩
      · refine List.Pairwise.filter _ ?_
        cases hlist : handedOut (d.acquire s.redis now communityId sessionId owner profile).2 with
        | nil => exact List.Pairwise.nil
        | cons lease rest =>
          rw [← hlist, (hhanded lease (by rw [hlist]; exact List.mem_cons_self)).1]
          exact List.pairwise_singleton _ _
      · intro a ha b hb
        have hbelow := h.below a ha
        rw [parseLease_ok (by omega) (hhanded b (List.mem_filter.mp hb).1).2]
        dsimp only
        omega

/-! ### Other sessions -/

/-- A lease is read for the session it is asked for. -/
theorem parseLease_session {value : String}
    (h : parseLease communityId sessionId value = .ok lease) :
    lease.communityId = communityId ∧ lease.sessionId = sessionId := by
  rw [parseLease] at h
  split at h
  · split at h
    · cases h
    · split at h
      · cases h
      · split at h
        · cases h
        · split at h
          · cases h
          · split at h
            · cases h
            · split at h
              · cases h
              · cases h
                exact ⟨rfl, rfl⟩
  · cases h

/-- Nothing of the session is different. -/
structure Untouched (s s' : Sessions) (communityId : CommunityId) (sessionId : Uuid) : Prop where
  lease : Finmap.lookup (leaseKey communityId sessionId) s'.redis =
    Finmap.lookup (leaseKey communityId sessionId) s.redis
  counter : Finmap.lookup (generationKey communityId sessionId) s'.redis =
    Finmap.lookup (generationKey communityId sessionId) s.redis
  acquired : acquiredOf s' communityId sessionId = acquiredOf s communityId sessionId

theorem untouched_refl : Untouched s s communityId sessionId := ⟨rfl, rfl, rfl⟩

theorem untouched_del (hne : (communityId, sessionId) ≠ (communityId', sessionId')) :
    Untouched s { s with redis := s.redis.del (leaseKey communityId' sessionId') } communityId
      sessionId := by
  refine ⟨?_, ?_, rfl⟩
  · dsimp only
    rw [Redis.lookup_del, if_neg]
    intro heq
    obtain ⟨rfl, rfl⟩ := leaseKey_inj.mp heq
    exact hne rfl
  · dsimp only
    rw [Redis.lookup_del, if_neg leaseKey_ne_generationKey.symm]

/-- **A call does not touch another session.** -/
theorem untouched_step {c : Call} (hstep : (sessions d).step s c = some s')
    (hne : (communityId, sessionId) ≠ c.session) : Untouched s s' communityId sessionId := by
  cases c with
  | acquire now communityId' sessionId' owner profile =>
    rw [step_acquire hstep]
    have hkey : leaseKey communityId sessionId ≠ leaseKey communityId' sessionId' := by
      intro heq
      obtain ⟨rfl, rfl⟩ := leaseKey_inj.mp heq
      exact hne rfl
    have hcounter : generationKey communityId sessionId ≠
        generationKey communityId' sessionId' := by
      intro heq
      obtain ⟨rfl, rfl⟩ := generationKey_inj.mp heq
      exact hne rfl
    rcases @acquire_cases d s.redis now communityId' sessionId' owner profile with
      ⟨hsame, hnone⟩ | ⟨_, r₁, generation, deadline, hincr, hredis, hhanded⟩
    · rw [hsame, hnone, List.append_nil]
      exact untouched_refl
    · rw [hredis]
      refine ⟨?_, ?_, ?_⟩
      · rw [Redis.lookup_setPx, if_neg hkey,
          Redis.lookup_incr_of_ne hincr leaseKey_ne_generationKey]
      · rw [Redis.lookup_setPx, if_neg leaseKey_ne_generationKey.symm,
          Redis.lookup_incr_of_ne hincr hcounter]
      · rw [acquiredOf, acquiredOf, List.filter_append, List.append_right_eq_self,
          List.filter_eq_nil_iff]
        intro lease hlease hmine
        obtain ⟨hcommunity, hsession⟩ := parseLease_session (hhanded lease hlease).2
        rw [hcommunity, hsession, decide_eq_true_eq] at hmine
        exact hne (Prod.ext hmine.1.symm hmine.2.symm)
  | renew now lease =>
    cases hstep
    rcases @renew_cases d s.redis now lease with hsame | ⟨value, deadline, _, _, hredis⟩
    · rw [hsame]
      exact untouched_refl
    rw [hredis]
    refine ⟨?_, ?_, rfl⟩
    · refine Redis.lookup_pexpire_of_ne ?_
      intro heq
      obtain ⟨rfl, rfl⟩ := leaseKey_inj.mp heq
      exact hne rfl
    · exact Redis.lookup_pexpire_of_ne leaseKey_ne_generationKey.symm
  | release lease =>
    cases hstep
    rcases @release_cases s.redis lease with hsame | ⟨value, _, _, hredis⟩
    · rw [hsame]
      exact untouched_refl
    · rw [hredis]
      exact untouched_del hne
  | expire communityId' sessionId' =>
    cases hstep
    exact untouched_del hne

/-- **Every call keeps every session fenced.** -/
theorem fenced_step {c : Call} (h : Fenced s) (hstep : (sessions d).step s c = some s') :
    Fenced s' := by
  intro communityId sessionId
  by_cases hne : (communityId, sessionId) ≠ c.session
  · obtain ⟨hlease, hcounter, hacquired⟩ := untouched_step hstep hne
    exact fencedSession_congr (h communityId sessionId) (congrArg _ hlease)
      (congrArg _ hcounter) hacquired
  have heq := not_not.mp hne
  have hfenced := h communityId sessionId
  cases c with
  | acquire now communityId' sessionId' owner profile =>
    cases heq
    rw [step_acquire hstep]
    exact fencedSession_acquire hfenced d now owner profile
  | renew now lease =>
    cases hstep
    rcases @renew_cases d s.redis now lease with hsame | ⟨value, deadline, _, _, hredis⟩
    · rw [hsame]
      exact hfenced
    · rw [hredis]
      exact fencedSession_congr hfenced Redis.get_pexpire Redis.get_pexpire rfl
  | release lease =>
    cases hstep
    rcases @release_cases s.redis lease with hsame | ⟨value, _, _, hredis⟩
    · rw [hsame]
      exact hfenced
    · rw [hredis]
      exact fencedSession_del hfenced _ _
  | expire communityId' sessionId' =>
    cases hstep
    exact fencedSession_del hfenced _ _

theorem fenced_run {calls : List Call} (hrun : (sessions d).run .start calls = some s) : Fenced s :=
  Machine.invariant (fun _ _ _ hs _ hstep =>
    fenced_step hs hstep) fenced_start Machine.always_true hrun

/-! ## What the fence gives -/

variable {fenced : FencedHeader}

/-- A header that passes is the one of the stored lease. -/
theorem validateFencedHeader_ok (h : validateFencedHeader r communityId fenced = .ok ()) :
    ∃ value lease, r.get (leaseKey communityId fenced.sessionId) = some value ∧
      parseLease communityId fenced.sessionId value = .ok lease ∧ fenced = lease.fencedHeader := by
  rw [validateFencedHeader] at h
  dsimp only [validateScript] at h
  split at h
  · cases h
  split at h
  · cases h
  rename_i current hcurrent
  split at h
  · cases h
  split at h
  · cases h
  rename_i lease _
  split at h
  · cases h
  rename_i hgen
  split at h
  · cases h
  rename_i howner
  rw [parseOptionalLease] at hcurrent
  split at hcurrent
  · cases hcurrent
  rename_i hvalue
  cases hlease : r.get (leaseKey communityId fenced.sessionId) with
  | none =>
    rw [hlease] at hvalue
    exact absurd rfl hvalue
  | some value =>
    rw [hlease, Option.getD_some] at hcurrent
    cases hparse : parseLease communityId fenced.sessionId value with
    | error e =>
      rw [hparse] at hcurrent
      cases hcurrent
    | ok lease' =>
      rw [hparse] at hcurrent
      cases Option.some.inj (Except.ok.inj hcurrent)
      refine ⟨value, lease, rfl, hparse, ?_⟩
      have hsession := (parseLease_session hparse).2
      cases fenced
      rw [SessionLease.fencedHeader, hsession]
      simp only [not_not] at hgen howner
      rw [hgen, howner]

/-- A header that passes has the counter's generation. -/
theorem generation_of_validate (h : Fenced s)
    (hok : validateFencedHeader s.redis communityId fenced = .ok ()) :
    fenced.generation = counterOf s.redis communityId fenced.sessionId := by
  obtain ⟨value, lease, hvalue, hparse, heq⟩ := validateFencedHeader_ok hok
  obtain ⟨hpos, owner, profile, rfl⟩ := (h communityId fenced.sessionId).lease value hvalue
  rw [parseLease_ok hpos hparse] at heq
  exact congrArg FencedHeader.generation heq

theorem validate_unique {fenced' : FencedHeader}
    (hok : validateFencedHeader r communityId fenced = .ok ())
    (hok' : validateFencedHeader r communityId fenced' = .ok ())
    (hsession : fenced.sessionId = fenced'.sessionId) : fenced = fenced' := by
  obtain ⟨value, lease, hvalue, hparse, rfl⟩ := validateFencedHeader_ok hok
  obtain ⟨value', lease', hvalue', hparse', heq⟩ := validateFencedHeader_ok hok'
  rw [hsession] at hvalue hparse
  rw [hvalue] at hvalue'
  cases Option.some.inj hvalue'
  rw [hparse] at hparse'
  rw [heq, Except.ok.inj hparse']

theorem le_counter (h : Fenced s) (hmem : lease ∈ s.acquired) :
    lease.generation ≤ counterOf s.redis lease.communityId lease.sessionId :=
  (h lease.communityId lease.sessionId).below lease (List.mem_filter.mpr ⟨hmem, by simp⟩)

theorem acquired_step {c : Call} (hstep : (sessions d).step s c = some s')
    (hmem : lease ∈ s.acquired) : lease ∈ s'.acquired := by
  cases c with
  | acquire now communityId sessionId owner profile =>
    rw [step_acquire hstep]
    exact List.mem_append_left _ hmem
  | renew now other | release other | expire communityId sessionId =>
    cases hstep
    exact hmem

theorem acquired_run {calls : List Call} (h : Fenced s) (hmem : lease ∈ s.acquired)
    (hrun : (sessions d).run s calls = some s') : Fenced s' ∧ lease ∈ s'.acquired := by
  refine Machine.invariant (I := fun u => Fenced u ∧ lease ∈ u.acquired) ?_ ⟨h,
    hmem⟩ Machine.always_true hrun
  intro u c u' hu _ hstep
  exact ⟨fenced_step hu.1 hstep, acquired_step hstep hu.2⟩

/-- Whoever holds the stored lease knows the counter. -/
theorem generation_of_held {value : String} (h : Fenced s)
    (hvalue : s.redis.get (leaseKey lease.communityId lease.sessionId) = some value)
    (hheld : heldBy lease.ownerRuntimeId.toHex lease.generation.repr value = true) :
    lease.generation = counterOf s.redis lease.communityId lease.sessionId := by
  obtain ⟨_, owner, profile, rfl⟩ := (h lease.communityId lease.sessionId).lease value hvalue
  exact generation_of_heldBy hheld

/-- A holder of an older lease changes nothing. -/
theorem older_changes_nothing {older newer : SessionLease} (h : Fenced s)
    (hmem : newer ∈ s.acquired) (hcommunity : older.communityId = newer.communityId)
    (hsession : older.sessionId = newer.sessionId)
    (holder : older.generation < newer.generation) (now : Int) :
    (d.renew s.redis now older).1 = s.redis ∧ (release s.redis older).1 = s.redis := by
  have hcounter := le_counter h hmem
  rw [← hcommunity, ← hsession] at hcounter
  refine ⟨?_, ?_⟩
  · rcases @renew_cases d s.redis now older with hsame | ⟨value, _, hvalue, hheld, _⟩
    · exact hsame
    · have hgen := generation_of_held h hvalue hheld
      omega
  · rcases @release_cases s.redis older with hsame | ⟨value, hvalue, hheld, _⟩
    · exact hsame
    · have hgen := generation_of_held h hvalue hheld
      omega

/-- **A session has one owner, under a fence.** In every run the generations of a session's leases
rise in the order of time; at most one header of a session passes; no header that is older than a
lease that was handed out ever passes again; a holder of an older lease changes nothing by a renewal
or a release; and no call touches another session. -/
theorem sessions_fenced {calls : List Call} (hrun : (sessions d).run .start calls = some s) :
    (∀ communityId sessionId, (acquiredOf s communityId sessionId).Pairwise fun a b =>
      a.generation < b.generation) ∧
    (∀ communityId fenced fenced', fenced.sessionId = fenced'.sessionId →
      validateFencedHeader s.redis communityId fenced = .ok () →
        validateFencedHeader s.redis communityId fenced' = .ok () → fenced = fenced') ∧
    (∀ lease ∈ s.acquired, ∀ more s', (sessions d).run s more = some s' → ∀ fenced,
      fenced.sessionId = lease.sessionId →
      fenced.generation < lease.generation →
        validateFencedHeader s'.redis lease.communityId fenced ≠ .ok ()) ∧
    (∀ newer ∈ s.acquired, ∀ older : SessionLease, older.communityId = newer.communityId →
      older.sessionId = newer.sessionId →
      older.generation < newer.generation → ∀ now, (d.renew s.redis now older).1 = s.redis ∧
        (release s.redis older).1 = s.redis) ∧
    ∀ c s', (sessions d).step s c = some s' →
      ∀ communityId sessionId, (communityId, sessionId) ≠ c.session →
      Untouched s s' communityId sessionId := by
  have h := fenced_run hrun
  refine ⟨?_, ?_, ?_, ?_, ?_⟩
  · intro communityId sessionId
    exact (h communityId sessionId).increasing
  · intro communityId fenced fenced' hsession hok hok'
    exact validate_unique hok hok' hsession
  · intro lease hlease more s' hmore fenced hsession holder hok
    obtain ⟨h', hlease'⟩ := acquired_run h hlease hmore
    have hgen := generation_of_validate h' hok
    have hle := le_counter h' hlease'
    rw [hsession] at hgen
    omega
  · intro newer hnewer older hcommunity hsession holder now
    exact older_changes_nothing h hnewer hcommunity hsession holder now
  · intro c s' hstep communityId sessionId hne
    exact untouched_step hstep hne

/-- One runtime's lease expires, and another runtime takes the session over. -/
def takenOver : List Call :=
  let community : CommunityId := ⟨FixedBytes.ofNat 16 1⟩
  let session : Uuid := FixedBytes.ofNat 16 2
  [ .acquire 0 community session (FixedBytes.ofNat 32 3) .huddleControl,
    .expire community session,
    .acquire 50000 community session (FixedBytes.ofNat 32 4) .huddleControl ]

/-- The lease that ran out can no longer be renewed or released. -/
theorem sessions_fenced_takenOver : ∃ s, (sessions ⟨30000⟩).run .start takenOver = some s ∧
    s.acquired.map SessionLease.generation = [1, 2] ∧
    ∀ newer ∈ s.acquired, ∀ older : SessionLease, older.communityId = newer.communityId →
      older.sessionId = newer.sessionId → older.generation < newer.generation → ∀ now,
        (renew ⟨30000⟩ s.redis now older).1 = s.redis ∧ (release s.redis older).1 = s.redis := by
  have hrun : ((sessions ⟨30000⟩).run .start takenOver).map (fun s =>
    s.acquired.map SessionLease.generation) =
      some [1, 2] := by decide
  obtain ⟨s, hs, hend⟩ := Option.map_eq_some_iff.mp hrun
  exact ⟨s, hs, hend, (sessions_fenced hs).2.2.2.1⟩

end Pkzz.Tunnel
