import Pkzz.Acp.Participation

/-!
# The chain cap

The guard counts the turns of a thread under the id that the reply was recognised by. Two replies of
one thread may be recognised by two ids, so that the thread has two counters. Where a thread keeps
to one counter, and nothing takes that counter away, the cap holds of it. The cooldown holds of
every channel.
-/

namespace Pkzz.Acp

open Pkzz.Core Pkzz.Lib

/-- What the turns of the thread were counted under since its last reset, newest first. -/
def sinceReset (T : Thread) : List Engagement → List String
  | [] => []
  | .admitted _ thread key _ :: log => if thread = some T then
      key :: sinceReset T log else sinceReset T log
  | .reset thread :: log => if thread = some T then [] else sinceReset T log

/-- When the turns of the channel were admitted, newest first. -/
def admittedAt (c : Uuid) : List Engagement → List Instant
  | [] => []
  | .admitted channelId _ _ now :: log => if channelId = c then
      now :: admittedAt c log else admittedAt c log
  | .reset _ :: log => admittedAt c log

/-- The thread keeps its counter. A reply of it is recognised by the id that its turns were counted
under before, no reset of another thread takes the counter away, and the map of counters is not
cleared. -/
def KeepsChain (T : Thread) (s : EngagementLoop) : Inbound → Prop
  | .own _ _ => True
  | .human channelId event =>
      ∀ rootHex, s.participation.threadEngagementRoot channelId event = some rootHex →
      threadOf channelId event ≠ some T →
        EngagementGuard.chainKey channelId rootHex ∉ sinceReset T s.log
  | .reply channelId event _ =>
      ∀ rootHex, s.participation.threadEngagementRoot channelId event = some rootHex →
      (threadOf channelId event = some T → ∀ key ∈ sinceReset T s.log,
        key = EngagementGuard.chainKey channelId rootHex) ∧
      (sinceReset T s.log ≠ [] →
        s.guard.chains.keys.card < CHAIN_MAP_LIMIT ∨ EngagementGuard.chainKey channelId rootHex ∈
          s.guard.chains)

instance KeepsChain.decidable (T : Thread) (s : EngagementLoop) : ∀ a :
    Inbound, Decidable (KeepsChain T s a)
  | .own _ _ => isTrue trivial
  | .human channelId event =>
      inferInstanceAs (Decidable (∀ rootHex ∈ s.participation.threadEngagementRoot channelId event,
      threadOf channelId event ≠ some T →
        EngagementGuard.chainKey channelId rootHex ∉ sinceReset T s.log))
  | .reply channelId event _ =>
      inferInstanceAs (Decidable (∀ rootHex ∈ s.participation.threadEngagementRoot channelId event,
      (threadOf channelId event = some T → ∀ key ∈ sinceReset T s.log,
        key = EngagementGuard.chainKey channelId rootHex) ∧
      (sinceReset T s.log ≠ [] →
        s.guard.chains.keys.card < CHAIN_MAP_LIMIT ∨ EngagementGuard.chainKey channelId rootHex ∈
          s.guard.chains)))

/-- Two turns are at least the cooldown apart. -/
def Apart (cooldown : Duration) (a b : Instant) : Prop := a + cooldown ≤ b ∨ b + cooldown ≤ a

/-! ## One event -/

namespace EngagementGuard

variable {guard guard' : EngagementGuard} {c : Uuid} {rootHex : String} {now : Instant}
    {depth : Nat}

/-- What an admitted turn means. -/
theorem admitThreadTurn_ok (h : guard.admitThreadTurn c rootHex now = .ok (guard', depth)) :
    (Finmap.lookup (chainKey c rootHex) guard.chains).getD 0 < guard.maxAgentChain ∧
    guard.cooling c now = false ∧
      ∃ chains, (chains = guard.chains ∨
          (chains = ∅ ∧ CHAIN_MAP_LIMIT ≤ guard.chains.keys.card ∧
            chainKey c rootHex ∉ guard.chains)) ∧
        guard' = { guard with
          chains := Finmap.insert (chainKey c rootHex)
            ((Finmap.lookup (chainKey c rootHex) guard.chains).getD 0 + 1) chains
          lastEngaged := Finmap.insert c now guard.lastEngaged } := by
  unfold admitThreadTurn at h
  dsimp only at h
  split at h
  · cases h
  rename_i hcap
  split at h
  · cases h
  rename_i hcool
  refine ⟨Nat.lt_of_not_le hcap, Bool.eq_false_iff.mpr hcool, _, ?_,
    (congrArg Prod.fst (Except.ok.inj h)).symm⟩
  split
  · rename_i hfull
    exact .inr ⟨rfl, hfull⟩
  · exact .inl rfl

end EngagementGuard

/-- The events that change something, and how. -/
theorem EngagementLoop.step_cases {s s' : EngagementLoop} {a : Inbound}
    (h : engagementLoop.step s a = some s') : (s'.guard = s.guard ∧ s'.log = s.log) ∨
    (∃ c event rootHex, a = .human c event ∧ s.participation.threadEngagementRoot c event =
      some rootHex ∧
      s'.guard = s.guard.resetChain c rootHex ∧ s'.log = .reset (threadOf c event) :: s.log) ∨
    (∃ c event now rootHex depth, a = .reply c event now ∧
      s.participation.threadEngagementRoot c event = some rootHex ∧
      s.guard.admitThreadTurn c rootHex now = .ok (s'.guard, depth) ∧
      s'.log = .admitted c (threadOf c event)
        (EngagementGuard.chainKey c rootHex) now :: s.log) := by
  cases a with
  | own c event =>
    cases h
    exact .inl ⟨rfl, rfl⟩
  | human c event =>
    simp only [engagementLoop] at h
    split at h
    · cases h
      exact .inl ⟨rfl, rfl⟩
    · rename_i rootHex hroot
      cases h
      exact .inr (.inl ⟨c, event, rootHex, rfl, hroot, rfl, rfl⟩)
  | reply c event now =>
    simp only [engagementLoop] at h
    split at h
    · cases h
      exact .inl ⟨rfl, rfl⟩
    rename_i rootHex hroot
    split at h
    · cases h
      exact .inl ⟨rfl, rfl⟩
    · rename_i guard depth hadm
      cases h
      exact .inr (.inr ⟨c, event, now, rootHex, depth, rfl, hroot, hadm, rfl⟩)

/-! ## The counter of a thread -/

/-- The guard's limits are what they were, no counter is over the cap, and the counter of the thread
has every turn since the last reset. -/
structure Counted (max : Nat) (cooldown : Duration) (T : Thread) (s : EngagementLoop) : Prop where
  cap : s.guard.maxAgentChain = max
  pause : s.guard.cooldown = cooldown
  capped : ∀ (key : String) (v : Nat), Finmap.lookup key s.guard.chains = some v → v ≤ max
  counted : ∀ key ∈ sinceReset T s.log, (∀ other ∈ sinceReset T s.log, other = key) ∧
    ∃ v, Finmap.lookup key s.guard.chains = some v ∧ (sinceReset T s.log).length ≤ v

variable {max : Nat} {cooldown : Duration} {T : Thread} {s s' : EngagementLoop} {a : Inbound}

theorem counted_init : Counted max cooldown T (EngagementLoop.init max cooldown) := by
  refine ⟨rfl, rfl, ?_, ?_⟩
  · intro key v h
    rw [EngagementLoop.init, EngagementGuard.new, Finmap.lookup_empty] at h
    cases h
  · intro key h
    cases h

/-- A reset of the thread leaves it no turns to count. One of another thread leaves the counter
where it is. -/
theorem counted_reset {c : Uuid} {event : Event} {rootHex : String} (hs : Counted max cooldown T s)
    (hkeep : threadOf c event ≠ some T → EngagementGuard.chainKey c rootHex ∉ sinceReset T s.log)
    (hguard : s'.guard = s.guard.resetChain c rootHex)
    (hlog : s'.log = .reset (threadOf c event) :: s.log) : Counted max cooldown T s' := by
  refine ⟨?_, ?_, ?_, ?_⟩
  · rw [hguard]
    exact hs.cap
  · rw [hguard]
    exact hs.pause
  · intro key v hv
    rw [hguard, EngagementGuard.resetChain, Map.lookup_erase_eq] at hv
    split at hv
    · cases hv
    · exact hs.capped key v hv
  · rw [hlog, sinceReset]
    split
    · intro key h
      cases h
    rename_i hother
    intro key hkey
    obtain ⟨hsame, v, hv, hle⟩ := hs.counted key hkey
    refine ⟨hsame, v, ?_, hle⟩
    rw [hguard, EngagementGuard.resetChain, Map.lookup_erase_eq, if_neg, hv]
    intro heq
    exact hkeep hother (heq ▸ hkey)

/-- An admitted turn of the thread is one more under its counter. One of another thread takes
nothing from it. -/
theorem counted_admit {c : Uuid} {event : Event} {rootHex : String} {now : Instant} {depth : Nat}
    (hs : Counted max cooldown T s)
    (hsame : threadOf c event = some T → ∀ key ∈ sinceReset T s.log,
      key = EngagementGuard.chainKey c rootHex)
    (hroom : sinceReset T s.log ≠ [] →
      s.guard.chains.keys.card < CHAIN_MAP_LIMIT ∨
        EngagementGuard.chainKey c rootHex ∈ s.guard.chains)
    (hadm : s.guard.admitThreadTurn c rootHex now = .ok (s'.guard, depth))
    (hlog : s'.log = .admitted c (threadOf c event)
      (EngagementGuard.chainKey c rootHex) now :: s.log) :
    Counted max cooldown T s' := by
  obtain ⟨hcap, _, chains, hchains, hguard⟩ := EngagementGuard.admitThreadTurn_ok hadm
  rw [hs.cap] at hcap
  -- the chains are those of before, or none where the full map was cleared
  have hsub : ∀ (key : String) (v : Nat), Finmap.lookup key chains = some v →
      Finmap.lookup key s.guard.chains = some v := by
    intro key v hv
    rcases hchains with h | ⟨h, -⟩
    · rw [← h, hv]
    · rw [h, Finmap.lookup_empty] at hv
      cases hv
  refine ⟨?_, ?_, ?_, ?_⟩
  · rw [hguard]
    exact hs.cap
  · rw [hguard]
    exact hs.pause
  · intro key v hv
    rw [hguard, Map.lookup_insert_eq] at hv
    split at hv
    · have := Option.some.inj hv
      omega
    · exact hs.capped key v (hsub key v hv)
  · -- where the thread has turns already the map was not cleared
    have hkept : sinceReset T s.log ≠ [] → chains = s.guard.chains := by
      intro hne
      rcases hchains with h | ⟨_, hfull, hnew⟩
      · exact h
      · rcases hroom hne with hlt | hmem
        · omega
        · exact absurd hmem hnew
    rw [hlog, sinceReset]
    split
    · rename_i hthis
      -- the turn is the thread's: its key is the one that counts
      have hall := hsame hthis
      intro key hkey
      have heq : ∀ other ∈ EngagementGuard.chainKey c rootHex :: sinceReset T s.log,
          other = EngagementGuard.chainKey c rootHex := by
        intro other hother
        rcases List.mem_cons.mp hother with h | h
        · exact h
        · exact hall other h
      refine ⟨fun other hother => (heq other hother).trans (heq key hkey).symm,
        (Finmap.lookup (EngagementGuard.chainKey c rootHex) s.guard.chains).getD 0 + 1, ?_, ?_⟩
      · rw [hguard, heq key hkey, Finmap.lookup_insert]
      · rw [List.length_cons]
        apply Nat.succ_le_succ
        cases hturns : sinceReset T s.log with
        | nil => exact Nat.zero_le _
        | cons first rest =>
          have hfirst : first ∈ sinceReset T s.log := by rw [hturns]; exact List.mem_cons_self
          obtain ⟨_, v, hv, hle⟩ := hs.counted first hfirst
          rw [hall first hfirst] at hv
          rw [hv, ← hturns]
          exact hle
    · intro key hkey
      obtain ⟨hall, v, hv, hle⟩ := hs.counted key hkey
      have hne : sinceReset T s.log ≠ [] := List.ne_nil_of_mem hkey
      refine ⟨hall, ?_⟩
      rw [hguard]
      dsimp only
      rw [Map.lookup_insert_eq, hkept hne]
      split
      · rename_i heq
        refine ⟨_, rfl, ?_⟩
        rw [← heq, hv]
        exact Nat.le_succ_of_le hle
      · exact ⟨v, hv, hle⟩

theorem counted_step (hs : Counted max cooldown T s) (hkeep : KeepsChain T s a)
    (h : engagementLoop.step s a = some s') : Counted max cooldown T s' := by
  rcases EngagementLoop.step_cases h with ⟨hguard, hlog⟩ |
    ⟨c, event, rootHex, rfl, hroot, hguard, hlog⟩
    | ⟨c, event, now, rootHex, depth, rfl, hroot, hadm, hlog⟩
  · refine ⟨?_, ?_, ?_, ?_⟩
    · rw [hguard]
      exact hs.cap
    · rw [hguard]
      exact hs.pause
    · rw [hguard]
      exact hs.capped
    · rw [hguard, hlog]
      exact hs.counted
  · exact counted_reset hs (hkeep rootHex hroot) hguard hlog
  · obtain ⟨hsame, hroom⟩ := hkeep rootHex hroot
    exact counted_admit hs hsame hroom hadm hlog

/-! ## The pause of a channel -/

/-- The newest turn of the channel is the one the guard remembers, and a pause that is not zero puts
the turns in order. -/
structure Paced (cooldown : Duration) (c : Uuid) (s : EngagementLoop) : Prop where
  pause : s.guard.cooldown = cooldown
  newest : Finmap.lookup c s.guard.lastEngaged = (admittedAt c s.log).head?
  paced : 0 < cooldown → (admittedAt c s.log).Pairwise fun later earlier =>
    earlier + cooldown ≤ later

variable {c : Uuid}

theorem paced_init : Paced cooldown c (EngagementLoop.init max cooldown) :=
  ⟨rfl, rfl, fun _ => List.Pairwise.nil⟩

/-- An instant before the last one is no time after it, which no pause that is not zero allows. -/
theorem pause_over {last now pause : Nat} (hpos : 0 < pause) (h : ¬ now - last < pause) :
    last + pause ≤ now := by
  omega

theorem paced_step (hs : Paced cooldown c s) (h : engagementLoop.step s a = some s') :
    Paced cooldown c s' := by
  rcases EngagementLoop.step_cases h with ⟨hguard, hlog⟩ |
    ⟨d, event, rootHex, rfl, hroot, hguard, hlog⟩
    | ⟨d, event, now, rootHex, depth, rfl, hroot, hadm, hlog⟩
  · refine ⟨?_, ?_, ?_⟩
    · rw [hguard]
      exact hs.pause
    · rw [hguard, hlog]
      exact hs.newest
    · rw [hlog]
      exact hs.paced
  · refine ⟨?_, ?_, ?_⟩
    · rw [hguard]
      exact hs.pause
    · rw [hguard, hlog]
      exact hs.newest
    · rw [hlog]
      exact hs.paced
  · obtain ⟨_, hcool, chains, _, hguard⟩ := EngagementGuard.admitThreadTurn_ok hadm
    refine ⟨?_, ?_, ?_⟩
    · rw [hguard]
      exact hs.pause
    · rw [hguard, hlog, admittedAt]
      dsimp only
      rw [Map.lookup_insert_eq]
      by_cases hd : d = c
      · rw [if_pos hd, if_pos hd.symm, List.head?_cons]
      · rw [if_neg hd, if_neg (Ne.symm hd)]
        exact hs.newest
    · intro hpos
      have hold := hs.paced hpos
      rw [hlog, admittedAt]
      split
      · rename_i hd
        cases hturns : admittedAt c s.log with
        | nil => exact List.pairwise_singleton _ _
        | cons last rest =>
          rw [hturns] at hold
          -- the channel is past its pause, so the new turn is after the newest one
          have hlast : last + cooldown ≤ now := by
            rw [EngagementGuard.cooling, hd, hs.newest, hturns, List.head?_cons, Option.any_some,
              decide_eq_false_iff_not, hs.pause] at hcool
            exact pause_over hpos hcool
          refine List.pairwise_cons.mpr ⟨?_, hold⟩
          intro earlier hmem
          rcases List.mem_cons.mp hmem with rfl | hrest
          · exact hlast
          · have hearlier := (List.pairwise_cons.mp hold).1 earlier hrest
            exact (hearlier.trans (Nat.le_add_right last cooldown)).trans hlast
      · exact hold

/-! ## Whole runs -/

/-- **The cooldown holds of every channel in every run.** -/
theorem cooldown_kept {as : List Inbound}
    (hrun : engagementLoop.run (EngagementLoop.init max cooldown) as = some s) (c : Uuid) :
    (admittedAt c s.log).Pairwise (Apart cooldown) := by
  have hpaced : Paced cooldown c s :=
    Machine.invariant (fun _ _ _ hs _ h => paced_step hs h) paced_init Machine.always_true hrun
  rcases Nat.eq_zero_or_pos cooldown with hzero | hpos
  · subst hzero
    exact List.pairwise_of_forall fun a b => Nat.le_total a b
  · exact (hpaced.paced hpos).imp fun h => .inr h

/-- **Where a thread keeps its counter, the cap holds of it; the cooldown holds of every channel.**
-/
theorem chain_capped {as : List Inbound}
    (hrun : engagementLoop.run (EngagementLoop.init max cooldown) as = some s)
    (hkeep : engagementLoop.Always (KeepsChain T) (EngagementLoop.init max cooldown) as) :
    (sinceReset T s.log).length ≤ max ∧ ∀ c :
    Uuid, (admittedAt c s.log).Pairwise (Apart cooldown) := by
  have hcounted : Counted max cooldown T s :=
    Machine.invariant (fun _ _ _ hs hk h => counted_step hs hk h) counted_init hkeep hrun
  refine ⟨?_, cooldown_kept hrun⟩
  cases hturns : sinceReset T s.log with
  | nil => exact Nat.zero_le _
  | cons first rest =>
    have hfirst : first ∈ sinceReset T s.log := by rw [hturns]; exact List.mem_cons_self
    obtain ⟨_, v, hv, hle⟩ := hcounted.counted first hfirst
    rw [← hturns]
    exact hle.trans (hcounted.capped first v hv)

/-! ## One thread, two counters -/

def theRoom : Uuid := ⟨List.replicate 16 0, rfl⟩
def theRootId : EventId := ⟨List.replicate 32 0, rfl⟩
def thePeer : PublicKey := ⟨List.replicate 32 3, rfl⟩
def theAgent : PublicKey := ⟨List.replicate 32 4, rfl⟩

/-- The event id with the byte everywhere. -/
def eventIdOf (byte : UInt8) : EventId := ⟨List.replicate 32 byte, rfl⟩

def eTag (id : EventId) (marker : String) : Tag :=
  ⟨["e", id.toHex, "", marker], List.cons_ne_nil _ _⟩

/-- The agent speaks in the thread. -/
def agentAnswer (id : EventId) : Event := ⟨id, theAgent, 0, 9, [eTag theRootId "root"]⟩

/-- The peer replies to what was said in the thread, and names that before the root. -/
def peerReply (id parent : EventId) : Event :=
  ⟨id, thePeer, 0, 9, [eTag parent "reply", eTag theRootId "root"]⟩

def theThread : Thread := (theRoom, theRootId.toHex)

/-- The agent answers, the peer replies to the answer, and then again. -/
def pingPong : List Inbound :=
  [.own theRoom (agentAnswer (eventIdOf 1)),
    .reply theRoom (peerReply (eventIdOf 2) (eventIdOf 1)) 0,
   .own theRoom (agentAnswer (eventIdOf 5)),
     .reply theRoom (peerReply (eventIdOf 6) (eventIdOf 5)) 1000]

/-- The peer replies twice, which makes one turn, and again after the owner has spoken in the
thread. -/
def reanchored : List Inbound :=
  [.own theRoom (agentAnswer (eventIdOf 1)),
    .reply theRoom (peerReply (eventIdOf 2) (eventIdOf 1)) 0,
   .reply theRoom (peerReply (eventIdOf 5) (eventIdOf 1)) 2000,
     .human theRoom (peerReply (eventIdOf 6) (eventIdOf 1)),
   .reply theRoom (peerReply (eventIdOf 7) (eventIdOf 1)) 3000]

/-- Of the three replies, the one over the cap is turned away. -/
theorem chain_capped_reanchored :
    ∃ s, engagementLoop.run (EngagementLoop.init 1 1000) reanchored = some s ∧
    admittedAt theRoom s.log = [3000, 0] ∧
    (sinceReset theThread s.log).length ≤ 1 ∧ ∀ c :
    Uuid, (admittedAt c s.log).Pairwise (Apart 1000) := by
  have hrun : (engagementLoop.run (EngagementLoop.init 1 1000) reanchored).map
    (fun s => admittedAt theRoom s.log) =
      some [3000, 0] := by decide
  have hkeep : engagementLoop.Always (KeepsChain theThread)
      (EngagementLoop.init 1 1000) reanchored := by decide
  obtain ⟨s, hs, hadmitted⟩ := Option.map_eq_some_iff.mp hrun
  exact ⟨s, hs, hadmitted, chain_capped hs hkeep⟩

/-- With a cap of one turn, two are admitted in the thread: each answer of the agent has a counter
of its own. -/
theorem pingPong_uncapped :
    ¬ ∀ (max : Nat) (cooldown : Duration) (T : Thread) (as : List Inbound) (s : EngagementLoop),
    engagementLoop.run (EngagementLoop.init max cooldown) as = some s →
      (sinceReset T s.log).length ≤ max ∧ ∀ c :
        Uuid, (admittedAt c s.log).Pairwise (Apart cooldown) := by
  intro h
  have hturns : ((engagementLoop.run (EngagementLoop.init 1 1000) pingPong).map fun s =>
    (sinceReset theThread s.log).length)
      = some 2 := by decide
  obtain ⟨s, hs, hlen⟩ := Option.map_eq_some_iff.mp hturns
  have hle := (h 1 1000 theThread pingPong s hs).1
  rw [hlen] at hle
  exact absurd hle (by decide)

end Pkzz.Acp
