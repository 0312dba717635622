import Pkzz.Agent.HandoffPrompt

/-!
# The recovery from a context overflow

`recover_from_context_overflow` of `handoff.rs` in the loop of `run`. Each rung of the ladder asks
the summarizer with half the bytes of the one before. When a handoff was performed, the round of the
rejected request is given back.

The bounds follow from two things that every step keeps. Whatever was asked is paid for by a round
or by a recovery that was performed, and each of these by a summary that was asked for, of which
there are three at most.
-/

namespace Pkzz.Agent

open Pkzz.Lib

/-! ## What a run does -/

inductive Event
  /-- The provider is asked. -/
  | complete
  /-- A recovery asks the summarizer for a prompt of so many bytes. -/
  | summarize (budget : Nat)
  /-- A recovery has reset the history. -/
  | performed
  /-- A round is given back. -/
  | refund
  deriving DecidableEq

def Event.isSummarize : Event → Bool
  | summarize _ => true
  | _ => false

/-- The rung that is entered by a step. -/
def rung (s s' : Run) : List Event :=
  match s'.phase with
  | .handing (.recovery rejectedBytes) =>
    if s.contextRecoveries < s'.contextRecoveries then
      [.summarize (rejectedBytes / 2 ^ min s'.contextRecoveries 63)] else []
  | _ => []

/-- The recovery that is over with a step. -/
def performed (s s' : Run) : List Event :=
  match s.phase, s'.phase with
  | .hooking (.recovery _) _ _, .top => [.performed]
  | _, _ => []

/-- What happens in a step. -/
def emitted (s s' : Run) : List Event :=
  (if s.requests < s'.requests then [.complete] else []) ++ rung s s' ++ performed s s'
    ++ (if s'.round < s.round then [.refund] else [])

/-- The run, with what has happened in it. -/
def logged (cfg : Config) : Machine (Run × List Event) RunMove where
  step s move := ((agent cfg).step s.1 move).map fun s' => (s', s.2 ++ emitted s.1 s')

def RunMove.isPrompt : RunMove → Bool
  | prompt _ => true
  | _ => false

/-- What may come behind the last event. -/
def Follows (last : Option Event) : Event → Prop
  | .refund => last = some .performed
  | .summarize budget => ∀ before, last = some (.summarize before) → 2 * budget ≤ before
  | _ => True

/-- Each event of the log may come behind the one in front of it. -/
def Ordered (log : List Event) : Prop := ∀ front event rest, log = front ++ event :: rest →
    Follows front.getLast? event

/-- Requests and summaries are bounded, a refund comes right behind a recovery that was performed,
and the budgets of rungs that come one after the other at least halve. -/
structure Frugal (maxRounds : Nat) (log : List Event) : Prop where
  completes : log.count .complete ≤ maxRounds + MAX_CONTEXT_RECOVERIES_PER_RUN
  summarizes : log.countP Event.isSummarize ≤ MAX_CONTEXT_RECOVERIES_PER_RUN
  ordered : Ordered log

/-! ## What a step does to the counters -/

/-- Nothing is counted. -/
structure Same (s s' : Run) : Prop where
  requests : s'.requests = s.requests
  round : s'.round = s.round
  contextRecoveries : s'.contextRecoveries = s.contextRecoveries

/-- A recovery is under way. -/
def RunPhase.recovering : RunPhase → Bool
  | handing (.recovery _) | hooking (.recovery _) _ _ => true
  | _ => false

/-- A handoff in front of a request is under way. -/
def RunPhase.inPreflight : RunPhase → Bool
  | handing .preflight | hooking .preflight _ _ => true
  | _ => false

/-- The loop's top, the stop hooks or a batch. -/
def RunPhase.working : RunPhase → Bool
  | top | stopping | executing _ => true
  | _ => false

/-- The steps of one run, as far as they concern the counters. -/
inductive Pace (cfg : Config) (s s' : Run) : Prop
  | finished (phase : s'.phase = .idle) (requests : s'.requests = s.requests)
      (round : s'.round = s.round)
  | stayed (phase : s'.phase = s.phase) (same : Same s s')
  | worked (phase : s'.phase.working = true) (before : s.phase.recovering = false)
      (same : Same s s')
  | gated (below : s.round < cfg.maxRounds) (before : s.phase = .top)
      (phase : s'.phase = .handing .preflight) (same : Same s s')
  | summarized (why : Why) (summary : String) (currentPrompt : Option String)
      (before : s.phase = .handing why)
      (phase : s'.phase = .hooking why summary currentPrompt) (same : Same s s')
  | requested (truncated : Bool) (before : s.phase = .top ∧ s.round < cfg.maxRounds ∨
      s.phase.inPreflight = true)
      (phase : s'.phase = .requesting truncated) (requests : s'.requests = s.requests + 1)
      (round : s'.round = min (s.round + 1) (2 ^ 32 - 1))
        (contextRecoveries : s'.contextRecoveries = s.contextRecoveries)
  | rung (rejectedBytes : Nat) (before : (∃ truncated, s.phase = .requesting truncated) ∨
      s.phase = .handing (.recovery rejectedBytes))
      (below : s.contextRecoveries < MAX_CONTEXT_RECOVERIES_PER_RUN)
        (phase : s'.phase = .handing (.recovery rejectedBytes))
      (requests : s'.requests = s.requests) (round : s'.round = s.round)
      (contextRecoveries : s'.contextRecoveries = s.contextRecoveries + 1)
  | recovered (why : Nat) (summary : String) (currentPrompt : Option String)
      (before : s.phase = .hooking (.recovery why) summary currentPrompt) (phase : s'.phase = .top)
      (requests : s'.requests = s.requests) (round : s'.round = s.round - 1)
      (contextRecoveries : s'.contextRecoveries = s.contextRecoveries)

section

variable {cfg : Config} {s s' : Run}

theorem pace_loopTop (hmax : 0 < cfg.maxRounds) (hphase : s.phase = .top) :
    Pace cfg s (s.loopTop cfg) := by
  unfold Run.loopTop
  split
  · exact .finished rfl rfl rfl
  rename_i hround
  have hbelow : s.round < cfg.maxRounds := by omega
  split
  · exact .finished rfl rfl rfl
  · split
    · exact .gated hbelow hphase rfl ⟨rfl, rfl, rfl⟩
    · exact .requested true (.inl ⟨hphase, hbelow⟩) rfl rfl rfl rfl

variable {rejectedBytes : Nat}

theorem pace_recover
    (hphase : (∃ truncated, s.phase = .requesting truncated) ∨
      s.phase = .handing (.recovery rejectedBytes)) :
    Pace cfg s (s.recover rejectedBytes) := by
  unfold Run.recover
  split
  · exact .finished rfl rfl rfl
  rename_i hspent
  split
  · exact .finished rfl rfl rfl
  · exact .rung rejectedBytes hphase (Nat.lt_of_not_le hspent) rfl rfl rfl rfl

theorem pace_summarized {why : Why} {summary : Option String} (hphase : s.phase = .handing why) :
    Pace cfg s (s.summarized cfg why summary) := by
  unfold Run.summarized
  split
  · rename_i text _
    exact .summarized why text (Run.lastUser s.history) hphase rfl ⟨rfl, rfl, rfl⟩
  · cases why with
    | preflight => exact .requested true (.inr (by rw [hphase]; rfl)) rfl rfl rfl rfl
    | recovery rejectedBytes => exact pace_recover (.inr hphase)

variable {summary : String} {currentPrompt : Option String}

theorem pace_reseated {why : Why} {outputs : List (String × String)}
    (hphase : s.phase = .hooking why summary currentPrompt) :
    Pace cfg s (s.reseated why summary currentPrompt outputs) := by
  cases why with
  | preflight => exact .requested false (.inr (by rw [hphase]; rfl)) rfl rfl rfl rfl
  | recovery rejectedBytes =>
      exact .recovered rejectedBytes summary currentPrompt hphase rfl rfl rfl rfl

theorem same_measured (s : Run) (response : LlmResponse) : Same s (s.measured response) := by
  unfold Run.measured
  split
  · exact ⟨rfl, rfl, rfl⟩
  · exact ⟨rfl, rfl, rfl⟩

theorem same_nagged (cfg : Config) (s : Run) : Same s (s.nagged cfg) := by
  unfold Run.nagged
  split
  · exact ⟨rfl, rfl, rfl⟩
  · exact ⟨rfl, rfl, rfl⟩

variable {truncated : Bool}

theorem pace_responded {response : LlmResponse} (hphase : s.phase = .requesting truncated) :
    Pace cfg s (s.responded cfg response) := by
  have hbefore : s.phase.recovering = false := by rw [hphase]; rfl
  obtain ⟨hrequests, hround, hrecoveries⟩ := same_measured s response
  unfold Run.responded
  split
  · split
    · exact .finished rfl hrequests hround
    · split
      · exact .worked rfl hbefore ⟨hrequests, hround, hrecoveries⟩
      · exact .finished rfl hrequests hround
  · exact .worked rfl hbefore ⟨hrequests, hround, hrecoveries⟩

theorem pace_failed {error : AgentError} (hphase : s.phase = .requesting truncated) :
    Pace cfg s (s.failed error) := by
  cases error with
  | unsupportedImageInput =>
    simp only [Run.failed]
    split
    · exact .finished rfl rfl rfl
    · exact .worked rfl (by rw [hphase]; rfl) ⟨rfl, rfl, rfl⟩
  | llmContextExceeded => exact pace_recover (.inl ⟨truncated, hphase⟩)
  | other => exact .finished rfl rfl rfl

theorem pace_objected {outputs : List (String × String)} (hphase : s.phase = .stopping) :
    Pace cfg s (s.objected cfg outputs) := by
  obtain ⟨hrequests, hround, hrecoveries⟩ := same_nagged cfg s
  unfold Run.objected
  split
  · exact .finished rfl hrequests hround
  · exact .worked rfl (by rw [hphase]; rfl) ⟨hrequests, hround, hrecoveries⟩

theorem pace_batchMoved {b b' : Batch} (hphase : s.phase = .executing b) :
    Pace cfg s (s.batchMoved b') := by
  have hbefore : s.phase.recovering = false := by rw [hphase]; rfl
  unfold Run.batchMoved
  split
  · cases hcancel : b'.cancel with
    | true => exact .finished rfl rfl rfl
    | false => exact .worked rfl hbefore ⟨rfl, rfl, rfl⟩
  · exact .worked rfl hbefore ⟨rfl, rfl, rfl⟩

/-- Each step of one run is one of these. -/
theorem pace_of_step {move : RunMove} (hmax : 0 < cfg.maxRounds) (hmove : move.isPrompt = false)
    (hstep : (agent cfg).step s move = some s') : Pace cfg s s' := by
  simp only [agent] at hstep
  split at hstep
  · exact absurd hmove (by simp [RunMove.isPrompt])
  · cases hstep
  · cases hstep
    exact .stayed rfl ⟨rfl, rfl, rfl⟩
  · rename_i b hphase
    cases hstep
    exact .worked rfl (by rw [hphase]; rfl) ⟨rfl, rfl, rfl⟩
  · cases hstep
    exact .stayed rfl ⟨rfl, rfl, rfl⟩
  · rename_i hphase
    cases hstep
    exact pace_loopTop hmax hphase
  · rename_i hphase
    cases hstep
    exact pace_summarized hphase
  · rename_i hphase
    cases hstep
    exact pace_reseated hphase
  · rename_i hphase
    cases hstep
    exact pace_objected hphase
  · rename_i hphase
    cases hstep
    exact pace_responded hphase
  · rename_i hphase
    cases hstep
    exact pace_failed hphase
  · split at hstep
    · cases hstep
      exact .finished rfl rfl rfl
    · cases hstep
  · split at hstep
    · cases hstep
      exact .finished rfl rfl rfl
    · cases hstep
  · rename_i hphase
    obtain ⟨b', -, rfl⟩ := Option.map_eq_some_iff.mp hstep
    exact pace_batchMoved hphase
  · cases hstep

/-! ## What a step emits -/

theorem emitted_of_same (h : Same s s') (hperformed : performed s s' = []) : emitted s s' = [] := by
  have hrung : rung s s' = [] := by
    unfold rung
    split
    · rw [if_neg (by rw [h.contextRecoveries]; exact Nat.lt_irrefl _)]
    · rfl
  rw [emitted, hrung, hperformed, h.requests, h.round, if_neg (Nat.lt_irrefl _),
    if_neg (Nat.lt_irrefl _)]
  rfl

theorem performed_of_not_top (h : s'.phase ≠ .top) : performed s s' = [] := by
  unfold performed
  split
  · exact absurd ‹_› h
  · rfl

theorem performed_of_not_recovering (h : s.phase.recovering = false) : performed s s' = [] := by
  unfold performed
  split
  · rename_i hphase _
    rw [hphase] at h
    cases h
  · rfl

theorem emitted_finished (hphase : s'.phase = .idle) (hrequests : s'.requests = s.requests)
    (hround : s'.round = s.round) : emitted s s' = [] := by
  have hrung : rung s s' = [] := by rw [rung, hphase]
  rw [emitted, hrung, performed_of_not_top (by rw [hphase]; nofun), hrequests, hround,
    if_neg (Nat.lt_irrefl _), if_neg (Nat.lt_irrefl _)]
  rfl

theorem performed_stayed (hphase : s'.phase = s.phase) : performed s s' = [] := by
  unfold performed
  split
  · rename_i hbefore hafter
    rw [hphase, hbefore] at hafter
    cases hafter
  · rfl

theorem emitted_requested (hphase : s'.phase = .requesting truncated)
    (hrequests : s'.requests = s.requests + 1) (hround : s.round ≤ s'.round) :
    emitted s s' = [.complete] := by
  have hrung : rung s s' = [] := by rw [rung, hphase]
  rw [emitted, hrung, performed_of_not_top (by rw [hphase]; nofun), if_pos (by omega),
    if_neg (by omega)]
  rfl

theorem emitted_rung (hphase : s'.phase = .handing (.recovery rejectedBytes))
    (hrequests : s'.requests = s.requests) (hround : s'.round = s.round)
    (hrecoveries : s'.contextRecoveries = s.contextRecoveries + 1) :
    emitted s s' = [.summarize (rejectedBytes / 2 ^ min (s.contextRecoveries + 1) 63)] := by
  have hrung : rung s s' = [.summarize (rejectedBytes / 2 ^ min (s.contextRecoveries + 1) 63)] := by
    rw [rung, hphase, hrecoveries]
    exact if_pos (Nat.lt_succ_self _)
  rw [emitted, hrung, performed_of_not_top (by rw [hphase]; nofun), hrequests, hround,
    if_neg (Nat.lt_irrefl _), if_neg (Nat.lt_irrefl _)]
  rfl

theorem emitted_recovered {why : Nat}
    (hbefore : s.phase = .hooking (.recovery why) summary currentPrompt) (hphase : s'.phase = .top)
    (hrequests : s'.requests = s.requests) :
    emitted s s' = .performed :: if s'.round < s.round then [.refund] else [] := by
  have hrung : rung s s' = [] := by rw [rung, hphase]
  have hperformed : performed s s' = [.performed] := by rw [performed, hbefore, hphase]
  rw [emitted, hrung, hperformed, hrequests, if_neg (Nat.lt_irrefl _)]
  rfl

/-! ## The order of events -/

theorem ordered_nil : Ordered [] := by
  intro front event rest h
  cases front <;> cases h

variable {log : List Event}

theorem Ordered.snoc {event : Event} (h : Ordered log) (hevent : Follows log.getLast? event) :
    Ordered (log ++ [event]) := by
  intro front e rest heq
  rcases List.eq_nil_or_concat rest with rfl | ⟨rest', last, rfl⟩
  · obtain ⟨rfl, he⟩ := List.append_inj' heq rfl
    rw [← (List.cons.inj he).1]
    exact hevent
  · have heq' : log ++ [event] = (front ++ e :: rest') ++ [last] := by rw [heq]; simp
    exact h front e rest' (List.append_inj' heq' rfl).1

/-! ## What every step keeps -/

/-- What the log ends with, and whether a round is left, by where the run is. -/
def Ends (cfg : Config) (s : Run) (log : List Event) : Prop :=
  match s.phase with
  | .handing .preflight | .hooking .preflight _ _ => s.round < cfg.maxRounds
  | .requesting _ => log.getLast? = some .complete
  | .handing (.recovery rejectedBytes) =>
    log.getLast? = some (.summarize (rejectedBytes / 2 ^ min s.contextRecoveries 63))
  | _ => True

structure Paced (cfg : Config) (s : Run) (log : List Event) : Prop where
  round : s.round ≤ cfg.maxRounds
  completes : log.count .complete ≤ s.round + log.count .performed
  performed : log.count .performed + (if s.phase.recovering then 1 else 0) ≤
    log.countP Event.isSummarize
  summarizes : log.countP Event.isSummarize ≤ s.contextRecoveries
  recoveries : s.contextRecoveries ≤ MAX_CONTEXT_RECOVERIES_PER_RUN
  ordered : Ordered log
  ends : Ends cfg s log

theorem Paced.frugal (h : Paced cfg s log) : Frugal cfg.maxRounds log := by
  have hcompletes := h.completes
  have hround := h.round
  have hperformed := h.performed
  have hsummarizes := h.summarizes
  have hrecoveries := h.recoveries
  exact ⟨by omega, by omega, h.ordered⟩

/-- A step that counts nothing. -/
theorem Paced.same (h : Paced cfg s log) (hsame : Same s s')
    (hrecovering : s'.phase.recovering = true → s.phase.recovering = true)
    (hends : Ends cfg s' log) : Paced cfg s' log := by
  refine ⟨?_, ?_, ?_, ?_, ?_, h.ordered, hends⟩
  · rw [hsame.round]
    exact h.round
  · rw [hsame.round]
    exact h.completes
  · refine Nat.le_trans (Nat.add_le_add_left ?_ _) h.performed
    by_cases hs' : s'.phase.recovering = true
    · rw [if_pos hs', if_pos (hrecovering hs')]
    · rw [if_neg hs']
      exact Nat.zero_le _
  · rw [hsame.contextRecoveries]
    exact h.summarizes
  · rw [hsame.contextRecoveries]
    exact h.recoveries

theorem ends_of_working (h : s.phase.working = true) : Ends cfg s log := by
  unfold Ends
  cases hphase : s.phase <;> rw [hphase] at h <;> trivial

theorem not_recovering_of_working (h : s.phase.working = true) : s.phase.recovering = false := by
  cases hphase : s.phase with
  | handing why => rw [hphase] at h; cases h
  | hooking why summary currentPrompt => rw [hphase] at h; cases h
  | _ => rfl

theorem Paced.round_lt (h : Paced cfg s log) (hphase : s.phase.inPreflight = true) :
    s.round < cfg.maxRounds := by
  have hends := h.ends
  unfold RunPhase.inPreflight at hphase
  split at hphase
  · rename_i heq
    rw [Ends, heq] at hends
    exact hends
  · rename_i heq
    rw [Ends, heq] at hends
    exact hends
  · cases hphase

theorem Paced.requested (h : Paced cfg s log) (hu32 : cfg.maxRounds < 2 ^ 32)
    (hbelow : s.round < cfg.maxRounds) (hphase : s'.phase = .requesting truncated)
    (hround : s'.round = min (s.round + 1) (2 ^ 32 - 1))
    (hrecoveries : s'.contextRecoveries = s.contextRecoveries) :
    Paced cfg s' (log ++ [.complete]) := by
  have hsucc : s'.round = s.round + 1 := by omega
  have hcompletes := h.completes
  have hperformed := h.performed
  refine ⟨by omega, ?_, ?_, ?_, ?_, h.ordered.snoc trivial, ?_⟩
  · rw [List.count_append, List.count_append, hsucc,
      show List.count Event.complete [.complete] = 1 from rfl,
      show List.count Event.performed [.complete] = 0 from rfl]
    omega
  · have hoff : s'.phase.recovering = false := by rw [hphase]; rfl
    rw [List.count_append, List.countP_append, hoff,
      show List.count Event.performed [.complete] = 0 from rfl,
      show List.countP Event.isSummarize [.complete] = 0 from rfl]
    simp only [Bool.false_eq_true, if_false]
    omega
  · rw [List.countP_append, hrecoveries]
    exact h.summarizes
  · rw [hrecoveries]
    exact h.recoveries
  · rw [Ends, hphase]
    exact List.getLast?_concat ..

/-- The budget of a rung is at most half of the one before. -/
theorem two_mul_shift_le (rejectedBytes : Nat) {n : Nat} (h : n < 63) :
    2 * (rejectedBytes / 2 ^ min (n + 1) 63) ≤ rejectedBytes / 2 ^ min n 63 := by
  rw [Nat.min_eq_left h, Nat.min_eq_left (Nat.le_of_lt h), Nat.pow_succ, ← Nat.div_div_eq_div_mul]
  exact Nat.mul_div_le _ 2

theorem Paced.rung (h : Paced cfg s log)
    (hbefore : (∃ truncated, s.phase = .requesting truncated) ∨
      s.phase = .handing (.recovery rejectedBytes))
    (hbelow : s.contextRecoveries < MAX_CONTEXT_RECOVERIES_PER_RUN)
    (hphase : s'.phase = .handing (.recovery rejectedBytes))
    (hround : s'.round = s.round) (hrecoveries : s'.contextRecoveries = s.contextRecoveries + 1) :
    Paced cfg s' (log ++ [.summarize (rejectedBytes / 2 ^ min (s.contextRecoveries + 1) 63)]) := by
  have hperformed := h.performed
  have hsummarizes := h.summarizes
  have hends := h.ends
  have hfollows : Follows log.getLast?
      (.summarize (rejectedBytes / 2 ^ min (s.contextRecoveries + 1) 63)) := by
    intro before hlast
    rcases hbefore with ⟨truncated, hbefore⟩ | hbefore
    · rw [Ends, hbefore] at hends
      rw [hends] at hlast
      cases hlast
    rw [Ends, hbefore] at hends
    rw [hends] at hlast
    cases hlast
    exact two_mul_shift_le rejectedBytes (Nat.lt_trans hbelow (by decide))
  refine ⟨by rw [hround]; exact h.round, ?_, ?_, ?_, ?_, h.ordered.snoc hfollows, ?_⟩
  · rw [List.count_append, List.count_append, hround]
    exact h.completes
  · have hon : s'.phase.recovering = true := by rw [hphase]; rfl
    rw [List.count_append, List.countP_append, hon]
    simp only [List.count_singleton, List.countP_singleton, Event.isSummarize, if_true]
    exact Nat.add_le_add_right (Nat.le_trans (Nat.le_add_right _ _) hperformed) 1
  · rw [List.countP_append, hrecoveries]
    exact Nat.add_le_add_right hsummarizes 1
  · rw [hrecoveries]
    exact hbelow
  · rw [Ends, hphase, hrecoveries]
    exact List.getLast?_concat ..

theorem Paced.recovered {why : Nat} (h : Paced cfg s log)
    (hbefore : s.phase = .hooking (.recovery why) summary currentPrompt) (hphase : s'.phase = .top)
    (hround : s'.round = s.round - 1) (hrecoveries : s'.contextRecoveries = s.contextRecoveries)
    {refunds : List Event}
    (hrefunds : refunds = [] ∨ refunds = [.refund]) :
    Paced cfg s' (log ++ .performed :: refunds) := by
  have hr := h.round
  have hcompletes := h.completes
  have hperformed := h.performed
  have hon : s.phase.recovering = true := by rw [hbefore]; rfl
  have hoff : s'.phase.recovering = false := by rw [hphase]; rfl
  have hordered : Ordered (log ++ [.performed]) := h.ordered.snoc trivial
  rw [if_pos hon] at hperformed
  refine ⟨by omega, ?_, ?_, ?_, ?_, ?_, ?_⟩
  · have hcount : (Event.performed :: refunds).count .complete =
        0 := by rcases hrefunds with rfl | rfl <;> rfl
    have hone : (Event.performed :: refunds).count .performed =
        1 := by rcases hrefunds with rfl | rfl <;> rfl
    rw [List.count_append, List.count_append, hcount, hone]
    omega
  · have hone : (Event.performed :: refunds).count .performed =
        1 := by rcases hrefunds with rfl | rfl <;> rfl
    have hcount : (Event.performed :: refunds).countP Event.isSummarize =
        0 := by rcases hrefunds with rfl | rfl <;> rfl
    rw [List.count_append, List.countP_append, hcount, hone, hoff]
    exact hperformed
  · have hcount : (Event.performed :: refunds).countP Event.isSummarize =
        0 := by rcases hrefunds with rfl | rfl <;> rfl
    rw [List.countP_append, hcount, hrecoveries]
    exact h.summarizes
  · rw [hrecoveries]
    exact h.recoveries
  · rcases hrefunds with rfl | rfl
    · exact hordered
    · have hlast : (log ++ [Event.performed]).getLast? = some .performed := List.getLast?_concat ..
      have hboth : Ordered (log ++ [Event.performed] ++ [Event.refund]) := hordered.snoc hlast
      rw [List.append_assoc] at hboth
      exact hboth
  · rw [Ends, hphase]
    trivial

/-- What holds at every state of a run. -/
def RunPaced (cfg : Config) (k : Run × List Event) : Prop :=
  Frugal cfg.maxRounds k.2 ∧ (k.1.phase ≠ .idle → Paced cfg k.1 k.2)

theorem runPaced_of_paced (h : Paced cfg s log) : RunPaced cfg (s, log) := ⟨h.frugal, fun _ => h⟩

theorem paced_step (hu32 : cfg.maxRounds < 2 ^ 32) (h : Paced cfg s log) (hpace : Pace cfg s s') :
    RunPaced cfg (s', log ++ emitted s s') := by
  cases hpace with
  | finished hphase hrequests hround =>
    rw [emitted_finished hphase hrequests hround, List.append_nil]
    exact ⟨h.frugal, fun hbusy => absurd hphase hbusy⟩
  | stayed hphase hsame =>
    rw [emitted_of_same hsame (performed_stayed hphase), List.append_nil]
    refine runPaced_of_paced (h.same hsame (by rw [hphase]; exact id) ?_)
    have hends := h.ends
    unfold Ends at hends ⊢
    rw [hphase, hsame.round, hsame.contextRecoveries]
    exact hends
  | worked hphase hbefore hsame =>
    rw [emitted_of_same hsame (performed_of_not_recovering hbefore), List.append_nil]
    refine runPaced_of_paced (h.same hsame ?_ (ends_of_working hphase))
    rw [not_recovering_of_working hphase]
    nofun
  | gated hbelow hbefore hphase hsame =>
    rw [emitted_of_same hsame (performed_of_not_top (by rw [hphase]; nofun)), List.append_nil]
    refine runPaced_of_paced (h.same hsame (by rw [hphase]; nofun) ?_)
    rw [Ends, hphase, hsame.round]
    exact hbelow
  | summarized why summary currentPrompt hbefore hphase hsame =>
    rw [emitted_of_same hsame (performed_of_not_top (by rw [hphase]; nofun)), List.append_nil]
    have hends := h.ends
    rw [Ends, hbefore] at hends
    cases why with
    | preflight =>
      refine runPaced_of_paced (h.same hsame (by rw [hphase]; nofun) ?_)
      rw [Ends, hphase, hsame.round]
      exact hends
    | recovery rejectedBytes =>
      refine runPaced_of_paced (h.same hsame (fun _ => by rw [hbefore]; rfl) ?_)
      rw [Ends, hphase]
      trivial
  | requested truncated hbefore hphase hrequests hround hrecoveries =>
    have hbelow : s.round < cfg.maxRounds := by
      rcases hbefore with ⟨_, hbelow⟩ | hpreflight
      · exact hbelow
      · exact h.round_lt hpreflight
    rw [emitted_requested hphase hrequests (by omega)]
    exact runPaced_of_paced (h.requested hu32 hbelow hphase hround hrecoveries)
  | rung rejectedBytes hbefore hbelow hphase hrequests hround hrecoveries =>
    rw [emitted_rung hphase hrequests hround hrecoveries]
    exact runPaced_of_paced (h.rung hbefore hbelow hphase hround hrecoveries)
  | recovered why summary currentPrompt hbefore hphase hrequests hround hrecoveries =>
    rw [emitted_recovered hbefore hphase hrequests]
    refine runPaced_of_paced (h.recovered hbefore hphase hround hrecoveries ?_)
    split
    · exact .inr rfl
    · exact .inl rfl

theorem agent_idle {move : RunMove} (hphase : s.phase = .idle) (hmove : move.isPrompt = false)
    (hstep : (agent cfg).step s move = some s') : s'.phase = .idle ∧ emitted s s' = [] := by
  cases move with
  | prompt blocks => cases hmove
  | cancel =>
    simp only [agent, hphase, Option.some.injEq] at hstep
    subst hstep
    exact ⟨rfl, emitted_finished rfl rfl rfl⟩
  | _ => simp [agent, hphase] at hstep

theorem runPaced_step (hmax : 0 < cfg.maxRounds) (hu32 : cfg.maxRounds < 2 ^ 32) :
    ∀ k move k', RunPaced cfg k → move.isPrompt = false → (logged cfg).step k move = some k' →
      RunPaced cfg k' := by
  intro k move k' hk hmove hstep
  obtain ⟨s, log⟩ := k
  obtain ⟨s', hs', rfl⟩ := Option.map_eq_some_iff.mp hstep
  by_cases hidle : s.phase = .idle
  · obtain ⟨hrest, hnothing⟩ := agent_idle hidle hmove hs'
    rw [hnothing, List.append_nil]
    exact ⟨hk.1, fun hbusy => absurd hrest hbusy⟩
  · exact paced_step hu32 (hk.2 hidle) (pace_of_step hmax hmove hs')

/-- Where a prompt starts, everything is still to be counted. -/
theorem runPaced_start (hidle : s.phase = .idle) (blocks : List ContentBlock) :
    RunPaced cfg (s.start blocks, []) := by
  have hnothing : Frugal cfg.maxRounds [] := ⟨Nat.zero_le _, Nat.zero_le _, ordered_nil⟩
  unfold Run.start
  split
  · exact ⟨hnothing, fun hbusy => absurd hidle hbusy⟩
  · split
    · exact ⟨hnothing, fun hbusy => absurd hidle hbusy⟩
    · exact ⟨hnothing, fun _ => ⟨Nat.zero_le _, Nat.zero_le _, Nat.zero_le _, Nat.zero_le _,
        Nat.zero_le _, ordered_nil, trivial⟩⟩

end

/-! ## Whole runs and their prompts -/

/-- **Recovery is bounded in every run. A prompt keeps to its budget and to the newest items just
when the sizes of the snippets say so.** -/
theorem recovery_bounded (cfg : Config) (source : HandoffSource) :
    (0 < cfg.maxRounds → cfg.maxRounds < 2 ^ 32 →
      ∀ (s : Run) (blocks : List ContentBlock) (moves : List RunMove) (t : Run) (log : List Event),
        s.phase = .idle → (∀ move ∈ moves, move.isPrompt = false) →
          (logged cfg).run (s.start blocks, []) moves = some (t, log) → Frugal cfg.maxRounds log)
    ∧ ∀ budget, source.fixedBytes ≤ budget →
        (PromptOk source budget ↔ KeepsNewest (budget - source.fixedBytes) source.sizes) := by
  refine ⟨?_, fun budget hframe => promptOk_iff hframe⟩
  intro hmax hu32 s blocks moves t log hidle hmoves hrun
  have hpaced : RunPaced cfg (t, log) :=
    Machine.invariant (P := fun _ move =>
      move.isPrompt = false) (runPaced_step hmax hu32) (runPaced_start hidle blocks)
      (Machine.always_of_forall fun move hmem _ => hmoves move hmem) hrun
  exact hpaced.1

/-- Two screenshots are most of the history. -/
def screenshots : Run :=
  { Run.init with history := [.user "look", .assistant "" [⟨"call", "shot", .null, .null⟩] none,
      .toolResult ⟨"call", [.image "AAAA" "image/png", .image "AAAA" "image/png"], false⟩] }

def fewRounds : Config :=
  ⟨⟨fun name => name == "shot", fun _ => false, 8⟩, 2, 10, 0, 16777216, 200000, 1000, false⟩

/-- The first request is too large, and so is the first summary. -/
def secondRung : List RunMove :=
  [.loop, .fail .llmContextExceeded, .summarized none, .summarized (some "summary"), .hooks [],
    .loop, .respond ⟨"done", [], .endTurn, none, none⟩]

def shortHistory : HandoffSource := ⟨0, some "task", ["shell"], 200000, [.user "one", .user "two"]⟩

/-- The run stays within its bounds, and the short history fits the prompt. -/
theorem recovery_bounded_screenshots :
    (∃ t log, (logged fewRounds).run (screenshots.start [.text "go on"],
      []) secondRung = some (t, log) ∧ log.count .complete = 2 ∧ Frugal 2 log)
    ∧ PromptOk shortHistory (shortHistory.fixedBytes + 100) := by
  have hlog : ((logged fewRounds).run (screenshots.start [.text "go on"],
      []) secondRung).map Prod.snd
      = some [.complete, .summarize 16407, .summarize 8203, .performed, .refund,
        .complete] := by decide +kernel
  obtain ⟨⟨t, log⟩, hrun, hend⟩ := Option.map_eq_some_iff.mp hlog
  have hend : log = _ := hend
  constructor
  · refine ⟨t, log, hrun, by rw [hend]; rfl, ?_⟩
    exact (recovery_bounded fewRounds shortHistory).1 (by decide) (by decide) screenshots
      [.text "go on"] secondRung t log rfl (by decide) hrun
  · refine ((recovery_bounded fewRounds shortHistory).2 _ (Nat.le_add_right _ _)).mpr (.inl ?_)
    rw [Nat.add_sub_cancel_left]
    decide

/-! ## A prompt that is larger than its budget -/

/-- Two messages, each of them as large as what there is for the history. -/
def twoMessages : HandoffSource :=
  ⟨0, some "task", [], 200000, [.user (String.ofList (List.replicate 4088 'a')),
    .user (String.ofList (List.replicate 4088 'b'))]⟩

theorem sizes_twoMessages : twoMessages.sizes = [4096, 4096] := by
  have hlen : ∀ c : Char, c.utf8Size = 1 →
      Str.len (historySnippet (.user (String.ofList (List.replicate 4088 c)))) = 4096 := by
    intro c hc
    have hopen : Str.len "[user] " = 7 := by decide
    have hclose : Str.len "\n" = 1 := by decide
    have hbody : Str.len (String.ofList (List.replicate 4088 c)) = 4088 := by
      rw [len_ofList, ByteIndex.byteLen, List.map_replicate, List.sum_replicate_nat, hc]
    rw [historySnippet, Str.len_append, Str.len_append, hopen, hbody, hclose]
  have ha := hlen 'a' (by decide)
  have hb := hlen 'b' (by decide)
  unfold HandoffSource.sizes twoMessages
  simp only [List.reverse_cons, List.reverse_nil, List.nil_append, List.singleton_append,
    List.map_cons, List.map_nil, ha, hb]

/-- The newest message fills the budget, and the line for the other one is written nevertheless. -/
theorem omittedLine_over_budget :
    ¬ ∀ (source : HandoffSource) (budget : Nat), source.fixedBytes ≤ budget →
      PromptOk source budget := by
  intro h
  have hok := h twoMessages (twoMessages.fixedBytes + 4096) (Nat.le_add_right _ _)
  have hkeeps := (promptOk_iff (Nat.le_add_right _ _)).mp hok
  rw [Nat.add_sub_cancel_left, sizes_twoMessages] at hkeeps
  rcases hkeeps with hall | ⟨k, hpos, hlt, hroom, -⟩
  · exact absurd hall (by decide)
  have hone : k = 1 := by
    rw [show [4096, 4096].length = 2 from rfl] at hlt
    omega
  have hfour := four_le_omittedLine ([4096, 4096].length - k)
  rw [hone] at hroom hfour
  rw [show ([4096, 4096].take 1).sum = 4096 from rfl] at hroom
  omega

end Pkzz.Agent
