import Pkzz.Agent.Run
import Pkzz.Agent.OneUpdate

/-!
# The history stays well paired

A batch puts one result under the id of each call whatever its tasks do. Every other path of the run
appends user items or whole turns, clears the history, cuts it before a user item or takes images
away, and none of these parts a call from its result. A prompt is the last thing in the history
until its first request, unless steers are drained after it; a handoff or a truncation then keeps
the last steer and may lose the prompt.
-/

namespace Pkzz.Agent

open Pkzz.Lib

variable {env : ToolEnv} {cfg : Config}

/-! ## The results of a batch -/

/-- The outcome that a task has. -/
def TaskPoint.outcome : TaskPoint → Option InvokeOutcome
  | answering outcome | emitted outcome => some outcome
  | ended outcome => outcome
  | _ => none

/-- What is known about a call is under its id. -/
structure Identified (b : Batch) : Prop where
  results : ∀ i call r, b.calls[i]? = some call → b.results i = some r →
    r.providerId = call.providerId
  tasks : ∀ i call outcome, b.calls[i]? = some call → (b.tasks i).outcome = some outcome →
    outcome.Answers call
  appended : b.phase = .returned →
    b.appended.map ToolResult.providerId = b.calls.map ToolCall.providerId

theorem providerId_reflected (r : ToolResult) : (Batch.reflected r).providerId = r.providerId := by
  unfold Batch.reflected
  split
  · rfl
  · rfl

theorem providerId_outcomeToResult {call : ToolCall} {outcome : InvokeOutcome}
    (h : outcome.Answers call) : (outcomeToResult call outcome).providerId = call.providerId := by
  cases outcome with
  | done r => exact h
  | failed m => rfl

variable {b b' : Batch} {i : Nat}

/-- One result for each call, under its id. -/
theorem providerIds_appended {results : Nat → Option ToolResult} {calls : List ToolCall}
    (h : ∀ i call r, calls[i]? = some call → results i = some r → r.providerId = call.providerId) :
    (calls.mapIdx fun i call =>
      Batch.reflected ((results i).getD (Batch.missingResult call))).map ToolResult.providerId
      = calls.map ToolCall.providerId := by
  refine List.ext_getElem? fun i => ?_
  rw [List.getElem?_map, List.getElem?_mapIdx, List.getElem?_map]
  cases hcall : calls[i]? with
  | none => rfl
  | some call =>
    refine congrArg some ?_
    rw [providerId_reflected]
    cases hr : results i with
    | none => rfl
    | some r => exact h i call r hcall hr

theorem Identified.setTask (hb : Identified b) {point : TaskPoint}
    (hpoint : ∀ call outcome, b.calls[i]? = some call → point.outcome = some outcome →
      outcome.Answers call) :
    Identified (b.setTask i point) := by
  refine ⟨hb.results, ?_, hb.appended⟩
  intro j call outcome hcall houtcome
  by_cases hj : j = i
  · rw [hj] at hcall
    rw [hj, Batch.setTask] at houtcome
    dsimp only at houtcome
    rw [Function.update_self] at houtcome
    exact hpoint call outcome hcall houtcome
  · rw [Batch.setTask] at houtcome
    dsimp only at houtcome
    rw [Function.update_of_ne hj] at houtcome
    exact hb.tasks j call outcome hcall houtcome

/-- A task without an outcome. -/
theorem Identified.setTask_none (hb : Identified b) {point : TaskPoint}
    (hnone : point.outcome = none) : Identified (b.setTask i point) := by
  refine hb.setTask ?_
  intro call outcome _ houtcome
  rw [hnone] at houtcome
  cases houtcome

/-- A task goes on with the outcome it has. -/
theorem Identified.setTask_same (hb : Identified b) {point : TaskPoint}
    (hsame : (b.tasks i).outcome = point.outcome) : Identified (b.setTask i point) :=
  hb.setTask fun call outcome hcall houtcome =>
    hb.tasks i call outcome hcall (hsame.trans houtcome)

theorem Identified.setResult (hb : Identified b) {result : ToolResult}
    (hresult : ∀ call, b.calls[i]? = some call → result.providerId = call.providerId) :
    Identified (b.setResult i result) := by
  refine ⟨?_, hb.tasks, hb.appended⟩
  intro j call r hcall hr
  by_cases hj : j = i
  · rw [hj] at hcall
    rw [hj, Batch.setResult] at hr
    dsimp only at hr
    rw [Function.update_self] at hr
    cases hr
    exact hresult call hcall
  · rw [Batch.setResult] at hr
    dsimp only at hr
    rw [Function.update_of_ne hj] at hr
    exact hb.results j call r hcall hr

/-- The parts that the ids are in are as they were, and the batch has not returned. -/
theorem Identified.same (hb : Identified b) (hcalls : b'.calls = b.calls)
    (hresults : b'.results = b.results)
    (htasks : b'.tasks = b.tasks) (hphase : b'.phase ≠ .returned) : Identified b' := by
  refine ⟨?_, ?_, fun h => absurd h hphase⟩
  · rw [hcalls, hresults]
    exact hb.results
  · rw [hcalls, htasks]
    exact hb.tasks

theorem identified_appendResults
    (hresults : ∀ i call r, b.calls[i]? = some call → b.results i = some r →
      r.providerId = call.providerId)
    (htasks : ∀ i call outcome, b.calls[i]? = some call → (b.tasks i).outcome = some outcome →
      outcome.Answers call) :
    Identified b.appendResults :=
  ⟨hresults, htasks, fun _ => providerIds_appended hresults⟩

theorem identified_preflight {idx : Nat} (skill : ToolResult) (hb : Identified b) :
    Identified (b.preflight env idx skill) := by
  unfold Batch.preflight
  cases hcall : b.calls[idx]? with
  | none => exact hb.same rfl rfl rfl (by simp)
  | some call =>
    have hthis : ∀ {r : ToolResult}, r.providerId = call.providerId →
        ∀ call', b.calls[idx]? = some call' → r.providerId = call'.providerId := by
      intro r hr call' hcall'
      rw [hcall] at hcall'
      rw [← Option.some.inj hcall', hr]
    dsimp only
    split
    · refine identified_appendResults ?_ hb.tasks
      intro j call' r hcall' hr
      rw [Batch.cancelPreflight] at hr hcall'
      dsimp only at hr hcall'
      split at hr
      · rename_i call'' _ hcall''
        rw [hcall'] at hcall''
        cases hcall''
        cases hr
        rfl
      · exact hb.results j call' r hcall' hr
    · split
      · exact (hb.setResult (hthis rfl)).same rfl rfl rfl (by simp)
      · split
        · exact (hb.setResult (hthis rfl)).same rfl rfl rfl (by simp)
        · exact hb.same rfl rfl rfl (by simp)

theorem identified_main {skill : ToolResult} (hb : Identified b) (h : b.main env skill = some b') :
    Identified b' := by
  unfold Batch.main at h
  split at h
  · cases h
    exact identified_preflight skill hb
  · cases h
    exact hb.same rfl rfl rfl (by simp)
  · cases h
    exact (hb.setTask_none rfl).same rfl rfl rfl (by simp)
  · cases h
    split
    · exact hb.same rfl rfl rfl (by simp)
    · exact hb.same rfl rfl rfl (by simp)
  · cases h
    exact identified_appendResults hb.results hb.tasks
  · cases h
    unfold Batch.fill
    split
    · rename_i call _ hcall
      refine (hb.setResult ?_).same rfl rfl rfl (by simp)
      intro call' hcall'
      rw [hcall] at hcall'
      cases hcall'
      rfl
    · exact hb.same rfl rfl rfl (by simp)
  · cases h

theorem identified_join (hb : Identified b) (h : b.join i = some b') : Identified b' := by
  unfold Batch.join at h
  split at h
  · split at h
    · rename_i outcome call htask hcall
      have hanswers := hb.tasks i call outcome hcall (by rw [htask]; rfl)
      split at h
      · cases h
        exact hb.setTask_none rfl
      cases h
      refine (hb.setTask_none rfl).setResult ?_
      intro call' hcall'
      rw [show (b.setTask i .absent).calls = b.calls from rfl, hcall] at hcall'
      cases hcall'
      exact providerId_outcomeToResult hanswers
    · cases h
      exact hb.setTask_none rfl
    · cases h
  · cases h

theorem identified_step {move : BatchMove} (hb : Identified b)
    (h : (batch env).step b move = some b') : Identified b' := by
  cases move with
  | cancel =>
    cases h
    exact ⟨hb.results, hb.tasks, hb.appended⟩
  | main skill => exact identified_main hb h
  | notice | allJoined | deadline =>
    simp only [batch] at h
    split at h
    · cases h
      exact hb.same rfl rfl rfl (by simp)
    · cases h
  | join i => exact identified_join hb h
  | acquire i =>
    simp only [batch] at h
    split at h
    · split at h
      · cases h
        refine hb.setTask ?_
        intro call outcome _ houtcome
        cases houtcome
        trivial
      · split at h
        · cases h
          have hmoved : Identified (b.setTask i .running) := hb.setTask_none rfl
          exact ⟨hmoved.results, hmoved.tasks, hmoved.appended⟩
        · cases h
    · cases h
  | answer i outcome =>
    simp only [batch] at h
    split at h
    · rename_i call _ hcall
      split at h
      · -- a task answers with the id of its own call
        rename_i hanswers
        cases h
        refine hb.setTask ?_
        intro call' outcome' hcall' houtcome
        rw [hcall] at hcall'
        cases hcall'
        cases houtcome
        exact hanswers
      · cases h
    · cases h
  | panic i =>
    simp only [batch] at h
    split at h
    · cases h
      have hmoved : Identified (b.setTask i (.ended none)) := hb.setTask_none rfl
      exact ⟨hmoved.results, hmoved.tasks, hmoved.appended⟩
    · cases h
  | emit i =>
    simp only [batch] at h
    split at h
    · rename_i outcome htask
      cases h
      have hmoved : Identified (b.setTask i (.emitted outcome)) :=
        hb.setTask_same (by rw [htask]; rfl)
      exact ⟨hmoved.results, hmoved.tasks, hmoved.appended⟩
    · cases h
  | finish i =>
    simp only [batch] at h
    split at h
    · rename_i outcome htask
      cases h
      have hmoved : Identified (b.setTask i (.ended (some outcome))) :=
        hb.setTask_same (by rw [htask]; rfl)
      exact ⟨hmoved.results, hmoved.tasks, hmoved.appended⟩
    · cases h
  | abort i =>
    simp only [batch] at h
    split at h
    · cases h
    · cases h
    · split at h
      · cases h
        exact hb.setTask_none rfl
      · cases h

/-! ## The prompt -/

/-- The prompt and the steers drained after it fit, or there are none. -/
def Fits (cfg : Config) (prompt : String) (steers : List String) : Prop :=
  steers = [] ∨ totalBytes ((prompt :: steers).map .user) ≤ cfg.maxHistoryBytes

instance (cfg : Config) (prompt : String) (steers : List String) :
    Decidable (Fits cfg prompt steers) :=
  inferInstanceAs (Decidable (_ ∨ _))

/-- Before the first request of a prompt: what is truncated keeps the prompt, and so does what is
handed off. -/
def KeepsPrompt (cfg : Config) (s : Run) : RunMove → Prop
  | .loop => s.requests = 0 → s.cancel = false → s.drainSteers.attemptsHandoff cfg = false →
      Fits cfg s.prompt (Run.steerTexts s.steer)
  | .summarized summary => s.requests = 0 →
      if (Run.usable summary).isSome then
        Run.lastUser s.history = some s.prompt else Fits cfg s.prompt s.firstSteers
  | _ => True

instance (cfg : Config) (s : Run) (move : RunMove) : Decidable (KeepsPrompt cfg s move) :=
  match move with
  | .loop => inferInstanceAs (Decidable (_ → _ → _ → Fits _ _ _))
  | .summarized summary =>
      inferInstanceAs (Decidable (s.requests = 0 → if (Run.usable summary).isSome then _ else _))
  | .prompt _ | .steer _ | .cancel | .hooks _ | .respond _ | .fail _ | .cancelled | .batch _ =>
      isTrue trivial

/-- The next segment is not past a user item. -/
theorem nextSegment_append_user (l : List HistoryItem) (text : String) (rest : List HistoryItem) :
    ∃ l', nextSegment (l ++ .user text :: rest) = some (l' ++ .user text :: rest) ∧
      l'.length ≤ l.length := by
  induction l with
  | nil => exact ⟨[], rfl, Nat.le_refl _⟩
  | cons item l ih =>
    rw [List.cons_append, nextSegment]
    split
    · exact ⟨item :: l, rfl, Nat.le_refl _⟩
    · obtain ⟨l', hl', hlen⟩ := ih
      exact ⟨l', hl', Nat.le_succ_of_le hlen⟩

/-- Truncation keeps a user item that fits with what follows, or that no user item follows. -/
theorem mem_truncateHistory {maxBytes : Nat} {text : String} {rest : List HistoryItem}
    (h : totalBytes (.user text :: rest) ≤ maxBytes ∨ ∀ item ∈ rest, item.isUser = false)
    (l : List HistoryItem) : .user text ∈ truncateHistory maxBytes (l ++ .user text :: rest) := by
  have hmem : ∀ l : List HistoryItem, HistoryItem.user text ∈ l ++ .user text :: rest :=
    fun l => List.mem_append_right _ List.mem_cons_self
  induction hlen : l.length using Nat.strong_induction_on generalizing l with
  | h n ih =>
    unfold truncateHistory
    split
    · exact hmem l
    rename_i hbig
    cases l with
    | nil =>
      rw [List.nil_append] at hbig ⊢
      dsimp only
      split
      · exact List.mem_cons_self
      rename_i tail htail
      rcases h with hfits | hnone
      · exact absurd hfits hbig
      -- no segment follows
      obtain ⟨dropped, text', rest', heq, htail', _⟩ := nextSegment_suffix htail
      have huser := hnone (.user text')
          (by rw [heq, htail']; exact List.mem_append_right _ List.mem_cons_self)
      cases huser
    | cons item l =>
      obtain ⟨l', hl', hle⟩ := nextSegment_append_user l text rest
      rw [List.cons_append]
      dsimp only
      split
      · rename_i hnone
        rw [hl'] at hnone
        cases hnone
      rename_i tail htail
      rw [hl'] at htail
      cases htail
      exact ih l'.length (by rw [← hlen, List.length_cons]; exact Nat.lt_succ_of_le hle) l' rfl

theorem mem_truncate_of_fits {prompt : String} {steers : List String} (h : Fits cfg prompt steers)
    (l : List HistoryItem) :
    .user prompt ∈ truncateHistory cfg.maxHistoryBytes (l ++ (prompt :: steers).map .user) := by
  refine mem_truncateHistory ?_ l
  rcases h with hnil | hfits
  · rw [hnil]
    exact .inr nofun
  · exact .inl hfits

/-! ## The invariant -/

/-- What truncation leaves: it fits, or there is no user item in it after the first. -/
def Bounded (cfg : Config) (history : List HistoryItem) : Prop :=
  totalBytes history ≤ cfg.maxHistoryBytes ∨ ∀ item ∈ history.tail, item.isUser = false

/-- What the history is like at each point of a run; `kept` says that the run keeps each prompt up
to its first request. -/
def RunInv (cfg : Config) (kept : Prop) (s : Run) : Prop :=
  match s.phase with
  | .idle => WellPaired s.history
  | .top => WellPaired s.history ∧
      (s.requests = 0 → s.firstSteers = [] ∧ ∃ l, s.history = l ++ [.user s.prompt])
  | .handing .preflight =>
      WellPaired s.history ∧
      (s.requests = 0 → ∃ l, s.history = l ++ (s.prompt :: s.firstSteers).map .user)
  | .handing (.recovery _) => WellPaired s.history ∧ 1 ≤ s.requests
  | .hooking .preflight _ currentPrompt =>
      s.history = [] ∧ (kept → s.requests = 0 → currentPrompt = some s.prompt)
  | .hooking (.recovery _) _ _ => s.history = [] ∧ 1 ≤ s.requests
  | .requesting truncated => WellPaired s.history ∧ 1 ≤ s.requests ∧
      (kept → s.requests = 1 → .user s.prompt ∈ s.history) ∧
      (truncated = true → Bounded cfg s.history)
  | .stopping => WellPaired s.history ∧ 1 ≤ s.requests
  | .executing b => (∃ l text reasoningDetails,
      s.history = l ++ [.assistant text b.calls reasoningDetails] ∧ WellPaired l) ∧
      Identified b ∧ 1 ≤ s.requests

variable {kept : Prop} {s s' : Run}

theorem runInv_init : RunInv cfg kept Run.init := WellPaired.nil

theorem runInv_finish (h : WellPaired s.history) : RunInv cfg kept s.finish := h

theorem wellPaired_users (texts : List String) : WellPaired (texts.map .user) := by
  induction texts with
  | nil => exact .nil
  | cons text texts ih => exact .user text ih

theorem runInv_start {blocks : List ContentBlock} (hphase : s.phase = .idle)
    (h : RunInv cfg kept s) : RunInv cfg kept (s.start blocks) := by
  unfold Run.start
  split
  · exact h
  rename_i text _
  split
  · exact h
  · unfold RunInv at h
    rw [hphase] at h
    exact ⟨h.append (wellPaired_user text), fun _ => ⟨rfl, s.history, rfl⟩⟩

/-- The provider is asked with a truncated history. -/
theorem runInv_truncated (hpaired : WellPaired s.history)
    (hprompt : kept → s.requests = 0 →
      .user s.prompt ∈ truncateHistory cfg.maxHistoryBytes s.history) :
    RunInv cfg kept ((s.truncate cfg).request true) := by
  refine ⟨wellPaired_truncate _ hpaired, Nat.succ_pos _, ?_, fun _ => truncateHistory_bound _ _⟩
  intro hkept hfirst
  exact hprompt hkept (Nat.succ.inj hfirst)

theorem runInv_loopTop (hphase : s.phase = .top) (h : RunInv cfg kept s)
    (hkeep : kept → KeepsPrompt cfg s .loop) : RunInv cfg kept (s.loopTop cfg) := by
  unfold RunInv at h
  rw [hphase] at h
  obtain ⟨hpaired, hlast⟩ := h
  have hdrained : WellPaired s.drainSteers.history := hpaired.append (wellPaired_users _)
  -- before the first request the prompt is the last item, and the steers come after it
  have hfirst : s.requests = 0 →
      ∃ l, s.drainSteers.history = l ++ (s.prompt :: Run.steerTexts s.steer).map .user := by
    intro hzero
    obtain ⟨_, l, hl⟩ := hlast hzero
    refine ⟨l, ?_⟩
    rw [Run.drainSteers]
    dsimp only
    rw [hl, List.append_assoc]
    rfl
  unfold Run.loopTop
  split
  · exact runInv_finish hpaired
  split
  · exact runInv_finish hpaired
  rename_i hcancel
  split
  · refine ⟨hdrained, ?_⟩
    intro hzero
    have hzero : s.requests = 0 := hzero
    obtain ⟨l, hl⟩ := hfirst hzero
    refine ⟨l, ?_⟩
    have hsteers : s.drainSteers.firstSteers = Run.steerTexts s.steer := by
      rw [Run.drainSteers]
      dsimp only
      rw [if_pos hzero, (hlast hzero).1, List.nil_append]
    show s.drainSteers.history = l ++ (s.prompt :: s.drainSteers.firstSteers).map .user
    rw [hsteers]
    exact hl
  · rename_i hattempt
    refine runInv_truncated hdrained ?_
    intro hkept hzero
    have hzero : s.requests = 0 := hzero
    obtain ⟨l, hl⟩ := hfirst hzero
    rw [hl]
    exact mem_truncate_of_fits
      (hkeep hkept hzero (Bool.eq_false_iff.mpr hcancel) (Bool.eq_false_iff.mpr hattempt)) l

theorem runInv_recover {rejectedBytes : Nat} (hpaired : WellPaired s.history)
    (hasked : 1 ≤ s.requests) : RunInv cfg kept (s.recover rejectedBytes) := by
  unfold Run.recover
  split
  · exact runInv_finish hpaired
  · split
    · exact runInv_finish hpaired
    · exact ⟨hpaired, hasked⟩

theorem runInv_summarized {why : Why} {summary : Option String} (hphase : s.phase = .handing why)
    (h : RunInv cfg kept s)
    (hkeep : kept → KeepsPrompt cfg s (.summarized summary)) :
    RunInv cfg kept (s.summarized cfg why summary) := by
  unfold RunInv at h
  rw [hphase] at h
  have hkeep : kept → s.requests = 0 →
      if (Run.usable summary).isSome then
        Run.lastUser s.history = some s.prompt else Fits cfg s.prompt s.firstSteers := hkeep
  unfold Run.summarized
  cases husable : Run.usable summary with
  | some text =>
    rw [husable] at hkeep
    cases why with
    | preflight => exact ⟨rfl, hkeep⟩
    | recovery rejectedBytes => exact ⟨rfl, h.2⟩
  | none =>
    rw [husable] at hkeep
    cases why with
    | preflight =>
      refine runInv_truncated h.1 ?_
      intro hkept hzero
      obtain ⟨l, hl⟩ := h.2 hzero
      rw [hl]
      exact mem_truncate_of_fits (hkeep hkept hzero) l
    | recovery rejectedBytes => exact runInv_recover h.1 h.2

theorem runInv_reseated {why : Why} {summary : String} {currentPrompt : Option String}
    {outputs : List (String × String)}
    (hphase : s.phase = .hooking why summary currentPrompt) (h : RunInv cfg kept s) :
    RunInv cfg kept (s.reseated why summary currentPrompt outputs) := by
  unfold RunInv at h
  rw [hphase] at h
  have hpaired : WellPaired
      (.user (Run.handoffText summary outputs) :: (currentPrompt.map .user).toList) := by
    refine .user _ ?_
    cases currentPrompt with
    | none => exact .nil
    | some text => exact wellPaired_user text
  cases why with
  | preflight =>
    obtain ⟨hempty, hcurrent⟩ := h
    refine ⟨?_, Nat.succ_pos _, ?_, nofun⟩
    · show WellPaired (s.history ++ _)
      rw [hempty]
      exact hpaired
    · intro hkept hfirst
      show HistoryItem.user s.prompt ∈ s.history ++ _
      rw [hempty, hcurrent hkept (Nat.succ.inj hfirst)]
      exact List.mem_cons_of_mem _ List.mem_cons_self
  | recovery rejectedBytes =>
    obtain ⟨hempty, hasked⟩ := h
    refine ⟨?_, ?_⟩
    · show WellPaired (s.history ++ _)
      rw [hempty]
      exact hpaired
    · intro hzero
      exact absurd hasked (by rw [show s.requests = 0 from hzero]; exact Nat.not_succ_le_zero 0)

theorem measured_same (s : Run) (response : LlmResponse) :
    (s.measured response).history = s.history ∧ (s.measured response).requests = s.requests := by
  unfold Run.measured
  split
  · exact ⟨rfl, rfl⟩
  · exact ⟨rfl, rfl⟩

theorem nagged_same (cfg : Config) (s : Run) : (s.nagged cfg).history = s.history ∧
    (s.nagged cfg).requests = s.requests := by
  unfold Run.nagged
  split
  · exact ⟨rfl, rfl⟩
  · exact ⟨rfl, rfl⟩

theorem runInv_responded {truncated : Bool} {response : LlmResponse}
    (hphase : s.phase = .requesting truncated)
    (h : RunInv cfg kept s) : RunInv cfg kept (s.responded cfg response) := by
  unfold RunInv at h
  rw [hphase] at h
  obtain ⟨hpaired, hasked, _, _⟩ := h
  obtain ⟨hhistory, hrequests⟩ := measured_same s response
  rw [← hhistory] at hpaired
  rw [← hrequests] at hasked
  have hturn : WellPaired
      ((s.measured response).push
      (.assistant response.text [] response.reasoningDetails)).history :=
    hpaired.append (wellPaired_turn response.text [] response.reasoningDetails [] rfl)
  unfold Run.responded
  split
  · split
    · exact runInv_finish hpaired
    · split
      · exact ⟨hturn, hasked⟩
      · exact runInv_finish hturn
  · exact ⟨⟨(s.measured response).history, response.text, response.reasoningDetails, rfl, hpaired⟩,
      ⟨nofun, nofun, nofun⟩, hasked⟩

theorem runInv_failed {truncated : Bool} {error : AgentError}
    (hphase : s.phase = .requesting truncated)
    (h : RunInv cfg kept s) : RunInv cfg kept (s.failed error) := by
  unfold RunInv at h
  rw [hphase] at h
  obtain ⟨hpaired, hasked, _, _⟩ := h
  cases error with
  | unsupportedImageInput =>
    simp only [Run.failed]
    split
    · exact runInv_finish hpaired
    · refine ⟨wellPaired_replaceImages hpaired, ?_⟩
      intro hzero
      exact absurd hasked (by rw [show s.requests = 0 from hzero]; exact Nat.not_succ_le_zero 0)
  | llmContextExceeded => exact runInv_recover hpaired hasked
  | other => exact runInv_finish hpaired

theorem runInv_objected {outputs : List (String × String)} (hphase : s.phase = .stopping)
    (h : RunInv cfg kept s) : RunInv cfg kept (s.objected cfg outputs) := by
  unfold RunInv at h
  rw [hphase] at h
  obtain ⟨hpaired, hasked⟩ := h
  obtain ⟨hhistory, hrequests⟩ := nagged_same cfg s
  unfold Run.objected
  split
  · refine runInv_finish ?_
    rw [hhistory]
    exact hpaired
  refine ⟨wellPaired_hooks _ _ _ hpaired, ?_⟩
  intro hzero
  have hzero : (s.nagged cfg).requests = 0 := hzero
  rw [hrequests] at hzero
  exact absurd hasked (by rw [hzero]; exact Nat.not_succ_le_zero 0)

/-- When the batch has returned, its results are the ones that the last turn waits for. -/
theorem runInv_batchMoved {b b' : Batch} {move : BatchMove} (hphase : s.phase = .executing b)
    (h : RunInv cfg kept s)
    (hmove : (batch cfg.tools).step b move = some b') : RunInv cfg kept (s.batchMoved b') := by
  unfold RunInv at h
  rw [hphase] at h
  obtain ⟨⟨l, text, reasoningDetails, hhistory, hpaired⟩, hb, hasked⟩ := h
  have hb' := identified_step hb hmove
  have hcalls := calls_step hmove
  unfold Run.batchMoved
  split
  · rename_i hreturned
    have hturn : WellPaired (s.history ++ b'.appended.map .toolResult) := by
      rw [hhistory, List.append_assoc]
      refine hpaired.append (wellPaired_turn text b.calls reasoningDetails b'.appended ?_)
      rw [hb'.appended hreturned, hcalls]
    cases b'.cancel with
    | true => exact hturn
    | false =>
      refine ⟨hturn, ?_⟩
      intro hzero
      exact absurd hasked (by rw [show s.requests = 0 from hzero]; exact Nat.not_succ_le_zero 0)
  · refine ⟨⟨l, text, reasoningDetails, ?_, hpaired⟩, hb', hasked⟩
    rw [hcalls]
    exact hhistory

theorem runInv_step {move : RunMove} (h : RunInv cfg kept s) (hkeep : kept → KeepsPrompt cfg s move)
    (hstep : (agent cfg).step s move = some s') : RunInv cfg kept s' := by
  simp only [agent] at hstep
  split at hstep
  · rename_i hphase
    cases hstep
    exact runInv_start hphase h
  · cases hstep
  · cases hstep
    exact h
  · rename_i b hphase
    cases hstep
    unfold RunInv at h
    rw [hphase] at h
    obtain ⟨hhistory, hb, hasked⟩ := h
    exact ⟨hhistory, ⟨hb.results, hb.tasks, hb.appended⟩, hasked⟩
  · cases hstep
    exact h
  · rename_i hphase
    cases hstep
    exact runInv_loopTop hphase h hkeep
  · rename_i why hphase
    cases hstep
    exact runInv_summarized hphase h hkeep
  · rename_i why summary currentPrompt hphase
    cases hstep
    exact runInv_reseated hphase h
  · rename_i hphase
    cases hstep
    exact runInv_objected hphase h
  · rename_i truncated hphase
    cases hstep
    exact runInv_responded hphase h
  · rename_i truncated hphase
    cases hstep
    exact runInv_failed hphase h
  · rename_i why hphase
    split at hstep
    · cases hstep
      unfold RunInv at h
      rw [hphase] at h
      cases why with
      | preflight => exact runInv_finish h.1
      | recovery rejectedBytes => exact runInv_finish h.1
    · cases hstep
  · rename_i truncated hphase
    split at hstep
    · cases hstep
      unfold RunInv at h
      rw [hphase] at h
      exact runInv_finish h.1
    · cases hstep
  · rename_i move b hphase
    obtain ⟨b', hmove, rfl⟩ := Option.map_eq_some_iff.mp hstep
    exact runInv_batchMoved hphase h hmove
  · cases hstep

/-! ## Whole runs -/

/-- What the provider is asked with, and what is left when the run returns. -/
structure HistoryOk (cfg : Config) (s : Run) : Prop where
  paired : (s.phase = .idle ∨ ∃ truncated, s.phase = .requesting truncated) → WellPaired s.history
  prompt : ∀ truncated, s.phase = .requesting truncated → s.requests = 1 →
    .user s.prompt ∈ s.history
  truncated : s.phase = .requesting true → Bounded cfg s.history

/-- **The history is well paired at every request and at every return, and truncation bounds it, in
every run.** -/
theorem paired_run {moves : List RunMove} (hrun : (agent cfg).run Run.init moves = some s) :
    ((s.phase = .idle ∨ ∃ truncated, s.phase = .requesting truncated) → WellPaired s.history) ∧
      (s.phase = .requesting true → Bounded cfg s.history) := by
  have h : RunInv cfg False s :=
    Machine.invariant (fun _ _ _ h _ hstep =>
      runInv_step h False.elim hstep) runInv_init Machine.always_true hrun
  unfold RunInv at h
  refine ⟨?_, ?_⟩
  · rintro (hphase | ⟨truncated, hphase⟩)
    · rw [hphase] at h
      exact h
    · rw [hphase] at h
      exact h.1
  · intro hphase
    rw [hphase] at h
    exact h.2.2.2 rfl

/-- A run that keeps each prompt up to its first request has it in that request. -/
theorem prompt_run {moves : List RunMove} (hrun : (agent cfg).run Run.init moves = some s)
    (hkeep : (agent cfg).Always (KeepsPrompt cfg) Run.init moves) (truncated : Bool)
    (hphase : s.phase = .requesting truncated) (hfirst : s.requests = 1) :
    .user s.prompt ∈ s.history := by
  have h : RunInv cfg True s :=
    Machine.invariant (fun _ _ _ h hkeep hstep =>
      runInv_step h (fun _ => hkeep) hstep) runInv_init hkeep hrun
  unfold RunInv at h
  rw [hphase] at h
  exact h.2.2.1 trivial hfirst

/-- **The history is well paired at every request and at every return, and a prompt is in its first
request.** -/
theorem history_ok {moves : List RunMove} (hrun : (agent cfg).run Run.init moves = some s)
    (hkeep : (agent cfg).Always (KeepsPrompt cfg) Run.init moves) : HistoryOk cfg s where
  paired := (paired_run hrun).1
  prompt := prompt_run hrun hkeep
  truncated := (paired_run hrun).2

/-! ## A steer before the first request -/

def theConfig : Config :=
  ⟨⟨fun name => name == "shell", fun _ => false, 8⟩, 0, 10, 0, 16777216, 200000, 1000, false⟩

/-- A turn that ends with the window nearly full. -/
def nearlyFull : LlmResponse := ⟨"ok", [], .endTurn, some 190000, none⟩

/-- A turn that calls a tool. -/
def callsTool : LlmResponse :=
  ⟨"", [⟨"call_1", "shell", .obj [], .obj []⟩], .toolUse, some 100, none⟩

/-- The moves of a batch of one call, which answers. -/
def answeredCall : List BatchMove :=
  let result : ToolResult := ⟨"call_1", [.text "done"], false⟩
  List.replicate 5 (.main result) ++
  [.acquire 0, .answer 0 (.done result), .emit 0, .finish 0, .join 0, .allJoined, .main result,
    .main result]

/-- A turn with a tool call, and the next prompt up to its first request, with a handoff in between.
-/
def handedOff : List RunMove :=
  [.prompt [.text "first task"], .loop, .respond callsTool] ++ answeredCall.map .batch ++
  [.loop, .respond nearlyFull, .prompt [.text "second task"], .loop,
    .summarized (some "summary"), .hooks []]

/-- The same, with a steer that is queued before the loop is entered. -/
def steeredAway : List RunMove :=
  [.prompt [.text "first task"], .loop, .respond nearlyFull, .prompt [.text "second task"],
    .steer [.text "be quick"], .loop,
   .summarized (some "summary"), .hooks []]

/-- The history is in order after a handoff with a steer in it. -/
theorem history_ok_handedOff : ∃ s, (agent theConfig).run Run.init handedOff = some s ∧
    HistoryOk theConfig s := by
  have hrun : ((agent theConfig).run Run.init handedOff).isSome = true := by decide +kernel
  have hkeep : (agent theConfig).Always
      (KeepsPrompt theConfig) Run.init handedOff := by decide +kernel
  obtain ⟨s, hs⟩ := Option.isSome_iff_exists.mp hrun
  exact ⟨s, hs, history_ok hs hkeep⟩

/-- The texts of the user items. -/
def userTexts (history : List HistoryItem) : List String :=
  history.filterMap fun
    | .user text => some text
    | _ => none

def RunPhase.requested : RunPhase → Option Bool
  | .requesting truncated => some truncated
  | _ => none

/-- The handoff seats the steer in place of the prompt, which the provider has never seen. -/
theorem steered_away : ¬ ∀ (cfg : Config) (moves : List RunMove) (s : Run),
    (agent cfg).run Run.init moves = some s → HistoryOk cfg s := by
  intro h
  have hend : ((agent theConfig).run Run.init steeredAway).map (fun s =>
    (userTexts s.history, s.prompt, s.requests,
      s.phase.requested))
      = some (["[Context Handoff]\nsummary", "be quick"], "second task", 1,
        some false) := by decide +kernel
  obtain ⟨s, hs, hstate⟩ := Option.map_eq_some_iff.mp hend
  have htexts := congrArg Prod.fst hstate
  have hprompt := congrArg (fun p => p.2.1) hstate
  have hrequests := congrArg (fun p => p.2.2.1) hstate
  have hphase := congrArg (fun p => p.2.2.2) hstate
  dsimp only at htexts hprompt hrequests hphase
  have hrequesting : s.phase = .requesting false := by
    unfold RunPhase.requested at hphase
    split at hphase
    · rename_i truncated hp
      rw [hp, Option.some.inj hphase]
    · cases hphase
  have hmem := (h theConfig steeredAway s hs).prompt false hrequesting hrequests
  rw [hprompt] at hmem
  have hlost : "second task" ∈ userTexts s.history := List.mem_filterMap.mpr ⟨_, hmem, rfl⟩
  rw [htexts] at hlost
  exact absurd hlost (by decide)

end Pkzz.Agent
