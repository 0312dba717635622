import Pkzz.Agent.Batch

/-!
# One terminal update for each call

A call is silent, announced, told about or settled. The terminal update of a call comes from the
preflight, from its task or from the last fill, and each of them settles it. The one gap is the
deadline of the drain: a task that has told the client and was not joined yet loses its result, and
its call is filled and told about again.
-/

namespace Pkzz.Agent

open Pkzz.Lib

/-! ## One call -/

/-- Announced, with no terminal update. -/
def Opened (updates : List Update) : Prop := ∃ mid, updates = .pending :: mid ∧
    ∀ u ∈ mid, u = .inProgress

/-- Announced, and then one terminal update. -/
def Settled (updates : List Update) (outcome : InvokeOutcome) : Prop :=
  ∃ before, Opened before ∧ updates = before ++ [outcome.update]

theorem opened_pending : Opened [.pending] := ⟨[], rfl, nofun⟩

theorem Opened.inProgress {updates : List Update} (h : Opened updates) :
    Opened (updates ++ [.inProgress]) := by
  obtain ⟨mid, heq, hmid⟩ := h
  refine ⟨mid ++ [.inProgress], by rw [heq, List.cons_append], ?_⟩
  intro u hu
  rcases List.mem_append.mp hu with h | h
  · exact hmid u h
  · exact List.mem_singleton.mp h

/-- The task has not told the client. -/
def TaskPoint.Quiet : TaskPoint → Prop
  | emitted _ | ended (some _) => False
  | _ => True

/-- What is known of one call. -/
structure CallView where
  updates : List Update
  result : Option ToolResult
  task : TaskPoint
  mayRun : Bool

def CallView.silent : CallView := ⟨[], none, .absent, false⟩

/-- The states of a call. -/
inductive CallState (call : ToolCall) (aborted : Bool) : CallView → Prop
  | silent : CallState call aborted .silent
  | opened {updates : List Update} {task : TaskPoint} (open' : Opened updates)
      (quiet : task.Quiet) : CallState call aborted ⟨updates, none, task, true⟩
  /-- The client knows the outcome, and the caller does not yet. -/
  | told {updates : List Update} {outcome : InvokeOutcome} {task : TaskPoint}
      (settled : Settled updates outcome)
      (here : task = .emitted outcome ∨ task = .ended (some outcome)) (live : aborted = false) :
      CallState call aborted ⟨updates, none, task, true⟩
  | settled {updates : List Update} {outcome : InvokeOutcome} {task : TaskPoint} {mayRun : Bool}
      (settled : Settled updates outcome) (done : task = .absent ∨ (aborted = true ∧ task.Quiet)) :
      CallState call aborted ⟨updates, some (outcomeToResult call outcome), task, mayRun⟩
  /-- Cancelled before it was announced. -/
  | skipped : CallState call aborted ⟨[], some (syntheticToolResult call "cancelled"),
      .absent, false⟩

namespace Batch

def updatesOf (b : Batch) (i : Nat) : List Update :=
  (b.updates.filter fun u => u.1 = i).map Prod.snd

def view (b : Batch) (i : Nat) : CallView :=
  ⟨b.updatesOf i, b.results i, b.tasks i, decide (i ∈ b.runnable)⟩

variable {b : Batch} {i j : Nat} {u : Update} {result : ToolResult} {point : TaskPoint}

theorem updatesOf_append (b : Batch) (more : List (Nat × Update)) (i : Nat) :
    ({ b with updates := b.updates ++ more } : Batch).updatesOf i = b.updatesOf i ++
    (more.filter fun u => u.1 = i).map Prod.snd := by
  rw [updatesOf, List.filter_append, List.map_append]
  rfl

theorem updatesOf_emit_self : (b.emit i u).updatesOf i = b.updatesOf i ++ [u] := by
  rw [emit, updatesOf_append]
  simp

theorem updatesOf_emit_ne (h : j ≠ i) : (b.emit i u).updatesOf j = b.updatesOf j := by
  rw [emit, updatesOf_append]
  simp [Ne.symm h]

theorem view_emit_ne (h : j ≠ i) : (b.emit i u).view j = b.view j := by
  rw [view, updatesOf_emit_ne h]
  rfl

theorem view_emit_self :
    (b.emit i u).view i = { b.view i with updates := (b.view i).updates ++ [u] } := by
  rw [view, updatesOf_emit_self]
  rfl

theorem view_setTask_ne (h : j ≠ i) : (b.setTask i point).view j = b.view j := by
  rw [view, setTask]
  dsimp only
  rw [Function.update_of_ne h]
  rfl

theorem view_setTask_self : (b.setTask i point).view i = { b.view i with task := point } := by
  rw [view, setTask]
  dsimp only
  rw [Function.update_self]
  rfl

theorem view_setResult_ne (h : j ≠ i) : (b.setResult i result).view j = b.view j := by
  rw [view, setResult]
  dsimp only
  rw [Function.update_of_ne h]
  rfl

theorem view_setResult_self :
    (b.setResult i result).view i = { b.view i with result := some result } := by
  rw [view, setResult]
  dsimp only
  rw [Function.update_self]
  rfl

end Batch

/-! ## The invariant -/

/-- Every call is in one of the states. -/
def Calls (b : Batch) : Prop :=
  (∀ i call, b.calls[i]? = some call → CallState call b.aborted (b.view i)) ∧
    ∀ i, b.calls.length ≤ i → b.view i = .silent

/-- Every call was announced. -/
def Announced (b : Batch) : Prop := ∀ i, i < b.calls.length → b.updatesOf i ≠ []

/-- What is over when the caller has got somewhere. -/
def PhaseInv (b : Batch) : Prop :=
  match b.phase with
  | .preflight idx => b.runnable.Nodup ∧ (∀ i ∈ b.runnable, i < idx) ∧
      (∀ i, idx ≤ i → b.view i = .silent) ∧
      (∀ i, b.tasks i = .absent) ∧ (∀ i ∈ b.runnable, b.results i = none) ∧
      (∀ i, i < idx → i < b.calls.length → b.updatesOf i ≠ []) ∧ b.aborted = false
  | .spawning rest => Announced b ∧ rest.Nodup ∧
      (∀ i ∈ rest, i ∈ b.runnable ∧ b.tasks i = .absent ∧ b.results i = none) ∧ b.aborted = false
  | .looking | .joining | .draining => Announced b ∧ b.aborted = false
  | .filling rest => Announced b ∧ (∀ i ∈ b.runnable, i ∉ rest → b.results i ≠ none) ∧
      (b.aborted = true ∨ ∀ i ∈ b.runnable, b.tasks i = .absent)
  | .returned => (∀ i, i < b.calls.length → b.results i ≠ none) ∧
      (b.aborted = true ∨ ∀ i ∈ b.runnable, b.tasks i = .absent) ∧
      b.appended = b.calls.mapIdx fun i call =>
        Batch.reflected ((b.results i).getD (Batch.missingResult call))

structure BatchInv (b : Batch) : Prop where
  calls : Calls b
  phase : PhaseInv b
  /-- No permit is given out any more. -/
  closing : b.phase = .draining ∨ b.aborted = true → b.closed = true

/-- A task that is there is one of a call that may run. -/
theorem Calls.mayRun {b : Batch} (h : Calls b) {i : Nat} (htask : b.tasks i ≠ .absent) :
    ∃ call, b.calls[i]? = some call ∧ CallState call b.aborted (b.view i) := by
  by_cases hlt : i < b.calls.length
  · exact ⟨_, List.getElem?_eq_getElem hlt, h.1 i _ (List.getElem?_eq_getElem hlt)⟩
  · have hview := h.2 i (Nat.le_of_not_lt hlt)
    exact absurd (congrArg CallView.task hview) htask

/-- A change of one call leaves the others as they are. -/
theorem Calls.change {b b' : Batch} (h : Calls b) {i : Nat} (hcalls : b'.calls = b.calls)
    (haborted : b'.aborted = b.aborted)
    (hother : ∀ j, j ≠ i → b'.view j = b.view j) (hlt : i < b.calls.length)
    (hthis : ∀ call, b.calls[i]? = some call → CallState call b.aborted (b'.view i)) :
    Calls b' := by
  refine ⟨?_, ?_⟩
  · intro j call hcall
    rw [haborted]
    rw [hcalls] at hcall
    by_cases hj : j = i
    · rw [hj] at hcall ⊢
      exact hthis call hcall
    · rw [hother j hj]
      exact h.1 j call hcall
  · intro j hj
    rw [hcalls] at hj
    have hne : j ≠ i := fun heq => absurd hlt (Nat.not_lt_of_le (heq ▸ hj))
    rw [hother j hne]
    exact h.2 j hj

/-- A move of a task does not touch what the phase is about. -/
theorem PhaseInv.task_move {b b' : Batch} (h : PhaseInv b) {i : Nat} (hthere : b.tasks i ≠ .absent)
    (hphase : b'.phase = b.phase) (hcalls : b'.calls = b.calls) (hresults : b'.results = b.results)
    (hrunnable : b'.runnable = b.runnable) (haborted : b'.aborted = b.aborted)
    (happended : b'.appended = b.appended)
    (hupdates : ∀ j, b.updatesOf j ≠ [] → b'.updatesOf j ≠ [])
    (htasks : ∀ j, b.tasks j = .absent → b'.tasks j = .absent) : PhaseInv b' := by
  have hannounced : Announced b → Announced b' := by
    intro ha j hj
    rw [hcalls] at hj
    exact hupdates j (ha j hj)
  unfold PhaseInv at h ⊢
  rw [hphase]
  cases hb : b.phase with
  | preflight idx =>
    rw [hb] at h
    exact absurd (h.2.2.2.1 i) hthere
  | spawning rest =>
    rw [hb] at h
    obtain ⟨ha, hnodup, hrest, hlive⟩ := h
    refine ⟨hannounced ha, hnodup, ?_, by rw [haborted, hlive]⟩
    intro j hj
    obtain ⟨hrun, habsent, hnone⟩ := hrest j hj
    rw [hrunnable, hresults]
    exact ⟨hrun, htasks j habsent, hnone⟩
  | looking | joining | draining =>
    rw [hb] at h
    exact ⟨hannounced h.1, by rw [haborted, h.2]⟩
  | filling rest =>
    rw [hb] at h
    obtain ⟨ha, hfilled, hover⟩ := h
    rw [hrunnable, hresults, haborted]
    refine ⟨hannounced ha, hfilled, ?_⟩
    rcases hover with habort | habsent
    · exact .inl habort
    · exact .inr fun j hj => htasks j (habsent j hj)
  | returned =>
    rw [hb] at h
    obtain ⟨hfilled, hover, heq⟩ := h
    rw [hrunnable, hresults, haborted, hcalls, happended]
    refine ⟨hfilled, ?_, heq⟩
    rcases hover with habort | habsent
    · exact .inl habort
    · exact .inr fun j hj => htasks j (habsent j hj)

/-! ## The tasks -/

namespace CallState

variable {call : ToolCall} {aborted : Bool} {v : CallView}

/-- A task that has not told the client moves on. -/
theorem quiet_move (h : CallState call aborted v) (hthere : v.task ≠ .absent)
    (hquiet : v.task.Quiet) {point : TaskPoint}
    (hpoint : point.Quiet) : CallState call aborted { v with task := point } := by
  cases h with
  | silent => exact absurd rfl hthere
  | opened hopen _ => exact .opened hopen hpoint
  | told hsettled here _ =>
    rcases here with rfl | rfl
    · exact hquiet.elim
    · exact hquiet.elim
  | settled hsettled done =>
    rcases done with habsent | ⟨habort, _⟩
    · exact absurd habsent hthere
    · exact .settled hsettled (.inr ⟨habort, hpoint⟩)
  | skipped => exact absurd rfl hthere

/-- A task of a batch that is not aborted is one of a call that is open. -/
theorem opened_of_quiet (h : CallState call false v) (hthere : v.task ≠ .absent)
    (hquiet : v.task.Quiet) : Opened v.updates ∧ v.result = none ∧ v.mayRun = true := by
  cases h with
  | silent => exact absurd rfl hthere
  | opened hopen _ => exact ⟨hopen, rfl, rfl⟩
  | told hsettled here _ =>
    rcases here with rfl | rfl
    · exact hquiet.elim
    · exact hquiet.elim
  | settled hsettled done =>
    rcases done with habsent | ⟨habort, _⟩
    · exact absurd habsent hthere
    · cases habort
  | skipped => exact absurd rfl hthere

/-- A task that has told the client is one of a call that was told about. -/
theorem told_of_loud (h : CallState call aborted v) {outcome : InvokeOutcome}
    (hpoint : v.task = .emitted outcome ∨ v.task = .ended (some outcome)) :
    Settled v.updates outcome ∧ v.result = none ∧ v.mayRun = true ∧ aborted = false := by
  have hloud : ¬ v.task.Quiet := by
    rcases hpoint with h | h
    · rw [h]
      exact id
    · rw [h]
      exact id
  cases h with
  | silent => exact absurd trivial hloud
  | opened hopen hquiet => exact absurd hquiet hloud
  | told hsettled here hlive =>
    rcases hpoint with h | h
    · rcases here with h' | h'
      · cases h.symm.trans h'
        exact ⟨hsettled, rfl, rfl, hlive⟩
      · cases h.symm.trans h'
    · rcases here with h' | h'
      · cases h.symm.trans h'
      · cases h.symm.trans h'
        exact ⟨hsettled, rfl, rfl, hlive⟩
  | settled hsettled done =>
    rcases done with rfl | ⟨_, hquiet⟩
    · exact absurd trivial hloud
    · exact absurd hquiet hloud
  | skipped => exact absurd trivial hloud

end CallState

variable {env : ToolEnv} {b b' : Batch} {i : Nat}

theorem BatchInv.permits (hb : BatchInv b) (n : Nat) : BatchInv { b with permits := n } :=
  ⟨hb.calls, hb.phase, hb.closing⟩

/-- The one call that a move of a task is about. -/
theorem task_move (hb : BatchInv b) (hthere : b.tasks i ≠ .absent) {point : TaskPoint}
    (hview : ∀ call, b.calls[i]? = some call →
      CallState call b.aborted { b.view i with task := point }) :
    BatchInv (b.setTask i point) := by
  obtain ⟨call, hcall, _⟩ := hb.calls.mayRun hthere
  have hlt : i < b.calls.length := (List.getElem?_eq_some_iff.mp hcall).1
  refine ⟨?_, ?_, hb.closing⟩
  · refine hb.calls.change rfl rfl (fun j hj => Batch.view_setTask_ne hj) hlt ?_
    intro call hcall
    rw [Batch.view_setTask_self]
    exact hview call hcall
  · refine hb.phase.task_move hthere rfl rfl rfl rfl rfl rfl (fun _ h => h) ?_
    intro j hj
    have hne : j ≠ i := fun heq => hthere (heq ▸ hj)
    rw [← hj]
    exact Function.update_of_ne hne _ _

/-- The same, with an update. -/
theorem task_tell (hb : BatchInv b) (hthere : b.tasks i ≠ .absent) {point : TaskPoint} {u : Update}
    (hview : ∀ call, b.calls[i]? = some call →
      CallState call b.aborted
        { b.view i with task := point, updates := (b.view i).updates ++ [u] }) :
    BatchInv ((b.setTask i point).emit i u) := by
  obtain ⟨call, hcall, _⟩ := hb.calls.mayRun hthere
  have hlt : i < b.calls.length := (List.getElem?_eq_some_iff.mp hcall).1
  refine ⟨?_, ?_, hb.closing⟩
  · refine hb.calls.change rfl rfl ?_ hlt ?_
    · intro j hj
      rw [Batch.view_emit_ne hj, Batch.view_setTask_ne hj]
    · intro call hcall
      rw [Batch.view_emit_self, Batch.view_setTask_self]
      exact hview call hcall
  · refine hb.phase.task_move hthere rfl rfl rfl rfl rfl rfl ?_ ?_
    · intro j hne
      by_cases hj : j = i
      · rw [hj, Batch.updatesOf_emit_self]
        exact List.append_ne_nil_of_right_ne_nil _ (List.cons_ne_nil _ _)
      · rw [Batch.updatesOf_emit_ne hj]
        exact hne
    · intro j hj
      have hne : j ≠ i := fun heq => hthere (heq ▸ hj)
      rw [← hj]
      exact Function.update_of_ne hne _ _

theorem inv_acquire (hb : BatchInv b) (h : (batch env).step b (.acquire i) = some b') :
    BatchInv b' := by
  simp only [batch] at h
  split at h
  · rename_i htask
    have hthere : b.tasks i ≠ .absent := by rw [htask]; nofun
    have hquiet : (b.view i).task.Quiet := by
      show (b.tasks i).Quiet
      rw [htask]
      trivial
    split at h
    · cases h
      exact task_move hb hthere fun call hcall =>
        (hb.calls.1 i call hcall).quiet_move hthere hquiet trivial
    rename_i hopen
    split at h
    · cases h
      refine BatchInv.permits (task_tell hb hthere fun call hcall => ?_) _
      -- a semaphore that is open is one of a batch that is not aborted
      have hlive : b.aborted = false := by
        cases habort : b.aborted with
        | false => rfl
        | true => exact absurd (hb.closing (.inr habort)) hopen
      have hstate := hb.calls.1 i call hcall
      rw [hlive] at hstate ⊢
      obtain ⟨hopened, hnone, hrun⟩ := hstate.opened_of_quiet hthere hquiet
      dsimp only
      rw [hnone, hrun]
      exact .opened hopened.inProgress trivial
    · cases h
  · cases h

theorem inv_answer {outcome : InvokeOutcome} (hb : BatchInv b)
    (h : (batch env).step b (.answer i outcome) = some b') : BatchInv b' := by
  simp only [batch] at h
  split at h
  · rename_i call htask hcall
    split at h
    · cases h
      have hthere : b.tasks i ≠ .absent := by rw [htask]; nofun
      refine task_move hb hthere fun call hcall =>
        (hb.calls.1 i call hcall).quiet_move hthere ?_ trivial
      show (b.tasks i).Quiet
      rw [htask]
      trivial
    · cases h
  · cases h

theorem inv_panic (hb : BatchInv b) (h : (batch env).step b (.panic i) = some b') :
    BatchInv b' := by
  simp only [batch] at h
  split at h
  · rename_i htask
    cases h
    have hthere : b.tasks i ≠ .absent := by rw [htask]; nofun
    have hquiet : (b.view i).task.Quiet := by
      show (b.tasks i).Quiet
      rw [htask]
      trivial
    have hmoved : BatchInv (b.setTask i (.ended none)) :=
      task_move hb hthere fun call hcall =>
        (hb.calls.1 i call hcall).quiet_move hthere hquiet trivial
    exact hmoved.permits _
  · cases h

/-- A task of a batch that is not aborted tells the client. -/
theorem inv_emit (hb : BatchInv b) (hlive : b.aborted = false)
    (h : (batch env).step b (.emit i) = some b') : BatchInv b' := by
  simp only [batch] at h
  split at h
  · rename_i outcome htask
    cases h
    have hthere : b.tasks i ≠ .absent := by rw [htask]; nofun
    refine task_tell hb hthere fun call hcall => ?_
    have hquiet : (b.view i).task.Quiet := by
      show (b.tasks i).Quiet
      rw [htask]
      trivial
    have hstate := hb.calls.1 i call hcall
    rw [hlive] at hstate ⊢
    obtain ⟨hopened, hnone, hrun⟩ := hstate.opened_of_quiet hthere hquiet
    dsimp only
    rw [hnone, hrun]
    exact .told ⟨_, hopened, rfl⟩ (.inl rfl) rfl
  · cases h

theorem inv_finish (hb : BatchInv b) (h : (batch env).step b (.finish i) = some b') :
    BatchInv b' := by
  simp only [batch] at h
  split at h
  · rename_i outcome htask
    cases h
    have hthere : b.tasks i ≠ .absent := by rw [htask]; nofun
    refine BatchInv.permits (task_move hb hthere fun call hcall => ?_) _
    obtain ⟨hsettled, hnone, hrun, hlive⟩ := (hb.calls.1 i call hcall).told_of_loud (.inl htask)
    dsimp only
    rw [hnone, hrun]
    exact .told hsettled (.inr rfl) hlive
  · cases h

/-- A task that is aborted has not told the client. -/
theorem inv_abort (hb : BatchInv b) (h : (batch env).step b (.abort i) = some b') :
    BatchInv b' := by
  simp only [batch] at h
  split at h
  · cases h
  · cases h
  · rename_i hthere hended
    split at h
    · rename_i habort
      cases h
      refine task_move hb hthere fun call hcall => ?_
      have hstate := hb.calls.1 i call hcall
      refine hstate.quiet_move hthere ?_ trivial
      show (b.tasks i).Quiet
      cases htask : b.tasks i with
      | emitted outcome =>
        obtain ⟨_, _, _, hlive⟩ := hstate.told_of_loud (.inl htask)
        rw [habort] at hlive
        cases hlive
      | ended outcome => exact absurd htask (hended outcome)
      | absent => trivial
      | waiting => trivial
      | running => trivial
      | answering outcome => trivial
    · cases h

/-! ## The caller -/

theorem inv_init (calls : List ToolCall) (cancel : Bool) :
    BatchInv (Batch.init env calls cancel) := by
  have hsilent : ∀ i, (Batch.init env calls cancel).view i = .silent := fun _ => rfl
  refine ⟨⟨?_, ?_⟩, ?_, ?_⟩
  · intro i call _
    rw [hsilent]
    exact .silent
  · intro i _
    exact hsilent i
  · exact ⟨List.nodup_nil, nofun, fun i _ => hsilent i, fun _ => rfl, nofun, nofun, rfl⟩
  · intro h
    rcases h with h | h
    · cases h
    · cases h

/-- The next call of the preflight, whatever becomes of it. -/
theorem inv_announce {idx : Nat} (hb : BatchInv b) (hphase : b.phase = .preflight idx)
    (hlt : idx < b.calls.length) (hcalls : b'.calls = b.calls) (haborted : b'.aborted = b.aborted)
    (hnext : b'.phase = .preflight (idx + 1)) (htasks : b'.tasks = b.tasks)
    (hrunnable : b'.runnable = b.runnable ∨
      (b'.runnable = b.runnable ++ [idx] ∧ b'.results = b.results))
    (hresults : ∀ j, j ≠ idx → b'.results j = b.results j)
    (hother : ∀ j, j ≠ idx → b'.updatesOf j = b.updatesOf j) (htold : b'.updatesOf idx ≠ [])
    (hthis : ∀ call, b.calls[idx]? = some call → CallState call b.aborted (b'.view idx)) :
    BatchInv b' := by
  have hinv := hb.phase
  unfold PhaseInv at hinv
  rw [hphase] at hinv
  obtain ⟨hnodup, hbelow, habove, habsent, hempty, hannounced, hlive⟩ := hinv
  have hmem : ∀ j, j ≠ idx → (j ∈ b'.runnable ↔ j ∈ b.runnable) := by
    intro j hj
    rcases hrunnable with h | ⟨h, _⟩
    · rw [h]
    · rw [h, List.mem_append, List.mem_singleton]
      exact or_iff_left hj
  have hview : ∀ j, j ≠ idx → b'.view j = b.view j := by
    intro j hj
    rw [Batch.view, Batch.view, hother j hj, hresults j hj, htasks,
      decide_eq_decide.mpr (hmem j hj)]
  have hnew : idx ∉ b.runnable := fun h => absurd (hbelow idx h) (Nat.lt_irrefl idx)
  refine ⟨hb.calls.change hcalls haborted hview hlt hthis, ?_, ?_⟩
  · unfold PhaseInv
    rw [hnext]
    refine ⟨?_, ?_, ?_, ?_, ?_, ?_, ?_⟩
    · rcases hrunnable with h | ⟨h, _⟩
      · rw [h]
        exact hnodup
      · rw [h]
        exact hnodup.append (List.nodup_singleton idx) (List.disjoint_singleton.mpr hnew)
    · intro j hj
      by_cases hji : j = idx
      · rw [hji]
        exact Nat.lt_succ_self idx
      · exact Nat.lt_succ_of_lt (hbelow j ((hmem j hji).mp hj))
    · intro j hj
      have hji : j ≠ idx := by omega
      rw [hview j hji]
      exact habove j (by omega)
    · rw [htasks]
      exact habsent
    · intro j hj
      rcases hrunnable with h | ⟨h, hsame⟩
      · rw [h] at hj
        rw [hresults j (fun heq => hnew (heq ▸ hj))]
        exact hempty j hj
      rw [hsame]
      rw [h] at hj
      rcases List.mem_append.mp hj with hj | hj
      · exact hempty j hj
      · rw [List.mem_singleton.mp hj]
        exact congrArg CallView.result (habove idx (Nat.le_refl idx))
    · intro j hj hlen
      by_cases hji : j = idx
      · rw [hji]
        exact htold
      · rw [hother j hji]
        rw [hcalls] at hlen
        exact hannounced j (by omega) hlen
    · rw [haborted]
      exact hlive
  · intro h
    rcases h with h | h
    · rw [hnext] at h
      cases h
    · rw [haborted, hlive] at h
      cases h

/-- What is sent about the call where each of some calls is told the same. -/
theorem updatesOf_map {l : List Nat} (hnodup : l.Nodup) (u : Update) (j : Nat) :
    ((l.map fun i => (i, u)).filter fun v => v.1 = j).map Prod.snd = if j ∈ l then [u] else [] := by
  induction l with
  | nil => rfl
  | cons i l ih =>
    obtain ⟨hi, hl⟩ := List.nodup_cons.mp hnodup
    rw [List.map_cons, List.filter_cons]
    by_cases hij : i = j
    · rw [if_pos (by simpa using hij), List.map_cons, ih hl, if_neg (hij ▸ hi),
        if_pos (hij ▸ List.mem_cons_self)]
    · rw [if_neg (by simpa using hij), ih hl]
      simp [Ne.symm hij]

theorem inv_cancelPreflight {idx : Nat} (hb : BatchInv b) (hphase : b.phase = .preflight idx) :
    BatchInv (b.cancelPreflight idx).appendResults := by
  have hinv := hb.phase
  unfold PhaseInv at hinv
  rw [hphase] at hinv
  obtain ⟨_, hbelow, habove, habsent, _, hannounced, hlive⟩ := hinv
  -- exactly the announced calls without a result are told
  have hupdates : ∀ j, (b.cancelPreflight idx).appendResults.updatesOf j = b.updatesOf j ++
      if j < b.calls.length ∧ b.results j = none ∧ j < idx then [.failed "cancelled"] else [] := by
    intro j
    show (Batch.updatesOf { b with updates := b.updates ++ _ } j) = _
    rw [Batch.updatesOf_append, updatesOf_map (List.nodup_range.filter _)]
    simp [List.mem_filter, List.mem_range, Option.isNone_iff_eq_none]
  have hresult : ∀ j call, b.calls[j]? = some call → (b.cancelPreflight idx).results j =
      some ((b.results j).getD (syntheticToolResult call "cancelled")) := by
    intro j call hcall
    rw [Batch.cancelPreflight]
    dsimp only
    rw [hcall]
    cases b.results j with
    | none => rfl
    | some r => rfl
  have hview : ∀ j, (b.cancelPreflight idx).appendResults.view j =
      ⟨(b.cancelPreflight idx).appendResults.updatesOf j,
      (b.cancelPreflight idx).results j, b.tasks j, decide (j ∈ b.runnable)⟩ := fun _ => rfl
  refine ⟨⟨?_, ?_⟩, ?_, ?_⟩
  · intro j call hcall
    have hlt : j < b.calls.length := (List.getElem?_eq_some_iff.mp hcall).1
    show CallState call b.aborted _
    rw [hview, hupdates, hresult j call hcall, habsent j]
    by_cases hj : idx ≤ j
    · -- it was not announced
      have hsilent := habove j hj
      rw [show b.updatesOf j = [] from congrArg CallView.updates hsilent,
        show b.results j = none from congrArg CallView.result hsilent,
        show decide (j ∈ b.runnable) = false from congrArg CallView.mayRun hsilent,
          if_neg (fun h => absurd h.2.2 (by omega))]
      exact .skipped
    · have hstate := hb.calls.1 j call hcall
      have htask : (b.view j).task = .absent := habsent j
      have hsome := hannounced j (by omega) hlt
      generalize hv : b.view j = v at hstate htask
      have hu : b.updatesOf j = v.updates := congrArg CallView.updates hv
      have hr : b.results j = v.result := congrArg CallView.result hv
      have hm : decide (j ∈ b.runnable) = v.mayRun := congrArg CallView.mayRun hv
      rw [hu, hr, hm]
      cases hstate with
      | silent => exact absurd hu hsome
      | opened hopen _ =>
        rw [if_pos ⟨hlt, rfl, by omega⟩]
        show CallState call b.aborted ⟨_, some (outcomeToResult call (.failed "cancelled")), _, _⟩
        exact .settled ⟨_, hopen, rfl⟩ (.inl rfl)
      | told hsettled here _ =>
        rcases here with h | h
        · cases h.symm.trans htask
        · cases h.symm.trans htask
      | settled hsettled _ =>
        rw [if_neg (fun h => nomatch h.2.1), List.append_nil]
        exact .settled hsettled (.inl rfl)
      | skipped => exact absurd hu hsome
  · intro j hj
    have hsilent := hb.calls.2 j hj
    have hnone : b.calls[j]? = none := List.getElem?_eq_none hj
    have hresults : (b.cancelPreflight idx).results j = none := by
      rw [Batch.cancelPreflight]
      dsimp only
      rw [hnone, show b.results j = none from congrArg CallView.result hsilent]
    have hr : b.results j = none := congrArg CallView.result hsilent
    rw [hview, hupdates, hresults, if_neg (fun h => absurd h.1 (Nat.not_lt_of_le hj)),
      List.append_nil, ← hsilent, Batch.view, hr]
  · refine ⟨?_, .inr fun j _ => habsent j, rfl⟩
    intro j hj
    have hcall := List.getElem?_eq_getElem hj
    show (b.cancelPreflight idx).results j ≠ none
    rw [hresult j _ hcall]
    nofun
  · intro h
    rcases h with h | h
    · cases h
    · rw [show (b.cancelPreflight idx).appendResults.aborted = b.aborted from rfl, hlive] at h
      cases h

theorem inv_preflight {idx : Nat} (skill : ToolResult) (hb : BatchInv b)
    (hphase : b.phase = .preflight idx) : BatchInv (b.preflight env idx skill) := by
  have hinv := hb.phase
  unfold PhaseInv at hinv
  rw [hphase] at hinv
  obtain ⟨hnodup, hbelow, habove, habsent, hempty, hannounced, hlive⟩ := hinv
  have hsilent := habove idx (Nat.le_refl idx)
  have hu : b.updatesOf idx = [] := congrArg CallView.updates hsilent
  have hnew : idx ∉ b.runnable := fun h => absurd (hbelow idx h) (Nat.lt_irrefl idx)
  unfold Batch.preflight
  cases hcall : b.calls[idx]? with
  | none =>
    -- every call was announced
    have hlen : b.calls.length ≤ idx := List.getElem?_eq_none_iff.mp hcall
    refine ⟨hb.calls, ⟨?_, hnodup, ?_, hlive⟩, ?_⟩
    · intro j hj
      exact hannounced j (Nat.lt_of_lt_of_le hj hlen) hj
    · intro j hj
      exact ⟨hj, habsent j, hempty j hj⟩
    · intro h
      rcases h with h | h
      · cases h
      · rw [hlive] at h
        cases h
  | some call =>
    have hlt : idx < b.calls.length := (List.getElem?_eq_some_iff.mp hcall).1
    dsimp only
    split
    · exact inv_cancelPreflight hb hphase
    split
    · -- a skill is loaded here and now
      refine inv_announce hb hphase hlt rfl rfl rfl rfl (.inl rfl) ?_ ?_ ?_ ?_
      · intro j hj
        exact Function.update_of_ne hj _ _
      · intro j hj
        show ((((b.emit idx .pending).emit idx .inProgress).emit idx (.completed _))).updatesOf j =
          _
        rw [Batch.updatesOf_emit_ne hj, Batch.updatesOf_emit_ne hj, Batch.updatesOf_emit_ne hj]
      · show ((((b.emit idx .pending).emit idx .inProgress).emit idx (.completed _))).updatesOf idx
          ≠ []
        rw [Batch.updatesOf_emit_self]
        exact List.append_ne_nil_of_right_ne_nil _ (List.cons_ne_nil _ _)
      · intro call' hcall'
        rw [hcall] at hcall'
        cases hcall'
        show CallState call b.aborted
          (((((b.emit idx .pending).emit idx .inProgress).emit idx (.completed _)).setResult idx
          _).view idx)
        rw [Batch.view_setResult_self, Batch.view_emit_self, Batch.view_emit_self,
          Batch.view_emit_self, hsilent]
        show CallState call b.aborted ⟨_,
          some (outcomeToResult call (.done { skill with providerId := call.providerId })), _, _⟩
        exact .settled ⟨_, opened_pending.inProgress, rfl⟩ (.inl rfl)
    · split
      · -- an unknown tool fails at once
        refine inv_announce hb hphase hlt rfl rfl rfl rfl (.inl rfl) ?_ ?_ ?_ ?_
        · intro j hj
          exact Function.update_of_ne hj _ _
        · intro j hj
          show ((b.emit idx .pending).emit idx (.failed _)).updatesOf j = _
          rw [Batch.updatesOf_emit_ne hj, Batch.updatesOf_emit_ne hj]
        · show ((b.emit idx .pending).emit idx (.failed _)).updatesOf idx ≠ []
          rw [Batch.updatesOf_emit_self]
          exact List.append_ne_nil_of_right_ne_nil _ (List.cons_ne_nil _ _)
        · intro call' hcall'
          rw [hcall] at hcall'
          cases hcall'
          show CallState call b.aborted
            ((((b.emit idx .pending).emit idx (.failed _)).setResult idx _).view idx)
          rw [Batch.view_setResult_self, Batch.view_emit_self, Batch.view_emit_self, hsilent]
          show CallState call b.aborted ⟨_,
            some (outcomeToResult call (.failed ("unknown tool: " ++ call.name))), _, _⟩
          exact .settled ⟨_, opened_pending, rfl⟩ (.inl rfl)
      · refine inv_announce hb hphase hlt rfl rfl rfl rfl (.inr ⟨rfl, rfl⟩)
          (fun j _ => rfl) ?_ ?_ ?_
        · intro j hj
          show (b.emit idx .pending).updatesOf j = _
          rw [Batch.updatesOf_emit_ne hj]
        · show (b.emit idx .pending).updatesOf idx ≠ []
          rw [Batch.updatesOf_emit_self]
          exact List.append_ne_nil_of_right_ne_nil _ (List.cons_ne_nil _ _)
        · intro call' _
          show CallState call' b.aborted ⟨(b.emit idx .pending).updatesOf idx, b.results idx,
            b.tasks idx, decide (idx ∈ b.runnable ++ [idx])⟩
          rw [Batch.updatesOf_emit_self, hu,
            show b.results idx = none from congrArg CallView.result hsilent, habsent idx,
            decide_eq_true (List.mem_append_right _ List.mem_cons_self)]
          exact .opened opened_pending trivial

/-- The next task is spawned. -/
theorem inv_spawn {rest : List Nat} (hb : BatchInv b) (hphase : b.phase = .spawning (i :: rest)) :
    BatchInv { b.setTask i .waiting with phase := .spawning rest } := by
  have hinv := hb.phase
  unfold PhaseInv at hinv
  rw [hphase] at hinv
  obtain ⟨hannounced, hnodup, hrest, hlive⟩ := hinv
  obtain ⟨hrun, habsent, hnone⟩ := hrest i List.mem_cons_self
  have hlt : i < b.calls.length := by
    by_contra hge
    have hview := hb.calls.2 i (Nat.le_of_not_lt hge)
    exact absurd (congrArg CallView.mayRun hview) (by rw [Batch.view]; simp [hrun, CallView.silent])
  have hview : ∀ j, ({ b.setTask i .waiting with phase := .spawning rest } : Batch).view j =
      (b.setTask i .waiting).view j :=
    fun _ => rfl
  refine ⟨?_, ⟨hannounced, hnodup.of_cons, ?_, hlive⟩, ?_⟩
  · refine hb.calls.change rfl rfl ?_ hlt ?_
    · intro j hj
      rw [hview, Batch.view_setTask_ne hj]
    · intro call hcall
      rw [hview, Batch.view_setTask_self]
      have hstate := hb.calls.1 i call hcall
      have htask : (b.view i).task = .absent := habsent
      have hres : (b.view i).result = none := hnone
      have hmay : (b.view i).mayRun = true := decide_eq_true hrun
      generalize b.view i = v at hstate htask hres hmay
      cases hstate with
      | silent => cases hmay
      | opened hopen _ => exact .opened hopen trivial
      | told hsettled here _ =>
        rcases here with h | h
        · cases h.symm.trans htask
        · cases h.symm.trans htask
      | settled hsettled _ => cases hres
      | skipped => cases hres
  · intro j hj
    have hne : j ≠ i := fun heq => (List.nodup_cons.mp hnodup).1 (heq ▸ hj)
    obtain ⟨hrun', habsent', hnone'⟩ := hrest j (List.mem_cons_of_mem _ hj)
    refine ⟨hrun', ?_, hnone'⟩
    rw [← habsent']
    exact Function.update_of_ne hne _ _
  · intro h
    rcases h with h | h
    · cases h
    · rw [show ({ b.setTask i .waiting with phase := .spawning rest } : Batch).aborted =
        b.aborted from rfl, hlive] at h
      cases h

/-- A slot that is empty when the caller fills is one of a call that is open. -/
theorem inv_fill {rest : List Nat} (hb : BatchInv b) (hphase : b.phase = .filling (i :: rest)) :
    BatchInv (b.fill i rest) := by
  have hinv := hb.phase
  unfold PhaseInv at hinv
  rw [hphase] at hinv
  obtain ⟨hannounced, hfilled, hover⟩ := hinv
  have hclosing : ∀ n : Batch, n.phase = .filling rest → n.aborted = b.aborted →
      n.closed = b.closed → (n.phase = .draining ∨ n.aborted = true → n.closed = true) := by
    intro n hn habort hclosed h
    rcases h with h | h
    · rw [hn] at h
      cases h
    · rw [hclosed]
      exact hb.closing (.inr (habort ▸ h))
  unfold Batch.fill
  split
  · rename_i call hnone hcall
    have hlt : i < b.calls.length := (List.getElem?_eq_some_iff.mp hcall).1
    -- a call without a result is told once that it was cancelled
    have hview : ∀ j, ({ (b.setResult i (syntheticToolResult call "cancelled")).emit i
        (.failed "cancelled") with
        phase := .filling rest } : Batch).view j =
        ((b.setResult i (syntheticToolResult call "cancelled")).emit i (.failed "cancelled")).view
          j := fun _ => rfl
    refine ⟨?_, ⟨?_, ?_, hover⟩, hclosing _ rfl rfl rfl⟩
    · refine hb.calls.change rfl rfl ?_ hlt ?_
      · intro j hj
        rw [hview, Batch.view_emit_ne hj, Batch.view_setResult_ne hj]
      · intro call' hcall'
        rw [hcall] at hcall'
        cases hcall'
        rw [hview, Batch.view_emit_self, Batch.view_setResult_self]
        have hstate := hb.calls.1 i call hcall
        have hsome : (b.view i).updates ≠ [] := hannounced i hlt
        have hres : (b.view i).result = none := hnone
        have hrun : (b.view i).mayRun = true → b.aborted = true ∨ (b.view i).task = .absent := by
          intro hmay
          rcases hover with habort | habsent
          · exact .inl habort
          · exact .inr (habsent i (of_decide_eq_true hmay))
        generalize b.view i = v at hstate hsome hres hrun
        cases hstate with
        | silent => exact absurd rfl hsome
        | opened hopen hquiet =>
          show CallState call b.aborted ⟨_, some (outcomeToResult call (.failed "cancelled")), _, _⟩
          refine .settled ⟨_, hopen, rfl⟩ ?_
          rcases hrun rfl with habort | habsent
          · exact .inr ⟨habort, hquiet⟩
          · exact .inl habsent
        | told hsettled here hlive =>
          rcases hrun rfl with habort | habsent
          · rw [hlive] at habort
            cases habort
          · rcases here with h | h
            · cases h.symm.trans habsent
            · cases h.symm.trans habsent
        | settled hsettled _ => cases hres
        | skipped => cases hres
    · intro j hj
      have hold := hannounced j hj
      by_cases hji : j = i
      · rw [hji]
        show ((b.setResult i _).emit i (.failed "cancelled")).updatesOf i ≠ []
        rw [Batch.updatesOf_emit_self]
        exact List.append_ne_nil_of_right_ne_nil _ (List.cons_ne_nil _ _)
      · show ((b.setResult i _).emit i (.failed "cancelled")).updatesOf j ≠ []
        rw [Batch.updatesOf_emit_ne hji]
        exact hold
    · intro j hj hout
      show Function.update b.results i _ j ≠ none
      by_cases hji : j = i
      · rw [hji, Function.update_self]
        nofun
      rw [Function.update_of_ne hji]
      refine hfilled j hj ?_
      intro hmem
      rcases List.mem_cons.mp hmem with h | h
      · exact hji h
      · exact hout h
  · rename_i hother
    -- the call has a result or is none: nothing is said
    refine ⟨hb.calls, ⟨hannounced, ?_, hover⟩, hclosing _ rfl rfl rfl⟩
    intro j hj hout
    by_cases hji : j = i
    · intro hnone
      rw [hji] at hnone hj
      by_cases hlt : i < b.calls.length
      · exact hother _ hnone (List.getElem?_eq_getElem hlt)
      · have hview := hb.calls.2 i (Nat.le_of_not_lt hlt)
        exact absurd (congrArg CallView.mayRun hview)
          (by rw [Batch.view]; simp [hj, CallView.silent])
    · refine hfilled j hj ?_
      intro hmem
      rcases List.mem_cons.mp hmem with h | h
      · exact hji h
      · exact hout h

/-- When the last slot is filled every call has a result. -/
theorem inv_append (hb : BatchInv b) (hphase : b.phase = .filling []) :
    BatchInv b.appendResults := by
  have hinv := hb.phase
  unfold PhaseInv at hinv
  rw [hphase] at hinv
  obtain ⟨hannounced, hfilled, hover⟩ := hinv
  refine ⟨hb.calls, ⟨?_, hover, rfl⟩, ?_⟩
  · intro j hj hnone
    have hstate := hb.calls.1 j _ (List.getElem?_eq_getElem hj)
    have hsome : (b.view j).updates ≠ [] := hannounced j hj
    have hres : (b.view j).result = none := hnone
    have hrun : (b.view j).mayRun = true → False := fun hmay =>
      hfilled j (of_decide_eq_true hmay) nofun hnone
    generalize b.view j = v at hstate hsome hres hrun
    cases hstate with
    | silent => exact hsome rfl
    | opened hopen hquiet => exact hrun rfl
    | told hsettled here hlive => exact hrun rfl
    | settled hsettled _ => cases hres
    | skipped => cases hres
  · intro h
    rcases h with h | h
    · cases h
    · exact hb.closing (.inr h)

theorem inv_main {skill : ToolResult} (hb : BatchInv b)
    (h : (batch env).step b (.main skill) = some b') : BatchInv b' := by
  have h : b.main env skill = some b' := h
  unfold Batch.main at h
  split at h
  · rename_i idx hphase
    cases h
    exact inv_preflight skill hb hphase
  · rename_i hphase
    cases h
    have hinv := hb.phase
    unfold PhaseInv at hinv
    rw [hphase] at hinv
    refine ⟨hb.calls, ⟨hinv.1, hinv.2.2.2⟩, ?_⟩
    intro h
    rcases h with h | h
    · cases h
    · exact hb.closing (.inr h)
  · rename_i i rest hphase
    cases h
    exact inv_spawn hb hphase
  · rename_i hphase
    have hinv := hb.phase
    unfold PhaseInv at hinv
    rw [hphase] at hinv
    split at h
    · cases h
      exact ⟨hb.calls, hinv, fun _ => rfl⟩
    cases h
    refine ⟨hb.calls, hinv, ?_⟩
    intro h
    rcases h with h | h
    · cases h
    · exact hb.closing (.inr h)
  · rename_i hphase
    cases h
    exact inv_append hb hphase
  · rename_i i rest hphase
    cases h
    exact inv_fill hb hphase
  · cases h

theorem inv_notice (hb : BatchInv b) (h : (batch env).step b .notice = some b') : BatchInv b' := by
  simp only [batch] at h
  split at h
  · rename_i hphase
    cases h
    have hinv := hb.phase
    unfold PhaseInv at hinv
    rw [hphase] at hinv
    exact ⟨hb.calls, hinv, fun _ => rfl⟩
  · cases h

/-- A task that has ended is joined: its result is the one that the client was told about. -/
theorem inv_join (hb : BatchInv b) (h : (batch env).step b (.join i) = some b') : BatchInv b' := by
  have h : b.join i = some b' := h
  unfold Batch.join at h
  split at h
  · rename_i hphase
    have hlive : Announced b ∧ b.aborted = false := by
      have hinv := hb.phase
      unfold PhaseInv at hinv
      rcases hphase with hp | hp
      · rw [hp] at hinv
        exact hinv
      · rw [hp] at hinv
        exact hinv
    have hphase' : ∀ n : Batch, n.phase = b.phase → n.calls = b.calls → n.updates = b.updates →
        n.aborted = b.aborted → PhaseInv n := by
      intro n hn hcalls hupdates haborted
      have ha : Announced n := by
        intro j hj
        rw [Batch.updatesOf, hupdates]
        rw [hcalls] at hj
        exact hlive.1 j hj
      have hl : n.aborted = false := by rw [haborted, hlive.2]
      unfold PhaseInv
      rw [hn]
      rcases hphase with hp | hp
      · rw [hp]
        exact ⟨ha, hl⟩
      · rw [hp]
        exact ⟨ha, hl⟩
    split at h
    · rename_i outcome call htask hcall
      have hlt : i < b.calls.length := (List.getElem?_eq_some_iff.mp hcall).1
      have hstate := hb.calls.1 i call hcall
      obtain ⟨hsettled, hnone, hrun, _⟩ := hstate.told_of_loud (.inr htask)
      have hempty : b.results i = none := hnone
      rw [if_neg (by rw [hempty]; exact fun h => nomatch h.2)] at h
      cases h
      refine ⟨?_, hphase' _ rfl rfl rfl rfl, hb.closing⟩
      refine hb.calls.change rfl rfl ?_ hlt ?_
      · intro j hj
        rw [Batch.view_setResult_ne hj, Batch.view_setTask_ne hj]
      · intro call' hcall'
        rw [hcall] at hcall'
        cases hcall'
        rw [Batch.view_setResult_self, Batch.view_setTask_self]
        exact .settled hsettled (.inl rfl)
    · rename_i _ htask
      cases h
      have hthere : b.tasks i ≠ .absent := by rw [htask]; nofun
      obtain ⟨call, hcall, _⟩ := hb.calls.mayRun hthere
      refine ⟨?_, hphase' _ rfl rfl rfl rfl, hb.closing⟩
      refine hb.calls.change rfl rfl (fun j hj =>
        Batch.view_setTask_ne hj) (List.getElem?_eq_some_iff.mp hcall).1 ?_
      intro call' hcall'
      rw [Batch.view_setTask_self]
      have hstate := hb.calls.1 i call' hcall'
      rw [hlive.2] at hstate ⊢
      have hquiet : (b.view i).task.Quiet := by
        show (b.tasks i).Quiet
        rw [htask]
        trivial
      obtain ⟨hopened, hnone, hrun⟩ := hstate.opened_of_quiet hthere hquiet
      dsimp only
      rw [hnone, hrun]
      exact .opened hopened trivial
    · cases h
  · cases h

theorem inv_allJoined (hb : BatchInv b) (h : (batch env).step b .allJoined = some b') :
    BatchInv b' := by
  simp only [batch] at h
  split at h
  · rename_i hguard
    obtain ⟨hphase, habsent⟩ := hguard
    cases h
    have hlive : Announced b ∧ b.aborted = false := by
      have hinv := hb.phase
      unfold PhaseInv at hinv
      rcases hphase with hp | hp
      · rw [hp] at hinv
        exact hinv
      · rw [hp] at hinv
        exact hinv
    refine ⟨hb.calls, ⟨hlive.1, fun j hj hout => absurd hj hout, .inr habsent⟩, ?_⟩
    intro h
    rcases h with h | h
    · cases h
    · exact hb.closing (.inr h)
  · cases h

/-- At the deadline no task has told the client. Those that have not are aborted. -/
theorem inv_deadline (hb : BatchInv b) (hquiet : ∀ i ∈ b.runnable, (b.tasks i).isEmitted = false)
    (h : (batch env).step b .deadline = some b') : BatchInv b' := by
  simp only [batch] at h
  split at h
  · rename_i hguard
    obtain ⟨hphase, _, hrunning⟩ := hguard
    cases h
    have hinv := hb.phase
    unfold PhaseInv at hinv
    rw [hphase] at hinv
    refine ⟨⟨?_, hb.calls.2⟩, ⟨hinv.1, fun j hj hout => absurd hj hout, .inl rfl⟩, fun _ =>
      hb.closing (.inl hphase)⟩
    intro j call hcall
    have hstate := hb.calls.1 j call hcall
    have hemitted : (b.view j).mayRun = true → (b.view j).task.isEmitted = false := fun hmay =>
      hquiet j (of_decide_eq_true hmay)
    have hended : (b.view j).mayRun = true → (b.view j).task.isEnded = false := fun hmay =>
      hrunning j (of_decide_eq_true hmay)
    rw [hinv.2] at hstate
    show CallState call true (b.view j)
    generalize b.view j = v at hstate hemitted hended
    cases hstate with
    | silent => exact .silent
    | opened hopen hq => exact .opened hopen hq
    | told hsettled here _ =>
      rcases here with h | h
      · have hnot := hemitted rfl
        dsimp only at hnot
        rw [h] at hnot
        cases hnot
      · have hnot := hended rfl
        dsimp only at hnot
        rw [h] at hnot
        cases hnot
    | settled hsettled done =>
      refine .settled hsettled ?_
      rcases done with h | ⟨h, _⟩
      · exact .inl h
      · cases h
    | skipped => exact .skipped
  · cases h

/-! ## Whole runs -/

/-- No task is past its terminal update when the drain times out, and none sends one after it was
aborted. -/
def Timely (b : Batch) : BatchMove → Prop
  | .deadline => ∀ i ∈ b.runnable, (b.tasks i).isEmitted = false
  | .emit _ => b.aborted = false
  | _ => True

instance (b : Batch) (move : BatchMove) : Decidable (Timely b move) :=
  match move with
  | .deadline => inferInstanceAs (Decidable (∀ i ∈ b.runnable, (b.tasks i).isEmitted = false))
  | .emit _ => inferInstanceAs (Decidable (b.aborted = false))
  | .cancel | .main _ | .notice | .join _ | .allJoined | .acquire _ | .answer _ _ | .panic
      _ | .finish _ | .abort _ =>
    isTrue trivial

theorem batchInv_step {move : BatchMove} (hb : BatchInv b) (htimely : Timely b move)
    (h : (batch env).step b move = some b') : BatchInv b' := by
  cases move with
  | cancel =>
    cases h
    exact ⟨hb.calls, hb.phase, hb.closing⟩
  | main skill => exact inv_main hb h
  | notice => exact inv_notice hb h
  | join i => exact inv_join hb h
  | allJoined => exact inv_allJoined hb h
  | deadline => exact inv_deadline hb htimely h
  | acquire i => exact inv_acquire hb h
  | answer i outcome => exact inv_answer hb h
  | panic i => exact inv_panic hb h
  | emit i => exact inv_emit hb htimely h
  | finish i => exact inv_finish hb h
  | abort i => exact inv_abort hb h

theorem calls_step {move : BatchMove} (h : (batch env).step b move = some b') :
    b'.calls = b.calls := by
  have hpre : ∀ idx skill, (b.preflight env idx skill).calls = b.calls := by
    intro idx skill
    unfold Batch.preflight
    split
    · rfl
    dsimp only
    split
    · rfl
    split
    · rfl
    · split
      · rfl
      · rfl
  cases move with
  | main skill =>
    have h : b.main env skill = some b' := h
    unfold Batch.main at h
    split at h
    · cases h
      exact hpre _ _
    · cases h
      rfl
    · cases h
      rfl
    · cases h
      split
      · rfl
      · rfl
    · cases h
      rfl
    · cases h
      unfold Batch.fill
      split
      · rfl
      · rfl
    · cases h
  | join i =>
    have h : b.join i = some b' := h
    unfold Batch.join at h
    repeat' split at h
    all_goals first
      | cases h; rfl
      | cases h
  | cancel =>
    cases h
    rfl
  | notice | allJoined | deadline | panic i | emit i | finish i =>
    simp only [batch] at h
    split at h
    · cases h
      rfl
    · cases h
  | acquire i | answer i outcome | abort i =>
    simp only [batch] at h
    repeat' split at h
    all_goals first
      | cases h; rfl
      | cases h

/-- What the client is told about the calls of a batch. -/
structure OneUpdate (b : Batch) : Prop where
  /-- Nothing about a call that is not announced; an announced call has at most one terminal update,
  the last. -/
  shape : ∀ i, b.updatesOf i = [] ∨
    (i < b.calls.length ∧ (Opened (b.updatesOf i) ∨ ∃ outcome, Settled (b.updatesOf i) outcome))
  /-- When the batch has returned, an announced call has one terminal update, and the result in the
  history is of it. -/
  terminal : b.phase = .returned → ∀ i call, b.calls[i]? = some call → b.updatesOf i ≠ [] →
    ∃ outcome, Settled (b.updatesOf i) outcome ∧
      b.appended[i]? = some (Batch.reflected (outcomeToResult call outcome))

theorem oneUpdate_of_inv (hb : BatchInv b) : OneUpdate b := by
  refine ⟨?_, ?_⟩
  · intro i
    by_cases hlt : i < b.calls.length
    · have hstate := hb.calls.1 i _ (List.getElem?_eq_getElem hlt)
      show (b.view i).updates = [] ∨ _ ∧
        (Opened (b.view i).updates ∨ ∃ outcome, Settled (b.view i).updates outcome)
      generalize b.view i = v at hstate
      cases hstate with
      | silent => exact .inl rfl
      | opened hopen _ => exact .inr ⟨hlt, .inl hopen⟩
      | told hsettled _ _ => exact .inr ⟨hlt, .inr ⟨_, hsettled⟩⟩
      | settled hsettled _ => exact .inr ⟨hlt, .inr ⟨_, hsettled⟩⟩
      | skipped => exact .inl rfl
    · exact .inl (congrArg CallView.updates (hb.calls.2 i (Nat.le_of_not_lt hlt)))
  · intro hphase i call hcall hsome
    have hinv := hb.phase
    unfold PhaseInv at hinv
    rw [hphase] at hinv
    obtain ⟨hfilled, _, happended⟩ := hinv
    have hlt : i < b.calls.length := (List.getElem?_eq_some_iff.mp hcall).1
    have hstate := hb.calls.1 i call hcall
    have hres : (b.view i).result ≠ none := hfilled i hlt
    have hsome : (b.view i).updates ≠ [] := hsome
    have happend : b.appended[i]? =
        some (Batch.reflected ((b.view i).result.getD (Batch.missingResult call))) := by
      rw [happended, List.getElem?_mapIdx, hcall]
      rfl
    show ∃ outcome, Settled (b.view i).updates outcome ∧ _
    rw [happend]
    generalize b.view i = v at hstate hres hsome
    cases hstate with
    | silent => exact absurd rfl hres
    | opened _ _ => exact absurd rfl hres
    | told _ _ _ => exact absurd rfl hres
    | settled hsettled _ => exact ⟨_, hsettled, rfl⟩
    | skipped => exact absurd rfl hsome

/-- **Every announced call is told about once, unless the drain times out on a task that has told
the client.** -/
theorem one_update {calls : List ToolCall} {cancel : Bool} {moves : List BatchMove}
    (hrun : (batch env).run (Batch.init env calls cancel) moves = some b)
    (htimely : (batch env).Always Timely (Batch.init env calls cancel) moves) : OneUpdate b :=
  oneUpdate_of_inv (Machine.invariant (fun _ _ _ hb htimely h =>
    batchInv_step hb htimely h) (inv_init calls cancel) htimely hrun)

/-! ## At the deadline of the drain -/

def theEnv : ToolEnv := ⟨fun name => name == "shell", fun _ => false, 8⟩

def theCall : ToolCall := ⟨"call_1", "shell", .obj [], .obj []⟩

def theAnswer : ToolResult := ⟨"call_1", [.text "done"], false⟩

def theOther : ToolCall := ⟨"call_2", "shell", .obj [], .obj []⟩

/-- Of two calls the first answers; the second still runs when the session is cancelled and the
drain times out. -/
def answered : List BatchMove :=
  List.replicate 7 (.main theAnswer) ++
  [.acquire 0, .acquire 1, .answer 0 (.done theAnswer), .emit 0, .finish 0, .join 0, .cancel,
    .notice, .deadline,
   .main theAnswer, .main theAnswer, .abort 1, .main theAnswer]

/-- The call has told the client that it completed when the drain times out, and is then filled as
cancelled. -/
def toldTwice : List BatchMove :=
  [.main theAnswer, .main theAnswer, .main theAnswer, .main theAnswer, .main theAnswer, .acquire 0,
   .answer 0 (.done theAnswer), .cancel, .notice, .emit 0, .deadline, .main theAnswer,
     .main theAnswer]

/-- Of two calls one is answered and the other cancelled. -/
theorem one_update_answered :
    ∃ b, (batch theEnv).run (Batch.init theEnv [theCall, theOther] false) answered = some b
    ∧ b.updatesOf 0 = [.pending, .inProgress, .completed theAnswer]
    ∧ b.updatesOf 1 = [.pending, .inProgress, .failed "cancelled"] ∧ OneUpdate b := by
  have hrun : ((batch theEnv).run (Batch.init theEnv [theCall, theOther] false) answered).map
      (fun b => (b.updatesOf 0, b.updatesOf 1))
      = some ([.pending, .inProgress, .completed theAnswer],
        [.pending, .inProgress, .failed "cancelled"]) := by decide
  have htimely : (batch theEnv).Always Timely (Batch.init theEnv [theCall,
      theOther] false) answered := by decide
  obtain ⟨b, hb, hupdates⟩ := Option.map_eq_some_iff.mp hrun
  exact ⟨b, hb, congrArg Prod.fst hupdates, congrArg Prod.snd hupdates, one_update hb htimely⟩

/-- A call gets two terminal updates, and its result is of the second. -/
theorem told_twice :
    ¬ ∀ (env : ToolEnv) (calls : List ToolCall) (cancel : Bool) (moves : List BatchMove)
    (b : Batch), (batch env).run (Batch.init env calls cancel) moves = some b → OneUpdate b := by
  intro h
  have hend : ((batch theEnv).run (Batch.init theEnv [theCall] false) toldTwice).map
    (fun b => b.updatesOf 0)
      = some [.pending, .inProgress, .completed theAnswer, .failed "cancelled"] := by decide
  obtain ⟨b, hb, hupdates⟩ := Option.map_eq_some_iff.mp hend
  rcases (h theEnv [theCall] false toldTwice b hb).shape 0 with hnil |
    ⟨_, ⟨mid, heq, hmid⟩ | ⟨outcome, before, ⟨mid, hbefore, hmid⟩, heq⟩⟩
  · rw [hupdates] at hnil
    cases hnil
  · rw [hupdates] at heq
    cases heq
    exact absurd (hmid (.failed "cancelled") (by simp)) nofun
  · -- before the last update there is one that is not of progress
    rw [hupdates, hbefore, List.cons_append] at heq
    have htail : [Update.inProgress, .completed theAnswer] ++ [.failed "cancelled"] = mid ++
        [outcome.update] := (List.cons.inj heq).2
    have hmid' := (List.append_inj' htail rfl).1
    exact absurd (hmid (.completed theAnswer) (by rw [← hmid']; simp)) nofun

end Pkzz.Agent
