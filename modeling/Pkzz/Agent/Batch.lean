import Pkzz.Agent.History
import Pkzz.Lib.Machine

/-!
# A batch of tool calls

`execute_calls`, `append_results` and `execute_parallel` of `buzz-agent`'s `agent.rs`. The caller
announces the calls one by one, spawns a task for each that can run, and collects what they return;
the tasks take permits, call their tools and tell the client themselves. The cancel flag can go up
at any time.
-/

namespace Pkzz.Agent

open Pkzz.Lib

/-- The part of the tool registry and of the configuration that decides how a batch runs. -/
structure ToolEnv where
  has : String → Bool
  isHook : String → Bool
  maxParallelTools : Nat

def LOAD_SKILL_TOOL : String := "load_skill"

def ERROR_REFLECTION_SUFFIX : String :=
  "\n\n[Reflect] Before retrying, identify the cause and change your approach."

/-- Outcome of invoking a single tool. -/
inductive InvokeOutcome
  | done (result : ToolResult)
  | failed (msg : String)
  deriving DecidableEq

def syntheticToolResult (call : ToolCall) (msg : String) : ToolResult :=
  ⟨call.providerId, [.text msg], true⟩

def outcomeToResult (call : ToolCall) : InvokeOutcome → ToolResult
  | .done r => r
  | .failed m => syntheticToolResult call m

/-- An update of a call on the wire, which names the call by its provider id. -/
inductive Update
  | pending
  | inProgress
  | completed (result : ToolResult)
  | failed (err : String)
  deriving DecidableEq

/-- The terminal update of an outcome. -/
def InvokeOutcome.update : InvokeOutcome → Update
  | done r => .completed r
  | failed m => .failed m

inductive TaskPoint
  /-- Not spawned yet, or joined. -/
  | absent
  /-- Waits for a permit. -/
  | waiting
  | running
  /-- The outcome is there. The update is sent next. -/
  | answering (outcome : InvokeOutcome)
  /-- The update is sent. The task returns next. -/
  | emitted (outcome : InvokeOutcome)
  /-- Returned, or else panicked or aborted. -/
  | ended (outcome : Option InvokeOutcome)
  deriving DecidableEq

def TaskPoint.isEnded : TaskPoint → Bool
  | ended _ => true
  | _ => false

def TaskPoint.isEmitted : TaskPoint → Bool
  | emitted _ => true
  | _ => false

/-- Where the caller is. -/
inductive BatchPhase
  | preflight (idx : Nat)
  | spawning (rest : List Nat)
  /-- Before the first look at the cancel flag. -/
  | looking
  | joining
  | draining
  | filling (rest : List Nat)
  | returned
  deriving DecidableEq

structure Batch where
  calls : List ToolCall
  phase : BatchPhase
  results : Nat → Option ToolResult
  runnable : List Nat
  tasks : Nat → TaskPoint
  cancel : Bool
  /-- The semaphore. -/
  closed : Bool
  permits : Nat
  aborted : Bool
  /-- What is pushed to the history. -/
  appended : List ToolResult
  /-- What was sent, oldest first, with the index of the call. -/
  updates : List (Nat × Update)

namespace Batch

def init (env : ToolEnv) (calls : List ToolCall) (cancel : Bool) : Batch :=
  ⟨calls, .preflight 0, fun _ => none, [], fun _ => .absent, cancel, false,
    max env.maxParallelTools 1, false, [], []⟩

def emit (b : Batch) (i : Nat) (update : Update) : Batch :=
  { b with updates := b.updates ++ [(i, update)] }

def setResult (b : Batch) (i : Nat) (result : ToolResult) : Batch :=
  { b with results := Function.update b.results i (some result) }

def setTask (b : Batch) (i : Nat) (point : TaskPoint) : Batch :=
  { b with tasks := Function.update b.tasks i point }

/-- On tool error a reflection prompt is appended. -/
def reflected (result : ToolResult) : ToolResult :=
  if result.isError then
    { result with content := result.content ++ [.text ERROR_REFLECTION_SUFFIX] } else result

def missingResult (call : ToolCall) : ToolResult :=
  ⟨call.providerId, [.text "internal error: missing result"], true⟩

/-- `append_results`: one result for each call, in call order. -/
def appendResults (b : Batch) : Batch :=
  { b with
    phase := .returned
    appended := b.calls.mapIdx fun i call => reflected ((b.results i).getD (missingResult call)) }

/-- Cancelled before the call at `idx` was announced: every empty slot is filled, and the client is
told about the calls that were announced. -/
def cancelPreflight (b : Batch) (idx : Nat) : Batch :=
  { b with
    results := fun j =>
      match b.results j, b.calls[j]? with
      | none, some call => some (syntheticToolResult call "cancelled")
      | result, _ => result
    updates := b.updates ++
      (((List.range b.calls.length).filter fun j => (b.results j).isNone ∧ j < idx).map fun j =>
        (j, Update.failed "cancelled")) }

/-- One round of the preflight. `skill` is what `load_skill` would answer. -/
def preflight (b : Batch) (env : ToolEnv) (idx : Nat) (skill : ToolResult) : Batch :=
  match b.calls[idx]? with
  | none => { b with phase := .spawning b.runnable }
  | some call =>
    if b.cancel then (b.cancelPreflight idx).appendResults
    else if call.name = LOAD_SKILL_TOOL then
      let result := { skill with providerId := call.providerId }
      { ((((b.emit idx .pending).emit idx .inProgress).emit idx (.completed result)).setResult idx
        result) with
        phase := .preflight (idx + 1) }
    else if !env.has call.name || env.isHook call.name then
      let err := "unknown tool: " ++ call.name
      { (((b.emit idx .pending).emit idx (.failed err)).setResult idx
        (syntheticToolResult call err)) with
        phase := .preflight (idx + 1) }
    else { b.emit idx .pending with runnable := b.runnable ++ [idx], phase := .preflight (idx + 1) }

/-- A slot that is still empty is filled as cancelled. -/
def fill (b : Batch) (i : Nat) (rest : List Nat) : Batch :=
  match b.results i, b.calls[i]? with
  | none, some call =>
    { (b.setResult i (syntheticToolResult call "cancelled")).emit i (.failed "cancelled") with
        phase := .filling rest }
  | _, _ => { b with phase := .filling rest }

/-- What the caller does where it does not wait. -/
def main (b : Batch) (env : ToolEnv) (skill : ToolResult) : Option Batch :=
  match b.phase with
  | .preflight idx => some (b.preflight env idx skill)
  | .spawning [] => some { b with phase := .looking }
  | .spawning (i :: rest) => some { b.setTask i .waiting with phase := .spawning rest }
  | .looking => some (if b.cancel then
      { b with closed := true, phase := .draining } else { b with phase := .joining })
  | .filling [] => some b.appendResults
  | .filling (i :: rest) => some (b.fill i rest)
  | _ => none

/-- `join_next` gives the caller a task that has ended. -/
def join (b : Batch) (i : Nat) : Option Batch :=
  if b.phase = .joining ∨ b.phase = .draining then
    match b.tasks i, b.calls[i]? with
    | .ended (some outcome), some call =>
      if b.phase = .draining ∧ (b.results i).isSome then some (b.setTask i .absent)
      else some ((b.setTask i .absent).setResult i (outcomeToResult call outcome))
    | .ended none, _ => some (b.setTask i .absent)
    | _, _ => none
  else none

end Batch

inductive BatchMove
  /-- The session is cancelled. -/
  | cancel
  | main (skill : ToolResult)
  /-- The caller sees a change of the cancel flag. -/
  | notice
  | join (i : Nat)
  /-- `join_next` has no task left. -/
  | allJoined
  /-- The drain times out. -/
  | deadline
  | acquire (i : Nat)
  | answer (i : Nat) (outcome : InvokeOutcome)
  | panic (i : Nat)
  | emit (i : Nat)
  | finish (i : Nat)
  /-- An aborted task is dropped where it waits. -/
  | abort (i : Nat)

/-- What a tool call can come to: a result is under the id of the call. -/
def InvokeOutcome.Answers (call : ToolCall) : InvokeOutcome → Prop
  | done r => r.providerId = call.providerId
  | failed _ => True

instance (call : ToolCall) (outcome : InvokeOutcome) : Decidable (outcome.Answers call) := by
  cases outcome
  · exact inferInstanceAs (Decidable (_ = _))
  · exact inferInstanceAs (Decidable True)

/-- The caller, its tasks and the cancel flag, one move of one of them at a time. -/
def batch (env : ToolEnv) : Machine Batch BatchMove where
  step b
    | .cancel => some { b with cancel := true }
    | .main skill => b.main env skill
    | .notice => if b.phase = .joining then
        some { b with closed := true, phase := .draining } else none
    | .join i => b.join i
    | .allJoined =>
      if (b.phase = .joining ∨ b.phase = .draining) ∧ ∀ i ∈ b.runnable, b.tasks i = .absent then
        some { b with phase := .filling b.runnable }
      else none
    -- the join is polled before the clock
    | .deadline =>
      if b.phase = .draining ∧ (∃ i ∈ b.runnable, b.tasks i ≠ .absent) ∧
          ∀ i ∈ b.runnable, (b.tasks i).isEnded = false then
        some { b with aborted := true, phase := .filling b.runnable }
      else none
    | .acquire i =>
      if b.tasks i = .waiting then
        if b.closed then some (b.setTask i (.answering (.failed "cancelled")))
        else if 0 < b.permits then
          some { (b.setTask i .running).emit i .inProgress with permits := b.permits - 1 }
        else none
      else none
    | .answer i outcome =>
      match b.tasks i, b.calls[i]? with
      | .running, some call => if outcome.Answers call then
          some (b.setTask i (.answering outcome)) else none
      | _, _ => none
    | .panic i => if b.tasks i = .running then
        some { b.setTask i (.ended none) with permits := b.permits + 1 } else none
    | .emit i =>
      match b.tasks i with
      | .answering outcome => some ((b.setTask i (.emitted outcome)).emit i outcome.update)
      | _ => none
    -- the permit goes back; one too many is no matter once the semaphore is closed
    | .finish i =>
      match b.tasks i with
      | .emitted outcome =>
          some { b.setTask i (.ended (some outcome)) with permits := b.permits + 1 }
      | _ => none
    | .abort i =>
      match b.tasks i with
      | .absent | .ended _ => none
      | _ => if b.aborted then some (b.setTask i (.ended none)) else none

end Pkzz.Agent
