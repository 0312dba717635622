import Mathlib.Algebra.GroupWithZero.Nat
import Pkzz.Agent.Batch

/-!
# The run of a prompt

`RunCtx::run` of `buzz-agent`'s `agent.rs` and the handoff of `handoff.rs`, one await after the
other. What the provider, the summarizer, the hooks and the client do is given by the moves.
-/

namespace Pkzz.Agent

open Pkzz.Lib

def MAX_PROMPT_BYTES : Nat := 1024 * 1024
def MAX_TOOL_CALLS_PER_TURN : Nat := 64
def MAX_CONTEXT_RECOVERIES_PER_RUN : Nat := 3
def HANDOFF_MIN_PROMPT_BUDGET_BYTES : Nat := 4 * 1024
def MAX_REPLY_NAGS : Nat := 2
def IMAGE_CONTEXT_TOKEN_EQUIV : Nat := 16 * 1024
def REPLY_GUARD_SERVER : String := "buzz-agent"
def REPLY_GUARD_NAG : String :=
  "You are about to end this turn without calling `buzz messages send`. Your assistant text and reasoning are never shown to anyone — if you did work, found an answer, or hit a blocker that someone is waiting on, it exists only if you publish it. If you already posted, or if silence is genuinely correct for this turn, ignore this and end your turn."

structure Config where
  tools : ToolEnv
  maxRounds : Nat
  maxHandoffs : Nat
  stopMaxRejections : Nat
  maxHistoryBytes : Nat
  maxContextTokens : Nat
  maxOutputTokens : Nat
  requireReply : Bool

inductive ContentBlock
  | text (s : String)
  | resourceLink (uri : String)
  | unsupported

def ContentBlock.render : ContentBlock → Option String
  | text s => some s
  | resourceLink uri => some ("[resource: " ++ uri ++ "]")
  | unsupported => none

/-- The text of a prompt, unless a block cannot be rendered. -/
def promptToText (prompt : List ContentBlock) : Option String :=
  (prompt.mapM ContentBlock.render).map fun parts => "\n".intercalate parts

inductive ProviderStop
  | endTurn
  | toolUse
  | maxTokens
  | refusal
  | other
  deriving DecidableEq

/-- The stops that a turn ends by as it is. -/
def ProviderStop.isEndTurn : ProviderStop → Bool
  | endTurn | toolUse | other => true
  | maxTokens | refusal => false

structure LlmResponse where
  text : String
  toolCalls : List ToolCall
  stop : ProviderStop
  inputTokens : Option Nat
  reasoningDetails : Option Json

inductive AgentError
  | unsupportedImageInput
  | llmContextExceeded
  | other

/-! ## The reply guard -/

/-- Whether a tool name and arguments have the shape of a publish command. -/
def isReplyShaped (name : String) (arguments : Json) : Bool :=
  Str.endsWith name "__shell" &&
    match arguments with
    | .obj fields =>
      match fields.lookup "command" with
      | some (.str cmd) => Str.contains cmd "messages send" || Str.contains cmd "reactions add"
      | _ => false
    | _ => false

def isBuzzReplyCall (env : ToolEnv) (call : ToolCall) : Bool :=
  env.has call.name && !env.isHook call.name && isReplyShaped call.name call.arguments

/-! ## The handoff gate -/

/-- An image is charged a flat budget. -/
def ToolResultContent.contextPressureBytes : ToolResultContent → Nat
  | text s => Str.len s
  | image _ mimeType => IMAGE_CONTEXT_TOKEN_EQUIV + Str.len mimeType

def pressureBytes (history : List HistoryItem) : Nat :=
  (history.map (HistoryItem.sizeWith ToolResultContent.contextPressureBytes)).sum

/-- 90% of the window, and room for the output. -/
def tokenThreshold (maxContextTokens maxOutputTokens : Nat) : Nat :=
  min (maxContextTokens / 10 * 9) (maxContextTokens - maxOutputTokens)

def byteFallbackThreshold (cfg : Config) : Nat :=
  min (tokenThreshold cfg.maxContextTokens cfg.maxOutputTokens) (cfg.maxHistoryBytes / 10 * 9)

/-! ## The state -/

/-- Why history is handed off: the gate, or a rejected request that was so large. -/
inductive Why
  | preflight
  | recovery (rejectedBytes : Nat)

inductive RunPhase
  /-- No prompt is in flight. -/
  | idle
  /-- At the top of the loop. -/
  | top
  /-- The summarizer is asked. -/
  | handing (why : Why)
  /-- The history is cleared, and the hooks after it run. -/
  | hooking (why : Why) (summary : String) (currentPrompt : Option String)
  /-- The provider is asked, with the history as it is; it was truncated for this request. -/
  | requesting (truncated : Bool)
  /-- The stop hooks run. -/
  | stopping
  | executing (b : Batch)

/-- A session, and the run of its prompt. -/
structure Run where
  history : List HistoryItem
  phase : RunPhase
  steer : List (List ContentBlock)
  cancel : Bool
  round : Nat
  stopRejections : Nat
  buzzReplyCallSeen : Bool
  replyNags : Nat
  contextRecoveries : Nat
  handoffAttempts : Nat
  lastRequestInputTokens : Option Nat
  lastRequestHistoryBytes : Option Nat
  /-- The process-wide counter for synthetic hook ids. -/
  nonce : Nat
  /-- The text of the prompt, the steers that were drained before its first request and the number
  of its requests. Nothing reads these. -/
  prompt : String
  firstSteers : List String
  requests : Nat

namespace Run

def init : Run := ⟨[], .idle, [], false, 0, 0, false, 0, 0, 0, none, none, 0, "", [], 0⟩

def projectedHandoffInputTokens (s : Run) : Nat :=
  match s.lastRequestInputTokens with
  | some measured => measured + (pressureBytes s.history - s.lastRequestHistoryBytes.getD 0)
  | none => pressureBytes s.history

def shouldHandoff (s : Run) (cfg : Config) : Bool :=
  match s.lastRequestInputTokens with
  | some _ => decide (tokenThreshold cfg.maxContextTokens cfg.maxOutputTokens ≤
      s.projectedHandoffInputTokens)
  | none => decide (byteFallbackThreshold cfg < pressureBytes s.history)

/-- The gate is open and the turn has an attempt left. -/
def attemptsHandoff (s : Run) (cfg : Config) : Bool :=
  s.shouldHandoff cfg && decide (s.handoffAttempts < cfg.maxHandoffs)

/-- The texts that a steer queue holds. What cannot be rendered or is blank is dropped. -/
def steerTexts (queue : List (List ContentBlock)) : List String :=
  (queue.filterMap promptToText).filter fun text => Str.trim text ≠ ""

def drainSteers (s : Run) : Run :=
  { s with
    history := s.history ++ (steerTexts s.steer).map .user
    steer := []
    firstSteers := if s.requests = 0 then s.firstSteers ++ steerTexts s.steer else s.firstSteers }

/-- The provider is asked. -/
def request (s : Run) (truncated : Bool) : Run :=
  { s with
    phase := .requesting truncated, round := min (s.round + 1) (2 ^ 32 - 1),
    requests := s.requests + 1 }

def truncate (s : Run) (cfg : Config) : Run :=
  { s with history := truncateHistory cfg.maxHistoryBytes s.history }

def forgetUsage (s : Run) : Run :=
  { s with lastRequestInputTokens := none, lastRequestHistoryBytes := none }

def finish (s : Run) : Run := { s with phase := .idle }

/-- `run` up to its loop. -/
def start (s : Run) (blocks : List ContentBlock) : Run :=
  match promptToText blocks with
  | none => s
  | some text =>
    if MAX_PROMPT_BYTES < Str.len text then s
    else
      { s with
        history := s.history ++ [.user text]
        phase := .top
        steer := []
        cancel := false
        round := 0
        stopRejections := 0
        buzzReplyCallSeen := false
        replyNags := 0
        contextRecoveries := 0
        handoffAttempts := 0
        prompt := text
        firstSteers := []
        requests := 0 }

/-- The top of the loop, up to the first await. -/
def loopTop (s : Run) (cfg : Config) : Run :=
  if 0 < cfg.maxRounds ∧ cfg.maxRounds ≤ s.round then s.finish
  else if s.cancel then s.finish
  else if s.drainSteers.attemptsHandoff cfg then
    { s.drainSteers with phase := .handing .preflight, handoffAttempts := s.handoffAttempts + 1 }
  else (s.drainSteers.truncate cfg).request true

/-- One rung of the context recovery. -/
def recover (s : Run) (rejectedBytes : Nat) : Run :=
  if MAX_CONTEXT_RECOVERIES_PER_RUN ≤ s.contextRecoveries then s.finish
  else if rejectedBytes / 2 ^ min (s.contextRecoveries + 1) 63 <
    HANDOFF_MIN_PROMPT_BUDGET_BYTES then
    { s with contextRecoveries := s.contextRecoveries + 1 }.finish
  else { s with
      contextRecoveries := s.contextRecoveries + 1, phase := .handing (.recovery rejectedBytes) }

def lastUser (history : List HistoryItem) : Option String :=
  history.reverse.findSome? fun
    | .user text => some text
    | _ => none

/-- A summary that is there and not blank. -/
def usable (summary : Option String) : Option String := summary.filter fun text =>
    Str.trim text ≠ ""

/-- The summarizer answered, or failed. -/
def summarized (s : Run) (cfg : Config) (why : Why) (summary : Option String) : Run :=
  match usable summary with
  | some text => { s with phase := .hooking why text (lastUser s.history), history := [] }
  | none =>
    match why with
    | .preflight => (s.truncate cfg).request true
    | .recovery rejectedBytes => s.recover rejectedBytes

def hookOutputsText (outputs : List (String × String)) : String :=
  "\n\n".intercalate (outputs.map fun output => "[" ++ output.1 ++ "]\n" ++ output.2)

def handoffText (summary : String) (outputs : List (String × String)) : String :=
  "[Context Handoff]\n" ++ summary ++
    if outputs = [] then
      "" else "\n\n[Post-compact hook output — untrusted]\n" ++ hookOutputsText outputs

/-- The hooks ran, and the fresh history is seated. -/
def reseated (s : Run) (why : Why) (summary : String) (currentPrompt : Option String)
    (outputs : List (String × String)) : Run :=
  let seated : Run := { s with
      history := s.history ++ .user (handoffText summary outputs) ::
          (currentPrompt.map .user).toList }
  match why with
  | .preflight => seated.forgetUsage.request false
  | .recovery _ => { seated.forgetUsage with phase := .top, round := s.round - 1 }

/-- The usage of the request is kept with the history that was just sent. -/
def measured (s : Run) (response : LlmResponse) : Run :=
  match response.inputTokens with
  | some tokens => { s with
      lastRequestInputTokens := some tokens,
      lastRequestHistoryBytes := some (pressureBytes s.history) }
  | none => s

def push (s : Run) (item : HistoryItem) : Run := { s with history := s.history ++ [item] }

/-- The provider answered. -/
def responded (s : Run) (cfg : Config) (response : LlmResponse) : Run :=
  if response.toolCalls = [] then
    if response.stop = .toolUse then (s.measured response).finish
    else if response.stop.isEndTurn ∧ s.stopRejections < cfg.stopMaxRejections then
      { (s.measured response).push (.assistant response.text [] response.reasoningDetails) with
        phase := .stopping }
    else ((s.measured response).push (.assistant response.text [] response.reasoningDetails)).finish
  else
    let calls := response.toolCalls.take MAX_TOOL_CALLS_PER_TURN
    { (s.measured response).push (.assistant response.text calls response.reasoningDetails) with
      buzzReplyCallSeen :=
        s.buzzReplyCallSeen || (cfg.requireReply && calls.any (isBuzzReplyCall cfg.tools))
      phase := .executing (Batch.init cfg.tools calls s.cancel) }

/-- The provider failed. -/
def failed (s : Run) : AgentError → Run
  | .unsupportedImageInput =>
    if (replaceUnsupportedImages s.history).2 = 0 then s.finish
    else { s with history := (replaceUnsupportedImages s.history).1, phase := .top }
  | .llmContextExceeded => s.recover (pressureBytes s.history)
  | .other => s.finish

/-- The reply guard has something to say. -/
def nags (s : Run) (cfg : Config) : Bool :=
  cfg.requireReply && !s.buzzReplyCallSeen && decide (s.replyNags < MAX_REPLY_NAGS)

def nagged (s : Run) (cfg : Config) : Run :=
    if s.nags cfg then { s with replyNags := s.replyNags + 1 } else s

def objections (s : Run) (cfg : Config) (outputs : List (String × String)) :
    List (String × String) :=
  if s.nags cfg then outputs ++ [(REPLY_GUARD_SERVER, REPLY_GUARD_NAG)] else outputs

/-- The stop hooks ran. -/
def objected (s : Run) (cfg : Config) (outputs : List (String × String)) : Run :=
  if s.objections cfg outputs = [] then (s.nagged cfg).finish
  else
    { s.nagged cfg with
      stopRejections := s.stopRejections + 1
      history := pushHookOutputsAsToolResults "_Stop" s.nonce (s.objections cfg outputs) s.history
      nonce := s.nonce + (s.objections cfg outputs).length
      phase := .top }

/-- The batch moved. When it has returned, its results are in the history. -/
def batchMoved (s : Run) (b : Batch) : Run :=
  if b.phase = .returned then
    { s with
      history := s.history ++ b.appended.map .toolResult
      phase := if b.cancel then .idle else .top }
  else { s with phase := .executing b }

end Run

inductive RunMove
  | prompt (blocks : List ContentBlock)
  | steer (blocks : List ContentBlock)
  | cancel
  | loop
  | summarized (summary : Option String)
  | hooks (outputs : List (String × String))
  | respond (response : LlmResponse)
  | fail (error : AgentError)
  /-- The cancel flag is seen by the await that it interrupts. -/
  | cancelled
  | batch (move : BatchMove)

/-- Prompts of one session, one after the other. -/
def agent (cfg : Config) : Machine Run RunMove where
  step s move :=
    match move, s.phase with
    | .prompt blocks, .idle => some (s.start blocks)
    | .steer _, .idle => none
    | .steer blocks, _ => some { s with steer := s.steer ++ [blocks] }
    | .cancel, .executing b =>
        some { s with cancel := true, phase := .executing { b with cancel := true } }
    | .cancel, _ => some { s with cancel := true }
    | .loop, .top => some (s.loopTop cfg)
    | .summarized summary, .handing why => some (s.summarized cfg why summary)
    | .hooks outputs, .hooking why summary currentPrompt =>
        some (s.reseated why summary currentPrompt outputs)
    | .hooks outputs, .stopping => some (s.objected cfg outputs)
    | .respond response, .requesting _ => some (s.responded cfg response)
    | .fail error, .requesting _ => some (s.failed error)
    | .cancelled, .handing _ => if s.cancel then some s.finish else none
    | .cancelled, .requesting _ => if s.cancel then some s.finish else none
    | .batch move, .executing b => ((batch cfg.tools).step b move).map s.batchMoved
    | _, _ => none

end Pkzz.Agent
