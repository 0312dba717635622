import Mathlib.Algebra.GroupWithZero.Nat
import Pkzz.Lib.Json

/-!
# The history of a session

`buzz-agent`'s `types.rs` and the parts of `agent.rs` that rewrite a history. A provider accepts a
history only when every assistant item with tool calls is followed at once by the results of these
calls, in their order.
-/

namespace Pkzz.Agent

open Pkzz.Lib

inductive ToolResultContent
  | text (s : String)
  | image (data mimeType : String)
  deriving DecidableEq

structure ToolCall where
  providerId : String
  name : String
  arguments : Json
  providerExtra : Json

structure ToolResult where
  providerId : String
  content : List ToolResultContent
  isError : Bool
  deriving DecidableEq

inductive HistoryItem
  | user (text : String)
  | assistant (text : String) (toolCalls : List ToolCall) (reasoningDetails : Option Json)
  | toolResult (result : ToolResult)

/-! ## Sizes -/

/-- `serde_json::to_vec(v).len()`. -/
def jsonBytes (v : Json) : Nat := Str.len (String.ofList v.text)

def ToolResultContent.estimatedBytes : ToolResultContent → Nat
  | text s => Str.len s
  | image data mimeType => Str.len data + Str.len mimeType

namespace HistoryItem

def sizeWith (contentSize : ToolResultContent → Nat) : HistoryItem → Nat
  | user s => Str.len s
  | assistant text toolCalls reasoningDetails =>
    Str.len text
      + (toolCalls.map fun c =>
        Str.len c.providerId + Str.len c.name + jsonBytes c.arguments + jsonBytes
        c.providerExtra).sum
      + (reasoningDetails.map jsonBytes).getD 0
  | toolResult r => Str.len r.providerId + (r.content.map contentSize).sum

def estimatedBytes (item : HistoryItem) : Nat := item.sizeWith ToolResultContent.estimatedBytes

/-- A prompt, a steer or a handoff summary. -/
def isUser : HistoryItem → Bool
  | user _ => true
  | _ => false

end HistoryItem

/-- What a history weighs in a request. -/
def totalBytes (history : List HistoryItem) : Nat := (history.map HistoryItem.estimatedBytes).sum

/-! ## Truncation -/

/-- The history without its first segment: from the next user item on, if there is one. -/
def nextSegment : List HistoryItem → Option (List HistoryItem)
  | [] => none
  | item :: rest => if item.isUser then some (item :: rest) else nextSegment rest

theorem length_nextSegment {l rest : List HistoryItem} (h : nextSegment l = some rest) :
    rest.length ≤ l.length := by
  induction l with
  | nil => cases h
  | cons item l ih =>
    rw [nextSegment] at h
    split at h
    · rw [← Option.some.inj h]
    · exact Nat.le_succ_of_le (ih h)

/-- Whole segments go, oldest first, until the rest fits or is the last segment. The source keeps
the running total. -/
def truncateHistory (maxBytes : Nat) (history : List HistoryItem) : List HistoryItem :=
  if totalBytes history ≤ maxBytes then history
  else
    match history with
    | [] => []
    | item :: rest =>
      match _hnext : nextSegment rest with
      | none => item :: rest
      | some tail => truncateHistory maxBytes tail
  termination_by history.length
  decreasing_by exact Nat.lt_succ_of_le (length_nextSegment _hnext)

/-! ## Images -/

def ToolResultContent.isImage : ToolResultContent → Bool
  | text _ => false
  | image _ _ => true

def UNSUPPORTED_IMAGE_TOOL_MESSAGE : String :=
  "The current model does not support image input. The image was removed from conversation history so this turn can continue. Use a text-based inspection tool or ask the user for a textual description instead."

/-- A tool result without its images. -/
def withoutImages (r : ToolResult) : ToolResult :=
  if r.content.any ToolResultContent.isImage then
    { r with
      isError := true
      content := (r.content.filter fun c => !c.isImage) ++ [.text UNSUPPORTED_IMAGE_TOOL_MESSAGE] }
  else r

def HistoryItem.replaceImages : HistoryItem → HistoryItem
  | toolResult r => toolResult (withoutImages r)
  | item => item

/-- The history without images, and how many there were. -/
def replaceUnsupportedImages (history : List HistoryItem) : List HistoryItem × Nat :=
  (history.map HistoryItem.replaceImages,
    (history.map fun
      | .toolResult r => (r.content.filter ToolResultContent.isImage).length
      | _ => 0).sum)

/-! ## Hook output -/

/-- `{hook, server, text}` as JSON. -/
def formatHookOutputBody (hook server text : String) : String :=
  String.ofList (Json.obj [("hook", .str hook), ("server", .str server), ("text", .str text)]).text

/-- Unique for each pair by its ordinal. -/
def syntheticHookId (hook server : String) (ordinal : Nat) : String :=
  "buzz_hook_" ++ hook ++ "_" ++ server ++ "_" ++ ordinal.repr

/-- The synthetic tool call of a hook output, and its result. -/
def hookPair (hook : String) (nonce : Nat) (output : String × String) : List HistoryItem :=
  [.assistant "" [⟨syntheticHookId hook output.1 nonce, output.1 ++ "__" ++ hook, .obj [],
    .obj []⟩] none,
   .toolResult ⟨syntheticHookId hook output.1 nonce,
     [.text (formatHookOutputBody hook output.1 output.2)], false⟩]

/-- Every output with a nonce of its own, from the first one on. -/
def pushHookOutputsAsToolResults (hook : String) : Nat → List (String × String) → List HistoryItem →
    List HistoryItem
  | _, [], history => history
  | nonce, output :: outputs, history =>
    pushHookOutputsAsToolResults hook (nonce + 1) outputs (history ++ hookPair hook nonce output)

/-! ## Well paired histories -/

/-- Each assistant item is followed by the results of its calls, in call order, and there is no
other result. -/
inductive WellPaired : List HistoryItem → Prop
  | nil : WellPaired []
  | user (text : String) {rest : List HistoryItem} (tail : WellPaired rest) :
      WellPaired (.user text :: rest)
  | assistant (text : String) (toolCalls : List ToolCall) (reasoningDetails : Option Json)
      (results : List ToolResult)
      {rest : List HistoryItem} (answered : results.map ToolResult.providerId =
        toolCalls.map ToolCall.providerId)
      (tail : WellPaired rest) :
      WellPaired (.assistant text toolCalls reasoningDetails :: (results.map .toolResult ++ rest))

variable {history rest : List HistoryItem}

theorem WellPaired.append (h : WellPaired history) (hrest : WellPaired rest) :
    WellPaired (history ++ rest) := by
  induction h with
  | nil => exact hrest
  | user text _ ih => exact .user text ih
  | assistant text toolCalls reasoningDetails results answered _ ih =>
    rw [List.cons_append, List.append_assoc]
    exact .assistant text toolCalls reasoningDetails results answered ih

theorem wellPaired_user (text : String) : WellPaired [.user text] := .user text .nil

theorem wellPaired_turn (text : String) (toolCalls : List ToolCall) (reasoningDetails : Option Json)
    (results : List ToolResult)
    (h : results.map ToolResult.providerId = toolCalls.map ToolCall.providerId) :
    WellPaired (.assistant text toolCalls reasoningDetails :: results.map .toolResult) := by
  have hturn := WellPaired.assistant text toolCalls reasoningDetails results h .nil
  rw [List.append_nil] at hturn
  exact hturn

theorem wellPaired_hooks (hook : String) (outputs : List (String × String)) :
    ∀ (nonce : Nat) {history : List HistoryItem}, WellPaired history →
      WellPaired (pushHookOutputsAsToolResults hook nonce outputs history) := by
  induction outputs with
  | nil =>
    intro nonce history h
    exact h
  | cons output outputs ih =>
    intro nonce history h
    exact ih (nonce + 1) (h.append (wellPaired_turn _ _ _ [_] rfl))

theorem providerId_withoutImages (r : ToolResult) :
    (withoutImages r).providerId = r.providerId := by
  unfold withoutImages
  split
  · rfl
  · rfl

/-- Taking images away leaves the results where they are. -/
theorem wellPaired_replaceImages (h : WellPaired history) :
    WellPaired (replaceUnsupportedImages history).1 := by
  unfold replaceUnsupportedImages
  induction h with
  | nil => exact .nil
  | user text _ ih => exact .user text ih
  | assistant text toolCalls reasoningDetails results answered _ ih =>
    have hresults : (results.map HistoryItem.toolResult).map HistoryItem.replaceImages
        = (results.map withoutImages).map HistoryItem.toolResult := by
      rw [List.map_map, List.map_map]
      rfl
    have hids : (results.map withoutImages).map ToolResult.providerId =
        toolCalls.map ToolCall.providerId := by
      rw [← answered, List.map_map]
      exact List.map_congr_left fun r _ => providerId_withoutImages r
    rw [List.map_cons, List.map_append, hresults]
    exact .assistant text toolCalls reasoningDetails _ hids ih

/-! ## What truncation leaves -/

/-- The next segment is what is left from some user item on. -/
theorem nextSegment_suffix {l tail : List HistoryItem} (h : nextSegment l = some tail) :
    ∃ dropped text tail', l = dropped ++ tail ∧ tail = .user text :: tail' ∧
      ∀ item ∈ dropped, item.isUser = false := by
  induction l with
  | nil => cases h
  | cons item l ih =>
    rw [nextSegment] at h
    split at h
    · rename_i huser
      cases h
      cases item with
      | user text => exact ⟨[], text, l, rfl, rfl, nofun⟩
      | assistant text toolCalls reasoningDetails => cases huser
      | toolResult r => cases huser
    · rename_i hother
      obtain ⟨dropped, text, tail', hl, htail, hdropped⟩ := ih h
      refine ⟨item :: dropped, text, tail', by rw [hl, List.cons_append], htail, ?_⟩
      intro other hmem
      rcases List.mem_cons.mp hmem with rfl | hmem
      · exact Bool.eq_false_iff.mpr hother
      · exact hdropped other hmem

theorem nextSegment_none {l : List HistoryItem} (h : nextSegment l = none) :
    ∀ item ∈ l, item.isUser = false := by
  induction l with
  | nil => exact nofun
  | cons item l ih =>
    rw [nextSegment] at h
    split at h
    · cases h
    rename_i hother
    intro other hmem
    rcases List.mem_cons.mp hmem with rfl | hmem
    · exact Bool.eq_false_iff.mpr hother
    · exact ih h other hmem

/-- No result stands right before a user item without its call. -/
theorem WellPaired.from_user (h : WellPaired history) :
    ∀ {dropped : List HistoryItem} {text : String}, history = dropped ++ .user text :: rest →
      WellPaired (.user text :: rest) := by
  induction h with
  | nil =>
    intro dropped text heq
    exact absurd heq.symm (List.append_ne_nil_of_right_ne_nil _ (List.cons_ne_nil _ _))
  | user text' htail ih =>
    intro dropped text heq
    cases dropped with
    | nil =>
      rw [List.nil_append] at heq
      cases heq
      exact .user _ htail
    | cons first dropped =>
      rw [List.cons_append] at heq
      exact ih (List.cons.inj heq).2
  | assistant text' toolCalls reasoningDetails results answered htail ih =>
    intro dropped text heq
    cases dropped with
    | nil => cases heq
    | cons first dropped =>
      rw [List.cons_append] at heq
      -- the user item is after the results
      have hsplit := List.append_eq_append_iff.mp (List.cons.inj heq).2
      rcases hsplit with ⟨between, hdropped, hrest⟩ | ⟨between, hresults, huser⟩
      · exact ih hrest
      cases between with
      | nil =>
        rw [List.nil_append] at huser
        have hnil := huser.symm.trans (List.nil_append _).symm
        exact ih hnil
      | cons item between =>
        rw [List.cons_append] at huser
        have hitem : item = .user text := (List.cons.inj huser).1.symm
        have hmem : item ∈ results.map HistoryItem.toolResult := by
          rw [hresults]
          exact List.mem_append_right _ List.mem_cons_self
        obtain ⟨r, _, hr⟩ := List.mem_map.mp hmem
        rw [hitem] at hr
        cases hr

/-- What truncation leaves is a suffix that begins with a user item, or everything. -/
theorem truncateHistory_suffix (maxBytes : Nat) (history : List HistoryItem) :
    truncateHistory maxBytes history = history ∨
      ∃ dropped text rest, history = dropped ++ .user text :: rest ∧
        truncateHistory maxBytes history = .user text :: rest := by
  induction hlen : history.length using Nat.strong_induction_on generalizing history with
  | h n ih =>
    unfold truncateHistory
    split
    · exact .inl rfl
    cases history with
    | nil => exact .inl rfl
    | cons item l =>
      dsimp only
      split
      · exact .inl rfl
      rename_i tail htail
      obtain ⟨dropped, text, tail', hl, htail', _⟩ := nextSegment_suffix htail
      have hlt : tail.length < n := by
        rw [← hlen]
        exact Nat.lt_succ_of_le (length_nextSegment htail)
      rcases ih tail.length hlt tail rfl with hsame | ⟨dropped', text', rest, heq, htrunc⟩
      · refine .inr ⟨item :: dropped, text, tail', ?_, ?_⟩
        · rw [hl, htail', List.cons_append]
        · rw [hsame, htail']
      · refine .inr ⟨item :: dropped ++ dropped', text', rest, ?_, htrunc⟩
        rw [hl, heq, List.cons_append, List.cons_append, List.append_assoc]

theorem wellPaired_truncate (maxBytes : Nat) (h : WellPaired history) :
    WellPaired (truncateHistory maxBytes history) := by
  rcases truncateHistory_suffix maxBytes history with hsame | ⟨dropped, text, rest, heq, htrunc⟩
  · rw [hsame]
    exact h
  · rw [htrunc]
    exact h.from_user heq

/-- What truncation leaves fits, or there is no user item in it after the first. -/
theorem truncateHistory_bound (maxBytes : Nat) (history : List HistoryItem) :
    totalBytes (truncateHistory maxBytes history) ≤ maxBytes ∨
      ∀ item ∈ (truncateHistory maxBytes history).tail, item.isUser = false := by
  induction hlen : history.length using Nat.strong_induction_on generalizing history with
  | h n ih =>
    unfold truncateHistory
    split
    · rename_i hfits
      exact .inl hfits
    cases history with
    | nil => exact .inr nofun
    | cons item l =>
      dsimp only
      split
      · rename_i hnone
        exact .inr (nextSegment_none hnone)
      rename_i tail htail
      have hlt : tail.length < n := by
        rw [← hlen]
        exact Nat.lt_succ_of_le (length_nextSegment htail)
      exact ih tail.length hlt tail rfl

end Pkzz.Agent
