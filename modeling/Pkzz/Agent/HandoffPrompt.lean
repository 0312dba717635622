import Pkzz.Agent.Run
import Pkzz.Lib.ByteIndex

/-!
# The prompt of a handoff

`build_handoff_prompt` of `handoff.rs`: what the summarizer is told of a session. An explicit budget
is the allowance for the whole prompt. What is left of it behind the fixed frame is filled with
snippets of the history, the newest item first.

Two things can go wrong, and `promptOk_iff` says when neither does. The line that says how many
items are omitted is not part of the frame, so it needs room of its own. And the loop goes on behind
an item that does not fit, so an older one that is small enough is taken after a newer one was left
out.
-/

namespace Pkzz.Agent

open Pkzz.Lib

def HANDOFF_MAX_OUTPUT_TOKENS : Nat := 8192
def HANDOFF_ORIGINAL_TASK_MAX_BYTES : Nat := 16 * 1024
def HANDOFF_MAX_TOOL_NAMES : Nat := 20

/-! ## Snippets -/

/-- The text in front of the last character boundary at or below an offset. -/
def cutBack (s : List Char) : Nat → List Char
  | 0 => []
  | cut + 1 =>
    match ByteIndex.sliceTo (cut + 1) s with
    | some front => front
    | none => cutBack s cut

def clampBytes (s : String) (maxBytes : Nat) : String :=
  if Str.len s ≤ maxBytes then s
  else if maxBytes < 4 then String.ofList (cutBack s.toList (min maxBytes (Str.len s)))
  else String.ofList (cutBack s.toList (maxBytes - Str.len "…")) ++ "…"

def ToolResultContent.asTextLossy : ToolResultContent → String
  | text s => s
  | image data mimeType => "[image: " ++ mimeType ++ ", " ++ (Str.len data).repr ++ " base64 bytes]"

def ToolResult.text (r : ToolResult) : String :=
  "\n".intercalate (r.content.map ToolResultContent.asTextLossy)

/-- Texts pushed one behind the other. -/
def concat : List String → String
  | [] => ""
  | s :: ss => s ++ concat ss

/-- `push_history_snippet`. -/
def historySnippet : HistoryItem → String
  | .user s => "[user] " ++ s ++ "\n"
  | .assistant text toolCalls _ =>
      "[assistant] " ++ text ++ concat (toolCalls.map fun c => " tool:" ++ c.name) ++ "\n"
  | .toolResult r => (if r.isError then "[tool_err] " else "[tool] ") ++ r.text ++ "\n"

/-! ## The prompt -/

/-- What the prompt is built from. -/
structure HandoffSource where
  handoffCount : Nat
  originalTask : Option String
  tools : List String
  maxContextTokens : Nat
  history : List HistoryItem

namespace HandoffSource

variable (s : HandoffSource)

def toolNames : String :=
  if s.tools.length = 0 then "(none)\n"
  else
    let shown := min s.tools.length HANDOFF_MAX_TOOL_NAMES
    ", ".intercalate (s.tools.take shown)
      ++ (if shown < s.tools.length then
        ", … (+" ++ (s.tools.length - shown).repr ++ " more)" else "") ++ "\n"

def head : String :=
  "[Internal handoff #" ++ (s.handoffCount + 1).repr ++ " — context reset]\n\n" ++
    "# Original Task\n"
    ++ clampBytes (s.originalTask.getD "(unknown)") HANDOFF_ORIGINAL_TASK_MAX_BYTES ++
      "\n\n# Available Tools\n" ++ s.toolNames

def tail : String :=
  "\n# Instructions\nProduce a context handoff summary covering: (1) original task, (2) what was accomplished, (3) key decisions, (4) what remains, (5) one concrete next step. Be concise but thorough. Plain text.\n"

def historyHeader : String := "\n# Session History (oldest first)\n"

/-- The fixed frame. -/
def fixedBytes : Nat := Str.len s.head + Str.len historyHeader + Str.len tail

/-- `handoff_prompt_budget_bytes`. -/
def handoffPromptBudgetBytes (maxContextTokens maxOutputTokens fixedPromptBytes : Nat) : Nat :=
  min (maxContextTokens - maxOutputTokens) (2 ^ 64 - 1) - fixedPromptBytes

/-- What there is for the history. -/
def promptBudget (historyBudgetBytes : Option Nat) : Nat :=
  match historyBudgetBytes with
  | some explicit => explicit - s.fixedBytes
  | none => handoffPromptBudgetBytes s.maxContextTokens HANDOFF_MAX_OUTPUT_TOKENS s.fixedBytes

end HandoffSource

/-- The snippets so far, the newest first. -/
structure Snippets where
  snippets : List String
  bytes : Nat
  dropped : Nat

/-- One turn of the loop. -/
def Snippets.add (promptBudget : Nat) (k : Snippets) (snippet : String) : Snippets :=
  if promptBudget < k.bytes + Str.len snippet then
    if k.snippets = [] then ⟨[clampBytes snippet promptBudget], promptBudget, k.dropped + 1⟩
    else { k with dropped := k.dropped + 1 }
  else ⟨k.snippets ++ [snippet], k.bytes + Str.len snippet, k.dropped⟩

/-- The loop, over the newest item first. -/
def Snippets.collect (promptBudget : Nat) (newestFirst : List String) : Snippets :=
  newestFirst.foldl (Snippets.add promptBudget) ⟨[], 0, 0⟩

/-- The line that is there when items are omitted. -/
def omittedLine (dropped : Nat) : String := "(… " ++ dropped.repr ++ " older items omitted)\n"

/-- The prompt with a number of omitted items and the snippets of the others, oldest first. -/
def HandoffSource.promptWith (s : HandoffSource) (dropped : Nat)
    (snippets : List String) : String :=
  s.head ++ HandoffSource.historyHeader ++ (if 0 < dropped then omittedLine dropped else "") ++
    concat snippets ++ HandoffSource.tail

/-- Build the summarizer prompt. -/
def HandoffSource.buildHandoffPrompt (s : HandoffSource)
    (historyBudgetBytes : Option Nat) : String :=
  let k := Snippets.collect (s.promptBudget historyBudgetBytes)
      (s.history.reverse.map historySnippet)
  s.promptWith k.dropped k.snippets.reverse

/-! ## What is asked of the prompt -/

/-- The prompt is within the budget, and what it tells is a newest part of the history. -/
structure PromptOk (s : HandoffSource) (budget : Nat) : Prop where
  bounded : Str.len (s.buildHandoffPrompt (some budget)) ≤ budget
  newest : ∃ older newer, s.history = older ++ newer
    ∧ s.buildHandoffPrompt (some budget) = s.promptWith older.length (newer.map historySnippet)

/-- The sizes of the snippets, the newest first. -/
def HandoffSource.sizes (s : HandoffSource) : List Nat := s.history.reverse.map fun item =>
    Str.len (historySnippet item)

/-- All snippets fit in the room, or some newest ones do with the line for the others, and each of
the others is larger than what is left of the room. -/
def KeepsNewest (room : Nat) (sizes : List Nat) : Prop :=
  sizes.sum ≤ room
    ∨ ∃ k, 1 ≤ k ∧ k < sizes.length ∧
      (sizes.take k).sum + Str.len (omittedLine (sizes.length - k)) ≤ room
        ∧ ∀ size ∈ sizes.drop k, room < (sizes.take k).sum + size

/-! ## Clamping -/

theorem len_ofList (cs : List Char) : Str.len (String.ofList cs) = ByteIndex.byteLen cs := by
  rw [ByteIndex.byteLen_eq_length, Str.len, Str.asBytes, String.toList_ofList]

/-- With four bytes or more there is an ellipsis at least. -/
theorem clampBytes_pos {s : String} {maxBytes : Nat} (hs : 0 < Str.len s) (hmax : 4 ≤ maxBytes) :
    0 < Str.len (clampBytes s maxBytes) := by
  unfold clampBytes
  split
  · exact hs
  · rw [if_neg (by omega), Str.len_append]
    have hdots : Str.len "…" = 3 := by decide
    omega

/-! ## The loop -/

/-- How long some texts are together. -/
def total (ss : List String) : Nat := (ss.map Str.len).sum

@[simp] theorem total_nil : total [] = 0 := rfl

@[simp] theorem total_cons (s : String) (ss : List String) :
    total (s :: ss) = Str.len s + total ss := by
  simp [total]

@[simp] theorem total_append (a b : List String) : total (a ++ b) = total a + total b := by
  simp [total]

@[simp] theorem total_reverse (ss : List String) : total ss.reverse = total ss := by
  simp [total, List.sum_reverse]

@[simp] theorem len_concat (ss : List String) : Str.len (concat ss) = total ss := by
  induction ss with
  | nil => rfl
  | cons s ss ih => rw [concat, Str.len_append, ih, total_cons]

theorem historySnippet_pos (item : HistoryItem) : 0 < Str.len (historySnippet item) := by
  have hnl : Str.len "\n" = 1 := by decide
  cases item <;> simp only [historySnippet, Str.len_append, hnl] <;> omega

variable {room : Nat}

/-- Snippets that fit together are all taken. -/
theorem foldl_add_of_fits :
    ∀ (items : List String) (k : Snippets), k.bytes + total items ≤ room →
      items.foldl (Snippets.add room) k = ⟨k.snippets ++ items, k.bytes + total items, k.dropped⟩
  | [], k, _ => by simp
  | item :: items, k, h => by
    rw [total_cons] at h
    have hadd : Snippets.add room k item = ⟨k.snippets ++ [item], k.bytes + Str.len item,
        k.dropped⟩ :=
      if_neg (by omega)
    rw [List.foldl_cons, hadd, foldl_add_of_fits items _ (by simp only; omega)]
    simp only [List.append_assoc, List.singleton_append, total_cons, Nat.add_assoc]

/-- Snippets that are too large each are all dropped, when there is one already. -/
theorem foldl_add_of_large :
    ∀ (items : List String) (k : Snippets), k.snippets ≠ [] →
      (∀ item ∈ items, room < k.bytes + Str.len item) →
      items.foldl (Snippets.add room) k = ⟨k.snippets, k.bytes, k.dropped + items.length⟩
  | [], _, _, _ => rfl
  | item :: items, k, hne, hlarge => by
    have hadd : Snippets.add room k item = ⟨k.snippets, k.bytes, k.dropped + 1⟩ := by
      rw [Snippets.add, if_pos (hlarge item List.mem_cons_self), if_neg hne]
    rw [List.foldl_cons, hadd, foldl_add_of_large items ⟨k.snippets, k.bytes, k.dropped + 1⟩ hne
      fun i hi => hlarge i (List.mem_cons_of_mem _ hi)]
    simp only [List.length_cons, Nat.add_assoc, Nat.add_comm 1]

/-- With a snippet in it the loop takes some of the others, as far as they fit, and counts the rest.
-/
theorem foldl_add_of_ne :
    ∀ (items : List String) (k : Snippets), k.snippets ≠ [] → k.bytes ≤ room →
      ∃ kept dropped, items.foldl (Snippets.add room) k = ⟨k.snippets ++ kept, k.bytes + total kept,
        k.dropped + dropped⟩ ∧ kept.length + dropped = items.length ∧ k.bytes + total kept ≤ room
        ∧ (kept = [] → ∀ item ∈ items, room < k.bytes + Str.len item)
  | [], k, _, hle => ⟨[], 0, by simp, rfl, hle, fun _ _ h => absurd h List.not_mem_nil⟩
  | item :: items, k, hne, hle => by
    by_cases hlarge : room < k.bytes + Str.len item
    · have hadd : Snippets.add room k item = { k with dropped := k.dropped + 1 } := by
        rw [Snippets.add, if_pos hlarge, if_neg hne]
      obtain ⟨kept, dropped, hfold, hlen, hbytes, hnone⟩ :=
        foldl_add_of_ne items { k with dropped := k.dropped + 1 } hne hle
      refine ⟨kept, dropped + 1, ?_, by simp only [List.length_cons]; omega, hbytes, ?_⟩
      · rw [List.foldl_cons, hadd, hfold, Nat.add_assoc, Nat.add_comm 1]
      · intro hkept i hi
        cases hi with
        | head => exact hlarge
        | tail _ hi => exact hnone hkept i hi
    · have hadd : Snippets.add room k item = ⟨k.snippets ++ [item], k.bytes + Str.len item,
          k.dropped⟩ := if_neg hlarge
      obtain ⟨kept, dropped, hfold, hlen, hbytes, -⟩ :=
        foldl_add_of_ne items ⟨k.snippets ++ [item], k.bytes + Str.len item,
          k.dropped⟩ (by simp) (Nat.le_of_not_lt hlarge)
      refine ⟨item :: kept, dropped,
        ?_, by simp only [List.length_cons]; omega, ?_, fun h => absurd h (List.cons_ne_nil _ _)⟩
      · rw [List.foldl_cons, hadd, hfold, total_cons, List.append_assoc, List.singleton_append,
          Nat.add_assoc]
      · rw [total_cons]
        simp only at hbytes
        omega

/-- The loop behind some snippets that fit together. -/
theorem collect_of_fits {front : List String} (hfits : total front ≤ room) (items : List String) :
    Snippets.collect room (front ++ items) = items.foldl (Snippets.add room) ⟨front,
      total front, 0⟩ := by
  have hzero : (0 : Nat) + total front ≤ room := by omega
  rw [Snippets.collect, List.foldl_append, foldl_add_of_fits front ⟨[], 0, 0⟩ hzero,
    List.nil_append, Nat.zero_add]

/-- Either all fits, or there is a first snippet that does not. -/
theorem fits_or_first (items : List String) :
    total items ≤ room ∨ ∃ front item rest, items = front ++ item :: rest ∧ total front ≤ room
      ∧ room < total front + Str.len item := by
  induction items using List.reverseRecOn with
  | nil => exact .inl (Nat.zero_le _)
  | append_singleton items item ih =>
    rcases ih with hfits | ⟨front, first, rest, rfl, hle, hlarge⟩
    · by_cases h : room < total items + Str.len item
      · exact .inr ⟨items, item, [], rfl, hfits, h⟩
      · exact .inl (by rw [total_append, total_cons, total_nil]; omega)
    · exact .inr ⟨front, first, rest ++ [item], by simp, hle, hlarge⟩

/-! ## The text of the prompt -/

/-- How long the line for the omitted items is, when it is there. -/
def omittedLen (dropped : Nat) : Nat := if 0 < dropped then Str.len (omittedLine dropped) else 0

theorem len_promptWith (s : HandoffSource) (dropped : Nat) (snippets : List String) :
    Str.len (s.promptWith dropped snippets) =
      s.fixedBytes + omittedLen dropped + total snippets := by
  unfold HandoffSource.promptWith HandoffSource.fixedBytes omittedLen
  simp only [Str.len_append, len_concat]
  split
  · omega
  · rw [show Str.len "" = 0 from rfl]
    omega

theorem four_le_omittedLine (dropped : Nat) : 4 ≤ Str.len (omittedLine dropped) := by
  have hopen : Str.len "(… " = 5 := by decide
  rw [omittedLine, Str.len_append, Str.len_append, hopen]
  omega

/-- The count of the omitted items and the snippets behind it can be read off the prompt. -/
theorem promptWith_inj {s : HandoffSource} {m n : Nat} {a b : List String} (hm : 0 < m) (hn : 0 < n)
    (h : s.promptWith m a = s.promptWith n b) : m = n ∧ concat a = concat b := by
  unfold HandoffSource.promptWith omittedLine at h
  rw [if_pos hm, if_pos hn] at h
  have hb := congrArg Str.asBytes h
  simp only [Str.asBytes_append, List.append_assoc] at hb
  -- the frame is the same on both sides
  have hb := List.append_cancel_left (List.append_cancel_left (List.append_cancel_left hb))
  have hstop : ∀ rest, StopsAt Str.IsDigit (Str.asBytes " older items omitted)\n" ++ rest) :=
    fun rest =>
    stopsAt_cons (by unfold Str.IsDigit; decide)
  obtain ⟨hcount, hrest⟩ := Str.decimal_selfDelimiting.peel trivial trivial (hstop _) (hstop _) hb
  refine ⟨hcount, Str.asBytes_inj ?_⟩
  exact List.append_cancel_right (List.append_cancel_left hrest)

/-- The snippets of the history, the newest first. -/
def HandoffSource.items (s : HandoffSource) : List String := s.history.reverse.map historySnippet

theorem HandoffSource.items_pos {s : HandoffSource} : ∀ item ∈ s.items, 0 < Str.len item := by
  intro item hitem
  obtain ⟨h, -, rfl⟩ := List.mem_map.mp hitem
  exact historySnippet_pos h

theorem HandoffSource.sizes_eq (s : HandoffSource) : s.sizes = s.items.map Str.len := by
  rw [sizes, items, List.map_map]
  rfl

/-- A newest part of the history, by how many items it has. -/
theorem newest_iff {s : HandoffSource} {p : String} :
    (∃ older newer, s.history = older ++ newer ∧
      p = s.promptWith older.length (newer.map historySnippet))
      ↔ ∃ k ≤ s.items.length, p = s.promptWith (s.items.length - k) (s.items.take k).reverse := by
  have hlen : s.items.length =
      s.history.length := by rw [HandoffSource.items, List.length_map, List.length_reverse]
  have htake : ∀ k, (s.items.take k).reverse =
      (s.history.drop (s.history.length - k)).map historySnippet := by
    intro k
    rw [HandoffSource.items, ← List.map_take, ← List.map_reverse, List.take_reverse,
      List.reverse_reverse]
  constructor
  · rintro ⟨older, newer, hsplit, rfl⟩
    have hall : s.history.length = older.length + newer.length := by rw [hsplit, List.length_append]
    refine ⟨newer.length, by omega, ?_⟩
    rw [htake, hlen, hall, Nat.add_sub_cancel, hsplit, List.drop_left]
  · rintro ⟨k, hk, rfl⟩
    refine ⟨s.history.take (s.history.length - k), s.history.drop (s.history.length - k),
      (List.take_append_drop _ _).symm, ?_⟩
    rw [htake, hlen, List.length_take, Nat.min_eq_left (Nat.sub_le _ _)]

/-! ## When the prompt is right -/

section

variable {s : HandoffSource} {budget : Nat}

theorem buildHandoffPrompt_some (s : HandoffSource) (budget : Nat) :
    s.buildHandoffPrompt (some budget)
      = s.promptWith (Snippets.collect (budget - s.fixedBytes) s.items).dropped
          (Snippets.collect (budget - s.fixedBytes) s.items).snippets.reverse := rfl

/-- Nothing is left out. -/
theorem promptOk_of_fits (hframe : s.fixedBytes ≤ budget)
    (hfits : total s.items ≤ budget - s.fixedBytes) : PromptOk s budget := by
  have hbuild : s.buildHandoffPrompt (some budget) = s.promptWith 0 s.items.reverse := by
    have hcollect := collect_of_fits hfits []
    rw [List.append_nil, List.foldl_nil] at hcollect
    rw [buildHandoffPrompt_some, hcollect]
  refine ⟨?_, newest_iff.mpr ⟨s.items.length, Nat.le_refl _, ?_⟩⟩
  · rw [hbuild, len_promptWith, total_reverse, omittedLen, if_neg (Nat.lt_irrefl 0)]
    omega
  · rw [hbuild, Nat.sub_self, List.take_length]

/-- Some newest ones are kept, and what is left of the room is too small for each of the others. -/
theorem promptOk_of_prefix (hframe : s.fixedBytes ≤ budget) {k : Nat} (hpos : 1 ≤ k)
    (hk : k < s.items.length)
    (hroom : total (s.items.take k) + Str.len (omittedLine (s.items.length - k)) ≤
      budget - s.fixedBytes)
    (hlarge : ∀ item ∈ s.items.drop k,
      budget - s.fixedBytes < total (s.items.take k) + Str.len item) :
    PromptOk s budget := by
  have hne : s.items.take k ≠ [] := by
    intro h
    have hlen := congrArg List.length h
    rw [List.length_take, List.length_nil] at hlen
    omega
  have hcollect : Snippets.collect (budget - s.fixedBytes) s.items
      = ⟨s.items.take k, total (s.items.take k), s.items.length - k⟩ := by
    have hfits : total (s.items.take k) ≤ budget - s.fixedBytes := by omega
    have hsplit := collect_of_fits hfits (s.items.drop k)
    rw [List.take_append_drop] at hsplit
    rw [hsplit, foldl_add_of_large _ ⟨s.items.take k, total (s.items.take k), 0⟩ hne hlarge,
      Nat.zero_add, List.length_drop]
  have hbuild : s.buildHandoffPrompt (some budget) =
      s.promptWith (s.items.length - k) (s.items.take k).reverse := by
    rw [buildHandoffPrompt_some, hcollect]
  refine ⟨?_, newest_iff.mpr ⟨k, Nat.le_of_lt hk, hbuild⟩⟩
  rw [hbuild, len_promptWith, total_reverse, omittedLen, if_pos (by omega)]
  omega

/-- What a right prompt says about its loop, when the snippets are not all taken. -/
theorem keeps_of_promptOk (h : PromptOk s budget) (dropped : Nat) (snippets : List String)
    (hdropped : 0 < dropped)
    (hbuild : s.buildHandoffPrompt (some budget) = s.promptWith dropped snippets.reverse)
    (hover : budget - s.fixedBytes < total s.items) :
    ∃ k, k + dropped = s.items.length ∧ total (s.items.take k) = total snippets
      ∧ total snippets + Str.len (omittedLine dropped) ≤ budget - s.fixedBytes := by
  have hlen := h.bounded
  obtain ⟨k, hk, hprompt⟩ := newest_iff.mp h.newest
  have hcount : 0 < s.items.length - k := by
    rcases Nat.eq_or_lt_of_le hk with rfl | hlt
    · rw [hprompt, len_promptWith, total_reverse, List.take_length] at hlen
      omega
    · omega
  obtain ⟨heq, hconcat⟩ := promptWith_inj hdropped hcount (hbuild.symm.trans hprompt)
  rw [hbuild, len_promptWith, total_reverse, omittedLen, if_pos hdropped] at hlen
  refine ⟨k, by omega, ?_, by omega⟩
  rw [← total_reverse, ← len_concat, ← hconcat, len_concat, total_reverse]

theorem keepsNewest_iff {room : Nat} : KeepsNewest room s.sizes ↔ total s.items ≤ room
    ∨ ∃ k, 1 ≤ k ∧ k < s.items.length
        ∧ total (s.items.take k) + Str.len (omittedLine (s.items.length - k)) ≤ room
        ∧ ∀ item ∈ s.items.drop k, room < total (s.items.take k) + Str.len item := by
  unfold KeepsNewest total
  simp only [s.sizes_eq, ← List.map_take, ← List.map_drop, List.length_map, List.forall_mem_map]

theorem keepsNewest_of_promptOk (h : PromptOk s budget) :
    KeepsNewest (budget - s.fixedBytes) s.sizes := by
  rw [keepsNewest_iff]
  rcases @fits_or_first (budget - s.fixedBytes) s.items with hfits |
    ⟨front, item, rest, hsplit, hfront, hitem⟩
  · exact .inl hfits
  have hover : budget - s.fixedBytes < total s.items := by
    rw [hsplit, total_append, total_cons]
    omega
  have hn : s.items.length =
      front.length + (rest.length + 1) := by rw [hsplit, List.length_append, List.length_cons]
  by_cases hempty : front = []
  · -- the newest snippet is too large by itself: a clamped part of it, behind an uncounted line
    rw [hempty, total_nil, Nat.zero_add] at hitem
    rw [hempty, List.length_nil, Nat.zero_add] at hn
    have hpos : ∀ r ∈ rest, budget - s.fixedBytes < budget - s.fixedBytes + Str.len r := fun r hr =>
      Nat.lt_add_of_pos_right
        (s.items_pos r (by rw [hsplit, hempty]; exact List.mem_cons_of_mem _ hr))
    have hcollect : Snippets.collect (budget - s.fixedBytes) s.items
        = ⟨[clampBytes item (budget - s.fixedBytes)], budget - s.fixedBytes, rest.length + 1⟩ := by
      have hadd : Snippets.add (budget - s.fixedBytes) ⟨[], 0, 0⟩ item
          = ⟨[clampBytes item (budget - s.fixedBytes)], budget - s.fixedBytes, 1⟩ := by
        rw [Snippets.add, if_pos (by omega), if_pos rfl]
      rw [hsplit, hempty, List.nil_append, Snippets.collect, List.foldl_cons, hadd,
        foldl_add_of_large rest ⟨[clampBytes item (budget - s.fixedBytes)], budget - s.fixedBytes,
          1⟩ (List.cons_ne_nil _ _) hpos,
        Nat.add_comm 1]
    obtain ⟨k, hk, hsame, hroom⟩ :=
      keeps_of_promptOk h (rest.length + 1) [clampBytes item (budget - s.fixedBytes)]
      (by omega) (by rw [buildHandoffPrompt_some, hcollect]) hover
    have hzero : k = 0 := by omega
    have hfour := four_le_omittedLine (rest.length + 1)
    have hclamp := @clampBytes_pos item (budget - s.fixedBytes) (by omega) (by omega)
    rw [hzero, List.take_zero, total_nil, total_cons, total_nil] at hsame
    omega
  · have hfold : Snippets.collect (budget - s.fixedBytes) s.items
        = (item :: rest).foldl (Snippets.add (budget - s.fixedBytes)) ⟨front, total front, 0⟩ := by
      rw [hsplit, collect_of_fits hfront]
    have hadd : Snippets.add (budget - s.fixedBytes) ⟨front, total front, 0⟩ item =
        ⟨front, total front, 1⟩ := by
      rw [Snippets.add, if_pos hitem, if_neg hempty]
    obtain ⟨kept, dropped, hrest, hlen, hbytes, hnone⟩ :=
      @foldl_add_of_ne (budget - s.fixedBytes) rest ⟨front, total front, 1⟩ hempty hfront
    have hcollect : Snippets.collect (budget - s.fixedBytes) s.items
        = ⟨front ++ kept, total front + total kept, 1 + dropped⟩ := by
      rw [hfold, List.foldl_cons, hadd, hrest]
    obtain ⟨k, hk, hsame, hroom⟩ := keeps_of_promptOk h (1 + dropped) (front ++ kept) (by omega)
      (by rw [buildHandoffPrompt_some, hcollect]) hover
    rw [total_append] at hsame hroom
    have hkept : kept = [] := by
      by_contra hne
      -- the items that are kept would be as many of the newest ones, the large one among them
      have hone : 0 < kept.length := List.length_pos_iff.mpr hne
      have hwith : s.items.take k = front ++ item :: rest.take (k - front.length - 1) := by
        rw [hsplit, List.take_append, List.take_of_length_le (by omega)]
        obtain ⟨j, hj⟩ : ∃ j, k - front.length = j + 1 := ⟨k - front.length - 1, by omega⟩
        rw [hj, List.take_succ_cons, Nat.add_sub_cancel]
      rw [hwith, total_append, total_cons] at hsame
      simp only at hbytes
      omega
    have hk : k = front.length := by
      rw [hkept, List.length_nil] at hlen
      omega
    have hfrontPos : 1 ≤ front.length := List.length_pos_iff.mpr hempty
    refine .inr ⟨front.length, hfrontPos, by omega, ?_, ?_⟩
    · have hd : s.items.length - front.length = 1 + dropped := by
        rw [hkept, List.length_nil] at hlen
        omega
      rw [hd, hsplit, List.take_left]
      rw [hkept, total_nil] at hroom
      exact hroom
    · rw [hsplit, List.take_left, List.drop_left]
      intro r hr
      cases hr with
      | head => exact hitem
      | tail _ hr => exact hnone hkept r hr

/-- The prompt is within its budget and tells a newest part of the history just when `KeepsNewest`
says so. -/
theorem promptOk_iff (hframe : s.fixedBytes ≤ budget) :
    PromptOk s budget ↔ KeepsNewest (budget - s.fixedBytes) s.sizes := by
  constructor
  · exact keepsNewest_of_promptOk
  · rw [keepsNewest_iff]
    rintro (hfits | ⟨k, hpos, hk, hroom, hlarge⟩)
    · exact promptOk_of_fits hframe hfits
    · exact promptOk_of_prefix hframe hpos hk hroom hlarge

end

end Pkzz.Agent
