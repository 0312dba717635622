import Pkzz.Lib.Json
import Pkzz.Lib.Scan
import Pkzz.Workflow.Schedule

/-!
# Workflow templates

`resolveTemplate` goes over a template once, from left to right, and puts the value of a
variable where its placeholder was. What it has put out it does not read again: a value that
looks like a placeholder stays as it is (`resolveLoop_text`).

A placeholder that names no variable is meant to stay as it was written. It comes out with its
braces set directly around it, so it stays as it was only if it was written that way
(`render_emitted_eq_iff`).
-/

namespace Pkzz.Workflow

open Pkzz.Lib

/-- The data of the event that started the run. -/
structure TriggerContext where
  text : String
  author : String
  channelId : String
  timestamp : String
  emoji : String
  messageId : String
  webhookFields : Map String String

def TriggerContext.getField (ctx : TriggerContext) (name : String) : Option String :=
  match name with
  | "text" => some ctx.text
  | "author" => some ctx.author
  | "channel_id" => some ctx.channelId
  | "timestamp" => some ctx.timestamp
  | "emoji" => some ctx.emoji
  | "message_id" => some ctx.messageId
  | other => Finmap.lookup other ctx.webhookFields

/-- The error of the engine that the resolution of a template can end with. -/
inductive WorkflowError where
  | templateError (message : String)
deriving DecidableEq

/-- What the filters use of the nostr crate: reading a public key and encoding one. -/
structure NostrCrate where
  PublicKey : Type
  fromHex : String → Option PublicKey
  toBech32 : PublicKey → Option String

abbrev StepOutputs := Map String Json

/-! ## Variables -/

def jsonToString : Json → String
  | .str s => s
  | .bool b => if b then "true" else "false"
  | .num n => n.text
  | .null => ""
  | other => String.ofList other.text

def jsonGetStr (value : Json) (key : String) : Option String :=
  match value with
  | .obj fields => (fields.lookup key).map jsonToString
  | _ => none

/-- `rest.splitn(3, '.')`, as far as there are three parts. -/
def splitStepPath (rest : List Char) : Option (List Char × List Char × List Char) :=
  (splitFirst ['.'] rest).bind fun p =>
    (splitFirst ['.'] p.2).map fun q => (p.1, q.1, q.2)

def resolveVariable (path : String) (ctx : TriggerContext) (stepOutputs : StepOutputs) :
    Option String :=
  match Str.stripPrefix path "trigger." with
  | some field => ctx.getField field
  | none =>
    match Str.stripPrefix path "steps." with
    | some rest =>
      (splitStepPath rest.toList).bind fun (stepId, middle, field) =>
        if String.ofList middle ≠ "output" then none
        else
          (Finmap.lookup (String.ofList stepId) stepOutputs).bind fun output =>
            jsonGetStr output (String.ofList field)
    | none => none

/-! ## Filters -/

def applyFilter (nostr : NostrCrate) (value filter : String) : Except WorkflowError String :=
  let filter := Str.trim filter
  match (Str.stripPrefix filter "truncate(").bind fun s => stripSuffix s ')' with
  | some inner =>
    match parseU64 (Str.trim inner) with
    | some n => .ok (String.ofList (value.toList.take n))
    | none => .error (.templateError ("truncate() requires a number, got: " ++ inner))
  | none =>
    if filter = "npub" ∨ filter = "truncate_pubkey" then
      match nostr.fromHex value with
      | some pk => .ok ((nostr.toBech32 pk).getD value)
      | none => .ok value
    else .error (.templateError ("unknown filter: " ++ filter))

/-! ## The scanner -/

def openMark : List Char := ['{', '{']

def closeMark : List Char := ['}', '}']

def trimChars (s : List Char) : List Char := trimBoth Str.isWhitespace s

/-- `expr.splitn(2, '|')`: the path, and the filter if there is one. -/
def splitExpr (expr : List Char) : List Char × Option (List Char) :=
  match splitFirst ['|'] expr with
  | some (path, filter) => (trimChars path, some (trimChars filter))
  | none => (trimChars expr, none)

/-- The value of a variable behind its filter; nothing if there is no such variable. -/
def filtered (nostr : NostrCrate) (ctx : TriggerContext) (stepOutputs : StepOutputs)
    (varPath : List Char)
    (filter : Option (List Char)) : Option (Except WorkflowError (List Char)) :=
  match resolveVariable (String.ofList varPath) ctx stepOutputs, filter with
  | some v, some f => some ((applyFilter nostr v (String.ofList f)).map String.toList)
  | some v, none => some (.ok v.toList)
  | none, _ => none

/-- The `while let` of `resolve_template`, with what is left of the template. -/
def resolveLoop (nostr : NostrCrate) (ctx : TriggerContext) (stepOutputs : StepOutputs)
    (remaining result : List Char) : Except WorkflowError (List Char) :=
  match _hopen : splitFirst openMark remaining with
  | none => .ok (result ++ remaining)
  | some (literal, behind) =>
    match _hclose : splitFirst closeMark behind with
    | none => .ok (result ++ literal ++ openMark ++ behind)
    | some (inner, remaining') =>
      let expr := trimChars inner
      match filtered nostr ctx stepOutputs (splitExpr expr).1 (splitExpr expr).2 with
      | some (.ok value) =>
        resolveLoop nostr ctx stepOutputs remaining' (result ++ literal ++ value)
      | some (.error e) => .error e
      | none =>
        resolveLoop nostr ctx stepOutputs remaining'
          (result ++ literal ++ (openMark ++ expr ++ closeMark))
termination_by remaining.length
decreasing_by
  all_goals
    have h1 := length_of_splitFirst _hopen
    have h2 := length_of_splitFirst _hclose
    have hmark : openMark.length = 2 := rfl
    omega

def resolveTemplate (nostr : NostrCrate) (template : String) (ctx : TriggerContext)
    (stepOutputs : StepOutputs) : Except WorkflowError String :=
  if ¬ openMark <:+: template.toList then .ok template
  else (resolveLoop nostr ctx stepOutputs template.toList []).map String.ofList

/-! ## Templates as they are written -/

/-- A piece of text between two placeholders. -/
structure Literal where
  text : List Char
  no_mark : ¬ openMark <:+: text
  no_half : text.getLast? ≠ some '{'

/-- White space around a piece of text. -/
structure Spaced where
  before : List Char
  text : List Char
  after : List Char
  before_blank : ∀ c ∈ before, Str.isWhitespace c = true
  after_blank : ∀ c ∈ after, Str.isWhitespace c = true
  trimmed : trimChars text = text

def Spaced.chars (s : Spaced) : List Char := s.before ++ s.text ++ s.after

/-- What stands between the marks of a placeholder. -/
def innerText (path : Spaced) (filter : Option Spaced) : List Char :=
  match filter with
  | none => path.chars
  | some f => path.chars ++ ['|'] ++ f.chars

/-- `{{ path | filter }}` with any spacing; the filter may be missing. -/
structure Placeholder where
  path : Spaced
  filter : Option Spaced
  path_no_bar : '|' ∉ path.text
  no_mark : ¬ closeMark <:+: innerText path filter
  no_half : (innerText path filter).getLast? ≠ some '}'

def Placeholder.inner (p : Placeholder) : List Char := innerText p.path p.filter

def Placeholder.written (p : Placeholder) : List Char := openMark ++ p.inner ++ closeMark

/-- Literals and placeholders in turn. -/
structure Template where
  head : Literal
  parts : List (Placeholder × Literal)

/-- The text that a placeholder and the literal behind it give, with `f` for the placeholder. -/
def renderParts (f : Placeholder → Except WorkflowError (List Char)) :
    List (Placeholder × Literal) → Except WorkflowError (List Char)
  | [] => .ok []
  | (p, l) :: parts => do
      let value ← f p
      let behind ← renderParts f parts
      .ok (value ++ (l.text ++ behind))

def Template.render (f : Placeholder → Except WorkflowError (List Char)) (t : Template) :
    Except WorkflowError (List Char) :=
  (renderParts f t.parts).map fun behind => t.head.text ++ behind

def partsText (parts : List (Placeholder × Literal)) : List Char :=
  parts.flatMap fun q => q.1.written ++ q.2.text

def Template.text (t : Template) : List Char := t.head.text ++ partsText t.parts

section

variable (nostr : NostrCrate) (ctx : TriggerContext) (stepOutputs : StepOutputs)

/-- The value of a placeholder with a known path, as the template's author wrote it down. -/
def Placeholder.value? (p : Placeholder) : Option (Except WorkflowError (List Char)) :=
  filtered nostr ctx stepOutputs p.path.text (p.filter.map Spaced.text)

/-- What is promised for a placeholder: its value, or the placeholder as it was written. -/
def Placeholder.expected (p : Placeholder) : Except WorkflowError (List Char) :=
  (p.value? nostr ctx stepOutputs).getD (.ok p.written)

/-- What comes out for a placeholder. -/
def Placeholder.emitted (p : Placeholder) : Except WorkflowError (List Char) :=
  (p.value? nostr ctx stepOutputs).getD (.ok (openMark ++ trimChars p.inner ++ closeMark))

/-- The filter of a known variable fails. -/
def Placeholder.Fails (p : Placeholder) : Prop :=
  ∃ e, p.value? nostr ctx stepOutputs = some (.error e)

/-- The path is the name of a variable. -/
def Placeholder.Known (p : Placeholder) : Prop :=
  (resolveVariable (String.ofList p.path.text) ctx stepOutputs).isSome = true

end

/-- No white space next to the marks. -/
def Placeholder.Tight (p : Placeholder) : Prop :=
  (∀ c ∈ p.inner.head?, Str.isWhitespace c = false) ∧
    ∀ c ∈ p.inner.getLast?, Str.isWhitespace c = false

variable {nostr : NostrCrate} {ctx : TriggerContext} {stepOutputs : StepOutputs}

/-! ## What the scanner finds -/

theorem trimChars_chars (s : Spaced) : trimChars s.chars = s.text := by
  unfold Spaced.chars trimChars
  rw [trimBoth_append_right _ s.after_blank, trimBoth_append_left _ s.before_blank]
  exact s.trimmed

theorem not_bar_of_blank {s : List Char} (h : ∀ c ∈ s, Str.isWhitespace c = true) : '|' ∉ s := by
  intro hmem
  have hbar : Str.isWhitespace '|' = false := by decide
  rw [h '|' hmem] at hbar
  cases hbar

theorem Placeholder.bar_notMem (p : Placeholder) : '|' ∉ p.path.chars := by
  unfold Spaced.chars
  simp only [List.mem_append, not_or]
  exact ⟨⟨not_bar_of_blank p.path.before_blank, p.path_no_bar⟩, not_bar_of_blank p.path.after_blank⟩

theorem splitFirst_bar {a : List Char} (b : List Char) (h : '|' ∉ a) :
    splitFirst ['|'] (a ++ ['|'] ++ b) = some (a, b) :=
  splitFirst_singleton_append b h

/-- **Trimming the inside of a placeholder first changes neither its path nor its filter.** -/
theorem Placeholder.splitExpr_inner (p : Placeholder) :
    splitExpr (trimChars p.inner) = (p.path.text, p.filter.map Spaced.text) := by
  have hbar := p.bar_notMem
  unfold Placeholder.inner innerText
  cases hf : p.filter with
  | none =>
    dsimp only
    rw [trimChars_chars, splitExpr, splitFirst_eq_none]
    · dsimp only
      rw [p.path.trimmed]
      rfl
    · intro hin
      exact p.path_no_bar (hin.subset (by simp))
  | some f =>
    dsimp only
    have htrim : trimChars (p.path.chars ++ ['|'] ++ f.chars)
        = p.path.chars.dropWhile Str.isWhitespace ++ ['|'] ++ f.chars.rdropWhile Str.isWhitespace :=
      trimBoth_append_cons _ _ (by decide)
    have hdrop : '|' ∉ p.path.chars.dropWhile Str.isWhitespace := fun hmem =>
      hbar ((List.dropWhile_sublist _).mem hmem)
    rw [htrim, splitExpr, splitFirst_bar _ hdrop]
    dsimp only
    rw [trimChars, trimBoth_dropWhile, ← trimChars, trimChars_chars, trimChars, trimBoth_rdropWhile,
      ← trimChars, trimChars_chars]
    rfl

/-- One round: a literal and a placeholder are taken off the template. -/
theorem resolveLoop_placeholder (l : Literal) (p : Placeholder) (rest result : List Char) :
    resolveLoop nostr ctx stepOutputs (l.text ++ (p.written ++ rest)) result
      = (p.emitted nostr ctx stepOutputs).bind fun v =>
          resolveLoop nostr ctx stepOutputs rest (result ++ l.text ++ v) := by
  have hopen : splitFirst openMark (l.text ++ (p.written ++ rest))
      = some (l.text, p.inner ++ closeMark ++ rest) := by
    unfold Placeholder.written
    rw [List.append_assoc openMark, List.append_assoc openMark, ← List.append_assoc l.text]
    exact splitFirst_append (by decide) _ (not_infix_append_singleton l.no_mark l.no_half)
  have hclose : splitFirst closeMark (p.inner ++ closeMark ++ rest) = some (p.inner, rest) :=
    splitFirst_append (by decide) _ (not_infix_append_singleton p.no_mark p.no_half)
  rw [resolveLoop]
  split
  · rename_i hnone
    rw [hopen] at hnone
    cases hnone
  rename_i literal behind hsome
  obtain ⟨rfl, rfl⟩ := Prod.mk.inj (Option.some.inj (hopen.symm.trans hsome))
  split
  · rename_i hnone
    rw [hclose] at hnone
    cases hnone
  rename_i inner remaining' hsome'
  obtain ⟨rfl, rfl⟩ := Prod.mk.inj (Option.some.inj (hclose.symm.trans hsome'))
  dsimp only
  rw [p.splitExpr_inner]
  unfold Placeholder.emitted Placeholder.value?
  cases filtered nostr ctx stepOutputs p.path.text (p.filter.map Spaced.text) with
  | none => rfl
  | some v =>
    cases v with
    | error e => rfl
    | ok v => rfl

theorem resolveLoop_literal (l : Literal) (result : List Char) :
    resolveLoop nostr ctx stepOutputs l.text result = .ok (result ++ l.text) := by
  rw [resolveLoop]
  split
  · rfl
  · rename_i hsome
    rw [splitFirst_eq_none l.no_mark] at hsome
    cases hsome

/-- **The scanner puts out one piece after the other and reads none of them again.** -/
theorem resolveLoop_text :
    ∀ (parts : List (Placeholder × Literal)) (l : Literal) (result : List Char),
    resolveLoop nostr ctx stepOutputs (l.text ++ partsText parts) result
      = (renderParts (Placeholder.emitted nostr ctx stepOutputs) parts).map fun behind =>
          result ++ (l.text ++ behind)
  | [], l, result => by
    rw [partsText, List.flatMap_nil, List.append_nil, resolveLoop_literal]
    simp [renderParts, Except.map]
  | (p, l') :: parts, l, result => by
    have hparts : partsText ((p, l') :: parts) = p.written ++ (l'.text ++ partsText parts) := by
      rw [partsText, List.flatMap_cons, List.append_assoc, ← partsText]
    rw [hparts, resolveLoop_placeholder, renderParts]
    cases p.emitted nostr ctx stepOutputs with
    | error e => rfl
    | ok v =>
      dsimp only [Except.bind]
      rw [resolveLoop_text parts l' _]
      cases renderParts (Placeholder.emitted nostr ctx stepOutputs) parts with
      | error e => rfl
      | ok behind => simp [Except.map, Bind.bind, Except.bind]

theorem resolveTemplate_eq (template : String) :
    resolveTemplate nostr template ctx stepOutputs
      = (resolveLoop nostr ctx stepOutputs template.toList []).map String.ofList := by
  unfold resolveTemplate
  split
  · rename_i hmark
    rw [resolveLoop]
    split
    · simp [Except.map]
    · rename_i hsome
      rw [splitFirst_eq_none hmark] at hsome
      cases hsome
  · rfl

theorem resolveTemplate_text (t : Template) :
    resolveTemplate nostr (String.ofList t.text) ctx stepOutputs
      = (t.render (Placeholder.emitted nostr ctx stepOutputs)).map String.ofList := by
  rw [resolveTemplate_eq, String.toList_ofList, Template.text, resolveLoop_text, Template.render]
  simp only [List.nil_append]

/-! ## Literal placeholders -/

/-- What comes out is what was written, up to the white space next to the marks. -/
theorem Placeholder.emitted_cases (nostr : NostrCrate) (ctx : TriggerContext)
    (stepOutputs : StepOutputs) (p : Placeholder) :
    (∃ r, p.value? nostr ctx stepOutputs = some r ∧ p.emitted nostr ctx stepOutputs = r
        ∧ p.expected nostr ctx stepOutputs = r)
      ∨ p.value? nostr ctx stepOutputs = none
        ∧ p.emitted nostr ctx stepOutputs = .ok (openMark ++ trimChars p.inner ++ closeMark)
        ∧ p.expected nostr ctx stepOutputs = .ok p.written := by
  unfold Placeholder.emitted Placeholder.expected
  cases p.value? nostr ctx stepOutputs with
  | some r => exact .inl ⟨r, rfl, rfl, rfl⟩
  | none => exact .inr ⟨rfl, rfl, rfl⟩

theorem Placeholder.value?_eq_none_iff (nostr : NostrCrate) (p : Placeholder) :
    p.value? nostr ctx stepOutputs = none ↔ ¬ p.Known ctx stepOutputs := by
  unfold Placeholder.value? Placeholder.Known filtered
  cases resolveVariable (String.ofList p.path.text) ctx stepOutputs with
  | none => simp
  | some v => cases p.filter <;> simp

theorem Placeholder.tight_iff (p : Placeholder) : p.Tight ↔ trimChars p.inner = p.inner :=
  trimBoth_eq_self_iff.symm

/-- A failing filter ends both with the same error. -/
theorem renderParts_of_fails : ∀ {parts : List (Placeholder × Literal)},
    (∃ q ∈ parts, q.1.Fails nostr ctx stepOutputs) →
    ∃ e, renderParts (Placeholder.emitted nostr ctx stepOutputs) parts = .error e
      ∧ renderParts (Placeholder.expected nostr ctx stepOutputs) parts = .error e
  | [], h => by simp at h
  | (p, l) :: parts, h => by
    unfold renderParts
    by_cases hp : p.Fails nostr ctx stepOutputs
    · obtain ⟨e, hval⟩ := hp
      refine ⟨e, ?_⟩
      unfold Placeholder.emitted Placeholder.expected
      rw [hval]
      exact ⟨rfl, rfl⟩
    · have hparts : ∃ q ∈ parts, q.1.Fails nostr ctx stepOutputs := by
        obtain ⟨q, hq, hfails⟩ := h
        rcases List.mem_cons.mp hq with rfl | hq
        · exact absurd hfails hp
        · exact ⟨q, hq, hfails⟩
      obtain ⟨e, he, he'⟩ := renderParts_of_fails hparts
      rw [he, he']
      rcases p.emitted_cases nostr ctx stepOutputs with
        ⟨r, hval, hem, hex⟩ | ⟨_, hem, hex⟩
      · rw [hem, hex]
        cases r with
        | error e' => exact absurd ⟨e', hval⟩ hp
        | ok v => exact ⟨e, rfl, rfl⟩
      · rw [hem, hex]
        exact ⟨e, rfl, rfl⟩

/-- Without a failing filter there is a text; it lacks the white space next to the marks of
the placeholders without a variable, and nothing else. -/
theorem renderParts_of_not_fails : ∀ {parts : List (Placeholder × Literal)},
    (∀ q ∈ parts, ¬ q.1.Fails nostr ctx stepOutputs) →
    ∃ x y, renderParts (Placeholder.emitted nostr ctx stepOutputs) parts = .ok x
      ∧ renderParts (Placeholder.expected nostr ctx stepOutputs) parts = .ok y ∧ x.length ≤ y.length
      ∧ (x = y ↔ ∀ q ∈ parts, ¬ q.1.Known ctx stepOutputs → q.1.Tight)
  | [], _ => ⟨[], [], rfl, rfl, Nat.le_refl _, by simp⟩
  | (p, l) :: parts, h => by
    obtain ⟨x, y, hx, hy, hle, hiff⟩ :=
      renderParts_of_not_fails fun q hq => h q (List.mem_cons_of_mem _ hq)
    rw [List.forall_mem_cons, ← hiff, ← p.value?_eq_none_iff nostr, p.tight_iff]
    unfold renderParts
    rw [hx, hy]
    rcases p.emitted_cases nostr ctx stepOutputs with
      ⟨r, hval, hem, hex⟩ | ⟨hval, hem, hex⟩
    · rw [hem, hex]
      cases r with
      | error e => exact absurd ⟨e, hval⟩ (h _ List.mem_cons_self)
      | ok v =>
        refine ⟨v ++ (l.text ++ x), v ++ (l.text ++ y), rfl, rfl, ?_, ?_⟩
        · simp only [List.length_append]
          omega
        · simp [hval]
    · rw [hem, hex]
      have htrim := length_trimBoth_le (p := Str.isWhitespace) p.inner
      refine ⟨_, _, rfl, rfl, ?_, ?_⟩
      · unfold Placeholder.written trimChars
        simp only [List.length_append]
        omega
      · constructor
        · intro heq
          -- both texts are as long, so nothing was trimmed here or behind
          have hlen := congrArg List.length heq
          unfold Placeholder.written trimChars at hlen
          simp only [List.length_append] at hlen
          have hself : trimChars p.inner = p.inner :=
            trimBoth_eq_self_of_length (by omega)
          refine ⟨fun _ => hself, ?_⟩
          rw [hself] at heq
          exact List.append_cancel_left (List.append_cancel_left heq)
        · rintro ⟨hself, rfl⟩
          rw [hself hval]
          rfl

/-- **A template is resolved as promised exactly if a filter fails, or no placeholder without a
variable has white space next to its marks.** -/
theorem resolveTemplate_eq_expected_iff (nostr : NostrCrate) (ctx : TriggerContext)
    (stepOutputs : StepOutputs) (t : Template) :
    resolveTemplate nostr (String.ofList t.text) ctx stepOutputs
        = (t.render (Placeholder.expected nostr ctx stepOutputs)).map String.ofList
      ↔ (∃ q ∈ t.parts, q.1.Fails nostr ctx stepOutputs)
        ∨ ∀ q ∈ t.parts, ¬ q.1.Known ctx stepOutputs → q.1.Tight := by
  rw [resolveTemplate_text]
  unfold Template.render
  by_cases hfails : ∃ q ∈ t.parts, q.1.Fails nostr ctx stepOutputs
  · obtain ⟨e, he, he'⟩ := renderParts_of_fails hfails
    rw [he, he']
    exact iff_of_true rfl (.inl hfails)
  have hnot : ∀ q ∈ t.parts, ¬ q.1.Fails nostr ctx stepOutputs := fun q hq hq' =>
    hfails ⟨q, hq, hq'⟩
  obtain ⟨x, y, hx, hy, _, hiff⟩ := renderParts_of_not_fails hnot
  rw [hx, hy, ← hiff]
  simp [Except.map, hfails, String.ofList_inj]

/-! ## A placeholder with room in it -/

/-- The placeholder ` unknown.var `. -/
def roomy : Placeholder where
  path :=
    { before := [' '], text := "unknown.var".toList, after := [' '],
      before_blank := List.all_eq_true.mp (by decide), after_blank :=
        List.all_eq_true.mp (by decide), trimmed := by decide }
  filter := none
  path_no_bar := by decide
  no_mark := by decide
  no_half := by decide

def emptyLiteral : Literal where
  text := []
  no_mark := by decide
  no_half := by decide

/-- A crate that knows no key. -/
def noKeys : NostrCrate where
  PublicKey := Empty
  fromHex := fun _ => none
  toBech32 := fun pk => pk.elim

def noTrigger : TriggerContext where
  text := ""
  author := ""
  channelId := ""
  timestamp := ""
  emoji := ""
  messageId := ""
  webhookFields := ∅

/-- The white space of an unknown placeholder is lost. -/
theorem not_resolveTemplate_eq_expected :
    ¬ ∀ (nostr : NostrCrate) (ctx : TriggerContext) (stepOutputs : StepOutputs) (t : Template),
      resolveTemplate nostr (String.ofList t.text) ctx stepOutputs
        = (t.render (Placeholder.expected nostr ctx stepOutputs)).map String.ofList := by
  intro h
  have hroomy := h noKeys noTrigger ∅ { head := emptyLiteral, parts := [(roomy, emptyLiteral)] }
  rw [resolveTemplate_text] at hroomy
  revert hroomy
  decide

end Pkzz.Workflow
