import Mathlib.Algebra.GroupWithZero.Nat
import Mathlib.Data.List.Basic

/-!
# What the parser's callbacks cost

The parser calls the terminal's handler once for each character or escape sequence it has read. A
wrapper around the handler forwards every call and adds up what the calls cost, in cells they may
touch. What a call costs is read off the grid, except for backward tabs, which are charged by how
far the cursor moves.
-/

namespace Pkzz.Terminal

def u64Max : Nat := 2 ^ 64 - 1

def saturatingAdd (a b : Nat) : Nat := min (a + b) u64Max

def saturatingMul (a b : Nat) : Nat := min (a * b) u64Max

theorem saturatingAdd_le (a b : Nat) : saturatingAdd a b ≤ a + b := Nat.min_le_left _ _

theorem saturatingAdd_le_max (a b : Nat) : saturatingAdd a b ≤ u64Max := Nat.min_le_right _ _

theorem saturatingAdd_mono {a b c : Nat} (h : b ≤ c) : saturatingAdd a b ≤ saturatingAdd a c := by
  unfold saturatingAdd
  omega

theorem saturatingAdd_zero {a : Nat} (h : a ≤ u64Max) : saturatingAdd 0 a = a := by
  unfold saturatingAdd
  omega

/-- The calls to a handler. `π` is what the calls that are charged one unit are, and the arguments
no price reads. -/
inductive Callback (π : Type) where
  | plain (call : π)
  | eraseChars (count : Nat)
  | deleteChars (count : Nat)
  | insertBlank (count : Nat)
  | putTab (count : Nat)
  | moveForwardTabs (count : Nat)
  | moveBackwardTabs (count : Nat)
  | scrollUp (n : Nat)
  | deleteLines (n : Nat)
  | scrollDown (n : Nat)
  | insertBlankLines (n : Nat)
  | clearLine (mode : π)
  | clearScreen (mode : π)
  | decaln
  | resetState
deriving DecidableEq

/-- The terminal that the calls go to. -/
structure Handler (π σ : Type) where
  call : Callback π → σ → σ
  cursorColumn : σ → Nat

/-- The wrapper: the terminal it drives, the work so far and the grid it prices the calls by. -/
structure Counting (σ : Type) where
  inner : σ
  work : Nat
  columns : Nat
  lines : Nat
  scrollback : Nat

namespace Counting

variable {π σ : Type}

def new (inner : σ) (columns lines scrollback : Nat) : Counting σ :=
  ⟨inner, 0, columns, lines, scrollback⟩

def cells (c : Counting σ) : Nat := saturatingMul c.columns c.lines

def clamp (n bound : Nat) : Nat := max (min n bound) 1

def charge (c : Counting σ) (weight : Nat) : Counting σ :=
  { c with work := saturatingAdd c.work weight }

/-- The table of weights. Backward tabs pay one here and for each step as it is made. -/
def weight (c : Counting σ) : Callback π → Nat
  | .plain _ => 1
  | .eraseChars count => clamp count c.columns
  | .deleteChars _ | .insertBlank _ | .putTab _ | .moveForwardTabs _ | .clearLine _ => c.columns
  | .moveBackwardTabs _ => 1
  | .scrollUp n | .deleteLines n | .scrollDown n | .insertBlankLines n =>
      saturatingMul (clamp n c.lines) c.columns
  | .clearScreen _ | .decaln => c.cells
  | .resetState => saturatingAdd (saturatingMul c.cells 2) (saturatingMul c.scrollback c.columns)

variable (h : Handler π σ)

/-- One tab back after the other, until one does not move the cursor. -/
def stepTabs : Nat → Counting σ → Counting σ
  | 0, c => c
  | count + 1, c =>
    let before := h.cursorColumn c.inner
    let inner := h.call (.moveBackwardTabs 1) c.inner
    let after := h.cursorColumn inner
    let scanned := if after = before then before else before - after
    let moved : Counting σ := { c with inner, work := saturatingAdd c.work scanned }
    -- a fixed point is permanent
    if after = before then moved else stepTabs count moved

def dispatch (c : Counting σ) : Callback π → Counting σ
  | .moveBackwardTabs count => stepTabs h count (c.charge 1)
  | call => { c.charge (c.weight call) with inner := h.call call c.inner }

/-- The calls, in order. -/
def run (c : Counting σ) : List (Callback π) → Counting σ
  | [] => c
  | call :: calls => run (c.dispatch h call) calls

/-! ## The work adds up -/

variable {h} {c d : Counting σ}

/-- The same grid and terminal, with at most `n` more work. -/
structure Within (n : Nat) (c d : Counting σ) : Prop where
  inner : d.inner = c.inner
  columns : d.columns = c.columns
  lines : d.lines = c.lines
  scrollback : d.scrollback = c.scrollback
  work : d.work ≤ n + c.work

theorem saturatingAdd_within {n a b : Nat} (h : b ≤ n + a) (weight : Nat) :
    saturatingAdd b weight ≤ n + saturatingAdd a weight := by
  unfold saturatingAdd
  omega

theorem within_charge {n : Nat} (hw : Within n c d) (weight : Nat) :
    Within n (c.charge weight) (d.charge weight) :=
  ⟨hw.inner, hw.columns, hw.lines, hw.scrollback, saturatingAdd_within hw.work weight⟩

theorem within_stepTabs {n : Nat} (count : Nat) (hw : Within n c d) :
    Within n (stepTabs h count c) (stepTabs h count d) := by
  induction count generalizing c d with
  | zero => exact hw
  | succ count ih =>
    rw [stepTabs, stepTabs, hw.inner]
    have hstep : ∀ (inner : σ) (scanned : Nat),
        Within n { c with inner := inner, work := saturatingAdd c.work scanned }
        { d with inner := inner, work := saturatingAdd d.work scanned } := by
      intro inner scanned
      exact ⟨rfl, hw.columns, hw.lines, hw.scrollback, saturatingAdd_within hw.work scanned⟩
    split
    · exact hstep _ _
    · exact ih (hstep _ _)

theorem weight_within {n : Nat} (hw : Within n c d) (call : Callback π) :
    d.weight call = c.weight call := by
  have hcells : d.cells = c.cells := by
    unfold cells
    rw [hw.columns, hw.lines]
  unfold weight
  rw [hcells, hw.columns, hw.lines, hw.scrollback]

theorem within_dispatch {n : Nat} (hw : Within n c d) (call : Callback π) :
    Within n (c.dispatch h call) (d.dispatch h call) := by
  unfold dispatch
  split
  · exact within_stepTabs _ (within_charge hw 1)
  have hcharge := within_charge hw (c.weight call)
  rw [weight_within hw]
  refine ⟨?_, hcharge.columns, hcharge.lines, hcharge.scrollback, hcharge.work⟩
  dsimp only
  rw [hw.inner]

theorem within_run {n : Nat} (calls : List (Callback π)) (hw : Within n c d) :
    Within n (c.run h calls) (d.run h calls) := by
  induction calls generalizing c d with
  | nil => exact hw
  | cons call calls ih => exact ih (within_dispatch hw call)

theorem run_append (calls more : List (Callback π)) :
    c.run h (calls ++ more) = (c.run h calls).run h more := by
  induction calls generalizing c with
  | nil => rfl
  | cons call calls ih => exact ih

/-- The grid stays as it was. -/
structure SameGrid (c d : Counting σ) : Prop where
  columns : d.columns = c.columns
  lines : d.lines = c.lines
  scrollback : d.scrollback = c.scrollback

theorem SameGrid.trans {e : Counting σ} (hcd : SameGrid c d) (hde : SameGrid d e) : SameGrid c e :=
  ⟨hde.columns.trans hcd.columns, hde.lines.trans hcd.lines, hde.scrollback.trans hcd.scrollback⟩

theorem sameGrid_stepTabs (count : Nat) : SameGrid c (stepTabs h count c) := by
  induction count generalizing c with
  | zero => exact ⟨rfl, rfl, rfl⟩
  | succ count ih =>
    rw [stepTabs]
    split
    · exact ⟨rfl, rfl, rfl⟩
    · refine SameGrid.trans ?_ ih
      exact ⟨rfl, rfl, rfl⟩

theorem sameGrid_dispatch (call : Callback π) : SameGrid c (c.dispatch h call) := by
  unfold dispatch
  split
  · have hcharge : SameGrid c (c.charge 1) := ⟨rfl, rfl, rfl⟩
    exact hcharge.trans (sameGrid_stepTabs _)
  · exact ⟨rfl, rfl, rfl⟩

theorem sameGrid_run (calls : List (Callback π)) : SameGrid c (c.run h calls) := by
  induction calls generalizing c with
  | nil => exact ⟨rfl, rfl, rfl⟩
  | cons call calls ih => exact (sameGrid_dispatch call).trans ih

/-- **Work is counted apart.** Calls cost no more in one count than in two. -/
theorem work_append (inner : σ) (columns lines scrollback : Nat) (calls more : List (Callback π)) :
    let first := (new inner columns lines scrollback).run h calls
    ((new inner columns lines scrollback).run h (calls ++ more)).work
      ≤ first.work + ((new first.inner columns lines scrollback).run h more).work := by
  intro first
  have hgrid : SameGrid (new inner columns lines scrollback) first := sameGrid_run calls
  have hw : Within first.work (new first.inner columns lines scrollback) first :=
    ⟨rfl, hgrid.columns, hgrid.lines, hgrid.scrollback, Nat.le_refl _⟩
  rw [run_append]
  exact (within_run more hw).work

end Counting

end Pkzz.Terminal
