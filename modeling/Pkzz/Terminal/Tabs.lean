import Mathlib.Data.Set.Defs
import Mathlib.Logic.Function.Iterate
import Pkzz.Terminal.Units

/-!
# Backward tabs stop early and lose nothing

The terminal would make as many steps as the sequence asks for, also where no step moves the cursor
any more. The wrapper makes one step at a time and stops at the first one that leaves the cursor
where it is. That no later step would have moved it is a fact about tab stops: a step goes to the
nearest stop on the left, and if there is none, there is none after the step either.

The columns that the steps pass add up to the column the cursor came from. The step that fails is
charged the columns that are left, and so the whole costs no more than one row.
-/

namespace Pkzz.Terminal

/-- Where a step back goes from column `before`: to the nearest stop on its left, and nowhere if
there is none. -/
def NearestStop (stops : Set Nat) (before after : Nat) : Prop :=
  (after ∈ stops ∧ after < before ∧ ∀ stop ∈ stops, stop < before → stop ≤ after)
    ∨ (after = before ∧ ∀ stop ∈ stops, before ≤ stop)

theorem NearestStop.le {stops : Set Nat} {before after : Nat} (h : NearestStop stops before after) :
    after ≤ before := by
  rcases h with ⟨_, hlt, _⟩ | ⟨heq, _⟩ <;> omega

/-- The stops decide where a step goes. -/
theorem NearestStop.unique {stops : Set Nat} {before a b : Nat} (ha : NearestStop stops before a)
    (hb : NearestStop stops before b) : a = b := by
  rcases ha with ⟨hmem, hlt, hle⟩ | ⟨rfl, hnone⟩
  · rcases hb with ⟨hmem', hlt', hle'⟩ | ⟨rfl, hnone'⟩
    · have h1 := hle b hmem' hlt'
      have h2 := hle' a hmem hlt
      omega
    · have := hnone' a hmem
      omega
  · rcases hb with ⟨hmem', hlt', _⟩ | ⟨rfl, _⟩
    · have := hnone b hmem'
      omega
    · rfl

namespace Handler

variable {π σ : Type} (h : Handler π σ)

/-- One step back, as the terminal makes it. -/
def step (inner : σ) : σ := h.call (.moveBackwardTabs 1) inner

/-- Every step goes to the nearest of these stops. -/
def StopsAt (stops : Set Nat) : Prop :=
  ∀ inner : σ, NearestStop stops (h.cursorColumn inner) (h.cursorColumn (h.step inner))

/-- The terminal with the calls to it counted beside it. -/
def counted : Handler π (σ × Nat) where
  call callback s := (h.call callback s.1, s.2 + 1)
  cursorColumn s := h.cursorColumn s.1

variable {h} {stops : Set Nat}

/-- A fixed point is permanent: where one step does not move the cursor, no number of steps does. -/
theorem StopsAt.stays (hstops : h.StopsAt stops) {inner : σ}
    (hfixed : h.cursorColumn (h.step inner) = h.cursorColumn inner)
    (n : Nat) : h.cursorColumn (h.step^[n] inner) = h.cursorColumn inner := by
  have hnone : NearestStop stops (h.cursorColumn inner) (h.cursorColumn inner) :=
    hfixed ▸ hstops inner
  induction n with
  | zero => rfl
  | succ n ih =>
    rw [Function.iterate_succ_apply']
    have hnext := hstops (h.step^[n] inner)
    rw [ih] at hnext
    exact hnext.unique hnone

theorem StopsAt.counted (hstops : h.StopsAt stops) : h.counted.StopsAt stops := fun s => hstops s.1

end Handler

namespace Counting

variable {π σ : Type} {h : Handler π σ} {stops : Set Nat}

/-- The wrapper around the terminal whose calls are counted, after so many of them. -/
def withCalls (c : Counting σ) (calls : Nat) : Counting (σ × Nat) :=
  ⟨(c.inner, calls), c.work, c.columns, c.lines, c.scrollback⟩

/-- How many calls the wrapper makes to the terminal for one callback. -/
def delegated (h : Handler π σ) (c : Counting σ) (call : Callback π) : Nat :=
  ((c.withCalls 0).dispatch h.counted call).inner.2

/-! ## The loop, one step at a time -/

theorem stepTabs_fixed {c : Counting σ} {count : Nat}
    (hfixed : h.cursorColumn (h.step c.inner) = h.cursorColumn c.inner) : stepTabs h (count + 1) c
      = { c with
        inner := h.step c.inner, work := saturatingAdd c.work (h.cursorColumn c.inner) } := by
  unfold Handler.step at *
  simp [stepTabs, hfixed]

theorem stepTabs_moved {c : Counting σ} {count : Nat}
    (hmoved : h.cursorColumn (h.step c.inner) ≠ h.cursorColumn c.inner) : stepTabs h (count + 1) c
      = stepTabs h count { c with
          inner := h.step c.inner
          work := saturatingAdd c.work
            (h.cursorColumn c.inner - h.cursorColumn (h.step c.inner)) } := by
  unfold Handler.step at *
  simp [stepTabs, hmoved]

/-- **The same column.** What is left out after the first step that fails would not have moved the
cursor. -/
theorem stepTabs_column (hstops : h.StopsAt stops) (count : Nat) (c : Counting σ) :
    h.cursorColumn (stepTabs h count c).inner = h.cursorColumn (h.step^[count] c.inner) := by
  induction count generalizing c with
  | zero => rfl
  | succ count ih =>
    by_cases hfixed : h.cursorColumn (h.step c.inner) = h.cursorColumn c.inner
    · rw [stepTabs_fixed hfixed, hstops.stays hfixed]
      exact hfixed
    · rw [stepTabs_moved hfixed, ih, Function.iterate_succ_apply]

/-- The distances telescope, and the step that fails pays for what is left of the row. -/
theorem stepTabs_work (hstops : h.StopsAt stops) (count : Nat) (c : Counting σ) :
    (stepTabs h count c).work ≤ c.work + h.cursorColumn c.inner := by
  induction count generalizing c with
  | zero => simp [stepTabs]
  | succ count ih =>
    by_cases hfixed : h.cursorColumn (h.step c.inner) = h.cursorColumn c.inner
    · rw [stepTabs_fixed hfixed]
      exact saturatingAdd_le _ _
    rw [stepTabs_moved hfixed]
    refine Nat.le_trans (ih _) ?_
    have hle := (hstops c.inner).le
    have hadd := saturatingAdd_le c.work (h.cursorColumn c.inner - h.cursorColumn (h.step c.inner))
    dsimp only
    omega

/-- Each step but the last one goes at least one column to the left. -/
theorem stepTabs_calls (hstops : h.StopsAt stops) (count : Nat) (c : Counting (σ × Nat)) :
    (stepTabs h.counted count c).inner.2 ≤ c.inner.2 + h.cursorColumn c.inner.1 + 1 := by
  induction count generalizing c with
  | zero =>
    simp only [stepTabs]
    omega
  | succ count ih =>
    by_cases hfixed : h.counted.cursorColumn (h.counted.step c.inner) =
      h.counted.cursorColumn c.inner
    · rw [stepTabs_fixed hfixed]
      simp only [Handler.counted, Handler.step]
      omega
    rw [stepTabs_moved hfixed]
    refine Nat.le_trans (ih _) ?_
    have hle := (hstops.counted c.inner).le
    simp only [Handler.counted, Handler.step] at hfixed hle ⊢
    omega

/-! ## Backward tabs -/

/-- **Backward tabs are exact and cost at most a row.** -/
theorem backwardTabs_exact (hstops : h.StopsAt stops) (c : Counting σ)
    (hcolumn : h.cursorColumn c.inner < c.columns) (count : Nat) :
    h.cursorColumn (c.dispatch h (.moveBackwardTabs count)).inner =
      h.cursorColumn (h.step^[count] c.inner)
      ∧ c.delegated h (.moveBackwardTabs count) ≤ c.columns + 1
      ∧ (c.dispatch h (.moveBackwardTabs count)).work ≤ c.work + (c.columns + 1) := by
  refine ⟨stepTabs_column hstops count (c.charge 1), ?_, ?_⟩
  · have hcalls := stepTabs_calls hstops count ((c.withCalls 0).charge 1)
    simp only [withCalls, charge] at hcalls
    refine Nat.le_trans hcalls ?_
    omega
  · have hwork := stepTabs_work hstops count (c.charge 1)
    have hcharge := saturatingAdd_le c.work 1
    simp only [charge] at hwork
    simp only [dispatch, charge]
    omega

/-- A row with a stop at every eighth column, and a cursor. -/
def everyEighth : Handler Unit Nat where
  call
    | .moveBackwardTabs count => fun column =>
        (fun at_ => if at_ = 0 then 0 else (at_ - 1) / 8 * 8)^[count] column
    | _ => id
  cursorColumn column := column

theorem everyEighth_stopsAt : everyEighth.StopsAt {column | column % 8 = 0} := by
  intro column
  simp only [Handler.step, everyEighth, Function.iterate_one]
  by_cases hzero : column = 0
  · exact .inr ⟨by simp [hzero], fun stop _ => by omega⟩
  rw [if_neg hzero]
  refine .inl ⟨?_, by omega, fun stop hstop hlt => ?_⟩
  · show (column - 1) / 8 * 8 % 8 = 0
    omega
  · have hstop : stop % 8 = 0 := hstop
    omega

/-- From column 20, with far more steps than there are stops. -/
theorem backwardTabs_exact_everyEighth :
    (new 20 24 2 0).delegated everyEighth (.moveBackwardTabs 65535) ≤ 24 + 1 :=
  (backwardTabs_exact everyEighth_stopsAt (new 20 24 2 0) (by decide) 65535).2.1

end Counting

end Pkzz.Terminal
