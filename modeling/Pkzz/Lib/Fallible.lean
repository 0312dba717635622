import Mathlib.Init

/-!
# Calls that may fail

A method on `&mut self` that returns a `Result`. When it fails, what it changed before it
failed stays changed, so that a failing call leaves the value alone only if it fails early.
A method on `&self` changes nothing.

The rules below go through a method from its start. Each step that can fail leaves the goal
for its failure, and the goal for the rest of the method.
-/

namespace Pkzz.Lib

abbrev Fallible (σ ε : Type) := ExceptT ε (StateM σ)

namespace Fallible

variable {σ ε α β : Type} {s : σ}

/-- What is returned, and the value after the call. -/
def call (x : Fallible σ ε α) (s : σ) : Except ε α × σ := x.run.run s

/-- A method on `&self`. -/
def reads (f : σ → Except ε α) : Fallible σ ε α := ExceptT.mk fun s => (f s, s)

/-- `?` on a `Result` that is there already. -/
def ofExcept (r : Except ε α) : Fallible σ ε α := reads fun _ => r

theorem call_bind {x : Fallible σ ε β} {k : β → Fallible σ ε α} :
    (x >>= k).call s = match x.call s with
      | (.ok b, t) => (k b).call t
      | (.error e, t) => (.error e, t) := by
  unfold call
  rw [ExceptT.run_bind, StateT.run_bind]
  cases hx : x.run.run s with
  | mk r t => cases r <;> rfl

-- what is promised about a call
variable {P : Except ε α × σ → Prop}

theorem pure_rule {a : α} (h : P (.ok a, s)) : P ((pure a : Fallible σ ε α).call s) := h

theorem throw_rule {e : ε} (h : P (.error e, s)) : P ((throw e : Fallible σ ε α).call s) := h

theorem reads_bind {f : σ → Except ε β} {k : β → Fallible σ ε α}
    (herr : ∀ e, f s = .error e → P (.error e, s))
    (hok : ∀ b, f s = .ok b → P ((k b).call s)) : P ((reads f >>= k).call s) := by
  rw [call_bind]
  have hreads : (reads f).call s = (f s, s) := rfl
  rw [hreads]
  cases hf : f s with
  | ok b => exact hok b hf
  | error e => exact herr e hf

theorem ofExcept_bind {r : Except ε β} {k : β → Fallible σ ε α}
    (herr : ∀ e, r = .error e → P (.error e, s))
    (hok : ∀ b, r = .ok b → P ((k b).call s)) : P ((ofExcept r >>= k).call s) :=
  reads_bind herr hok

theorem modify_bind {f : σ → σ} {k : PUnit → Fallible σ ε α} (h : P ((k ⟨⟩).call (f s))) :
    P (((modify f : Fallible σ ε PUnit) >>= k).call s) := by
  rw [call_bind]
  exact h

theorem modify_rule {f : σ → σ} {P : Except ε PUnit × σ → Prop} (h : P (.ok ⟨⟩, f s)) :
    P ((modify f : Fallible σ ε PUnit).call s) := h

theorem call_map {f : α → β} {x : Fallible σ ε α} :
    (f <$> x).call s = ((x.call s).1.map f, (x.call s).2) := by
  rw [← bind_pure_comp, call_bind]
  cases hx : x.call s with
  | mk r t => cases r <;> rfl

end Fallible

end Pkzz.Lib
