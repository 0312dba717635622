import Mathlib.Init

/-!
# Programs that make calls

A program is done, or it makes a call and goes on from the answer. It runs among others: what may
hold of the world between two of its calls is only what the others keep. A protocol says how the
others move the world on, what has to hold where a call is made, and how a call is answered; a
program keeps the protocol when each of its calls is allowed whenever it is made, whatever the
answers were.
-/

namespace Pkzz.Lib

/-- A program over calls `C`, where a call `c` is answered with an `R c`. -/
inductive Prog (C : Type) (R : C → Type) (α : Type) where
  | done (a : α)
  | call (c : C) (next : R c → Prog C R α)

namespace Prog

variable {C : Type} {R : C → Type} {α β : Type}

def andThen : Prog C R α → (α → Prog C R β) → Prog C R β
  | .done a, f => f a
  | .call c next, f => .call c fun r => (next r).andThen f

instance : Monad (Prog C R) where
  pure := .done
  bind := andThen

/-- One call, for its answer. -/
def ask (c : C) : Prog C R (R c) := .call c .done

end Prog

/-- How the world of a program moves, and what the program owes it. -/
structure Protocol (C : Type) (R : C → Type) (W : Type) where
  /-- What the others may do between two calls. -/
  onward : W → W → Prop
  /-- What has to hold where a call is made. -/
  allowed : W → C → Prop
  /-- How a call is answered, and the world after it. -/
  answers : W → (c : C) → R c → W → Prop
  onward_refl : ∀ w, onward w w
  onward_trans : ∀ {u v w}, onward u v → onward v w → onward u w

namespace Prog

variable {C : Type} {R : C → Type} {W α β : Type} (P : Protocol C R W)

/-- Every call of the program is allowed when it is made, and its result meets `post`. -/
def Keeps : Prog C R α → (W → α → Prop) → W → Prop
  | .done a, post, w => ∀ w', P.onward w w' → post w' a
  | .call c next, post, w =>
    ∀ w', P.onward w w' → P.allowed w' c ∧ ∀ r w'', P.answers w' c r w'' → Keeps (next r) post w''

variable {P} {post post' : W → α → Prop} {w w' : W} {t : Prog C R α}

/-- What a program keeps it keeps whatever the others do. -/
theorem Keeps.onward (hkeeps : Keeps P t post w) (hon : P.onward w w') : Keeps P t post w' := by
  cases t with
  | done a => exact fun u hu => hkeeps u (P.onward_trans hon hu)
  | call c next => exact fun u hu => hkeeps u (P.onward_trans hon hu)

theorem Keeps.mono (hkeeps : Keeps P t post w) (hpost : ∀ w a, post w a → post' w a) :
    Keeps P t post' w := by
  induction t generalizing w with
  | done a => exact fun u hu => hpost u a (hkeeps u hu)
  | call c next ih =>
    intro u hu
    obtain ⟨hallowed, hnext⟩ := hkeeps u hu
    exact ⟨hallowed, fun r v hv => ih r (hnext r v hv)⟩

theorem keeps_pure {a : α} (h : ∀ w', P.onward w w' → post w' a) : Keeps P (pure a) post w := h

/-- **The rule for sequences.** -/
theorem keeps_bind {f : α → Prog C R β} {last : W → β → Prop}
    (h : Keeps P t (fun w a => Keeps P (f a) last w) w) : Keeps P (t >>= f) last w := by
  induction t generalizing w with
  | done a => exact h w (P.onward_refl w)
  | call c next ih =>
    intro u hu
    obtain ⟨hallowed, hnext⟩ := h u hu
    exact ⟨hallowed, fun r v hv => ih r (hnext r v hv)⟩

/-- **The rule for a call.** -/
theorem keeps_ask {c : C} {f : R c → Prog C R β} {last : W → β → Prop}
    (h : ∀ u, P.onward w u → P.allowed u c ∧ ∀ r v, P.answers u c r v → Keeps P (f r) last v) :
    Keeps P (ask c >>= f) last w := h

/-- Where the program stands: the call it makes is allowed, and after an answer it keeps the
protocol from there. -/
theorem Keeps.call {c : C} {next : R c → Prog C R α} (hkeeps : Keeps P (.call c next) post w) :
    P.allowed w c ∧ ∀ r w', P.answers w c r w' → Keeps P (next r) post w' :=
  hkeeps w (P.onward_refl w)

theorem Keeps.result {a : α} (hkeeps : Keeps P (.done a) post w) : post w a :=
  hkeeps w (P.onward_refl w)

/-! ## Harmless programs -/

/-- Every call of the program is one of `p`, and every result one of `q`, whatever the answers are.
-/
def Calls (p : C → Prop) (q : α → Prop) : Prog C R α → Prop
  | .done a => q a
  | .call c next => p c ∧ ∀ r, Calls p q (next r)

variable {p : C → Prop} {q : α → Prop}

theorem calls_pure {a : α} (h : q a) : Calls p q (pure a : Prog C R α) := h

theorem calls_ask {c : C} (h : p c) : Calls p (fun _ => True) (ask c : Prog C R (R c)) :=
  ⟨h, fun _ => trivial⟩

theorem calls_bind {f : α → Prog C R β} {last : β → Prop} (h : Calls p q t)
    (hf : ∀ a, q a → Calls p last (f a)) : Calls p last (t >>= f) := by
  induction t with
  | done a => exact hf a h
  | call c next ih =>
    obtain ⟨hc, hnext⟩ := h
    exact ⟨hc, fun r => ih r (hnext r)⟩

/-- **The rule for harmless programs.** Where its calls are always allowed, a program keeps the
protocol, and only the world has moved on. -/
theorem Calls.keeps {M : W → W → Prop} (htrans : ∀ u v w, M u v → M v w → M u w)
    (honward : ∀ u v, P.onward u v → M u v) (hanswers : ∀ u c r v, p c → P.answers u c r v → M u v)
    (hallowed : ∀ w c, p c → P.allowed w c) (h : Calls p q t) :
    Keeps P t (fun v a => M w v ∧ q a) w := by
  induction t generalizing w with
  | done a => exact fun v hv => ⟨honward w v hv, h⟩
  | call c next ih =>
    intro u hu
    obtain ⟨hc, hnext⟩ := h
    refine ⟨hallowed u c hc, fun r v hv => (ih r (hnext r)).mono fun x a hx => ?_⟩
    exact ⟨htrans w u x (honward w u hu) (htrans u v x (hanswers u c r v hc hv) hx.1), hx.2⟩

end Prog

end Pkzz.Lib
