import Mathlib.Data.List.Basic

/-!
# Histories

A list that grows at its end, oldest first. `Justified` says that each entry has its reason
in what was there before it. An entry only has to be justified when it is added.
-/

namespace Pkzz.Lib

variable {A : Type} {Q R : List A → A → Prop} {l : List A} {x : A}

def Justified (Q : List A → A → Prop) (l : List A) : Prop :=
  ∀ pre x post, l = pre ++ x :: post → Q pre x

theorem justified_nil : Justified Q [] := by
  intro pre x post h
  cases pre <;> cases h

theorem justified_append (hl : Justified Q l) (hx : Q l x) : Justified Q (l ++ [x]) := by
  intro pre y post h
  rcases List.eq_nil_or_concat post with hpost | ⟨post', z, hpost⟩
  · rw [hpost] at h
    obtain ⟨hpre, hy⟩ := List.append_inj' h rfl
    rw [← hpre, ← (List.cons.inj hy).1]
    exact hx
  · rw [hpost, List.concat_eq_append, ← List.cons_append, ← List.append_assoc] at h
    exact hl pre y post' (List.append_inj' h rfl).1

theorem Justified.left {post : List A} (h : Justified Q (l ++ post)) : Justified Q l := by
  intro pre x rest hl
  refine h pre x (rest ++ post) ?_
  rw [hl, List.append_assoc, List.cons_append]

/-- The reasons of the entries before may be used. -/
theorem Justified.imp (h : Justified Q l) (hQR : ∀ pre x, Justified Q pre → Q pre x → R pre x) :
    Justified R l := by
  intro pre x post hl
  refine hQR pre x ?_ (h pre x post hl)
  rw [hl] at h
  exact h.left

/-- An entry has its reason. -/
theorem Justified.of_mem (h : Justified Q l) (hx : x ∈ l) :
    ∃ pre post, l = pre ++ x :: post ∧ Justified Q pre ∧ Q pre x := by
  obtain ⟨pre, post, hl⟩ := List.append_of_mem hx
  refine ⟨pre, post, hl, ?_, h pre x post hl⟩
  rw [hl] at h
  exact h.left

end Pkzz.Lib
