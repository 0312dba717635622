import Mathlib.Data.List.Basic

/-!
# Machines and their runs

A machine takes one action after the other; an action that is not enabled has no result.
A condition on states and actions can be asked of every step of a run. An invariant needs
to be kept only by steps that meet the condition the run meets.
-/

namespace Pkzz.Lib

/-- A deterministic transition system whose actions may be disabled. -/
structure Machine (S A : Type) where
  step : S → A → Option S

namespace Machine

variable {S A : Type} (M : Machine S A)

/-- The state after a list of actions, if each of them was enabled. -/
def run : S → List A → Option S
  | s, [] => some s
  | s, a :: as =>
    match M.step s a with
    | none => none
    | some s' => run s' as

/-- Every step of the run from `s` meets `P`. -/
def Always (P : S → A → Prop) : S → List A → Prop
  | _, [] => True
  | s, a :: as => P s a ∧ ∀ s', M.step s a = some s' → Always P s' as

variable {M} {P Q : S → A → Prop} {I : S → Prop} {s t : S} {a : A} {as bs : List A}

@[simp] theorem run_nil : M.run s [] = some s := rfl

theorem run_cons : M.run s (a :: as) = some t ↔ ∃ s', M.step s a = some s' ∧
    M.run s' as = some t := by
  rw [run]
  cases hstep : M.step s a with
  | none => simp
  | some s' => simp

theorem run_append : M.run s (as ++ bs) = some t ↔ ∃ u, M.run s as = some u ∧
    M.run u bs = some t := by
  induction as generalizing s with
  | nil => simp
  | cons a as ih =>
    rw [List.cons_append, run_cons]
    constructor
    · intro h
      obtain ⟨s', hstep, hrest⟩ := h
      obtain ⟨u, hu, ht⟩ := ih.mp hrest
      exact ⟨u, run_cons.mpr ⟨s', hstep, hu⟩, ht⟩
    · intro h
      obtain ⟨u, hu, ht⟩ := h
      obtain ⟨s', hstep, hrest⟩ := run_cons.mp hu
      exact ⟨s', hstep, ih.mpr ⟨u, hrest, ht⟩⟩

theorem always_cons : M.Always P s (a :: as) ↔ P s a ∧ ∀ s', M.step s a = some s' →
    M.Always P s' as :=
  Iff.rfl

/-- For an action that is enabled. -/
theorem always_cons_of_step {s' : S} (ha : M.step s a = some s') :
    M.Always P s (a :: as) ↔ P s a ∧ M.Always P s' as := by
  rw [always_cons, ha]
  constructor
  · intro h
    exact ⟨h.1, h.2 s' rfl⟩
  · intro h
    refine ⟨h.1, ?_⟩
    intro u hu
    cases hu
    exact h.2

/-- Whether the steps of a run meet `P` can be computed. -/
instance decidableAlways (P : S → A → Prop) [∀ s a, Decidable (P s a)] :
    ∀ (s : S) (as : List A), Decidable (M.Always P s as)
  | _, [] => isTrue trivial
  | s, a :: as =>
    match h : M.step s a with
    | none => decidable_of_iff (P s a) ⟨fun hP =>
        ⟨hP, fun _ hs => by rw [h] at hs; cases hs⟩, And.left⟩
    | some s' =>
      have : Decidable (M.Always P s' as) := decidableAlways P s' as
      decidable_of_iff (P s a ∧ M.Always P s' as) (always_cons_of_step h).symm

theorem always_append (h : M.run s as = some t) :
    M.Always P s (as ++ bs) ↔ M.Always P s as ∧ M.Always P t bs := by
  induction as generalizing s with
  | nil =>
    have hst : s = t := Option.some.inj h
    rw [hst, List.nil_append]
    simp [Always]
  | cons a as ih =>
    obtain ⟨s', hstep, hrest⟩ := run_cons.mp h
    rw [List.cons_append, always_cons_of_step hstep, always_cons_of_step hstep, ih hrest, and_assoc]

/-- A run meets `P` as far as it is taken. -/
theorem Always.left (hP : M.Always P s (as ++ bs)) : M.Always P s as := by
  induction as generalizing s with
  | nil => trivial
  | cons a as ih => exact ⟨hP.1, fun s' ha => ih (hP.2 s' ha)⟩

/-- **The invariant rule.** What every step that meets `P` keeps holds after every run that
meets `P`. -/
theorem invariant (hstep : ∀ s a s', I s → P s a → M.step s a = some s' → I s') (hs : I s)
    (hP : M.Always P s as) (h : M.run s as = some t) : I t := by
  induction as generalizing s with
  | nil =>
    cases h
    exact hs
  | cons a as ih =>
    obtain ⟨s', ha, hrest⟩ := run_cons.mp h
    exact ih (hstep s a s' hs hP.1 ha) (hP.2 s' ha) hrest

/-- An invariant of the run may be used at every step of it. -/
theorem Always.imp (hstep : ∀ s a s', I s → P s a → M.step s a = some s' → I s')
    (himp : ∀ s a, I s → P s a → Q s a) (hs : I s) (hP : M.Always P s as) : M.Always Q s as := by
  induction as generalizing s with
  | nil => trivial
  | cons a as ih =>
    refine ⟨himp s a hs hP.1, ?_⟩
    intro s' ha
    exact ih (hstep s a s' hs hP.1 ha) (hP.2 s' ha)

theorem Always.and (hP : M.Always P s as) (hQ : M.Always Q s as) :
    M.Always (fun s a => P s a ∧ Q s a) s as := by
  induction as generalizing s with
  | nil => trivial
  | cons a as ih => exact ⟨⟨hP.1, hQ.1⟩, fun s' ha => ih (hP.2 s' ha) (hQ.2 s' ha)⟩

theorem always_true : M.Always (fun _ _ => True) s as := by
  induction as generalizing s with
  | nil => trivial
  | cons a as ih => exact ⟨trivial, fun _ _ => ih⟩

theorem always_of_forall (h : ∀ a ∈ as, ∀ s, P s a) : M.Always P s as := by
  induction as generalizing s with
  | nil => trivial
  | cons a as ih =>
    refine ⟨h a List.mem_cons_self s, ?_⟩
    intro s' _
    exact ih fun b hb => h b (List.mem_cons_of_mem a hb)

/-- **The exact rule.** Where a step leads from `I` to `I` exactly when it meets `P`, a run stays in
`I` exactly when all its steps meet `P`. -/
theorem always_iff {J : S → Prop} (hJ : ∀ s a s', J s → M.step s a = some s' → J s')
    (hstep : ∀ s a s', J s → I s → M.step s a = some s' → (I s' ↔ P s a)) (hsJ : J s) (hs : I s)
    (h : M.run s as = some t) : M.Always P s as ↔ ∀ n u, M.run s (as.take n) = some u → I u := by
  induction as generalizing s with
  | nil =>
    refine ⟨?_, fun _ => trivial⟩
    intro _ n u hu
    rw [List.take_nil] at hu
    cases hu
    exact hs
  | cons a as ih =>
    obtain ⟨s', ha, hrest⟩ := run_cons.mp h
    rw [always_cons_of_step ha]
    constructor
    · rintro ⟨hP, hmore⟩ n u hu
      have hs' := (hstep s a s' hsJ hs ha).mpr hP
      cases n with
      | zero =>
        cases hu
        exact hs
      | succ n =>
        rw [List.take_succ_cons] at hu
        obtain ⟨v, hv, hvu⟩ := run_cons.mp hu
        rw [ha] at hv
        rw [← Option.some.inj hv] at hvu
        exact (ih (hJ s a s' hsJ ha) hs' hrest).mp hmore n u hvu
    · intro hall
      have hs' : I s' := hall 1 s' (run_cons.mpr ⟨s', ha, rfl⟩)
      refine ⟨(hstep s a s' hsJ hs ha).mp hs', (ih (hJ s a s' hsJ ha) hs' hrest).mpr ?_⟩
      intro n u hu
      exact hall (n + 1) u (by rw [List.take_succ_cons]; exact run_cons.mpr ⟨s', ha, hu⟩)

/-- Actions that do not concern `u` may be left out, if the others do the same to it. -/
theorem run_filter {R : S → S → Prop} {p : A → Bool}
    (hkeep : ∀ s a s' u, I s → R s u → p a = true → M.step s a = some s' → ∃ u',
      M.step u a = some u' ∧ R s' u')
    (hskip : ∀ s a s' u, I s → R s u → p a = false → M.step s a = some s' → R s' u)
    (hstep : ∀ s a s', I s → M.step s a = some s' → I s') (hs : I s) {u : S} (hu : R s u)
    (h : M.run s as = some t) : ∃ v, M.run u (as.filter p) = some v ∧ R t v := by
  induction as generalizing s u with
  | nil =>
    cases h
    exact ⟨u, rfl, hu⟩
  | cons a as ih =>
    obtain ⟨s', ha, hrest⟩ := run_cons.mp h
    rw [List.filter_cons]
    by_cases hp : p a = true
    · rw [if_pos hp]
      obtain ⟨u', hua, hu'⟩ := hkeep s a s' u hs hu hp ha
      obtain ⟨v, hv, htv⟩ := ih (hstep s a s' hs ha) hu' hrest
      exact ⟨v, run_cons.mpr ⟨u', hua, hv⟩, htv⟩
    · rw [if_neg hp]
      exact ih (hstep s a s' hs ha) (hskip s a s' u hs hu (by simpa using hp) ha) hrest

end Machine

end Pkzz.Lib
