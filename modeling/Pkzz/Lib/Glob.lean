import Mathlib.Data.List.Forall2

/-!
# Globs over segments

A pattern is a list of pieces, a name a list of segments. A piece stands for one given segment, for
any one, or, where it is the last, for everything that is left, which is not nothing.
-/

namespace Pkzz.Lib.Glob

variable {A : Type}

inductive Piece (A : Type) where
  | exactly (a : A)
  | any
  | rest
  deriving DecidableEq

/-- What stands for one segment. -/
def Piece.Admits : Piece A → A → Prop
  | .exactly a, b => a = b
  | .any, _ => True
  | .rest, _ => False

inductive Matches : List (Piece A) → List A → Prop
  | nil : Matches [] []
  | cons {p : Piece A} {ps : List (Piece A)} {a : A} {as : List A} (h : p.Admits a)
      (hs : Matches ps as) : Matches (p :: ps) (a :: as)
  /-- The last piece takes one or more segments. -/
  | rest {a : A} {as : List A} : Matches [.rest] (a :: as)

variable {p : Piece A} {ps : List (Piece A)} {a : A} {as : List A}

theorem matches_nil_right : ¬ Matches (p :: ps) ([] : List A) := nofun

theorem matches_nil_left : Matches ([] : List (Piece A)) as ↔ as = [] := by
  constructor
  · intro h
    cases h
    rfl
  · intro h
    rw [h]
    exact .nil

theorem matches_cons (hp : p ≠ .rest) : Matches (p :: ps) (a :: as) ↔ p.Admits a ∧
    Matches ps as := by
  constructor
  · intro h
    cases h with
    | cons h hs => exact ⟨h, hs⟩
    | rest => exact absurd rfl hp
  · intro h
    exact .cons h.1 h.2

theorem matches_rest : Matches [.rest] as ↔ as ≠ [] := by
  cases as with
  | nil => exact iff_of_false matches_nil_right (fun h => h rfl)
  | cons a as => exact iff_of_true .rest (List.cons_ne_nil a as)

/-- Without a last piece for the rest, pieces and segments go one to one. -/
theorem matches_iff_forall₂ (h : ∀ p ∈ ps, p ≠ .rest) : Matches ps as ↔
    List.Forall₂ Piece.Admits ps as := by
  induction ps generalizing as with
  | nil => rw [matches_nil_left, List.forall₂_nil_left_iff]
  | cons p ps ih =>
    cases as with
    | nil => exact iff_of_false matches_nil_right nofun
    | cons a as =>
      rw [matches_cons (h p List.mem_cons_self), List.forall₂_cons, ih fun q hq =>
        h q (List.mem_cons_of_mem _ hq)]

/-- With one, the pieces before it go one to one with as many segments, and at least one is left. -/
theorem matches_append_rest (h : ∀ p ∈ ps, p ≠ .rest) :
    Matches (ps ++ [.rest]) as ↔ ps.length < as.length ∧
      List.Forall₂ Piece.Admits ps (as.take ps.length) := by
  induction ps generalizing as with
  | nil =>
    rw [List.nil_append, matches_rest, List.length_nil, List.take_zero, List.length_pos_iff]
    exact (and_iff_left List.Forall₂.nil).symm
  | cons p ps ih =>
    cases as with
    | nil => exact iff_of_false matches_nil_right (fun hlt => absurd hlt.1 (Nat.not_lt_zero _))
    | cons a as =>
      rw [List.cons_append, matches_cons (h p List.mem_cons_self), ih fun q hq =>
        h q (List.mem_cons_of_mem _ hq),
        List.length_cons, List.length_cons, List.take_succ_cons, List.forall₂_cons,
          Nat.succ_lt_succ_iff]
      tauto

end Pkzz.Lib.Glob
