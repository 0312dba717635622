import Mathlib.Data.List.DropRight
import Mathlib.Data.List.Infix

/-!
# Looking for a mark in a text

`splitFirst mark s` is what stands in front of the first occurrence of a mark and what stands
behind it. Behind a piece that neither contains the mark nor ends with a part of it, the mark
is found where it is.
-/

namespace Pkzz.Lib

variable {α : Type}

section

variable [DecidableEq α]

/-- The text in front of the first `mark`, and the text behind it. -/
def splitFirst (mark : List α) : List α → Option (List α × List α)
  | [] => if mark = [] then some ([], []) else none
  | x :: s =>
    if mark.isPrefixOf (x :: s) then some ([], (x :: s).drop mark.length)
    else (splitFirst mark s).map fun p => (x :: p.1, p.2)

theorem splitFirst_eq_append {mark : List α} : ∀ {s a b : List α}, splitFirst mark s = some (a, b) →
    s = a ++ mark ++ b
  | [], a, b, h => by
    rw [splitFirst] at h
    split at h
    · rename_i hmark
      cases h
      simp [hmark]
    · cases h
  | x :: s, a, b, h => by
    rw [splitFirst] at h
    split at h
    · rename_i hpre
      cases h
      obtain ⟨t, ht⟩ := List.isPrefixOf_iff_prefix.mp hpre
      rw [← ht, List.drop_left, List.nil_append]
    · obtain ⟨⟨a', b'⟩, hs, hp⟩ := Option.map_eq_some_iff.mp h
      cases hp
      rw [splitFirst_eq_append hs]
      rfl

/-- What is behind a mark is shorter. -/
theorem length_of_splitFirst {mark s a b : List α} (h : splitFirst mark s = some (a, b)) :
    s.length = a.length + mark.length + b.length := by
  rw [splitFirst_eq_append h, List.length_append, List.length_append]

/-- A mark that is nowhere is not found. -/
theorem splitFirst_eq_none {mark s : List α} (h : ¬ mark <:+: s) : splitFirst mark s = none := by
  cases hs : splitFirst mark s with
  | none => rfl
  | some p => exact absurd ⟨p.1, p.2, (splitFirst_eq_append hs).symm⟩ h

/-- The mark is found behind a piece that holds neither it nor its beginning. -/
theorem splitFirst_append {mark : List α} (hne : mark ≠ []) (b : List α) : ∀ {a : List α},
    ¬ mark <:+: a ++ mark.dropLast → splitFirst mark (a ++ mark ++ b) = some (a, b)
  | [], _ => by
    cases hm : mark with
    | nil => exact absurd hm hne
    | cons x m =>
      rw [List.nil_append, List.cons_append, splitFirst, if_pos, ← List.cons_append, List.drop_left]
      rw [List.isPrefixOf_iff_prefix, ← List.cons_append]
      exact List.prefix_append _ _
  | x :: a, h => by
    have hmark : mark = mark.dropLast ++ [mark.getLast hne] :=
      (List.dropLast_append_getLast hne).symm
    have hno : ¬ mark.isPrefixOf (x :: (a ++ mark ++ b)) = true := by
      intro hpre
      rw [List.isPrefixOf_iff_prefix] at hpre
      refine h (List.IsPrefix.isInfix ?_)
      -- the piece and the beginning of the mark are long enough to hold the whole occurrence
      have hrest : x :: a ++ mark.dropLast <+: x :: (a ++ mark ++ b) := by
        refine ⟨[mark.getLast hne] ++ b, ?_⟩
        rw [List.append_assoc, ← List.append_assoc mark.dropLast, ← hmark]
        simp
      refine List.prefix_of_prefix_length_le hpre hrest ?_
      have hpos := List.length_pos_iff.mpr hne
      simp only [List.length_append, List.length_cons, List.length_dropLast]
      omega
    have htail : ¬ mark <:+: a ++ mark.dropLast := fun hin =>
      h (hin.trans (List.suffix_cons x _).isInfix)
    rw [List.cons_append, List.cons_append, splitFirst, if_neg hno, splitFirst_append hne b htail]
    rfl

/-- A mark of one symbol is found behind a piece without it. -/
theorem splitFirst_singleton_append {c : α} {a : List α} (b : List α) (h : c ∉ a) :
    splitFirst [c] (a ++ [c] ++ b) = some (a, b) := by
  refine splitFirst_append (by simp) b ?_
  intro hin
  refine h (hin.subset ?_ |> fun hmem => by simpa using hmem)
  simp

end

/-- For a doubled mark: the piece has none, and does not end with half of one. -/
theorem not_infix_append_singleton {c : α} {l : List α} (h : ¬ [c, c] <:+: l)
    (hlast : l.getLast? ≠ some c) : ¬ [c, c] <:+: l ++ [c, c].dropLast := by
  rintro ⟨s, t, hst⟩
  have hdrop : [c, c].dropLast = [c] := rfl
  rw [hdrop] at hst
  rcases List.eq_nil_or_concat t with rfl | ⟨t', d, rfl⟩
  · have hl : l = s ++ [c] := by
      refine List.append_cancel_right (?_ : l ++ [c] = (s ++ [c]) ++ [c])
      rw [← hst]
      simp
    exact hlast (by rw [hl, List.getLast?_concat])
  · have hl : l = s ++ [c, c] ++ t' := by
      rw [List.concat_eq_append, ← List.append_assoc] at hst
      exact (List.append_inj' hst.symm rfl).1
    exact h ⟨s, t', hl.symm⟩

/-! ## Trimming -/

section

variable (p : α → Bool)

/-- A text without the symbols of `p` at its ends. -/
def trimBoth (l : List α) : List α := (l.dropWhile p).rdropWhile p

variable {p}

theorem trimBoth_append_left {w : List α} (l : List α) (h : ∀ x ∈ w, p x = true) :
    trimBoth p (w ++ l) = trimBoth p l := by
  rw [trimBoth, List.dropWhile_append_of_pos h, trimBoth]

theorem rdropWhile_append_of_pos {w : List α} (l : List α) (h : ∀ x ∈ w, p x = true) :
    (l ++ w).rdropWhile p = l.rdropWhile p := by
  unfold List.rdropWhile
  rw [List.reverse_append, List.dropWhile_append_of_pos fun x hx => h x (List.mem_reverse.mp hx)]

theorem trimBoth_append_right {w : List α} (l : List α) (h : ∀ x ∈ w, p x = true) :
    trimBoth p (l ++ w) = trimBoth p l := by
  unfold trimBoth
  rw [List.dropWhile_append]
  split
  · rename_i hempty
    have hl : l.dropWhile p = [] := by simpa using hempty
    rw [hl, List.dropWhile_eq_nil_iff.mpr h]
  · exact rdropWhile_append_of_pos _ h

/-- What trimming takes off on either side. -/
theorem exists_eq_append_trimBoth (l : List α) : ∃ w w', (∀ x ∈ w, p x = true) ∧
    (∀ x ∈ w', p x = true) ∧ l = w ++ trimBoth p l ++ w' := by
  refine ⟨l.takeWhile p, (l.dropWhile p).rtakeWhile p, ?_, ?_, ?_⟩
  · exact fun x hx => List.mem_takeWhile_imp hx
  · exact fun x hx => List.mem_rtakeWhile_imp hx
  · rw [trimBoth, List.append_assoc, List.rdropWhile_append_rtakeWhile,
      List.takeWhile_append_dropWhile]

theorem trimBoth_dropWhile (l : List α) : trimBoth p (l.dropWhile p) = trimBoth p l := by
  conv => rhs; rw [← List.takeWhile_append_dropWhile (p := p) (l := l)]
  rw [trimBoth_append_left _ fun x hx => List.mem_takeWhile_imp hx]

theorem trimBoth_rdropWhile (l : List α) : trimBoth p (l.rdropWhile p) = trimBoth p l := by
  conv => rhs; rw [← List.rdropWhile_append_rtakeWhile (p := p) (l := l)]
  rw [trimBoth_append_right _ fun x hx => List.mem_rtakeWhile_imp hx]

/-- Trimming stops on either side of a symbol that it does not take off. -/
theorem trimBoth_append_cons {c : α} (a b : List α) (hc : p c = false) :
    trimBoth p (a ++ [c] ++ b) = a.dropWhile p ++ [c] ++ b.rdropWhile p := by
  have hleft : (a ++ [c] ++ b).dropWhile p = a.dropWhile p ++ [c] ++ b := by
    rw [List.append_assoc, List.dropWhile_append]
    split
    · rename_i hempty
      rw [List.isEmpty_iff.mp hempty]
      simp [hc]
    · rw [List.append_assoc]
  rw [trimBoth, hleft]
  unfold List.rdropWhile
  rw [List.reverse_append, List.dropWhile_append]
  split
  · rename_i hempty
    rw [List.isEmpty_iff.mp hempty]
    simp [hc]
  · simp

theorem length_trimBoth_le (l : List α) : (trimBoth p l).length ≤ l.length := by
  obtain ⟨w, w', _, _, hl⟩ := exists_eq_append_trimBoth (p := p) l
  have hlen := congrArg List.length hl
  simp only [List.length_append] at hlen
  omega

/-- A text that trimming does not shorten has nothing to trim. -/
theorem trimBoth_eq_self_of_length {l : List α} (h : (trimBoth p l).length = l.length) :
    trimBoth p l = l := by
  obtain ⟨w, w', _, _, hl⟩ := exists_eq_append_trimBoth (p := p) l
  have hlen := congrArg List.length hl
  simp only [List.length_append] at hlen
  have hw : w = [] := List.length_eq_zero_iff.mp (by omega)
  have hw' : w' = [] := List.length_eq_zero_iff.mp (by omega)
  rw [hw, hw'] at hl
  simpa using hl.symm

/-- A text has nothing to trim exactly if neither of its ends would be taken off. -/
theorem trimBoth_eq_self_iff {l : List α} :
    trimBoth p l = l ↔ (∀ x ∈ l.head?, p x = false) ∧ ∀ x ∈ l.getLast?, p x = false := by
  constructor
  · intro h
    constructor
    · intro x hx
      cases l with
      | nil => cases hx
      | cons y l =>
        obtain rfl : y = x := by simpa using hx
        cases hy : p y with
        | false => rfl
        | true =>
          have hlen := length_trimBoth_le (p := p) l
          rw [← trimBoth_append_left (w := [y]) l (by simpa using hy), List.singleton_append, h,
            List.length_cons] at hlen
          omega
    · intro x hx
      obtain ⟨l', rfl⟩ : ∃ l', l = l' ++ [x] := by
        rw [Option.mem_def, List.getLast?_eq_some_iff] at hx
        exact hx
      cases hy : p x with
      | false => rfl
      | true =>
        have hlen := length_trimBoth_le (p := p) l'
        rw [← trimBoth_append_right (w := [x]) l' (by simpa using hy), h, List.length_append,
          List.length_singleton] at hlen
        omega
  · rintro ⟨hhead, hlast⟩
    unfold trimBoth
    have hfront : l.dropWhile p = l := by
      cases l with
      | nil => rfl
      | cons y l => rw [List.dropWhile_cons_of_neg (by simp [hhead y rfl])]
    rw [hfront, List.rdropWhile_eq_self_iff]
    intro hne
    have := hlast (l.getLast hne) (List.getLast?_eq_some_getLast hne)
    simp [this]

end

end Pkzz.Lib
