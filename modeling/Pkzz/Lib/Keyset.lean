import Mathlib.Data.List.Sort
import Mathlib.Order.Defs.LinearOrder

/-!
# Keyset pagination

A table read page after page: each request carries a cursor made of a row the reader already
has, and gets the first rows behind that row in key order. Keys tell rows apart.

A reader that is told where a full page ends (`Probed`) sees every row, whatever a page makes
of its rows. One that takes the cursor from the last row it was shown (`Shown`) has rows hidden
from it that cannot be decoded. If it asks until a page is empty, it sees all the others exactly
when no `n` hidden rows in a row stand before one of them. If it stops at a page of less than
`n` rows (`ShownFull`), it does exactly when none of them stands behind a page with a hidden row.
-/

namespace Pkzz.Lib.Keyset

variable {α β γ κ ε : Type}

/-! ## Following the pages -/

/-- A reader that asks until there is no next cursor; `none` if that takes more than the
given number of pages. -/
def follow (fetch : Option γ → Except ε (List β × Option γ)) : Nat → Option γ →
    Option (Except ε (List β))
  | 0, _ => none
  | pages + 1, cursor =>
    match fetch cursor with
    | .error e => some (.error e)
    | .ok (items, none) => some (.ok items)
    | .ok (items, some next) => (follow fetch pages (some next)).map (Except.map (items ++ ·))

variable {fetch : Option γ → Except ε (List β × Option γ)} {items : List β} {cursor : Option γ}

@[simp] theorem follow_zero : follow fetch 0 cursor = none := rfl

theorem follow_succ (pages : Nat) : follow fetch (pages + 1) cursor =
    match fetch cursor with
    | .error e => some (.error e)
    | .ok (items, none) => some (.ok items)
    | .ok (items, some next) => (follow fetch pages (some next)).map (Except.map (items ++ ·)) :=
        rfl

/-- The pages from the cursor on give just these items, after finitely many requests. -/
def Follows (fetch : Option γ → Except ε (List β × Option γ)) (cursor : Option γ)
    (items : List β) : Prop :=
  ∃ pages, follow fetch pages cursor = some (.ok items)

theorem follows_last {all : List β} (h : fetch cursor = .ok (items, none)) :
    Follows fetch cursor all ↔ all = items := by
  constructor
  · rintro ⟨pages, hpages⟩
    cases pages with
    | zero => simp at hpages
    | succ pages =>
      rw [follow_succ, h] at hpages
      simpa using hpages.symm
  · rintro rfl
    exact ⟨1, by rw [follow_succ, h]⟩

theorem follows_more {later : List β} {c : γ} (h : fetch cursor = .ok (items, some c)) :
    Follows fetch cursor (items ++ later) ↔ Follows fetch (some c) later := by
  constructor
  · rintro ⟨pages, hpages⟩
    cases pages with
    | zero => simp at hpages
    | succ pages =>
      rw [follow_succ, h] at hpages
      simp only [Option.map_eq_some_iff] at hpages
      obtain ⟨r, hr, hmap⟩ := hpages
      cases r with
      | error e => simp [Except.map] at hmap
      | ok rest =>
        have hrest : rest = later := by simpa [Except.map] using hmap
        exact ⟨pages, by rw [hr, hrest]⟩
  · rintro ⟨pages, hpages⟩
    exact ⟨pages + 1, by rw [follow_succ, h]; simp [hpages, Except.map]⟩

theorem follows_error {e : ε} (h : fetch cursor = .error e) (all : List β) :
    ¬ Follows fetch cursor all := by
  rintro ⟨pages, hpages⟩
  cases pages with
  | zero => simp at hpages
  | succ pages =>
    rw [follow_succ, h] at hpages
    simp at hpages

/-! ## The rows in key order -/

section Order

variable [LinearOrder κ] (key : α → κ)

/-- `ORDER BY key`. -/
def ordered (rows : List α) : List α := rows.insertionSort fun a b => key a ≤ key b

variable {key}

theorem ordered_perm (rows : List α) : (ordered key rows).Perm rows := List.perm_insertionSort _ _

/-- Rows with different keys come out in strict order. -/
theorem ordered_strict {rows : List α} (h : (rows.map key).Nodup) :
    (ordered key rows).Pairwise fun a b => key a < key b := by
  have htotal : Std.Total fun a b : α => key a ≤ key b := ⟨fun a b => le_total _ _⟩
  have htrans : IsTrans α fun a b => key a ≤ key b := ⟨fun a b c hab hbc => le_trans hab hbc⟩
  have hsorted : (ordered key rows).Pairwise fun a b => key a ≤ key b :=
    List.pairwise_insertionSort _ rows
  have hnodup : ((ordered key rows).map key).Nodup := ((ordered_perm rows).map key).nodup_iff.mpr h
  have hne : (ordered key rows).Pairwise fun a b => key a ≠ key b := List.pairwise_map.mp hnodup
  exact (hsorted.and hne).imp fun hab => lt_of_le_of_ne hab.1 hab.2

/-- A strictly ordered list is the ordered form of its rows. -/
theorem eq_ordered {rows l : List α} (hperm : l.Perm rows)
    (hstrict : l.Pairwise fun a b => key a < key b) : l = ordered key rows := by
  have hnodup : (l.map key).Nodup := List.pairwise_map.mpr (hstrict.imp fun hab => ne_of_lt hab)
  have hrows : (rows.map key).Nodup := (hperm.map key).nodup_iff.mp hnodup
  have hasymm : ∀ a b, a ∈ l → b ∈ ordered key rows → key a < key b → key b < key a → a = b := by
    intro a b _ _ hab hba
    exact absurd hba (lt_asymm hab)
  exact List.Perm.eq_of_pairwise hasymm hstrict (ordered_strict hrows)
    (hperm.trans (ordered_perm rows).symm)

/-- Filtering before or after ordering is the same. -/
theorem ordered_filter {rows : List α} (h : (rows.map key).Nodup) (p : α → Bool) :
    ordered key (rows.filter p) = (ordered key rows).filter p :=
  (eq_ordered ((ordered_perm rows).filter p) ((ordered_strict h).filter p)).symm

/-- The rows behind one of them. -/
theorem filter_behind {before rest : List α} {row : α}
    (h : (before ++ row :: rest).Pairwise fun a b => key a < key b) :
    (before ++ row :: rest).filter (fun a => key row < key a) = rest := by
  obtain ⟨_, hrow, hbefore⟩ := List.pairwise_append.mp h
  have hnone : before.filter (fun a => key row < key a) = [] := by
    rw [List.filter_eq_nil_iff]
    intro a ha
    simpa using le_of_lt (hbefore a ha row List.mem_cons_self)
  have hrest : rest.filter (fun a => key row < key a) = rest := by
    rw [List.filter_eq_self]
    intro a ha
    simpa using List.rel_of_pairwise_cons hrow ha
  rw [List.filter_append, hnone, List.nil_append, List.filter_cons_of_neg (by simp), hrest]

end Order

/-! ## Where a reader stands -/

variable (mark : α → γ)

/-- `rest` are the rows of `all` behind the cursor; `mark` is the cursor made of a row. -/
inductive Remaining (all : List α) : Option γ → List α → Prop where
  | head : Remaining all none all
  | behind (before : List α) (row : α) (rest : List α) :
      all = before ++ row :: rest → Remaining all (some (mark row)) rest

variable {mark}

/-- The cursor moves to a row of what remains. -/
theorem Remaining.advance {all rest shown tail : List α} {row : α} {cursor : Option γ}
    (h : Remaining mark all cursor rest) (hrest : rest = shown ++ row :: tail) :
    Remaining mark all (some (mark row)) tail := by
  cases h with
  | head => exact .behind shown row tail hrest
  | behind before last rest heq =>
      exact .behind (before ++ last :: shown) row tail (by simp [heq, hrest])

/-! ## A reader that is told where the page ends -/

variable {n : Nat} {all rest : List α} {dec : α → Option β}

/-- A page of up to `n` rows; behind a full one the reader is given the cursor of its last row,
whether it is shown that row or not. -/
def Probed (fetch : Option γ → Except ε (List β × Option γ)) (mark : α → γ) (n : Nat)
    (dec : α → Option β) (all : List α) : Prop :=
  ∀ cursor rest, Remaining mark all cursor rest →
    fetch cursor = .ok ((rest.take n).filterMap dec,
      if n < rest.length then (rest.take n).getLast?.map mark else none)

/-- **The reader sees every row.** -/
theorem Probed.follows (h : Probed fetch mark n dec all) (hn : 0 < n) :
    Follows fetch none (all.filterMap dec) := by
  suffices hrun : ∀ k, ∀ {cursor rest}, rest.length = k → Remaining mark all cursor rest →
      Follows fetch cursor (rest.filterMap dec) from hrun _ rfl .head
  intro k
  induction k using Nat.strongRecOn with
  | ind k ih =>
    intro cursor rest hk hrem
    have hpage := h cursor rest hrem
    rcases Nat.lt_or_ge n rest.length with hlen | hlen
    · -- A full page: its last row is the next cursor.
      have hne : rest.take n ≠ [] := by
        intro hnil
        have hzero := congrArg List.length hnil
        rw [List.length_take, List.length_nil] at hzero
        omega
      have hsplit : rest = (rest.take n).dropLast ++ (rest.take n).getLast hne :: rest.drop n := by
        have hlast := List.dropLast_append_getLast hne
        have hwhole := List.take_append_drop n rest
        rw [← hlast, List.append_assoc, List.singleton_append] at hwhole
        exact hwhole.symm
      have hnext := hrem.advance hsplit
      rw [if_pos hlen, List.getLast?_eq_some_getLast hne, Option.map_some] at hpage
      have hshort : (rest.drop n).length < k := by
        rw [List.length_drop]
        omega
      have htail := ih _ hshort rfl hnext
      have hall : rest.filterMap dec = (rest.take n).filterMap dec ++
          (rest.drop n).filterMap dec := by
        rw [← List.filterMap_append, List.take_append_drop]
      rw [hall]
      exact (follows_more hpage).mpr htail
    · rw [if_neg (by omega), List.take_of_length_le hlen] at hpage
      exact (follows_last hpage).mpr rfl

/-! ## A reader that goes by what it was shown -/

/-- A page of up to `n` rows; the next cursor is made of the last item shown. -/
def Shown (fetch : Option γ → Except ε (List β × Option γ)) (mark : α → γ) (n : Nat)
    (dec : α → Option β) (cursorOf : β → Option γ) (all : List α) : Prop :=
  ∀ cursor rest, Remaining mark all cursor rest →
    fetch cursor = .ok ((rest.take n).filterMap dec,
      ((rest.take n).filterMap dec).getLast?.bind cursorOf)

/-- `n` rows in a row are hidden, and one behind them is not. -/
def Blocked (n : Nat) (dec : α → Option β) (rows : List α) : Prop :=
  ∃ before gap behind, rows = before ++ gap ++ behind ∧ gap.length = n ∧ (∀ a ∈ gap, dec a = none)
    ∧ ∃ a ∈ behind, dec a ≠ none

/-- A page with a shown row, split at the last one. -/
theorem exists_last_shown {page : List α} (h : ¬ ∀ a ∈ page, dec a = none) :
    ∃ shown row hidden item, page = shown ++ row :: hidden ∧ dec row = some item ∧
      ∀ a ∈ hidden, dec a = none := by
  induction page with
  | nil => simp at h
  | cons a page ih =>
    by_cases hpage : ∀ b ∈ page, dec b = none
    · cases ha : dec a with
      | none => exact absurd (by simpa [ha] using hpage) h
      | some item => exact ⟨[], a, page, item, rfl, ha, hpage⟩
    · obtain ⟨shown, row, hidden, item, hsplit, hrow, hhidden⟩ := ih hpage
      exact ⟨a :: shown, row, hidden, item, by rw [hsplit, List.cons_append], hrow, hhidden⟩

/-- A shown row among the first `n` does not matter for what is blocked behind it. -/
theorem blocked_iff_of_shown {shown tail : List α} {row : α} (hlen : shown.length < n)
    (hrow : dec row ≠ none) : Blocked n dec (shown ++ row :: tail) ↔ Blocked n dec tail := by
  constructor
  · rintro ⟨before, gap, behind, heq, hgap, hhidden, a, ha, hshown⟩
    rw [List.append_assoc] at heq
    rcases List.append_eq_append_iff.mp heq with ⟨mid, hbefore, hmid⟩ | ⟨mid, hshownEq, hmid⟩
    · -- The gap starts behind the shown rows, so it does not start at `row`.
      cases mid with
      | nil =>
        cases gap with
        | nil =>
          rw [List.length_nil] at hgap
          omega
        | cons b gap =>
          have hb : row = b := (List.cons.inj (by simpa using hmid)).1
          exact absurd (hhidden b List.mem_cons_self) (hb ▸ hrow)
      | cons b mid =>
        have htail : tail = mid ++ gap ++ behind := by
          have hcons := (List.cons.inj (by simpa using hmid)).2
          rw [hcons, List.append_assoc]
        exact ⟨mid, gap, behind, htail, hgap, hhidden, a, ha, hshown⟩
    · -- It starts among them and is too long to end before `row`.
      rcases List.append_eq_append_iff.mp hmid with ⟨more, hgapEq, -⟩ | ⟨more, hmidEq, hrest⟩
      · have hle := congrArg List.length hshownEq
        have hge := congrArg List.length hgapEq
        rw [List.length_append] at hle hge
        omega
      · cases more with
        | nil =>
          have hle := congrArg List.length hshownEq
          have hge := congrArg List.length hmidEq
          rw [List.length_append] at hle hge
          rw [List.length_nil] at hge
          omega
        | cons b more =>
          have hb : row = b := (List.cons.inj (by simpa using hrest)).1
          have hmem : b ∈ gap := by simp [hmidEq]
          exact absurd (hhidden b hmem) (hb ▸ hrow)
  · rintro ⟨before, gap, behind, heq, hgap, hhidden, hshown⟩
    exact ⟨shown ++ row :: before, gap, behind, by simp [heq], hgap, hhidden, hshown⟩

/-- If a whole page is hidden, blocked is what has a shown row at all. -/
theorem blocked_iff_of_hidden (h : ∀ a ∈ rest.take n, dec a = none) :
    Blocked n dec rest ↔ rest.filterMap dec ≠ [] := by
  rw [ne_eq, List.filterMap_eq_nil_iff]
  constructor
  · rintro ⟨before, gap, behind, heq, -, -, a, ha, hshown⟩ hall
    exact hshown (hall a (by simp [heq, ha]))
  · intro hsome
    push Not at hsome
    obtain ⟨a, ha, hshown⟩ := hsome
    have hdrop : a ∈ rest.drop n := by
      rw [← List.take_append_drop n rest, List.mem_append] at ha
      rcases ha with ha | ha
      · exact absurd (h a ha) hshown
      · exact ha
    have hlen : n ≤ rest.length := by
      by_contra hlt
      rw [List.drop_of_length_le (by omega)] at hdrop
      simp at hdrop
    exact ⟨[], rest.take n, rest.drop n, by simp, by simp [hlen], h, a, hdrop, hshown⟩

/-- **The reader sees every row that is not hidden exactly when none is blocked.** -/
theorem Shown.follows_iff {cursorOf : β → Option γ} (h : Shown fetch mark n dec cursorOf all)
    (hmark : ∀ a b, dec a = some b → cursorOf b = some (mark a)) :
    Follows fetch none (all.filterMap dec) ↔ ¬ Blocked n dec all := by
  suffices hrun : ∀ k, ∀ {cursor rest}, rest.length = k → Remaining mark all cursor rest →
      (Follows fetch cursor (rest.filterMap dec) ↔ ¬ Blocked n dec rest) from hrun _ rfl .head
  intro k
  induction k using Nat.strongRecOn with
  | ind k ih =>
    intro cursor rest hk hrem
    have hpage := h cursor rest hrem
    by_cases hhidden : ∀ a ∈ rest.take n, dec a = none
    · -- An empty page: the reader takes it for the end.
      rw [List.filterMap_eq_nil_iff.mpr hhidden, List.getLast?_nil, Option.bind_none] at hpage
      rw [follows_last hpage, blocked_iff_of_hidden hhidden, not_not]
    obtain ⟨shown, row, hidden, item, hsplit, hrow, hnone⟩ := exists_last_shown hhidden
    have hrest : rest = shown ++ row :: (hidden ++ rest.drop n) := by
      have hwhole := List.take_append_drop n rest
      rw [hsplit, List.append_assoc, List.cons_append] at hwhole
      exact hwhole.symm
    have hlen : shown.length < n := by
      have hle := List.length_take_le n rest
      rw [hsplit, List.length_append, List.length_cons] at hle
      omega
    have hshort : (hidden ++ rest.drop n).length < k := by
      have htotal := congrArg List.length hrest
      rw [List.length_append, List.length_cons] at htotal
      omega
    have hitems : (rest.take n).filterMap dec = shown.filterMap dec ++ [item] := by
      rw [hsplit, List.filterMap_append, List.filterMap_cons_some hrow,
        List.filterMap_eq_nil_iff.mpr hnone]
    have hall : rest.filterMap dec = (rest.take n).filterMap dec ++
        (hidden ++ rest.drop n).filterMap dec := by
      rw [List.filterMap_append, List.filterMap_eq_nil_iff.mpr hnone, List.nil_append,
        ← List.filterMap_append, List.take_append_drop]
    have hblocked : Blocked n dec rest ↔ Blocked n dec (hidden ++ rest.drop n) := by
      conv_lhs => rw [hrest]
      exact blocked_iff_of_shown hlen (by simp [hrow])
    have hcursor : ((rest.take n).filterMap dec).getLast?.bind cursorOf = some (mark row) := by
      rw [hitems, List.getLast?_concat]
      exact hmark row item hrow
    rw [hcursor] at hpage
    rw [hall, follows_more hpage, ih _ hshort rfl (hrem.advance hrest), hblocked]

/-! ## A reader that takes a short page for the end -/

/-- Like `Shown`, but there is a next cursor only behind a page with `n` items. -/
def ShownFull (fetch : Option γ → Except ε (List β × Option γ)) (mark : α → γ) (n : Nat)
    (dec : α → Option β) (cursorOf : β → Option γ) (all : List α) : Prop :=
  ∀ cursor rest, Remaining mark all cursor rest →
    fetch cursor = .ok ((rest.take n).filterMap dec,
      if ((rest.take n).filterMap dec).length < n then none
      else ((rest.take n).filterMap dec).getLast?.bind cursorOf)

/-- A row is hidden on one of the first `k` pages, and one behind them is not. -/
def CutOff (n : Nat) (dec : α → Option β) (rows : List α) : Prop :=
  ∃ k, (∃ a ∈ rows.take (k * n), dec a = none) ∧ ∃ b ∈ rows.drop (k * n), dec b ≠ none

/-- A full page shows each of its rows, the last one too. -/
theorem full_page (hlen : ¬ ((rest.take n).filterMap dec).length < n) (hn : 0 < n) :
    (∀ a ∈ rest.take n, dec a ≠ none) ∧ ∃ shown row item, rest = shown ++ row :: rest.drop n ∧
    dec row = some item
      ∧ ((rest.take n).filterMap dec).getLast? = some item := by
  have hle := List.length_take_le n rest
  have hfilter := List.length_filterMap_le dec (rest.take n)
  have hall : ∀ a ∈ rest.take n, dec a ≠ none := by
    have heq : ((rest.take n).filterMap dec).length = (rest.take n).length := by omega
    rw [List.filterMap_length_eq_length] at heq
    intro a ha hnone
    simpa [hnone] using heq a ha
  refine ⟨hall, ?_⟩
  have hne : rest.take n ≠ [] := by
    intro hnil
    rw [hnil, List.filterMap_nil, List.length_nil] at hlen
    omega
  have hlast := List.dropLast_append_getLast hne
  have hwhole := List.take_append_drop n rest
  rw [← hlast, List.append_assoc, List.singleton_append] at hwhole
  cases hitem : dec ((rest.take n).getLast hne) with
  | none => exact absurd hitem (hall _ (List.getLast_mem hne))
  | some item =>
    refine ⟨_, _, item, hwhole.symm, hitem, ?_⟩
    rw [← hlast, List.filterMap_append, List.filterMap_cons_some hitem, List.filterMap_nil,
      List.getLast?_concat]

/-- A page without hidden rows cuts nothing off. -/
theorem cutOff_iff_of_full (hall : ∀ a ∈ rest.take n, dec a ≠ none) :
    CutOff n dec rest ↔ CutOff n dec (rest.drop n) := by
  have htake : ∀ k, rest.take ((k + 1) * n) = rest.take n ++ (rest.drop n).take (k * n) := by
    intro k
    rw [Nat.succ_mul, Nat.add_comm, List.take_add]
  have hdrop : ∀ k, rest.drop ((k + 1) * n) = (rest.drop n).drop (k * n) := by
    intro k
    rw [Nat.succ_mul, Nat.add_comm, List.drop_drop]
  constructor
  · rintro ⟨k, ⟨a, ha, hhidden⟩, hshown⟩
    cases k with
    | zero => simp at ha
    | succ k =>
      rw [htake, List.mem_append] at ha
      rw [hdrop] at hshown
      rcases ha with ha | ha
      · exact absurd hhidden (hall a ha)
      · exact ⟨k, ⟨a, ha, hhidden⟩, hshown⟩
  · rintro ⟨k, ⟨a, ha, hhidden⟩, hshown⟩
    refine ⟨k + 1, ⟨a, ?_, hhidden⟩, ?_⟩
    · rw [htake]
      exact List.mem_append_right _ ha
    · rw [hdrop]
      exact hshown

/-- Behind a short page, every row that is not hidden is cut off. -/
theorem cutOff_iff_of_short (hlen : ((rest.take n).filterMap dec).length < n) :
    CutOff n dec rest ↔ (rest.drop n).filterMap dec ≠ [] := by
  rw [ne_eq, List.filterMap_eq_nil_iff]
  push Not
  constructor
  · rintro ⟨k, ⟨a, ha, -⟩, b, hb, hshown⟩
    cases k with
    | zero => simp at ha
    | succ k =>
      refine ⟨b, ?_, hshown⟩
      rw [Nat.succ_mul, Nat.add_comm, ← List.drop_drop] at hb
      exact List.mem_of_mem_drop hb
  · rintro ⟨b, hb, hshown⟩
    have hhidden : ∃ a ∈ rest.take n, dec a = none := by
      by_contra hnone
      push Not at hnone
      have hfull : ((rest.take n).filterMap dec).length = (rest.take n).length := by
        rw [List.filterMap_length_eq_length]
        intro a ha
        exact Option.isSome_iff_ne_none.mpr (hnone a ha)
      have hpos := List.length_pos_of_mem hb
      rw [List.length_drop] at hpos
      rw [List.length_take] at hfull
      omega
    exact ⟨1, by rwa [Nat.one_mul], b, by rwa [Nat.one_mul], hshown⟩

/-- **The reader sees every row that is not hidden exactly when none is cut off.** -/
theorem ShownFull.follows_iff {cursorOf : β → Option γ}
    (h : ShownFull fetch mark n dec cursorOf all)
    (hmark : ∀ a b, dec a = some b → cursorOf b = some (mark a)) (hn : 0 < n) :
    Follows fetch none (all.filterMap dec) ↔ ¬ CutOff n dec all := by
  suffices hrun : ∀ k, ∀ {cursor rest}, rest.length = k → Remaining mark all cursor rest →
      (Follows fetch cursor (rest.filterMap dec) ↔ ¬ CutOff n dec rest) from hrun _ rfl .head
  intro k
  induction k using Nat.strongRecOn with
  | ind k ih =>
    intro cursor rest hk hrem
    have hpage := h cursor rest hrem
    have hall : rest.filterMap dec = (rest.take n).filterMap dec ++
        (rest.drop n).filterMap dec := by
      rw [← List.filterMap_append, List.take_append_drop]
    by_cases hlen : ((rest.take n).filterMap dec).length < n
    · rw [if_pos hlen] at hpage
      rw [follows_last hpage, cutOff_iff_of_short hlen, not_not, hall, List.append_right_eq_self]
    rw [if_neg hlen] at hpage
    obtain ⟨hshown, shown, row, item, hrest, hrow, hlast⟩ := full_page hlen hn
    have hshort : (rest.drop n).length < k := by
      have htotal := congrArg List.length hrest
      rw [List.length_append, List.length_cons] at htotal
      omega
    rw [hlast, Option.bind_some, hmark row item hrow] at hpage
    rw [hall, follows_more hpage, ih _ hshort rfl (hrem.advance hrest), cutOff_iff_of_full hshown]

end Pkzz.Lib.Keyset
