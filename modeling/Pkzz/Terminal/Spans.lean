import Mathlib.Algebra.GroupWithZero.Nat
import Mathlib.Data.List.Basic

/-!
# Spans: what a row of cells is sent as

`damage.rs` of `buzz-terminal` groups the cells of a row into runs of one style and one width. The
renderer has no Unicode tables and no widths of its own: it places the clusters of a run by
arithmetic on the column of the run, its width and its number of clusters. That this rule gives back
every cell in its column is the first half of the terminal being drawn right. The other half, that
rows which are not sent are already there, is about frames.

A run is extended only while every cluster in it is one character, and only by the cell that is next
to it. The second part is nowhere in the code: it holds because a wide character is followed by its
spacer, which is skipped.
-/

namespace Pkzz.Terminal

/-! ## Cells -/

/-- `vte::ansi::Color`. A named color is its number, of which `DimForeground` has the largest. -/
inductive Color where
  | named (number : Fin 269)
  | indexed (index : UInt8)
  | spec (r g b : UInt8)
deriving DecidableEq

/-- A tagged `u32`. -/
def packColor : Color → Nat
  | .named number => 0x01000000 ||| number.val
  | .indexed index => 0x02000000 ||| index.toNat
  | .spec r g b => 0x03000000 ||| r.toNat <<< 16 ||| g.toNat <<< 8 ||| b.toNat

abbrev Flags := BitVec 16

namespace Flags

def WRAPLINE : Flags := 0x10
def WIDE_CHAR : Flags := 0x20
def WIDE_CHAR_SPACER : Flags := 0x40
def LEADING_WIDE_CHAR_SPACER : Flags := 0x400

/-- `bitflags`' `contains`: every bit of `other` is set. -/
def contains (flags other : Flags) : Bool := flags &&& other == other

def difference (flags other : Flags) : Flags := flags &&& ~~~other

end Flags

/-- The combining marks of a cell. Their number is a `usize`. -/
structure Marks where
  chars : List Char
  length_lt : chars.length < 2 ^ 64
deriving DecidableEq

/-- What is read of a cell. `zerowidth` is there, and may be empty, when the cell carries anything
beside its character. -/
structure Cell where
  c : Char
  fg : Color
  bg : Color
  flags : Flags
  zerowidth : Option Marks
deriving DecidableEq

def Cell.isWide (cell : Cell) : Bool := cell.flags.contains Flags.WIDE_CHAR

def Cell.isSpacer (cell : Cell) : Bool := cell.flags.contains Flags.WIDE_CHAR_SPACER

/-! ## Grouping -/

structure Style where
  fg : Nat
  bg : Nat
  flags : Flags
deriving DecidableEq

/-- Flags describing where a cell sits in the grid rather than how it looks. -/
def GEOMETRY_FLAGS : Flags :=
  Flags.WRAPLINE ||| Flags.WIDE_CHAR ||| Flags.WIDE_CHAR_SPACER ||| Flags.LEADING_WIDE_CHAR_SPACER

def styleOf (cell : Cell) : Style :=
  ⟨packColor cell.fg, packColor cell.bg, cell.flags.difference GEOMETRY_FLAGS⟩

/-- A run of cells sharing one visual style and one cell width. The text is its characters. -/
structure Span where
  column : Nat
  text : List Char
  width : Nat
  clusterCount : Nat
  style : Style
deriving DecidableEq

def Span.countsAreConsistent (s : Span) : Bool :=
  s.clusterCount == 1 || s.clusterCount == s.text.length

/-- `u16::MAX`. -/
def u16Max : Nat := 65535

def Cell.width (cell : Cell) : Nat := if cell.isWide then 2 else 1

/-- The character of a cell and the marks on it. -/
def Cell.text (cell : Cell) : List Char := cell.c :: (cell.zerowidth.map Marks.chars).getD []

def Cell.joinable (cell : Cell) : Bool := cell.zerowidth.isNone

/-- The spans so far, and whether the last one may still be extended. -/
structure Grouping where
  spans : List Span
  «open» : Bool

namespace Grouping

/-- A span of one cell. -/
def alone (column : Nat) (cell : Cell) : Span := ⟨column, cell.text, cell.width, 1, styleOf cell⟩

/-- Whether a cell goes into the last span. -/
def joins (g : Grouping) (last : Span) (cell : Cell) : Bool :=
  g.open && cell.joinable && last.style == styleOf cell && last.width == cell.width &&
    decide (last.clusterCount < u16Max)

/-- A span with one more cell. -/
def extend (last : Span) (cell : Cell) : Span :=
  { last with text := last.text ++ cell.text, clusterCount := last.clusterCount + 1 }

/-- One turn of the loop. -/
def add (g : Grouping) (column : Nat) (cell : Cell) : Grouping :=
  if cell.isSpacer then g
  else
    { spans :=
        match g.spans.getLast? with
        | some last =>
          if g.joins last cell then
            g.spans.dropLast ++ [extend last cell] else g.spans ++ [alone column cell]
        | none => g.spans ++ [alone column cell]
      «open» := cell.joinable }

/-- The loop, from a column on. -/
def addAll (g : Grouping) (column : Nat) : List Cell → Grouping
  | [] => g
  | cell :: cells => (g.add column cell).addAll (column + 1) cells

end Grouping

/-- Group a row's cells into runs of uniform style and width. There is no result when the assertion
fails. -/
def spans (cells : List Cell) : Option (List Span) :=
  let grouped := (Grouping.mk [] false).addAll 0 cells
  if grouped.spans.all Span.countsAreConsistent then some grouped.spans else none

/-! ## Reading spans -/

/-- A cluster where it is drawn. -/
structure Cluster where
  column : Nat
  text : List Char
  width : Nat
  style : Style
deriving DecidableEq

namespace Span

/-- The rule for the consumer: one cluster is the whole text, and of more the `i`-th is the `i`-th
character. -/
def clusters (s : Span) : List Cluster :=
  if s.clusterCount = 1 then [⟨s.column, s.text, s.width, s.style⟩]
  else s.text.zipIdx.map fun (c, i) => ⟨s.column + i * s.width, [c], s.width, s.style⟩

/-- The first column behind a span. -/
def stop (s : Span) : Nat := s.column + s.clusterCount * s.width

end Span

/-- What is drawn of a row: its cells that are no spacers, each in its column. -/
def drawn (column : Nat) : List Cell → List Cluster
  | [] => []
  | cell :: cells =>
    if cell.isSpacer then drawn (column + 1) cells
    else ⟨column, cell.text, cell.width, styleOf cell⟩ :: drawn (column + 1) cells

/-- Each wide cell is followed by exactly one spacer, and there are no other spacers. -/
structure RowOk (row : List Cell) : Prop where
  followed : ∀ i cell, row[i]? = some cell → cell.isWide = true →
    ∃ spacer, row[i + 1]? = some spacer ∧ spacer.isSpacer = true
  once : ∀ i cell next, row[i]? = some cell → cell.isWide = true → row[i + 2]? = some next →
    next.isSpacer = false
  nowhereElse : ∀ i cell, row[i]? = some cell → cell.isSpacer = true →
    ∃ j wide, i = j + 1 ∧ row[j]? = some wide ∧ wide.isWide = true

/-- The shape of a row from some cell on, behind a wide cell or not. -/
def Laid : Bool → List Cell → Prop
  | true, [] => False
  | false, [] => True
  | true, cell :: cells => cell.isSpacer = true ∧ cell.isWide = false ∧ Laid false cells
  | false, cell :: cells => cell.isSpacer = false ∧ Laid cell.isWide cells

/-! ## The shape of a row, cell by cell -/

theorem laid_of_drop {row : List Cell} (hrow : RowOk row) :
    ∀ (suffix : List Cell) (n : Nat), row.drop n = suffix → ∀ afterWide : Bool,
      (afterWide = true → ∃ j wide, n = j + 1 ∧ row[j]? = some wide ∧ wide.isWide = true) →
      (afterWide = false → ∀ j wide, n = j + 1 → row[j]? = some wide → wide.isWide = false) →
      Laid afterWide suffix
  | [], n, hdrop, afterWide, hwide, _ => by
    have hn : row.length ≤ n := by
      have hlen := congrArg List.length hdrop
      simp at hlen
      omega
    cases afterWide with
    | false => trivial
    | true =>
      -- the spacer of a wide cell at the end is missing
      obtain ⟨j, wide, rfl, hj, hw⟩ := hwide rfl
      obtain ⟨spacer, hspacer, _⟩ := hrow.followed j wide hj hw
      rw [List.getElem?_eq_none hn] at hspacer
      cases hspacer
  | cell :: cells, n, hdrop, afterWide, hwide, hnarrow => by
    have hn : row[n]? = some cell := by
      have h0 : (row.drop n)[0]? = some cell := by rw [hdrop]; rfl
      simpa using h0
    have htail : row.drop (n + 1) = cells := by
      rw [← List.drop_drop, hdrop]
      rfl
    have hnext : ∀ i wide, n + 1 = i + 1 → row[i]? = some wide → wide = cell := by
      intro i wide hi hwide
      obtain rfl : n = i := by omega
      exact Option.some.inj (hwide.symm.trans hn)
    cases afterWide with
    | true =>
      obtain ⟨j, wide, rfl, hj, hw⟩ := hwide rfl
      obtain ⟨spacer, hspacer, hs⟩ := hrow.followed j wide hj hw
      obtain rfl : spacer = cell := Option.some.inj (hspacer.symm.trans hn)
      -- a spacer that is wide as well would be followed by a second spacer
      have hnotWide : spacer.isWide = false := by
        cases hcell : spacer.isWide with
        | false => rfl
        | true =>
          obtain ⟨second, hsecond, hs2⟩ := hrow.followed (j + 1) spacer hn hcell
          have := hrow.once j wide second hj hw hsecond
          simp [hs2] at this
      refine ⟨hs, hnotWide, laid_of_drop hrow cells (j + 1 + 1) htail false (by simp) ?_⟩
      intro _ i wide' hi hi'
      rw [hnext i wide' hi hi']
      exact hnotWide
    | false =>
      have hnotSpacer : cell.isSpacer = false := by
        cases hcell : cell.isSpacer with
        | false => rfl
        | true =>
          obtain ⟨j, wide, hj, hwide', hw⟩ := hrow.nowhereElse n cell hn hcell
          have := hnarrow rfl j wide hj hwide'
          simp [hw] at this
      refine ⟨hnotSpacer, laid_of_drop hrow cells (n + 1) htail cell.isWide ?_ ?_⟩
      · intro hw
        exact ⟨n, cell, rfl, hn, hw⟩
      · intro hw i wide hi hi'
        rw [hnext i wide hi hi']
        exact hw

/-- The shape of a whole row. -/
theorem laid_of_rowOk {row : List Cell} (hrow : RowOk row) : Laid false row :=
  laid_of_drop hrow row 0 rfl false (by simp) (fun _ j _ hj => by omega)

/-! ## What one cell does to the spans -/

theorem Span.clusters_of_length {s : Span} (h : s.text.length = s.clusterCount) :
    s.clusters = s.text.zipIdx.map fun (c, i) =>
      ⟨s.column + i * s.width, [c], s.width, s.style⟩ := by
  unfold Span.clusters
  split
  · rename_i hone
    obtain ⟨c, hc⟩ := List.length_eq_one_iff.mp (h.trans hone)
    simp [hc]
  · rfl

variable {cell : Cell}

theorem Cell.text_of_joinable (h : cell.joinable = true) : cell.text = [cell.c] := by
  unfold Cell.joinable at h
  simp [Cell.text, Option.isNone_iff_eq_none.mp h]

/-- What one turn of the loop does with a cell that is drawn: it begins a span or goes into the open
one. -/
theorem add_cases (g : Grouping) (column : Nat) (h : cell.isSpacer = false) :
    g.add column cell = ⟨g.spans ++ [Grouping.alone column cell], cell.joinable⟩
      ∨ ∃ last, g.spans.getLast? = some last ∧ g.joins last cell = true
          ∧ g.add column cell = ⟨g.spans.dropLast ++ [Grouping.extend last cell],
            cell.joinable⟩ := by
  unfold Grouping.add
  rw [if_neg (by simp [h])]
  cases hlast : g.spans.getLast? with
  | none => exact .inl rfl
  | some last =>
    by_cases hjoins : g.joins last cell = true
    · exact .inr ⟨last, rfl, hjoins, by simp [hjoins]⟩
    · exact .inl (by simp [hjoins])

theorem add_spacer (g : Grouping) (column : Nat) (h : cell.isSpacer = true) :
    g.add column cell = g := by
  simp [Grouping.add, h]

variable {g : Grouping}

/-- What is asked of an open span and of the cell that goes into it. -/
theorem joins_spec {last : Span} (h : g.joins last cell = true) :
    g.open = true ∧ cell.joinable = true ∧ last.style = styleOf cell ∧ last.width = cell.width := by
  simp only [Grouping.joins, Bool.and_eq_true, beq_iff_eq, decide_eq_true_eq] at h
  obtain ⟨⟨⟨⟨hopen, hjoin⟩, hstyle⟩, hwidth⟩, _⟩ := h
  exact ⟨hopen, hjoin, hstyle, hwidth⟩

/-! ## The assertion never fails -/

/-- Every span has one cluster or one for each character, and an open one has one for each
character. -/
structure Counted (g : Grouping) : Prop where
  consistent : ∀ s ∈ g.spans, s.countsAreConsistent = true
  lastOpen : g.open = true → ∀ last, g.spans.getLast? = some last →
    last.text.length = last.clusterCount

theorem counted_init : Counted ⟨[], false⟩ := by
  refine ⟨?_, ?_⟩ <;> simp

theorem counted_add (h : Counted g) (column : Nat) (cell : Cell) : Counted (g.add column cell) := by
  cases hspacer : cell.isSpacer with
  | true => rwa [add_spacer g column hspacer]
  | false =>
    rcases add_cases g column hspacer with hadd | ⟨last, hlast, hjoins, hadd⟩
    · rw [hadd]
      refine ⟨?_, ?_⟩
      · intro s hs
        rcases List.mem_append.mp hs with hs | hs
        · exact h.consistent s hs
        · rw [List.mem_singleton.mp hs]
          rfl
      · intro hopen last hlast
        obtain rfl : Grouping.alone column cell = last := by simpa using hlast
        simp [Grouping.alone, Cell.text_of_joinable hopen]
    · -- the cell has no marks and the open span has no others: one character more, one cluster more
      obtain ⟨hopen, hjoin, _, _⟩ := joins_spec hjoins
      have hlen := h.lastOpen hopen last hlast
      have htext := Cell.text_of_joinable hjoin
      rw [hadd]
      refine ⟨?_, ?_⟩
      · intro s hs
        rcases List.mem_append.mp hs with hs | hs
        · exact h.consistent s ((List.dropLast_sublist _).subset hs)
        · rw [List.mem_singleton.mp hs]
          simp [Span.countsAreConsistent, Grouping.extend, htext, hlen]
      · intro _ s hs
        obtain rfl : Grouping.extend last cell = s := by simpa using hs
        simp [Grouping.extend, htext, hlen]

theorem counted_addAll (cells : List Cell) (h : Counted g) (column : Nat) :
    Counted (g.addAll column cells) := by
  induction cells generalizing g column with
  | nil => exact h
  | cons cell cells ih => exact ih (counted_add h column cell) (column + 1)

/-- **The assertion never fails**, whatever the cells are. -/
theorem spans_eq_some (cells : List Cell) :
    spans cells = some ((Grouping.mk [] false).addAll 0 cells).spans := by
  have h := (counted_addAll cells counted_init 0).consistent
  unfold spans
  rw [if_pos (List.all_eq_true.mpr h)]

/-! ## Every cell in its column -/

/-- The spans are in order up to a column and stand for these clusters, and the open one ends at the
column. -/
structure Grouped (g : Grouping) (stop : Nat) (done : List Cluster) : Prop where
  counted : Counted g
  clusters : g.spans.flatMap Span.clusters = done
  ordered : g.spans.Pairwise fun a b => a.stop ≤ b.column
  before : ∀ s ∈ g.spans, s.stop ≤ stop
  endsAt : g.open = true → ∀ last, g.spans.getLast? = some last → last.stop = stop

theorem grouped_init : Grouped ⟨[], false⟩ 0 [] := by
  refine ⟨counted_init, rfl, List.Pairwise.nil, ?_, ?_⟩ <;> simp

theorem alone_stop (column : Nat) (cell : Cell) :
    (Grouping.alone column cell).stop = column + cell.width := by
  simp [Grouping.alone, Span.stop]

theorem extend_stop (last : Span) (cell : Cell) :
    (Grouping.extend last cell).stop = last.stop + last.width := by
  simp only [Grouping.extend, Span.stop]
  rw [Nat.succ_mul]
  omega

/-- The cluster that a cell adds to the open span is drawn where the span ends. -/
theorem extend_clusters {last : Span} (hlen : last.text.length = last.clusterCount)
    (hjoin : cell.joinable = true) :
    (Grouping.extend last cell).clusters = last.clusters ++
    [⟨last.stop, cell.text, last.width, last.style⟩] := by
  have htext := Cell.text_of_joinable hjoin
  have hlen' : (Grouping.extend last cell).text.length =
      (Grouping.extend last cell).clusterCount := by
    simp [Grouping.extend, htext, hlen]
  rw [Span.clusters_of_length hlen', Span.clusters_of_length hlen]
  simp [Grouping.extend, htext, List.zipIdx_append, hlen, Span.stop]

/-- A cell that is drawn, at the column the spans go up to. -/
theorem grouped_add {stop : Nat} {done : List Cluster} (h : Grouped g stop done)
    (hcell : cell.isSpacer = false) :
    Grouped (g.add stop cell) (stop + cell.width) (done ++ [⟨stop, cell.text, cell.width,
      styleOf cell⟩]) := by
  have hcounted := counted_add h.counted stop cell
  rcases add_cases g stop hcell with hadd | ⟨last, hlast, hjoins, hadd⟩
  · rw [hadd] at hcounted ⊢
    refine ⟨hcounted, ?_, ?_, ?_, ?_⟩
    · simp [h.clusters, Span.clusters, Grouping.alone]
    · rw [List.pairwise_append]
      refine ⟨h.ordered, List.pairwise_singleton _ _, ?_⟩
      intro a ha b hb
      rw [List.mem_singleton.mp hb]
      exact h.before a ha
    · intro s hs
      rcases List.mem_append.mp hs with hs | hs
      · have := h.before s hs
        omega
      · have hstop := alone_stop stop cell
        rw [List.mem_singleton.mp hs]
        omega
    · intro _ s hs
      obtain rfl : Grouping.alone stop cell = s := by simpa using hs
      exact alone_stop stop cell
  · obtain ⟨hopen, hjoin, hstyle, hwidth⟩ := joins_spec hjoins
    have hlen := h.counted.lastOpen hopen last hlast
    have hstop := h.endsAt hopen last hlast
    have hsplit : g.spans = g.spans.dropLast ++ [last] :=
      (List.dropLast_append_getLast? last hlast).symm
    have hordered := h.ordered
    rw [hsplit, List.pairwise_append] at hordered
    have hclusters := h.clusters
    rw [hsplit, List.flatMap_append, List.flatMap_singleton] at hclusters
    rw [hadd] at hcounted ⊢
    refine ⟨hcounted, ?_, ?_, ?_, ?_⟩
    · dsimp only
      rw [List.flatMap_append, List.flatMap_singleton, extend_clusters hlen hjoin,
        ← List.append_assoc, hclusters, hstop, hstyle, hwidth]
    · rw [List.pairwise_append]
      refine ⟨hordered.1, List.pairwise_singleton _ _, ?_⟩
      intro a ha b hb
      rw [List.mem_singleton.mp hb]
      exact hordered.2.2 a ha last (by simp)
    · intro s hs
      rcases List.mem_append.mp hs with hs | hs
      · have := h.before s ((List.dropLast_sublist _).subset hs)
        omega
      · rw [List.mem_singleton.mp hs, extend_stop]
        omega
    · intro _ s hs
      obtain rfl : Grouping.extend last cell = s := by simpa using hs
      rw [extend_stop]
      omega

/-- The loop over cells that are laid out: behind a wide cell the spans go one column further than
the loop. -/
theorem grouped_addAll (cells : List Cell) {done : List Cluster} (column : Nat) (afterWide : Bool)
    (hlaid : Laid afterWide cells) (h : Grouped g (column + afterWide.toNat) done) :
    ∃ stop, Grouped (g.addAll column cells) stop (done ++ drawn column cells) := by
  induction cells generalizing g done column afterWide with
  | nil => exact ⟨_, by simpa [Grouping.addAll, drawn] using h⟩
  | cons cell cells ih =>
    cases afterWide with
    | true =>
      obtain ⟨hspacer, _, hrest⟩ := hlaid
      rw [Grouping.addAll, add_spacer g column hspacer, drawn, if_pos hspacer]
      exact ih (column + 1) false hrest (by simpa using h)
    | false =>
      obtain ⟨hspacer, hrest⟩ := hlaid
      have hadd := grouped_add h hspacer
      have hwidth : column + cell.width = column + 1 + cell.isWide.toNat := by
        unfold Cell.width
        cases cell.isWide <;> simp
      rw [Bool.toNat_false, Nat.add_zero] at hadd
      rw [hwidth] at hadd
      obtain ⟨stop, hgrouped⟩ := ih (column + 1) cell.isWide hrest hadd
      rw [Grouping.addAll, drawn, if_neg (by simp [hspacer])]
      exact ⟨stop, by simpa using hgrouped⟩

/-- **Span encoding is lossless.** Read by the rule, the spans of a row are its cells that are no
spacers, in order and each in its column with its text, its width and its style; and the spans are
disjoint and in order. -/
theorem spans_lossless {row : List Cell} (hrow : RowOk row) :
    ∃ ss, spans row = some ss
      ∧ ss.flatMap Span.clusters = drawn 0 row
      ∧ (∀ s ∈ ss, s.countsAreConsistent = true)
      ∧ ss.Pairwise fun a b => a.stop ≤ b.column := by
  obtain ⟨stop, hgrouped⟩ := grouped_addAll row 0 false (laid_of_rowOk hrow) grouped_init
  refine ⟨_, spans_eq_some row, ?_, hgrouped.counted.consistent, hgrouped.ordered⟩
  simpa using hgrouped.clusters

/-- A cell in the default colors. -/
def plainCell (c : Char) (flags : Flags) (zerowidth : Option Marks) : Cell :=
  ⟨c, .named 256, .named 257, flags, zerowidth⟩

/-- A narrow cell, a wide one with its spacer, and one with a mark. -/
def mixedRow : List Cell :=
  [plainCell 'a' 0 none, plainCell '日' Flags.WIDE_CHAR none,
    plainCell ' ' Flags.WIDE_CHAR_SPACER none,
    plainCell 'e' 0 (some ⟨[Char.ofNat 0x301], by decide⟩)]

theorem mixedRow_rowOk : RowOk mixedRow where
  followed := by
    intro i cell hi hwide
    match i with
    | 0 | 2 | 3 => cases hi; cases hwide
    | 1 => exact ⟨_, rfl, rfl⟩
    | _ + 4 => cases hi
  once := by
    intro i cell next hi hwide hnext
    match i with
    | 0 => cases hi; cases hwide
    | 1 => cases hnext; rfl
    | _ + 2 => cases hnext
  nowhereElse := by
    intro i cell hi hspacer
    match i with
    | 0 | 1 | 3 => cases hi; cases hspacer
    | 2 => exact ⟨1, _, rfl, rfl, rfl⟩
    | _ + 4 => cases hi

/-- Three spans, of a row of three clusters. -/
theorem spans_lossless_mixedRow :
    (∃ ss, spans mixedRow = some ss
      ∧ ss.flatMap Span.clusters = drawn 0 mixedRow
      ∧ (∀ s ∈ ss, s.countsAreConsistent = true)
      ∧ ss.Pairwise fun a b => a.stop ≤ b.column)
      ∧ (drawn 0 mixedRow).map (fun cluster => (cluster.column, cluster.text.length)) =
        [(0, 1), (1, 1), (3, 2)] :=
  ⟨spans_lossless mixedRow_rowOk, by decide⟩

end Pkzz.Terminal
