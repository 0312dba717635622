import Pkzz.Lib.Machine
import Pkzz.Lib.NeBytes
import Pkzz.Terminal.Spans

/-!
# Frames: what a renderer is told

A capture copies rows out of the terminal, all of them or those that are damaged, and an encoder
sends the ones whose hash is not the one it sent last. The renderer overwrites what it is sent, and
discards everything on a full frame.

The argument is a simulation. The encoder's hashes describe what the renderer holds: where there is
a hash, it is the hash of a row whose spans the renderer holds in this line. So a row is suppressed
only when it is there already, and a row that is not reported has not changed. The first part needs
that the hash is fed different bytes for different rows. Nothing frames a cell in these bytes, and
the marks of a cell have a length in front but their absence has nothing: rows are told apart
because no packed color is small enough to be a character.
-/

namespace Pkzz.Terminal

open Lib

/-! ## What is captured -/

structure Viewport where
  generation : Nat
  columns : Nat
  screenLines : Nat
deriving DecidableEq

/-- The cursor, carried separately from row content. -/
structure CursorFrame where
  line : Nat
  column : Nat
  visible : Bool
deriving DecidableEq

/-- `alacritty_terminal::index::Point`. -/
structure Point where
  line : Int
  column : Nat

/-- What a capture reads of the terminal. Scrollback is at the negative lines of the grid. -/
structure Screen where
  grid : Int → List Cell
  columns : Nat
  screenLines : Nat
  displayOffset : Nat
  cursorPoint : Point
  shown : Bool
  viewport : Viewport

/-- `Term::damage()`: all of it, or lines, which may have no damage or be reported twice. -/
inductive TermDamage where
  | full
  | lines (lines : List Nat)

/-- Raw rows copied out from under the lock, awaiting encode. -/
structure RawFrame where
  rows : List (Nat × List Cell)
  cursor : CursorFrame
  full : Bool
  viewport : Viewport

/-- The grid line a screen row reads from. -/
def rowOf (screenRow displayOffset : Nat) : Int := screenRow - displayOffset

def cursorFrame (cursorPoint : Point) (displayOffset screenLines : Nat) (shown : Bool) :
    CursorFrame :=
  let line := (max cursorPoint.line 0).toNat + displayOffset
  { line := min line (screenLines - 1)
    column := cursorPoint.column
    visible := shown && decide (line < screenLines) }

namespace Screen

variable (t : Screen)

/-- A row as it is copied. -/
def row (line : Nat) : List Cell := (t.grid (rowOf line t.displayOffset)).take t.columns

def cursor : CursorFrame := cursorFrame t.cursorPoint t.displayOffset t.screenLines t.shown

/-- Copy the damaged rows out of the terminal. -/
def capture (damage : TermDamage) : RawFrame :=
  match damage with
  | .full => ⟨(List.range t.screenLines).map fun line => (line, t.row line), t.cursor,
      true, t.viewport⟩
  | .lines lines =>
    ⟨(lines.filter fun line => decide (line < t.screenLines)).map fun line => (line, t.row line),
      t.cursor, false, t.viewport⟩

/-- Copy the entire visible viewport, leaving damage untouched. -/
def captureAll : RawFrame :=
  ⟨(List.range t.screenLines).map fun line => (line, t.row line), t.cursor, true, t.viewport⟩

/-- What is seen in a line. -/
def visible (line : Nat) : Option (List Cell) :=
    if line < t.screenLines then some (t.row line) else none

end Screen

/-! ## What is hashed -/

section Hashing

variable (order : ByteOrder)

/-- A slice of characters: its length and the characters. -/
def Marks.fed (marks : Marks) : List UInt8 :=
  neBytes order 8 marks.chars.length ++ marks.chars.flatMap fun c => neBytes order 4 c.toNat

/-- What the hasher is fed for a cell. -/
def Cell.fed (cell : Cell) : List UInt8 :=
  neBytes order 4 cell.c.toNat ++
    (neBytes order 4 (packColor cell.fg) ++ (neBytes order 4 (packColor cell.bg)
    ++ (neBytes order 2 cell.flags.toNat ++ (cell.zerowidth.map (Marks.fed order)).getD [])))

def fed (cells : List Cell) : List UInt8 := cells.flatMap (Cell.fed order)

/-- `DefaultHasher` is what becomes of the bytes. -/
def hashCells (finish : List UInt8 → UInt64) (cells : List Cell) : UInt64 :=
  finish (fed order cells)

end Hashing

/-! ## Encoding -/

/-- One changed row. -/
structure RowFrame where
  line : Nat
  spans : List Span
deriving DecidableEq

/-- One update for the renderer. -/
structure Frame where
  rows : List RowFrame
  cursor : CursorFrame
  cursorChanged : Bool
  full : Bool
  viewport : Viewport

/-- Suppresses rows whose content did not actually change. -/
structure Encoder where
  hashes : List UInt64
  cursor : Option CursorFrame

namespace Encoder

variable (order : ByteOrder) (finish : List UInt8 → UInt64)

def new : Encoder := ⟨[], none⟩

/-- `Vec::resize`, where it grows. -/
def resized (hashes : List UInt64) (len : Nat) : List UInt64 :=
  hashes ++ List.replicate (len - hashes.length) 0

/-- One turn of the loop: the hashes, and the row if it is sent. -/
def encodeRow (hashes : List UInt64) (line : Nat) (cells : List Cell) :
    Option (List UInt64 × List RowFrame) :=
  let hash := hashCells order finish cells
  let hashes := if hashes.length ≤ line then resized hashes (line + 1) else hashes
  if hashes[line]? = some hash then some (hashes, [])
  else (spans cells).map fun ss => (hashes.set line hash, [⟨line, ss⟩])

def encodeRows (hashes : List UInt64) : List (Nat × List Cell) →
    Option (List UInt64 × List RowFrame)
  | [] => some (hashes, [])
  | (line, cells) :: rows => do
      let (hashes, sent) ← encodeRow order finish hashes line cells
      let (hashes, more) ← encodeRows hashes rows
      return (hashes, sent ++ more)

/-- Encode a captured frame. -/
def encode (e : Encoder) (raw : RawFrame) : Option (Encoder × Frame) := do
  let (hashes, rows) ← encodeRows order finish (if raw.full then [] else e.hashes) raw.rows
  return (⟨hashes, some raw.cursor⟩, ⟨rows, raw.cursor, decide (e.cursor ≠ some raw.cursor),
    raw.full, raw.viewport⟩)

end Encoder

/-! ## Rendering -/

/-- A renderer: the spans it was sent for a line, and the cursor. -/
structure Renderer where
  rows : Nat → Option (List Span)
  cursor : Option CursorFrame

namespace Renderer

def blank : Renderer := ⟨fun _ => none, none⟩

/-- Everything is discarded on a full frame. -/
def kept (r : Renderer) (full : Bool) : Nat → Option (List Span) := if full then fun _ =>
    none else r.rows

/-- Overwrite rows. -/
def paint (held : Nat → Option (List Span)) : List RowFrame → Nat → Option (List Span)
  | [] => held
  | row :: rows => paint (Function.update held row.line (some row.spans)) rows

def apply (r : Renderer) (frame : Frame) : Renderer :=
  ⟨paint (r.kept frame.full) frame.rows, some frame.cursor⟩

end Renderer

/-- A screen, and how it is captured: `render`, with the damage there is, or `snapshot`. -/
inductive Sample where
  | render (screen : Screen) (damage : TermDamage)
  | snapshot (screen : Screen)

def Sample.screen : Sample → Screen
  | .render screen _ => screen
  | .snapshot screen => screen

def Sample.raw : Sample → RawFrame
  | .render screen damage => screen.capture damage
  | .snapshot screen => screen.captureAll

/-- An encoder and its renderer. What was captured last is not part of either. -/
structure View where
  encoder : Encoder
  renderer : Renderer
  last : Option Screen

namespace View

def start : View := ⟨Encoder.new, Renderer.blank, none⟩

def step (order : ByteOrder) (finish : List UInt8 → UInt64) (view : View) (sample : Sample) :
    Option View :=
  (view.encoder.encode order finish sample.raw).map fun (encoder, frame) =>
    ⟨encoder, view.renderer.apply frame, some sample.screen⟩

def machine (order : ByteOrder) (finish : List UInt8 → UInt64) : Machine View Sample :=
  ⟨step order finish⟩

/-- What was seen in a line at the last capture. -/
def seen (view : View) (line : Nat) : Option (List Cell) := view.last.bind fun t => t.visible line

/-- The rows of a capture that is not full include those that have changed since the capture before.
-/
def Covers (view : View) (sample : Sample) : Prop :=
  sample.raw.full = true
    ∨ ∀ line, view.seen line ≠ sample.screen.visible line → line ∈ sample.raw.rows.map Prod.fst

end View

/-- The rows whose hash is taken. -/
def fedRows (samples : List Sample) : List (List Cell) := samples.flatMap fun s =>
    s.raw.rows.map Prod.snd

/-! ## Packed colors -/

theorem packColor_named (number : Fin 269) :
    packColor (.named number) = 0x01000000 + number.val := by
  have h := Nat.shiftLeft_add_eq_or_of_lt (i := 24) (b := number.val) (by omega) 1
  exact h.symm

theorem packColor_indexed (index : UInt8) :
    packColor (.indexed index) = 0x02000000 + index.toNat := by
  have hlt := index.toNat_lt
  have h := Nat.shiftLeft_add_eq_or_of_lt (i := 24) (b := index.toNat) (by omega) 2
  exact h.symm

theorem packColor_spec (r g b : UInt8) :
    packColor (.spec r g b) = 0x03000000 + r.toNat * 65536 + g.toNat * 256 + b.toNat := by
  have hr := r.toNat_lt
  have hg := g.toNat_lt
  have hb := b.toNat_lt
  have h1 : 0x03000000 ||| r.toNat <<< 16 = (0x300 + r.toNat) <<< 16 := by
    calc 0x03000000 ||| r.toNat <<< 16 = 3 <<< 24 + r.toNat <<< 16 :=
          (Nat.shiftLeft_add_eq_or_of_lt (i := 24) (by rw [Nat.shiftLeft_eq]; omega) 3).symm
      _ = (0x300 + r.toNat) <<< 16 := by
          simp only [Nat.shiftLeft_eq]
          omega
  have h2 : (0x300 + r.toNat) <<< 16 ||| g.toNat <<< 8 =
      ((0x300 + r.toNat) * 256 + g.toNat) <<< 8 := by
    rw [← Nat.shiftLeft_add_eq_or_of_lt (by rw [Nat.shiftLeft_eq]; omega)]
    simp only [Nat.shiftLeft_eq]
    omega
  change 0x03000000 ||| r.toNat <<< 16 ||| g.toNat <<< 8 ||| b.toNat = _
  rw [h1, h2, ← Nat.shiftLeft_add_eq_or_of_lt hb, Nat.shiftLeft_eq]
  omega

theorem packColor_inj {x y : Color} (h : packColor x = packColor y) : x = y := by
  cases x with
  | named number =>
    have := number.isLt
    cases y with
    | named number' =>
      rw [packColor_named, packColor_named] at h
      exact congrArg Color.named (Fin.ext (by omega))
    | indexed index =>
      rw [packColor_named, packColor_indexed] at h
      omega
    | spec r g b =>
      rw [packColor_named, packColor_spec] at h
      omega
  | indexed index =>
    have := index.toNat_lt
    cases y with
    | named number =>
      rw [packColor_named, packColor_indexed] at h
      omega
    | indexed index' =>
      rw [packColor_indexed, packColor_indexed] at h
      exact congrArg Color.indexed (UInt8.toNat_inj.mp (by omega))
    | spec r g b =>
      rw [packColor_indexed, packColor_spec] at h
      omega
  | spec r g b =>
    have hg := g.toNat_lt
    have hb := b.toNat_lt
    cases y with
    | named number =>
      rw [packColor_named, packColor_spec] at h
      omega
    | indexed index =>
      have := index.toNat_lt
      rw [packColor_indexed, packColor_spec] at h
      omega
    | spec r' g' b' =>
      have := g'.toNat_lt
      have := b'.toNat_lt
      rw [packColor_spec, packColor_spec] at h
      rw [UInt8.toNat_inj.mp (show r.toNat = r'.toNat by omega),
        UInt8.toNat_inj.mp (show g.toNat = g'.toNat by omega),
        UInt8.toNat_inj.mp (show b.toNat = b'.toNat by omega)]

/-- A packed color is a `u32` and no character. -/
theorem packColor_range (color : Color) : 0x01000000 ≤ packColor color ∧
    packColor color < 256 ^ 4 := by
  cases color with
  | named number =>
    rw [packColor_named]
    omega
  | indexed index =>
    have := index.toNat_lt
    rw [packColor_indexed]
    omega
  | spec r g b =>
    have := r.toNat_lt
    have := g.toNat_lt
    have := b.toNat_lt
    rw [packColor_spec]
    omega

theorem char_range (c : Char) : c.toNat < 0x110000 := by
  have h := c.valid
  change c.val.toNat < 0x110000
  rcases h with h | h
  · have : c.val.toNat < 0xd800 := h
    omega
  · exact h.2

/-! ## Different rows are fed differently -/

section Injective

variable (order : ByteOrder)

variable {r s : List UInt8}

/-- A character, a color or the flags, in front of anything. -/
theorem peel_word {width v w : Nat} (hv : v < 256 ^ width) (hw : w < 256 ^ width)
    (h : neBytes order width v ++ r = neBytes order width w ++ s) : v = w ∧ r = s :=
  (neBytes_selfDelimiting order width).peel hv hw trivial trivial h

theorem peel_char {c d : Char} (h : neBytes order 4 c.toNat ++ r = neBytes order 4 d.toNat ++ s) :
    c = d ∧ r = s := by
  have hc := char_range c
  have hd := char_range d
  obtain ⟨hcd, hrs⟩ := peel_word order (by omega) (by omega) h
  exact ⟨Char.toNat_inj.mp hcd, hrs⟩

theorem peel_color {x y : Color}
    (h : neBytes order 4 (packColor x) ++ r = neBytes order 4 (packColor y) ++ s) :
    x = y ∧ r = s := by
  obtain ⟨hxy, hrs⟩ := peel_word order (packColor_range x).2 (packColor_range y).2 h
  exact ⟨packColor_inj hxy, hrs⟩

/-- No color is fed as a character is, and none as zero. -/
theorem color_not_small {color : Color} {n : Nat} (hn : n < 0x110000)
    (h : neBytes order 4 n ++ r = neBytes order 4 (packColor color) ++ s) : False := by
  have hrange := packColor_range color
  have := (peel_word order (by omega) hrange.2 h).1
  omega

theorem peel_chars {l m : List Char} (hlen : l.length = m.length)
    (h : (l.flatMap fun c => neBytes order 4 c.toNat) ++
      r = (m.flatMap fun c => neBytes order 4 c.toNat) ++ s) :
    l = m ∧ r = s := by
  induction l generalizing m with
  | nil =>
    obtain rfl := List.length_eq_zero_iff.mp hlen.symm
    exact ⟨rfl, h⟩
  | cons c l ih =>
    cases m with
    | nil => cases hlen
    | cons d m =>
      simp only [List.flatMap_cons, List.append_assoc] at h
      obtain ⟨rfl, hrest⟩ := peel_char order h
      obtain ⟨rfl, hrs⟩ := ih (by simpa using hlen) hrest
      exact ⟨rfl, hrs⟩

theorem peel_marks {a b : Marks} (h : a.fed order ++ r = b.fed order ++ s) : a = b ∧ r = s := by
  obtain ⟨l, hl⟩ := a
  obtain ⟨m, hm⟩ := b
  simp only [Marks.fed, List.append_assoc] at h
  obtain ⟨hlen, hrest⟩ := peel_word order (by omega) (by omega) h
  obtain ⟨rfl, hrs⟩ := peel_chars order hlen hrest
  exact ⟨rfl, hrs⟩

/-- The marks of a cell are not read as further cells: the bytes of an empty list of marks would
have a color of zero in them, and the first of other marks would be a color. -/
theorem marks_not_cells {marks : Marks} {cells : List Cell}
    (h : marks.fed order ++ s = fed order cells) : False := by
  cases cells with
  | nil =>
    have hlen := congrArg List.length h
    simp [Marks.fed, fed] at hlen
  | cons cell cells =>
    simp only [fed, List.flatMap_cons, Cell.fed, List.append_assoc, Marks.fed] at h
    cases hmarks : marks.chars with
    | nil =>
      rw [hmarks, List.length_nil, neBytes_zero_add order 4 4, List.append_assoc] at h
      have hsplit := List.append_inj_right h (by simp)
      exact color_not_small order (by omega) hsplit
    | cons mark rest =>
      rw [hmarks, List.flatMap_cons, List.append_assoc,
        ← List.append_assoc (neBytes order 4 cell.c.toNat)] at h
      have hsplit := List.append_inj_right h (by simp)
      exact color_not_small order (char_range mark) hsplit

/-- **The hash is fed different bytes for different rows**, of whatever widths. -/
theorem fed_inj {a b : List Cell} (h : fed order a = fed order b) : a = b := by
  induction a generalizing b with
  | nil =>
    cases b with
    | nil => rfl
    | cons cell b =>
      have hlen := congrArg List.length h
      simp [fed, Cell.fed] at hlen
      omega
  | cons cell a ih =>
    cases b with
    | nil =>
      have hlen := congrArg List.length h
      simp [fed, Cell.fed] at hlen
    | cons cell' b =>
      obtain ⟨c, fg, bg, flags, zerowidth⟩ := cell
      obtain ⟨c', fg', bg', flags', zerowidth'⟩ := cell'
      simp only [fed, List.flatMap_cons, Cell.fed, List.append_assoc] at h
      obtain ⟨rfl, hfg⟩ := peel_char order h
      obtain ⟨rfl, hbg⟩ := peel_color order hfg
      obtain ⟨rfl, hword⟩ := peel_color order hbg
      obtain ⟨hflags, hmarks⟩ := peel_word order flags.isLt flags'.isLt hword
      obtain rfl := BitVec.eq_of_toNat_eq hflags
      cases zerowidth with
      | none =>
        cases zerowidth' with
        | none => rw [ih hmarks]
        | some marks' => exact (marks_not_cells order hmarks.symm).elim
      | some marks =>
        cases zerowidth' with
        | none => exact (marks_not_cells order hmarks).elim
        | some marks' =>
          obtain ⟨rfl, hrest⟩ := peel_marks order hmarks
          rw [ih hrest]

end Injective

/-! ## The rows of a capture -/

/-- A captured row is what is seen in its line. -/
theorem raw_rows_visible {sample : Sample} {line : Nat} {cells : List Cell}
    (h : (line, cells) ∈ sample.raw.rows) : sample.screen.visible line = some cells := by
  have hcopy : ∀ (t : Screen) (lines : List Nat), (∀ l ∈ lines, l < t.screenLines) →
      (line, cells) ∈ lines.map (fun l => (l, t.row l)) → t.visible line = some cells := by
    intro t lines hlines hmem
    obtain ⟨l, hl, heq⟩ := List.mem_map.mp hmem
    obtain ⟨rfl, rfl⟩ := Prod.mk.inj heq
    exact if_pos (hlines l hl)
  cases sample with
  | snapshot t => exact hcopy t _ (fun l hl => List.mem_range.mp hl) h
  | render t damage =>
    cases damage with
    | full => exact hcopy t _ (fun l hl => List.mem_range.mp hl) h
    | lines lines => exact hcopy t _ (fun l hl => of_decide_eq_true (List.mem_filter.mp hl).2) h

/-- A full capture has all rows. -/
theorem raw_rows_of_full {sample : Sample} (hfull : sample.raw.full = true) {line : Nat}
    (hline : sample.screen.visible line ≠ none) : line ∈ sample.raw.rows.map Prod.fst := by
  have hcopy : ∀ t : Screen, t.visible line ≠ none →
      line ∈ ((List.range t.screenLines).map fun l => (l, t.row l)).map Prod.fst := by
    intro t hvisible
    have hlt : line < t.screenLines := by
      by_contra hge
      exact hvisible (if_neg hge)
    simpa using hlt
  cases sample with
  | snapshot t => exact hcopy t hline
  | render t damage =>
    cases damage with
    | full => exact hcopy t hline
    | lines lines => cases hfull

theorem raw_cursor (sample : Sample) : sample.raw.cursor = sample.screen.cursor := by
  cases sample with
  | snapshot t => rfl
  | render t damage => cases damage <;> rfl

/-! ## What the hashes say -/

section Simulation

variable {order : ByteOrder} {finish : List UInt8 → UInt64} {R : List Cell → Prop}

/-- The hash is injective on what it is fed for these rows, and never 0. -/
structure HashOk (order : ByteOrder) (finish : List UInt8 → UInt64)
    (R : List Cell → Prop) : Prop where
  inj : ∀ a b, R a → R b → finish (fed order a) = finish (fed order b) → fed order a = fed order b
  ne_zero : ∀ a, R a → finish (fed order a) ≠ 0

/-- Where there is a hash, it is that of a row whose spans are held in the line. -/
def Cached (order : ByteOrder) (finish : List UInt8 → UInt64) (R : List Cell → Prop)
    (hashes : List UInt64) (held : Nat → Option (List Span)) : Prop :=
  ∀ line hash, hashes[line]? = some hash →
    hash = 0 ∨ ∃ cells, R cells ∧ hash = hashCells order finish cells ∧ held line = spans cells

theorem cached_nil (held : Nat → Option (List Span)) : Cached order finish R [] held := by
  intro line hash h
  cases h

variable {hashes : List UInt64} {held : Nat → Option (List Span)}

theorem cached_resized (h : Cached order finish R hashes held)
    (len : Nat) : Cached order finish R (Encoder.resized hashes len) held := by
  intro line hash hget
  unfold Encoder.resized at hget
  by_cases hlt : line < hashes.length
  · rw [List.getElem?_append_left hlt] at hget
    exact h line hash hget
  · rw [List.getElem?_append_right (by omega)] at hget
    exact .inl (List.eq_of_mem_replicate (List.mem_of_getElem? hget))

theorem paint_append (held : Nat → Option (List Span)) (a b : List RowFrame) :
    Renderer.paint held (a ++ b) = Renderer.paint (Renderer.paint held a) b := by
  induction a generalizing held with
  | nil => rfl
  | cons row a ih => exact ih _

theorem paint_other {rows : List RowFrame} {line : Nat}
    (h : ∀ row ∈ rows, row.line ≠ line) : Renderer.paint held rows line = held line := by
  induction rows generalizing held with
  | nil => rfl
  | cons row rows ih =>
    rw [Renderer.paint, ih fun r hr => h r (List.mem_cons_of_mem _ hr)]
    exact Function.update_of_ne (h row List.mem_cons_self).symm _ _

/-- What one row does: its spans are held afterwards, sent or not, and it is only this line that is
written. -/
theorem encodeRow_spec (hok : HashOk order finish R)
    (h : Cached order finish R hashes held) (line : Nat) {cells : List Cell} (hcells : R cells) :
    ∃ hashes' sent, Encoder.encodeRow order finish hashes line cells = some (hashes', sent)
      ∧ Cached order finish R hashes' (Renderer.paint held sent)
      ∧ Renderer.paint held sent line = spans cells
      ∧ ∀ row ∈ sent, row.line = line := by
  obtain ⟨ss, hss⟩ : ∃ ss, spans cells = some ss := ⟨_, spans_eq_some cells⟩
  unfold Encoder.encodeRow
  generalize hlong : (if hashes.length ≤ line then Encoder.resized hashes (line + 1) else hashes) =
    long
  have hcached : Cached order finish R long held := by
    rw [← hlong]
    split
    · exact cached_resized h _
    · exact h
  dsimp only
  split
  · rename_i hsame
    refine ⟨long, [], rfl, hcached, ?_, by simp⟩
    -- the hash is not 0, so it is that of a row that is held, and the rows are equal
    rcases hcached line _ hsame with hzero | ⟨cells', hR, hhash, hheld⟩
    · exact (hok.ne_zero cells hcells hzero).elim
    · rw [fed_inj order (hok.inj cells cells' hcells hR hhash)]
      exact hheld
  · refine ⟨long.set line (hashCells order finish cells),
      [⟨line, ss⟩], by rw [hss]; rfl, ?_, ?_, by simp⟩
    · intro l hash hget
      by_cases hl : l = line
      · subst hl
        have hhash : hash = hashCells order finish cells := by
          rw [List.getElem?_set_self'] at hget
          cases hlong' : long[l]? with
          | none => simp [hlong'] at hget
          | some old => simpa [hlong'] using hget.symm
        refine .inr ⟨cells, hcells, hhash, ?_⟩
        simp [Renderer.paint, hss]
      · rw [List.getElem?_set_ne (Ne.symm hl)] at hget
        rcases hcached l hash hget with hzero | ⟨cells', hR, hhash, hheld⟩
        · exact .inl hzero
        · refine .inr ⟨cells', hR, hhash, ?_⟩
          simpa [Renderer.paint, Function.update_of_ne hl] using hheld
    · simp [Renderer.paint, hss]

/-- The loop: all these lines are held as they are seen, and no other line is written. -/
theorem encodeRows_spec (hok : HashOk order finish R) {seen : Nat → Option (List Cell)}
    (rows : List (Nat × List Cell))
    (hrows : ∀ line cells, (line, cells) ∈ rows → R cells ∧ seen line = some cells)
 (h : Cached order finish R hashes held) :
    ∃ hashes' sent, Encoder.encodeRows order finish hashes rows = some (hashes', sent)
      ∧ Cached order finish R hashes' (Renderer.paint held sent)
      ∧ (∀ line ∈ rows.map Prod.fst, Renderer.paint held sent line = (seen line).bind spans)
      ∧ ∀ row ∈ sent, row.line ∈ rows.map Prod.fst := by
  induction rows generalizing hashes held with
  | nil => exact ⟨hashes, [], rfl, h, by simp, by simp⟩
  | cons first rows ih =>
    obtain ⟨line, cells⟩ := first
    obtain ⟨hR, hseen⟩ := hrows line cells List.mem_cons_self
    obtain ⟨hashes1, sent1, henc1, hcached1, hheld1, hline1⟩ := encodeRow_spec hok h line hR
    obtain ⟨hashes2, sent2, henc2, hcached2, hheld2, hline2⟩ :=
      ih (fun l c hmem => hrows l c (List.mem_cons_of_mem _ hmem)) hcached1
    refine ⟨hashes2, sent1 ++ sent2, ?_, ?_, ?_, ?_⟩
    · simp [Encoder.encodeRows, henc1, henc2]
    · rwa [paint_append]
    · intro l hl
      rw [paint_append]
      by_cases hlater : l ∈ rows.map Prod.fst
      · exact hheld2 l hlater
      -- it is the first row, and no later one writes its line
      have hfirst : l = line := by
        rcases List.mem_cons.mp hl with hl | hl
        · exact hl
        · exact (hlater hl).elim
      subst hfirst
      have hother : Renderer.paint (Renderer.paint held sent1) sent2 l =
          Renderer.paint held sent1 l :=
        paint_other fun row hrow heq => hlater (heq ▸ hline2 row hrow)
      rw [hother, hheld1, hseen]
      rfl
    · intro row hrow
      rcases List.mem_append.mp hrow with hrow | hrow
      · rw [hline1 row hrow]
        exact List.mem_cons_self
      · exact List.mem_cons_of_mem _ (hline2 row hrow)

/-! ## The simulation -/

/-- The renderer holds what was seen at the last capture, and the hashes describe what it holds. -/
structure Synced (order : ByteOrder) (finish : List UInt8 → UInt64) (R : List Cell → Prop)
    (view : View) : Prop where
  cached : Cached order finish R view.encoder.hashes view.renderer.rows
  rows : ∀ line, view.renderer.rows line = (view.seen line).bind spans
  cursor : view.renderer.cursor = view.last.map Screen.cursor

theorem synced_start : Synced order finish R View.start := ⟨cached_nil _, fun _ => rfl, rfl⟩

/-- One frame: there is one, a row that is not in it is held already, and the renderer is up to date
with it. -/
theorem synced_step (hok : HashOk order finish R) {view : View} {sample : Sample}
    (h : Synced order finish R view)
    (hcovers : view.Covers sample) (hR : ∀ line cells, (line, cells) ∈ sample.raw.rows → R cells) :
    ∃ encoder frame, view.encoder.encode order finish sample.raw = some (encoder, frame)
      ∧ Synced order finish R ⟨encoder, view.renderer.apply frame, some sample.screen⟩
      ∧ ∀ line cells, (line, cells) ∈ sample.raw.rows → (∀ row ∈ frame.rows, row.line ≠ line) →
          view.renderer.kept frame.full line = spans cells := by
  have hkept : Cached order finish R (if sample.raw.full then [] else view.encoder.hashes)
      (view.renderer.kept sample.raw.full) := by
    unfold Renderer.kept
    cases sample.raw.full with
    | true => exact cached_nil _
    | false => exact h.cached
  have hrows : ∀ line cells, (line, cells) ∈ sample.raw.rows → R cells ∧
      sample.screen.visible line = some cells :=
    fun line cells hmem => ⟨hR line cells hmem, raw_rows_visible hmem⟩
  obtain ⟨hashes, sent, henc, hcached, hheld, hlines⟩ :=
    encodeRows_spec hok sample.raw.rows hrows hkept
  refine ⟨⟨hashes, some sample.raw.cursor⟩, ⟨sent, sample.raw.cursor, _, sample.raw.full,
    sample.raw.viewport⟩,
    by simp only [Encoder.encode, henc]; rfl, ⟨hcached, ?_, ?_⟩, ?_⟩
  · intro line
    by_cases hline : line ∈ sample.raw.rows.map Prod.fst
    · exact hheld line hline
    -- a line that is not captured is not written, and has not changed or is not there
    have hother : Renderer.paint (view.renderer.kept sample.raw.full) sent line =
        view.renderer.kept sample.raw.full line :=
      paint_other fun row hrow heq => hline (heq ▸ hlines row hrow)
    refine hother.trans ?_
    change _ = (sample.screen.visible line).bind spans
    cases hfull : sample.raw.full with
    | true =>
      have hgone : sample.screen.visible line = none := by
        by_contra hne
        exact hline (raw_rows_of_full hfull hne)
      rw [hgone]
      rfl
    | false =>
      have hunchanged : view.seen line = sample.screen.visible line := by
        rcases hcovers with hcovers | hcovers
        · rw [hfull] at hcovers
          cases hcovers
        · by_contra hne
          exact hline (hcovers line hne)
      rw [← hunchanged]
      exact h.rows line
  · exact congrArg some (raw_cursor sample)
  · intro line cells hmem hdropped
    have hline := hheld line (List.mem_map_of_mem (f := Prod.fst) hmem)
    rw [raw_rows_visible hmem] at hline
    have hother : Renderer.paint (view.renderer.kept sample.raw.full) sent line =
        view.renderer.kept sample.raw.full line :=
      paint_other hdropped
    exact hother.symm.trans hline

theorem step_of_encode {view : View} {sample : Sample} {encoder : Encoder} {frame : Frame}
    (henc : view.encoder.encode order finish sample.raw = some (encoder, frame)) :
    (View.machine order finish).step view sample
      = some ⟨encoder, view.renderer.apply frame, some sample.screen⟩ := by
  change View.step order finish view sample = _
  rw [View.step, henc]
  rfl

/-- Every capture of a run is framed, from a state that is up to date. -/
theorem synced_run (hok : HashOk order finish R) {view : View} {samples : List Sample}
    (h : Synced order finish R view)
    (hcovers : (View.machine order finish).Always View.Covers view samples)
    (hR : ∀ sample ∈ samples, ∀ line cells, (line, cells) ∈ sample.raw.rows → R cells) :
    ∃ view', (View.machine order finish).run view samples = some view' ∧
      Synced order finish R view' := by
  induction samples generalizing view with
  | nil => exact ⟨view, rfl, h⟩
  | cons sample samples ih =>
    obtain ⟨encoder, frame, henc, hsynced, _⟩ :=
      synced_step hok h hcovers.1 (hR sample List.mem_cons_self)
    have hstep := step_of_encode henc
    obtain ⟨view', hrun, hsynced'⟩ :=
      ih hsynced (hcovers.2 _ hstep) fun s hs => hR s (List.mem_cons_of_mem _ hs)
    exact ⟨view', Machine.run_cons.mpr ⟨_, hstep, hrun⟩, hsynced'⟩

/-- A capture behind others is framed. Then the renderer holds the visible rows and the cursor of
the terminal, and a captured row that is not sent is one whose spans it held. -/
def Reproduced (order : ByteOrder) (finish : List UInt8 → UInt64) (before : List Sample)
    (sample : Sample) : Prop :=
  ∃ view encoder frame, (View.machine order finish).run View.start before = some view
    ∧ view.encoder.encode order finish sample.raw = some (encoder, frame)
    ∧ (View.machine order finish).run View.start (before ++ [sample])
        = some ⟨encoder, view.renderer.apply frame, some sample.screen⟩
    ∧ (∀ line, (view.renderer.apply frame).rows line = (sample.screen.visible line).bind spans)
    ∧ (view.renderer.apply frame).cursor = some sample.screen.cursor
    ∧ ∀ line cells, (line, cells) ∈ sample.raw.rows → (∀ row ∈ frame.rows, row.line ≠ line) →
        view.renderer.kept frame.full line = spans cells

/-- **Incremental frames reproduce the screen**, whatever is captured and however, as long as no
changed row is left out. The bytes that are hashed tell all rows apart. -/
theorem frames_reproduce_screen (samples : List Sample)
    (hok : HashOk order finish (· ∈ fedRows samples))
    (hcovers : (View.machine order finish).Always View.Covers View.start samples) :
    (∀ a b, fed order a = fed order b → a = b)
      ∧ ∀ before sample after, samples = before ++ sample :: after →
        Reproduced order finish before sample := by
  refine ⟨fun a b => fed_inj order, ?_⟩
  rintro before sample after rfl
  have hR : ∀ s ∈ before ++ sample :: after, ∀ line cells, (line, cells) ∈ s.raw.rows →
      cells ∈ fedRows (before ++ sample :: after) :=
    fun s hs line cells hmem =>
      List.mem_flatMap.mpr ⟨s, hs, List.mem_map_of_mem (f := Prod.snd) hmem⟩
  have hstart : Synced order finish (· ∈ fedRows (before ++ sample :: after)) View.start :=
    synced_start
  obtain ⟨view, hrun, hsynced⟩ :=
    synced_run hok hstart hcovers.left fun s hs => hR s (List.mem_append_left _ hs)
  have hcover : view.Covers sample := ((Machine.always_append hrun).mp hcovers).2.1
  obtain ⟨encoder, frame, henc, hnext, hdropped⟩ :=
    synced_step hok hsynced hcover (hR sample (by simp))
  have hstep : (View.machine order finish).step view sample
      = some ⟨encoder, view.renderer.apply frame, some sample.screen⟩ := step_of_encode henc
  exact ⟨view, encoder, frame, hrun, henc,
    Machine.run_append.mpr ⟨view, hrun, Machine.run_cons.mpr ⟨_, hstep, rfl⟩⟩,
    hnext.rows, hnext.cursor, hdropped⟩

end Simulation

/-! ## A run -/

/-- SipHash-1-3, the hash of `DefaultHasher`. -/
structure SipHasher where
  v0 : UInt64
  v1 : UInt64
  v2 : UInt64
  v3 : UInt64

namespace SipHasher

def rotateLeft (x n : UInt64) : UInt64 := x <<< n ||| x >>> (64 - n)

def round (s : SipHasher) : SipHasher :=
  let v0 := s.v0 + s.v1
  let v1 := rotateLeft s.v1 13 ^^^ v0
  let v0 := rotateLeft v0 32
  let v2 := s.v2 + s.v3
  let v3 := rotateLeft s.v3 16 ^^^ v2
  let v0 := v0 + v3
  let v3 := rotateLeft v3 21 ^^^ v0
  let v2 := v2 + v1
  let v1 := rotateLeft v1 17 ^^^ v2
  let v2 := rotateLeft v2 32
  ⟨v0, v1, v2, v3⟩

def absorb (s : SipHasher) (m : UInt64) : SipHasher :=
  let s := { s with v3 := s.v3 ^^^ m }.round
  { s with v0 := s.v0 ^^^ m }

/-- Up to eight bytes, the lowest first. -/
def word : List UInt8 → UInt64
  | [] => 0
  | b :: bs => b.toUInt64 ||| word bs <<< 8

def absorbWords : Nat → SipHasher → List UInt8 → SipHasher
  | 0, s, _ => s
  | words + 1, s, bytes => absorbWords words (s.absorb (word (bytes.take 8))) (bytes.drop 8)

/-- With both keys 0. -/
def finish (bytes : List UInt8) : UInt64 :=
  let s : SipHasher :=
    ⟨0x736f6d6570736575, 0x646f72616e646f6d, 0x6c7967656e657261, 0x7465646279746573⟩
  let words := bytes.length / 8
  let s := absorbWords words s bytes
  let s := s.absorb (word (bytes.drop (8 * words)) ||| UInt64.ofNat bytes.length <<< 56)
  let s := { s with v2 := s.v2 ^^^ 0xff }.round.round.round
  s.v0 ^^^ s.v1 ^^^ s.v2 ^^^ s.v3

end SipHasher

/-- Two lines of one cell, the second with a given character. -/
def smallScreen (c : Char) : Screen where
  grid line := if line = 1 then [plainCell c 0 none] else [plainCell ' ' 0 none]
  columns := 1
  screenLines := 2
  displayOffset := 0
  cursorPoint := ⟨1, 0⟩
  shown := true
  viewport := ⟨0, 1, 2⟩

/-- A repaint, an idle cursor line, a typed character with a line too many reported, and a
reattached reader. -/
def typing : List Sample :=
  [.render (smallScreen ' ') .full, .render (smallScreen ' ') (.lines [1]),
    .render (smallScreen 'x') (.lines [0, 1]), .snapshot (smallScreen 'x')]

theorem hashOk_typing : HashOk .little SipHasher.finish (· ∈ fedRows typing) := by
  have hrows : ∀ cells ∈ fedRows typing, cells = [plainCell ' ' 0 none] ∨
      cells = [plainCell 'x' 0 none] := by decide
  have hblank : SipHasher.finish (fed .little [plainCell ' ' 0 none]) ≠ 0 := by decide
  have htyped : SipHasher.finish (fed .little [plainCell 'x' 0 none]) ≠ 0 := by decide
  have hdiffer : SipHasher.finish (fed .little [plainCell ' ' 0 none])
      ≠ SipHasher.finish (fed .little [plainCell 'x' 0 none]) := by decide
  constructor
  · intro a b ha hb hab
    rcases hrows a ha with rfl | rfl <;> rcases hrows b hb with rfl | rfl
    · rfl
    · exact (hdiffer hab).elim
    · exact (hdiffer hab.symm).elim
    · rfl
  · intro a ha
    rcases hrows a ha with rfl | rfl
    · exact hblank
    · exact htyped

theorem covers_typing :
    (View.machine .little SipHasher.finish).Always View.Covers View.start typing := by
  have hlast : ∀ {view view' : View} {sample : Sample},
      (View.machine .little SipHasher.finish).step view sample = some view' →
        view'.last = some sample.screen := by
    intro view view' sample hstep
    obtain ⟨_, _, rfl⟩ := Option.map_eq_some_iff.mp hstep
    rfl
  refine ⟨.inl rfl, fun view1 h1 =>
    ⟨.inr ?_, fun view2 h2 => ⟨.inr ?_, fun view3 _ => ⟨.inl rfl, fun _ _ => trivial⟩⟩⟩⟩
  · intro line hne
    rw [View.seen, hlast h1] at hne
    exact (hne rfl).elim
  · intro line hne
    have hlt : line < 2 := by
      by_contra hge
      rw [View.seen, hlast h2] at hne
      exact hne ((if_neg hge).trans (if_neg hge).symm)
    match line, hlt with
    | 0, _ | 1, _ => decide

/-- The character arrives. -/
theorem frames_reproduce_screen_typing :
    Reproduced .little SipHasher.finish (typing.take 2) (.render (smallScreen 'x') (.lines [0, 1]))
      ∧ (smallScreen 'x').visible 1 = some [plainCell 'x' 0 none] :=
  ⟨(frames_reproduce_screen typing hashOk_typing covers_typing).2 _ _ _ rfl, rfl⟩

end Pkzz.Terminal
