import Pkzz.Terminal.Feeder

/-!
# What a drain may cost

What is known of the parser is a reading of its states: whether it is in an escape sequence, and
which bytes it holds back in a synchronized update. Outside an update a sequence has two bytes at
least and costs no more than the dearest callback, and any other byte no more than a row. The bytes
of an update cost what they would have cost outside, all in the slice that ends the update.
-/

namespace Pkzz.Terminal

open Pkzz.Lib

structure Grid where
  columns : Nat
  lines : Nat
  scrollback : Nat
deriving DecidableEq

/-- Where the parser is in an escape sequence: after its first byte, or with what the sequence has
cost so far. -/
inductive Sequence where
  | none
  | started
  | running (charged : Nat)
deriving DecidableEq

namespace Grid

def atom (g : Grid) : Nat := maxAtomWork g.columns g.lines g.scrollback

def densest (g : Grid) : Nat := Terminal.densest g.columns g.lines g.scrollback

/-- A byte that is in no sequence costs a row at most: a line feed that scrolls. -/
def plainByte (g : Grid) : Nat := max g.columns 1

def bytePrice (g : Grid) (b : UInt8) : Nat := if b = esc then g.atom else g.plainByte

def price (g : Grid) (bytes : List UInt8) : Nat := (bytes.map g.bytePrice).sum

/-- What a sequence may still cost. -/
def credit (g : Grid) : Sequence → Nat
  | .none => 0
  | .started => g.atom
  | .running charged => g.atom - charged

/-- What a sequence may cost on the escape that ends it. One byte is no sequence. -/
def closing (g : Grid) : Sequence → Nat
  | .none | .started => 0
  | .running charged => g.atom - charged

theorem credit_le (g : Grid) (q : Sequence) : g.credit q ≤ g.atom := by
  cases q with
  | none => exact Nat.zero_le _
  | started => exact Nat.le_refl _
  | running charged => exact Nat.sub_le _ _

theorem closing_le (g : Grid) (q : Sequence) : g.closing q ≤ g.credit q := by
  cases q with
  | none => exact Nat.le_refl _
  | started => exact Nat.zero_le _
  | running charged => exact Nat.le_refl _

theorem price_append (g : Grid) (a b : List UInt8) : g.price (a ++ b) = g.price a + g.price b := by
  rw [price, List.map_append, List.sum_append]
  rfl

theorem price_of_no_escape (g : Grid) {bytes : List UInt8} (h : esc ∉ bytes) :
    g.price bytes = bytes.length * g.plainByte := by
  induction bytes with
  | nil => exact (Nat.zero_mul _).symm
  | cons b bytes ih =>
    have hb : b ≠ esc := by
      rintro rfl
      exact h List.mem_cons_self
    have hprice : g.price (b :: bytes) = g.bytePrice b + g.price bytes := rfl
    rw [hprice, ih (fun hmem => h (List.mem_cons_of_mem _ hmem)), bytePrice, if_neg hb,
      List.length_cons, Nat.succ_mul, Nat.add_comm]

end Grid

/-- The grid a feeder prices by. -/
def Feeder.grid {τ : Type} (f : Feeder τ) : Grid := ⟨f.columns, f.lines, f.scrollback⟩

/-- What the states of a parser mean, and what it does with one byte outside an update. -/
structure Reading (π τ : Type) where
  seq : τ → Sequence
  held : τ → Option (List UInt8)
  step : τ → UInt8 → τ × List (Callback π)

section Laws

variable {π σ τ : Type} (h : Handler π σ) (g : Grid) (p : Processor π τ) (r : Reading π τ)

/-- The work of calls, and the terminal after them. -/
def charged (handler : σ) (calls : List (Callback π)) : Nat :=
  ((Counting.new handler g.columns g.lines g.scrollback).run h calls).work

def after (handler : σ) (calls : List (Callback π)) : σ :=
  ((Counting.new handler g.columns g.lines g.scrollback).run h calls).inner

theorem charged_nil (handler : σ) : charged h g handler [] = 0 := rfl

/-- What one byte does outside an update, and what it costs. -/
inductive Parsed (t : τ) (b : UInt8) (handler : σ) : Prop where
  | plain (hopen : r.seq t = .none) (hesc : b ≠ esc) (hcost : charged h g handler (r.step t b).2 ≤
      g.plainByte) (hseq : r.seq (r.step t b).1 = .none) (hheld : r.held (r.step t b).1 = none)
  | begins (hesc : b = esc) (hcost : charged h g handler (r.step t b).2 ≤ g.closing (r.seq t))
      (hseq : r.seq (r.step t b).1 = .started) (hheld : r.held (r.step t b).1 = none)
  | goesOn (hopen : r.seq t ≠ .none)
      (hcost : charged h g handler (r.step t b).2 + g.credit (r.seq (r.step t b).1) ≤
        g.credit (r.seq t))
      (hseq : r.seq (r.step t b).1 ≠ .started)
      (hheld : r.held (r.step t b).1 = none ∨ r.held (r.step t b).1 = some [])
  | embedded (hopen : r.seq t ≠ .none) (hesc : b ≠ esc)
      (hcost : charged h g handler (r.step t b).2 ≤ g.plainByte)
      (hseq : r.seq (r.step t b).1 = r.seq t) (hheld : r.held (r.step t b).1 = none)

/-- The bytes, one after the other. -/
def Reading.steps : τ → List UInt8 → τ × List (Callback π)
  | t, [] => (t, [])
  | t, b :: bytes =>
    let first := r.step t b
    let rest := Reading.steps first.1 bytes
    (rest.1, first.2 ++ rest.2)

/-- No byte is parsed while an update is open. -/
def Reading.Outside : τ → List UInt8 → Prop
  | _, [] => True
  | t, b :: bytes => r.held t = none ∧ Reading.Outside (r.step t b).1 bytes

/-- A slice that releases nothing of an update: an open update takes all of it, and without one the
bytes are parsed up to where an update opens, which takes the others. -/
def Keeps (t : τ) (bytes : List UInt8) : Prop :=
  match r.held t with
  | some buffer =>
    (p.advance t bytes).2 = [] ∧ r.held (p.advance t bytes).1 = some (buffer ++ bytes)
      ∧ r.seq (p.advance t bytes).1 = r.seq t
  | none =>
    ∃ seen rest, bytes = seen ++ rest ∧ r.Outside t seen ∧
      (p.advance t bytes).2 = (r.steps t seen).2
      ∧ r.seq (p.advance t bytes).1 = r.seq (r.steps t seen).1
      ∧ r.held (p.advance t bytes).1 = (r.held (r.steps t seen).1).map (fun _ => rest)
      ∧ (r.held (r.steps t seen).1 = none → rest = [])

/-- What the parser may still cost for the bytes it has. -/
def onHold (t : τ) : Nat := g.credit (r.seq t) + g.price ((r.held t).getD [])

/-- What is known of the parser on a grid. The end of an update is reported with a call of its own.
-/
structure Lawful : Prop where
  new_seq : r.seq p.new = .none
  new_held : r.held p.new = none
  count : ∀ t, p.syncBytesCount t = ((r.held t).getD []).length
  byte : ∀ t b handler, r.held t = none → Parsed h g r t b handler
  advance : ∀ t bytes, Keeps p r t bytes ∨ ∀ handler,
    charged h g handler (p.advance t bytes).2 + onHold g r (p.advance t bytes).1 ≤
      onHold g r t + g.price bytes + 1
  stop : ∀ t handler, charged h g handler (p.stopSync t).2 + onHold g r (p.stopSync t).1 ≤
    onHold g r t + 1

/-! ## The condition -/

/-- Half of the dearest callback is half of it indeed and no less than a row, unless the budget has
no room for two halves. -/
def Grid.Fits : Prop :=
  workBudget < 2 * g.densest ∨ (g.atom ≤ 2 * g.densest ∧ g.plainByte ≤ g.densest)

/-- A slice releases bytes of an update: the update ends in it, or the first fence stops it
afterwards. -/
def Releases (f : Feeder τ) (bytes : List UInt8) : Prop :=
  ¬ Keeps p r f.parser bytes ∨
    (f.fences.syncAbort ∧ syncCap ≤ p.syncBytesCount (p.advance f.parser bytes).1)

/-- The next slice fits: the bytes of an update that it releases cost, with the slice, no more than
what is left of the budget. -/
def SliceFits (f : Feeder τ) (spent : Nat) : Prop :=
  f.grid.Fits ∧
    (Releases p r f (f.slice spent) →
      f.grid.price ((r.held f.parser).getD [] ++ f.slice spent) + 2 ≤ workBudget - spent)

/-- Each slice of a drain fits. -/
def LoopFits : Nat → Feeder τ → σ → Nat → Prop
  | 0, _, _, _ => True
  | fuel + 1, f, handler, spent =>
    f.pending ≠ [] → SliceFits p r f spent ∧
      let next := f.turn p h handler spent
      (next.2.2 < workBudget → LoopFits fuel next.1 next.2.1 next.2.2)

def DrainFits (f : Feeder τ) (handler : σ) : Prop := LoopFits h p r f.pending.length f handler 0

end Laws

section Proof

variable {π σ τ : Type} {h : Handler π σ} {g : Grid} {p : Processor π τ} {r : Reading π τ}

theorem charged_append (handler : σ) (calls more : List (Callback π)) :
    charged h g handler (calls ++ more) ≤
      charged h g handler calls + charged h g (after h g handler calls) more :=
  Counting.work_append handler g.columns g.lines g.scrollback calls more

/-- **Prices add up over bytes.** Where each byte's work, `m` times over, is paid for by its price
and what its sequence still had, the work of all the bytes is. -/
theorem charged_steps (m : Nat) (rest : Sequence → Nat) (bytePrice : UInt8 → Nat)
    (hbyte : ∀ t b handler, r.held t = none →
      m * charged h g handler (r.step t b).2 + rest (r.seq (r.step t b).1) ≤
        rest (r.seq t) + bytePrice b)
    {bytes : List UInt8} {t : τ} (handler : σ) (hout : r.Outside t bytes) :
    m * charged h g handler (r.steps t bytes).2 + rest (r.seq (r.steps t bytes).1)
      ≤ rest (r.seq t) + (bytes.map bytePrice).sum := by
  induction bytes generalizing t handler with
  | nil =>
    rw [Reading.steps, charged_nil, List.map_nil, List.sum_nil, Nat.mul_zero, Nat.zero_add]
    exact Nat.le_refl _
  | cons b bytes ih =>
    obtain ⟨hheld, hout⟩ := hout
    have hfirst := hbyte t b handler hheld
    have hrest := ih (after h g handler (r.step t b).2) hout
    have happend := Nat.mul_le_mul_left m
      (charged_append (g := g) (h := h) handler (r.step t b).2 (r.steps (r.step t b).1 bytes).2)
    rw [Nat.mul_add] at happend
    rw [Reading.steps, List.map_cons, List.sum_cons]
    dsimp only
    omega

/-- What is paid for a byte: the price of one in no sequence, or a whole sequence for the escape. -/
theorem Parsed.paid {t : τ} {b : UInt8} {handler : σ} (hparsed : Parsed h g r t b handler) :
    1 * charged h g handler (r.step t b).2 + g.credit (r.seq (r.step t b).1) ≤
      g.credit (r.seq t) + g.bytePrice b := by
  unfold Grid.bytePrice
  rcases hparsed with ⟨hopen, hesc, hcost, hseq, _⟩ | ⟨hesc, hcost, hseq, _⟩ | ⟨_, hcost, _, _⟩ |
    ⟨_, hesc, hcost, hseq, _⟩
  · rw [hopen, hseq, if_neg hesc]
    have hnone : g.credit .none = 0 := rfl
    omega
  · rw [hseq, if_pos hesc]
    have hclosing := g.closing_le (r.seq t)
    have hstarted : g.credit .started = g.atom := rfl
    omega
  · omega
  · rw [hseq, if_neg hesc]
    omega

/-- What a sequence has left, in halves of the dearest callback. -/
def Grid.halves (g : Grid) : Sequence → Nat
  | .none => 0
  | .started => min (2 * g.densest) (2 * g.atom)
  | .running charged => 2 * (g.atom - charged)

theorem Grid.halves_le (g : Grid) (q : Sequence) : g.halves q ≤ 2 * g.atom := by
  cases q with
  | none => exact Nat.zero_le _
  | started => exact Nat.min_le_right _ _
  | running charged => exact Nat.mul_le_mul_left 2 (Nat.sub_le _ _)

/-- Two bytes pay for a sequence when each pays for half of it. -/
theorem Parsed.paid_by_halves {t : τ} {b : UInt8} {handler : σ} (hparsed : Parsed h g r t b handler)
    (hatom : g.atom ≤ 2 * g.densest) (hplain : g.plainByte ≤ g.densest) :
    2 * charged h g handler (r.step t b).2 + g.halves (r.seq (r.step t b).1)
      ≤ g.halves (r.seq t) + 2 * g.densest := by
  rcases hparsed with ⟨hopen, _, hcost, hseq, _⟩ | ⟨_, hcost, hseq, _⟩ | ⟨hopen, hcost, hseq, _⟩ |
    ⟨_, _, hcost, hseq, _⟩
  · rw [hopen, hseq]
    omega
  · have hstarted : g.halves .started = min (2 * g.densest) (2 * g.atom) := rfl
    have hclosing : 2 * g.closing (r.seq t) ≤ g.halves (r.seq t) := by
      cases r.seq t with
      | none => exact Nat.le_refl _
      | started => exact Nat.zero_le _
      | running charged => exact Nat.le_refl _
    rw [hseq]
    omega
  · -- the sequence goes on or ends: what it leaves is worth twice its credit
    have hleft : g.halves (r.seq (r.step t b).1) = 2 * g.credit (r.seq (r.step t b).1) := by
      cases hnext : r.seq (r.step t b).1 with
      | none => rfl
      | started => exact absurd hnext hseq
      | running charged => rfl
    have hhad : 2 * g.credit (r.seq t) ≤ g.halves (r.seq t) + 2 * g.densest := by
      cases hfrom : r.seq t with
      | none => exact absurd hfrom hopen
      | started =>
        have hcredit : g.credit .started = g.atom := rfl
        have hstarted : g.halves .started = min (2 * g.densest) (2 * g.atom) := rfl
        omega
      | running charged => exact Nat.le_add_right _ _
    omega
  · rw [hseq]
    omega

/-- One byte costs no more than the dearest callback or a row. -/
theorem Parsed.cost_le {t : τ} {b : UInt8} {handler : σ} (hparsed : Parsed h g r t b handler) :
    charged h g handler (r.step t b).2 ≤ max g.atom g.plainByte := by
  have hcredit := g.credit_le (r.seq t)
  have hclosing := g.closing_le (r.seq t)
  rcases hparsed with ⟨_, _, hcost, _, _⟩ | ⟨_, hcost, _, _⟩ | ⟨_, hcost, _, _⟩ |
    ⟨_, _, hcost, _, _⟩
  · exact Nat.le_trans hcost (Nat.le_max_right _ _)
  · omega
  · omega
  · exact Nat.le_trans hcost (Nat.le_max_right _ _)

end Proof

end Pkzz.Terminal
