import Pkzz.Terminal.Units
import Pkzz.Lib.Machine

/-!
# Fenced feeding of the parser

Output waits in a tail and is handed to the parser in slices, until a drain has spent its work
budget. A slice is sized by what is left of the budget: against the price of plain characters up to
the next escape, and against the densest escape from there on. Two fences count bytes: the first
stops a synchronized update whose buffer has grown too long, the second builds a new parser once
enough bytes have been seen. The parser is a parameter.
-/

namespace Pkzz.Terminal

open Pkzz.Lib

def syncCap : Nat := 64 * 2 ^ 10
def oscBudget : Nat := 256 * 2 ^ 10
def workBudget : Nat := 250000
def maxSlice : Nat := 256

/-- The byte that starts an escape sequence. -/
def esc : UInt8 := 0x1b

/-- `Ord::clamp`. -/
def clampTo (n lo hi : Nat) : Nat := max lo (min n hi)

/-- The dearest single callback of the grid. -/
def maxAtomWork (columns lines scrollback : Nat) : Nat :=
  let bothGrids := saturatingMul (saturatingMul columns lines) 2
  let history := saturatingMul scrollback columns
  max (saturatingAdd bothGrids history) columns

/-- Half of the dearest callback: `ESC c` has two bytes. -/
def densest (columns lines scrollback : Nat) : Nat :=
  max (maxAtomWork columns lines scrollback / 2) 1

def sliceBytesRemaining (columns lines scrollback spent nextEscape : Nat) : Nat :=
  let remaining := workBudget - spent
  if 0 < nextEscape then
    let perByte := max columns 1
    clampTo (remaining / perByte) 1 (min nextEscape maxSlice)
  else
    clampTo (remaining / densest columns lines scrollback) 1 maxSlice

def maxDrainWork (columns lines scrollback : Nat) : Nat :=
  saturatingAdd workBudget (maxAtomWork columns lines scrollback)

structure Fences where
  syncAbort : Bool
  oscBudget : Bool
deriving DecidableEq

/-- Both fences are on. -/
def Fences.all : Fences := ⟨true, true⟩

structure Size where
  columns : Nat
  screenLines : Nat
  scrollback : Nat
deriving DecidableEq

/-- The parser: what it does with a slice and with a stop of its synchronized update, as the calls
it makes. -/
structure Processor (π τ : Type) where
  new : τ
  advance : τ → List UInt8 → τ × List (Callback π)
  stopSync : τ → τ × List (Callback π)
  syncBytesCount : τ → Nat

/-- `pending` is the part of the tail that is not parsed yet. -/
structure Feeder (τ : Type) where
  parser : τ
  fences : Fences
  sinceReset : Nat
  pending : List UInt8
  columns : Nat
  lines : Nat
  midEscape : Bool
  scrollback : Nat

namespace Feeder

variable {π σ τ : Type} (p : Processor π τ) (h : Handler π σ)

def new (fences : Fences) (columns lines scrollback : Nat) : Feeder τ :=
  { parser := p.new, fences, sinceReset := 0, pending := [], columns, lines, midEscape := false,
    scrollback }

/-- The scrollback only grows. -/
def resize (f : Feeder τ) (size : Size) : Feeder τ :=
  { f with
    columns := size.columns, lines := size.screenLines,
    scrollback := max f.scrollback size.scrollback }

def abandonTail (f : Feeder τ) : Feeder τ := { f with pending := [] }

def enqueue (f : Feeder τ) (bytes : List UInt8) : Feeder τ :=
  { f with pending := f.pending ++ bytes }

def charge (f : Feeder τ) (bytes : Nat) : Feeder τ := { f with sinceReset := f.sinceReset + bytes }

/-- The calls of the parser, counted. -/
def counted (f : Feeder τ) (handler : σ) (calls : List (Callback π)) : Counting σ :=
  (Counting.new handler f.columns f.lines f.scrollback).run h calls

/-- The bytes the parser could see, by whether its buffer shrank or grew. -/
def visible (before after len : Nat) : Nat :=
  if after < before then before + len - after else if before < after then 0 else len

/-- The first fence, with the work it spends. -/
def syncFence (f : Feeder τ) (handler : σ) (spent : Nat) : Feeder τ × σ × Nat :=
  if f.fences.syncAbort ∧ syncCap ≤ p.syncBytesCount f.parser then
    let released := p.syncBytesCount f.parser
    let stopped := p.stopSync f.parser
    let counting := f.counted h handler stopped.2
    (charge { f with parser := stopped.1 } released, counting.inner, saturatingAdd spent
      counting.work)
  else (f, handler, spent)

/-- The second fence. -/
def oscFence (f : Feeder τ) : Feeder τ :=
  if f.fences.oscBudget ∧ Terminal.oscBudget ≤ f.sinceReset then
    { f with parser := p.new, sinceReset := 0 } else f

def advanceSlice (f : Feeder τ) (handler : σ) (bytes : List UInt8) : Feeder τ × σ × Nat :=
  let before := p.syncBytesCount f.parser
  let advanced := p.advance f.parser bytes
  let counting := f.counted h handler advanced.2
  let charged := visible before (p.syncBytesCount advanced.1) bytes.length
  let parsed := charge { f with parser := advanced.1 } charged
  let fenced := parsed.syncFence p h counting.inner (saturatingAdd 0 counting.work)
  (fenced.1.oscFence p, fenced.2.1, fenced.2.2)

/-- How far the next escape is, in the bytes a slice may hold; none while a sequence is open. -/
def nextEscape (f : Feeder τ) : Nat :=
  if f.midEscape then 0
  else
    let horizon := f.pending.take maxSlice
    horizon.findIdx (· == esc)

def width (f : Feeder τ) (spent : Nat) : Nat :=
  sliceBytesRemaining f.columns f.lines f.scrollback spent f.nextEscape

/-- The bytes the next slice has. -/
def slice (f : Feeder τ) (spent : Nat) : List UInt8 := f.pending.take (f.width spent)

/-- One turn of the loop of `drain`. -/
def turn (f : Feeder τ) (handler : σ) (spent : Nat) : Feeder τ × σ × Nat :=
  let bytes := f.slice spent
  let rest : Feeder τ := { f with pending := f.pending.drop (f.width spent) }
  let advanced := rest.advanceSlice p h handler bytes
  let cost := advanced.2.2
  -- a sequence that has cost nothing has not run
  ({ advanced.1 with midEscape := (f.midEscape || bytes.contains esc) && cost == 0 }, advanced.2.1,
    saturatingAdd spent cost)

/-- The loop of `drain`. Each turn takes a byte of the tail at least. -/
def drainLoop : Nat → Feeder τ → σ → Nat → Feeder τ × σ × Nat
  | 0, f, handler, spent => (f, handler, spent)
  | fuel + 1, f, handler, spent =>
    if f.pending = [] then (f, handler, spent)
    else
      let next := f.turn p h handler spent
      if workBudget ≤ next.2.2 then next else drainLoop fuel next.1 next.2.1 next.2.2

/-- Parses from the tail until the budget is spent, and returns the work that took. -/
def drain (f : Feeder τ) (handler : σ) : Feeder τ × σ × Nat :=
  f.drainLoop p h f.pending.length handler 0

/-! ## A drain ends -/

variable {p h} {f : Feeder τ} {handler : σ} {spent : Nat}

theorem pending_syncFence : (f.syncFence p h handler spent).1.pending = f.pending := by
  unfold syncFence
  split
  · rfl
  · rfl

theorem pending_oscFence : (f.oscFence p).pending = f.pending := by
  unfold oscFence
  split
  · rfl
  · rfl

theorem pending_advanceSlice (bytes : List UInt8) :
    (f.advanceSlice p h handler bytes).1.pending = f.pending := by
  unfold advanceSlice
  dsimp only
  rw [pending_oscFence, pending_syncFence]
  rfl

theorem pending_turn : (f.turn p h handler spent).1.pending = f.pending.drop (f.width spent) := by
  unfold turn
  dsimp only
  rw [pending_advanceSlice]

end Feeder

end Pkzz.Terminal
