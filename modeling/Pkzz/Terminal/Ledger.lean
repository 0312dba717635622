import Mathlib.Algebra.GroupWithZero.Nat
import Pkzz.Terminal.SmallParser

/-!
# What became of every byte

Bytes are accepted, wait in the tail, and are handed to the parser slice by slice or discarded with
the tail. The statistics charge what the parser could see. How much that was is inferred from the
length of the update buffer before and after the slice; the inference is right unless a slice shows
the parser some bytes and leaves more in the buffer than it found there.
-/

namespace Pkzz.Terminal

open Pkzz.Lib

/-- `TAIL_CAP`. -/
def tailCap : Nat := 4 * 2 ^ 20

structure FenceStats where
  syncAborts : Nat := 0
  maxRelease : Nat := 0
  oscResets : Nat := 0
  chargedBytes : Nat := 0
  completedUnits : Nat := 0
  completedWork : Nat := 0
  maxPending : Nat := 0
  tailBreaches : Nat := 0
  abandonedBytes : Nat := 0
deriving DecidableEq

namespace FenceStats

def charge (stats : FenceStats) (bytes : Nat) : FenceStats :=
  { stats with chargedBytes := stats.chargedBytes + bytes }

def noteRelease (stats : FenceStats) (bytes : Nat) : FenceStats :=
  if stats.maxRelease < bytes then { stats with maxRelease := bytes } else stats

/-- The calls of the parser and their work; one unit for each call. -/
def complete (stats : FenceStats) (units work : Nat) : FenceStats :=
  { stats with
    completedUnits := saturatingAdd stats.completedUnits units
    completedWork := saturatingAdd stats.completedWork work }

/-- The end of a drain. -/
def noteDepth (stats : FenceStats) (depth : Nat) : FenceStats :=
  { stats with
    maxPending := max stats.maxPending depth
    tailBreaches := if tailCap ≤ depth then stats.tailBreaches + 1 else stats.tailBreaches }

variable {stats : FenceStats} {n m : Nat}

@[simp] theorem chargedBytes_charge : (stats.charge n).chargedBytes = stats.chargedBytes + n := rfl

@[simp] theorem abandonedBytes_charge : (stats.charge n).abandonedBytes = stats.abandonedBytes :=
  rfl

@[simp] theorem chargedBytes_noteRelease :
    (stats.noteRelease n).chargedBytes = stats.chargedBytes := by
  unfold noteRelease
  split <;> rfl

@[simp] theorem abandonedBytes_noteRelease :
    (stats.noteRelease n).abandonedBytes = stats.abandonedBytes := by
  unfold noteRelease
  split <;> rfl

@[simp] theorem chargedBytes_complete : (stats.complete n m).chargedBytes = stats.chargedBytes :=
  rfl

@[simp] theorem abandonedBytes_complete :
    (stats.complete n m).abandonedBytes = stats.abandonedBytes := rfl

@[simp] theorem chargedBytes_noteDepth : (stats.noteDepth n).chargedBytes = stats.chargedBytes :=
  rfl

@[simp] theorem abandonedBytes_noteDepth :
    (stats.noteDepth n).abandonedBytes = stats.abandonedBytes := rfl

end FenceStats

/-! ## The statistics of a slice -/

namespace Feeder

variable {π σ τ : Type} (p : Processor π τ) (h : Handler π σ)

/-- What the first fence notes. -/
def syncFenceStats (f : Feeder τ) (handler : σ) (stats : FenceStats) : FenceStats :=
  if f.fences.syncAbort ∧ syncCap ≤ p.syncBytesCount f.parser then
    let released := p.syncBytesCount f.parser
    let stopped := p.stopSync f.parser
    let stats := stats.complete stopped.2.length (f.counted h handler stopped.2).work
    let stats := { stats with syncAborts := stats.syncAborts + 1 }
    (stats.noteRelease released).charge released
  else stats

/-- What the second fence notes. -/
def oscFenceStats (f : Feeder τ) (stats : FenceStats) : FenceStats :=
  if f.fences.oscBudget ∧ Terminal.oscBudget ≤ f.sinceReset then
    { stats with oscResets := stats.oscResets + 1 }
  else stats

/-- What `advance_slice` notes. -/
def advanceSliceStats (f : Feeder τ) (handler : σ) (bytes : List UInt8) (stats : FenceStats) :
    FenceStats :=
  let before := p.syncBytesCount f.parser
  let advanced := p.advance f.parser bytes
  let counting := f.counted h handler advanced.2
  let stats := stats.complete advanced.2.length counting.work
  let after := p.syncBytesCount advanced.1
  let charged := visible before after bytes.length
  let stats := if after < before then stats.noteRelease charged else stats
  let stats := stats.charge charged
  let parsed := charge { f with parser := advanced.1 } charged
  let stats := parsed.syncFenceStats p h counting.inner stats
  (parsed.syncFence p h counting.inner (saturatingAdd 0 counting.work)).1.oscFenceStats stats

/-- What one turn of the loop of `drain` notes. -/
def turnStats (f : Feeder τ) (handler : σ) (spent : Nat) (stats : FenceStats) : FenceStats :=
  let rest : Feeder τ := { f with pending := f.pending.drop (f.width spent) }
  rest.advanceSliceStats p h handler (f.slice spent) stats

end Feeder

/-! ## The calls, turn by turn -/

/-- A feeder with its statistics, and what became of every byte accepted so far. -/
structure Ledger (σ τ : Type) where
  feeder : Feeder τ
  stats : FenceStats
  handler : σ
  /-- The work of the drain under way. -/
  draining : Option Nat
  /-- The accepted bytes that wait no more, in order: `true` for a byte handed to the parser,
  `false` for one discarded. -/
  settled : List (UInt8 × Bool)

inductive LedgerOp where
  | feed (bytes : List UInt8)
  | drain
  /-- One slice of the drain under way, or its end. -/
  | turn
  | resize (size : Size)
  | abandonTail
deriving DecidableEq

namespace Ledger

variable {π σ τ : Type} (p : Processor π τ) (h : Handler π σ)

def start (fences : Fences) (columns lines scrollback : Nat) (handler : σ) : Ledger σ τ :=
  { feeder := Feeder.new p fences columns lines scrollback, stats := {}, handler, draining := none,
    settled := [] }

/-- The end of `drain`. -/
def endDrain (s : Ledger σ τ) : Ledger σ τ :=
  { s with draining := none, stats := s.stats.noteDepth s.feeder.pending.length }

/-- One slice is handed to the parser. -/
def advance (s : Ledger σ τ) (spent : Nat) : Ledger σ τ :=
  let next := s.feeder.turn p h s.handler spent
  { feeder := next.1
    stats := s.feeder.turnStats p h s.handler spent s.stats
    handler := next.2.1
    draining := some next.2.2
    settled := s.settled ++ (s.feeder.slice spent).map fun b => (b, true) }

/-- One turn of the loop of `drain`. -/
def turn (s : Ledger σ τ) (spent : Nat) : Ledger σ τ :=
  if s.feeder.pending = [] then s.endDrain
  else
    let next := s.advance p h spent
    if workBudget ≤ next.draining.getD 0 then next.endDrain else next

/-- No other call comes in while a drain is under way. -/
def step (s : Ledger σ τ) (op : LedgerOp) : Option (Ledger σ τ) :=
  match op, s.draining with
  | .feed bytes, none => some { s with feeder := s.feeder.enqueue bytes, draining := some 0 }
  | .drain, none => some { s with draining := some 0 }
  | .turn, some spent => some (s.turn p h spent)
  | .resize size, none => some { s with feeder := s.feeder.resize size }
  | .abandonTail, none =>
    some { s with
      feeder := s.feeder.abandonTail
      stats := { s.stats with abandonedBytes := s.stats.abandonedBytes + s.feeder.pending.length }
      settled := s.settled ++ s.feeder.pending.map fun b => (b, false) }
  | _, _ => none

def machine : Machine (Ledger σ τ) LedgerOp := ⟨step p h⟩

/-- The bytes handed to the parser, in order. -/
def parsed (s : Ledger σ τ) : List UInt8 := (s.settled.filter Prod.snd).map Prod.fst

/-- The accepted bytes, in order. -/
def accepted (s : Ledger σ τ) : List UInt8 := s.settled.map Prod.fst ++ s.feeder.pending

/-- `charged_bytes` and the bytes in the update buffer are the bytes handed to the parser. -/
def Conserved (s : Ledger σ τ) : Prop :=
  s.stats.chargedBytes + p.syncBytesCount s.feeder.parser = s.parsed.length

/-- A slice that leaves more in the update buffer than it found there went into the buffer whole. -/
def GrowsWhole (t : τ) (bytes : List UInt8) : Prop :=
  p.syncBytesCount t < p.syncBytesCount (p.advance t bytes).1 →
    p.syncBytesCount (p.advance t bytes).1 = p.syncBytesCount t + bytes.length

/-- The slice of the step, if it has one, is of that kind. -/
def StepGrowsWhole (s : Ledger σ τ) (op : LedgerOp) : Prop :=
  match op, s.draining with
  | .turn, some spent => s.feeder.pending ≠ [] → GrowsWhole p s.feeder.parser (s.feeder.slice spent)
  | _, _ => True

variable {p h} {s : Ledger σ τ} {fuel spent : Nat}

theorem turn_of_empty (hempty : s.feeder.pending = []) : s.turn p h spent = s.endDrain :=
  if_pos hempty

theorem turn_of_pending (hpending : s.feeder.pending ≠ []) :
    s.turn p h spent = if workBudget ≤ (s.feeder.turn p h s.handler spent).2.2 then
      (s.advance p h spent).endDrain else s.advance p h spent := if_neg hpending

end Ledger

end Pkzz.Terminal
