import Mathlib.Algebra.GroupWithZero.Nat
import Pkzz.Lib.History
import Pkzz.Lib.Machine
import Pkzz.Lib.Map

/-!
# Usage of agent turns

`buzz-acp`'s `usage.rs`: agents report counters that grow over a session, and the tracker
publishes what each turn added to them. The committed baseline of a session is what the next
turn's share is measured from. It moves when a record is published; and when a notification
comes in while no turn is in flight, which is meant for what an agent reports while it sets a
session up.
-/

namespace Pkzz.Acp

open Pkzz.Lib

structure UsageUpdatePayload where
  accumulatedInputTokens : Nat
  accumulatedOutputTokens : Nat
  accumulatedCachedInputTokens : Option Nat
  accumulatedCost : Option Float
  accumulatedTotalTokens : Option Nat
  model : Option String

/-- The baseline of a session. -/
structure SessionState where
  publishedSeq : Nat
  lastInput : Nat
  lastOutput : Nat
  lastCost : Option Float
  lastTotal : Option Nat
  lastCachedInput : Option Nat

structure TurnUsage where
  sessionId : String
  turnSeq : Nat
  deltaReliable : Bool
  turnInputTokens : Option Nat
  turnOutputTokens : Option Nat
  turnTotalTokens : Option Nat
  turnCostUsd : Option Float
  turnCacheReadTokens : Option Nat
  cumulativeInputTokens : Nat
  cumulativeOutputTokens : Nat
  cumulativeTotalTokens : Option Nat
  cumulativeCostUsd : Option Float
  cumulativeCacheReadTokens : Option Nat
  model : Option String

structure UsageTracker where
  sessions : Map String SessionState
  inFlightSession : Option String
  pending : Option TurnUsage

namespace UsageTracker

def default : UsageTracker := ⟨∅, none, none⟩

def beginTurn (t : UsageTracker) (sessionId : String) : UsageTracker :=
  { t with inFlightSession := some sessionId, pending := none }

/-- The share of the turn in the cost, and whether it can be relied on. -/
def costDelta : Option Float → Option Float → Option Float × Bool
  | some c, some p => if c ≥ p then (some (c - p), true) else (none, false)
  | _, _ => (none, true)

/-- What `record` finds out about input, output and cost. -/
structure Delta where
  reliable : Bool
  turnInput : Option Nat
  turnOutput : Option Nat
  turnCost : Option Float
  turnSeq : Nat

def delta (prev : Option SessionState) (payload : UsageUpdatePayload) : Delta :=
  match prev with
  | none => ⟨false, none, none, none, 1⟩
  | some prev =>
    let seq := prev.publishedSeq + 1
    if payload.accumulatedInputTokens < prev.lastInput ∨
      payload.accumulatedOutputTokens < prev.lastOutput then
      ⟨false, none, none, none, seq⟩
    else
      let cost := costDelta payload.accumulatedCost prev.lastCost
      if cost.2 then
        ⟨true, some (payload.accumulatedInputTokens - prev.lastInput),
          some (payload.accumulatedOutputTokens - prev.lastOutput), cost.1, seq⟩
      else ⟨false, none, none, none, seq⟩

/-- The share in a counter that may be missing; it says nothing about the others. -/
def localDelta (current last : Option Nat) : Option Nat :=
  match current, last with
  | some cur, some p => if cur ≥ p then some (cur - p) else none
  | _, _ => none

def turnUsage (prev : Option SessionState) (sessionId : String) (payload : UsageUpdatePayload) :
    TurnUsage :=
  let d := delta prev payload
  { sessionId
    turnSeq := d.turnSeq
    deltaReliable := d.reliable
    turnInputTokens := d.turnInput
    turnOutputTokens := d.turnOutput
    turnTotalTokens := localDelta payload.accumulatedTotalTokens (prev.bind SessionState.lastTotal)
    turnCostUsd := d.turnCost
    turnCacheReadTokens :=
      localDelta payload.accumulatedCachedInputTokens (prev.bind SessionState.lastCachedInput)
    cumulativeInputTokens := payload.accumulatedInputTokens
    cumulativeOutputTokens := payload.accumulatedOutputTokens
    cumulativeTotalTokens := payload.accumulatedTotalTokens
    cumulativeCostUsd := payload.accumulatedCost
    cumulativeCacheReadTokens := payload.accumulatedCachedInputTokens
    model := payload.model }

/-- The baseline after a notification outside any turn. -/
def setupState (prev : Option SessionState) (payload : UsageUpdatePayload) : SessionState where
  publishedSeq := (prev.map SessionState.publishedSeq).getD 0
  lastInput := payload.accumulatedInputTokens
  lastOutput := payload.accumulatedOutputTokens
  lastCost := payload.accumulatedCost
  lastTotal := payload.accumulatedTotalTokens
  lastCachedInput := payload.accumulatedCachedInputTokens

def record (t : UsageTracker) (sessionId : String) (payload : UsageUpdatePayload) : UsageTracker :=
  let prev := Finmap.lookup sessionId t.sessions
  if t.inFlightSession = some sessionId then
    { t with pending := some (turnUsage prev sessionId payload) }
  else if t.inFlightSession = none then
    { t with sessions := Finmap.insert sessionId (setupState prev payload) t.sessions }
  -- in flight for another session
  else t

/-- The baseline after a record was published. -/
def publishedState (record : TurnUsage) : SessionState where
  publishedSeq := record.turnSeq
  lastInput := record.cumulativeInputTokens
  lastOutput := record.cumulativeOutputTokens
  lastCost := record.cumulativeCostUsd
  lastTotal := record.cumulativeTotalTokens
  lastCachedInput := record.cumulativeCacheReadTokens

def take (t : UsageTracker) : UsageTracker × Option TurnUsage :=
  match t.pending with
  | none => ({ t with inFlightSession := none }, none)
  | some record =>
    ({ sessions := Finmap.insert record.sessionId (publishedState record) t.sessions
       inFlightSession := none
       pending := none }, some record)

end UsageTracker

/-! ## Runs -/

inductive UsageCall where
  | beginTurn (sessionId : String)
  | record (sessionId : String) (payload : UsageUpdatePayload)
  | take

/-- The tracker, with what has been said to it and what `take` has returned. -/
structure UsageRun where
  tracker : UsageTracker
  heard : List (String × UsageUpdatePayload)
  published : List TurnUsage

namespace UsageRun

def init : UsageRun := ⟨.default, [], []⟩

def step (r : UsageRun) : UsageCall → Option UsageRun
  | .beginTurn sessionId => some { r with tracker := r.tracker.beginTurn sessionId }
  | .record sessionId payload =>
    some { r with
      tracker := r.tracker.record sessionId payload, heard := r.heard ++ [(sessionId, payload)] }
  | .take =>
    let out := r.tracker.take
    some { r with tracker := out.1, published := r.published ++ out.2.toList }

def machine : Machine UsageRun UsageCall := ⟨step⟩

/-- The records of a session among those that were published. -/
def ofSession (sessionId : String) (published : List TurnUsage) : List TurnUsage :=
  published.filter fun u => u.sessionId = sessionId

/-- Counters that never decrease within a session; no costs. -/
def NonDecreasing (r : UsageRun) : UsageCall → Prop
  | .record sessionId payload =>
    payload.accumulatedCost = none ∧ ∀ q, (sessionId, q) ∈ r.heard →
      q.accumulatedInputTokens ≤ payload.accumulatedInputTokens
        ∧ q.accumulatedOutputTokens ≤ payload.accumulatedOutputTokens
  | _ => True

/-- No notification tells something new about a session that has a published record while no turn is
in flight. -/
def NoneLate (r : UsageRun) : UsageCall → Prop
  | .record sessionId payload =>
    r.tracker.inFlightSession = none → ∀ u ∈ (ofSession sessionId r.published).getLast?,
      payload.accumulatedInputTokens = u.cumulativeInputTokens
        ∧ payload.accumulatedOutputTokens = u.cumulativeOutputTokens
  | _ => True

/-- A record next to the one before it. -/
structure Measures (v u : TurnUsage) : Prop where
  reliable : u.deltaReliable = true
  input : u.turnInputTokens = some (u.cumulativeInputTokens - v.cumulativeInputTokens)
  output : u.turnOutputTokens = some (u.cumulativeOutputTokens - v.cumulativeOutputTokens)
  input_le : v.cumulativeInputTokens ≤ u.cumulativeInputTokens
  output_le : v.cumulativeOutputTokens ≤ u.cumulativeOutputTokens

/-- A record next to all those that were published before it. -/
def Follows (before : List TurnUsage) (u : TurnUsage) : Prop :=
  u.turnSeq = (ofSession u.sessionId before).length + 1
    ∧ ∀ v ∈ (ofSession u.sessionId before).getLast?, Measures v u

/-- What the records of a session add up to. -/
def total (f : TurnUsage → Option Nat) (l : List TurnUsage) : Nat :=
  (l.map fun u => (f u).getD 0).sum

/-- Each record follows those before it, so nothing is lost and nothing counted twice. -/
structure Telescopes (published : List TurnUsage) : Prop where
  follows : Justified Follows published
  sums : ∀ sessionId first rest last, ofSession sessionId published = first :: rest →
    (first :: rest).getLast? = some last →
    first.cumulativeInputTokens + total TurnUsage.turnInputTokens rest = last.cumulativeInputTokens
      ∧ first.cumulativeOutputTokens + total TurnUsage.turnOutputTokens rest =
        last.cumulativeOutputTokens

end UsageRun

end Pkzz.Acp
