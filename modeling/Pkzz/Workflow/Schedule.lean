import Pkzz.Core.Ids
import Pkzz.Lib.Map
import Mathlib.Order.Bounds.Basic

/-!
# When a scheduled workflow is due

The pure part of `buzz-workflow`'s scheduler: `cron_fire_instant`, `interval_fire_instant`,
`interval_should_fire`, `interval_prefilter_should_fire`, and what they call. A
`DateTime<Utc>` is its nanoseconds since the epoch. The crate that parses and evaluates cron
expressions is a parameter (`CronCrate`).
-/

namespace Pkzz.Workflow

open Pkzz.Core Pkzz.Lib

def nanosPerSec : Int := 1000000000

/-- `DateTime::timestamp`. -/
def timestamp (t : Int) : Int := t / nanosPerSec

/-- `DateTime::from_timestamp(secs, 0)`; `chrono`'s years end with 262142. -/
def fromTimestamp (secs : Int) : Option Int :=
  if -8334601228800 ≤ secs ∧ secs ≤ 8210266876799 then some (secs * nanosPerSec) else none

/-- `Duration::num_seconds`, which rounds towards zero. -/
def numSeconds (d : Int) : Int := d.tdiv nanosPerSec

/-! ## Cron expressions -/

/-- `split_whitespace().count()`. -/
def fieldCount (expr : String) : Nat :=
  ((expr.toList.splitOnP Str.isWhitespace).filter fun field => !field.isEmpty).length

def normalizeCron (expr : String) : String :=
  match fieldCount expr with
  | 5 => "0 " ++ expr ++ " *"
  | 6 => expr ++ " *"
  | _ => expr

/-- The `cron` crate. -/
structure CronCrate where
  Schedule : Type
  parse : String → Option Schedule
  /-- `schedule.after(&t).next()`. -/
  next : Schedule → Int → Option Int

/-- The instant a tick at `now` fires for. -/
def cronFireInstant (cron : CronCrate) (expr : String) (now : Int) (windowSecs : Int) :
    Option Int :=
  match cron.parse (normalizeCron expr) with
  | some sched =>
    let windowStart := now - windowSecs * nanosPerSec
    (cron.next sched windowStart).filter fun t => t ≤ now
  | none => none

/-! ## Intervals -/

/-- `str::parse::<u64>`. -/
def parseU64 (s : String) : Option Nat :=
  let digits :=
    match s.toList with
    | '+' :: ds => ds
    | ds => ds
  if digits.isEmpty || !digits.all Char.isDigit then none
  else
    let n := digits.foldl (fun n d => 10 * n + (d.toNat - 48)) 0
    if n < 2 ^ 64 then some n else none

/-- `strip_suffix` of a character. -/
def stripSuffix (s : String) (c : Char) : Option String :=
  if s.toList.getLast? = some c then some (String.ofList s.toList.dropLast) else none

def checkedMul (a b : Nat) : Option Nat := if a * b < 2 ^ 64 then some (a * b) else none

def parseDurationSecs (duration : String) : Option Nat :=
  let duration := Str.trim duration
  match stripSuffix duration 'h' with
  | some n => (parseU64 (Str.trim n)).bind fun hours => checkedMul hours 3600
  | none =>
    match stripSuffix duration 'm' with
    | some n => (parseU64 (Str.trim n)).bind fun mins => checkedMul mins 60
    | none =>
      match stripSuffix duration 's' with
      | some n => parseU64 (Str.trim n)
      | none => parseU64 duration

/-- `as i64`. -/
def asI64 (n : Nat) : Int := if n < 2 ^ 63 then n else n - 2 ^ 64

/-- The start of the bucket that `now` is in, the same on every pod. -/
def intervalFireInstant (dur : String) (now : Int) : Option Int :=
  match parseDurationSecs dur with
  | some intervalSecs =>
    if intervalSecs > 0 then
      let secs := asI64 intervalSecs
      fromTimestamp (timestamp now / secs * secs)
    else none
  | none => none

def intervalShouldFire (dur : String) (lastFired : Option Int) (now : Int) : Bool :=
  match parseDurationSecs dur with
  | some intervalSecs =>
    -- before the first fire there is nothing to count from
    let last := lastFired.getD now
    intervalSecs ≤ (numSeconds (now - last)).natAbs
  | none => false

/-- A workflow; its id may be in use in another community too. -/
structure WorkflowKey where
  communityId : Uuid
  workflowId : Uuid
  deriving DecidableEq

/-- Whether to go on to the claim; without an anchor, `now` becomes one. -/
def intervalPrefilterShouldFire (lastFired : Map WorkflowKey Int) (key : WorkflowKey) (dur : String)
    (last : Option Int) (now : Int) : Map WorkflowKey Int × Bool :=
  if intervalShouldFire dur last now then (lastFired, true)
  else if last.isNone then (lastFired.insert key now, false)
  else (lastFired, false)

/-! ## What the predicates say -/

/-- The instants of a schedule, as `next` walks through them. -/
structure CronCrate.Fires (cron : CronCrate) (sched : cron.Schedule) (fires : Set Int) : Prop where
  next : ∀ t x, cron.next sched t = some x ↔ IsLeast {y | y ∈ fires ∧ t < y} x

variable {cron : CronCrate} {expr dur : String} {sched : cron.Schedule} {fires : Set Int}
    {now t : Int}

end Pkzz.Workflow
