import Pkzz.Lib.ByteIndex
import Pkzz.Lib.Utf8

/-!
# Slugs and references of agent memory

`buzz-core`: the grammar of the names of memory entries, and the scan of a text for
references to them.

* source: crates/buzz-core/src/engram.rs

The texts of the errors are formatted from the data kept here.
-/

namespace Pkzz.Core.Engram

open Pkzz.Lib

/-! ## Slices of a string -/

/-- `&s[start..stop]`; nothing where the source would panic. -/
def slice (s : String) (start stop : Nat) : Option String :=
  (ByteIndex.slice start stop s.toList).map String.ofList

/-! ## Slugs -/

def coreSlug : String := "core"

def slugMaxLen : Nat := 255

def memPrefix : String := "mem/"

inductive SegmentError where
  | empty
  | tooLong
  | firstByte
  | laterByte
  deriving DecidableEq

def SegmentError.why : SegmentError → String
  | empty => "empty"
  | tooLong => "longer than 64 bytes"
  | firstByte => "first byte must be [a-z0-9]"
  | laterByte => "only [a-z0-9_-] allowed after the first byte"

/-- `EngramError::InvalidSlug`. -/
inductive InvalidSlug where
  | length (len : Nat)
  | expected (slug : String)
  | emptyAfterMem
  | segment (number : Nat) (segment : String) (why : SegmentError)
  deriving DecidableEq

def isLowerAlnum (b : UInt8) : Bool := (0x61 ≤ b && b ≤ 0x7a) || (0x30 ≤ b && b ≤ 0x39)

/-- A byte of a segment after the first one. -/
def isSegmentByte (b : UInt8) : Bool := isLowerAlnum b || b == 0x5f || b == 0x2d

def validateSegment (s : String) : Except SegmentError Unit :=
  match Str.asBytes s with
  | [] => .error .empty
  | first :: rest =>
    if 64 < (first :: rest).length then .error .tooLong
    else if !isLowerAlnum first then .error .firstByte
    else if rest.all isSegmentByte then .ok ()
    else .error .laterByte

/-- The loop over the segments; the first one has number `i + 1`. -/
def validateSegments : Nat → List String → Except InvalidSlug Unit
  | _, [] => .ok ()
  | i, segment :: rest =>
    match validateSegment segment with
    | .error why => .error (.segment (i + 1) segment why)
    | .ok () => validateSegments (i + 1) rest

def validateSlug (slug : String) : Except InvalidSlug Unit :=
  if slug = coreSlug then .ok ()
  else if slugMaxLen < Str.len slug then .error (.length (Str.len slug))
  else
    match Str.stripPrefix slug memPrefix with
    | none => .error (.expected slug)
    | some rest => if rest = "" then
        .error .emptyAfterMem else validateSegments 0 (Str.split rest '/')

/-! ## References -/

def openBracket : UInt8 := 0x5b

def closeBracket : UInt8 := 0x5d

/-- `bytes[k] == b && bytes[k + 1] == b`. -/
def pairAt (bytes : List UInt8) (b : UInt8) (k : Nat) : Bool :=
  bytes[k]? == some b && bytes[k + 1]? == some b

/-- The inner loop: the position it ends at, and whether that is a `]]`. -/
def findClose (bytes : List UInt8) (j : Nat) : Nat × Bool :=
  if j + 1 < bytes.length then
    if pairAt bytes openBracket j then (j, false)
    else if pairAt bytes closeBracket j then (j, true)
    else findClose bytes (j + 1)
  else (j, false)
termination_by bytes.length - j

theorem le_findClose (bytes : List UInt8) (j : Nat) : j ≤ (findClose bytes j).1 := by
  fun_induction findClose bytes j with
  | case1 => exact Nat.le_refl _
  | case2 => exact Nat.le_refl _
  | case3 j _ _ _ ih => exact Nat.le_of_succ_le ih
  | case4 => exact Nat.le_refl _

/-- A candidate that is a slug and not in the list yet is added to it. -/
def report (out : List String) (candidate : String) : List String :=
  if (validateSlug candidate).isOk && !out.contains candidate then out ++ [candidate] else out

/-- The outer loop. -/
def extractLoop (body : String) (bytes : List UInt8) (i : Nat) (out : List String) :
    Option (List String) :=
  if i + 3 < bytes.length then
    if pairAt bytes openBracket i then
      let start := i + 2
      if (findClose bytes start).2 then
        match slice body start (findClose bytes start).1 with
        | none => none
        | some candidate => extractLoop body bytes ((findClose bytes start).1 + 2)
            (report out candidate)
      else
        -- an inner opener or no closer: the scan goes on behind this opener
        extractLoop body bytes start out
    else extractLoop body bytes (i + 1) out
  else some out
termination_by bytes.length - i
decreasing_by
  · have hle := le_findClose bytes (i + 2)
    omega
  · omega
  · omega

/-- `extract_refs`; nothing where a slice would panic. -/
def extractRefs (body : String) : Option (List String) := extractLoop body (Str.asBytes body) 0 []

end Pkzz.Core.Engram
