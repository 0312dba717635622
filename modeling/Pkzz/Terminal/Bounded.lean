import Pkzz.Terminal.SmallParser
import Mathlib.Order.MinMax

/-!
# One drain is bounded

A slice of plain bytes costs a row for each byte, and a slice from an escape on half of the dearest
callback for each byte, with what the open sequence had left on top. So a slice that releases
nothing costs no more than what is left of the budget and one callback, and a drain no more than the
budget and one callback. The bytes of an update are paid for when they are released, in one slice,
which is bounded only as far as the update is.
-/

namespace Pkzz.Terminal

open Pkzz.Lib

variable {π σ τ : Type} {h : Handler π σ} {g : Grid} {p : Processor π τ} {r : Reading π τ}

/-! ## What a slice costs -/

theorem Lawful.advance_onHold (hlaw : Lawful h g p r) (t : τ) (bytes : List UInt8) (handler : σ) :
    charged h g handler (p.advance t bytes).2 + onHold g r (p.advance t bytes).1 ≤
      onHold g r t + g.price bytes + 1 := by
  rcases hlaw.advance t bytes with hkeeps | hrelease
  · unfold Keeps at hkeeps
    unfold onHold
    split at hkeeps
    · rename_i buffer hheld
      obtain ⟨hcalls, hheld', hseq⟩ := hkeeps
      rw [hcalls, hheld, hheld', hseq, charged_nil, Option.getD_some, Option.getD_some,
        Grid.price_append]
      omega
    · rename_i hheld
      obtain ⟨seen, rest, rfl, hout, hcalls, hseq, hheld', hrest⟩ := hkeeps
      have hsteps := charged_steps 1 g.credit g.bytePrice (fun t b handler ht =>
        (hlaw.byte t b handler ht).paid) handler hout
      have hprice : (seen.map g.bytePrice).sum = g.price seen := rfl
      -- what is held back afterwards was in the slice, and is priced as such
      have hback : g.price ((r.held (p.advance t (seen ++ rest)).1).getD []) ≤ g.price rest := by
        rw [hheld']
        cases r.held (r.steps t seen).1 with
        | none => exact Nat.zero_le _
        | some buffer => exact Nat.le_refl _
      rw [hcalls, hseq, hheld, Option.getD_none, Grid.price_append]
      omega
  · exact hrelease handler

/-- The steps outside an update whose calls a slice that releases nothing makes. -/
theorem Keeps.calls {t : τ} {bytes : List UInt8} (hkeeps : Keeps p r t bytes) (handler : σ) :
    charged h g handler (p.advance t bytes).2 = 0 ∨
      ∃ seen rest, bytes = seen ++ rest ∧ r.Outside t seen ∧
        (p.advance t bytes).2 = (r.steps t seen).2 := by
  unfold Keeps at hkeeps
  split at hkeeps
  · rw [hkeeps.1]
    exact .inl rfl
  · obtain ⟨seen, rest, hbytes, hout, hcalls, _⟩ := hkeeps
    exact .inr ⟨seen, rest, hbytes, hout, hcalls⟩

variable {t : τ} {bytes : List UInt8}

/-- One byte. -/
theorem Keeps.byte_le (hkeeps : Keeps p r t bytes) (hlaw : Lawful h g p r) (hone : bytes.length ≤ 1)
    (handler : σ) : charged h g handler (p.advance t bytes).2 ≤ max g.atom g.plainByte := by
  rcases hkeeps.calls (h := h) (g := g) handler with hzero | ⟨seen, rest, rfl, hout, hcalls⟩
  · rw [hzero]
    exact Nat.zero_le _
  rw [hcalls]
  cases seen with
  | nil =>
    rw [Reading.steps]
    exact Nat.zero_le _
  | cons b seen =>
    have hseen : seen = [] := by
      rw [List.cons_append, List.length_cons, List.length_append] at hone
      exact List.length_eq_zero_iff.mp (by omega)
    subst hseen
    rw [Reading.steps, Reading.steps, List.append_nil]
    exact (hlaw.byte t b handler hout.1).cost_le

/-- Plain bytes: a row each, and what an open sequence has left. -/
theorem Keeps.plain_le (hkeeps : Keeps p r t bytes) (hlaw : Lawful h g p r) (hesc : esc ∉ bytes)
    (handler : σ) :
    charged h g handler (p.advance t bytes).2 ≤ g.atom + bytes.length * g.plainByte := by
  rcases hkeeps.calls (h := h) (g := g) handler with hzero | ⟨seen, rest, rfl, hout, hcalls⟩
  · rw [hzero]
    exact Nat.zero_le _
  rw [hcalls]
  have hsteps := charged_steps 1 g.credit g.bytePrice (fun t b handler ht =>
    (hlaw.byte t b handler ht).paid) handler hout
  have hprice : (seen.map g.bytePrice).sum = seen.length * g.plainByte :=
    g.price_of_no_escape fun hmem => hesc (List.mem_append_left _ hmem)
  have hcredit := g.credit_le (r.seq t)
  have hlength : seen.length * g.plainByte ≤ (seen ++ rest).length * g.plainByte :=
    Nat.mul_le_mul_right _ (by rw [List.length_append]; exact Nat.le_add_right _ _)
  omega

/-- Bytes of sequences: half of the dearest callback each, and what an open sequence has left. -/
theorem Keeps.halves_le (hkeeps : Keeps p r t bytes) (hlaw : Lawful h g p r)
    (hatom : g.atom ≤ 2 * g.densest) (hplain : g.plainByte ≤ g.densest) (handler : σ) :
    charged h g handler (p.advance t bytes).2 ≤ g.atom + bytes.length * g.densest := by
  rcases hkeeps.calls (h := h) (g := g) handler with hzero | ⟨seen, rest, rfl, hout, hcalls⟩
  · rw [hzero]
    exact Nat.zero_le _
  rw [hcalls]
  have hsteps := charged_steps 2 g.halves (fun _ => 2 * g.densest)
    (fun t b handler ht => (hlaw.byte t b handler ht).paid_by_halves hatom hplain) handler hout
  have hsum : (seen.map fun _ => 2 * g.densest).sum = seen.length * (2 * g.densest) := by
    rw [List.map_const', List.sum_replicate_nat]
  have htwice : seen.length * (2 * g.densest) = 2 * (seen.length * g.densest) :=
    Nat.mul_left_comm _ _ _
  have hhalves := g.halves_le (r.seq t)
  have hlength : seen.length * g.densest ≤ (seen ++ rest).length * g.densest :=
    Nat.mul_le_mul_right _ (by rw [List.length_append]; exact Nat.le_add_right _ _)
  omega

/-! ## How wide a slice is -/

variable {f : Feeder τ} {spent : Nat}

theorem width_le_nextEscape (hplain : 0 < f.nextEscape) : f.width spent ≤ f.nextEscape := by
  unfold Feeder.width sliceBytesRemaining clampTo
  dsimp only
  rw [if_pos hplain]
  omega

/-- No escape is in a slice of plain bytes. -/
theorem no_escape (hplain : 0 < f.nextEscape) : esc ∉ f.slice spent := by
  have hwidth : f.width spent ≤ f.nextEscape := width_le_nextEscape hplain
  unfold Feeder.nextEscape at hplain hwidth
  split at hplain
  · exact absurd hplain (Nat.lt_irrefl 0)
  rename_i hmid
  rw [if_neg hmid] at hwidth
  dsimp only at hwidth
  intro hmem
  obtain ⟨i, hi⟩ := List.mem_iff_getElem?.mp hmem
  rw [Feeder.slice, List.getElem?_take] at hi
  split at hi
  · rename_i hlt
    -- the byte is in the horizon, before the first escape of it
    have hfirst : i < (f.pending.take maxSlice).findIdx (· == esc) := Nat.lt_of_lt_of_le hlt hwidth
    have hlength : (f.pending.take maxSlice).findIdx (· == esc) ≤
        (f.pending.take maxSlice).length := List.findIdx_le_length
    have hhorizon : i < (f.pending.take maxSlice).length := Nat.lt_of_lt_of_le hfirst hlength
    have hnot := List.not_of_lt_findIdx hfirst
    obtain ⟨_, hget⟩ := List.getElem?_eq_some_iff.mp hi
    rw [List.getElem_take, hget] at hnot
    cases hnot
  · cases hi

theorem width_plain (hplain : 0 < f.nextEscape) :
    f.width spent ≤ 1 ∨ f.width spent * f.grid.plainByte ≤ workBudget - spent := by
  have hpos : 0 < f.grid.plainByte := Nat.lt_of_lt_of_le Nat.one_pos (Nat.le_max_right _ _)
  have hwidth : f.width spent ≤ max 1 ((workBudget - spent) / f.grid.plainByte) := by
    unfold Feeder.width sliceBytesRemaining clampTo Grid.plainByte
    dsimp only
    rw [if_pos hplain]
    exact max_le_max_left 1 (Nat.min_le_left _ _)
  rcases Nat.lt_or_ge 1 ((workBudget - spent) / f.grid.plainByte) with hwide | hnarrow
  · rw [Nat.max_eq_right (Nat.le_of_lt hwide)] at hwidth
    exact .inr ((Nat.le_div_iff_mul_le hpos).mp hwidth)
  · rw [Nat.max_eq_left hnarrow] at hwidth
    exact .inl hwidth

theorem width_escape (hescape : f.nextEscape = 0) :
    f.width spent ≤ 1 ∨ f.width spent * f.grid.densest ≤ workBudget - spent := by
  have hpos : 0 < f.grid.densest := Nat.lt_of_lt_of_le Nat.one_pos (Nat.le_max_right _ _)
  have hwidth : f.width spent ≤ max 1 ((workBudget - spent) / f.grid.densest) := by
    unfold Feeder.width sliceBytesRemaining clampTo
    dsimp only
    rw [if_neg (by omega)]
    exact max_le_max_left 1 (Nat.min_le_left _ _)
  rcases Nat.lt_or_ge 1 ((workBudget - spent) / f.grid.densest) with hwide | hnarrow
  · rw [Nat.max_eq_right (Nat.le_of_lt hwide)] at hwidth
    exact .inr ((Nat.le_div_iff_mul_le hpos).mp hwidth)
  · rw [Nat.max_eq_left hnarrow] at hwidth
    exact .inl hwidth

theorem plainByte_le (g : Grid) : g.plainByte ≤ max g.atom 1 :=
  max_le_max_right 1 (Nat.le_max_right _ _)

/-- **A slice that releases nothing costs no more than what is left and one callback.** -/
theorem slice_le (hlaw : Lawful h f.grid p r) (hgrid : f.grid.Fits)
    (hkeeps : Keeps p r f.parser (f.slice spent)) (hspent : spent < workBudget) (handler : σ) :
    charged h f.grid handler (p.advance f.parser (f.slice spent)).2 ≤
      f.grid.atom + (workBudget - spent) := by
  have hlength : (f.slice spent).length ≤ f.width spent := List.length_take_le _ _
  have hbyte : (f.slice spent).length ≤ 1 →
      charged h f.grid handler (p.advance f.parser (f.slice spent)).2 ≤
        f.grid.atom + (workBudget - spent) := by
    intro hone
    have hcost := hkeeps.byte_le hlaw hone handler
    have hplain := plainByte_le f.grid
    omega
  rcases Nat.eq_zero_or_pos f.nextEscape with hescape | hplain
  · rcases width_escape hescape with hone | hwide
    · exact hbyte (Nat.le_trans hlength hone)
    · rcases hgrid with hbig | ⟨hatom, hrow⟩
      · -- two halves do not fit: the slice has one byte
        refine hbyte (Nat.le_trans hlength ?_)
        rcases Nat.lt_or_ge 1 (f.width spent) with htwo | hone
        · have htwice := Nat.mul_le_mul_right f.grid.densest htwo
          omega
        · exact hone
      · have hcost := hkeeps.halves_le hlaw hatom hrow handler
        have hmul := Nat.mul_le_mul_right f.grid.densest hlength
        omega
  · rcases width_plain hplain with hone | hwide
    · exact hbyte (Nat.le_trans hlength hone)
    · have hcost := hkeeps.plain_le hlaw (no_escape hplain) handler
      have hmul := Nat.mul_le_mul_right f.grid.plainByte hlength
      omega

/-! ## What a drain costs -/

/-- What the first fence adds. -/
theorem syncFence_le (f : Feeder τ) (handler : σ) (spent : Nat) :
    (f.syncFence p h handler spent).2.2 ≤
      spent + if f.fences.syncAbort ∧ syncCap ≤ p.syncBytesCount f.parser then
          charged h f.grid handler (p.stopSync f.parser).2
        else 0 := by
  unfold Feeder.syncFence
  split
  · exact saturatingAdd_le _ _
  · exact Nat.le_refl _

theorem advanceSlice_le (f : Feeder τ) (handler : σ) (bytes : List UInt8) :
    (f.advanceSlice p h handler bytes).2.2 ≤
      charged h f.grid handler (p.advance f.parser bytes).2 +
        if f.fences.syncAbort ∧ syncCap ≤ p.syncBytesCount (p.advance f.parser bytes).1 then
          charged h f.grid (after h f.grid handler (p.advance f.parser bytes).2)
            (p.stopSync (p.advance f.parser bytes).1).2
        else 0 := by
  refine Nat.le_trans (syncFence_le _ _ _) ?_
  refine Nat.add_le_add ?_ (Nat.le_refl _)
  exact Nat.le_trans (saturatingAdd_le _ _) (Nat.le_of_eq (Nat.zero_add _))

/-- **A slice that fits costs no more than what is left and one callback.** -/
theorem advanceSlice_fits (handler : σ) (hlaw : Lawful h f.grid p r) (hfits : SliceFits p r f spent)
    (hspent : spent < workBudget)
    {rest : Feeder τ} (hrest : rest = { f with pending := f.pending.drop (f.width spent) }) :
    (rest.advanceSlice p h handler (f.slice spent)).2.2 ≤ f.grid.atom + (workBudget - spent) := by
  obtain ⟨hgrid, hrelease⟩ := hfits
  have hcost : (rest.advanceSlice p h handler (f.slice spent)).2.2 ≤ _ :=
    advanceSlice_le rest handler (f.slice spent)
  have hparser : rest.parser = f.parser := by rw [hrest]
  have hfences : rest.fences = f.fences := by rw [hrest]
  have hsame : rest.grid = f.grid := by rw [hrest]; rfl
  rw [hparser, hfences, hsame] at hcost
  by_cases hreleases : Releases p r f (f.slice spent)
  · -- all that was held back is paid for, and the two reports
    have hroom := hrelease hreleases
    rw [Grid.price_append] at hroom
    have hadvance := hlaw.advance_onHold f.parser (f.slice spent) handler
    have hstop := hlaw.stop (p.advance f.parser (f.slice spent)).1
      (after h f.grid handler (p.advance f.parser (f.slice spent)).2)
    have hcredit := f.grid.credit_le (r.seq f.parser)
    have hhold : onHold f.grid r f.parser =
        f.grid.credit (r.seq f.parser) + f.grid.price ((r.held f.parser).getD []) := rfl
    split at hcost
    · omega
    · omega
  · rw [Releases, not_or, not_not] at hreleases
    obtain ⟨hkeeps, hunfenced⟩ := hreleases
    rw [if_neg hunfenced, Nat.add_zero] at hcost
    exact Nat.le_trans hcost (slice_le hlaw hgrid hkeeps hspent handler)

theorem turn_le (handler : σ) (hlaw : Lawful h f.grid p r) (hfits : SliceFits p r f spent)
    (hspent : spent < workBudget) :
    (f.turn p h handler spent).2.2 ≤ maxDrainWork f.columns f.lines f.scrollback := by
  have hcost := advanceSlice_fits handler hlaw hfits hspent rfl
  have hatom : maxAtomWork f.columns f.lines f.scrollback = f.grid.atom := rfl
  unfold Feeder.turn maxDrainWork
  dsimp only
  rw [hatom]
  refine Nat.le_trans (saturatingAdd_mono hcost) ?_
  unfold saturatingAdd
  omega

theorem grid_syncFence (f : Feeder τ) (handler : σ) (spent : Nat) :
    (f.syncFence p h handler spent).1.grid = f.grid := by
  unfold Feeder.syncFence
  split
  · rfl
  · rfl

theorem grid_oscFence (f : Feeder τ) : (f.oscFence p).grid = f.grid := by
  unfold Feeder.oscFence
  split
  · rfl
  · rfl

theorem grid_turn (f : Feeder τ) (handler : σ) (spent : Nat) :
    (f.turn p h handler spent).1.grid = f.grid := by
  have hadvanced : ∀ (f : Feeder τ) (bytes : List UInt8),
      (f.advanceSlice p h handler bytes).1.grid = f.grid := by
    intro f bytes
    exact (grid_oscFence _).trans (grid_syncFence _ _ _)
  exact hadvanced { f with pending := f.pending.drop (f.width spent) } _

/-- A loop that has not spent its budget. -/
theorem drainLoop_le {fuel : Nat} {handler : σ} (hlaw : Lawful h f.grid p r)
    (hfits : LoopFits h p r fuel f handler spent) (hspent : spent < workBudget) :
    (f.drainLoop p h fuel handler spent).2.2 ≤ saturatingAdd workBudget f.grid.atom := by
  have hbudget : workBudget ≤ saturatingAdd workBudget f.grid.atom := by
    unfold saturatingAdd workBudget u64Max
    omega
  induction fuel generalizing f handler spent with
  | zero => exact Nat.le_trans (Nat.le_of_lt hspent) hbudget
  | succ fuel ih =>
    rw [Feeder.drainLoop]
    split
    · exact Nat.le_trans (Nat.le_of_lt hspent) hbudget
    rename_i hpending
    obtain ⟨hslice, hrest⟩ := hfits hpending
    have hturn := turn_le handler hlaw hslice hspent
    have hgrid : (f.turn p h handler spent).1.grid = f.grid := grid_turn f handler spent
    dsimp only
    split
    · exact hturn
    · rename_i hleft
      rw [← hgrid] at hlaw hbudget ⊢
      exact ih hlaw (hrest (Nat.lt_of_not_le hleft)) (Nat.lt_of_not_le hleft) hbudget

/-- **A drain whose slices fit is bounded.** -/
theorem drain_le {handler : σ} (hlaw : Lawful h f.grid p r) (hfits : DrainFits h p r f handler) :
    (f.drain p h handler).2.2 ≤ maxDrainWork f.columns f.lines f.scrollback :=
  drainLoop_le hlaw hfits (Nat.zero_lt_of_lt (by decide : 1 < workBudget))

/-! ## Runs -/

/-- What a drain returned, on which grid. -/
structure Drained where
  work : Nat
  columns : Nat
  lines : Nat
  scrollback : Nat
deriving DecidableEq

/-- A feeder, the terminal behind it and the drains so far. -/
structure Session (σ τ : Type) where
  feeder : Feeder τ
  handler : σ
  drained : List Drained

inductive FeedOp where
  | feed (bytes : List UInt8)
  | drain
  | resize (size : Size)
  | abandonTail
deriving DecidableEq

namespace Session

/-- The tail is drained, with the work noted. -/
def drainNow (p : Processor π τ) (h : Handler π σ) (s : Session σ τ) (f : Feeder τ) : Session σ τ :=
  let result := f.drain p h s.handler
  { feeder := result.1, handler := result.2.1,
    drained := s.drained ++ [⟨result.2.2, f.columns, f.lines, f.scrollback⟩] }

def step (p : Processor π τ) (h : Handler π σ) (s : Session σ τ) : FeedOp → Option (Session σ τ)
  | .feed bytes => some (s.drainNow p h (s.feeder.enqueue bytes))
  | .drain => some (s.drainNow p h s.feeder)
  | .resize size => some { s with feeder := s.feeder.resize size }
  | .abandonTail => some { s with feeder := s.feeder.abandonTail }

end Session

def feedMachine (p : Processor π τ) (h : Handler π σ) : Machine (Session σ τ) FeedOp :=
  ⟨Session.step p h⟩

/-- Both fences are on. -/
def Session.start (p : Processor π τ) (handler : σ) (columns lines scrollback : Nat) :
    Session σ τ :=
  { feeder := Feeder.new p .all columns lines scrollback, handler, drained := [] }

/-- What is known of the parser holds on the grid of the step. -/
def LawfulStep (p : Processor π τ) (r : Reading π τ) (h : Handler π σ) (s : Session σ τ)
    (_ : FeedOp) : Prop :=
  Lawful h s.feeder.grid p r

/-- The slices of the step's drain fit. -/
def FitsStep (p : Processor π τ) (r : Reading π τ) (h : Handler π σ) (s : Session σ τ) :
    FeedOp → Prop
  | .feed bytes => DrainFits h p r (s.feeder.enqueue bytes) s.handler
  | .drain => DrainFits h p r s.feeder s.handler
  | .resize _ | .abandonTail => True

/-- Every drain so far kept to its bound. -/
def Session.Bounded (s : Session σ τ) : Prop :=
  ∀ d ∈ s.drained, d.work ≤ maxDrainWork d.columns d.lines d.scrollback

theorem bounded_step {s s' : Session σ τ} {op : FeedOp} (hs : s.Bounded)
    (hop : LawfulStep p r h s op ∧ FitsStep p r h s op)
    (hstep : (feedMachine p h).step s op = some s') : s'.Bounded := by
  obtain ⟨hlaw, hfits⟩ := hop
  have hdrain : ∀ f : Feeder τ, f.grid = s.feeder.grid → DrainFits h p r f s.handler →
      (s.drainNow p h f).Bounded := by
    intro f hgrid hfits d hd
    rcases List.mem_append.mp hd with hbefore | hnow
    · exact hs d hbefore
    rw [List.mem_singleton.mp hnow]
    refine drain_le ?_ hfits
    rw [hgrid]
    exact hlaw
  cases op with
  | feed bytes =>
    cases hstep
    exact hdrain _ rfl hfits
  | drain =>
    cases hstep
    exact hdrain _ rfl hfits
  | resize size =>
    cases hstep
    exact hs
  | abandonTail =>
    cases hstep
    exact hs

/-- **One drain is bounded** where its slices fit: on a grid that the densest atom prices right,
with no more released of an update than the budget has room for. -/
theorem drains_bounded (p : Processor π τ) (r : Reading π τ) (h : Handler π σ) (handler : σ)
    (columns lines scrollback : Nat) (ops : List FeedOp) (s : Session σ τ)
    (hops : (feedMachine p h).Always (fun s op => LawfulStep p r h s op ∧ FitsStep p r h s op)
      (Session.start p handler columns lines scrollback) ops)
    (hrun : (feedMachine p h).run (Session.start p handler columns lines scrollback) ops = some s) :
    s.Bounded :=
  Machine.invariant (fun _ _ _ hs hop hstep => bounded_step hs hop hstep) (fun _ hd =>
    absurd hd List.not_mem_nil) hops hrun

/-- A full reset in an update, which ends later, and a drain that finds nothing. -/
def oneReset : List FeedOp := [.feed (beginUpdate ++ fullReset), .feed endUpdate, .drain]

def quietStart : Session Unit SmallParser := Session.start SmallParser.processor () 80 24 0

/-- The session while the update is open. -/
def inUpdate : Session Unit SmallParser :=
  quietStart.drainNow SmallParser.processor SmallParser.handler
    (quietStart.feeder.enqueue (beginUpdate ++ fullReset))

/-- The session after the reset. -/
def afterReset : Session Unit SmallParser :=
  inUpdate.drainNow SmallParser.processor SmallParser.handler (inUpdate.feeder.enqueue endUpdate)

theorem fits_oneReset : (feedMachine SmallParser.processor SmallParser.handler).Always
    (fun s op => LawfulStep SmallParser.processor SmallParser.reading SmallParser.handler s op ∧
      FitsStep SmallParser.processor SmallParser.reading SmallParser.handler s op) quietStart
        oneReset := by
  have hgrid : Grid.Fits ⟨80, 24, 0⟩ := .inr (by decide)
  refine ⟨⟨SmallParser.lawful (by decide), fun _ => ⟨⟨hgrid, fun _ => by decide⟩,
    fun _ hne => absurd rfl hne⟩⟩, ?_⟩
  intro s hs
  obtain rfl : inUpdate = s := Option.some.inj hs
  -- the slice that ends the update releases the reset
  refine ⟨⟨SmallParser.lawful (by decide), fun _ => ⟨⟨hgrid, fun _ => by decide⟩,
    fun _ hne => absurd rfl hne⟩⟩, ?_⟩
  intro s hs
  obtain rfl : afterReset = s := Option.some.inj hs
  have hempty : afterReset.feeder.pending = [] := by decide
  refine ⟨⟨SmallParser.lawful (by decide), ?_⟩, fun _ _ => trivial⟩
  unfold FitsStep DrainFits
  rw [hempty]
  exact trivial

/-- The three drains do 1, 3842 and 0 units of work. -/
theorem drains_bounded_oneReset :
    ∃ s, (feedMachine SmallParser.processor SmallParser.handler).run quietStart oneReset = some s ∧
      s.Bounded ∧ s.drained.map Drained.work = [1, 3842, 0] :=
  ⟨_, rfl, drains_bounded SmallParser.processor SmallParser.reading SmallParser.handler
    () 80 24 0 oneReset _ fits_oneReset rfl, by decide⟩

/-- An update with two full resets in it. -/
def twoResets : List UInt8 := beginUpdate ++ fullReset ++ fullReset ++ endUpdate

def smallStart : Session Unit SmallParser := Session.start SmallParser.processor () 80 24 10000

/-- The session after the update. -/
def afterUpdate : Session Unit SmallParser :=
  smallStart.drainNow SmallParser.processor SmallParser.handler
    (smallStart.feeder.enqueue twoResets)

/-- Both resets run in the slice that ends the update. -/
theorem update_unbounded :
    ¬ ∀ (π σ τ : Type) (p : Processor π τ) (r : Reading π τ) (h : Handler π σ) (handler : σ)
        (columns lines scrollback : Nat) (ops : List FeedOp) (s : Session σ τ),
      (feedMachine p h).Always (LawfulStep p r h)
        (Session.start p handler columns lines scrollback) ops →
        (feedMachine p h).run (Session.start p handler columns lines scrollback) ops = some s →
          s.Bounded := by
  intro hall
  have hlaw : (feedMachine SmallParser.processor SmallParser.handler).Always
      (LawfulStep SmallParser.processor SmallParser.reading SmallParser.handler) smallStart
        [.feed twoResets] :=
    ⟨SmallParser.lawful (by decide), fun _ _ => trivial⟩
  have hbounded := hall _ _ _ SmallParser.processor SmallParser.reading SmallParser.handler
      () 80 24 10000
    [.feed twoResets] afterUpdate hlaw rfl
  have hdrained : afterUpdate.drained = [⟨1607683, 80, 24, 10000⟩] := by decide
  have hwork := hbounded ⟨1607683, 80, 24, 10000⟩ (by rw [hdrained]; exact List.mem_cons_self)
  exact absurd hwork (by decide)

end Pkzz.Terminal
