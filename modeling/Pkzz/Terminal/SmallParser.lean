import Pkzz.Terminal.Drain

/-!
# A small parser

Characters, `ESC c`, control sequences and synchronized updates, which is enough to see what a
released update costs. An update holds its bytes back until its end has come, and then they are
parsed in one piece.
-/

namespace Pkzz.Terminal

/-- The calls that are charged one unit. -/
inductive SmallCall where
  | input (b : UInt8)
  | setPrivateMode
  | unsetPrivateMode
  | other
deriving DecidableEq

inductive SmallMode where
  | ground
  | escape
  | control (parameters : List UInt8)
deriving DecidableEq

structure SmallParser where
  mode : SmallMode
  buffer : Option (List UInt8)
deriving DecidableEq

/-- `?2026`, the mode of a synchronized update. -/
def syncMode : List UInt8 := [0x3f, 0x32, 0x30, 0x32, 0x36]

def beginUpdate : List UInt8 := [esc, 0x5b] ++ syncMode ++ [0x68]

def endUpdate : List UInt8 := [esc, 0x5b] ++ syncMode ++ [0x6c]

/-- `ESC c`, a full reset. -/
def fullReset : List UInt8 := [esc, 0x63]

namespace SmallMode

def controlCall (parameters : List UInt8) (final : UInt8) : SmallCall :=
  if parameters = syncMode ∧ final = 0x68 then .setPrivateMode
  else if parameters = syncMode ∧ final = 0x6c then .unsetPrivateMode
  else .other

def parse : SmallMode → UInt8 → SmallMode × List (Callback SmallCall)
  | mode, b =>
    if b = esc then (.escape, [])
    else
      match mode with
      | .ground => (.ground, [.plain (.input b)])
      | .escape =>
        if b = 0x5b then (.control [], [])
        else if b = 0x63 then (.ground, [.resetState])
        else (.ground, [.plain .other])
      | .control parameters =>
        if 0x40 ≤ b ∧ b ≤ 0x7e then (.ground, [.plain (controlCall parameters b)])
        else (.control (parameters ++ [b]), [])

/-- The bytes of an update, once it is released. -/
def replay : SmallMode → List UInt8 → SmallMode × List (Callback SmallCall)
  | mode, [] => (mode, [])
  | mode, b :: bytes =>
    let first := parse mode b
    let rest := replay first.1 bytes
    (rest.1, first.2 ++ rest.2)

/-- An update is released, and its end is reported with a call of its own. -/
def release (mode : SmallMode) (bytes : List UInt8) : SmallMode × List (Callback SmallCall) :=
  let replayed := mode.replay bytes
  (replayed.1, replayed.2 ++ [.plain .unsetPrivateMode])

def seq : SmallMode → Sequence
  | .ground => .none
  | .escape => .started
  | .control _ => .running 0

end SmallMode

namespace SmallParser

def step (s : SmallParser) (b : UInt8) : SmallParser × List (Callback SmallCall) :=
  match s.buffer with
  | none =>
    let parsed := s.mode.parse b
    (⟨parsed.1, if s.mode = .control syncMode ∧ b = 0x68 then some [] else none⟩, parsed.2)
  | some buffer =>
    if endUpdate.isSuffixOf (buffer ++ [b]) then
      let released := s.mode.release (buffer ++ [b])
      (⟨released.1, none⟩, released.2)
    else (⟨s.mode, some (buffer ++ [b])⟩, [])

def stopSync (s : SmallParser) : SmallParser × List (Callback SmallCall) :=
  match s.buffer with
  | none => (s, [])
  | some buffer =>
    let released := s.mode.release buffer
    (⟨released.1, none⟩, released.2)

def reading : Reading SmallCall SmallParser where
  seq s := s.mode.seq
  held s := s.buffer
  step := step

def processor : Processor SmallCall SmallParser where
  new := ⟨.ground, none⟩
  advance := reading.steps
  stopSync := stopSync
  syncBytesCount s := (s.buffer.getD []).length

/-- A terminal that shows nothing. -/
def handler : Handler SmallCall Unit where
  call _ _ := ()
  cursorColumn _ := 0

/-! ## What is known of it -/

variable {g : Grid}

theorem charged_plain (call : SmallCall) : charged handler g () [.plain call] = 1 := by
  have hone : charged handler g () [.plain call] = saturatingAdd 0 1 := rfl
  rw [hone, saturatingAdd_zero (by decide)]

theorem charged_reset : charged handler g () [.resetState] ≤ g.atom := by
  have hreset : charged handler g () [.resetState]
      = saturatingAdd 0 (saturatingAdd (saturatingMul (saturatingMul g.columns g.lines) 2)
          (saturatingMul g.scrollback g.columns)) := rfl
  rw [hreset, saturatingAdd_zero (saturatingAdd_le_max _ _)]
  exact Nat.le_max_left _ _

theorem parse_esc (mode : SmallMode) : mode.parse esc = (.escape, []) := by
  unfold SmallMode.parse
  exact if_pos rfl

theorem charged_both (calls more : List (Callback SmallCall)) :
    charged handler g () (calls ++ more) ≤ charged handler g () calls + charged handler g () more :=
  charged_append () calls more

theorem held_step {mode : SmallMode} {b : UInt8} :
    reading.held (reading.step ⟨mode, none⟩ b).1 = if mode = .control syncMode ∧ b = 0x68 then
      some [] else none := rfl

/-- A byte outside an update. -/
theorem parsed_step (hcolumns : 1 ≤ g.columns) (s : SmallParser) (b : UInt8)
    (hbuffer : s.buffer = none) : Parsed handler g reading s b () := by
  have hatom : 1 ≤ g.atom := Nat.le_trans hcolumns (Nat.le_max_right _ _)
  obtain ⟨mode, buffer⟩ := s
  obtain rfl : buffer = none := hbuffer
  have hcalls : (reading.step ⟨mode, none⟩ b).2 = (mode.parse b).2 := rfl
  have hseq : reading.seq (reading.step ⟨mode, none⟩ b).1 = (mode.parse b).1.seq := rfl
  by_cases hb : b = esc
  · subst hb
    have hopens : ¬ (mode = .control syncMode ∧ esc = 0x68) := fun h => absurd h.2 (by decide)
    refine .begins rfl ?_ ?_ ?_
    · rw [hcalls, parse_esc, charged_nil]
      exact Nat.zero_le _
    · rw [hseq, parse_esc]
      rfl
    · rw [held_step, if_neg hopens]
  · cases mode with
    | ground =>
      have hparse : SmallMode.ground.parse b =
          (.ground, [.plain (.input b)]) := by rw [SmallMode.parse, if_neg hb]
      refine .plain rfl hb ?_ ?_ ?_
      · rw [hcalls, hparse, charged_plain]
        exact Nat.le_max_right _ _
      · rw [hseq, hparse]
        rfl
      · rw [held_step, if_neg (fun h => nomatch h.1)]
    | escape =>
      have hcost : charged handler g () (SmallMode.escape.parse b).2 + g.credit
          (SmallMode.escape.parse b).1.seq ≤ g.atom ∧
          (SmallMode.escape.parse b).1.seq ≠ .started := by
        rw [SmallMode.parse, if_neg hb]
        split
        · rw [charged_nil, Nat.zero_add]
          exact ⟨g.credit_le _, nofun⟩
        split
        · exact ⟨charged_reset, nofun⟩
        · rw [charged_plain]
          exact ⟨hatom, nofun⟩
      refine .goesOn nofun ?_ ?_ (.inl ?_)
      · rw [hcalls, hseq]
        exact hcost.1
      · rw [hseq]
        exact hcost.2
      · rw [held_step, if_neg (fun h => nomatch h.1)]
    | control parameters =>
      have hcost : charged handler g () ((SmallMode.control parameters).parse b).2
            + g.credit ((SmallMode.control parameters).parse b).1.seq ≤ g.atom ∧
          ((SmallMode.control parameters).parse b).1.seq ≠ .started := by
        rw [SmallMode.parse, if_neg hb]
        split
        · rw [charged_plain]
          exact ⟨hatom, nofun⟩
        · rw [charged_nil, Nat.zero_add]
          exact ⟨g.credit_le _, nofun⟩
      refine .goesOn nofun ?_ ?_ ?_
      · rw [hcalls, hseq]
        exact hcost.1
      · rw [hseq]
        exact hcost.2
      · rw [held_step]
        split
        · exact .inr rfl
        · exact .inl rfl

/-- Bytes that are replayed cost their price. -/
theorem charged_replay (hcolumns : 1 ≤ g.columns) (mode : SmallMode) (bytes : List UInt8) :
    charged handler g () (mode.replay bytes).2 + g.credit (mode.replay bytes).1.seq
      ≤ g.credit mode.seq + g.price bytes := by
  induction bytes generalizing mode with
  | nil =>
    rw [SmallMode.replay, charged_nil, Nat.zero_add]
    exact Nat.le_add_right _ _
  | cons b bytes ih =>
    have hfirst := (parsed_step hcolumns ⟨mode, none⟩ b rfl).paid
    have hrest := ih (mode.parse b).1
    have happend := charged_both (g := g) (mode.parse b).2 ((mode.parse b).1.replay bytes).2
    have hprice : g.price (b :: bytes) = g.bytePrice b + g.price bytes := rfl
    have hparse : charged handler g () (mode.parse b).2 + g.credit (mode.parse b).1.seq
        ≤ g.credit mode.seq + g.bytePrice b := by
      rw [Nat.one_mul] at hfirst
      exact hfirst
    rw [SmallMode.replay, hprice]
    dsimp only
    omega

theorem replay_append (mode : SmallMode) (bytes more : List UInt8) :
    mode.replay (bytes ++ more) = (((mode.replay bytes).1.replay more).1,
      (mode.replay bytes).2 ++ ((mode.replay bytes).1.replay more).2) := by
  induction bytes generalizing mode with
  | nil => rfl
  | cons b bytes ih =>
    rw [List.cons_append, SmallMode.replay, SmallMode.replay, ih]
    dsimp only
    rw [List.append_assoc]

/-- The end of an update is told apart in every mode. -/
theorem replay_endUpdate (mode : SmallMode) :
    mode.replay endUpdate = (.ground, [.plain .unsetPrivateMode]) := rfl

/-- The price of the sequence that ends an update has room for the report. -/
theorem charged_ended (hcolumns : 1 ≤ g.columns) (mode : SmallMode) {bytes : List UInt8}
    (hend : endUpdate.isSuffixOf bytes) :
    charged handler g () (mode.release bytes).2 + g.credit (mode.release bytes).1.seq
      ≤ g.credit mode.seq + g.price bytes := by
  obtain ⟨update, rfl⟩ := List.isSuffixOf_iff_suffix.mp hend
  have hreplay := charged_replay hcolumns mode update
  have hplain : 1 ≤ g.plainByte := Nat.le_max_right _ _
  have hprice : 7 * g.plainByte ≤ g.price endUpdate := by
    have hsplit : endUpdate = [esc] ++ ([0x5b] ++ syncMode ++ [0x6c]) := rfl
    have hrest := @Grid.price_of_no_escape g ([0x5b] ++ syncMode ++ [0x6c]) (by decide)
    rw [hsplit, Grid.price_append, hrest]
    exact Nat.le_add_left _ _
  have hreported := charged_both (g :=
    g) (mode.replay (update ++ endUpdate)).2 [.plain .unsetPrivateMode]
  have hupdate := charged_both (g := g) (mode.replay update).2 [.plain .unsetPrivateMode]
  have hground : g.credit SmallMode.ground.seq = 0 := rfl
  rw [charged_plain] at hreported hupdate
  rw [replay_append, replay_endUpdate] at hreported
  rw [SmallMode.release, replay_append, replay_endUpdate, Grid.price_append]
  dsimp only at hreported ⊢
  omega

theorem charged_step (hcolumns : 1 ≤ g.columns) (s : SmallParser) (b : UInt8) :
    charged handler g () (s.step b).2 + onHold g reading (s.step b).1 ≤
      onHold g reading s + g.bytePrice b := by
  obtain ⟨mode, buffer⟩ := s
  have hone : g.price [b] = g.bytePrice b := Nat.add_zero _
  cases buffer with
  | none =>
    have hpaid := (parsed_step hcolumns ⟨mode, none⟩ b rfl).paid
    have hheld : g.price ((reading.held (reading.step ⟨mode, none⟩ b).1).getD []) = 0 := by
      rw [held_step]
      split
      · rfl
      · rfl
    rw [Nat.one_mul] at hpaid
    unfold onHold
    have hnothing : g.price ((reading.held ⟨mode, none⟩).getD []) = 0 := rfl
    have hstep : reading.step ⟨mode, none⟩ b = step ⟨mode, none⟩ b := rfl
    rw [hstep] at hpaid hheld
    omega
  | some buffer =>
    have hbuffer : g.price (buffer ++ [b]) =
        g.price buffer + g.bytePrice b := by rw [Grid.price_append, hone]
    have hbefore : onHold g reading ⟨mode, some buffer⟩ = g.credit mode.seq + g.price buffer := rfl
    rw [hbefore]
    by_cases hend : endUpdate.isSuffixOf (buffer ++ [b])
    · have hended := charged_ended hcolumns mode hend
      have hstep : step ⟨mode, some buffer⟩ b
          = (⟨(mode.release (buffer ++ [b])).1, none⟩, (mode.release (buffer ++ [b])).2) := by
        rw [step]
        exact if_pos hend
      have hafter : onHold g reading ⟨(mode.release (buffer ++ [b])).1, none⟩
          = g.credit (mode.release (buffer ++ [b])).1.seq + 0 := rfl
      rw [hstep, hafter]
      dsimp only
      omega
    · have hstep : step ⟨mode, some buffer⟩ b = (⟨mode, some (buffer ++ [b])⟩, []) := by
        rw [step]
        exact if_neg hend
      have hafter : onHold g reading ⟨mode, some (buffer ++ [b])⟩ =
          g.credit mode.seq + g.price (buffer ++ [b]) := rfl
      rw [hstep, hafter, charged_nil]
      omega

theorem charged_advance (hcolumns : 1 ≤ g.columns) (s : SmallParser) (bytes : List UInt8) :
    charged handler g () (processor.advance s bytes).2 + onHold g reading
      (processor.advance s bytes).1 ≤ onHold g reading s + g.price bytes := by
  induction bytes generalizing s with
  | nil =>
    have hadvance : processor.advance s [] = (s, []) := rfl
    rw [hadvance, charged_nil, Nat.zero_add]
    exact Nat.le_add_right _ _
  | cons b bytes ih =>
    have hfirst := charged_step hcolumns s b
    have hrest := ih (s.step b).1
    have happend := charged_both (g := g) (s.step b).2 (processor.advance (s.step b).1 bytes).2
    have hprice : g.price (b :: bytes) = g.bytePrice b + g.price bytes := rfl
    have hadvance : processor.advance s (b :: bytes)
        = ((processor.advance (s.step b).1 bytes).1,
          (s.step b).2 ++ (processor.advance (s.step b).1 bytes).2) := rfl
    rw [hadvance, hprice]
    dsimp only
    omega

theorem charged_stop (hcolumns : 1 ≤ g.columns) (s : SmallParser) :
    charged handler g () s.stopSync.2 + onHold g reading s.stopSync.1 ≤ onHold g reading s + 1 := by
  obtain ⟨mode, buffer⟩ := s
  rw [stopSync]
  cases buffer with
  | none =>
    dsimp only
    rw [charged_nil, Nat.zero_add]
    exact Nat.le_succ _
  | some buffer =>
    have hreplay := charged_replay hcolumns mode buffer
    have hreported := charged_both (g := g) (mode.replay buffer).2 [.plain .unsetPrivateMode]
    have hbefore : onHold g reading ⟨mode, some buffer⟩ = g.credit mode.seq + g.price buffer := rfl
    have hafter : onHold g reading ⟨(mode.release buffer).1, none⟩ =
        g.credit (mode.replay buffer).1.seq + 0 := rfl
    have hcalls : (mode.release buffer).2 = (mode.replay buffer).2 ++ [.plain .unsetPrivateMode] :=
      rfl
    rw [charged_plain] at hreported
    dsimp only
    rw [hbefore, hafter, hcalls]
    omega

/-- **The small parser is lawful** on every grid with a column. -/
theorem lawful (hcolumns : 1 ≤ g.columns) : Lawful handler g processor reading := by
  refine ⟨rfl, rfl, fun _ => rfl, ?_, ?_, ?_⟩
  · intro s b _ hbuffer
    exact parsed_step hcolumns s b hbuffer
  · intro s bytes
    refine .inr fun _ => ?_
    exact Nat.le_succ_of_le (charged_advance hcolumns s bytes)
  · intro s _
    exact charged_stop hcolumns s

end SmallParser

end Pkzz.Terminal
