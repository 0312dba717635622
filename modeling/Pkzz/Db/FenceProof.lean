import Pkzz.Db.FenceWriter

/-!
# What a heartbeat proves

The commits after a heartbeat bring no channel row at or below its wall. The argument
partitions the transactions: those the scan has shown are bounded by their `xact_start` or
by `prepared`, and what runs its guard after `S` is bounded by `S`.
-/

namespace Pkzz.Db

open Pkzz.Core Pkzz.Lib

def floor : Int := seconds CREATED_AT_FLOOR_SECS

def margin : Int := seconds FENCE_CLOCK_MARGIN_SECS

theorem margin_pos : 0 < margin := by decide

/-- The channel rows are above the wall. -/
def Above (wall : Int) (rows : List EventRow) : Prop :=
  ∀ r ∈ rows, r.channelId.isSome = true → wall < r.createdAt

/-- The channel rows have passed their guard at `clock` or later. -/
def Guarded (clock : Int) (rows : List EventRow) : Prop :=
  ∀ r ∈ rows, r.channelId.isSome = true → clock - floor ≤ r.createdAt

theorem above_nil {wall : Int} : Above wall [] := fun _ h => absurd h List.not_mem_nil

variable {clock : Int}

theorem guarded_nil : Guarded clock [] := fun _ h => absurd h List.not_mem_nil

variable {rows : List EventRow}

theorem Above.mono {wall wall' : Int} (h : Above wall rows) (hle : wall' ≤ wall) :
    Above wall' rows := by
  intro r hr hc
  have := h r hr hc
  omega

theorem Guarded.above {wall : Int} (h : Guarded clock rows)
    (hlt : wall < clock - floor) : Above wall rows := by
  intro r hr hc
  have := h r hr hc
  omega

/-- The guard aborts what is more than the floor old. -/
theorem guardPasses_createdAt {row : EventRow} (h : guardPasses clock row = true)
    (hc : row.channelId.isSome = true) : clock - floor ≤ row.createdAt := by
  unfold guardPasses eventsCreatedAtFloorGuard at h
  unfold floor
  rw [hc] at h
  have hpos : decide (CREATED_AT_FLOOR_SECS > 0) = true := rfl
  simp only [hpos, Bool.true_and, Bool.not_eq_true', decide_eq_false_iff_not] at h
  omega

/-! ## The wall -/

/-- The wall is the floor and the margin before `S`, or further. -/
theorem fenceWall_le (sampledAt : Int) (oldest : Option Int) :
    fenceWall sampledAt oldest ≤ sampledAt - floor - margin := by
  unfold fenceWall floor margin
  cases oldest with
  | none => exact Int.le_refl _
  | some t =>
    simp only
    omega

/-- It is as far before the oldest transaction. -/
theorem fenceWall_le_oldest (sampledAt t : Int) :
    fenceWall sampledAt (some t) ≤ t - floor - margin := by
  unfold fenceWall floor margin
  simp only
  omega

/-- A further transaction only lowers the wall. -/
theorem fenceWall_least_le (sampledAt : Int) (oldest t : Option Int) :
    fenceWall sampledAt (least oldest t) ≤ fenceWall sampledAt oldest := by
  cases oldest with
  | none | some o =>
    cases t with
    | none => exact Int.le_refl _
    | some t =>
      unfold fenceWall least
      simp only
      omega

theorem fenceWall_least_le_self (sampledAt t : Int) (oldest : Option Int) :
    fenceWall sampledAt (least oldest (some t)) ≤ t - floor - margin := by
  cases oldest with
  | none => exact fenceWall_le_oldest sampledAt t
  | some o =>
    have h := fenceWall_le_oldest sampledAt (min o t)
    show fenceWall sampledAt (some (min o t)) ≤ t - floor - margin
    omega

/-- The scan of the prepared transactions, one after the other. -/
theorem fenceWall_foldl (sampledAt : Int) (ts : List Int) (oldest : Option Int) :
    fenceWall sampledAt (ts.foldl (fun acc t => least acc (some t)) oldest) ≤
      fenceWall sampledAt oldest ∧
    ∀ t ∈ ts, fenceWall sampledAt (ts.foldl (fun acc t => least acc (some t)) oldest) ≤
      t - floor - margin := by
  induction ts generalizing oldest with
  | nil => exact ⟨Int.le_refl _, fun _ h => absurd h List.not_mem_nil⟩
  | cons u ts ih =>
    rw [List.foldl_cons]
    obtain ⟨hle, hall⟩ := ih (least oldest (some u))
    have hu := fenceWall_least_le sampledAt oldest (some u)
    have hlt := fenceWall_least_le_self sampledAt u oldest
    refine ⟨Int.le_trans hle hu, ?_⟩
    intro t ht
    rcases List.mem_cons.mp ht with ht | ht
    · rw [ht]
      omega
    · exact hall t ht

/-! ## What a writer step changes -/

/-- Where the rows of a transaction come from: they were there, their guard has just run, or
the transaction has just begun. -/
inductive FromXact (w : Writer) (b b' : Backend) (x' : Transaction) : Prop where
  | begun (hchecked : x'.checked = []) (hpending : x'.pending = [])
      (hstart : x'.xactStart ≤ w.clock)
  | kept (x : Transaction) (hx : b.xact = some x) (hstart : x'.xactStart = x.xactStart)
      (hchecked : ∀ r ∈ x'.checked, r ∈ x.checked ∨ (r ∈ x.pending ∧ guardPasses w.clock r = true))
      (hpending : ∀ r ∈ x'.pending, r ∈ x.pending ∨ b'.backendType = .clientBackend)

structure FromBackend (w : Writer) (b b' : Backend) : Prop where
  backendType : b'.backendType = b.backendType
  xact : ∀ x', b'.xact = some x' → FromXact w b b' x'

/-- The rows of a prepared transaction were prepared before, or they are stamped now and less than
the floor and the margin old. -/
inductive FromPrepared (w : Writer) (p' : PreparedXact) : Prop where
  | kept (p : PreparedXact) (hp : p ∈ w.preparedXacts) (hstamp : p'.prepared = p.prepared)
      (hrows : p'.rows = p.rows)
  | stamped (hstamp : p'.prepared = w.clock) (hrows : Above (w.clock - floor - margin) p'.rows)

/-- Only what is checked, or prepared, is committed. -/
inductive FromLog (w w' : Writer) : Prop where
  | same (h : w'.log = w.log)
  | xact (b : Backend) (x : Transaction) (hb : b ∈ w.backends) (hx : b.xact = some x)
      (h : w'.log = w.log ++ [.write x.checked])
  | prepared (p : PreparedXact) (hp : p ∈ w.preparedXacts) (h : w'.log = w.log ++ [.write p.rows])

structure Changed (w w' : Writer) : Prop where
  clock : w.clock ≤ w'.clock
  length : w'.backends.length = w.backends.length
  backends : ∀ (k : Nat) (b' : Backend), w'.backends[k]? = some b' → ∃ b, w.backends[k]? = some b ∧
    FromBackend w b b'
  prepared : ∀ p' ∈ w'.preparedXacts, FromPrepared w p'
  log : FromLog w w'
  heartbeat : w'.token = w.token ∧ w'.epoch = w.epoch

variable {w w' : Writer}

theorem fromBackend_refl (b : Backend) : FromBackend w b b :=
  ⟨rfl, fun x' hx => .kept x' hx rfl (fun _ hr => .inl hr) (fun _ hr => .inl hr)⟩

theorem fromPrepared_refl {p : PreparedXact} (hp : p ∈ w.preparedXacts) : FromPrepared w p :=
  .kept p hp rfl rfl

variable {b b' : Backend}

/-- One backend has changed. -/
theorem backends_set {k : Nat} (hb : w.backends[k]? = some b) (h : FromBackend w b b') :
    ∀ (j : Nat) (c' : Backend), (w.backends.set k b')[j]? = some c' → ∃ c, w.backends[j]? = some c ∧
      FromBackend w c c' := by
  intro j c' hc
  by_cases hj : k = j
  · have hlt : k < w.backends.length := (List.getElem?_eq_some_iff.mp hb).1
    rw [← hj, List.getElem?_set_self hlt] at hc
    rw [← hj, ← Option.some.inj hc]
    exact ⟨b, hb, h⟩
  · rw [List.getElem?_set_ne hj] at hc
    exact ⟨c', hc, fromBackend_refl c'⟩

variable {x : Transaction}

theorem xactAt_eq {k : Nat} (h : w.xactAt k = some x) :
    ∃ b, w.backends[k]? = some b ∧ b.xact = some x := Option.bind_eq_some_iff.mp h

theorem setXact_eq {k : Nat} (hb : w.backends[k]? = some b) (x : Option Transaction) :
    w.setXact k x = w.setBackend k { b with xact := x } := by
  unfold Writer.setXact
  rw [hb]

/-- A step that only changes one backend. -/
theorem changed_setBackend {k : Nat} (hb : w.backends[k]? = some b) (h : FromBackend w b b') :
    Changed w (w.setBackend k b') where
  clock := Int.le_refl _
  length := List.length_set
  backends := backends_set hb h
  prepared := fun _ hp => fromPrepared_refl hp
  log := .same rfl
  heartbeat := ⟨rfl, rfl⟩

/-- A transaction has gone. -/
theorem fromBackend_none (b : Backend) : FromBackend w b { b with xact := none } :=
  ⟨rfl, fun _ hx => nomatch hx⟩

/-- The `done` mark says nothing about the rows. -/
theorem fromBackend_done (hx : b.xact = some x) (d : Bool) :
    FromBackend w b { b with xact := some { x with done := d } } := by
  refine ⟨rfl, ?_⟩
  intro x' hx'
  cases hx'
  exact .kept x hx rfl (fun _ hr => .inl hr) (fun _ hr => .inl hr)

theorem changed_setXact_none {k : Nat} (h : w.xactAt k = some x) :
    Changed w (w.setXact k none) := by
  obtain ⟨b, hb, _⟩ := xactAt_eq h
  rw [setXact_eq hb]
  exact changed_setBackend hb (fromBackend_none b)

/-- `PREPARE` finds no row that is as old as the floor and the margin together. -/
def Writer.Fresh (w : Writer) : Writer.Action → Prop
  | .prepare k => ∀ x, w.xactAt k = some x → Above (w.clock - floor - margin) x.checked
  | _ => True

instance Writer.decidableFresh (w : Writer) (a : Writer.Action) : Decidable (w.Fresh a) :=
  match a with
  | .prepare k => inferInstanceAs (Decidable (∀ x ∈ w.xactAt k, ∀ r ∈ x.checked,
      r.channelId.isSome = true → w.clock - floor - margin < r.createdAt))
  | .tick _ | .report _ _ _ | .begin _ _ | .insert _ _ | .guard _ | .commit _ | .abort _ | .finish _
  | .commitPrepared _ | .rollbackPrepared _ | .finishPrepared _ => .isTrue trivial

/-- The guard checks a row, or it aborts the transaction. -/
theorem guard_changed {k : Nat} (h : w.step (.guard k) = some w') : Changed w w' := by
  simp only [Writer.step] at h
  split at h
  · rename_i x hat
    split at h
    · rename_i row pending hpend
      obtain ⟨b, hb, hx⟩ := xactAt_eq hat
      split at h
      · rename_i hpass
        rw [← Option.some.inj h, setXact_eq hb]
        refine changed_setBackend hb ⟨rfl, ?_⟩
        intro x' hx'
        cases hx'
        refine .kept x hx rfl ?_ ?_
        · intro r hr
          rcases List.mem_append.mp hr with hr | hr
          · exact .inl hr
          · rw [List.mem_singleton.mp hr, hpend]
            exact .inr ⟨List.mem_cons_self, hpass⟩
        · intro r hr
          rw [hpend]
          exact .inl (List.mem_cons_of_mem _ hr)
      · cases h
        exact changed_setXact_none hat
    · cases h
  · cases h

/-- `COMMIT` writes the rows that are checked. -/
theorem commit_changed {k : Nat} (h : w.step (.commit k) = some w') : Changed w w' := by
  simp only [Writer.step] at h
  split at h
  · rename_i x hat
    split at h
    · obtain ⟨b, hb, hx⟩ := xactAt_eq hat
      have hset := changed_setBackend hb (fromBackend_done hx true)
      rw [← Option.some.inj h, setXact_eq hb]
      exact { hset with log := .xact b x (List.mem_of_getElem? hb) hx rfl }
    · cases h
  · cases h

/-- `PREPARE` puts them aside under its stamp. -/
theorem prepare_changed {k : Nat} (hfresh : w.Fresh (.prepare k))
    (h : w.step (.prepare k) = some w') : Changed w w' := by
  simp only [Writer.step] at h
  split at h
  · rename_i x hat
    split at h
    · obtain ⟨b, hb, hx⟩ := xactAt_eq hat
      have hset := changed_setBackend hb (fromBackend_done hx true)
      rw [← Option.some.inj h, setXact_eq hb]
      refine { hset with prepared := ?_, log := .same rfl }
      intro p hp
      rcases List.mem_append.mp hp with hp | hp
      · exact fromPrepared_refl hp
      · rw [List.mem_singleton.mp hp]
        exact .stamped rfl (hfresh x hat)
    · cases h
  · cases h

/-- `COMMIT PREPARED` writes the rows that were put aside. -/
theorem commitPrepared_changed {j : Nat} (h : w.step (.commitPrepared j) = some w') :
    Changed w w' := by
  simp only [Writer.step] at h
  split at h
  · rename_i p hp
    split at h
    · cases h
      refine ⟨Int.le_refl _, rfl, fun _ b hb => ⟨b, hb, fromBackend_refl b⟩, ?_, ?_, rfl, rfl⟩
      · intro q hq
        rcases List.mem_or_eq_of_mem_set hq with hq | hq
        · exact fromPrepared_refl hq
        · rw [hq]
          exact .kept p (List.mem_of_getElem? hp) rfl rfl
      · exact .prepared p (List.mem_of_getElem? hp) rfl
    · cases h
  · cases h

/-- A prepared transaction has gone. -/
theorem changed_eraseIdx (w : Writer) (j : Nat) :
    Changed w { w with preparedXacts := w.preparedXacts.eraseIdx j } :=
  ⟨Int.le_refl _, rfl, fun _ b hb => ⟨b, hb, fromBackend_refl b⟩,
    fun _ hq => fromPrepared_refl (List.mem_of_mem_eraseIdx hq), .same rfl, rfl, rfl⟩

/-- **A step of the writer**: rows are checked before they are committed, and nothing else
reaches the log. -/
theorem writer_changed {a : Writer.Action} (hfresh : w.Fresh a) (h : w.step a = some w') :
    Changed w w' := by
  cases a with
  | tick duration =>
    cases h
    exact
      { clock := by simp only; omega
        length := rfl
        backends := fun _ b hb => ⟨b, hb, fromBackend_refl b⟩
        prepared := fun _ hp => fromPrepared_refl hp
        log := .same rfl
        heartbeat := ⟨rfl, rfl⟩ }
  | report k state visibility =>
    simp only [Writer.step] at h
    split at h
    · rename_i b hb
      cases h
      refine changed_setBackend hb ⟨rfl, ?_⟩
      intro x' hx
      exact .kept x' hx rfl (fun _ hr => .inl hr) (fun _ hr => .inl hr)
    · cases h
  | begin k xactStart =>
    simp only [Writer.step] at h
    split at h
    · rename_i b hb
      split at h
      · rename_i hguard
        cases h
        refine changed_setBackend hb ⟨rfl, ?_⟩
        intro x' hx
        cases hx
        exact .begun rfl rfl hguard.2
      · cases h
    · cases h
  | insert k row =>
    simp only [Writer.step] at h
    split at h
    · rename_i b hb
      split at h
      · rename_i x hx
        split at h
        · rename_i hguard
          cases h
          refine changed_setBackend hb ⟨rfl, ?_⟩
          intro x' hx'
          cases hx'
          exact .kept x hx rfl (fun _ hr => .inl hr) (fun _ _ => .inr hguard.2)
        · cases h
      · cases h
    · cases h
  | guard k => exact guard_changed h
  | commit k => exact commit_changed h
  | prepare k => exact prepare_changed hfresh h
  | abort k | finish k =>
    simp only [Writer.step] at h
    split at h
    · rename_i x hat
      split at h
      · cases h
        exact changed_setXact_none hat
      · cases h
    · cases h
  | commitPrepared j => exact commitPrepared_changed h
  | rollbackPrepared j | finishPrepared j =>
    simp only [Writer.step] at h
    split at h
    · split at h
      · cases h
        exact changed_eraseIdx w j
      · cases h
    · cases h

/-! ## The writer's invariant -/

/-- The tokens committed, in commit order. -/
def heartbeats (log : List Commit) : List Int :=
  log.filterMap fun c => match c with
    | .heartbeat token _ => some token
    | .write _ => none

structure WriterInv (seed : Int) (w : Writer) : Prop where
  /-- A transaction's rows are checked after it has begun. -/
  xacts : ∀ b ∈ w.backends, ∀ x, b.xact = some x → x.xactStart ≤ w.clock ∧
    Guarded x.xactStart x.checked
  clients : ∀ b ∈ w.backends, ∀ x, b.xact = some x → b.backendType ≠ .clientBackend →
    x.pending = [] ∧ x.checked = []
  prepared : ∀ p ∈ w.preparedXacts, Above (p.prepared - floor - margin) p.rows
  /-- Tokens rise in commit order, up to the row's. -/
  rising : (seed :: heartbeats w.log).Pairwise (· < ·)
  newest : ∀ t ∈ seed :: heartbeats w.log, t ≤ w.token

theorem heartbeats_log (h : FromLog w w') : heartbeats w'.log = heartbeats w.log := by
  unfold heartbeats
  cases h with
  | same h => rw [h]
  | xact b x hb hx h => rw [h]; simp
  | prepared p hp h => rw [h]; simp

theorem FromBackend.xacts {x' : Transaction} (h : FromBackend w b b') (hclock : w.clock ≤ w'.clock)
    (hb : ∀ x, b.xact = some x → x.xactStart ≤ w.clock ∧ Guarded x.xactStart x.checked)
    (hx : b'.xact = some x') : x'.xactStart ≤ w'.clock ∧ Guarded x'.xactStart x'.checked := by
  cases h.xact x' hx with
  | begun hchecked hpending hstart =>
    rw [hchecked]
    exact ⟨Int.le_trans hstart hclock, guarded_nil⟩
  | kept x hx hstart hchecked hpending =>
    obtain ⟨hle, hguard⟩ := hb x hx
    rw [hstart]
    refine ⟨Int.le_trans hle hclock, ?_⟩
    intro r hr hc
    rcases hchecked r hr with hr | ⟨_, hpass⟩
    · exact hguard r hr hc
    · have := guardPasses_createdAt hpass hc
      omega

theorem FromBackend.clients {x' : Transaction} (h : FromBackend w b b')
    (hb : ∀ x, b.xact = some x → b.backendType ≠ .clientBackend → x.pending = [] ∧ x.checked = [])
    (hx : b'.xact = some x') (htype : b'.backendType ≠ .clientBackend) : x'.pending = [] ∧
    x'.checked = [] := by
  cases h.xact x' hx with
  | begun hchecked hpending hstart => exact ⟨hpending, hchecked⟩
  | kept x hx hstart hchecked hpending =>
    rw [h.backendType] at htype
    obtain ⟨hp, hc⟩ := hb x hx htype
    rw [hp, h.backendType] at hpending
    rw [hc, hp] at hchecked
    refine ⟨List.eq_nil_iff_forall_not_mem.mpr ?_, List.eq_nil_iff_forall_not_mem.mpr ?_⟩
    · intro r hr
      rcases hpending r hr with hr | hr
      · exact List.not_mem_nil hr
      · exact htype hr
    · intro r hr
      rcases hchecked r hr with hr | ⟨hr, _⟩
      · exact List.not_mem_nil hr
      · exact List.not_mem_nil hr

theorem Changed.mem_backends (h : Changed w w') (hb : b' ∈ w'.backends) :
    ∃ b ∈ w.backends, FromBackend w b b' := by
  obtain ⟨k, hk⟩ := List.getElem?_of_mem hb
  obtain ⟨b, hb, hfrom⟩ := h.backends k b' hk
  exact ⟨b, List.mem_of_getElem? hb, hfrom⟩

theorem writerInv_changed {seed : Int} (h : WriterInv seed w) (hc : Changed w w') :
    WriterInv seed w' where
  xacts := by
    intro b' hb' x' hx'
    obtain ⟨b, hb, hfrom⟩ := hc.mem_backends hb'
    exact hfrom.xacts hc.clock (h.xacts b hb) hx'
  clients := by
    intro b' hb' x' hx' htype
    obtain ⟨b, hb, hfrom⟩ := hc.mem_backends hb'
    exact hfrom.clients (h.clients b hb) hx' htype
  prepared := by
    intro p' hp'
    cases hc.prepared p' hp' with
    | kept p hp hstamp hrows =>
      rw [hstamp, hrows]
      exact h.prepared p hp
    | stamped hstamp hrows =>
      rw [hstamp]
      exact hrows
  rising := by
    rw [heartbeats_log hc.log]
    exact h.rising
  newest := by
    rw [heartbeats_log hc.log, hc.heartbeat.1]
    exact h.newest

theorem heartbeats_beat (epoch : Uuid) :
    heartbeats (w.beat epoch).log = heartbeats w.log ++ [w.token + 1] := by
  simp [heartbeats, Writer.beat]

theorem writerInv_beat {seed : Int} (h : WriterInv seed w) (epoch : Uuid) :
    WriterInv seed (w.beat epoch) where
  xacts := h.xacts
  clients := h.clients
  prepared := h.prepared
  rising := by
    rw [heartbeats_beat, ← List.cons_append, List.pairwise_append]
    refine ⟨h.rising, List.pairwise_singleton _ _, ?_⟩
    intro t ht u hu
    rw [List.mem_singleton.mp hu]
    have := h.newest t ht
    omega
  newest := by
    rw [heartbeats_beat, ← List.cons_append]
    intro t ht
    show t ≤ w.token + 1
    rcases List.mem_append.mp ht with ht | ht
    · have := h.newest t ht
      omega
    · exact Int.le_of_eq (by rw [List.mem_singleton.mp ht])

/-! ## Below the wall nothing is left -/

/-- The transactions of the first `n` backends commit nothing at or below the wall. -/
structure Settled (n : Nat) (wall : Int) (w : Writer) : Prop where
  xacts : ∀ (k : Nat) (b : Backend) (x : Transaction), k < n → w.backends[k]? = some b →
    b.xact = some x → Above wall x.checked
  /-- What is checked from now on is above the wall. -/
  clock : wall ≤ w.clock - floor - margin

/-- No transaction commits anything at or below the wall. -/
structure Closed (wall : Int) (w : Writer) : Prop where
  settled : Settled w.backends.length wall w
  prepared : ∀ p ∈ w.preparedXacts, Above wall p.rows

/-- The heartbeat at position `n` of the log, and its wall. -/
structure Proof (n : Nat) (token : Int) (epoch : Uuid) (wall : Int) (w : Writer) : Prop where
  heartbeat : w.log[n]? = some (.heartbeat token epoch)
  above : ∀ (m : Nat) (c : Commit), n < m → w.log[m]? = some c → Above wall c.eventRows
  closed : Closed wall w

variable {n : Nat} {wall : Int}

theorem settled_changed (h : Settled n wall w) (hc : Changed w w') : Settled n wall w' := by
  have hclock := hc.clock
  have hwall := h.clock
  have hmargin := margin_pos
  refine ⟨?_, by omega⟩
  intro k b' x' hk hb' hx'
  obtain ⟨b, hb, hfrom⟩ := hc.backends k b' hb'
  cases hfrom.xact x' hx' with
  | begun hchecked hpending hstart =>
    rw [hchecked]
    exact above_nil
  | kept x hx hstart hchecked hpending =>
    intro r hr hchan
    rcases hchecked r hr with hr | ⟨_, hpass⟩
    · exact h.xacts k b x hk hb hx r hr hchan
    · have := guardPasses_createdAt hpass hchan
      omega

theorem closed_changed (h : Closed wall w) (hc : Changed w w') : Closed wall w' := by
  refine ⟨?_, ?_⟩
  · rw [hc.length]
    exact settled_changed h.settled hc
  · intro p' hp'
    cases hc.prepared p' hp' with
    | kept p hp hstamp hrows =>
      rw [hrows]
      exact h.prepared p hp
    | stamped hstamp hrows => exact hrows.mono h.settled.clock

theorem Closed.xact (h : Closed wall w) (hb : b ∈ w.backends) (hx : b.xact = some x) :
    Above wall x.checked := by
  obtain ⟨k, hk⟩ := List.getElem?_of_mem hb
  exact h.settled.xacts k b x (List.getElem?_eq_some_iff.mp hk).1 hk hx

/-- A commit is added to the log whose rows are above the wall. -/
theorem proof_log {token : Int} {epoch : Uuid} {c : Commit} (h : Proof n token epoch wall w)
    (hc : Above wall c.eventRows) (hlog : w'.log = w.log ++ [c]) (hclosed : Closed wall w') :
    Proof n token epoch wall w' := by
  have hn : n < w.log.length := (List.getElem?_eq_some_iff.mp h.heartbeat).1
  refine ⟨?_, ?_, hclosed⟩
  · rw [hlog, List.getElem?_append_left hn]
    exact h.heartbeat
  · intro m d hm hd
    rw [hlog] at hd
    rcases Nat.lt_or_ge m w.log.length with hlt | hge
    · rw [List.getElem?_append_left hlt] at hd
      exact h.above m d hm hd
    rw [List.getElem?_append_right hge, List.getElem?_singleton] at hd
    split at hd
    · cases hd
      exact hc
    · cases hd

theorem proof_changed {token : Int} {epoch : Uuid} (h : Proof n token epoch wall w)
    (hc : Changed w w') : Proof n token epoch wall w' := by
  have hclosed := closed_changed h.closed hc
  cases hc.log with
  | same hlog => exact ⟨by rw [hlog]; exact h.heartbeat, by rw [hlog]; exact h.above, hclosed⟩
  | xact b x hb hx hlog =>
    refine proof_log h ?_ hlog hclosed
    exact h.closed.xact hb hx
  | prepared p hp hlog =>
    refine proof_log h ?_ hlog hclosed
    exact h.closed.prepared p hp

theorem settled_beat (h : Settled n wall w) (epoch : Uuid) : Settled n wall (w.beat epoch) :=
  ⟨h.xacts, h.clock⟩

theorem closed_beat (h : Closed wall w) (epoch : Uuid) : Closed wall (w.beat epoch) :=
  ⟨settled_beat h.settled epoch, h.prepared⟩

theorem proof_beat {token : Int} {epoch : Uuid} (h : Proof n token epoch wall w) (epoch' : Uuid) :
    Proof n token epoch wall (w.beat epoch') :=
  proof_log h above_nil rfl (closed_beat h.closed epoch')

/-- **A heartbeat committed when nothing is left below the wall proves the wall.** -/
theorem proof_new (h : Closed wall w) (epoch : Uuid) :
    Proof w.log.length (w.token + 1) epoch wall (w.beat epoch) := by
  refine ⟨List.getElem?_concat_length, ?_, closed_beat h epoch⟩
  intro m c hm hc
  have hlt := (List.getElem?_eq_some_iff.mp hc).1
  simp only [Writer.beat, List.length_append, List.length_singleton] at hlt
  omega

/-! ## The scan -/

/-- A backend that is not masked shows the transaction it writes events in. -/
theorem activity_shows (hmasked : b.activity.masked = false) (hx : b.xact = some x)
    (htype : b.backendType = .clientBackend) : b.activity.xactStart = some x.xactStart := by
  unfold Backend.activity at hmasked ⊢
  cases hv : b.visibility with
  | full => rw [hx]; rfl
  | hidden =>
    rw [hv] at hmasked
    simp [ActivityRow.masked] at hmasked
  | untracked =>
    rw [hv, htype] at hmasked
    simp [ActivityRow.masked] at hmasked

/-- The scan of one more backend. -/
theorem settled_scan {seed sampledAt : Int} {oldest : Option Int} (hinv : WriterInv seed w)
    (h : Settled n (fenceWall sampledAt oldest) w) (hb : w.backends[n]? = some b)
    (hmasked : b.activity.masked = false) :
    Settled (n + 1) (fenceWall sampledAt (least oldest b.activity.xactStart)) w := by
  have hle := fenceWall_least_le sampledAt oldest b.activity.xactStart
  have hclock := h.clock
  refine ⟨?_, by omega⟩
  intro k c x hk hc hx
  rcases Nat.lt_or_eq_of_le (Nat.le_of_lt_succ hk) with hk | hk
  · exact (h.xacts k c x hk hc hx).mono hle
  rw [hk, hb] at hc
  rw [← Option.some.inj hc] at hx
  have hmem := List.mem_of_getElem? hb
  by_cases htype : b.backendType = .clientBackend
  · obtain ⟨_, hguard⟩ := hinv.xacts b hmem x hx
    rw [activity_shows hmasked hx htype]
    have hwall := fenceWall_least_le_self sampledAt x.xactStart oldest
    have hmargin := margin_pos
    exact hguard.above (by omega)
  · rw [(hinv.clients b hmem x hx htype).2]
    exact above_nil

/-- The prepared transactions are scanned last, so that none has left both views. -/
theorem closed_scan {seed sampledAt : Int} {oldest : Option Int} (hinv : WriterInv seed w)
    (h : Settled w.backends.length (fenceWall sampledAt oldest) w) :
    Closed (fenceWall sampledAt
      ((w.preparedXacts.map PreparedXact.prepared).foldl (fun acc t => least acc (some t)) oldest))
        w := by
  obtain ⟨hle, hall⟩ := fenceWall_foldl sampledAt (w.preparedXacts.map PreparedXact.prepared) oldest
  have hclock := h.clock
  refine ⟨⟨?_, by omega⟩, ?_⟩
  · intro k b x hk hb hx
    exact (h.xacts k b x hk hb hx).mono hle
  · intro p hp
    exact (hinv.prepared p hp).mono (hall p.prepared (List.mem_map.mpr ⟨p, hp, rfl⟩))

end Pkzz.Db
