import Pkzz.Core.Ids

/-!
# The replica fence

`buzz-db`'s `replica_fence.rs`: the ring of heartbeat tokens a pod has committed, each with
the wall it proves, and what an observation on a reader session proves from it; and the commit-time
guard of migration 0021. Timestamps are microseconds of the writer's clock.
-/

namespace Pkzz.Db

open Pkzz.Core

def seconds (n : Int) : Int := n * 1000000

def CREATED_AT_FLOOR_SECS : Int := 960

def FENCE_CLOCK_MARGIN_SECS : Int := 5

def RING_CAPACITY : Nat := 120

/-! ## The floor guard -/

/-- The columns of an `events` row version that the guard reads. -/
structure EventRow where
  channelId : Option Uuid
  createdAt : Int
  deriving DecidableEq

/-- `events_created_at_floor_guard`, where `floorSecs` is `buzz.created_at_floor`: whether
the row version passes. -/
def eventsCreatedAtFloorGuard (floorSecs : Option Int) (clock : Int) (new : EventRow) : Bool :=
  match floorSecs with
  | none => true
  | some floor =>
    !(decide (floor > 0) && new.channelId.isSome && decide (new.createdAt < clock - seconds floor))

/-- The guard as the writer pool arms it. -/
def guardPasses (clock : Int) (row : EventRow) : Bool :=
  eventsCreatedAtFloorGuard (some CREATED_AT_FLOOR_SECS) clock row

/-! ## The ring -/

structure TokenEntry where
  token : Int
  /-- The pod's monotonic clock just before the token was committed. -/
  committedAt : Int
  fenceWall : Int
  deriving DecidableEq

/-- `FenceInner`; the mutex makes each call below one step. -/
structure ReplicaFence where
  epoch : Option Uuid
  /-- Oldest entry first. -/
  ring : List TokenEntry

inductive RecordOutcome where
  | recorded
  | tokenRegression
  deriving DecidableEq

inductive ResolveOutcome where
  | proved (entry : TokenEntry)
  | epochMismatch
  | tokenBehind
  deriving DecidableEq

/-- `min(oldest_xact_start, S) - floor - clock_margin`. -/
def fenceWall (sampleS : Int) (oldestXactStart : Option Int) : Int :=
  let lower := match oldestXactStart with
    | some oldest => min oldest sampleS
    | none => sampleS
  lower - seconds CREATED_AT_FLOOR_SECS - seconds FENCE_CLOCK_MARGIN_SECS

namespace ReplicaFence

def new : ReplicaFence := ⟨none, []⟩

def close (f : ReplicaFence) : ReplicaFence := { f with ring := [] }

/-- `VecDeque::push_back`, after `pop_front` where the ring is full. -/
def push (ring : List TokenEntry) (entry : TokenEntry) : List TokenEntry :=
  (if ring.length = RING_CAPACITY then ring.drop 1 else ring) ++ [entry]

def record (f : ReplicaFence) (token : Int) (epoch : Uuid) (committedAt fenceWall : Int) :
    RecordOutcome × ReplicaFence :=
  if f.epoch ≠ some epoch then
    (.recorded, ⟨some epoch, push [] ⟨token, committedAt, fenceWall⟩⟩)
  else if f.ring.getLast?.any (fun last => decide (token ≤ last.token)) then
    (.tokenRegression, { f with ring := [] })
  else
    (.recorded, { f with ring := push f.ring ⟨token, committedAt, fenceWall⟩ })

def resolve (f : ReplicaFence) (observedToken : Int) (observedEpoch : Uuid) : ResolveOutcome :=
  if f.epoch.any (fun e => decide (e ≠ observedEpoch)) then .epochMismatch
  else match f.ring.reverse.find? fun entry => decide (entry.token ≤ observedToken) with
    | some entry => .proved entry
    | none => .tokenBehind

/-- Tokens rise along the ring. -/
def Rising (f : ReplicaFence) : Prop := f.ring.Pairwise fun a b => a.token < b.token

variable {f f' : ReplicaFence} {o : RecordOutcome} {token c wall : Int} {epoch : Uuid}
    {e e' : TokenEntry}

theorem rising_new : new.Rising := List.Pairwise.nil

theorem rising_close : f.close.Rising := List.Pairwise.nil

/-- The last entry of a rising ring has the greatest token. -/
theorem Rising.le_getLast (h : f.Rising) (hlast : f.ring.getLast? = some e) (he : e' ∈ f.ring) :
    e'.token ≤ e.token := by
  obtain ⟨ys, hys⟩ := List.getLast?_eq_some_iff.mp hlast
  unfold Rising at h
  rw [hys] at h he
  rw [List.pairwise_append] at h
  rcases List.mem_append.mp he with he | he
  · exact Int.le_of_lt (h.2.2 e' he e (List.mem_singleton.mpr rfl))
  · exact Int.le_of_eq (by rw [List.mem_singleton.mp he])

/-! ## `record` -/

theorem mem_push {ring : List TokenEntry} (h : e' ∈ push ring e) : e' = e ∨ e' ∈ ring := by
  unfold push at h
  rcases List.mem_append.mp h with h | h
  · right
    split at h
    · exact List.mem_of_mem_drop h
    · exact h
  · exact .inl (List.mem_singleton.mp h)

theorem getLast?_push {ring : List TokenEntry} : (push ring e).getLast? = some e := by
  unfold push
  exact List.getLast?_concat

/-- What `record` can do: start a ring under a new epoch, refuse the token and empty the
ring, or add the token to the ring. -/
theorem record_cases (h : f.record token epoch c wall = (o, f')) :
    (f.epoch ≠ some epoch ∧ o = .recorded ∧ f'.epoch = some epoch ∧ f'.ring = [⟨token, c, wall⟩]) ∨
    (f.epoch = some epoch ∧ o = .tokenRegression ∧ f' = f.close ∧
      ∃ last, f.ring.getLast? = some last ∧ token ≤ last.token) ∨
    (f.epoch = some epoch ∧ o = .recorded ∧ f'.epoch = some epoch ∧
      f'.ring = push f.ring ⟨token, c, wall⟩ ∧ ∀ last, f.ring.getLast? = some last →
        last.token < token) := by
  unfold record at h
  by_cases hepoch : f.epoch = some epoch
  · rw [if_neg (by simpa using hepoch)] at h
    right
    cases hlast : f.ring.getLast? with
    | none =>
      rw [hlast] at h
      obtain ⟨ho, hf⟩ := Prod.mk.inj h
      exact .inr ⟨hepoch, ho.symm, by rw [← hf]; exact hepoch, by rw [← hf], by simp⟩
    | some last =>
      rw [hlast] at h
      by_cases hle : token ≤ last.token
      · rw [if_pos (by simpa using hle)] at h
        obtain ⟨ho, hf⟩ := Prod.mk.inj h
        exact .inl ⟨hepoch, ho.symm, hf.symm, last, rfl, hle⟩
      rw [if_neg (by simpa using hle)] at h
      obtain ⟨ho, hf⟩ := Prod.mk.inj h
      refine .inr ⟨hepoch, ho.symm, by rw [← hf]; exact hepoch, by rw [← hf], ?_⟩
      intro l hl
      cases hl
      omega
  · rw [if_pos hepoch] at h
    obtain ⟨ho, hf⟩ := Prod.mk.inj h
    refine .inl ⟨hepoch, ho.symm, by rw [← hf], ?_⟩
    rw [← hf]
    rfl

/-- The entries after `record` are the new one and entries of before, under one epoch. -/
theorem mem_record (h : f.record token epoch c wall = (o, f')) (he : e ∈ f'.ring) :
    f'.epoch = some epoch ∧ (e = ⟨token, c, wall⟩ ∨ (f.epoch = some epoch ∧ e ∈ f.ring)) := by
  rcases record_cases h with ⟨_, _, hep, hring⟩ | ⟨_, _, hf, _⟩ | ⟨hepoch, _, hep, hring, _⟩
  · rw [hring] at he
    exact ⟨hep, .inl (List.mem_singleton.mp he)⟩
  · rw [hf] at he
    exact absurd he List.not_mem_nil
  · rw [hring] at he
    refine ⟨hep, ?_⟩
    rcases mem_push he with he | he
    · exact .inl he
    · exact .inr ⟨hepoch, he⟩

theorem rising_push (h : f.Rising)
    (hlast : ∀ last, f.ring.getLast? = some last → last.token < e.token) :
    (push f.ring e).Pairwise fun a b => a.token < b.token := by
  have hall : ∀ a ∈ f.ring, a.token < e.token := by
    intro a ha
    cases hl : f.ring.getLast? with
    | none =>
      rw [List.getLast?_eq_none_iff.mp hl] at ha
      exact absurd ha List.not_mem_nil
    | some last => exact Int.lt_of_le_of_lt (h.le_getLast hl ha) (hlast last hl)
  unfold push
  rw [List.pairwise_append]
  refine ⟨?_, List.pairwise_singleton _ _, ?_⟩
  · split
    · exact List.Pairwise.sublist (List.drop_sublist 1 _) h
    · exact h
  · intro a ha b hb
    rw [List.mem_singleton.mp hb]
    split at ha
    · exact hall a (List.mem_of_mem_drop ha)
    · exact hall a ha

/-- **The ring stays rising**, whatever tokens and epochs are recorded. -/
theorem rising_record (hf : f.Rising) (h : f.record token epoch c wall = (o, f')) : f'.Rising := by
  rcases record_cases h with ⟨_, _, _, hring⟩ | ⟨_, _, hf', _⟩ | ⟨_, _, _, hring, hlast⟩
  · unfold Rising
    rw [hring]
    exact List.pairwise_singleton _ _
  · rw [hf']
    exact rising_close
  · unfold Rising
    rw [hring]
    exact rising_push hf hlast

/-! ## `resolve` -/

/-- In a rising list, the last entry that passes a bound is the greatest one below it. -/
theorem find?_reverse_rising {ring : List TokenEntry}
    (h : ring.Pairwise fun a b => a.token < b.token) :
    ring.reverse.find? (fun entry => decide (entry.token ≤ token)) = some e ↔
      e ∈ ring ∧ e.token ≤ token ∧ ∀ e' ∈ ring, e'.token ≤ token → e'.token ≤ e.token := by
  induction ring using List.reverseRecOn with
  | nil => simp
  | append_singleton ring last ih =>
    rw [List.pairwise_append] at h
    obtain ⟨hring, -, hlt⟩ := h
    have hlast : ∀ a ∈ ring, a.token < last.token := fun a ha =>
      hlt a ha last (List.mem_singleton.mpr rfl)
    rw [List.reverse_append, List.reverse_singleton, List.singleton_append, List.find?_cons]
    by_cases hle : last.token ≤ token
    · rw [decide_eq_true hle]
      constructor
      · intro he
        cases he
        refine ⟨by simp, hle, ?_⟩
        intro e' he' _
        rcases List.mem_append.mp he' with he' | he'
        · exact Int.le_of_lt (hlast e' he')
        · exact Int.le_of_eq (by rw [List.mem_singleton.mp he'])
      · intro he
        obtain ⟨hmem, _, hmax⟩ := he
        have hge := hmax last (by simp) hle
        rcases List.mem_append.mp hmem with hmem | hmem
        · have := hlast e hmem
          omega
        · rw [List.mem_singleton.mp hmem]
    · rw [decide_eq_false hle]
      simp only
      rw [ih hring]
      constructor
      · intro he
        obtain ⟨hmem, hto, hmax⟩ := he
        refine ⟨List.mem_append_left _ hmem, hto, ?_⟩
        intro e' he' hto'
        rcases List.mem_append.mp he' with he' | he'
        · exact hmax e' he' hto'
        · rw [List.mem_singleton.mp he'] at hto'
          omega
      · intro he
        obtain ⟨hmem, hto, hmax⟩ := he
        rcases List.mem_append.mp hmem with hmem | hmem
        · exact ⟨hmem, hto, fun e' he' => hmax e' (List.mem_append_left _ he')⟩
        · rw [List.mem_singleton.mp hmem] at hto
          omega

/-- **The proof of an observation** is the retained entry with the greatest token that is not
above the observed one, under the ring's epoch. -/
theorem resolve_eq_proved (h : f.Rising) :
    f.resolve token epoch = .proved e ↔
      (∀ ep, f.epoch = some ep → ep = epoch) ∧ e ∈ f.ring ∧ e.token ≤ token ∧
        ∀ e' ∈ f.ring, e'.token ≤ token → e'.token ≤ e.token := by
  rw [← find?_reverse_rising h]
  unfold resolve
  cases hep : f.epoch with
  | none =>
    cases hfind : f.ring.reverse.find? fun entry => decide (entry.token ≤ token) with
    | none => simp
    | some entry => simp
  | some ep =>
    by_cases heq : ep = epoch
    · cases hfind : f.ring.reverse.find? fun entry => decide (entry.token ≤ token) with
      | none => simp [heq]
      | some entry => simp [heq]
    · simp [heq]

end ReplicaFence

end Pkzz.Db
