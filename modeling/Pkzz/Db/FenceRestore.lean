import Pkzz.Db.FenceWriter

/-!
# Restoring the writer

The probes of one pod against a writer whose heartbeat row is wound back, any number of
times, to an earlier value of the same epoch. A reader left on an abandoned timeline still
observes the heartbeats of that timeline.

`record` compares a token with the newest entry of the ring alone. While the ring still holds
a token of before the rewind the regression shows; a probe that fails in between empties the
ring, and then a lower token of the same epoch is taken.
-/

namespace Pkzz.Db

open Pkzz.Core Pkzz.Lib

namespace Restore

structure Heartbeat where
  token : Int
  epoch : Uuid
  deriving DecidableEq

/-- What a rewind leaves behind: the instant of it, and the heartbeats of the timeline. -/
structure Abandoned where
  instant : Int
  heartbeats : List Heartbeat
  deriving DecidableEq

structure State where
  /-- The pod's monotonic clock. -/
  now : Int
  /-- The row of `replica_heartbeat`. -/
  row : Heartbeat
  /-- Its earlier values on this timeline, newest first. -/
  older : List Heartbeat
  abandoned : List Abandoned
  fence : ReplicaFence
  probe : Probe
  /-- What `record` has taken, newest first. -/
  accepted : List Heartbeat

/-- The heartbeats of the current timeline, newest first. -/
def State.timeline (s : State) : List Heartbeat := s.row :: s.older

/-- Every heartbeat that was ever committed. -/
def State.seen (s : State) : List Heartbeat :=
  s.timeline ++ s.abandoned.flatMap Abandoned.heartbeats

inductive Action where
  /-- Another pod's probe commits its token, or rotates the epoch. -/
  | otherToken
  | otherRotate (epoch : Uuid)
  /-- The writer loses its last heartbeats. -/
  | rewind (lost : Nat)
  | commitToken (wall : Int)
  | record
  | rotate (epoch : Uuid)
  | recordRotated
  /-- The probe fails; `run_probe` closes the fence. -/
  | fail

/-- `gen_random_uuid()` gives an epoch that is in no row and no fence. -/
def State.Fresh (s : State) (epoch : Uuid) : Prop :=
  (∀ h ∈ s.seen, h.epoch ≠ epoch) ∧ s.fence.epoch ≠ some epoch

instance (s : State) (epoch : Uuid) : Decidable (s.Fresh epoch) :=
  inferInstanceAs (Decidable (_ ∧ _))

/-- `UPDATE replica_heartbeat SET token = token + 1`, with the epoch it leaves. -/
def State.beat (s : State) (epoch : Uuid) : State :=
  { s with now := s.now + 1, row := ⟨s.row.token + 1, epoch⟩, older := s.timeline }

def step (s : State) : Action → Option State
  | .otherToken => some (s.beat s.row.epoch)
  | .otherRotate epoch => if s.Fresh epoch then some (s.beat epoch) else none
  | .rewind lost =>
    match s.timeline.drop lost with
    | row :: older =>
      if row.epoch = s.row.epoch then
        some { s with
          now := s.now + 1
          row
          older
          abandoned := ⟨s.now, s.timeline⟩ :: s.abandoned }
      else none
    | [] => none
  | .commitToken wall =>
    match s.probe with
    | .idle => some { s.beat s.row.epoch with
        probe := .sampled (s.row.token + 1) s.row.epoch s.now wall }
    | _ => none
  | .record =>
    match s.probe with
    | .sampled token epoch committedAt wall =>
      match s.fence.record token epoch committedAt wall with
      | (.recorded, fence) =>
          some { s with fence, probe := .idle, accepted := ⟨token, epoch⟩ :: s.accepted }
      | (.tokenRegression, fence) => some { s with fence, probe := .rotating wall }
    | _ => none
  | .rotate epoch =>
    match s.probe with
    | .rotating wall =>
      if s.Fresh epoch then
        some { s.beat epoch with probe := .rotated (s.row.token + 1) epoch s.now wall }
      else none
    | _ => none
  | .recordRotated =>
    match s.probe with
    | .rotated token epoch committedAt wall =>
      match s.fence.record token epoch committedAt wall with
      | (.recorded, fence) =>
          some { s with fence, probe := .idle, accepted := ⟨token, epoch⟩ :: s.accepted }
      | (.tokenRegression, fence) => some { s with fence, probe := .idle }
    | _ => none
  | .fail => some { s with fence := s.fence.close, probe := .idle }

def machine : Machine State Action := ⟨step⟩

def init (row : Heartbeat) : State := ⟨0, row, [], [], .new, .idle, []⟩

/-- No observation on an abandoned timeline proves an entry taken after the rewind, and each
token taken is above those taken before it under its epoch. -/
structure RestoreSafe (s : State) : Prop where
  unproved : ∀ a ∈ s.abandoned, ∀ h ∈ a.heartbeats, ∀ e,
    s.fence.resolve h.token h.epoch = .proved e → e.committedAt ≤ a.instant
  rising : s.accepted.Pairwise fun newer older => newer.epoch = older.epoch →
    older.token < newer.token

/-! ## When the evidence is kept -/

/-- The token of the running probe that is committed and not yet recorded. -/
def Probe.inFlight : Probe → Option Heartbeat
  | .sampled token epoch _ _ => some ⟨token, epoch⟩
  | .rotated token epoch _ _ => some ⟨token, epoch⟩
  | _ => none

/-- The greatest tokens the pod holds under the writer's epoch: the one in flight, and the
newest of the ring. -/
def State.held (s : State) : List Int :=
  ((Probe.inFlight s.probe).toList.filter fun h =>
    decide (h.epoch = s.row.epoch)).map Heartbeat.token ++
    if s.fence.epoch = some s.row.epoch then
      s.fence.ring.getLast?.toList.map TokenEntry.token else []

def Probe.isRotating : Probe → Bool
  | .rotating _ => true
  | _ => false

/-- A rewind that loses a heartbeat meets a pod that holds the writer's token, or a greater
one of its epoch. No probe fails while the pod holds a token above the writer's, or between a
regression and the rotation that answers it. -/
def Kept (s : State) : Action → Prop
  | .rewind lost => lost = 0 ∨ ∃ t ∈ s.held, s.row.token ≤ t
  | .fail => (∀ t ∈ s.held, t ≤ s.row.token) ∧
      ¬(Probe.isRotating s.probe = true ∧ s.fence.epoch = some s.row.epoch)
  | _ => True

instance (s : State) : ∀ a, Decidable (Kept s a)
  | .rewind _ => inferInstanceAs (Decidable (_ ∨ ∃ t ∈ s.held, s.row.token ≤ t))
  | .fail => inferInstanceAs (Decidable (_ ∧ ¬(_ ∧ _)))
  | .otherToken | .otherRotate _ | .commitToken _ | .record | .rotate _ | .recordRotated =>
      isTrue trivial

/-! ## The invariant -/

/-- The ring's newest token, under `epoch`, is not below `t`. -/
def RingHolds (f : ReplicaFence) (epoch : Uuid) (t : Int) : Prop :=
  f.epoch = some epoch ∧ ∃ last, f.ring.getLast? = some last ∧ t ≤ last.token

/-- The pod shows a token of `epoch` that is not below `t`, or is about to change the epoch. -/
inductive Shown (f : ReplicaFence) (p : Probe) (epoch : Uuid) (t : Int) : Prop where
  | ring (h : RingHolds f epoch t)
  | inFlight (h : Heartbeat) (hp : Probe.inFlight p = some h) (hepoch : h.epoch = epoch)
      (hle : t ≤ h.token)
  | rotating (hp : Probe.isRotating p = true) (hf : f.epoch = some epoch)

/-- A token of the writer's epoch has been passed by the writer, or the pod shows it. -/
def Watched (s : State) (t : Int) : Prop := t ≤ s.row.token ∨ Shown s.fence s.probe s.row.epoch t

/-- What holds of a committed token that is to be recorded: the ring shows every token that
it does not exceed. -/
structure InFlight (s : State) (token : Int) (epoch : Uuid) (committedAt : Int) : Prop where
  seen : (⟨token, epoch⟩ : Heartbeat) ∈ s.seen
  past : committedAt < s.now
  current : s.fence.epoch = some s.row.epoch → epoch = s.row.epoch
  accepted : ∀ h ∈ s.accepted, h.epoch = epoch → h.token < token ∨ RingHolds s.fence epoch h.token
  abandoned : ∀ a ∈ s.abandoned, a.instant < committedAt → ∀ h ∈ a.heartbeats, h.epoch = epoch →
    h.token < token ∨ RingHolds s.fence epoch h.token

def ProbeInv (s : State) : Probe → Prop
  | .sampled token epoch committedAt _ => InFlight s token epoch committedAt
  | .rotated token epoch committedAt _ => InFlight s token epoch committedAt ∧
      s.fence.epoch ≠ some epoch
  | _ => True

/-- An entry of the ring, taken under `epoch`. -/
structure EntryInv (s : State) (epoch : Uuid) (e : TokenEntry) : Prop where
  past : e.committedAt < s.now
  above : ∀ a ∈ s.abandoned, a.instant < e.committedAt → ∀ h ∈ a.heartbeats, h.epoch = epoch →
    h.token < e.token

structure Inv (s : State) : Prop where
  timeline : ∀ h ∈ s.timeline, h.token ≤ s.row.token
  descending : s.timeline.Pairwise fun newer older => older.token ≤ newer.token
  watched : ∀ h ∈ s.seen, h.epoch = s.row.epoch → Watched s h.token
  accepted : ∀ h ∈ s.accepted, h ∈ s.seen
  ring : ∀ e ∈ s.fence.ring, ∃ epoch, s.fence.epoch = some epoch ∧ EntryInv s epoch e
  rising : s.fence.Rising
  increasing : s.accepted.Pairwise fun newer older => newer.epoch = older.epoch →
    older.token < newer.token
  probe : ProbeInv s s.probe

variable {s s' : State} {epoch : Uuid}

theorem inv_init (row : Heartbeat) : Inv (init row) := by
  have hrow : ∀ h ∈ (init row).timeline, h.token ≤ row.token := by
    intro h hh
    exact Int.le_of_eq (congrArg Heartbeat.token (List.mem_singleton.mp hh))
  refine ⟨hrow, List.pairwise_singleton _ _, ?_, fun _ he => absurd he List.not_mem_nil,
    fun _ he => absurd he List.not_mem_nil, ReplicaFence.rising_new, List.Pairwise.nil, trivial⟩
  intro h hh _
  exact .inl (hrow h hh)

/-! ## Heartbeats -/

theorem seen_beat : (s.beat epoch).seen = ⟨s.row.token + 1, epoch⟩ :: s.seen := rfl

theorem inFlight_beat {token c : Int} {ep : Uuid} (h : InFlight s token ep c)
    (hepoch : epoch = s.row.epoch ∨ s.Fresh epoch) : InFlight (s.beat epoch) token ep c := by
  have hpast := h.past
  refine ⟨?_, ?_, ?_, h.accepted, h.abandoned⟩
  · rw [seen_beat]
    exact List.mem_cons_of_mem _ h.seen
  · show c < s.now + 1
    omega
  · intro hf
    rcases hepoch with heq | hfresh
    · rw [heq] at hf
      exact (h.current hf).trans heq.symm
    · exact absurd hf hfresh.2

/-- **A heartbeat of another pod**, or the writer's half of one's own. -/
theorem inv_beat (h : Inv s) (hepoch : epoch = s.row.epoch ∨ s.Fresh epoch) :
    Inv (s.beat epoch) := by
  have hrow : ∀ h ∈ s.timeline, h.token ≤ s.row.token + 1 := by
    intro hb hmem
    have := h.timeline hb hmem
    omega
  refine
    { timeline := ?_
      descending := List.pairwise_cons.mpr ⟨hrow, h.descending⟩
      watched := ?_
      accepted := fun hb hacc => List.mem_cons_of_mem _ (h.accepted hb hacc)
      ring := ?_
      rising := h.rising
      increasing := h.increasing
      probe := ?_ }
  · intro hb hmem
    rcases List.mem_cons.mp hmem with heq | hmem
    · exact Int.le_of_eq (congrArg Heartbeat.token heq)
    · exact hrow hb hmem
  · intro hb hmem hep
    rw [seen_beat] at hmem
    rcases List.mem_cons.mp hmem with heq | hmem
    · rw [heq]
      exact .inl (Int.le_refl _)
    rcases hepoch with heq | hfresh
    · rcases h.watched hb hmem (hep.trans heq) with hle | hshown
      · left
        show hb.token ≤ s.row.token + 1
        omega
      · right
        show Shown s.fence s.probe epoch hb.token
        rw [heq]
        exact hshown
    · exact absurd hep (hfresh.1 hb hmem)
  · intro e he
    obtain ⟨ep, hf, hentry⟩ := h.ring e he
    have hpast := hentry.past
    refine ⟨ep, hf, ?_, hentry.above⟩
    show e.committedAt < s.now + 1
    omega
  · have hp := h.probe
    show ProbeInv (s.beat epoch) s.probe
    cases hprobe : s.probe with
    | sampled token ep c wall =>
      rw [hprobe] at hp
      exact inFlight_beat hp hepoch
    | rotated token ep c wall =>
      rw [hprobe] at hp
      exact ⟨inFlight_beat hp.1 hepoch, hp.2⟩
    | idle => trivial
    | scanning _ _ _ _ => trivial
    | scanned _ _ => trivial
    | rotating _ => trivial

/-! ## Rewinds -/

/-- The tokens the pod holds are those it shows in its ring or has in flight. -/
theorem shown_of_held {t u : Int} (ht : t ∈ s.held) (hu : u ≤ t) :
    Shown s.fence s.probe s.row.epoch u := by
  unfold State.held at ht
  rcases List.mem_append.mp ht with ht | ht
  · obtain ⟨h, hmem, htok⟩ := List.mem_map.mp ht
    obtain ⟨hin, hep⟩ := List.mem_filter.mp hmem
    refine .inFlight h (Option.mem_toList.mp hin) (of_decide_eq_true hep) ?_
    rw [htok]
    exact hu
  · split at ht
    · rename_i hf
      obtain ⟨last, hmem, htok⟩ := List.mem_map.mp ht
      refine .ring ⟨hf, last, Option.mem_toList.mp hmem, ?_⟩
      rw [htok]
      exact hu
    · exact absurd ht List.not_mem_nil

/-- What the pod shows, outside a rotation, it holds. -/
theorem held_of_shown {t : Int} (h : Shown s.fence s.probe s.row.epoch t)
    (hrot : ¬(Probe.isRotating s.probe = true ∧ s.fence.epoch = some s.row.epoch)) :
    ∃ u ∈ s.held, t ≤ u := by
  cases h with
  | ring h =>
    obtain ⟨hf, last, hlast, hle⟩ := h
    refine ⟨last.token, ?_, hle⟩
    unfold State.held
    rw [if_pos hf, hlast]
    exact List.mem_append_right _ (List.mem_singleton.mpr rfl)
  | inFlight h hin hep hle =>
    refine ⟨h.token, ?_, hle⟩
    unfold State.held
    rw [hin]
    refine List.mem_append_left _ (List.mem_map.mpr ⟨h,
      List.mem_filter.mpr ⟨List.mem_singleton.mpr rfl, ?_⟩, rfl⟩)
    exact decide_eq_true hep
  | rotating hp hf => exact absurd ⟨hp, hf⟩ hrot

/-- The writer wound back to `row`. -/
def State.rewound (s : State) (row : Heartbeat) (older : List Heartbeat) : State :=
  { s with
    now := s.now + 1
    row
    older
    abandoned := ⟨s.now, s.timeline⟩ :: s.abandoned }

variable {row : Heartbeat} {older : List Heartbeat} {lost : Nat}

theorem seen_rewound (hdrop : s.timeline.drop lost = row :: older) {h : Heartbeat} :
    h ∈ (s.rewound row older).seen ↔ h ∈ s.seen := by
  have hsub : ∀ h ∈ row :: older, h ∈ s.timeline := by
    intro h hh
    rw [← hdrop] at hh
    exact List.mem_of_mem_drop hh
  show h ∈ (row :: older) ++ (s.timeline ++ s.abandoned.flatMap Abandoned.heartbeats) ↔ h ∈ s.seen
  constructor
  · intro hh
    rcases List.mem_append.mp hh with hh | hh
    · exact List.mem_append_left _ (hsub h hh)
    · exact hh
  · intro hh
    exact List.mem_append_right _ hh

theorem inFlight_rewound {token c : Int} {ep : Uuid} (hdrop : s.timeline.drop lost = row :: older)
    (hrow : row.epoch = s.row.epoch) (h : InFlight s token ep c) :
    InFlight (s.rewound row older) token ep c := by
  have hpast := h.past
  refine ⟨(seen_rewound hdrop).mpr h.seen, ?_, ?_, h.accepted, ?_⟩
  · show c < s.now + 1
    omega
  · intro hf
    exact (h.current (hf.trans (congrArg some hrow))).trans hrow.symm
  · intro a ha hlt
    rcases List.mem_cons.mp ha with heq | ha
    · rw [heq] at hlt
      have hnow : s.now < c := hlt
      omega
    · exact h.abandoned a ha hlt

/-- **A rewind.** What the writer forgets the pod holds. -/
theorem inv_rewound (h : Inv s) (hdrop : s.timeline.drop lost = row :: older)
    (hrow : row.epoch = s.row.epoch)
    (hkept : Kept s (.rewind lost)) : Inv (s.rewound row older) := by
  have hdesc : (row :: older).Pairwise fun newer older => older.token ≤ newer.token := by
    rw [← hdrop]
    exact List.Pairwise.sublist (List.drop_sublist _ _) h.descending
  refine
    { timeline := ?_
      descending := hdesc
      watched := ?_
      accepted := fun hb hacc => (seen_rewound hdrop).mpr (h.accepted hb hacc)
      ring := ?_
      rising := h.rising
      increasing := h.increasing
      probe := ?_ }
  · intro hb hmem
    rcases List.mem_cons.mp hmem with heq | hmem
    · exact Int.le_of_eq (congrArg Heartbeat.token heq)
    · exact (List.pairwise_cons.mp hdesc).1 hb hmem
  · intro hb hmem hep
    have hseen := (seen_rewound hdrop).mp hmem
    have hshow : Shown s.fence s.probe s.row.epoch hb.token →
        Watched (s.rewound row older) hb.token := by
      intro hs
      right
      show Shown s.fence s.probe row.epoch hb.token
      rw [hrow]
      exact hs
    rcases h.watched hb hseen (hep.trans hrow) with hle | hshown
    · rcases hkept with hzero | ⟨t, ht, hge⟩
      · rw [hzero] at hdrop
        have hsame : s.row = row := (List.cons.inj hdrop).1
        rw [hsame] at hle
        exact .inl hle
      · exact hshow (shown_of_held ht (Int.le_trans hle hge))
    · exact hshow hshown
  · intro e he
    obtain ⟨ep, hf, hentry⟩ := h.ring e he
    have hpast := hentry.past
    refine ⟨ep, hf, ?_, ?_⟩
    · show e.committedAt < s.now + 1
      omega
    · intro a ha hlt
      rcases List.mem_cons.mp ha with heq | ha
      · rw [heq] at hlt
        have hnow : s.now < e.committedAt := hlt
        omega
      · exact hentry.above a ha hlt
  · have hp := h.probe
    show ProbeInv (s.rewound row older) s.probe
    cases hprobe : s.probe with
    | sampled token ep c wall =>
      rw [hprobe] at hp
      exact inFlight_rewound hdrop hrow hp
    | rotated token ep c wall =>
      rw [hprobe] at hp
      exact ⟨inFlight_rewound hdrop hrow hp.1, hp.2⟩
    | idle => trivial
    | scanning _ _ _ _ => trivial
    | scanned _ _ => trivial
    | rotating _ => trivial

/-! ## The pod's steps -/

/-- The pod's half of a step changes the fence and where its probe stands. -/
def State.moved (s : State) (fence : ReplicaFence) (probe : Probe) : State :=
  { s with fence, probe }

/-- A step of the pod leaves the writer and the past as they are. -/
theorem inv_moved {fence : ReplicaFence} {probe : Probe} (h : Inv s)
    (hshown : ∀ hb ∈ s.seen, hb.epoch = s.row.epoch → Shown s.fence s.probe s.row.epoch hb.token →
      hb.token ≤ s.row.token ∨ Shown fence probe s.row.epoch hb.token)
    (hring : ∀ e ∈ fence.ring, ∃ ep, fence.epoch = some ep ∧ EntryInv s ep e)
    (hrising : fence.Rising)
    (hprobe : ProbeInv (s.moved fence probe) probe) : Inv (s.moved fence probe) where
  timeline := h.timeline
  descending := h.descending
  watched := by
    intro hb hmem hep
    rcases h.watched hb hmem hep with hle | hs
    · exact .inl hle
    · exact hshown hb hmem hep hs
  accepted := h.accepted
  ring := by
    intro e he
    obtain ⟨ep, hf, hentry⟩ := hring e he
    exact ⟨ep, hf, hentry.past, hentry.above⟩
  rising := hrising
  increasing := h.increasing
  probe := hprobe

/-- The token is taken. -/
theorem inv_accepted {hb : Heartbeat} (h : Inv s) (hidle : s.probe = .idle) (hseen : hb ∈ s.seen)
    (habove : ∀ older ∈ s.accepted, older.epoch = hb.epoch → older.token < hb.token) :
    Inv { s with accepted := hb :: s.accepted } where
  timeline := h.timeline
  descending := h.descending
  watched := h.watched
  accepted := by
    intro hb' hmem
    rcases List.mem_cons.mp hmem with heq | hmem
    · rw [heq]
      exact hseen
    · exact h.accepted hb' hmem
  ring := by
    intro e he
    obtain ⟨ep, hf, hentry⟩ := h.ring e he
    exact ⟨ep, hf, hentry.past, hentry.above⟩
  rising := h.rising
  increasing := List.pairwise_cons.mpr ⟨fun older ho hep => habove older ho hep.symm, h.increasing⟩
  probe := by
    show ProbeInv _ s.probe
    rw [hidle]
    trivial

/-- A heartbeat is committed by the pod. -/
theorem inv_commitToken (h : Inv s) (hidle : s.probe = .idle) (wall : Int) :
    Inv ((s.beat s.row.epoch).moved s.fence
      (.sampled (s.row.token + 1) s.row.epoch s.now wall)) := by
  -- with no probe running, only the ring shows tokens
  have hring : ∀ t, Shown s.fence s.probe s.row.epoch t → RingHolds s.fence s.row.epoch t := by
    intro t hs
    rw [hidle] at hs
    cases hs with
    | ring h => exact h
    | inFlight hb hp hep hle => cases hp
    | rotating hp hf => cases hp
  have hbelow : ∀ hb ∈ s.seen, hb.epoch = s.row.epoch →
      hb.token < s.row.token + 1 ∨ RingHolds s.fence s.row.epoch hb.token := by
    intro hb hseen hep
    rcases h.watched hb hseen hep with hle | hs
    · left
      omega
    · exact .inr (hring hb.token hs)
  have hbeat := inv_beat h (.inl rfl)
  refine inv_moved hbeat ?_ hbeat.ring hbeat.rising ⟨List.mem_cons_self, ?_, fun _ => rfl, ?_, ?_⟩
  · intro hb _ _ hs
    exact .inr (.ring (hring hb.token hs))
  · show s.now < s.now + 1
    omega
  · intro hb hacc hep
    exact hbelow hb (h.accepted hb hacc) hep
  · intro a ha _ hb hmem hep
    exact hbelow hb (List.mem_append_right _ (List.mem_flatMap.mpr ⟨a, ha, hmem⟩)) hep

/-- The epoch is changed by the pod. -/
theorem inv_rotate (h : Inv s) (hfresh : s.Fresh epoch) (wall : Int) :
    Inv ((s.beat epoch).moved s.fence (.rotated (s.row.token + 1) epoch s.now wall)) := by
  have hbeat := inv_beat h (.inr hfresh)
  refine inv_moved hbeat ?_ hbeat.ring hbeat.rising ⟨⟨List.mem_cons_self, ?_, ?_, ?_, ?_⟩, hfresh.2⟩
  · intro hb hmem hep _
    left
    rw [seen_beat] at hmem
    rcases List.mem_cons.mp hmem with heq | hmem
    · exact Int.le_of_eq (congrArg Heartbeat.token heq)
    · exact absurd hep (hfresh.1 hb hmem)
  · show s.now < s.now + 1
    omega
  · intro hf
    exact absurd hf hfresh.2
  · intro hb hacc hep
    exact absurd hep (hfresh.1 hb (h.accepted hb hacc))
  · intro a ha _ hb hmem hep
    exact absurd hep (hfresh.1 hb (List.mem_append_right _ (List.mem_flatMap.mpr ⟨a, ha, hmem⟩)))

section Record

variable {f' : ReplicaFence} {token c wall : Int} {ep : Uuid}

/-- A token that is taken exceeds what the ring shows. -/
theorem lt_of_recorded (hrec : s.fence.record token ep c wall = (.recorded, f')) {t : Int}
    (h : t < token ∨ RingHolds s.fence ep t) : t < token := by
  rcases h with h | ⟨hf, last, hlast, hle⟩
  · exact h
  rcases ReplicaFence.record_cases hrec with ⟨hne, _⟩ | ⟨_, ho, _⟩ | ⟨_, _, _, _, hlt⟩
  · exact absurd hf hne
  · cases ho
  · have := hlt last hlast
    omega

/-- A token that is taken is the newest of the ring. -/
theorem newest_of_recorded (hrec : s.fence.record token ep c wall = (.recorded, f')) :
    f'.epoch = some ep ∧ f'.ring.getLast? = some ⟨token, c, wall⟩ := by
  rcases ReplicaFence.record_cases hrec with ⟨_, _, hf, hring⟩ | ⟨_, ho, _⟩ | ⟨_, _, hf, hring, _⟩
  · rw [hring]
    exact ⟨hf, rfl⟩
  · cases ho
  · rw [hring]
    exact ⟨hf, ReplicaFence.getLast?_push⟩

/-- **`record` takes a token**, of a probe or of a rotation. -/
theorem inv_recorded (h : Inv s) (hin : Probe.inFlight s.probe = some ⟨token, ep⟩)
    (hfl : InFlight s token ep c) (hrec : s.fence.record token ep c wall = (.recorded, f')) :
    Inv { s.moved f' .idle with accepted := ⟨token, ep⟩ :: s.accepted } := by
  obtain ⟨hf', hlast⟩ := newest_of_recorded hrec
  have hmoved : Inv (s.moved f' .idle) := by
    refine inv_moved h ?_ ?_ (ReplicaFence.rising_record h.rising hrec) trivial
    · intro hb _ _ hs
      right
      cases hs with
      | ring hring =>
        have hep := hfl.current hring.1
        rw [← hep] at hring ⊢
        exact .ring ⟨hf', _, hlast, Int.le_of_lt (lt_of_recorded hrec (.inr hring))⟩
      | inFlight hb' hp hep hle =>
        rw [hin] at hp
        rw [← Option.some.inj hp] at hep hle
        have hep' : ep = s.row.epoch := hep
        rw [← hep']
        exact .ring ⟨hf', _, hlast, hle⟩
      | rotating hp hf =>
        cases hprobe : s.probe with
        | rotating _ => rw [hprobe] at hin; cases hin
        | _ => rw [hprobe] at hp; cases hp
    · intro e he
      obtain ⟨_, hnew | ⟨hold, he⟩⟩ := ReplicaFence.mem_record hrec he
      · rw [hnew]
        refine ⟨ep, hf', hfl.past, ?_⟩
        intro a ha hlt hb hmem hep
        exact lt_of_recorded hrec (hfl.abandoned a ha hlt hb hmem hep)
      · obtain ⟨ep', hfe, hentry⟩ := h.ring e he
        have heq : ep' = ep := Option.some.inj (hfe.symm.trans hold)
        rw [heq] at hentry
        exact ⟨ep, hf', hentry⟩
  refine inv_accepted hmoved rfl hfl.seen ?_
  intro older ho hep
  exact lt_of_recorded hrec (hfl.accepted older ho hep)

/-- **`record` finds a regression.** The pod owes a rotation. -/
theorem inv_regression (h : Inv s) (hin : Probe.inFlight s.probe = some ⟨token, ep⟩)
    (hrec : s.fence.record token ep c wall = (.tokenRegression, f')) :
    Inv (s.moved f' (.rotating wall)) := by
  rcases ReplicaFence.record_cases hrec with ⟨_, ho, _⟩ | ⟨hf, _, hclose, _⟩ | ⟨_, ho, _⟩
  · cases ho
  · rw [hclose]
    refine inv_moved h ?_ (fun _ he => absurd he List.not_mem_nil) ReplicaFence.rising_close trivial
    intro hb _ _ hs
    right
    refine .rotating rfl ?_
    cases hs with
    | ring hring => exact hring.1
    | inFlight hb' hp hep hle =>
      rw [hin] at hp
      rw [← Option.some.inj hp] at hep
      have hep' : ep = s.row.epoch := hep
      rw [← hep']
      exact hf
    | rotating hp hf' => exact hf'
  · cases ho

end Record

/-- **A probe fails** where nothing the pod shows is lost. -/
theorem inv_fail (h : Inv s) (hkept : Kept s .fail) : Inv (s.moved s.fence.close .idle) := by
  refine inv_moved h ?_ (fun _ he => absurd he List.not_mem_nil) ReplicaFence.rising_close trivial
  intro hb _ _ hs
  left
  obtain ⟨u, hu, hle⟩ := held_of_shown hs hkept.2
  exact Int.le_trans hle (hkept.1 u hu)

/-- **The invariant is kept by every step that keeps the evidence.** -/
theorem inv_step {a : Action} (h : Inv s) (hkept : Kept s a) (hstep : step s a = some s') :
    Inv s' := by
  cases a with
  | otherToken =>
    cases hstep
    exact inv_beat h (.inl rfl)
  | otherRotate epoch =>
    simp only [step] at hstep
    split at hstep
    · rename_i hfresh
      cases hstep
      exact inv_beat h (.inr hfresh)
    · cases hstep
  | rewind lost =>
    simp only [step] at hstep
    split at hstep
    · rename_i row older hdrop
      split at hstep
      · rename_i hrow
        cases hstep
        exact inv_rewound h hdrop hrow hkept
      · cases hstep
    · cases hstep
  | commitToken wall =>
    simp only [step] at hstep
    split at hstep
    · rename_i hidle
      cases hstep
      exact inv_commitToken h hidle wall
    · cases hstep
  | record =>
    simp only [step] at hstep
    split at hstep
    · rename_i token ep c wall hprobe
      have hin : Probe.inFlight s.probe = some ⟨token, ep⟩ := by rw [hprobe]; rfl
      split at hstep
      · rename_i f' hrec
        cases hstep
        refine inv_recorded h hin ?_ hrec
        have hp := h.probe
        rw [hprobe] at hp
        exact hp
      · rename_i f' hrec
        cases hstep
        exact inv_regression h hin hrec
    · cases hstep
  | rotate epoch =>
    simp only [step] at hstep
    split at hstep
    · split at hstep
      · rename_i hfresh
        cases hstep
        exact inv_rotate h hfresh _
      · cases hstep
    · cases hstep
  | recordRotated =>
    simp only [step] at hstep
    split at hstep
    · rename_i token ep c wall hprobe
      have hin : Probe.inFlight s.probe = some ⟨token, ep⟩ := by rw [hprobe]; rfl
      have hp := h.probe
      rw [hprobe] at hp
      split at hstep
      · rename_i f' hrec
        cases hstep
        exact inv_recorded h hin hp.1 hrec
      rename_i f' hrec
      -- a fresh epoch has nothing to regress from
      rcases ReplicaFence.record_cases hrec with ⟨_, ho, _⟩ | ⟨hf, _⟩ | ⟨_, ho, _⟩
      · cases ho
      · exact absurd hf hp.2
      · cases ho
    · cases hstep
  | fail =>
    cases hstep
    exact inv_fail h hkept

theorem inv_run {as : List Action} (h : Inv s) (hkept : machine.Always Kept s as)
    (hrun : machine.run s as = some s') : Inv s' :=
  Machine.invariant (fun _ _ _ hs hk hstep => inv_step hs hk hstep) h hkept hrun

/-- **Restores are safe where the evidence is kept.** -/
theorem restore_safe (row : Heartbeat) (as : List Action) (s : State)
    (hrun : machine.run (init row) as = some s)
    (hkept : machine.Always Kept (init row) as) : RestoreSafe s := by
  have hinv := inv_run (inv_init row) hkept hrun
  refine ⟨?_, hinv.increasing⟩
  intro a ha hb hmem e hres
  obtain ⟨hepoch, hring, hle, _⟩ := (ReplicaFence.resolve_eq_proved hinv.rising).mp hres
  obtain ⟨ep, hf, hentry⟩ := hinv.ring e hring
  have hep : hb.epoch = ep := (hepoch ep hf).symm
  by_contra hgt
  have hlt := hentry.above a ha (by omega) hb hmem hep
  omega

/-- A rewind between two probes is found out, and the epoch changes. -/
def foundOut (epoch : Uuid) : List Action :=
  [.commitToken 0, .record, .rewind 1, .commitToken 0, .record, .rotate epoch, .recordRotated]

/-- The token after the rewind is accepted under the new epoch. -/
theorem restore_safe_foundOut :
    ∃ s, machine.run (init ⟨0, .ofNat 16 1⟩) (foundOut (.ofNat 16 2)) = some s ∧ RestoreSafe s := by
  have hran : ((machine.run (init ⟨0, .ofNat 16 1⟩) (foundOut (.ofNat 16 2))).map State.accepted)
      = some [⟨2, .ofNat 16 2⟩, ⟨1, .ofNat 16 1⟩] := by decide
  obtain ⟨s, hrun, _⟩ := Option.map_eq_some_iff.mp hran
  exact ⟨s, hrun, restore_safe _ _ s hrun (by decide)⟩

/-- A probe that fails before the rewind hides it. -/
def hidden : List Action := [.commitToken 0, .record, .fail, .rewind 1, .commitToken 0, .record]

/-- **The evidence can be lost**: the token 1 is taken twice under one epoch, and a reader
left behind proves the later entry with it. -/
theorem not_restore_safe :
    ¬ ∀ (row : Heartbeat) (as : List Action) (s : State), machine.run (init row) as = some s →
      RestoreSafe s := by
  intro h
  have hran : ((machine.run (init ⟨0, .ofNat 16 1⟩) hidden).map fun s =>
      (s.abandoned, s.fence.resolve 1 (.ofNat 16 1)))
      = some ([⟨1, [⟨1, .ofNat 16 1⟩, ⟨0, .ofNat 16 1⟩]⟩], .proved ⟨1, 2, 0⟩) := by decide
  obtain ⟨s, hrun, hs⟩ := Option.map_eq_some_iff.mp hran
  obtain ⟨ha, hres⟩ := Prod.mk.inj hs
  have hle := (h _ _ s hrun).unproved ⟨1, [⟨1, .ofNat 16 1⟩, ⟨0, .ofNat 16 1⟩]⟩
    (by rw [ha]; exact List.mem_cons_self) ⟨1, .ofNat 16 1⟩ List.mem_cons_self _ hres
  exact absurd hle (by decide)

end Restore

end Pkzz.Db
