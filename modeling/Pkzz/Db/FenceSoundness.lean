import Pkzz.Db.FenceProof

/-!
# Replica reads are sound

Each entry a pod retains cites a heartbeat of the log and its wall is proved; a snapshot in
which that token, or a later one, is observed contains every channel row up to the wall.
-/

namespace Pkzz.Db

open Pkzz.Core Pkzz.Lib

/-- What a pod knows of the writer where its probe stands. -/
def ProbeInv (w : Writer) : Probe → Prop
  | .idle => True
  | .scanning sampledAt next oldest masked =>
    next ≤ w.backends.length ∧ (masked = false → Settled next (fenceWall sampledAt oldest) w)
  | .scanned sampledAt oldest => Closed (fenceWall sampledAt oldest) w
  | .sampled token epoch _ wall => ∃ n, Proof n token epoch wall w
  | .rotating wall => Closed wall w
  | .rotated token epoch _ wall => ∃ n, Proof n token epoch wall w

/-- Every retained entry is proved, under the fence's epoch. -/
def Cited (w : Writer) (f : ReplicaFence) : Prop :=
  ∀ e ∈ f.ring, ∃ epoch n, f.epoch = some epoch ∧ Proof n e.token epoch e.fenceWall w

structure PodInv (w : Writer) (pod : Pod) : Prop where
  rising : pod.fence.Rising
  cited : Cited w pod.fence
  probe : ProbeInv w pod.probe

structure Inv (seed : Int) (s : Cluster) : Prop where
  writer : WriterInv seed s.shared
  pods : s.Proper (fun w _ pod => PodInv w pod) (fun _ _ => True)

variable {w w' : Writer} {pod : Pod}

/-! ## Steps of others -/

theorem probeInv_changed {p : Probe} (h : ProbeInv w p) (hc : Changed w w') : ProbeInv w' p := by
  cases p with
  | idle => trivial
  | scanning sampledAt next oldest masked =>
    refine ⟨by rw [hc.length]; exact h.1, ?_⟩
    intro hmasked
    exact settled_changed (h.2 hmasked) hc
  | scanned sampledAt oldest => exact closed_changed h hc
  | sampled token epoch c wall | rotated token epoch c wall =>
    obtain ⟨n, hproof⟩ := h
    exact ⟨n, proof_changed hproof hc⟩
  | rotating wall => exact closed_changed h hc

theorem probeInv_beat {p : Probe} (h : ProbeInv w p) (epoch : Uuid) :
    ProbeInv (w.beat epoch) p := by
  cases p with
  | idle => trivial
  | scanning sampledAt next oldest masked =>
    refine ⟨h.1, ?_⟩
    intro hmasked
    exact settled_beat (h.2 hmasked) epoch
  | scanned sampledAt oldest => exact closed_beat h epoch
  | sampled token ep c wall | rotated token ep c wall =>
    obtain ⟨n, hproof⟩ := h
    exact ⟨n, proof_beat hproof epoch⟩
  | rotating wall => exact closed_beat h epoch

theorem podInv_changed (h : PodInv w pod) (hc : Changed w w') : PodInv w' pod := by
  refine ⟨h.rising, ?_, probeInv_changed h.probe hc⟩
  intro e he
  obtain ⟨epoch, n, hep, hproof⟩ := h.cited e he
  exact ⟨epoch, n, hep, proof_changed hproof hc⟩

variable {f : ReplicaFence}

theorem cited_beat (h : Cited w f) (epoch : Uuid) : Cited (w.beat epoch) f := by
  intro e he
  obtain ⟨ep, n, hep, hproof⟩ := h e he
  exact ⟨ep, n, hep, proof_beat hproof epoch⟩

theorem podInv_beat (h : PodInv w pod) (epoch : Uuid) : PodInv (w.beat epoch) pod :=
  ⟨h.rising, cited_beat h.cited epoch, probeInv_beat h.probe epoch⟩

/-! ## The pod's own steps -/

theorem cited_close : Cited w f.close := fun _ he => absurd he List.not_mem_nil

variable {token : Int} {epoch : Uuid}

/-- A recorded token brings its proof. -/
theorem cited_record {f' : ReplicaFence} {o : RecordOutcome} {c wall : Int} {n : Nat}
    (h : Cited w f) (hproof : Proof n token epoch wall w)
    (hrec : f.record token epoch c wall = (o, f')) : Cited w f' := by
  intro e he
  obtain ⟨hep, he | ⟨hold, he⟩⟩ := ReplicaFence.mem_record hrec he
  · rw [he]
    exact ⟨epoch, n, hep, hproof⟩
  obtain ⟨ep, m, hep', hm⟩ := h e he
  have heq : ep = epoch := Option.some.inj (hep'.symm.trans hold)
  rw [heq] at hm
  exact ⟨epoch, m, hep, hm⟩

variable {seed : Int} {s s' : Cluster} {i : Nat}

/-- A pod moves and leaves the writer as it is. -/
theorem Inv.move {pod' : Pod} (h : Inv seed s) (hi : s.threads[i]? = some pod)
    (hpod : PodInv s.shared pod') : Inv seed (s.put i s.shared pod') := by
  refine ⟨h.writer, h.pods.put hi hpod ?_⟩
  intro j m _ hj
  exact ⟨h.pods.each j m hj, trivial, trivial⟩

/-- A pod moves by committing a heartbeat. -/
theorem Inv.beat {pod' : Pod} (h : Inv seed s) (epoch : Uuid) (hi : s.threads[i]? = some pod)
    (hpod : PodInv (s.shared.beat epoch) pod') : Inv seed (s.put i (s.shared.beat epoch) pod') := by
  refine ⟨writerInv_beat h.writer epoch, h.pods.put hi hpod ?_⟩
  intro j m _ hj
  exact ⟨podInv_beat (h.pods.each j m hj) epoch, trivial, trivial⟩

/-- A pod whose fence is closed. -/
theorem podInv_close {p : Probe} (h : ProbeInv w p) : PodInv w ⟨f.close, p⟩ :=
  ⟨ReplicaFence.rising_close, cited_close, h⟩

theorem inv_init (backends : List BackendType) (token : Int) (epoch : Uuid) (clock : Int)
    (pods : Nat) : Inv token (Cluster.init backends token epoch clock pods) := by
  refine ⟨?_, ?_, ?_⟩
  · refine ⟨?_, ?_, fun _ hp => absurd hp List.not_mem_nil, List.pairwise_singleton _ _, ?_⟩
    · intro b hb x hx
      obtain ⟨t, _, ht⟩ := List.mem_map.mp hb
      rw [← ht] at hx
      cases hx
    · intro b hb x hx
      obtain ⟨t, _, ht⟩ := List.mem_map.mp hb
      rw [← ht] at hx
      cases hx
    · intro t ht
      exact Int.le_of_eq (List.mem_singleton.mp ht)
  · intro i pod hi
    rw [(List.mem_replicate.mp (List.mem_of_getElem? hi)).2]
    exact ⟨ReplicaFence.rising_new, fun _ he => absurd he List.not_mem_nil, trivial⟩
  · intro _ _ _ _ _ _ _
    trivial

variable {a : Cluster.Action}

/-- No transaction is stamped by `PREPARE` with a channel row that is as old as the floor and the
margin together: its guard ran less than the margin before the stamp, or it is younger. -/
def Cluster.Fresh (s : Cluster) : Cluster.Action → Prop
  | .writer a => s.shared.Fresh a
  | _ => True

instance Cluster.decidableFresh (s : Cluster) (a : Cluster.Action) : Decidable (s.Fresh a) :=
  match a with
  | .writer a => s.shared.decidableFresh a
  | .sample _ | .scanBackend _ | .scanPrepared _ | .commitToken _ _ | .record _ | .rotate _ _
      _ | .recordRotated _
  | .fail _ | .close _ | .restart _ => .isTrue trivial

/-- **The invariant is kept by every step.** -/
theorem inv_step (h : Inv seed s) (hfresh : s.Fresh a) (hstep : Cluster.step s a = some s') :
    Inv seed s' := by
  cases a with
  | writer a =>
    simp only [Cluster.step] at hstep
    split at hstep
    · rename_i w hw
      have hc := writer_changed hfresh hw
      cases hstep
      refine ⟨writerInv_changed h.writer hc, h.pods.change ?_⟩
      intro j m hj
      exact podInv_changed (h.pods.each j m hj) hc
    · cases hstep
  | sample i =>
    simp only [Cluster.step] at hstep
    split at hstep
    · rename_i fence hi
      cases hstep
      have hpod := h.pods.each i _ hi
      -- nothing is scanned yet, and the wall lies below the sample
      refine h.move hi ⟨hpod.rising, hpod.cited, Nat.zero_le _, ?_⟩
      intro _
      exact ⟨fun k _ _ hk => absurd hk (Nat.not_lt_zero k), fenceWall_le _ _⟩
    · cases hstep
  | scanBackend i =>
    simp only [Cluster.step] at hstep
    split at hstep
    · rename_i fence sampledAt next oldest masked hi
      split at hstep
      · rename_i b hb
        cases hstep
        have hpod := h.pods.each i _ hi
        refine h.move hi ⟨hpod.rising, hpod.cited, (List.getElem?_eq_some_iff.mp hb).1, ?_⟩
        -- a masked backend gives no bound, and the scan will close the fence
        intro hmasked
        obtain ⟨hm, hbm⟩ := Bool.or_eq_false_iff.mp hmasked
        exact settled_scan h.writer (hpod.probe.2 hm) hb hbm
      · cases hstep
    · cases hstep
  | scanPrepared i =>
    simp only [Cluster.step] at hstep
    split at hstep
    · rename_i fence sampledAt next oldest masked hi
      have hpod := h.pods.each i _ hi
      split at hstep
      · rename_i hnext
        split at hstep
        · cases hstep
          exact h.move hi (podInv_close trivial)
        rename_i hmasked
        cases hstep
        -- every backend is settled, so the prepared transactions complete the proof
        have hsettled := hpod.probe.2 (by simpa using hmasked)
        rw [hnext] at hsettled
        exact h.move hi ⟨hpod.rising, hpod.cited, closed_scan h.writer hsettled⟩
      · cases hstep
    · cases hstep
  | commitToken i committedAt =>
    simp only [Cluster.step] at hstep
    split at hstep
    · rename_i fence sampledAt oldest hi
      cases hstep
      have hpod := h.pods.each i _ hi
      exact h.beat _ hi ⟨hpod.rising, cited_beat hpod.cited _, _, proof_new hpod.probe _⟩
    · cases hstep
  | record i =>
    simp only [Cluster.step] at hstep
    split at hstep
    · rename_i fence token epoch committedAt wall hi
      have hpod := h.pods.each i _ hi
      obtain ⟨n, hproof⟩ := hpod.probe
      split at hstep
      · rename_i fence' hrec
        cases hstep
        exact h.move hi ⟨ReplicaFence.rising_record hpod.rising hrec,
          cited_record hpod.cited hproof hrec, trivial⟩
      -- the token went back: the pod rotates the epoch, and its wall stays proved
      rename_i fence' hrec
      cases hstep
      refine h.move hi ⟨ReplicaFence.rising_record hpod.rising hrec,
        cited_record hpod.cited hproof hrec, ?_⟩
      exact hproof.closed
    · cases hstep
  | rotate i epoch committedAt =>
    simp only [Cluster.step] at hstep
    split at hstep
    · rename_i fence wall hi
      cases hstep
      have hpod := h.pods.each i _ hi
      exact h.beat _ hi ⟨hpod.rising, cited_beat hpod.cited _, _, proof_new hpod.probe _⟩
    · cases hstep
  | recordRotated i =>
    simp only [Cluster.step] at hstep
    split at hstep
    · rename_i fence token epoch committedAt wall hi
      have hpod := h.pods.each i _ hi
      obtain ⟨n, hproof⟩ := hpod.probe
      cases hstep
      exact h.move hi ⟨ReplicaFence.rising_record hpod.rising rfl,
        cited_record hpod.cited hproof rfl, trivial⟩
    · cases hstep
  | fail i =>
    simp only [Cluster.step] at hstep
    split at hstep
    · rename_i pod hi
      cases hstep
      exact h.move hi (podInv_close trivial)
    · cases hstep
  | close i =>
    simp only [Cluster.step] at hstep
    split at hstep
    · rename_i pod hi
      cases hstep
      exact h.move hi (podInv_close (h.pods.each i pod hi).probe)
    · cases hstep
  | restart i =>
    simp only [Cluster.step] at hstep
    split at hstep
    · rename_i pod hi
      cases hstep
      exact h.move hi ⟨ReplicaFence.rising_new, fun _ he => absurd he List.not_mem_nil, trivial⟩
    · cases hstep

variable {as : List Cluster.Action}

theorem inv_run (h : Inv seed s) (hfresh : Cluster.machine.Always Cluster.Fresh s as)
    (hrun : Cluster.machine.run s as = some s') : Inv seed s' :=
  Machine.invariant (fun _ _ _ hs hf hstep => inv_step hs hf hstep) h hfresh hrun

/-- What a step of the cluster does to the writer. -/
theorem shared_cases (hfresh : s.Fresh a) (hstep : Cluster.step s a = some s') :
    s'.shared = s.shared ∨ Changed s.shared s'.shared ∨
      ∃ epoch, s'.shared = s.shared.beat epoch := by
  cases a with
  | writer a =>
    simp only [Cluster.step] at hstep
    split at hstep
    · rename_i w hw
      cases hstep
      exact .inr (.inl (writer_changed hfresh hw))
    · cases hstep
  | commitToken i committedAt | rotate i epoch' committedAt =>
    simp only [Cluster.step] at hstep
    split at hstep
    · cases hstep
      exact .inr (.inr ⟨_, rfl⟩)
    · cases hstep
  | scanBackend i | scanPrepared i | record i =>
    left
    simp only [Cluster.step] at hstep
    repeat' split at hstep
    all_goals first
      | rw [← Option.some.inj hstep]; rfl
      | cases hstep
  | sample i | recordRotated i | fail i | close i | restart i =>
    left
    simp only [Cluster.step] at hstep
    split at hstep
    · cases hstep
      rfl
    · cases hstep

/-- What a heartbeat proves it goes on proving. -/
theorem proof_step {n : Nat} {wall : Int} (h : Proof n token epoch wall s.shared)
    (hfresh : s.Fresh a)
    (hstep : Cluster.step s a = some s') : Proof n token epoch wall s'.shared := by
  rcases shared_cases hfresh hstep with hsame | hc | ⟨ep, hbeat⟩
  · rw [hsame]
    exact h
  · exact proof_changed h hc
  · rw [hbeat]
    exact proof_beat h ep

/-- Commits are only added to the log. -/
theorem log_step (hfresh : s.Fresh a) (hstep : Cluster.step s a = some s') :
    s.shared.log <+: s'.shared.log := by
  rcases shared_cases hfresh hstep with hsame | hc | ⟨ep, hbeat⟩
  · rw [hsame]
  · cases hc.log with
    | same hlog => rw [hlog]
    | xact b x hb hx hlog => rw [hlog]; exact List.prefix_append _ _
    | prepared p hp hlog => rw [hlog]; exact List.prefix_append _ _
  · rw [hbeat]
    exact List.prefix_append _ _

theorem log_run (hfresh : Cluster.machine.Always Cluster.Fresh s as)
    (hrun : Cluster.machine.run s as = some s') : s.shared.log <+: s'.shared.log :=
  @Machine.invariant _ _ Cluster.machine Cluster.Fresh (fun u =>
    s.shared.log <+: u.shared.log) _ _ _
    (fun _ _ _ hs hf hstep => hs.trans (log_step hf hstep)) List.prefix_rfl hfresh hrun

theorem proof_run {n : Nat} {wall : Int} (h : Proof n token epoch wall s.shared)
    (hfresh : Cluster.machine.Always Cluster.Fresh s as)
    (hrun : Cluster.machine.run s as = some s') : Proof n token epoch wall s'.shared :=
  @Machine.invariant _ _ Cluster.machine Cluster.Fresh (fun u =>
    Proof n token epoch wall u.shared) _ _ _
    (fun _ _ _ hs hf hstep => proof_step hs hf hstep) h hfresh hrun

/-! ## Observations -/

/-- The observed token is the seed's or one of the snapshot's heartbeats. -/
theorem observed_mem (seed : Int × Uuid) (snapshot : List Commit) :
    (observeHeartbeat seed snapshot).1 ∈ seed.1 :: heartbeats snapshot := by
  induction snapshot generalizing seed with
  | nil => exact List.mem_cons_self
  | cons c snapshot ih =>
    cases c with
    | write rows => exact ih seed
    | heartbeat token epoch =>
      have h := ih (token, epoch)
      exact List.mem_cons_of_mem _ h

/-- A snapshot that shows a token at or above a heartbeat's contains the heartbeat. -/
theorem position_lt {seed : Int × Uuid} {log snapshot : List Commit} {n : Nat}
    (hrising : (seed.1 :: heartbeats log).Pairwise (· < ·)) (hsnap : snapshot <+: log)
    (hn : log[n]? = some (.heartbeat token epoch))
    (hobs : token ≤ (observeHeartbeat seed snapshot).1) : n < snapshot.length := by
  by_contra hge
  obtain ⟨rest, hrest⟩ := hsnap
  rw [← hrest, List.getElem?_append_right (by omega)] at hn
  have hmem : token ∈ heartbeats rest := List.mem_filterMap.mpr ⟨_, List.mem_of_getElem? hn, rfl⟩
  have happ : heartbeats log = heartbeats snapshot ++ heartbeats rest := by
    rw [← hrest]
    exact List.filterMap_append
  rw [happ, ← List.cons_append, List.pairwise_append] at hrising
  have hlt := hrising.2.2 _ (observed_mem seed snapshot) token hmem
  omega

/-- **Replica reads are sound** in every run in which `PREPARE` stamps no old row. Whatever the
writer's transactions, the probes of the pods and their failures do, and in whatever order: an entry
that is proved by the heartbeat of a snapshot has every channel row up to its wall in that snapshot,
now and whatever is committed later. The proof is the entry with the greatest token that is not
above the observed one, and the ring's tokens rise under one epoch. -/
theorem replica_reads_sound (backends : List BackendType) (seed : Int × Uuid) (clock : Int)
    (pods : Nat) (as : List Cluster.Action) (s : Cluster)
    (hfresh : Cluster.machine.Always Cluster.Fresh (.init backends seed.1 seed.2 clock pods) as)
    (hrun : Cluster.machine.run (.init backends seed.1 seed.2 clock pods) as = some s)
    (i : Nat) (pod : Pod) (hi : s.threads[i]? = some pod) :
    (∀ (snapshot : List Commit) (e : TokenEntry), snapshot <+: s.shared.log →
      pod.fence.resolve (observeHeartbeat seed snapshot).1 (observeHeartbeat seed snapshot).2 =
        .proved e →
      ∀ (later : List Cluster.Action) (t : Cluster), Cluster.machine.Always Cluster.Fresh s later →
      Cluster.machine.run s later = some t →
      ∀ (k : Nat) (c : Commit), t.shared.log[k]? = some c →
      ∀ r ∈ c.eventRows, r.channelId.isSome = true → r.createdAt ≤ e.fenceWall →
        snapshot[k]? = some c) ∧
    (∀ token epoch e, pod.fence.resolve token epoch = .proved e ↔
      (∀ ep, pod.fence.epoch = some ep → ep = epoch) ∧ e ∈ pod.fence.ring ∧ e.token ≤ token ∧
        ∀ e' ∈ pod.fence.ring, e'.token ≤ token → e'.token ≤ e.token) ∧
    pod.fence.ring.Pairwise (fun a b => a.token < b.token) ∧
    (∀ e ∈ pod.fence.ring, ∃ epoch, pod.fence.epoch = some epoch ∧
      .heartbeat e.token epoch ∈ s.shared.log) := by
  have hinv := inv_run (inv_init backends seed.1 seed.2 clock pods) hfresh hrun
  have hpod := hinv.pods.each i pod hi
  refine ⟨?_, fun token epoch e => ReplicaFence.resolve_eq_proved hpod.rising, hpod.rising, ?_⟩
  · intro snapshot e hsnap hres later t hlaterFresh hlater k c hk r hr hchan hle
    obtain ⟨_, hmem, hto, _⟩ := (ReplicaFence.resolve_eq_proved hpod.rising).mp hres
    obtain ⟨epoch, n, _, hproof⟩ := hpod.cited e hmem
    have hn := position_lt hinv.writer.rising hsnap hproof.heartbeat hto
    have hlaterProof := proof_run hproof hlaterFresh hlater
    rcases Nat.lt_or_ge n k with hlt | hge
    · have := hlaterProof.above k c hlt hk r hr hchan
      omega
    · obtain ⟨rest, hrest⟩ := hsnap.trans (log_run hlaterFresh hlater)
      rw [← hrest, List.getElem?_append_left (Nat.lt_of_le_of_lt hge hn)] at hk
      exact hk
  · intro e he
    obtain ⟨epoch, n, hep, hproof⟩ := hpod.cited e he
    exact ⟨epoch, hep, List.mem_of_getElem? hproof.heartbeat⟩

/-- A transaction whose row is 950 seconds old when its guard runs; it is prepared after `wait`, and
one probe follows. -/
def preparedProbe (channel : Uuid) (wait : Nat) : List Cluster.Action :=
  [.writer (.begin 0 0), .writer (.insert 0 ⟨some channel, seconds (-950)⟩), .writer (.guard 0),
    .writer (.tick wait),
    .writer (.prepare 0), .writer (.finish 0), .sample 0, .scanBackend 0, .scanPrepared 0,
      .commitToken 0 1, .record 0]

/-- Prepared four seconds after its guard, the row stays above the wall. -/
theorem replica_reads_sound_one :
    ∃ s pod e, Cluster.machine.run (.init [.clientBackend] 0 (.ofNat 16 7) 0 1)
      (preparedProbe (.ofNat 16 8) 4000000) = some s ∧
      s.threads[0]? = some pod ∧ pod.fence.resolve 1 (.ofNat 16 7) = .proved e ∧
      ∀ (later : List Cluster.Action) (t : Cluster), Cluster.machine.Always Cluster.Fresh s later →
      Cluster.machine.run s later = some t →
      ∀ (k : Nat) (c : Commit), t.shared.log[k]? = some c →
      ∀ r ∈ c.eventRows, r.channelId.isSome = true → r.createdAt ≤ e.fenceWall →
        s.shared.log[k]? = some c := by
  have hproved : ((Cluster.machine.run (.init [.clientBackend] 0 (.ofNat 16 7) 0 1)
      (preparedProbe (.ofNat 16 8) 4000000)).map
      fun s => (s.threads[0]?.map fun pod => pod.fence.resolve 1 (.ofNat 16 7),
        observeHeartbeat (0, .ofNat 16 7) s.shared.log))
      = some (some (.proved ⟨1, 1, seconds (-961)⟩), 1, .ofNat 16 7) := by decide
  have hfresh : Cluster.machine.Always Cluster.Fresh (.init [.clientBackend] 0 (.ofNat 16 7) 0 1)
      (preparedProbe (.ofNat 16 8) 4000000) := by decide
  obtain ⟨s, hrun, hs⟩ := Option.map_eq_some_iff.mp hproved
  obtain ⟨hpod, hobs⟩ := Prod.mk.inj hs
  obtain ⟨pod, hi, hres⟩ := Option.map_eq_some_iff.mp hpod
  refine ⟨s, pod, _, hrun, hi, hres, ?_⟩
  have hsound := replica_reads_sound [.clientBackend] (0, .ofNat 16 7) 0 1 _ s hfresh hrun 0 pod hi
  refine hsound.1 s.shared.log _ List.prefix_rfl ?_
  rw [hobs]
  exact hres

/-- Prepared twenty seconds after its guard, the row is below the wall of a heartbeat that precedes
it. -/
theorem not_replica_reads_sound :
    ¬∀ (backends : List BackendType) (seed : Int × Uuid) (clock : Int) (pods : Nat)
    (as : List Cluster.Action) (s : Cluster), Cluster.machine.run
    (.init backends seed.1 seed.2 clock pods) as = some s →
    ∀ (i : Nat) (pod : Pod) (e : TokenEntry), s.threads[i]? = some pod →
      pod.fence.resolve (observeHeartbeat seed s.shared.log).1
        (observeHeartbeat seed s.shared.log).2 = .proved e →
      ∀ (later : List Cluster.Action) (t : Cluster), Cluster.machine.run s later = some t →
      ∀ (k : Nat) (c : Commit), t.shared.log[k]? = some c →
      ∀ r ∈ c.eventRows, r.channelId.isSome = true → r.createdAt ≤ e.fenceWall →
        s.shared.log[k]? = some c := by
  intro h
  have hproved : ((Cluster.machine.run (.init [.clientBackend] 0 (.ofNat 16 7) 0 1)
      (preparedProbe (.ofNat 16 8) 20000000)).map fun s => (s.threads[0]?.map fun pod =>
          pod.fence.resolve (observeHeartbeat (0, .ofNat 16 7) s.shared.log).1
            (observeHeartbeat (0, .ofNat 16 7) s.shared.log).2,
        s.shared.log[1]?.isSome,
        (Cluster.machine.run s [.writer (.commitPrepared 0)]).map fun t =>
          t.shared.log[1]?.map Commit.eventRows))
      = some (some (.proved ⟨1, 1, seconds (-945)⟩), false,
        some (some [⟨some (.ofNat 16 8), seconds (-950)⟩])) := by decide
  obtain ⟨s, hrun, hs⟩ := Option.map_eq_some_iff.mp hproved
  obtain ⟨hpod, hs⟩ := Prod.mk.inj hs
  obtain ⟨hnone, hlater⟩ := Prod.mk.inj hs
  obtain ⟨pod, hi, hres⟩ := Option.map_eq_some_iff.mp hpod
  obtain ⟨t, ht, hrow⟩ := Option.map_eq_some_iff.mp hlater
  obtain ⟨c, hc, hrows⟩ := Option.map_eq_some_iff.mp hrow
  have hbelow := h [.clientBackend] (0, .ofNat 16 7) 0 1 _ s hrun 0 pod _ hi hres _ t ht 1 c hc
    ⟨some (.ofNat 16 8),
      seconds (-950)⟩ (by rw [hrows]; exact List.mem_singleton_self _) rfl (by decide)
  rw [hbelow] at hnone
  cases hnone

end Pkzz.Db
