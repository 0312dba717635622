import Pkzz.Kube.Guarded
import Pkzz.Kube.Replaced

/-!
# No deploy loses its Secret

The server moves on in three ways: an attempt goes on, a pod changes or goes, and a pod is created
with the Secret of an open attempt that is young enough. None of them brings back a dead Secret. So
every Secret that was ever deleted is dead, and the pods that name it, if any still exist, have
terminated.
-/

namespace Pkzz.Kube

open Pkzz.Lib

/-! ## Pods that change -/

theorem isOurs_iff {pod : Pod} {identity : AgentIdentity} : pod.IsOurs identity ↔
    hasMarker pod.labels = true ∧
    annotationMatches pod.annotations identity = true ∧ pod.name.isSome ∧ pod.uid.isSome ∧
      pod.resourceVersion.isSome := by
  unfold Pod.IsOurs verify
  cases hasMarker pod.labels with
  | false => simp
  | true =>
    cases annotationMatches pod.annotations identity with
    | false => simp
    | true => cases pod.name <;> cases pod.uid <;> cases pod.resourceVersion <;> simp

theorem referencedSecret_congr {p q : Pod} (h : p.spec = q.spec) :
    referencedSecret p = referencedSecret q := by
  unfold referencedSecret
  rw [h]

namespace Server

variable {identity : AgentIdentity} {window : Nat} {w w' : Server} {i : Nat}

theorem Reports.isOurs {old new : Pod} (h : Reports old new) : new.IsOurs identity ↔
    old.IsOurs identity := by
  obtain ⟨hname, huid, hlabels, hannotations, _, hversion, _⟩ := h
  rw [isOurs_iff, isOurs_iff, hname, huid, hlabels, hannotations, hversion]

/-- The pods change, and no pod of the agent is new. -/
theorem pods_change {pods : OrderedMap String Pod} (hgood : w.Good identity)
    (hpods : ∀ n pod, pods.get n = some pod → pod.name = some n ∧ (pod.IsOurs identity →
      ∃ old, w.pods.get n = some old ∧ Reports old pod)) :
    ({ w with pods := pods } : Server).Good identity ∧ w.Later identity window
    { w with pods := pods } := by
  refine ⟨⟨fun n pod hpod => (hpods n pod hpod).1, ?_, hgood.secrets, hgood.born⟩, ?_⟩
  · intro n pod hpod hours
    obtain ⟨old, hold, hreports⟩ := (hpods n pod hpod).2 hours
    obtain ⟨rfl, hlabels, name, a, href, ha, hclosed⟩ :=
      hgood.ours n old hold (hreports.isOurs.mp hours)
    obtain ⟨_, _, hsame, _, hspec, _⟩ := hreports
    exact ⟨rfl, hsame.trans hlabels, name, a, (referencedSecret_congr hspec).trans href,
      ha, hclosed⟩
  · refine ⟨le_refl _, fun _ a ha => ⟨a, ha, rfl, id, fun _ => id⟩, fun name a born ha hborn =>
      .inl ⟨a, ha, hborn⟩, ?_⟩
    intro n pod name hpod hours href
    obtain ⟨old, hold, hreports⟩ := (hpods n pod hpod).2 hours
    have hours' := hreports.isOurs.mp hours
    obtain ⟨_, _, _, _, hspec, _, hterm⟩ := hreports
    exact .inl ⟨n, old, hold, hours', (referencedSecret_congr hspec).symm.trans href, hterm⟩

variable {name : String} {pod : Pod}

/-- A pod is set under its name. -/
theorem pods_set (hgood : w.Good identity) (hname : pod.name = some name)
    (hours : pod.IsOurs identity → ∃ old, w.pods.get name = some old ∧ Reports old pod) :
    ({ w with pods := w.pods.set name pod } : Server).Good identity ∧
      w.Later identity window { w with pods := w.pods.set name pod } := by
  refine pods_change hgood ?_
  intro n q hq
  rw [OrderedMap.get_set] at hq
  split at hq
  · rename_i hn
    obtain rfl : pod = q := Option.some.inj hq
    subst hn
    exact ⟨hname, hours⟩
  · exact ⟨hgood.named n q hq, fun _ => ⟨q, hq, rfl, rfl, rfl, rfl, rfl, rfl, id⟩⟩

theorem pods_report {old : Pod} (hgood : w.Good identity) (hold : w.pods.get name = some old)
    (hreports : Reports old pod) :
    ({ w with pods := w.pods.set name pod } : Server).Good identity ∧
      w.Later identity window { w with pods := w.pods.set name pod } :=
  pods_set hgood (hreports.1.trans (hgood.named name old hold)) fun _ => ⟨old, hold, hreports⟩

theorem pods_erase (name : String) (hgood : w.Good identity) :
    ({ w with pods := w.pods.erase name } : Server).Good identity ∧
      w.Later identity window { w with pods := w.pods.erase name } := by
  refine pods_change hgood ?_
  intro n q hq
  rw [OrderedMap.get_erase] at hq
  split at hq
  · cases hq
  · exact ⟨hgood.named n q hq, fun _ => ⟨q, hq, rfl, rfl, rfl, rfl, rfl, rfl, id⟩⟩

theorem pods_foreign (hgood : w.Good identity) (hname : pod.name = some name)
    (hforeign : ¬ pod.IsOurs identity) :
    ({ w with pods := w.pods.set name pod } : Server).Good identity ∧
      w.Later identity window { w with pods := w.pods.set name pod } :=
  pods_set hgood hname fun hours => absurd hours hforeign

/-! ## Attempts that go on -/

/-- An attempt is new, or goes on. -/
structure Advances (w : Server) (name : String) (a : Attempt) : Prop where
  kept : ∀ b, w.attempts.get name = some b → a.owner = b.owner ∧
    (b.closed = true → a.closed = true) ∧ ∀ born, b.born = some born → a.born = some born
  born : ∀ born, a.born = some born → (∃ b, w.attempts.get name = some b ∧ b.born = some born) ∨
    born = w.clock

variable {name : String} {a : Attempt}

theorem Advances.later_kept (h : w.Advances name a) : ∀ n b, w.attempts.get n = some b →
    ∃ b', (w.attempts.set name a).get n = some b' ∧ b'.owner = b.owner ∧
      (b.closed = true → b'.closed = true) ∧ ∀ born, b.born = some born → b'.born = some born := by
  intro n b hb
  by_cases hn : n = name
  · subst hn
    refine ⟨a, by rw [OrderedMap.get_set, if_pos rfl], h.kept b hb⟩
  · exact ⟨b, by rw [OrderedMap.get_set, if_neg hn]; exact hb, rfl, id, fun _ => id⟩

theorem Advances.later_born (h : w.Advances name a) :
    ∀ n b born, (w.attempts.set name a).get n = some b →
    b.born = some born → (∃ b, w.attempts.get n = some b ∧ b.born = some born) ∨
      w.clock ≤ born := by
  intro n b born hb hborn
  rw [OrderedMap.get_set] at hb
  split at hb
  · rename_i hn
    obtain rfl : a = b := Option.some.inj hb
    rcases h.born born hborn with ⟨c, hc, hcborn⟩ | hnow
    · exact .inl ⟨c, by rw [hn]; exact hc, hcborn⟩
    · exact .inr (le_of_eq hnow.symm)
  · exact .inl ⟨b, hb, hborn⟩

/-- **An attempt may go on.** -/
theorem attempts_advance (hgood : w.Good identity) (h : w.Advances name a) :
    ({ w with attempts := w.attempts.set name a } : Server).Good identity ∧
      w.Later identity window { w with attempts := w.attempts.set name a } := by
  refine ⟨⟨hgood.named, ?_, ?_, ?_⟩, le_refl _, h.later_kept, h.later_born, ?_⟩
  · intro n pod hpod hours
    obtain ⟨hname, hlabels, s, b, href, hb, hclosed⟩ := hgood.ours n pod hpod hours
    obtain ⟨b', hb', _, hmono, _⟩ := h.later_kept s b hb
    exact ⟨hname, hlabels, s, b', href, hb', hmono hclosed⟩
  · intro n secret hsecret
    obtain ⟨generation, b, born, hn, heq, hb, hborn⟩ := hgood.secrets n secret hsecret
    obtain ⟨b', hb', _, _, hmono⟩ := h.later_kept n b hb
    exact ⟨generation, b', born, hn, heq, hb', hmono born hborn⟩
  · intro n b born hb hborn
    rw [OrderedMap.get_set] at hb
    split at hb
    · obtain rfl : a = b := Option.some.inj hb
      rcases h.born born hborn with ⟨c, hc, hcborn⟩ | hnow
      · exact hgood.born name c born hc hcborn
      · exact le_of_eq hnow
    · exact hgood.born n b born hb hborn
  · exact fun n pod _ hpod hours href => .inl ⟨n, pod, hpod, hours, href, id⟩

theorem mine_advance {j : Nat} (hother : a.owner ≠ j) (h : w.Advances name a) :
    Mine j w { w with attempts := w.attempts.set name a } := by
  intro n b hb howner
  rw [OrderedMap.get_set]
  split
  · rename_i hn
    subst hn
    exact absurd ((h.kept b hb).1.trans howner) hother
  · exact hb

/-! ## What the server does on a call -/

/-- What a call of deploy `i` does to the server, and what its answer says. -/
structure Served (identity : AgentIdentity) (window i : Nat) (w : Server) (c : Call) (r : c.Answer)
    (w' : Server) : Prop where
  good : w'.Good identity
  later : w.Later identity window w'
  mine : ∀ j, i ≠ j → Mine j w w'
  told : Says identity window i w' c r
  deleted : ∀ n ∈ w'.deleted, n ∈ w.deleted ∨ c = .deleteSecret n

variable {reply : Reply} {c : Call} {r : c.Answer}

theorem served_same (hgood : w.Good identity) (hsaid : Says identity window i w c r) :
    Served identity window i w c r w :=
  ⟨hgood, later_refl, fun _ _ _ _ ha _ => ha, hsaid, fun _ hn => .inl hn⟩

theorem served_listPods {selector : String} (hgood : w.Good identity)
    (hperm : reply.pods.Perm (w.pods.values.filter fun p => selects identity p.labels))
    (hprompt : ∀ late, reply.dated = some late → late ≤ Deploys.slack window) :
    Served identity window i w (.listPods selector)
      (answer reply (reply.pods, reply.dated.map fun late : Nat =>
        wholeSeconds (w.clock + late))) w := by
  refine served_same hgood ?_
  unfold answer
  split
  · trivial
  · exact listed_of_perm hgood hperm hprompt

theorem served_listSecrets {selector : String} (hgood : w.Good identity)
    (hperm : reply.secrets.Perm (w.secrets.values.filter fun s => selects identity s.labels)) :
    Served identity window i w (.listSecrets selector) (answer reply reply.secrets) w := by
  refine served_same hgood ?_
  unfold answer
  split
  · trivial
  intro secret hsecret n created hname hcreated
  obtain ⟨m, hm⟩ := OrderedMap.mem_values.mp (List.mem_of_mem_filter (hperm.mem_iff.mp hsecret))
  obtain ⟨generation, a, born, rfl, rfl, ha, hborn⟩ := hgood.secrets m secret hm
  have hn : identity.secretName generation = n := Option.some.inj hname
  rw [← hn]
  exact ⟨a, born, ha, hborn, Option.some.inj hcreated⟩

theorem served_mint (hgood : w.Good identity)
    (hnew : w.attempts.get (identity.secretName reply.generation) = none) :
    Served identity window i w .newGeneration reply.generation
      (w.mint i (identity.secretName reply.generation)) := by
  have hadvance : w.Advances (identity.secretName reply.generation) ⟨i, none, false⟩ := by
    refine ⟨fun b hb => ?_, nofun⟩
    rw [hnew] at hb
    cases hb
  obtain ⟨hgood', hlater⟩ := attempts_advance hgood hadvance
  refine ⟨hgood', hlater, fun j hj => mine_advance hj hadvance, ?_, fun _ hn => .inl hn⟩
  exact (OrderedMap.get_set _ _ _ _).trans (if_pos rfl)

theorem served_createSecret {generation : String} (hgood : w.Good identity)
    (hopen : w.attempts.get (identity.secretName generation) = some ⟨i, none, false⟩) :
    Served identity window i w (.createSecret (buildSecret identity generation)) (answer reply ())
      (if effective reply then
        w.putSecret (identity.secretName generation) (buildSecret identity generation) else w) := by
  split
  · have hadvance : w.Advances (identity.secretName generation) ⟨i, some w.clock, false⟩ := by
      refine ⟨fun b hb => ?_, fun born hborn => .inr (Option.some.inj hborn).symm⟩
      obtain rfl : (⟨i, none, false⟩ : Attempt) = b := Option.some.inj (hopen.symm.trans hb)
      exact ⟨rfl, nofun, nofun⟩
    have hput : w.putSecret (identity.secretName generation) (buildSecret identity generation)
        = { w with
            secrets := w.secrets.set (identity.secretName generation)
              { buildSecret identity generation with
                creationTimestamp := some (wholeSeconds w.clock) },
            attempts := w.attempts.set (identity.secretName generation) ⟨i, some w.clock,
              false⟩ } := by
      unfold putSecret
      rw [hopen]
    have hself : (w.attempts.set (identity.secretName generation) ⟨i, some w.clock, false⟩).get
        (identity.secretName generation) = some ⟨i, some w.clock,
          false⟩ := by rw [OrderedMap.get_set, if_pos rfl]
    obtain ⟨hgood', hlater⟩ := attempts_advance hgood hadvance
    rw [hput]
    refine ⟨⟨hgood'.named, hgood'.ours, ?_, hgood'.born⟩, ⟨hlater.clock, hlater.kept, hlater.born,
      hlater.pods⟩, fun j hj => mine_advance hj hadvance, ?_, fun _ hn => .inl hn⟩
    · intro n secret hsecret
      rw [OrderedMap.get_set] at hsecret
      split at hsecret
      · rename_i hn
        exact ⟨generation, _, w.clock, hn,
          (Option.some.inj hsecret).symm, by rw [hn]; exact hself, rfl⟩
      · exact hgood'.secrets n secret hsecret
    · unfold answer
      split
      · trivial
      · intro name hname
        obtain rfl : identity.secretName generation = name := Option.some.inj hname
        exact ⟨w.clock, hself⟩
  · rename_i hfailed
    refine served_same hgood ?_
    unfold answer
    split
    · trivial
    · rename_i hnone
      -- an answer without an error is an effect
      exact absurd (by unfold effective; rw [hnone]; rfl) hfailed

/-- The create of an attempt has been called. -/
theorem close_eq {born : Int} (href : referencedSecret pod = some name)
    (hopen : w.attempts.get name = some ⟨i, some born, false⟩) :
    w.close pod = { w with attempts := w.attempts.set name ⟨i, some born, true⟩ } := by
  unfold close
  rw [href]
  dsimp only
  rw [hopen]

theorem advances_close {born : Int} (hopen : w.attempts.get name = some ⟨i, some born, false⟩) :
    w.Advances name ⟨i, some born, true⟩ := by
  refine ⟨fun b hb => ?_, fun t ht => .inl ⟨_, hopen, ht⟩⟩
  obtain rfl : (⟨i, some born, false⟩ : Attempt) = b := Option.some.inj (hopen.symm.trans hb)
  exact ⟨rfl, nofun, fun _ h => h⟩

theorem served_close {born : Int} {r : Except String CreateOutcome} (hgood : w.Good identity)
    (href : referencedSecret pod = some name)
    (hopen : w.attempts.get name = some ⟨i, some born, false⟩) :
    Served identity window i w (.createPod pod) r (w.close pod) := by
  obtain ⟨hgood', hlater⟩ := attempts_advance hgood (advances_close hopen)
  rw [close_eq href hopen]
  refine ⟨hgood', hlater, fun j hj => mine_advance hj (advances_close hopen), ?_,
    fun _ hn => .inl hn⟩
  cases r with
  | error e => trivial
  | ok outcome =>
    cases outcome with
    | created => trivial
    | alreadyExists =>
      intro n hn
      obtain rfl : name = n := Option.some.inj (href.symm.trans hn)
      refine ⟨?_, _, (OrderedMap.get_set _ _ _ _).trans (if_pos rfl), .inl rfl⟩
      -- the pods there are have other attempts, which are closed
      intro m q hq hours hqref
      obtain ⟨_, _, s, a, hs, ha, hclosed⟩ := hgood.ours m q hq hours
      obtain rfl : name = s := Option.some.inj (hqref.symm.trans hs)
      rw [hopen] at ha
      rw [← Option.some.inj ha] at hclosed
      cases hclosed

theorem served_putPod {born : Int} {r : Except String CreateOutcome} (hgood : w.Good identity)
    (hname : pod.name = some identity.podName) (hlabels : pod.labels = some identity.labels)
    (href : referencedSecret pod = some name)
    (hopen : w.attempts.get name = some ⟨i, some born, false⟩)
    (hyoung : w.clock < born + window) (hr : r ≠ .ok .alreadyExists) :
    Served identity window i w (.createPod pod) r
      ((w.close pod).putPod identity.podName pod reply) := by
  have hboth := @attempts_advance identity window w name _ hgood (advances_close hopen)
  obtain ⟨hgood', hlater⟩ := hboth
  have hself : (w.attempts.set name ⟨i, some born, true⟩).get name = some ⟨i, some born, true⟩ := by
    rw [OrderedMap.get_set, if_pos rfl]
  rw [close_eq href hopen]
  unfold putPod
  refine ⟨⟨?_, ?_, hgood'.secrets, hgood'.born⟩, ⟨hlater.clock, hlater.kept, hlater.born, ?_⟩,
    fun j hj => mine_advance hj (advances_close hopen), ?_, fun _ hn => .inl hn⟩
  · intro n q hq
    rw [OrderedMap.get_set] at hq
    split at hq
    · rename_i hn
      rw [← Option.some.inj hq, hn]
      exact hname
    · exact hgood.named n q hq
  · intro n q hq hours
    rw [OrderedMap.get_set] at hq
    split at hq
    · rename_i hn
      cases hq
      exact ⟨hn, hlabels, name, _, (referencedSecret_congr rfl).trans href, hself, rfl⟩
    · exact hgood'.ours n q hq hours
  · intro n q s hq hours hqref
    rw [OrderedMap.get_set] at hq
    split at hq
    · -- the pod that is created
      rw [← Option.some.inj hq] at hqref
      obtain rfl : name = s :=
        Option.some.inj (href.symm.trans ((referencedSecret_congr rfl).trans hqref))
      refine .inr ⟨_, born, hself, rfl, hyoung, ?_⟩
      intro a ha
      rw [← Option.some.inj (hopen.symm.trans ha)]
    · exact .inl ⟨n, q, hq, hours, hqref, id⟩
  · cases r with
    | error e => trivial
    | ok outcome =>
      cases outcome with
      | created => trivial
      | alreadyExists => exact absurd rfl hr

theorem served_endPod {fence : Fence} {r : Except String DeleteOutcome}
    (hgood : w.Good identity) (hpod : w.pods.get name = some pod)
    (hversion : pod.resourceVersion = some fence.resourceVersion) :
    Served identity window i w (.deletePod name fence) r (w.endPod name pod reply) := by
  unfold endPod
  split
  · obtain ⟨hgood', hlater⟩ := pods_erase name hgood
    exact ⟨hgood', hlater, fun _ _ _ _ ha _ => ha, trivial, fun _ hn => .inl hn⟩
  have hreports : Reports pod
      { pod with
        deletionTimestamp := some (wholeSeconds w.clock),
        resourceVersion := some reply.resourceVersion } :=
    ⟨rfl, rfl, rfl, rfl, rfl, by rw [hversion]; rfl, id⟩
  obtain ⟨hgood', hlater⟩ := pods_report hgood hpod hreports
  exact ⟨hgood', hlater, fun _ _ _ _ ha _ => ha, trivial, fun _ hn => .inl hn⟩

theorem served_dropSecret {r : Except String Unit} (hgood : w.Good identity) :
    Served identity window i w (.deleteSecret name) r (w.dropSecret name) := by
  refine ⟨⟨hgood.named, hgood.ours, ?_, hgood.born⟩,
    ⟨le_refl _, fun _ a ha => ⟨a, ha, rfl, id, fun _ => id⟩, fun _ a _ ha
    hborn => .inl ⟨a, ha, hborn⟩, fun n pod _ hpod hours href =>
      .inl ⟨n, pod, hpod, hours, href, id⟩⟩,
    fun _ _ _ _ ha _ => ha, trivial, ?_⟩
  · intro n secret hsecret
    rw [dropSecret, OrderedMap.get_erase] at hsecret
    split at hsecret
    · cases hsecret
    · exact hgood.secrets n secret hsecret
  · intro n hn
    rcases List.mem_append.mp hn with hbefore | hnow
    · exact .inl hbefore
    · exact .inr (by rw [List.mem_singleton.mp hnow])

theorem answer_ne {α : Type} {a b : α} (h : a ≠ b) : answer reply a ≠ .ok b := by
  unfold answer
  split
  · simp
  · exact fun heq => h (Except.ok.inj heq)

/-- **Every call keeps the server good and moves it on.** -/
theorem served_of_serve (hgood : w.Good identity) (hpermitted : Permitted identity window i w c)
    (hnew : c = .newGeneration → w.attempts.get (identity.secretName reply.generation) = none)
    (hyoung : ∀ pod name a born, c = .createPod pod → referencedSecret pod = some name →
      w.attempts.get name = some a → a.born = some born → w.clock < born + window)
    (hprompt : ∀ late, reply.dated = some late → late ≤ Deploys.slack window)
    (h : w.serve identity i reply c = some (r, w')) : Served identity window i w c r w' := by
  cases c with
  | ensureNamespace n | secretExists name | getPod name | sleep | elapsed =>
    cases h
    exact served_same hgood trivial
  | listPods selector =>
    dsimp only [serve] at h
    split at h
    · rename_i hperm
      cases h
      exact served_listPods hgood hperm hprompt
    · cases h
  | listSecrets selector =>
    dsimp only [serve] at h
    split at h
    · rename_i hperm
      cases h
      exact served_listSecrets hgood hperm
    · cases h
  | createSecret secret =>
    obtain ⟨generation, rfl, hopen⟩ := hpermitted
    dsimp only [serve, buildSecret] at h
    split at h
    · split at h
      · cases h
        exact served_same hgood trivial
      · cases h
    · cases h
      exact served_createSecret hgood hopen
  | createPod pod =>
    obtain ⟨hname, hlabels, name, born, href, hopen⟩ := hpermitted
    have hage := hyoung pod name _ born rfl href hopen rfl
    dsimp only [serve] at h
    rw [hname] at h
    dsimp only at h
    split at h
    · cases h
      exact served_close hgood href hopen
    split at h
    · cases h
      exact served_putPod hgood hname hlabels href hopen hage (answer_ne (by simp))
    · cases h
      exact served_close hgood href hopen
  | deletePod name fence =>
    dsimp only [serve] at h
    split at h
    · cases h
      exact served_same hgood trivial
    rename_i pod hpod
    split at h
    · rename_i hfence
      split at h
      · cases h
        exact served_endPod hgood hpod hfence.2
      · cases h
        exact served_same hgood trivial
    · cases h
      exact served_same hgood trivial
  | deleteSecret name =>
    dsimp only [serve] at h
    split at h
    · cases h
      exact served_dropSecret hgood
    · cases h
      exact served_same hgood trivial
  | newGeneration =>
    cases h
    exact served_mint hgood (hnew rfl)

end Server

namespace Deploys

variable {identity : AgentIdentity} {window : Nat} {cfg : Nat → ProviderConfig}
    {desired : Nat → String} {s s' : Deploys}

/-! ## What every step keeps -/

/-- What is left of a deploy keeps to the protocol. -/
def ProcessInv (identity : AgentIdentity) (window i : Nat) (v : View) : Process → Prop
  | .running _ rest => Prog.Keeps (guard identity window i) rest (ReadyNext identity window) v
  | .finished _ => True

structure Inv (identity : AgentIdentity) (window : Nat) (s : Deploys) : Prop where
  good : s.server.Good identity
  deleted : ∀ n ∈ s.server.deleted, s.server.Dead identity window n
  process : ∀ i, ProcessInv identity window i ⟨s.server, s.logs i⟩ (s.processes i)
  planned : ∀ i p rest, s.processes i = .running (.collect p) rest → MadeOn identity (s.logs i) p

theorem ProcessInv.onward {i : Nat} {w w' : Server} {log : List Event} {process : Process}
    (h : ProcessInv identity window i ⟨w, log⟩ process) (hlater : w.Later identity window w')
    (hmine : Server.Mine i w w') : ProcessInv identity window i ⟨w', log⟩ process := by
  cases process with
  | running b rest => exact Prog.Keeps.onward h ⟨⟨hlater, List.prefix_rfl⟩, hmine⟩
  | finished result => trivial

/-- What is not a call moves the server on and leaves all attempts alone. -/
theorem Inv.environment {w : Server} (hs : Inv identity window s) (hgood : w.Good identity)
    (hlater : s.server.Later identity window w)
    (hattempts : w.attempts = s.server.attempts) (hdeleted : w.deleted = s.server.deleted) :
    Inv identity window { s with server := w } where
  good := hgood
  deleted := by
    intro n hn
    dsimp only at hn ⊢
    rw [hdeleted] at hn
    exact (hs.deleted n hn).later hlater
  process := by
    intro i
    refine (hs.process i).onward hlater ?_
    intro name a ha _
    rw [hattempts]
    exact ha
  planned := hs.planned

/-- The next block begins, or the deploy is done. -/
theorem inv_begins (cfg : Nat → ProviderConfig) (desired : Nat → String) {i : Nat} {b : Block}
    {next : Next} (hs : Inv identity window s)
    (hprocess : s.processes i = .running b (.done next)) :
    Inv identity window (s.proceed i s.server
      (match next with
        | .inl b => .running b (body identity (cfg i) (desired i) b)
        | .inr result => .finished result) (s.logs i)) := by
  have hnext : ReadyNext identity window ⟨s.server, s.logs i⟩ next := by
    have hkeeps := hs.process i
    rw [hprocess] at hkeeps
    exact Prog.Keeps.result hkeeps
  have hlogs : Function.update s.logs i (s.logs i) = s.logs := Function.update_eq_self i s.logs
  refine ⟨hs.good, hs.deleted, ?_, ?_⟩
  · intro j
    unfold proceed
    dsimp only
    rw [hlogs]
    by_cases hj : j = i
    · subst hj
      rw [Function.update_self]
      cases next with
      | inl b => exact guard_body b hnext
      | inr result => trivial
    · rw [Function.update_of_ne hj]
      exact hs.process j
  · intro j p rest hrunning
    unfold proceed at hrunning ⊢
    dsimp only at hrunning ⊢
    rw [hlogs]
    by_cases hj : j = i
    · subst hj
      rw [Function.update_self] at hrunning
      cases next with
      | inl b =>
        cases hrunning
        exact hnext.2
      | inr result => cases hrunning
    · rw [Function.update_of_ne hj] at hrunning
      exact hs.planned j p rest hrunning

theorem inv_call {i : Nat} {b : Block} {c : Call} {next : c.Answer → DeployM Next} {r : c.Answer}
    {w : Server} (hs : Inv identity window s) (hprocess : s.processes i = .running b (.call c next))
    (hserved : Server.Served identity window i s.server c r w) :
    Inv identity window (s.proceed i w (.running b (next r)) (s.logs i ++ [⟨c, r⟩])) := by
  have hkeeps := hs.process i
  rw [hprocess] at hkeeps
  obtain ⟨hpermitted, hnext⟩ := Prog.Keeps.call hkeeps
  refine ⟨hserved.good, ?_, ?_, ?_⟩
  · intro n hn
    rcases hserved.deleted n hn with hbefore | hnow
    · exact (hs.deleted n hbefore).later hserved.later
    · subst hnow
      exact Server.Dead.later hpermitted hserved.later
  · intro j
    unfold proceed
    dsimp only
    by_cases hj : j = i
    · subst hj
      rw [Function.update_self, Function.update_self]
      exact hnext r ⟨w, s.logs j ++ [⟨c, r⟩]⟩ ⟨⟨hserved.later, List.prefix_append _ _⟩,
        List.mem_append_right _ List.mem_cons_self, hserved.told⟩
    · rw [Function.update_of_ne hj, Function.update_of_ne hj]
      exact (hs.process j).onward hserved.later (hserved.mine j (Ne.symm hj))
  · intro j p rest hrunning
    unfold proceed at hrunning ⊢
    dsimp only at hrunning ⊢
    by_cases hj : j = i
    · subst hj
      rw [Function.update_self] at hrunning ⊢
      cases hrunning
      exact (hs.planned j p _ hprocess).mono (List.prefix_append _ _)
    · rw [Function.update_of_ne hj] at hrunning ⊢
      exact hs.planned j p rest hrunning

theorem later_tick {w : Server} (nanos : Nat) :
    w.Later identity window { w with clock := w.clock + nanos } where
  clock := by
    dsimp only
    omega
  kept := fun _ a ha => ⟨a, ha, rfl, id, fun _ => id⟩
  born := fun _ a _ ha hborn => .inl ⟨a, ha, hborn⟩
  pods := fun n pod _ hpod hours href => .inl ⟨n, pod, hpod, hours, href, id⟩

theorem good_tick {w : Server} (nanos : Nat) (hgood : w.Good identity) :
    ({ w with clock := w.clock + nanos } : Server).Good identity where
  named := hgood.named
  ours := hgood.ours
  secrets := hgood.secrets
  born := by
    intro n a born ha hborn
    have hbefore := hgood.born n a born ha hborn
    dsimp only
    omega

theorem inv_step {move : DeploysMove} (hs : Inv identity window s)
    (hpromised : Promised identity window s move) (hprompt : Prompt (slack window) move)
    (hstep : (machine identity cfg desired).step s move = some s') : Inv identity window s' := by
  cases move with
  | tick nanos =>
    cases hstep
    exact hs.environment (good_tick nanos hs.good) (later_tick nanos) rfl rfl
  | report name pod =>
    simp only [machine, step] at hstep
    split at hstep
    · cases hstep
    rename_i old hold
    split at hstep
    · rename_i hreports
      cases hstep
      obtain ⟨hgood, hlater⟩ := Server.pods_report hs.good hold hreports
      exact hs.environment hgood hlater rfl rfl
    · cases hstep
  | vanish name =>
    cases hstep
    obtain ⟨hgood, hlater⟩ := Server.pods_erase name hs.good
    exact hs.environment hgood hlater rfl rfl
  | foreign name pod =>
    simp only [machine, step] at hstep
    split at hstep
    · rename_i hfree
      cases hstep
      obtain ⟨hgood, hlater⟩ := Server.pods_foreign hs.good hfree.2.1 hfree.2.2
      exact hs.environment hgood hlater rfl rfl
    · cases hstep
  | call i reply =>
    simp only [machine, step] at hstep
    split at hstep
    · cases hstep
    · rename_i b b' hprocess
      cases hstep
      exact inv_begins cfg desired hs hprocess
    · rename_i b result hprocess
      cases hstep
      exact inv_begins cfg desired hs hprocess
    · rename_i b c next hprocess
      obtain ⟨⟨r, w⟩, hserve, rfl⟩ := Option.map_eq_some_iff.mp hstep
      have hkeeps := hs.process i
      rw [hprocess] at hkeeps
      dsimp only [Promised] at hpromised
      rw [hprocess] at hpromised
      refine inv_call hs hprocess
        (Server.served_of_serve hs.good (Prog.Keeps.call hkeeps).1 ?_ ?_ hprompt hserve)
      · rintro rfl
        exact hpromised
      · rintro pod name a born rfl href ha hborn
        exact hpromised name a born href ha hborn

theorem good_start : (start cfg).server.Good identity := by
  refine ⟨?_, ?_, ?_, ?_⟩
  · intro n pod hpod
    cases hpod
  · intro n pod hpod
    cases hpod
  · intro n secret hsecret
    cases hsecret
  · intro n a born ha
    cases ha

theorem inv_start : Inv identity window (start cfg) where
  good := good_start
  deleted := fun _ hn => absurd hn List.not_mem_nil
  process := fun _ => guard_start
  planned := by
    intro i p rest hrunning
    obtain ⟨hblock, _⟩ := Process.running.inj hrunning
    cases hblock

/-- An entry of a record was answered by the server in a state of the run. -/
theorem answered {moves : List DeploysMove} {t : Deploys}
    (hrun : (machine identity cfg desired).run s moves = some t)
    (i : Nat) (e : Event) (he : e ∈ t.logs i) : e ∈ s.logs i ∨
      ∃ before u reply w, before <+: moves ∧ (machine identity cfg desired).run s before = some u ∧
        u.server.serve identity i reply e.call = some (e.answer, w) := by
  induction moves generalizing s with
  | nil =>
    rw [← Option.some.inj hrun] at he
    exact .inl he
  | cons move moves ih =>
    obtain ⟨s', hstep, hrest⟩ := Machine.run_cons.mp hrun
    rcases ih hrest with hbefore | ⟨before, u, reply, w, hprefix, hu, hserve⟩
    · -- the first move wrote the entry, or it was there
      have hsame : s'.logs = s.logs → e ∈ s.logs i := by
        intro hlogs
        rw [hlogs] at hbefore
        exact hbefore
      cases move with
      | call j reply =>
        simp only [machine, step] at hstep
        split at hstep
        · cases hstep
        · rw [← Option.some.inj hstep] at hsame
          exact .inl (hsame (Function.update_eq_self j s.logs))
        · rw [← Option.some.inj hstep] at hsame
          exact .inl (hsame (Function.update_eq_self j s.logs))
        · rename_i b c next hprocess
          obtain ⟨⟨r, w⟩, hserve, rfl⟩ := Option.map_eq_some_iff.mp hstep
          unfold proceed at hbefore
          dsimp only at hbefore
          by_cases hi : i = j
          · subst hi
            rw [Function.update_self] at hbefore
            rcases List.mem_append.mp hbefore with hold | hnew
            · exact .inl hold
            · rw [List.mem_singleton.mp hnew]
              exact .inr ⟨[], s, reply, w, List.nil_prefix, rfl, hserve⟩
          · rw [Function.update_of_ne hi] at hbefore
            exact .inl hbefore
      | tick nanos | vanish name =>
        rw [← Option.some.inj hstep] at hsame
        exact .inl (hsame rfl)
      | report name pod =>
        simp only [machine, step] at hstep
        split at hstep
        · cases hstep
        split at hstep
        · rw [← Option.some.inj hstep] at hsame
          exact .inl (hsame rfl)
        · cases hstep
      | foreign name pod =>
        simp only [machine, step] at hstep
        split at hstep
        · rw [← Option.some.inj hstep] at hsame
          exact .inl (hsame rfl)
        · cases hstep
    · exact .inr ⟨move :: before, u, reply, w, List.prefix_cons_inj move |>.mpr hprefix,
        Machine.run_cons.mpr ⟨s', hstep, hu⟩, hserve⟩

/-! ## The result -/

/-- **No deploy loses its Secret.** -/
structure NoSecretLost (identity : AgentIdentity) (window : Nat) (cfg : Nat → ProviderConfig)
    (desired : Nat → String) (moves : List DeploysMove) (s : Deploys) : Prop where
  /-- No pod of the agent that has not terminated names a deleted Secret, and none will. -/
  deleted : ∀ name ∈ s.server.deleted, s.server.Dead identity window name
  /-- A pass plans on the pods of one state and the Secrets of another. Where the first list is
  dated, it plans every Secret that is old by that date and that no pod of the agent named. -/
  planned : ∀ i p rest, s.processes i = .running (.collect p) rest →
    ∃ pods now secrets terminated early late u v, p = plan identity pods secrets terminated now ∧
      early <+: moves ∧
      (machine identity cfg desired).run (start cfg) early = some u ∧ late <+: moves ∧
      (machine identity cfg desired).run (start cfg) late = some v ∧
      ∀ t, now = some t → ∃ late : Nat, t = wholeSeconds (u.server.clock + late) ∧
        ∀ n secret a born, v.server.secrets.get n = some secret → v.server.attempts.get n = some a →
          a.born = some born → born + orphanSecretMinAgeSecs * nanosPerSec ≤ u.server.clock + late →
            (∀ m pod, u.server.pods.get m = some pod → pod.IsOurs identity →
              referencedSecret pod ≠ some n) → n ∈ p.secrets

theorem secretIsOurs_build (identity : AgentIdentity) (generation : String) (created : Option Int) :
    secretIsOurs { buildSecret identity generation with creationTimestamp := created } identity =
      true := by
  have hmanaged : identity.labels.lookup labelManagedBy = some managedBy := by
    unfold AgentIdentity.labels
    rw [Finmap.lookup_insert_of_ne _ (by decide), Finmap.lookup_insert]
  have hversion : identity.labels.lookup labelBindingVersion = some bindingVersion := by
    unfold AgentIdentity.labels
    rw [Finmap.lookup_insert]
  unfold secretIsOurs hasMarker annotationMatches buildSecret
  dsimp only
  rw [hmanaged, hversion, Option.bind_some, Finmap.lookup_singleton_eq]
  simp

theorem answer_ok {α : Type} {reply : Reply} {a b : α}
    (h : Server.answer reply a = .ok b) : a = b := by
  unfold Server.answer at h
  split at h
  · cases h
  · exact Except.ok.inj h

theorem wholeSeconds_of_old {clock born : Int}
    (h : born + orphanSecretMinAgeSecs * nanosPerSec ≤ clock) :
    orphanSecretMinAgeSecs ≤ wholeSeconds clock - wholeSeconds born := by
  have hmono := wholeSeconds_mono h
  unfold wholeSeconds at hmono ⊢
  rw [Int.add_mul_ediv_right _ _ (by decide)] at hmono
  omega

/-- **No deploy loses its Secret**, in any order of the calls of any number of deploys, while each
names its Secret anew and creates its pod before the Secret can look old to anyone. -/
theorem no_secret_lost (identity : AgentIdentity) (window : Nat) (cfg : Nat → ProviderConfig)
    (desired : Nat → String) (moves : List DeploysMove) (s : Deploys)
    (hpromised : (machine identity cfg desired).Always (Promised identity window) (start cfg) moves)
    (hprompt : ∀ move ∈ moves, Prompt (slack window) move)
    (hrun : (machine identity cfg desired).run (start cfg) moves = some s) :
    NoSecretLost identity window cfg desired moves s := by
  have hboth := hpromised.and (Machine.always_of_forall fun move hmove _ => hprompt move hmove)
  have hinv : Inv identity window s :=
    Machine.invariant (fun _ _ _ hs hp hstep => inv_step hs hp.1 hp.2 hstep) inv_start hboth hrun
  refine ⟨hinv.deleted, ?_⟩
  intro i p rest hprocess
  obtain ⟨pods, now, secrets, terminated, hpods, hsecrets, hp⟩ := hinv.planned i p rest hprocess
  have hempty : ∀ e, e ∉ (start cfg).logs i := fun e => List.not_mem_nil
  obtain ⟨early, u, reply, w, hearly, hu, hlisted⟩ :=
    (answered hrun i _ hpods).resolve_left (hempty _)
  obtain ⟨late, v, reply', w', hlate, hv, hlisted'⟩ :=
    (answered hrun i _ hsecrets).resolve_left (hempty _)
  refine ⟨pods, now, secrets, terminated, early, late, u, v, hp, hearly, hu, hlate, hv, ?_⟩
  dsimp only [Server.serve] at hlisted hlisted'
  split at hlisted
  · rename_i hperm
    split at hlisted'
    · rename_i hperm'
      have hanswer := answer_ok (Prod.mk.inj (Option.some.inj hlisted)).1
      have hanswer' := answer_ok (Prod.mk.inj (Option.some.inj hlisted')).1
      obtain ⟨hsame, hnow⟩ := Prod.mk.inj hanswer
      rw [hsame] at hperm
      rw [hanswer'] at hperm'
      -- the invariant where the Secrets were listed
      have hgood : v.server.Good identity := by
        obtain ⟨after, rfl⟩ := hlate
        have hbefore := ((Machine.always_append hv).mp hboth).1
        have hinv' : Inv identity window v :=
          Machine.invariant (fun _ _ _ hs hp hstep =>
            inv_step hs hp.1 hp.2 hstep) inv_start hbefore hv
        exact hinv'.good
      intro t ht
      rw [ht] at hnow
      obtain ⟨delay, _, hdate⟩ := Option.map_eq_some_iff.mp hnow
      refine ⟨delay, hdate.symm, ?_⟩
      intro n secret a born hsecret ha hborn hage hfree
      obtain ⟨generation, b, born', rfl, rfl, hb, hborn'⟩ := hgood.secrets n secret hsecret
      obtain rfl : a = b := Option.some.inj (ha.symm.trans hb)
      obtain rfl : born = born' := Option.some.inj (hborn.symm.trans hborn')
      have hmem : { buildSecret identity generation with
          creationTimestamp := some (wholeSeconds born) } ∈ secrets :=
        hperm'.mem_iff.mpr (List.mem_filter.mpr
          ⟨OrderedMap.mem_values.mpr ⟨_, hsecret⟩, Server.selects_labels⟩)
      have hold := wholeSeconds_of_old hage
      rw [hdate] at hold
      rw [hp, ht]
      refine Server.plan_orphan hmem (secretIsOurs_build identity generation _) rfl rfl hold ?_
      intro pod hpod hours
      obtain ⟨m, hm⟩ := OrderedMap.mem_values.mp (List.mem_of_mem_filter (hperm.mem_iff.mp hpod))
      exact hfree m pod hm hours
    · cases hlisted'
  · cases hlisted

/-! ## A run -/

instance (w : Server) (window : Nat) (pod : Pod) :
    Decidable (∀ name a born, referencedSecret pod = some name →
    w.attempts.get name = some a → a.born = some born → w.clock < born + window) :=
  match href : referencedSecret pod with
  | none => isTrue fun _ _ _ hname => by cases hname
  | some s =>
    match ha : w.attempts.get s with
    | none => isTrue fun n _ _ hname hget => by
      rw [← Option.some.inj hname, ha] at hget
      cases hget
    | some a =>
      match hborn : a.born with
      | none => isTrue fun n b _ hname hget hb => by
        rw [← Option.some.inj hname, ha] at hget
        rw [← Option.some.inj hget, hborn] at hb
        cases hb
      | some born =>
        decidable_of_iff (w.clock < born + window)
          ⟨fun hyoung n b t hname hget hb => by
              rw [← Option.some.inj hname, ha] at hget
              rw [← Option.some.inj hget, hborn] at hb
              cases hb
              exact hyoung,
            fun hall => hall s a born rfl ha hborn⟩

instance (window : Nat) (s : Deploys) (move : DeploysMove) :
    Decidable (Promised DeployRun.exampleIdentity window s move) := by
  unfold Promised
  split
  · split
    · infer_instance
    · infer_instance
    · infer_instance
  · infer_instance

instance (delay : Int) (move : DeploysMove) : Decidable (Prompt delay move) := by
  unfold Prompt
  split
  · infer_instance
  · infer_instance

/-- An agent's deploys from four machines. -/
def exampleConfigs (_ : Nat) : ProviderConfig := DeployRun.exampleConfig

abbrev exampleMachine : Machine Deploys DeploysMove :=
  machine DeployRun.exampleIdentity exampleConfigs fun _ => "intent"

/-- `n` answers to deploy `i` that let its calls take effect. -/
def turns (n i : Nat) (generation : String) (pods : List Pod) (secrets : List Secret) :
    List DeploysMove :=
  List.replicate n (.call i ⟨none, false, pods, secrets, some 0, "uid-1", "1", false, 0,
    generation⟩)

def winner : Pod :=
  { buildPod DeployRun.exampleIdentity DeployRun.exampleConfig "intent" "00000000" with
    uid := some "uid-1", resourceVersion := some "1" }

def madeAt (t : Int) (generation : String) : Secret :=
  { buildSecret DeployRun.exampleIdentity generation with creationTimestamp := some t }

/-- The first deploy wins, the second drops its own Secret, and the third stops before it creates
its pod. When its Secret is old, the last deploy plans to delete it. -/
def contended : List DeploysMove :=
  [.tick 900000000] ++
    -- three deploys list nothing and find no pod
    turns 8 0 "" [] [] ++ turns 8 1 "" [] [] ++ turns 8 2 "" [] [] ++
    turns 3 0 "00000000" [] [] ++ turns 2 2 "00000002" [] [] ++
    turns 4 1 "00000001" [] [] ++ turns 3 1 "" [winner] [] ++ [.tick 1200000000000] ++
    turns 5 3 "" [winner] [madeAt 0 "00000000", madeAt 0 "00000002"]

/-- The Secrets that a deploy plans to delete. -/
def plannedBy (s : Deploys) (i : Nat) : List String :=
  match s.processes i with
  | .running (.collect p) _ => p.secrets
  | _ => []

/-- Pods are promised within the deadline of one operation. -/
theorem no_secret_lost_contended :
    ∃ s, exampleMachine.run (start exampleConfigs) contended = some s ∧
      NoSecretLost DeployRun.exampleIdentity 600000000000 exampleConfigs (fun _ =>
        "intent") contended s ∧
      (s.server.deleted, s.plannedBy 3) = ([DeployRun.exampleIdentity.secretName "00000001"],
        [DeployRun.exampleIdentity.secretName "00000002"]) := by
  have hends : (exampleMachine.run (start exampleConfigs) contended).map (fun s =>
    (s.server.deleted, s.plannedBy 3))
      = some ([DeployRun.exampleIdentity.secretName "00000001"],
        [DeployRun.exampleIdentity.secretName "00000002"]) := by
    decide
  obtain ⟨s, hrun, hs⟩ := Option.map_eq_some_iff.mp hends
  exact ⟨s, hrun, no_secret_lost DeployRun.exampleIdentity 600000000000 exampleConfigs (fun _ =>
    "intent") contended s (by decide) (by decide) hrun, hs⟩

/-! ## A Secret that looks old too early -/

/-- The Secret is created at 0.9 s and stamped 0 s. At 1200.2 s the second deploy lists no pod and
reads 1200 s, so it deletes the Secret; at 1200.5 s, when the Secret is 1199.6 s old, the first
deploy creates the pod that names it. -/
def cutShort : List DeploysMove :=
  [.tick 900000000] ++ turns 8 0 "" [] [] ++ turns 2 0 "00000000" [] [] ++ [.tick 1199300000000] ++
    turns 6 1 "" [] [madeAt 0 "00000000"] ++ [.tick 300000000] ++ turns 1 0 "" [] []

/-- Twice the deadline is too long a promise, also where a list is dated when it is read. -/
theorem not_no_secret_lost :
    ∃ s, exampleMachine.Always (Promised DeployRun.exampleIdentity 1200000000000)
      (start exampleConfigs) cutShort ∧
      (∀ move ∈ cutShort, Prompt 0 move) ∧ exampleMachine.run
        (start exampleConfigs) cutShort = some s ∧
      ∃ name ∈ s.server.deleted, ¬ s.server.Spent DeployRun.exampleIdentity name := by
  have hends : (exampleMachine.run (start exampleConfigs) cutShort).map
      (fun s => (s.server.deleted, s.server.pods.get DeployRun.exampleIdentity.podName))
      = some ([DeployRun.exampleIdentity.secretName "00000000"], some winner) := by
    decide
  obtain ⟨s, hrun, hs⟩ := Option.map_eq_some_iff.mp hends
  obtain ⟨hdeleted, hpod⟩ := Prod.mk.inj hs
  refine ⟨s, by decide, by decide, hrun, _, by rw [hdeleted]; exact List.mem_cons_self,
    fun hspent => ?_⟩
  exact absurd (hspent _ winner hpod (by decide) (by decide)) (by decide)

end Deploys

end Pkzz.Kube
