import Pkzz.Kube.Server

/-!
# Secrets that no pod needs

A Secret is dead when no pod of the agent that still matters names it and none will: its attempt has
called its create, or its Secret is older than any create may be. A dead Secret stays dead whatever
the others do, so a plan may be made on two lists and carried out later: what it deletes was dead
when the pods were listed. Only the name of a Secret says which attempt it is of, so names must be
new.
-/

namespace Pkzz.Kube

open Pkzz.Lib

section Ghost

variable (identity : AgentIdentity) (window : Nat)

/-- Too old for a pod to be created with it. -/
def Server.Aged (w : Server) (a : Attempt) : Prop :=
  ∃ born, a.born = some born ∧ born + window ≤ w.clock

/-- The pods of the agent that name a Secret have terminated. -/
def Server.Spent (w : Server) (name : String) : Prop :=
  ∀ n pod, w.pods.get n = some pod → pod.IsOurs identity → referencedSecret pod = some name →
    pod.Terminated

/-- No pod of the agent needs the Secret, and none will. -/
def Server.Dead (w : Server) (name : String) : Prop :=
  w.Spent identity name ∧ ∃ a, w.attempts.get name = some a ∧ (a.closed = true ∨ w.Aged window a)

/-- What holds of the server in every run. -/
structure Server.Good (w : Server) : Prop where
  named : ∀ n pod, w.pods.get n = some pod → pod.name = some n
  /-- A pod of the agent has its one name, and its attempt is closed. -/
  ours : ∀ n pod, w.pods.get n = some pod → pod.IsOurs identity → n = identity.podName ∧
    pod.labels = some identity.labels ∧ ∃ name a, referencedSecret pod = some name ∧
      w.attempts.get name = some a ∧ a.closed = true
  secrets : ∀ n secret, w.secrets.get n = some secret →
    ∃ generation a born, n = identity.secretName generation ∧
    secret = { buildSecret identity generation with
      creationTimestamp := some (wholeSeconds born) } ∧ w.attempts.get n = some a ∧
      a.born = some born
  born : ∀ n a born, w.attempts.get n = some a → a.born = some born → born ≤ w.clock

/-- A pod of the agent was there before, or its attempt was open and young enough. -/
def Server.Known (w w' : Server) (pod : Pod) (name : String) : Prop :=
  (∃ n old, w.pods.get n = some old ∧ old.IsOurs identity ∧ referencedSecret old = some name ∧
    (old.Terminated → pod.Terminated)) ∨
  (∃ a born, w'.attempts.get name = some a ∧ a.born = some born ∧ w.clock < born + window ∧
    ∀ a, w.attempts.get name = some a → a.closed = false)

/-- What any step of anyone does to the server. -/
structure Server.Later (w w' : Server) : Prop where
  clock : w.clock ≤ w'.clock
  kept : ∀ name a, w.attempts.get name = some a → ∃ a', w'.attempts.get name = some a' ∧
    a'.owner = a.owner ∧
    (a.closed = true → a'.closed = true) ∧ ∀ born, a.born = some born → a'.born = some born
  born : ∀ name a born, w'.attempts.get name = some a → a.born = some born →
    (∃ a, w.attempts.get name = some a ∧ a.born = some born) ∨ w.clock ≤ born
  pods : ∀ n pod name, w'.pods.get n = some pod → pod.IsOurs identity →
    referencedSecret pod = some name → w.Known identity window w' pod name

/-- The attempts of deploy `i` are as they were. -/
def Server.Mine (i : Nat) (w w' : Server) : Prop :=
  ∀ name a, w.attempts.get name = some a → a.owner = i → w'.attempts.get name = some a

end Ghost

/-! ## Whole seconds -/

theorem wholeSeconds_mono {a b : Int} (h : a ≤ b) : wholeSeconds a ≤ wholeSeconds b :=
  Int.ediv_le_ediv (by decide) h

/-- A Secret that may yet get its pod does not look old by the date of a list. -/
theorem wholeSeconds_lt_of_young {window late : Nat} {clock born : Int}
    (hyoung : clock < born + window)
    (hlate : late ≤ Deploys.slack window) :
    wholeSeconds (clock + late) < wholeSeconds born + orphanSecretMinAgeSecs := by
  unfold Deploys.slack orphanSecretMinAgeSecs operationDeadlineSecs nanosPerSec at *
  unfold wholeSeconds nanosPerSec
  omega

/-- A list is dated before a Secret of its own time looks old. -/
theorem wholeSeconds_lt_of_prompt {window late : Nat} {clock : Int}
    (hlate : late ≤ Deploys.slack window) :
    wholeSeconds (clock + late) < wholeSeconds clock + orphanSecretMinAgeSecs := by
  unfold Deploys.slack orphanSecretMinAgeSecs operationDeadlineSecs nanosPerSec at *
  unfold wholeSeconds nanosPerSec
  omega

namespace Server

variable {identity : AgentIdentity} {window : Nat} {u v w w' : Server} {name : String}

theorem later_refl : w.Later identity window w where
  clock := le_refl _
  kept := fun _ a ha => ⟨a, ha, rfl, id, fun _ => id⟩
  born := fun _ a _ ha hborn => .inl ⟨a, ha, hborn⟩
  pods := fun n pod _ hpod hours href => .inl ⟨n, pod, hpod, hours, href, id⟩

theorem Later.trans (huv : u.Later identity window v) (hvw : v.Later identity window w) :
    u.Later identity window w where
  clock := le_trans huv.clock hvw.clock
  kept := by
    intro name a ha
    obtain ⟨b, hb, howner, hclosed, hborn⟩ := huv.kept name a ha
    obtain ⟨c, hc, howner', hclosed', hborn'⟩ := hvw.kept name b hb
    exact ⟨c, hc, howner'.trans howner, fun h => hclosed' (hclosed h), fun t ht =>
      hborn' t (hborn t ht)⟩
  born := by
    intro name c born hc hborn
    rcases hvw.born name c born hc hborn with ⟨b, hb, hborn'⟩ | hlate
    · exact huv.born name b born hb hborn'
    · exact .inr (le_trans huv.clock hlate)
  pods := by
    intro n pod name hpod hours href
    rcases hvw.pods n pod name hpod hours href with ⟨m, mid, hmid, hours', href', hterm⟩ |
      ⟨a, born, ha, hborn, hyoung, hopen⟩
    · rcases huv.pods m mid name hmid hours' href' with ⟨l, old, hold, hours'', href'', hterm'⟩ |
        ⟨a, born, ha, hborn, hyoung, hopen⟩
      · exact .inl ⟨l, old, hold, hours'', href'', fun h => hterm (hterm' h)⟩
      · obtain ⟨a', ha', _, _, hborn'⟩ := hvw.kept name a ha
        exact .inr ⟨a', born, ha', hborn' born hborn, hyoung, hopen⟩
    · refine .inr ⟨a, born, ha, hborn, lt_of_le_of_lt huv.clock hyoung, ?_⟩
      intro b hb
      obtain ⟨b', hb', _, hclosed, _⟩ := huv.kept name b hb
      -- an attempt that is open later was open before
      cases hcase : b.closed with
      | false => rfl
      | true => exact absurd (hclosed hcase) (by rw [hopen b' hb']; exact nofun)

/-- **A dead Secret stays dead.** -/
theorem Dead.later (hdead : w.Dead identity window name) (hlater : w.Later identity window w') :
    w'.Dead identity window name := by
  obtain ⟨hspent, a, ha, hover⟩ := hdead
  obtain ⟨a', ha', _, hclosed, hborn⟩ := hlater.kept name a ha
  refine ⟨?_, a', ha', ?_⟩
  · intro n pod hpod hours href
    rcases hlater.pods n pod name hpod hours href with ⟨m, old, hold, hours', href', hterm⟩ |
      ⟨b, born, hb, hborn', hyoung, hopen⟩
    · exact hterm (hspent m old hold hours' href')
    -- no pod is created with it
    exfalso
    rcases hover with hdone | ⟨c, hc, hold⟩
    · rw [hopen a ha] at hdone
      cases hdone
    have hsame : a' = b := Option.some.inj (ha'.symm.trans hb)
    have hboth : some c = some born := (hborn c hc).symm.trans (by rw [hsame]; exact hborn')
    rw [Option.some.inj hboth] at hold
    exact absurd hyoung (not_lt.mpr hold)
  · rcases hover with hdone | ⟨born, hb, hold⟩
    · exact .inl (hclosed hdone)
    · exact .inr ⟨born, hborn born hb, le_trans hold hlater.clock⟩

/-! ## Lists -/

/-- What a list of the pods says, then and later: a Secret that a terminated pod of the list names
is dead, and so is an old one that no other pod of the list names. -/
structure Listed (identity : AgentIdentity) (window : Nat) (w : Server) (pods : List Pod)
    (now : Option Int) : Prop where
  names : ∀ p ∈ pods, ∀ q ∈ pods, p.name = q.name → p = q
  terminated : ∀ pod ∈ pods, pod.IsOurs identity → pod.Terminated →
    ∀ name, referencedSecret pod = some name → w.Dead identity window name
  old : ∀ t, now = some t → t < wholeSeconds w.clock + orphanSecretMinAgeSecs ∧ ∀ name a born,
    w.attempts.get name = some a → a.born = some born →
      wholeSeconds born + orphanSecretMinAgeSecs ≤ t →
      (∀ pod ∈ pods, pod.IsOurs identity → referencedSecret pod = some name → pod.Terminated) →
        w.Dead identity window name

theorem Listed.later {pods : List Pod} {now : Option Int} (h : Listed identity window w pods now)
    (hlater : w.Later identity window w') : Listed identity window w' pods now where
  names := h.names
  terminated := fun pod hpod hours hterm name href =>
    (h.terminated pod hpod hours hterm name href).later hlater
  old := by
    intro t ht
    obtain ⟨hclock, hold⟩ := h.old t ht
    have hmono := wholeSeconds_mono hlater.clock
    refine ⟨by omega, ?_⟩
    intro name a born ha hborn hage hspent
    rcases hlater.born name a born ha hborn with ⟨b, hb, hborn'⟩ | hlate
    · exact (hold name b born hb hborn' hage hspent).later hlater
    · -- it was created after the list, so it is too young for the list's date
      have hyoung := wholeSeconds_mono hlate
      omega

theorem selects_labels : selects identity (some identity.labels) = true := by
  have hpubkey : identity.labels.lookup labelAgentPubkey = some identity.labelPubkey := by
    unfold AgentIdentity.labels
    rw [Finmap.lookup_insert_of_ne _ (by decide), Finmap.lookup_insert_of_ne _ (by decide)]
    exact Finmap.lookup_singleton_eq
  have hmanaged : identity.labels.lookup labelManagedBy = some managedBy := by
    unfold AgentIdentity.labels
    rw [Finmap.lookup_insert_of_ne _ (by decide), Finmap.lookup_insert]
  unfold selects
  dsimp only
  rw [hpubkey, hmanaged, beq_self_eq_true, beq_self_eq_true]
  rfl

theorem listed_of_perm {pods : List Pod} (hgood : w.Good identity)
    (hperm : pods.Perm (w.pods.values.filter fun p => selects identity p.labels))
    {dated : Option Nat} (hprompt : ∀ late, dated = some late → late ≤ Deploys.slack window) :
    Listed identity window w pods (dated.map fun late : Nat => wholeSeconds (w.clock + late)) := by
  have hmem : ∀ pod ∈ pods, ∃ n, w.pods.get n = some pod := by
    intro pod hpod
    exact OrderedMap.mem_values.mp (List.mem_of_mem_filter (hperm.mem_iff.mp hpod))
  have hall : ∀ n pod, w.pods.get n = some pod → pod.IsOurs identity → pod ∈ pods := by
    intro n pod hpod hours
    refine hperm.mem_iff.mpr (List.mem_filter.mpr ⟨OrderedMap.mem_values.mpr ⟨n, hpod⟩, ?_⟩)
    rw [(hgood.ours n pod hpod hours).2.1]
    exact selects_labels
  refine ⟨?_, ?_, ?_⟩
  · intro p hp q hq hname
    obtain ⟨n, hn⟩ := hmem p hp
    obtain ⟨m, hm⟩ := hmem q hq
    have hsame : some n = some m :=
      (hgood.named n p hn).symm.trans (hname.trans (hgood.named m q hm))
    rw [Option.some.inj hsame, hm] at hn
    exact (Option.some.inj hn).symm
  · intro pod hpod hours hterm name href
    obtain ⟨n, hn⟩ := hmem pod hpod
    obtain ⟨rfl, _, name', a, href', ha, hclosed⟩ := hgood.ours n pod hn hours
    obtain rfl : name = name' := Option.some.inj (href.symm.trans href')
    refine ⟨?_, a, ha, .inl hclosed⟩
    -- the agent has one pod
    intro m other hother hours' _
    obtain ⟨rfl, _⟩ := hgood.ours m other hother hours'
    rw [hn] at hother
    cases hother
    exact hterm
  · intro t ht
    obtain ⟨late, rfl, rfl⟩ := Option.map_eq_some_iff.mp ht
    have hlate := hprompt late rfl
    refine ⟨wholeSeconds_lt_of_prompt hlate, ?_⟩
    intro name a born ha hborn hage hspent
    refine ⟨?_, a, ha, .inr ⟨born, hborn, ?_⟩⟩
    · intro n pod hpod hours href
      exact hspent pod (hall n pod hpod hours) hours href
    · by_contra hyoung
      exact absurd hage (not_le.mpr (wholeSeconds_lt_of_young (not_le.mp hyoung) hlate))

/-! ## Plans -/

section Plans

variable {guarded planned : List String} {secret : Secret} {secrets : List Secret} {created t : Int}

/-- What the sweep deletes: a Secret of the agent that is old and not guarded. -/
structure Orphan (identity : AgentIdentity) (guarded : List String) (t : Int) (secret : Secret)
    (name : String) : Prop where
  ours : secretIsOurs secret identity = true
  named : secret.name = some name
  old : ∃ created, secret.creationTimestamp = some created ∧ orphanSecretMinAgeSecs ≤ t - created
  free : name ∉ guarded

theorem mem_sweep (h : name ∈ sweep identity guarded t planned secret) :
    name ∈ planned ∨ Orphan identity guarded t secret name := by
  unfold sweep at h
  split at h
  · rename_i hours
    split at h
    · rename_i n created hname hcreated
      split at h
      · exact .inl h
      rename_i hfree
      split at h
      · rename_i hold
        rcases List.mem_append.mp h with hbefore | hnow
        · exact .inl hbefore
        · obtain rfl : name = n := List.mem_singleton.mp hnow
          exact .inr ⟨hours, hname, ⟨created, hcreated, hold⟩, fun hmem => hfree (.inl hmem)⟩
      · exact .inl h
    · exact .inl h
  · exact .inl h

theorem subset_sweep (h : name ∈ planned) : name ∈ sweep identity guarded t planned secret := by
  unfold sweep
  split
  · split
    · split
      · exact h
      · split
        · exact List.mem_append_left _ h
        · exact h
    · exact h
  · exact h

theorem sweep_orphan (h : Orphan identity guarded t secret name) :
    name ∈ sweep identity guarded t planned secret := by
  obtain ⟨hours, hname, ⟨created, hcreated, hold⟩, hfree⟩ := h
  unfold sweep
  rw [if_pos hours, hname, hcreated]
  dsimp only
  split
  · rename_i hskip
    rcases hskip with hguarded | hplanned
    · exact absurd hguarded hfree
    · exact hplanned
  · exact List.mem_append_right _ List.mem_cons_self

theorem mem_sweeps (h : name ∈ secrets.foldl (sweep identity guarded t) planned) :
    name ∈ planned ∨ ∃ secret ∈ secrets, Orphan identity guarded t secret name := by
  induction secrets generalizing planned with
  | nil => exact .inl h
  | cons secret secrets ih =>
    rcases ih h with hswept | ⟨s, hs, horphan⟩
    · rcases mem_sweep hswept with hplanned | horphan
      · exact .inl hplanned
      · exact .inr ⟨secret, List.mem_cons_self, horphan⟩
    · exact .inr ⟨s, List.mem_cons_of_mem _ hs, horphan⟩

theorem subset_sweeps (h : name ∈ planned) :
    name ∈ secrets.foldl (sweep identity guarded t) planned := by
  induction secrets generalizing planned with
  | nil => exact h
  | cons secret secrets ih => exact ih (subset_sweep h)

theorem sweeps_orphan (hmem : secret ∈ secrets) (h : Orphan identity guarded t secret name) :
    name ∈ secrets.foldl (sweep identity guarded t) planned := by
  induction secrets generalizing planned with
  | nil => exact absurd hmem List.not_mem_nil
  | cons s secrets ih =>
    rcases List.mem_cons.mp hmem with rfl | hrest
    · rw [List.foldl_cons]
      exact subset_sweeps (sweep_orphan h)
    · exact ih hrest

variable {pods : List Pod} {terminated : Pod → Bool} {now : Option Int}

theorem mem_oursOf {pod : Pod} : pod ∈ oursOf identity pods ↔ pod ∈ pods ∧ pod.IsOurs identity :=
  List.mem_filter

/-- A pod of the agent that guards nothing is one of the doomed. -/
theorem doomed_of_unguarded {pod : Pod} (hlisted : Listed identity window w pods now)
    (hpod : pod ∈ oursOf identity pods) (href : referencedSecret pod = some name)
    (hfree : name ∉ protectedBy (oursOf identity pods)
      (((oursOf identity pods).filter terminated).filterMap (·.name))) :
    terminated pod = true := by
  obtain ⟨v, hverify⟩ := Option.isSome_iff_exists.mp (mem_oursOf.mp hpod).2
  have hname := (verify_fence hverify).1
  have hdoomed : v.name ∈ ((oursOf identity pods).filter terminated).filterMap (·.name) := by
    by_contra hstays
    refine hfree (List.mem_filterMap.mpr ⟨pod, List.mem_filter.mpr ⟨hpod, ?_⟩, href⟩)
    rw [hname, Option.getD_some]
    simpa using hstays
  obtain ⟨q, hq, hsame⟩ := List.mem_filterMap.mp hdoomed
  obtain ⟨hqours, hqterm⟩ := List.mem_filter.mp hq
  -- the doomed pod of this name is the pod
  obtain rfl : q = pod :=
    hlisted.names q (mem_oursOf.mp hqours).1 pod (mem_oursOf.mp hpod).1 (hsame.trans hname.symm)
  exact hqterm

/-- **A plan deletes dead Secrets only.** -/
theorem dead_of_plan (hlisted : Listed identity window w pods now)
    (hsecrets : ∀ secret ∈ secrets, ∀ n created, secret.name = some n →
      secret.creationTimestamp = some created →
      ∃ a born, w.attempts.get n = some a ∧ a.born = some born ∧ wholeSeconds born = created)
    (hterm : ∀ pod ∈ pods, terminated pod = true → pod.Terminated) :
    ∀ name ∈ (plan identity pods secrets terminated now).secrets, w.Dead identity window name := by
  intro name hname
  have hdoomed : name ∈ ((oursOf identity pods).filter terminated).filterMap referencedSecret →
      w.Dead identity window name := by
    intro hmem
    obtain ⟨pod, hpod, href⟩ := List.mem_filterMap.mp hmem
    obtain ⟨hours, hyes⟩ := List.mem_filter.mp hpod
    obtain ⟨hin, hours'⟩ := mem_oursOf.mp hours
    exact hlisted.terminated pod hin hours' (hterm pod hin hyes) name href
  unfold plan at hname
  cases now with
  | none => exact hdoomed hname
  | some t =>
    rcases mem_sweeps hname with hplanned | ⟨secret, hsecret, horphan⟩
    · exact hdoomed hplanned
    obtain ⟨created, hcreated, hage⟩ := horphan.old
    obtain ⟨a, born, ha, hborn, hseconds⟩ :=
      hsecrets secret hsecret name created horphan.named hcreated
    refine (hlisted.old t rfl).2 name a born ha hborn (by omega) ?_
    intro pod hpod hours href
    exact hterm pod hpod (doomed_of_unguarded hlisted (mem_oursOf.mpr ⟨hpod,
      hours⟩) href horphan.free)

/-- **A plan leaves no old Secret behind** that no pod names. -/
theorem plan_orphan (hmem : secret ∈ secrets) (hours : secretIsOurs secret identity = true)
    (hname : secret.name = some name) (hcreated : secret.creationTimestamp = some created)
    (hage : orphanSecretMinAgeSecs ≤ t - created)
    (hfree : ∀ pod ∈ pods, pod.IsOurs identity → referencedSecret pod ≠ some name) :
    name ∈ (plan identity pods secrets terminated (some t)).secrets := by
  refine sweeps_orphan hmem ⟨hours, hname, ⟨created, hcreated, hage⟩, ?_⟩
  intro hguarded
  obtain ⟨pod, hpod, href⟩ := List.mem_filterMap.mp hguarded
  obtain ⟨hin, hours'⟩ := mem_oursOf.mp (List.mem_filter.mp hpod).1
  exact hfree pod hin hours' href

end Plans

end Server

end Pkzz.Kube
