import Pkzz.Kube.DeadSecrets

/-!
# What deploys owe one another

Deploys of one agent run against one server, in any order of their calls. Each keeps to a protocol
with the others: what it deletes is dead when it deletes it, and what it creates belongs to an
attempt of its own. The others only move the server on, and leave its attempts alone. So a deploy
may decide on lists that are out of date by the time it acts.
-/

namespace Pkzz.Kube

open Pkzz.Lib

/-- What a deploy goes by: the server, and the record of its own calls. -/
structure View where
  server : Server
  log : List Event

section Guard

variable (identity : AgentIdentity) (window : Nat)

/-- The server moves on, and the record grows. -/
structure View.Leads (u v : View) : Prop where
  later : u.server.Later identity window v.server
  log : u.log <+: v.log

/-- What has to hold where deploy `i` makes a call. -/
def Permitted (i : Nat) (w : Server) : Call → Prop
  | .deleteSecret name => w.Dead identity window name
  | .createSecret secret => ∃ generation, secret = buildSecret identity generation ∧
      w.attempts.get (identity.secretName generation) = some ⟨i, none, false⟩
  | .createPod pod => pod.name = some identity.podName ∧ pod.labels = some identity.labels ∧
      ∃ name born, referencedSecret pod = some name ∧
        w.attempts.get name = some ⟨i, some born, false⟩
  | _ => True

/-- What an answer says about the server. -/
def Says (i : Nat) (w : Server) : (c : Call) → c.Answer → Prop
  | .listPods _, .ok (pods, now) => Server.Listed identity window w pods now
  | .listSecrets _, .ok secrets => ∀ secret ∈ secrets, ∀ n created, secret.name = some n →
      secret.creationTimestamp = some created →
        ∃ a born, w.attempts.get n = some a ∧ a.born = some born ∧ wholeSeconds born = created
  | .newGeneration, generation =>
      w.attempts.get (identity.secretName generation) = some ⟨i, none, false⟩
  | .createSecret secret, .ok _ => ∀ name, secret.name = some name →
      ∃ born, w.attempts.get name = some ⟨i, some born, false⟩
  | .createPod pod, .ok .alreadyExists => ∀ name, referencedSecret pod = some name →
      w.Dead identity window name
  | _, _ => True

/-- A plan was made on two lists of the record. -/
def MadeOn (log : List Event) (p : GcPlan) : Prop :=
  ∃ pods now secrets terminated, ⟨.listPods identity.selector, .ok (pods, now)⟩ ∈ log ∧
    ⟨.listSecrets identity.selector, .ok secrets⟩ ∈ log ∧
      p = plan identity pods secrets terminated now

/-- What holds where a block begins. -/
def Ready (v : View) : Block → Prop
  | .collect plan => (∀ name ∈ plan.secrets, v.server.Dead identity window name) ∧
      MadeOn identity v.log plan
  | .adopt own => v.server.Dead identity window own
  | _ => True

def ReadyNext (v : View) : Next → Prop
  | .inl b => Ready identity window v b
  | .inr _ => True

/-- The calls that need no permission. -/
def Call.harmless : Call → Bool
  | .createSecret _ | .createPod _ | .deleteSecret _ => false
  | _ => true

theorem View.leads_refl (u : View) : u.Leads identity window u :=
  ⟨Server.later_refl, List.prefix_rfl⟩

theorem View.leads_trans (u v w : View) (huv : u.Leads identity window v)
    (hvw : v.Leads identity window w) : u.Leads identity window w :=
  ⟨huv.later.trans hvw.later, huv.log.trans hvw.log⟩

/-- **What deploy `i` owes the others.** They leave its attempts alone. -/
def guard (i : Nat) : Protocol Call Call.Answer View where
  onward u v := u.Leads identity window v ∧ Server.Mine i u.server v.server
  allowed u c := Permitted identity window i u.server c
  answers u c r v := u.Leads identity window v ∧ ⟨c, r⟩ ∈ v.log ∧
    Says identity window i v.server c r
  onward_refl u := ⟨u.leads_refl identity window, fun _ _ ha _ => ha⟩
  onward_trans := by
    intro u v w huv hvw
    refine ⟨View.leads_trans identity window u v w huv.1 hvw.1, ?_⟩
    intro name a ha howner
    exact hvw.2 name a (huv.2 name a ha howner) howner

end Guard

variable {identity : AgentIdentity} {window i : Nat} {u v : View} {α β : Type}

/-! ## Rules -/

theorem permitted_of_harmless {w : Server} {c : Call} (h : c.harmless = true) :
    Permitted identity window i w c := by
  cases c with
  | createSecret secret => cases h
  | createPod pod => cases h
  | deleteSecret name => cases h
  | _ => trivial

/-- A call that needs no permission. -/
theorem guard_quiet {c : Call} {f : c.Answer → DeployM β} {post : View → β → Prop}
    (hc : c.harmless = true)
    (h : ∀ r v, u.Leads identity window v → ⟨c, r⟩ ∈ v.log → Says identity window i v.server c r →
      Prog.Keeps (guard identity window i) (f r) post v) :
    Prog.Keeps (guard identity window i) (Prog.ask c >>= f) post u := by
  refine Prog.keeps_ask fun v hv => ⟨permitted_of_harmless hc, fun r w hw => ?_⟩
  exact h r w (View.leads_trans identity window u v w hv.1 hw.1) hw.2.1 hw.2.2

theorem guard_pure {a : α} {post : View → α → Prop}
    (h : ∀ v, u.Leads identity window v → post v a) :
    Prog.Keeps (guard identity window i) (pure a) post u :=
  Prog.keeps_pure fun v hv => h v hv.1

/-- A piece of harmless calls. -/
abbrev Harmless (q : α → Prop) (t : DeployM α) : Prop := Prog.Calls (fun c => c.harmless = true) q t

theorem harmless_ask {c : Call} (hc : c.harmless = true) :
    Harmless (fun _ => True) (Prog.ask c : DeployM c.Answer) :=
  Prog.calls_ask hc

theorem guard_harmless {q : α → Prop} {t : DeployM α} {f : α → DeployM β} {post : View → β → Prop}
    (ht : Harmless q t)
    (h : ∀ a v, u.Leads identity window v → q a →
      Prog.Keeps (guard identity window i) (f a) post v) :
    Prog.Keeps (guard identity window i) (t >>= f) post u := by
  refine Prog.keeps_bind
    (Prog.Keeps.mono (ht.keeps (View.leads_trans identity window) (fun _ _ hv => hv.1)
    (fun _ _ _ _ _ hv => hv.1) (fun _ _ hc => permitted_of_harmless hc)) ?_)
  intro v a hv
  exact h a v hv.1 hv.2

theorem MadeOn.mono {log log' : List Event} {p : GcPlan} (h : MadeOn identity log p)
    (hlog : log <+: log') : MadeOn identity log' p := by
  obtain ⟨pods, now, secrets, terminated, hpods, hsecrets, heq⟩ := h
  exact ⟨pods, now, secrets, terminated, hlog.subset hpods, hlog.subset hsecrets, heq⟩

/-! ## Reads -/

theorem harmless_settle (pod : Pod) :
    Harmless (fun result => result = .ok .terminated → pod.Terminated) (settle pod) := by
  unfold settle
  split
  · rename_i startup hdecode
    refine Prog.calls_pure ?_
    intro hterm
    unfold Pod.Terminated
    rw [hdecode, Except.ok.inj hterm]
  · refine Prog.calls_bind (harmless_ask rfl) ?_
    intro r _
    cases r with
    | error e => exact Prog.calls_pure nofun
    | ok found =>
      cases found with
      | true => exact Prog.calls_pure (by simp)
      | false => exact Prog.calls_pure nofun

/-- The names of terminated pods. -/
def TerminatedOf (pods : List Pod) (result : Except String (List String)) : Prop :=
  ∀ names, result = .ok names → ∀ n ∈ names, ∃ pod ∈ pods, pod.name = some n ∧ pod.Terminated

theorem harmless_settleAll (pods : List Pod) : Harmless (TerminatedOf pods) (settleAll pods) := by
  induction pods with
  | nil =>
    refine Prog.calls_pure ?_
    intro names hnames n hn
    rw [← Except.ok.inj hnames] at hn
    exact absurd hn List.not_mem_nil
  | cons pod pods ih =>
    rw [settleAll]
    refine Prog.calls_bind (harmless_settle pod) ?_
    intro result hsettled
    cases result with
    | error e => exact Prog.calls_pure fun _ hnames => by cases hnames
    | ok startup =>
      refine Prog.calls_bind ih ?_
      intro result hall
      cases result with
      | error e => exact Prog.calls_pure fun _ hnames => by cases hnames
      | ok names =>
        refine Prog.calls_pure ?_
        intro names' hnames n hn
        have hrest : n ∈ names → ∃ q ∈ pod :: pods, q.name = some n ∧ q.Terminated := by
          intro hmem
          obtain ⟨q, hq, hname, hterm⟩ := hall names rfl n hmem
          exact ⟨q, List.mem_cons_of_mem _ hq, hname, hterm⟩
        rw [← Except.ok.inj hnames] at hn
        split at hn
        · rename_i hstartup
          rcases List.mem_append.mp hn with hhead | htail
          · exact ⟨pod, List.mem_cons_self, Option.mem_toList.mp hhead, hsettled (by rw [hstartup])⟩
          · exact hrest htail
        · exact hrest hn

theorem harmless_observePod : Harmless (fun _ => True) (observePod identity) := by
  unfold observePod
  refine Prog.calls_bind (harmless_ask rfl) ?_
  intro r _
  cases r with
  | error e => exact Prog.calls_pure trivial
  | ok read =>
    cases read with
    | none => exact Prog.calls_pure trivial
    | some pod =>
      refine Prog.calls_bind (harmless_settle pod) ?_
      intro result _
      cases result with
      | error e => exact Prog.calls_pure trivial
      | ok startup => exact Prog.calls_pure trivial

theorem harmless_latestCondition : Harmless (fun _ => True) (latestCondition identity) := by
  unfold latestCondition
  refine Prog.calls_bind (harmless_ask rfl) ?_
  intro r _
  cases r with
  | error e => exact Prog.calls_pure trivial
  | ok read =>
    cases read with
    | none => exact Prog.calls_pure trivial
    | some pod => exact Prog.calls_pure trivial

theorem harmless_collectPods (names : List String) :
    Harmless (fun _ => True) (collectPods names) := by
  induction names with
  | nil => exact Prog.calls_pure trivial
  | cons name names ih =>
    rw [collectPods]
    refine Prog.calls_bind (harmless_ask rfl) ?_
    intro r _
    cases r with
    | error e => exact Prog.calls_pure trivial
    | ok read =>
      cases read with
      | none => exact ih
      | some pod =>
        dsimp only
        split
        · refine Prog.calls_bind (harmless_settle pod) ?_
          intro result _
          cases result with
          | error e => exact Prog.calls_pure trivial
          | ok startup =>
            dsimp only
            split
            · exact Prog.calls_bind (harmless_ask rfl) fun _ _ => ih
            · exact ih
        · exact ih

/-! ## The blocks -/

variable {cfg : ProviderConfig} {desired : String}

theorem guard_failed (e : String) :
    Prog.Keeps (guard identity window i) (failed e) (ReadyNext identity window) u :=
  guard_pure fun _ _ => trivial

theorem guard_start :
    Prog.Keeps (guard identity window i) (startBlock cfg) (ReadyNext identity window) u := by
  unfold startBlock
  refine guard_quiet rfl fun r v _ _ _ => ?_
  cases r with
  | error e => exact guard_failed e
  | ok _ => exact guard_pure fun _ _ => trivial

theorem guard_preflight :
    Prog.Keeps (guard identity window i) (preflightBlock identity)
    (ReadyNext identity window) u := by
  unfold preflightBlock
  have hskip : ∀ u, Prog.Keeps (guard identity window i) (goTo (.turn false))
      (ReadyNext identity window) u :=
    fun u => guard_pure fun _ _ => trivial
  refine guard_quiet rfl fun r v _ hpods hlisted => ?_
  cases r with
  | error e => exact hskip v
  | ok listed =>
    obtain ⟨pods, now⟩ := listed
    refine guard_quiet rfl fun r w hvw hsecrets hborn => ?_
    cases r with
    | error e => exact hskip w
    | ok secrets =>
      refine guard_harmless (harmless_settleAll pods) fun result x hwx hterm => ?_
      cases result with
      | error e => exact hskip x
      | ok names =>
        refine guard_pure fun y hxy => ?_
        have hwy := View.leads_trans identity window w x y hwx hxy
        have hvy := View.leads_trans identity window v w y hvw hwy
        have hlisted' : Server.Listed identity window y.server pods now :=
          Server.Listed.later hlisted hvy.later
        refine ⟨Server.dead_of_plan hlisted' ?_ ?_, pods, now, secrets, _, hvy.log.subset hpods,
          hwy.log.subset hsecrets, rfl⟩
        · -- a listed Secret has its attempt
          intro secret hsecret n created hname hcreated
          obtain ⟨a, born, ha, haborn, hseconds⟩ := hborn secret hsecret n created hname hcreated
          obtain ⟨a', ha', _, _, hkept⟩ := hwy.later.kept n a ha
          exact ⟨a', born, ha', hkept born haborn, hseconds⟩
        · intro pod hpod hyes
          split at hyes
          · rename_i n hname
            obtain ⟨q, hq, hsame, hdone⟩ := hterm names rfl n (by simpa using hyes)
            rw [hlisted'.names pod hpod q hq (hname.trans hsame.symm)]
            exact hdone
          · cases hyes

theorem guard_collectSecrets {names : List String}
    (hdead : ∀ name ∈ names, u.server.Dead identity window name) :
    Prog.Keeps (guard identity window i) (collectSecrets names) (fun _ _ => True) u := by
  induction names generalizing u with
  | nil => exact guard_pure fun _ _ => trivial
  | cons name names ih =>
    rw [collectSecrets]
    refine Prog.keeps_ask fun v hv =>
      ⟨(hdead name List.mem_cons_self).later hv.1.later, fun r w hw => ih ?_⟩
    intro n hn
    exact (hdead n (List.mem_cons_of_mem _ hn)).later (hv.1.later.trans hw.1.later)

theorem guard_collect {plan : GcPlan}
    (hdead : ∀ name ∈ plan.secrets, u.server.Dead identity window name) :
    Prog.Keeps (guard identity window i) (collectBlock plan) (ReadyNext identity window) u := by
  unfold collectBlock
  refine guard_harmless (harmless_collectPods plan.pods) fun whole v hv _ => ?_
  split
  · refine Prog.keeps_bind
      (Prog.Keeps.mono (guard_collectSecrets fun n hn => (hdead n hn).later hv.later) ?_)
    exact fun _ _ _ => guard_pure fun _ _ => trivial
  · exact guard_pure fun _ _ => trivial

/-- An attempt: nobody else touches it between its three calls. -/
theorem guard_createAttempt :
    Prog.Keeps (guard identity window i) (createAttempt identity cfg desired)
      (ReadyNext identity window) u := by
  unfold createAttempt
  refine guard_quiet rfl fun generation v _ _ hminted => ?_
  refine Prog.keeps_ask fun w hw => ⟨⟨generation, rfl, hw.2 _ _ hminted rfl⟩, fun r x hx => ?_⟩
  cases r with
  | error e => exact guard_failed e
  | ok _ =>
    obtain ⟨born, hborn⟩ := hx.2.2 (identity.secretName generation) rfl
    refine Prog.keeps_ask fun y hy =>
      ⟨⟨rfl, rfl, _, born, rfl, hy.2 _ _ hborn rfl⟩, fun r z hz => ?_⟩
    cases r with
    | error e => exact guard_failed e
    | ok outcome =>
      cases outcome with
      | created => exact guard_quiet rfl fun _ _ _ _ _ => guard_pure fun _ _ => trivial
      | alreadyExists =>
        have hdead : z.server.Dead identity window (identity.secretName generation) := hz.2.2 _ rfl
        exact guard_pure fun _ hlead => hdead.later hlead.later

theorem guard_turn {created : Bool} :
    Prog.Keeps (guard identity window i) (turnBlock identity cfg desired created)
      (ReadyNext identity window) u := by
  unfold turnBlock
  refine guard_quiet rfl fun spent v _ _ _ => ?_
  split
  · exact guard_pure fun _ _ => trivial
  refine guard_harmless harmless_observePod fun result w _ _ => ?_
  cases result with
  | error e => exact guard_failed e
  | ok observed =>
    dsimp only
    split
    · exact guard_pure fun _ _ => trivial
    · exact guard_quiet rfl fun _ _ _ _ _ => guard_pure fun _ _ => trivial
    · exact guard_failed _
    · exact guard_pure fun _ _ => trivial
    · split
      · exact guard_pure fun _ _ => trivial
      · refine guard_quiet rfl fun r x _ _ _ => ?_
        cases r with
        | error e => exact guard_failed e
        | ok outcome =>
          cases outcome with
          | accepted => exact guard_pure fun _ _ => trivial
          | notFound => exact guard_pure fun _ _ => trivial
          | preconditionFailed =>
            exact guard_quiet rfl fun _ _ _ _ _ => guard_pure fun _ _ => trivial
    · exact guard_createAttempt

theorem guard_awaiting {name : String} {created : Bool} :
    Prog.Keeps (guard identity window i) (awaitingBlock name created)
      (ReadyNext identity window) u := by
  unfold awaitingBlock
  refine guard_quiet rfl fun spent v _ _ _ => ?_
  split
  · exact guard_failed _
  refine guard_quiet rfl fun r w _ _ _ => ?_
  cases r with
  | error e => exact guard_failed e
  | ok read =>
    cases read with
    | none => exact guard_pure fun _ _ => trivial
    | some pod => exact guard_quiet rfl fun _ _ _ _ _ => guard_pure fun _ _ => trivial

/-- The Secret of an attempt that lost is dead before the pods are listed. -/
theorem guard_dropOwnSecret {own : String} (hdead : u.server.Dead identity window own) :
    Prog.Keeps (guard identity window i) (dropOwnSecret identity own) (fun _ _ => True) u := by
  unfold dropOwnSecret secretIsReferenced
  refine Prog.keeps_bind (guard_quiet rfl fun r v hv _ _ => ?_)
  cases r with
  | error e => exact guard_pure fun _ _ => guard_pure fun _ _ => trivial
  | ok listed =>
    refine guard_pure fun w hw => ?_
    split
    · refine Prog.keeps_ask fun x hx => ⟨?_, fun _ _ _ => guard_pure fun _ _ => trivial⟩
      exact hdead.later (hv.later.trans (hw.later.trans hx.1.later))
    · exact guard_pure fun _ _ => trivial
    · exact guard_pure fun _ _ => trivial

theorem guard_adopt {own : String} (hdead : u.server.Dead identity window own) :
    Prog.Keeps (guard identity window i) (adoptBlock identity own)
      (ReadyNext identity window) u := by
  unfold adoptBlock
  have hdrop : ∀ (v : View) (next : DeployM Next), u.Leads identity window v →
      (∀ w, Prog.Keeps (guard identity window i) next (ReadyNext identity window) w) →
      Prog.Keeps (guard identity window i) (dropOwnSecret identity own >>= fun _ => next)
        (ReadyNext identity window) v :=
    fun v next hv hnext =>
      Prog.keeps_bind (Prog.Keeps.mono (guard_dropOwnSecret (hdead.later hv.later)) fun w _ _ =>
        hnext w)
  refine guard_quiet rfl fun r v hv _ _ => ?_
  cases r with
  | error e => exact guard_failed e
  | ok read =>
    cases read with
    | none => exact hdrop v _ hv fun _ => guard_pure fun _ _ => trivial
    | some pod =>
      refine guard_harmless (harmless_settle pod) fun result w hw _ => ?_
      have huw := View.leads_trans identity window u v w hv hw
      cases result with
      | error e => exact guard_failed e
      | ok startup =>
        dsimp only
        split
        · exact hdrop w _ huw fun _ => guard_failed _
        · exact hdrop w _ huw fun _ => guard_pure fun _ _ => trivial

theorem guard_adopting :
    Prog.Keeps (guard identity window i) (adoptingBlock identity)
    (ReadyNext identity window) u := by
  unfold adoptingBlock
  refine guard_quiet rfl fun spent v _ _ _ => ?_
  split
  · exact guard_pure fun _ _ => trivial
  refine guard_harmless harmless_observePod fun result w _ _ => ?_
  cases result with
  | error e => exact guard_failed e
  | ok observed =>
    cases observed with
    | none => exact guard_quiet rfl fun _ _ _ _ _ => guard_pure fun _ _ => trivial
    | some pod =>
      dsimp only
      split
      · exact guard_pure fun _ _ => trivial
      split
      · exact guard_failed _
      · split
        · exact guard_pure fun _ _ => trivial
        · exact guard_quiet rfl fun _ _ _ _ _ => guard_pure fun _ _ => trivial

theorem guard_report {before after : String} :
    Prog.Keeps (guard identity window i) (reportBlock identity before after)
      (ReadyNext identity window) u := by
  unfold reportBlock
  exact guard_harmless harmless_latestCondition fun latest v _ _ => guard_failed _

/-- **Every block keeps to the protocol.** -/
theorem guard_body (b : Block) (hready : Ready identity window u b) :
    Prog.Keeps (guard identity window i) (body identity cfg desired b)
      (ReadyNext identity window) u := by
  cases b with
  | start => exact guard_start
  | preflight => exact guard_preflight
  | collect plan => exact guard_collect hready.1
  | turn created => exact guard_turn
  | awaiting name created => exact guard_awaiting
  | adopt own => exact guard_adopt hready
  | adopting => exact guard_adopting
  | report before after => exact guard_report

end Pkzz.Kube
