import Mathlib.Data.List.Chain
import Pkzz.Relay.WorkflowDef

/-!
# The workflow follows its newest definition

The advisory lock keeps the calls for one spelling of the workflow id apart from the staleness check
to the commit, so under one spelling the row is written in the order of the events. Three things are
not covered by it. An event under another spelling of the same id is compared with nothing, and
locks something else. The secret is read before the lock is taken. And the row is written outside
the transaction, so it stays written when the call fails afterwards.

In a run where none of these comes into play the row follows the newest definition
(`followsNewest_of_sound`).
-/

namespace Pkzz.Relay.Workflow

open Pkzz.Core Pkzz.Lib
open Pkzz.Db.Replace (Stamp dominatedBy_iff)
open Pkzz.Db.Thread (DateTime SignedEvent asI64)

/-! ## What is promised -/

def Quiescent (s : State) : Prop := ∀ p ∈ s.threads, ∃ answer, p = .done answer

/-- What a call has taken from its event. -/
structure Parsed.Valid (site : Site) (p : Parsed) : Prop where
  kind : p.event.event.kind = KIND_WORKFLOW_DEF
  owner : p.event.event.pubkey = site.owner
  defn : site.parseYaml p.event.content = .ok p.defn
  name : p.workflowName = (extractTag p.event.event "name").getD p.defn.name

/-- The row holds what an event defines, with some secret if its trigger is a webhook. -/
def DefinedBy (site : Site) (row : WorkflowRow) (event : SignedEvent) : Prop :=
  ∃ d : Draft, d.parsed.event = event ∧ d.parsed.Valid site ∧ row = d.row site

/-- The accepted event with the greatest `created_at`, and the least id among equals. -/
def newestEvent (events : List EventRow) : Option EventRow := events.argmin EventRow.place

/-- The answer is neither an error nor "duplicate". -/
def Answer.Accepts (answer : Answer) (site : Site) (secret : Option String) : Prop :=
  ∃ eventId, answer = .ok ⟨eventId, true, .response site.workflowId secret⟩

structure FollowsNewest (site : Site) (s : State) : Prop where
  /-- While no call is in progress, the row holds the definition of the newest event, which is live.
  -/
  row_newest : Quiescent s →
    match newestEvent s.shared.events with
    | none => s.shared.row = none
    | some e => e.deleted = false ∧ ∃ row, s.shared.row = some row ∧ DefinedBy site row e.event
  /-- A call that answers otherwise has written nothing. -/
  refused : ∀ i answer, s.threads[i]? = some (.done answer) →
    (∀ secret, ¬ answer.Accepts site secret) →
    i ∉ s.shared.commits ∧ ∀ w ∈ s.shared.writes, w.call ≠ i
  /-- No definition is overwritten by one that is not newer. -/
  newer : s.shared.writes.Pairwise fun a b => b.stamp.dominatedBy a.stamp = false
  /-- A secret that the owner was told stays in the row up to a definition without a webhook. -/
  secret_kept : ∀ (i j : Nat) (w v : RowWrite) (answer : Answer) (secret : String), i ≤ j →
    s.shared.writes[i]? = some w → s.shared.writes[j]? = some v →
      s.threads[w.call]? = some (.done answer) →
    answer.Accepts site (some secret) →
    (∀ k u, i ≤ k → k ≤ j → s.shared.writes[k]? = some u → u.draft.isWebhook = true) →
    extractSecret v.draft.definition = some secret

/-- The row may be written: what was written under another spelling of the id is older, and the
secret that the row has is the one that was read. -/
def Phase.MayWrite (t : Tables) : Phase → Prop
  | .checked d tx =>
    (∀ w ∈ t.writes, w.tx.dTag ≠ tx.dTag → (stampOf d tx).dominatedBy w.stamp = false)
      ∧ (d.isWebhook = true → ∀ row ∈ t.row, ∀ secret ∈ extractSecret row.definition,
        d.existingSecret = some secret)
  | _ => True

/-- The steps at which nothing goes wrong: a write of the row that fails has not been run, and no
commit fails. -/
def Sound (s : State) : Move → Prop
  | .upsert i fault =>
      (∀ f ∈ fault, f.1 = false) ∧ (fault = none → ∀ p ∈ s.threads[i]?, p.MayWrite s.shared)
  | .commit _ fault => fault = none
  | _ => True

instance (t : Tables) : ∀ p : Phase, Decidable (p.MayWrite t)
  | .checked d tx => inferInstanceAs (Decidable ((∀ w ∈ t.writes, w.tx.dTag ≠ tx.dTag →
      (stampOf d tx).dominatedBy w.stamp = false) ∧ (d.isWebhook = true → ∀ row ∈ t.row,
        ∀ secret ∈ extractSecret row.definition, d.existingSecret = some secret)))
  | .reading _ | .ready _ | .inserted _ _ | .written _ _ | .done _ => isTrue trivial

instance (s : State) : ∀ move, Decidable (Sound s move)
  | .upsert i fault => inferInstanceAs (Decidable ((∀ f ∈ fault, f.1 = false) ∧
      (fault = none → ∀ p ∈ s.threads[i]?, p.MayWrite s.shared)))
  | .commit _ fault => inferInstanceAs (Decidable (fault = none))
  | .call _ _ _ | .getWorkflow _ _ _ | .persist _ _ | .getChannel _ _ => isTrue trivial

variable {site : Site} {s s' : State} {t : Tables} {moves : List Move}

/-! ## Secrets -/

theorem lookup_fields_secretKey (d : WorkflowDef) : d.fields.lookup secretKey = none := by
  unfold WorkflowDef.fields secretKey
  rfl

theorem extractSecret_injectSecret (d : WorkflowDef) (secret : String) :
    extractSecret (injectSecret d.toJson secret) = some secret := by
  unfold WorkflowDef.toJson injectSecret extractSecret
  dsimp only
  rw [Json.lookup_sortByKey_put]

/-- The row has the secret that was chosen, and none without a webhook. -/
theorem extractSecret_definition (d : Draft) : extractSecret d.definition = d.secret := by
  unfold Draft.definition
  cases hsecret : d.secret with
  | some secret => exact extractSecret_injectSecret d.parsed.defn secret
  | none =>
    dsimp only
    unfold extractSecret WorkflowDef.toJson
    dsimp only
    rw [lookup_fields_secretKey]

variable {d : Draft}

theorem exists_secret (h : d.isWebhook = true) : ∃ secret, d.secret = some secret :=
  ⟨_, if_pos h⟩

/-- The secret that is told to the owner is the one in the definition. -/
theorem secret_of_newSecret {secret : String} (h : d.newSecret = some secret) :
    d.secret = some secret := by
  unfold Draft.newSecret at h
  split at h
  · rename_i hnew
    unfold Draft.secret
    rw [if_pos hnew.1, hnew.2]
    exact h
  · cases h

/-! ## The order of the events -/

theorem dominatedBy_eq_false_iff {incoming accepted : Stamp} :
    incoming.dominatedBy accepted = false ↔ incoming.place < accepted.place := by
  rw [← not_le, ← dominatedBy_iff, Bool.not_eq_true]

variable {events : List EventRow} {dTag : String}

theorem existingEvent_some {e : EventRow}
    (h : existingEvent events dTag = some e) : e ∈ events ∧ e.dTag = dTag ∧ e.deleted = false
      ∧ ∀ r ∈ events, r.dTag = dTag → r.deleted = false → e.place ≤ r.place := by
  unfold existingEvent at h
  have hmem := List.mem_filter.mp (List.argmin_mem h)
  simp only [Bool.and_eq_true, decide_eq_true_eq, Bool.not_eq_true'] at hmem
  refine ⟨hmem.1, hmem.2.1, hmem.2.2, ?_⟩
  intro r hr htag hlive
  exact List.le_of_mem_argmin (List.mem_filter.mpr ⟨hr, by simp [htag, hlive]⟩) h

theorem existingEvent_none (h : existingEvent events dTag = none) :
    ∀ r ∈ events, r.dTag = dTag → r.deleted = true := by
  intro r hr htag
  unfold existingEvent at h
  rw [List.argmin_eq_none, List.filter_eq_nil_iff] at h
  simpa [htag] using h r hr

/-- A deleted row was superseded by a live one of its coordinate. -/
def Superseded (events : List EventRow) : Prop :=
  ∀ r ∈ events, r.deleted = true → ∃ r' ∈ events, r'.dTag = r.dTag ∧ r'.deleted = false ∧
    r'.place < r.place

/-- The event is newer than all rows of its coordinate. -/
def Newest (events : List EventRow) (d : Draft) (tx : Tx) : Prop :=
  ∀ r ∈ events, r.dTag = tx.dTag → (stampOf d tx).place < r.place

variable {tx : Tx}

/-- What `persist_command_event` finds out about an event that it inserts. -/
theorem newest_of_persist (hsup : Superseded events)
    (h : persistCommandEvent events d.parsed.event = .ok (some tx)) :
    tx.dTag = dTagOf d.parsed.event.event ∧ Newest events d tx
      ∧ DateTime.fromTimestamp (asI64 d.parsed.event.event.createdAt) = some tx.createdAt := by
  unfold persistCommandEvent at h
  split at h
  · cases h
  rename_i createdAt hcreated
  dsimp only at h
  split at h
  · cases h
  split at h
  · cases h
  rename_i hfresh
  split at h
  · cases h
  obtain rfl := Option.some.inj (Except.ok.inj h)
  refine ⟨rfl, ?_, hcreated⟩
  intro r hr htag
  cases hex : existingEvent events (dTagOf d.parsed.event.event) with
  | none =>
    have hdeleted := existingEvent_none hex r hr htag
    obtain ⟨r', hr', htag', hlive, _⟩ := hsup r hr hdeleted
    rw [existingEvent_none hex r' hr' (htag'.trans htag)] at hlive
    cases hlive
  | some e =>
    rw [hex, Option.any_some, Bool.not_eq_true] at hfresh
    obtain ⟨_, _, _, hmin⟩ := existingEvent_some hex
    have hlt : (stampOf d ⟨createdAt, dTagOf d.parsed.event.event⟩).place < e.place :=
      dominatedBy_eq_false_iff.mp hfresh
    cases hlive : r.deleted with
    | false => exact lt_of_lt_of_le hlt (hmin r hr htag hlive)
    | true =>
      obtain ⟨r', hr', htag', hlive', hless⟩ := hsup r hr hlive
      exact lt_trans (lt_of_lt_of_le hlt (hmin r' hr' (htag'.trans htag) hlive')) hless

/-! ## The invariant -/

/-- The row of `events` and the write of the row belong to one call. -/
def Matches (r : EventRow) (w : RowWrite) : Prop :=
  r.event = w.draft.parsed.event ∧ r.createdAt = w.tx.createdAt ∧ r.dTag = w.tx.dTag

variable {w : RowWrite}

theorem Matches.place {r : EventRow} (h : Matches r w) : r.place = w.stamp.place := by
  unfold EventRow.place EventRow.stamp RowWrite.stamp stampOf
  rw [h.1, h.2.1]

def Unwritten (t : Tables) (i : Nat) : Prop := i ∉ t.commits ∧ ∀ w ∈ t.writes, w.call ≠ i

def SecretKept (a b : RowWrite) : Prop :=
  a.draft.isWebhook = true → b.draft.isWebhook = true → a.draft.secret = b.draft.secret

/-- What holds of the tables. -/
structure Consistent (site : Site) (t : Tables) (n : Nat) : Prop where
  calls : ∀ w ∈ t.writes, w.call < n
  commits : ∀ i ∈ t.commits, i < n
  row : t.row = t.writes.getLast?.map fun w => w.draft.row site
  newer : t.writes.Pairwise fun a b => b.stamp.place < a.stamp.place
  valid : ∀ w ∈ t.writes, w.draft.parsed.Valid site
  written : ∀ r ∈ t.events, ∃ w ∈ t.writes, Matches r w
  superseded : Superseded t.events
  secrets : t.writes.IsChain SecretKept

/-- What holds of the tables and the call `i`. -/
def Assertion (site : Site) (t : Tables) (i : Nat) : Phase → Prop
  | .reading p => p.Valid site ∧ Unwritten t i
  | .ready d => d.parsed.Valid site ∧ Unwritten t i
  | .inserted d tx | .checked d tx => d.parsed.Valid site ∧ Unwritten t i ∧ Newest t.events d tx
  | .written d tx => i ∉ t.commits ∧ Newest t.events d tx ∧ ⟨i, d, tx⟩ ∈ t.writes
      ∧ ∀ w ∈ t.writes, w.call = i → w = ⟨i, d, tx⟩
  | .done answer =>
    (∃ d tx, answer.Accepts site d.newSecret ∧ (∃ r ∈ t.events, Matches r ⟨i, d, tx⟩)
      ∧ ∀ w ∈ t.writes, w.call = i → w = ⟨i, d, tx⟩)
    ∨ Unwritten t i ∧ ∀ secret, ¬ answer.Accepts site secret

/-- Two open transactions are for different spellings of the id. -/
def Apart (p q : Phase) : Prop :=
  ∀ d tx d' tx', p.open? = some (d, tx) → q.open? = some (d', tx') → tx.dTag ≠ tx'.dTag

def Inv (site : Site) (s : State) : Prop :=
  Consistent site s.shared s.threads.length ∧ Pool.Proper (Assertion site) Apart s

variable {p : Phase}

theorem apart_of_not_open (h : p.open? = none) (q : Phase) : Apart p q ∧ Apart q p := by
  constructor
  · intro d tx d' tx' hp _
    rw [h] at hp
    cases hp
  · intro d tx d' tx' _ hp
    rw [h] at hp
    cases hp

theorem Consistent.mono {n m : Nat} (h : Consistent site t n) (hn : n ≤ m) : Consistent site t m :=
  { h with
    calls := fun w hw => Nat.lt_of_lt_of_le (h.calls w hw) hn
    commits := fun i hi => Nat.lt_of_lt_of_le (h.commits i hi) hn }

/-- A new call has written nothing. -/
theorem Consistent.unwritten {n : Nat} (h : Consistent site t n) : Unwritten t n := by
  refine ⟨fun hn => Nat.lt_irrefl _ (h.commits n hn), ?_⟩
  intro w hw hcall
  exact Nat.lt_irrefl n (hcall ▸ h.calls w hw)

theorem not_accepts_error {e : IngestError} (secret : Option String) :
    ¬ Answer.Accepts (.error e) site secret := by
  rintro ⟨eventId, h⟩
  cases h

theorem not_accepts_duplicate (secret : Option String) :
    ¬ Answer.Accepts (.ok (duplicateOf d)) site secret := by
  rintro ⟨eventId, h⟩
  cases h

theorem inv_init : Inv site State.init := by
  refine ⟨⟨?_, ?_, rfl, List.Pairwise.nil, ?_, ?_, ?_, List.IsChain.nil⟩, Pool.proper_nil⟩
  · intro w hw
    cases hw
  · intro i hi
    cases hi
  · intro w hw
    cases hw
  · intro r hr
    cases hr
  · intro r hr
    cases hr

/-! ## Steps that write nothing -/

theorem Inv.spawn (h : Inv site s) (hopen : p.open? = none)
    (hown : Assertion site s.shared s.threads.length p) : Inv site (s.spawn p) := by
  refine ⟨?_, h.2.spawn hown fun q _ => apart_of_not_open hopen q⟩
  unfold Pool.spawn
  rw [List.length_append]
  exact h.1.mono (Nat.le_add_right _ _)

variable {i : Nat}

theorem length_threads_put {t : Tables} : (s.put i t p).threads.length = s.threads.length :=
  List.length_set

theorem Inv.put (h : Inv site s) {p' : Phase} (hi : s.threads[i]? = some p)
    (hown : Assertion site s.shared i p')
    (hapart : ∀ j q, j ≠ i → s.threads[j]? = some q → Apart p' q ∧ Apart q p') :
    Inv site (s.put i s.shared p') := by
  refine ⟨?_, h.2.put hi hown fun j q hj hq => ⟨h.2.each j q hq, hapart j q hj hq⟩⟩
  rw [length_threads_put]
  exact h.1

/-- The transaction stays, or there was none and is none. -/
theorem Inv.put_of_open_eq (h : Inv site s) {p' : Phase} (hi : s.threads[i]? = some p)
    (hopen : p'.open? = p.open? ∨ p'.open? = none) (hown : Assertion site s.shared i p') :
    Inv site (s.put i s.shared p') := by
  refine h.put hi hown ?_
  intro j q hj hq
  rcases hopen with hopen | hopen
  · have hpq := h.2.pair i j p q hj.symm hi hq
    have hqp := h.2.pair j i q p hj hq hi
    unfold Apart at hpq hqp ⊢
    rw [hopen]
    exact ⟨hpq, hqp⟩
  · exact apart_of_not_open hopen q

/-- An error is answered before anything was written. -/
theorem Inv.put_error (h : Inv site s) (hi : s.threads[i]? = some p) {answer : Answer}
    (hunwritten : Unwritten s.shared i) (hanswer : ∀ secret, ¬ answer.Accepts site secret) :
    Inv site (s.put i s.shared (.done answer)) :=
  h.put_of_open_eq hi (.inr rfl) (.inr ⟨hunwritten, hanswer⟩)

variable {event : SignedEvent}

theorem parseCall_ok {isMember : Except String Bool} {role : Except String (Option String)}
    {channelId workflowId : Uuid} {parsed : Parsed}
    (h : parseCall site event isMember role = .ok (channelId, workflowId, parsed)) :
    parsed.event = event ∧ site.parseYaml event.content = .ok parsed.defn
      ∧ parsed.workflowName = (extractTag event.event "name").getD parsed.defn.name := by
  unfold parseCall at h
  repeat' split at h
  all_goals cases h
  -- what is left are the two ways through the check of the role
  all_goals exact ⟨rfl, by assumption, rfl⟩

theorem readWorkflow_ok {row : Option WorkflowRow} {parsed : Parsed} {generated : String}
    (h : readWorkflow site row parsed generated = .ok d) : d.parsed = parsed := by
  unfold readWorkflow at h
  split at h
  · cases h
    rfl
  split at h
  · cases h
  · cases h
    rfl

theorem Inv.call (h : Inv site s) {isMember : Except String Bool}
    {role : Except String (Option String)}
    (hstep : step site s (.call event isMember role) = some s') : Inv site s' := by
  unfold step at hstep
  dsimp only at hstep
  have hnew := h.1.unwritten
  split at hstep
  · rename_i hevent
    split at hstep
    · cases hstep
      exact h.spawn rfl (.inr ⟨hnew, not_accepts_error⟩)
    rename_i channelId workflowId parsed hparse
    split at hstep
    · cases hstep
      obtain ⟨rfl, hdefn, hname⟩ := parseCall_ok hparse
      exact h.spawn rfl ⟨⟨hevent.1, hevent.2, hdefn, hname⟩, hnew⟩
    · cases hstep
  · cases hstep

theorem Inv.getWorkflow (h : Inv site s) {fault : Option String} {generated : String}
    (hstep : step site s (.getWorkflow i fault generated) = some s') : Inv site s' := by
  unfold step at hstep
  dsimp only at hstep
  split at hstep
  · rename_i parsed hi
    obtain ⟨hvalid, hunwritten⟩ := h.2.each i _ hi
    split at hstep
    · cases hstep
      exact h.put_error hi hunwritten not_accepts_error
    split at hstep
    · cases hstep
      exact h.put_error hi hunwritten not_accepts_error
    · rename_i draft hread
      cases hstep
      refine h.put_of_open_eq hi (.inl rfl) ⟨?_, hunwritten⟩
      rw [readWorkflow_ok hread]
      exact hvalid
  · cases hstep

/-- The lock keeps the transactions of one spelling apart. -/
theorem apart_of_lockFree (hfree : lockFree site s d = true)
    (htag : tx.dTag = dTagOf d.parsed.event.event) {q : Phase} (hq : q ∈ s.threads) :
    Apart (.inserted d tx) q ∧ Apart q (.inserted d tx) := by
  have hne : ∀ d' tx', q.open? = some (d', tx') → tx'.dTag ≠ tx.dTag := by
    intro d' tx' hopen heq
    have hall := List.all_eq_true.mp hfree q hq
    rw [hopen] at hall
    simp [heq, htag] at hall
  constructor
  · intro d₁ tx₁ d' tx' hp hopen
    obtain ⟨-, rfl⟩ := Prod.mk.inj (Option.some.inj hp)
    exact (hne d' tx' hopen).symm
  · intro d' tx' d₁ tx₁ hopen hp
    obtain ⟨-, rfl⟩ := Prod.mk.inj (Option.some.inj hp)
    exact hne d' tx' hopen

theorem Inv.persist (h : Inv site s) {fault : Option PersistFault}
    (hstep : step site s (.persist i fault) = some s') : Inv site s' := by
  unfold step at hstep
  dsimp only at hstep
  split at hstep
  · rename_i d hi
    obtain ⟨hvalid, hunwritten⟩ := h.2.each i _ hi
    split at hstep
    · split at hstep
      · cases hstep
        exact h.put_error hi hunwritten not_accepts_error
      · cases hstep
    · split at hstep
      · cases hstep
        exact h.put_error hi hunwritten not_accepts_error
      · rename_i outcome hpersist
        split at hstep
        · rename_i hfree
          split at hstep
          · cases hstep
            exact h.put_error hi hunwritten not_accepts_duplicate
          rename_i tx
          cases hstep
          obtain ⟨htag, hnewest, _⟩ := newest_of_persist h.1.superseded hpersist
          refine h.put hi ⟨hvalid, hunwritten, hnewest⟩ ?_
          exact fun j q _ hq => apart_of_lockFree hfree htag (List.mem_of_getElem? hq)
        · cases hstep
  · cases hstep

theorem Inv.getChannel (h : Inv site s) {found : Bool}
    (hstep : step site s (.getChannel i found) = some s') : Inv site s' := by
  unfold step at hstep
  dsimp only at hstep
  split at hstep
  · rename_i d tx hi
    have hown := h.2.each i _ hi
    split at hstep
    · cases hstep
      exact h.put_of_open_eq hi (.inl rfl) hown
    · cases hstep
      exact h.put_error hi hown.2.1 not_accepts_error
  · cases hstep

/-! ## The write of the row -/

theorem upsertWorkflow_eq {row : Option WorkflowRow} {new row' : WorkflowRow}
    (h : upsertWorkflow row new = some row') : row' = new := by
  unfold upsertWorkflow at h
  split at h
  · exact (Option.some.inj h).symm
  split at h
  · rename_i howner
    cases h
    rw [howner.1, howner.2]
  · cases h

/-- All that has been written is older: under the same spelling because of the lock, under another
one because the step is sound. -/
theorem newer_of_checked (h : Inv site s) (hi : s.threads[i]? = some (.checked d tx))
    (hother : ∀ w ∈ s.shared.writes, w.tx.dTag ≠ tx.dTag →
      (stampOf d tx).dominatedBy w.stamp = false) :
    ∀ w ∈ s.shared.writes, (stampOf d tx).place < w.stamp.place := by
  intro w hw
  obtain ⟨_, hunwritten, hnewest⟩ := h.2.each i _ hi
  by_cases htag : w.tx.dTag = tx.dTag
  · have hne : w.call ≠ i := hunwritten.2 w hw
    obtain ⟨p, hp⟩ : ∃ p, s.threads[w.call]? = some p :=
      ⟨_, List.getElem?_eq_getElem (h.1.calls w hw)⟩
    have hassert := h.2.each w.call p hp
    cases p with
    | reading parsed => exact absurd rfl (hassert.2.2 w hw)
    | ready draft => exact absurd rfl (hassert.2.2 w hw)
    | inserted d' tx' => exact absurd rfl (hassert.2.1.2 w hw)
    | checked d' tx' => exact absurd rfl (hassert.2.1.2 w hw)
    | written d' tx' =>
      -- it would hold the same lock
      have hwrite := hassert.2.2.2 w hw rfl
      have hapart := h.2.pair w.call i _ _ hne hp hi d' tx' d tx rfl rfl
      rw [hwrite] at htag
      exact absurd htag hapart
    | done answer =>
      rcases hassert with ⟨d', tx', _, ⟨r, hr, hmatch⟩, hwrite⟩ | ⟨hno, _⟩
      · have hwrite := hwrite w hw rfl
        rw [hwrite] at htag ⊢
        exact hmatch.place ▸ hnewest r hr (hmatch.2.2.trans htag)
      · exact absurd rfl (hno.2 w hw)
  · exact dominatedBy_eq_false_iff.mp (hother w hw htag)

/-- Of a step of another call, a call notices only what concerns its own writes and its coordinate.
-/
theorem Assertion.frame {t t' : Tables} {j : Nat} {q : Phase} (h : Assertion site t j q)
    (hwrites : ∀ w, w.call = j → (w ∈ t'.writes ↔ w ∈ t.writes))
    (hcommits : j ∈ t'.commits ↔ j ∈ t.commits)
    (hnewest : ∀ d tx, q.open? = some (d, tx) → Newest t.events d tx → Newest t'.events d tx)
    (hrows : ∀ w, (∃ r ∈ t.events, Matches r w) → ∃ r ∈ t'.events, Matches r w) :
    Assertion site t' j q := by
  have hunwritten : Unwritten t j → Unwritten t' j := by
    intro hno
    refine ⟨fun hj => hno.1 (hcommits.mp hj), ?_⟩
    intro w hw hcall
    exact hno.2 w ((hwrites w hcall).mp hw) hcall
  have hsame : ∀ {w₀ : RowWrite}, (∀ w ∈ t.writes, w.call = j → w = w₀) →
      ∀ w ∈ t'.writes, w.call = j → w = w₀ :=
    fun hall w hw hcall => hall w ((hwrites w hcall).mp hw) hcall
  cases q with
  | reading parsed => exact ⟨h.1, hunwritten h.2⟩
  | ready d => exact ⟨h.1, hunwritten h.2⟩
  | inserted d tx => exact ⟨h.1, hunwritten h.2.1, hnewest d tx rfl h.2.2⟩
  | checked d tx => exact ⟨h.1, hunwritten h.2.1, hnewest d tx rfl h.2.2⟩
  | written d tx =>
    obtain ⟨hcommit, hnew, hmem, hall⟩ := h
    exact ⟨fun hj => hcommit (hcommits.mp hj), hnewest d tx rfl hnew,
      (hwrites _ rfl).mpr hmem, hsame hall⟩
  | done answer =>
    rcases h with ⟨d, tx, hanswer, hrow, hall⟩ | ⟨hno, hanswer⟩
    · exact .inl ⟨d, tx, hanswer, hrows _ hrow, hsame hall⟩
    · exact .inr ⟨hunwritten hno, hanswer⟩

/-- The secret that was read is the one that the last definition had. -/
theorem secretKept_last (h : Consistent site t s.threads.length) {v : RowWrite} (hv : v.draft = d)
    (hsound : d.isWebhook = true → ∀ row ∈ t.row, ∀ secret ∈ extractSecret row.definition,
      d.existingSecret = some secret)
    (hlast : w ∈ t.writes.getLast?) : SecretKept w v := by
  intro hw hweb
  rw [hv] at hweb ⊢
  obtain ⟨secret, hsecret⟩ := exists_secret hw
  have hrow : t.row = some (w.draft.row site) := by rw [h.row, hlast, Option.map_some]
  have hread := hsound hweb _ hrow secret (by
    change extractSecret w.draft.definition = some secret
    rw [extractSecret_definition, hsecret])
  unfold Draft.secret at hsecret ⊢
  rw [hread, if_pos hweb, Option.getD_some]
  exact hsecret

/-- The row, and with it the log, has been written. -/
theorem Consistent.write {n : Nat} (h : Consistent site t n) {v : RowWrite} (hcall : v.call < n)
    (hvalid : v.draft.parsed.Valid site) (hnewer : ∀ w ∈ t.writes, v.stamp.place < w.stamp.place)
    (hkept : ∀ w ∈ t.writes.getLast?, SecretKept w v) :
    Consistent site { t with row := some (v.draft.row site), writes := t.writes ++ [v] } n where
  calls := by
    intro w hw
    rcases List.mem_append.mp hw with hw | hw
    · exact h.calls w hw
    · rw [List.mem_singleton.mp hw]
      exact hcall
  commits := h.commits
  row := by
    dsimp only
    rw [List.getLast?_append, List.getLast?_singleton]
    rfl
  newer := by
    refine List.pairwise_append.mpr ⟨h.newer, List.pairwise_singleton _ _, ?_⟩
    intro w hw u hu
    rw [List.mem_singleton.mp hu]
    exact hnewer w hw
  valid := by
    intro w hw
    rcases List.mem_append.mp hw with hw | hw
    · exact h.valid w hw
    · rw [List.mem_singleton.mp hw]
      exact hvalid
  written := by
    intro r hr
    obtain ⟨w, hw, hmatch⟩ := h.written r hr
    exact ⟨w, List.mem_append_left _ hw, hmatch⟩
  superseded := h.superseded
  secrets := by
    refine List.isChain_append.mpr ⟨h.secrets, List.isChain_singleton _, ?_⟩
    intro w hw u hu
    cases hu
    exact hkept w hw

theorem Inv.upsert (h : Inv site s) {fault : Option (Bool × String)}
    (hsound : Sound s (.upsert i fault))
    (hstep : step site s (.upsert i fault) = some s') : Inv site s' := by
  obtain ⟨hfault, hchecked⟩ := hsound
  unfold step at hstep
  dsimp only at hstep
  split at hstep
  · rename_i d tx hi
    obtain ⟨hvalid, hunwritten, hnewest⟩ := h.2.each i _ hi
    split at hstep
    · rename_i t hupsert
      cases hstep
      obtain ⟨hother, hsecret⟩ := hchecked rfl _ hi
      obtain ⟨row, hrow, rfl⟩ := Option.map_eq_some_iff.mp hupsert
      obtain rfl := upsertWorkflow_eq hrow
      have hlt : i < s.threads.length := (List.getElem?_eq_some_iff.mp hi).1
      refine ⟨?_, h.2.put hi ?_ ?_⟩
      · rw [length_threads_put]
        refine h.1.write (v := ⟨i, d, tx⟩) hlt hvalid (newer_of_checked h hi hother) ?_
        exact fun w hw => secretKept_last h.1 rfl hsecret hw
      · refine ⟨hunwritten.1, hnewest, List.mem_append_right _ (List.mem_singleton_self _), ?_⟩
        intro w hw hcall
        rcases List.mem_append.mp hw with hw | hw
        · exact absurd hcall (hunwritten.2 w hw)
        · exact List.mem_singleton.mp hw
      · intro j q hj hq
        have hapart := h.2.pair i j (.checked d tx) q hj.symm hi hq
        have hapart' := h.2.pair j i q (.checked d tx) hj hq hi
        refine ⟨(h.2.each j q hq).frame ?_ Iff.rfl (fun _ _ _ hn => hn) (fun _ hr => hr),
          hapart, hapart'⟩
        · intro w hcall
          rw [List.mem_append, List.mem_singleton]
          refine ⟨fun hw => hw.resolve_right ?_, .inl⟩
          intro hw
          rw [hw] at hcall
          exact hj hcall.symm
    · cases hstep
      exact h.put_error hi hunwritten not_accepts_error
    · rename_i _ _ ran e
      obtain rfl : ran = false := hfault (ran, e) rfl
      cases hstep
      exact h.put_error hi hunwritten not_accepts_error
  · cases hstep

/-! ## The commit -/

@[simp] theorem retire_dTag (dTag : String) (r : EventRow) : (r.retire dTag).dTag = r.dTag := by
  unfold EventRow.retire
  split <;> rfl

@[simp] theorem retire_place (dTag : String) (r : EventRow) : (r.retire dTag).place = r.place := by
  unfold EventRow.retire
  split <;> rfl

theorem matches_retire {r : EventRow} : Matches (r.retire dTag) w ↔ Matches r w := by
  unfold EventRow.retire
  split <;> rfl

theorem retire_of_ne {r : EventRow} (h : r.dTag ≠ dTag) : r.retire dTag = r := if_neg h

theorem mem_commitEvent {r : EventRow} :
    r ∈ commitEvent events event tx ↔
      (∃ r₀ ∈ events, r₀.retire tx.dTag = r) ∨ r = ⟨event, tx.createdAt, tx.dTag, false⟩ := by
  unfold commitEvent
  rw [List.mem_append, List.mem_map, List.mem_singleton]

/-- What superseded a row is there still, or has been superseded by the new row. -/
theorem superseded_commitEvent (h : Superseded events)
    (hnewest : Newest events d tx) : Superseded (commitEvent events d.parsed.event tx) := by
  intro r hr hdeleted
  rcases mem_commitEvent.mp hr with ⟨r₀, hr₀, rfl⟩ | rfl
  · by_cases htag : r₀.dTag = tx.dTag
    · refine ⟨_, mem_commitEvent.mpr (.inr rfl), ?_, rfl, ?_⟩
      · rw [retire_dTag, htag]
      · rw [retire_place]
        exact hnewest r₀ hr₀ htag
    · rw [retire_of_ne htag] at hdeleted ⊢
      obtain ⟨r', hr', htag', hlive, hless⟩ := h r₀ hr₀ hdeleted
      refine ⟨r', mem_commitEvent.mpr (.inl ⟨r', hr', retire_of_ne ?_⟩), htag', hlive, hless⟩
      rw [htag']
      exact htag
  · cases hdeleted

theorem newest_commitEvent {d' : Draft} {tx' : Tx}
    (h : Newest events d' tx') (hne : tx.dTag ≠ tx'.dTag) :
    Newest (commitEvent events event tx) d' tx' := by
  intro r hr htag
  rcases mem_commitEvent.mp hr with ⟨r₀, hr₀, rfl⟩ | rfl
  · rw [retire_place]
    rw [retire_dTag] at htag
    exact h r₀ hr₀ htag
  · exact absurd htag hne

theorem Inv.commit (h : Inv site s) {fault : Option (Bool × String)}
    (hsound : Sound s (.commit i fault))
    (hstep : step site s (.commit i fault) = some s') : Inv site s' := by
  obtain rfl : fault = none := hsound
  unfold step at hstep
  dsimp only at hstep
  split at hstep
  · rename_i d tx hi
    obtain ⟨hcommit, hnewest, hmem, hall⟩ := h.2.each i _ hi
    cases hstep
    have hlt : i < s.threads.length := (List.getElem?_eq_some_iff.mp hi).1
    refine ⟨?_, h.2.put hi ?_ ?_⟩
    · rw [length_threads_put]
      refine { h.1 with
        commits := ?_, written := ?_, superseded := superseded_commitEvent h.1.superseded hnewest }
      · intro j hj
        rcases List.mem_append.mp hj with hj | hj
        · exact h.1.commits j hj
        · rw [List.mem_singleton.mp hj]
          exact hlt
      · intro r hr
        rcases mem_commitEvent.mp hr with ⟨r₀, hr₀, rfl⟩ | rfl
        · obtain ⟨w, hw, hmatch⟩ := h.1.written r₀ hr₀
          exact ⟨w, hw, matches_retire.mpr hmatch⟩
        · exact ⟨_, hmem, rfl, rfl, rfl⟩
    · refine .inl ⟨d, tx, ⟨_, rfl⟩, ⟨_, mem_commitEvent.mpr (.inr rfl), rfl, rfl, rfl⟩, hall⟩
    · intro j q hj hq
      refine ⟨(h.2.each j q hq).frame (fun _ _ => Iff.rfl) ?_ ?_ ?_, apart_of_not_open rfl q⟩
      · refine ⟨fun hmem => ?_, fun hmem => List.mem_append_left _ hmem⟩
        exact (List.mem_append.mp hmem).resolve_right fun hone => hj (List.mem_singleton.mp hone)
      · intro d' tx' hopen hn
        exact newest_commitEvent hn (h.2.pair i j _ q hj.symm hi hq d tx d' tx' rfl hopen)
      · rintro w ⟨r, hr, hmatch⟩
        exact ⟨_, mem_commitEvent.mpr (.inl ⟨r, hr, rfl⟩), matches_retire.mpr hmatch⟩
  · cases hstep

theorem Inv.step {move : Move} (h : Inv site s) (hsound : Sound s move)
    (hstep : (machine site).step s move = some s') : Inv site s' := by
  cases move with
  | call event isMember role => exact h.call hstep
  | getWorkflow i fault generated => exact h.getWorkflow hstep
  | persist i fault => exact h.persist hstep
  | getChannel i found => exact h.getChannel hstep
  | upsert i fault => exact h.upsert hsound hstep
  | commit i fault => exact h.commit hsound hstep

/-! ## The promise -/

/-- While no call is in progress, every write belongs to an accepted event. -/
theorem accepted_of_quiescent (h : Inv site s) (hq : Quiescent s) (hw : w ∈ s.shared.writes) :
    ∃ r ∈ s.shared.events, Matches r w := by
  have hget := List.getElem?_eq_getElem (h.1.calls w hw)
  obtain ⟨answer, hdone⟩ := hq _ (List.mem_of_getElem? hget)
  rw [hdone] at hget
  rcases h.2.each w.call _ hget with ⟨d, tx, _, hrow, hall⟩ | ⟨hno, _⟩
  · rw [hall w hw rfl]
    exact hrow
  · exact absurd rfl (hno.2 w hw)

/-- The last write is the newest. -/
theorem eq_or_lt_of_last {l : List RowWrite}
    (h : l.Pairwise fun a b => b.stamp.place < a.stamp.place) {last : RowWrite}
    (hlast : l.getLast? = some last) (hw : w ∈ l) :
    w = last ∨ last.stamp.place < w.stamp.place := by
  obtain ⟨front, rfl⟩ := List.getLast?_eq_some_iff.mp hlast
  rcases List.mem_append.mp hw with hw | hw
  · exact .inr ((List.pairwise_append.mp h).2.2 w hw last (List.mem_singleton_self _))
  · exact .inl (List.mem_singleton.mp hw)

theorem row_newest_of_inv (h : Inv site s) (hq : Quiescent s) :
    match newestEvent s.shared.events with
    | none => s.shared.row = none
    | some e => e.deleted = false ∧ ∃ row, s.shared.row = some row ∧
        DefinedBy site row e.event := by
  cases hnew : newestEvent s.shared.events with
  | none =>
    dsimp only
    rw [h.1.row]
    cases hlast : s.shared.writes.getLast? with
    | none => rfl
    | some w =>
      obtain ⟨r, hr, _⟩ := accepted_of_quiescent h hq (List.mem_of_getLast? hlast)
      rw [List.argmin_eq_none.mp hnew] at hr
      cases hr
  | some e =>
    have he : e ∈ s.shared.events := List.argmin_mem hnew
    refine ⟨?_, ?_⟩
    · by_contra hdeleted
      obtain ⟨r, hr, _, _, hless⟩ := h.1.superseded e he (by simpa using hdeleted)
      exact absurd hless (not_lt_of_ge (List.le_of_mem_argmin hr hnew))
    · obtain ⟨w, hw, hmatch⟩ := h.1.written e he
      obtain ⟨last, hlast⟩ : ∃ last, s.shared.writes.getLast? = some last :=
        ⟨_, List.getLast?_eq_some_getLast (List.ne_nil_of_mem hw)⟩
      -- the event of the last write is accepted, so it is not newer than the newest one
      have heq : w = last := by
        refine (eq_or_lt_of_last h.1.newer hlast hw).resolve_right fun hless => ?_
        obtain ⟨r, hr, hmatch'⟩ := accepted_of_quiescent h hq (List.mem_of_getLast? hlast)
        have hle := List.le_of_mem_argmin hr hnew
        rw [hmatch.place, hmatch'.place] at hle
        exact not_lt_of_ge hle hless
      refine ⟨w.draft.row site, ?_, w.draft, hmatch.1.symm, h.1.valid w hw, rfl⟩
      rw [h.1.row, hlast, heq]
      rfl

theorem accepts_inj {answer : Answer} {a b : Option String} (ha : answer.Accepts site a)
    (hb : answer.Accepts site b) : a = b := by
  obtain ⟨_, rfl⟩ := ha
  obtain ⟨_, hb⟩ := hb
  injection hb with hb
  injection hb with _ _ hb
  injection hb

/-- From one webhook definition to the next the secret stays. -/
theorem secret_eq_of_chain {l : List RowWrite} (h : l.IsChain SecretKept) (hw : l[i]? = some w) :
    ∀ {j : Nat}, i ≤ j → ∀ {v}, l[j]? = some v →
      (∀ k u, i ≤ k → k ≤ j → l[k]? = some u → u.draft.isWebhook = true) →
        w.draft.secret = v.draft.secret := by
  intro j hij
  induction j, hij using Nat.le_induction with
  | base =>
    intro v hv _
    rw [Option.some.inj (hw.symm.trans hv)]
  | succ j hij ih =>
    intro v hv hweb
    have hlt : j + 1 < l.length := (List.getElem?_eq_some_iff.mp hv).1
    have hj : l[j]? = some l[j] := List.getElem?_eq_getElem (by omega)
    have hkept := List.isChain_iff_getElem.mp h j hlt
    rw [← Option.some.inj ((List.getElem?_eq_getElem hlt).symm.trans hv)]
    rw [ih hj fun k u hik hkj hu => hweb k u hik (by omega) hu]
    exact hkept (hweb j _ hij (by omega) hj)
      (hweb (j + 1) _ (by omega) (Nat.le_refl _) (List.getElem?_eq_getElem hlt))

theorem followsNewest_of_inv (h : Inv site s) : FollowsNewest site s where
  row_newest := row_newest_of_inv h
  refused := by
    intro i answer hi hanswer
    rcases h.2.each i _ hi with ⟨d, tx, haccepts, _⟩ | ⟨hno, _⟩
    · exact absurd haccepts (hanswer _)
    · exact hno
  newer := h.1.newer.imp fun hless => dominatedBy_eq_false_iff.mpr hless
  secret_kept := by
    intro i j w v answer secret hij hw hv hdone haccepts hweb
    rw [extractSecret_definition, ← secret_eq_of_chain h.1.secrets hw hij hv hweb]
    have hmem := List.mem_of_getElem? hw
    rcases h.2.each w.call _ hdone with ⟨d, tx, haccepts', _, hall⟩ | ⟨hno, _⟩
    · rw [hall w hmem rfl]
      exact secret_of_newSecret (accepts_inj haccepts' haccepts)
    · exact absurd rfl (hno.2 w hmem)

/-- **In a run whose steps are all sound, the workflow follows its newest definition in every
state.** -/
theorem followsNewest_of_sound (site : Site) (moves : List Move) (s : State)
    (h : (machine site).run State.init moves = some s)
    (hsound : (machine site).Always Sound State.init moves) : FollowsNewest site s :=
  followsNewest_of_inv (Machine.invariant (I := Inv site) (fun _ _ _ hs hP hstep =>
    hs.step hP hstep) inv_init hsound h)

/-! ## Two spellings of one id -/

def firstYaml : String :=
  "name: first\ntrigger:\n  on: message_posted\nsteps:\n  - id: a\n    action: set_channel_topic\n    topic: one\n"

def secondYaml : String :=
  "name: second\ntrigger:\n  on: message_posted\nsteps:\n  - id: a\n    action: set_channel_topic\n    topic: two\n"

/-- What the YAML of the example stands for. -/
def exampleDef (name topic : String) : WorkflowDef where
  name := name
  description := none
  trigger := .messagePosted none
  steps := [⟨.obj [("action", .str "set_channel_topic"), ("id", .str "a"), ("if", .null),
    ("name", .null), ("timeout_secs", .null), ("topic", .str topic)], false⟩]
  enabled := true

def exampleSite : Site where
  communityId := ⟨FixedBytes.ofNat 16 1⟩
  owner := FixedBytes.ofNat 32 7
  channelId := FixedBytes.ofNat 16 0xc0
  workflowId := FixedBytes.ofNat 16 0xab
  parseYaml := fun yaml =>
    if yaml = firstYaml then .ok (exampleDef "first" "one")
    else if yaml = secondYaml then .ok (exampleDef "second" "two")
    else .error "invalid YAML"
  sha256 := fun _ => []

def exampleEvent (id createdAt : Nat) (dTag yaml : String) : SignedEvent where
  event :=
    {
      id := FixedBytes.ofNat 32 id, pubkey := FixedBytes.ofNat 32 7, createdAt := createdAt,
      kind := KIND_WORKFLOW_DEF,
      tags := [⟨["h", "00000000-0000-0000-0000-0000000000c0"], by simp⟩, ⟨["d", dTag], by simp⟩] }
  content := yaml
  sig := FixedBytes.ofNat 64 1

/-- A call in which nothing fails. -/
def quietCall (i : Nat) (event : SignedEvent) : List Move :=
  [.call event (.ok true) (.ok none), .getWorkflow i none "secret", .persist i none,
    .getChannel i true, .upsert i none, .commit i none]

/-- The definition of the second 20 is saved first, then, under the upper-case id, the one of the
second 10. -/
def spelled : List Move :=
  quietCall 0 (exampleEvent 1 20 "00000000-0000-0000-0000-0000000000ab" secondYaml)
    ++ quietCall 1 (exampleEvent 2 10 "00000000-0000-0000-0000-0000000000AB" firstYaml)

/-- The same site, when both definitions have a webhook. -/
def webhookSite : Site :=
  { exampleSite with
    parseYaml := fun yaml => (exampleSite.parseYaml yaml).map fun d =>
      { d with trigger := .webhook } }

/-- A newer definition comes while the first one is saved, and is given the secret of the first. -/
def renewed : List Move :=
  [.call (exampleEvent 1 10 "00000000-0000-0000-0000-0000000000ab" firstYaml) (.ok true) (.ok none),
    .getWorkflow 0 none "secret", .persist 0 none, .getChannel 0 true,
    .call (exampleEvent 2 20 "00000000-0000-0000-0000-0000000000ab" secondYaml)
      (.ok true) (.ok none),
    .upsert 0 none, .commit 0 none,
    .getWorkflow 1 none "other", .persist 1 none, .getChannel 1 true, .upsert 1 none,
      .commit 1 none]

/-- The newer definition is saved with the secret of the first. -/
theorem followsNewest_of_sound_example : ∃ s, (machine webhookSite).run State.init renewed = some s
    ∧ (s.shared.row.bind fun row => extractSecret row.definition) = some "secret" ∧
      FollowsNewest webhookSite s :=
  ⟨_, rfl, rfl, followsNewest_of_sound webhookSite renewed _ rfl (by decide)⟩

/-- The older definition overwrites the newer one, though nothing fails. -/
theorem not_followsNewest : ¬ ∀ (site : Site) (moves : List Move) (s : State),
    (machine site).run State.init moves = some s →
    (∀ i fault, .commit i fault ∈ moves → fault = none) → FollowsNewest site s := by
  intro h
  have hcommits : ∀ i fault, Move.commit i fault ∈ spelled → fault = none := by
    intro i fault hmem
    simp only [spelled, quietCall, List.mem_append, List.mem_cons, Move.commit.injEq] at hmem
    simp only [reduceCtorEq, List.not_mem_nil, false_or, or_false] at hmem
    rcases hmem with ⟨_, hfault⟩ | ⟨_, hfault⟩
    · exact hfault
    · exact hfault
  have hspelled := (h exampleSite spelled _ rfl hcommits).newer
  revert hspelled
  decide

end Pkzz.Relay.Workflow
