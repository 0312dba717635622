import Pkzz.ReadState.Device

/-!
# Read state converges

Every step of a device raises its contexts by what the step was given, and by nothing
else, so that a device holds the maximum of what it was ever given: the merges of
`initialize`, live events and local advances all take the same join. What a device
publishes lies below what it holds. Two devices that exchange their blobs therefore agree
wherever each has published its own advances.
-/

namespace Pkzz.ReadState

open Pkzz.Lib

/-- The timestamps a blob gives. -/
def contextsOf (cipher : Cipher) (pubkey : String) (event : RelayEvent) : List (String × Nat) :=
  match parseReadStateEvent cipher event pubkey with
  | none => []
  | some parsed => parsed.blob.contexts.entries

variable {cipher : Cipher} {pubkey : String} {event : RelayEvent}

theorem contextsOf_none
    (h : parseReadStateEvent cipher event pubkey = none) : contextsOf cipher pubkey event = [] := by
  unfold contextsOf
  rw [h]

theorem contextsOf_some {parsed : ParsedReadStateEvent}
    (h : parseReadStateEvent cipher event pubkey = some parsed) :
    contextsOf cipher pubkey event = parsed.blob.contexts.entries := by
  unfold contextsOf
  rw [h]

/-- An event that carries a blob gives only what is in the blob. -/
theorem mem_contextsOf {blob : ReadStateBlob}
    (hdec : cipher.decrypt event.content = some blob.value) {k : String} {t : Nat}
    (h : (k, t) ∈ contextsOf cipher pubkey event) : blob.contexts.get k = some t := by
  cases hparse : parseReadStateEvent cipher event pubkey with
  | none =>
    rw [contextsOf_none hparse] at h
    cases h
  | some parsed =>
    rw [contextsOf_some hparse] at h
    exact (parse_of_decrypt hparse hdec).2 k t (OrderedMap.mem_entries.mp h)

namespace Manager

/-- `mgr'` is `mgr` raised by `us`, for the same key and client. -/
structure Raised (mgr mgr' : Manager) (us : List (String × Nat)) : Prop where
  effectiveState : mgr'.effectiveState = raiseAll mgr.effectiveState us
  pubkey : mgr'.pubkey = mgr.pubkey
  clientId : mgr'.clientId = mgr.clientId

theorem raised_of_place {mgr mgr' : Manager} {us : List (String × Nat)}
    (heff : mgr'.effectiveState = raiseAll mgr.effectiveState us)
    (hplace : mgr'.place = mgr.place) : Raised mgr mgr' us :=
  ⟨heff, congrArg Prod.fst hplace, congrArg (fun p => p.2.1) hplace⟩

theorem Raised.trans {m₁ m₂ m₃ : Manager} {us vs : List (String × Nat)} (h₁ : Raised m₁ m₂ us)
    (h₂ : Raised m₂ m₃ vs) : Raised m₁ m₃ (us ++ vs) := by
  refine ⟨?_, h₂.pubkey.trans h₁.pubkey, h₂.clientId.trans h₁.clientId⟩
  rw [h₂.effectiveState, h₁.effectiveState, raiseAll_append]

theorem initialized_raised (mgr : Manager) : Raised mgr mgr.initialized [] := by
  unfold initialized
  refine raised_of_place ?_ ?_ <;> repeat' split
  all_goals rfl

theorem publishSplitSlots_raised (mgr : Manager) (generateHex : Nat → String) :
    Raised mgr (mgr.publishSplitSlots generateHex).1 [] := by
  unfold publishSplitSlots
  cases hsplit : mgr.splitContextsIntoSlots generateHex with
  | none => exact ⟨rfl, rfl, rfl⟩
  | some r =>
    have hr : r.1.effectiveState = mgr.effectiveState ∧ r.1.pubkey = mgr.pubkey
        ∧ r.1.clientId = mgr.clientId := by
      unfold splitContextsIntoSlots at hsplit
      dsimp only at hsplit
      split at hsplit
      · cases hsplit
      · cases hsplit
        exact ⟨rfl, rfl, rfl⟩
    dsimp only
    split <;> exact ⟨hr.1, hr.2.1, hr.2.2⟩

theorem choosePhase_raised (mgr : Manager) (generateHex : Nat → String) :
    Raised mgr (mgr.choosePhase generateHex).1 [] := by
  unfold choosePhase
  split
  · exact mgr.publishSplitSlots_raised generateHex
  · split <;> exact ⟨rfl, rfl, rfl⟩

end Manager

open Manager

theorem mergeStep_raised {mgr mgr' : Manager} {task : MergeTask} {slotId : String}
    {task' : Option MergeTask} {es : List RelayEvent}
    (h : mergeStep cipher mgr task slotId = (mgr', task', es)) :
    Raised mgr mgr' (es.flatMap (contextsOf cipher mgr.pubkey)) := by
  unfold mergeStep at h
  split at h
  · rename_i event todo _
    cases hparse : parseReadStateEvent cipher event mgr.pubkey with
    | none =>
      rw [hparse] at h
      cases h
      rw [List.flatMap_singleton, contextsOf_none hparse]
      exact ⟨rfl, rfl, rfl⟩
    | some parsed =>
      rw [hparse] at h
      cases h
      rw [List.flatMap_singleton, contextsOf_some hparse]
      exact raised_of_place (mergeEvent_effectiveState ..) (mergeEvent_place ..)
  · split at h
    · split at h <;> cases h <;> exact ⟨rfl, rfl, rfl⟩
    · cases h
      exact raised_of_place (finishMerge_effectiveState ..) (finishMerge_place ..)

namespace Device

/-! ## What a step gives -/

/-- The step from `d` to `d'` was given local advances `us` and events `es`. -/
structure Gives (cipher : Cipher) (d d' : Device) (us : List (String × Nat))
    (es : List RelayEvent) : Prop where
  advances : d'.advances = d.advances ++ us
  processed : d'.processed = d.processed ++ es
  mgr : Raised d.mgr d'.mgr (us ++ es.flatMap (contextsOf cipher d.mgr.pubkey))

variable {cipher : Cipher} {s s₀ t t₀ d d' : Device} {a : DeviceAction} {as bs : List DeviceAction}

/-- A step that neither advances nor merges anything. -/
theorem gives_nothing (hadv : d'.advances = d.advances) (hproc : d'.processed = d.processed)
    (hmgr : Raised d.mgr d'.mgr []) : ∃ us es, Gives cipher d d' us es :=
  ⟨[], [], by rw [hadv, List.append_nil], by rw [hproc, List.append_nil], hmgr⟩

/-- **What a step can do.** -/
theorem step_gives (h : step cipher d a = some d') : ∃ us es, Gives cipher d d' us es := by
  cases a with
  | markContextRead contextId unixTimestamp now =>
    cases h
    refine ⟨[(contextId, unixTimestamp)], [], rfl, (List.append_nil _).symm, ?_⟩
    exact raised_of_place (markContextRead_effectiveState ..) (advanceContext_place ..)
  | seedContextRead contextId unixTimestamp =>
    cases h
    refine ⟨[(contextId, unixTimestamp)], [], rfl, (List.append_nil _).symm, ?_⟩
    exact raised_of_place (seedContextRead_effectiveState ..) (advanceContext_place ..)
  | receive event =>
    rw [step] at h
    -- the event waits to be handled: nothing is merged yet
    split at h <;> cases h <;> exact gives_nothing rfl rfl ⟨rfl, rfl, rfl⟩
  | handle i =>
    rw [step, handle] at h
    split at h
    · cases h
    rename_i event _
    cases h
    refine ⟨[], [event], (List.append_nil _).symm, rfl, ?_⟩
    rw [List.nil_append, List.flatMap_singleton]
    -- an event that does not parse gives nothing
    cases hparse : parseReadStateEvent cipher event d.mgr.pubkey with
    | none =>
      rw [contextsOf_none hparse]
      exact ⟨rfl, rfl, rfl⟩
    | some parsed =>
      rw [contextsOf_some hparse]
      exact raised_of_place (handleIncomingEvent_effectiveState ..) (handleIncomingEvent_place ..)
  | initialFetch events =>
    have h : d.initialFetch events = some d' := h
    unfold initialFetch at h
    split at h
    · cases h
    split at h
    · cases h
      exact gives_nothing rfl rfl (initialized_raised _)
    · cases h
      exact gives_nothing rfl rfl ⟨rfl, rfl, rfl⟩
  | mergeNext i slotId =>
    rw [step, mergeNext] at h
    split at h
    · cases h
    split at h
    · rename_i mgr task' events hmerge
      cases h
      exact ⟨[], events, (List.append_nil _).symm, rfl, mergeStep_raised hmerge⟩
    rename_i mgr events hmerge
    cases h
    refine ⟨[], events, (List.append_nil _).symm, rfl, ?_⟩
    -- the last merge of the fetch also ends the initialisation
    have hraised := (mergeStep_raised hmerge).trans (initialized_raised mgr)
    rw [List.append_nil] at hraised
    exact hraised
  | publish =>
    rw [step, publish] at h
    split at h
    · split at h
      · cases h
        exact gives_nothing rfl rfl ⟨rfl, rfl, rfl⟩
      · cases h
    · cases h
  | fetched events =>
    have h : d.fetched events = some d' := h
    unfold fetched at h
    split at h <;> cases h <;> exact gives_nothing rfl rfl ⟨rfl, rfl, rfl⟩
  | mergeOwn slotId =>
    rw [step, mergeOwn] at h
    split at h
    · split at h
      · rename_i mgr task' events hmerge
        cases h
        exact ⟨[], events, (List.append_nil _).symm, rfl, mergeStep_raised hmerge⟩
      · rename_i mgr events hmerge
        cases h
        exact ⟨[], events, (List.append_nil _).symm, rfl, mergeStep_raised hmerge⟩
    · cases h
  | choose generateHex =>
    rw [step, choose] at h
    split at h
    · have hraised := choosePhase_raised d.mgr generateHex
      revert h hraised
      generalize d.mgr.choosePhase generateHex = chosen
      intro h hraised
      cases h
      exact gives_nothing rfl rfl hraised
    · cases h
  | deleteNext =>
    rw [step, deleteNext] at h
    split at h
    · cases h
      exact gives_nothing rfl rfl ⟨rfl, rfl, rfl⟩
    · cases h
      exact gives_nothing rfl rfl ⟨rfl, rfl, rfl⟩
    · cases h
  | send nonce now =>
    rw [step, send] at h
    split at h
    · split at h <;> cases h <;> exact gives_nothing rfl rfl ⟨rfl, rfl, rfl⟩
    · cases h
  | answered stored accepted =>
    rw [step, answered] at h
    split at h
    · cases h
      refine gives_nothing rfl rfl ?_
      dsimp only
      split <;> exact ⟨rfl, rfl, rfl⟩
    · cases h
  | destroy =>
    cases h
    exact gives_nothing rfl rfl ⟨rfl, rfl, rfl⟩

theorem pubkey_step (h : step cipher d a = some d') : d'.mgr.pubkey = d.mgr.pubkey := by
  obtain ⟨us, es, hgives⟩ := step_gives h
  exact hgives.mgr.pubkey

/-- **Nothing is lowered by a step.** -/
theorem register_le_step (h : step cipher d a = some d') (k : String) :
    register d.mgr.effectiveState k ≤ register d'.mgr.effectiveState k := by
  obtain ⟨us, es, hgives⟩ := step_gives h
  rw [hgives.mgr.effectiveState, register_raiseAll]
  exact le_sup_left

theorem register_le_run (h : (machine cipher).run s as = some t) (k : String) :
    register s.mgr.effectiveState k ≤ register t.mgr.effectiveState k := by
  refine Machine.invariant (I := fun d =>
    register s.mgr.effectiveState k ≤ register d.mgr.effectiveState k)
    (P := fun _ _ => True) ?_ (le_refl _) Machine.always_true h
  intro d a d' hle _ hstep
  exact le_trans hle (register_le_step hstep k)

/-! ## What a device was given -/

/-- What the device started from, what was advanced and what the events gave. -/
def given (cipher : Cipher) (s₀ d : Device) : List (String × Nat) :=
  s₀.mgr.effectiveState.entries ++ d.advances ++
    d.processed.flatMap (contextsOf cipher s₀.mgr.pubkey)

/-- A device before its first step; what it holds comes from local storage. -/
structure Hydrated (d : Device) : Prop where
  handling : d.handling = []
  merges : d.merges = []
  phase : d.phase = .idle
  advances : d.advances = []
  processed : d.processed = []
  published : d.published = []
  /-- A stored timestamp is set only where it is greater than zero. -/
  noBottom : NoBottom d.mgr.effectiveState

/-- **The register invariant**: the device holds the maximum of what it was given. -/
structure Holds (cipher : Cipher) (s₀ d : Device) : Prop where
  pubkey : d.mgr.pubkey = s₀.mgr.pubkey
  register : register d.mgr.effectiveState = joined (given cipher s₀ d)
  noBottom : NoBottom d.mgr.effectiveState

theorem holds_init (h : Hydrated s₀) : Holds cipher s₀ s₀ := by
  refine ⟨rfl, ?_, h.noBottom⟩
  unfold given
  rw [h.advances, h.processed, List.flatMap_nil, List.append_nil, List.append_nil,
    register_eq_joined]

theorem holds_step (hd : Holds cipher s₀ d) (h : step cipher d a = some d') :
    Holds cipher s₀ d' := by
  obtain ⟨us, es, hgives⟩ := step_gives h
  refine ⟨hgives.mgr.pubkey.trans hd.pubkey, ?_, ?_⟩
  · rw [hgives.mgr.effectiveState, register_raiseAll, hd.register, ← joined_append]
    refine joined_congr ?_
    intro u
    unfold given
    rw [hgives.advances, hgives.processed, hd.pubkey]
    -- the same updates, listed in another order
    simp only [List.mem_append, List.flatMap_append]
    tauto
  · rw [hgives.mgr.effectiveState]
    exact hd.noBottom.raiseAll

theorem holds_run (h₀ : Hydrated s₀) (h : (machine cipher).run s₀ as = some s) :
    Holds cipher s₀ s :=
  Machine.invariant (P := fun _ _ => True) (fun _ _ _ hd _ hstep => holds_step hd hstep)
    (holds_init h₀) Machine.always_true h

end Device

/-! ## What a device publishes -/

/-- The contexts a publish still has to send. -/
def Phase.contexts : Phase → List Record
  | .deleting _ contexts => [contexts]
  | .publishing slots _ => slots.map Prod.snd
  | _ => []

/-- The event on its way, with its contexts. -/
def Phase.sent : Phase → Option (Record × RelayEvent)
  | .publishing ((_, contexts) :: _) (some event) => some (contexts, event)
  | _ => none

/-- No timestamp of the contexts is above the one held. -/
def Manager.Covers (mgr : Manager) (contexts : Record) : Prop :=
  ∀ k t, contexts.get k = some t → t ≤ register mgr.effectiveState k

theorem Manager.Covers.mono {mgr mgr' : Manager} {contexts : Record} (h : mgr.Covers contexts)
    (hle : ∀ k, register mgr.effectiveState k ≤ register mgr'.effectiveState k) :
    mgr'.Covers contexts :=
  fun k t hk => le_trans (h k t hk) (hle k)

theorem Phase.next_contexts (slots : List (String × Record)) :
    (Phase.next slots).contexts = slots.map Prod.snd ∧ (Phase.next slots).sent = none := by
  cases slots <;> exact ⟨rfl, rfl⟩

theorem Manager.covers_of_get {mgr : Manager} {contexts : Record}
    (h : ∀ k t, contexts.get k = some t → mgr.effectiveState.get k = some t) :
    mgr.Covers contexts := by
  intro k t hk
  unfold register
  rw [h k t hk]
  exact le_refl t

theorem Manager.publishSingle_phase (mgr : Manager) (contexts : Record) :
    (∀ c ∈ (mgr.publishSingle contexts).contexts, c = contexts) ∧
    (mgr.publishSingle contexts).sent = none := by
  unfold Manager.publishSingle
  split
  · exact ⟨fun c hc => absurd hc (by simp [Phase.contexts]), rfl⟩
  · exact ⟨fun c hc => by simpa [Phase.contexts] using hc, rfl⟩

/-- What a publish sets out to send lies below what is held. -/
theorem Manager.choosePhase_phase (mgr : Manager) (generateHex : Nat → String) :
    (∀ c ∈ (mgr.choosePhase generateHex).2.contexts, mgr.Covers c)
      ∧ (mgr.choosePhase generateHex).2.sent = none := by
  unfold Manager.choosePhase
  cases hcur : mgr.currentContexts with
  | some contexts =>
    have hcov : mgr.Covers contexts := mgr.covers_of_get fun k t hk =>
      (of_currentContexts hcur hk).1
    dsimp only
    split
    · refine ⟨?_, rfl⟩
      intro c hc
      rw [List.mem_singleton.mp hc]
      exact hcov
    · refine ⟨?_, (mgr.publishSingle_phase contexts).2⟩
      intro c hc
      rw [(mgr.publishSingle_phase contexts).1 c hc]
      exact hcov
  | none =>
    unfold Manager.publishSplitSlots
    cases hsplit : mgr.splitContextsIntoSlots generateHex with
    | none => exact ⟨fun c hc => absurd hc (by simp [Phase.contexts]), rfl⟩
    | some r =>
      dsimp only
      split
      · exact ⟨fun c hc => absurd hc (by simp [Phase.contexts]), rfl⟩
      dsimp only
      rw [(Phase.next_contexts r.2).1, (Phase.next_contexts r.2).2]
      refine ⟨?_, rfl⟩
      intro c hc
      obtain ⟨slot, hslot, hslotc⟩ := List.mem_map.mp hc
      rw [← hslotc]
      exact mgr.covers_of_get fun k t hk => (of_splitContextsIntoSlots hsplit hslot hk).1

namespace Device

variable {cipher : Cipher} {s s₀ t t₀ d d' : Device} {a : DeviceAction} {as bs : List DeviceAction}

/-- **The publishing invariant.** -/
structure Publishes (cipher : Cipher) (d : Device) : Prop where
  contexts : ∀ c ∈ d.phase.contexts, d.mgr.Covers c
  /-- The event on its way carries the contexts it was made from. -/
  sent : ∀ c e, d.phase.sent = some (c, e) →
    ∃ clientId, cipher.decrypt e.content = some (ReadStateBlob.value ⟨clientId, c⟩)
  /-- What the relay has stored is still held. -/
  published : ∀ e ∈ d.published, ∀ k t, (k, t) ∈ contextsOf cipher d.mgr.pubkey e →
    t ≤ register d.mgr.effectiveState k

theorem publishes_init (h : Hydrated s₀) : Publishes cipher s₀ := by
  refine ⟨?_, ?_, ?_⟩
  · rw [h.phase]
    intro c hc
    cases hc
  · rw [h.phase]
    intro c e hce
    cases hce
  · rw [h.published]
    intro e he
    cases he

/-- Steps that leave the publish alone, or end a part of it. -/
theorem Publishes.keep (hd : Publishes cipher d) (h : step cipher d a = some d')
    (hctx : ∀ c ∈ d'.phase.contexts, c ∈ d.phase.contexts)
    (hsent : d'.phase.sent = none ∨ d'.phase.sent = d.phase.sent)
    (hpub : d'.published = d.published) : Publishes cipher d' := by
  refine ⟨?_, ?_, ?_⟩
  · intro c hc
    exact (hd.contexts c (hctx c hc)).mono (register_le_step h)
  · intro c e hce
    rcases hsent with hsent | hsent
    · rw [hsent] at hce
      cases hce
    · rw [hsent] at hce
      exact hd.sent c e hce
  · intro e he k t hkt
    rw [hpub] at he
    rw [pubkey_step h] at hkt
    exact le_trans (hd.published e he k t hkt) (register_le_step h k)

/-- A step that starts a phase with nothing on its way. -/
theorem Publishes.enter (hd : Publishes cipher d) (h : step cipher d a = some d')
    (hctx : ∀ c ∈ d'.phase.contexts, d'.mgr.Covers c) (hsent : d'.phase.sent = none)
    (hpub : d'.published = d.published) : Publishes cipher d' := by
  refine ⟨hctx, ?_, ?_⟩
  · intro c e hce
    rw [hsent] at hce
    cases hce
  · intro e he k t hkt
    rw [hpub] at he
    rw [pubkey_step h] at hkt
    exact le_trans (hd.published e he k t hkt) (register_le_step h k)

theorem choose_eq_some {generateHex : Nat → String} (h : choose d generateHex = some d') :
    d'.mgr = (d.mgr.choosePhase generateHex).1 ∧ d'.phase = (d.mgr.choosePhase generateHex).2
      ∧ d'.published = d.published := by
  unfold choose at h
  split at h
  · revert h
    generalize d.mgr.choosePhase generateHex = chosen
    intro h
    cases h
    exact ⟨rfl, rfl, rfl⟩
  · cases h

/-- What the relay stores was on its way. -/
theorem answered_eq_some {stored accepted : Bool} (h : answered d stored accepted = some d') :
    ∃ slotId contexts slots event, d.phase = .publishing ((slotId, contexts) :: slots) (some event)
      ∧ d'.phase = .next slots ∧
        d'.published = (if stored then d.published ++ [event] else d.published)
      ∧ d'.mgr = (if accepted then d.mgr.slotPublished contexts event.createdAt else d.mgr) := by
  unfold answered at h
  split at h
  · rename_i slotId contexts slots event hphase
    cases h
    exact ⟨slotId, contexts, slots, event, hphase, rfl, rfl, rfl⟩
  · cases h

theorem send_eq_some {nonce now : Nat} (h : send cipher d nonce now = some d') :
    ∃ slotId contexts slots, d.phase = .publishing ((slotId, contexts) :: slots) none
      ∧ ((cipher.encrypt nonce ⟨d.mgr.clientId,
        contexts⟩ = none ∧ d' = { d with phase := .next slots })
        ∨ ∃ content, cipher.encrypt nonce ⟨d.mgr.clientId, contexts⟩ = some content
          ∧ d' = { d with
              phase := .publishing ((slotId, contexts) :: slots)
                (some (d.mgr.slotEvent slotId content now)) }) := by
  unfold send at h
  split at h
  · rename_i slotId contexts slots hphase
    refine ⟨slotId, contexts, slots, hphase, ?_⟩
    split at h
    · rename_i hnone
      exact .inl ⟨hnone, (Option.some.inj h).symm⟩
    · rename_i content hsome
      exact .inr ⟨content, hsome, (Option.some.inj h).symm⟩
  · cases h

theorem publishes_step (hcipher : cipher.RoundTrip) (hd : Publishes cipher d)
    (h : step cipher d a = some d') : Publishes cipher d' := by
  have hstep := h
  cases a with
  | markContextRead contextId unixTimestamp now | seedContextRead contextId unixTimestamp
  | destroy =>
    cases h
    exact hd.keep hstep (fun c hc => hc) (.inr rfl) rfl
  | receive event =>
    rw [step] at h
    split at h <;> cases h <;> exact hd.keep hstep (fun c hc => hc) (.inr rfl) rfl
  | handle i =>
    rw [step, handle] at h
    split at h
    · cases h
    · cases h
      exact hd.keep hstep (fun c hc => hc) (.inr rfl) rfl
  | initialFetch events =>
    have h : d.initialFetch events = some d' := h
    unfold initialFetch at h
    split at h
    · cases h
    · split at h <;> cases h <;> exact hd.keep hstep (fun c hc => hc) (.inr rfl) rfl
  | mergeNext i slotId =>
    rw [step, mergeNext] at h
    split at h
    · cases h
    · split at h <;> cases h <;> exact hd.keep hstep (fun c hc => hc) (.inr rfl) rfl
  | publish =>
    rw [step, publish] at h
    split at h
    · split at h
      · cases h
        exact hd.keep hstep (fun c hc => absurd hc List.not_mem_nil) (.inl rfl) rfl
      · cases h
    · cases h
  | fetched events =>
    have h : d.fetched events = some d' := h
    unfold fetched at h
    split at h <;> cases h <;> exact hd.keep hstep (fun c hc =>
      absurd hc List.not_mem_nil) (.inl rfl) rfl
  | mergeOwn slotId =>
    rw [step, mergeOwn] at h
    split at h
    · split at h <;> cases h <;> exact hd.keep hstep (fun c hc =>
        absurd hc List.not_mem_nil) (.inl rfl) rfl
    · cases h
  | choose generateHex =>
    obtain ⟨_, hphase, hpub⟩ := choose_eq_some h
    obtain ⟨hctx, hsent⟩ := d.mgr.choosePhase_phase generateHex
    refine hd.enter hstep ?_ (by rw [hphase, hsent]) hpub
    rw [hphase]
    intro c hc
    exact (hctx c hc).mono (register_le_step hstep)
  | deleteNext =>
    rw [step, deleteNext] at h
    split at h
    · rename_i slotIds contexts hphase
      cases h
      refine hd.keep hstep ?_ (.inl rfl) rfl
      rw [hphase]
      intro c hc
      exact hc
    · rename_i contexts hphase
      have hcov := hd.contexts contexts (by rw [hphase]; exact List.mem_singleton_self _)
      cases h
      refine hd.enter hstep ?_ (Manager.publishSingle_phase _ _).2 rfl
      intro c hc
      rw [(Manager.publishSingle_phase _ _).1 c hc]
      exact hcov.mono (register_le_step hstep)
    · cases h
  | send nonce now =>
    obtain ⟨slotId, contexts, slots, hphase, hcase⟩ := send_eq_some h
    rcases hcase with ⟨_, hd'⟩ | ⟨content, henc, hd'⟩
    · refine hd.keep hstep ?_ (.inl ?_) (by rw [hd'])
      · rw [hd', hphase, (Phase.next_contexts slots).1]
        intro c hc
        exact List.mem_cons_of_mem _ hc
      · rw [hd', (Phase.next_contexts slots).2]
    · refine ⟨?_, ?_, ?_⟩
      · intro c hc
        rw [hd'] at hc
        refine (hd.contexts c ?_).mono (register_le_step hstep)
        rw [hphase]
        exact hc
      · -- the event carries the contexts at the head of the list
        intro c e hce
        rw [hd'] at hce
        cases hce
        exact ⟨d.mgr.clientId, hcipher _ _ _ henc⟩
      · rw [hd']
        exact hd.published
  | answered stored accepted =>
    obtain ⟨slotId, contexts, slots, event, hphase, hphase', hpub, _⟩ := answered_eq_some h
    refine ⟨?_, ?_, ?_⟩
    · rw [hphase', (Phase.next_contexts slots).1]
      intro c hc
      refine (hd.contexts c ?_).mono (register_le_step hstep)
      rw [hphase]
      exact List.mem_cons_of_mem _ hc
    · rw [hphase', (Phase.next_contexts slots).2]
      intro c e hce
      cases hce
    · intro e he k t hkt
      rw [pubkey_step hstep] at hkt
      have hheld : e ∈ d.published ∨ e = event := by
        rw [hpub] at he
        split at he
        · exact (List.mem_append.mp he).imp id List.mem_singleton.mp
        · exact .inl he
      rcases hheld with he | he
      · exact le_trans (hd.published e he k t hkt) (register_le_step hstep k)
      -- the stored event says what its contexts said
      obtain ⟨clientId, hdec⟩ := hd.sent contexts event (by rw [hphase]; rfl)
      rw [he] at hkt
      have hget := mem_contextsOf hdec hkt
      refine le_trans (hd.contexts contexts ?_ k t hget) (register_le_step hstep k)
      rw [hphase]
      exact List.mem_cons_self

theorem publishes_run (hcipher : cipher.RoundTrip) (h₀ : Hydrated s₀)
    (h : (machine cipher).run s₀ as = some s) : Publishes cipher s :=
  Machine.invariant (P := fun _ _ => True) (fun _ _ _ hd _ hstep => publishes_step hcipher hd hstep)
    (publishes_init h₀) Machine.always_true h

/-! ## Two devices -/

/-- Each blob one of them has processed, the other has processed or published itself; and
each has processed what the other published. -/
structure Exchanged (s t : Device) : Prop where
  left : ∀ e ∈ s.processed, e ∈ t.processed ∨ e ∈ t.published
  right : ∀ e ∈ t.processed, e ∈ s.processed ∨ e ∈ s.published
  fromLeft : ∀ e ∈ s.published, e ∈ t.processed
  fromRight : ∀ e ∈ t.published, e ∈ s.processed

theorem Exchanged.symm (h : Exchanged s t) : Exchanged t s :=
  ⟨h.right, h.left, h.fromRight, h.fromLeft⟩

/-- What the device itself advanced `k` to, or started from, is in a blob it published. -/
def HasPublished (cipher : Cipher) (s₀ s : Device) (k : String) : Prop :=
  ∀ t, (k, t) ∈ s₀.mgr.effectiveState.entries ++ s.advances →
    ∃ e ∈ s.published, ∃ t', t ≤ t' ∧ (k, t') ∈ contextsOf cipher s₀.mgr.pubkey e

theorem register_le_of_exchanged (hs : Holds cipher s₀ s) (ht : Holds cipher t₀ t)
    (hpt : Publishes cipher t)
    (hkey : s₀.mgr.pubkey = t₀.mgr.pubkey) (hex : Exchanged s t) {k : String}
    (hk : HasPublished cipher s₀ s k) :
    register s.mgr.effectiveState k ≤ register t.mgr.effectiveState k := by
  have hprocessed : ∀ e ∈ t.processed, ∀ v, (k, v) ∈ contextsOf cipher s₀.mgr.pubkey e →
      v ≤ register t.mgr.effectiveState k := by
    intro e he v hv
    rw [ht.register]
    refine le_joined (List.mem_append_right _ (List.mem_flatMap.mpr ⟨e, he, ?_⟩))
    rw [← hkey]
    exact hv
  rw [hs.register]
  refine joined_le ?_
  intro v hv
  rcases List.mem_append.mp hv with hv | hv
  · -- an advance of its own: the other device has processed the blob that carries it
    obtain ⟨e, he, v', hle, hv'⟩ := hk v hv
    exact le_trans hle (hprocessed e (hex.fromLeft e he) v' hv')
  obtain ⟨e, he, hv⟩ := List.mem_flatMap.mp hv
  rcases hex.left e he with he | he
  · exact hprocessed e he v hv
  · refine hpt.published e he k v ?_
    rw [ht.pubkey, ← hkey]
    exact hv

def exampleBlob : ReadStateBlob := ⟨"laptop", ⟨[("general", 5)], List.nodup_singleton _⟩⟩

/-- It encrypts one blob. -/
def exampleCipher : Cipher where
  encrypt := fun _ blob => if blob = exampleBlob then some "sealed" else none
  decrypt := fun content => if content = "sealed" then some exampleBlob.value else none

theorem exampleCipher_roundTrip : exampleCipher.RoundTrip := by
  intro nonce blob content h
  unfold exampleCipher at h ⊢
  dsimp only at h ⊢
  split at h
  · rename_i hblob
    rw [← Option.some.inj h, if_pos rfl, hblob]
  · cases h

/-- A device with empty storage. -/
def exampleDevice (clientId slotId : String) : Device where
  mgr := {
    pubkey := "user"
    clientId, slotId
    extraSlotIds := []
    effectiveState := .empty
    publishableContextIds := ∅
    lastPublishedContexts := .empty
    publishScheduled := false
    maxFetchedCreatedAt := 0
    contextSourceCreatedAt := .empty
    pendingSyncedAdvances := ∅
    destroyed := false }
  handling := []
  merges := []
  phase := .idle
  advances := []
  processed := []
  published := []

theorem exampleDevice_hydrated (clientId slotId : String) :
    Hydrated (exampleDevice clientId slotId) :=
  ⟨rfl, rfl, rfl, rfl, rfl, rfl, fun _ h => nomatch h⟩

def exampleEvent : RelayEvent := (exampleDevice "laptop" "0a").mgr.slotEvent "0a" "sealed" 100

theorem exampleLaptop_run : ∃ d, (machine exampleCipher).run (exampleDevice "laptop" "0a")
      [.markContextRead "general" 5 100, .publish, .fetched (some []), .mergeOwn "",
        .choose fun _ => "", .send 0 100, .answered true true] = some d
    ∧ d.processed = [] ∧ d.published = [exampleEvent] ∧ d.advances = [("general", 5)] :=
  ⟨_, rfl, rfl, rfl, rfl⟩

theorem examplePhone_run : ∃ d, (machine exampleCipher).run (exampleDevice "phone" "0b")
      [.receive exampleEvent, .handle 0] = some d
    ∧ d.processed = [exampleEvent] ∧ d.published = [] ∧ d.advances = [] :=
  ⟨_, rfl, rfl, rfl, rfl⟩

theorem exampleEvent_contexts : ("general", 5) ∈ contextsOf exampleCipher "user" exampleEvent := by
  decide

end Device

end Pkzz.ReadState
