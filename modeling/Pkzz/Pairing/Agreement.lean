import Pkzz.Pairing.Network

/-!
# Source and target agree

What a target returns was sent by the source, to this target and with both users'
confirmation; and when the source has completed, the target has got what was sent
(`pairing_agreement`). The payload can only come from the source, so its p-tag names the
target; a completion can only come from the target, because the source talks to the author
of the offer it accepted, and nobody else could make that offer (`offer_by_target`).
-/

namespace Pkzz.Pairing

open Pkzz.Core Pkzz.Lib PairingSession

variable {crypto : Crypto} {setup : Setup} {w : World} {pre log : List Logged}
    {x : Logged} {y : Entry}
  {payloadType : PayloadType} {payload : String} {event : Event}

/-- Why a target may return a payload, in both logs. -/
structure Received (crypto : Crypto) (setup : Setup) (pre : List Logged) (payloadType : PayloadType)
    (payload : String) : Prop where
  /-- The source has sent it, to the key of the target. -/
  sent : ∃ y e, ⟨.source, y⟩ ∈ pre ∧ y.Sends payloadType payload e
    ∧ y.before.peerPubkey = some (setup.target.pubkey crypto)
  sourceConfirmed : ∃ y, ⟨.source, y⟩ ∈ pre ∧ y.Confirmed
  targetConfirmed : ∃ y, ⟨.target, y⟩ ∈ pre ∧ y.TargetConfirmed

/-- What the two sessions agree on. -/
structure Agreement (crypto : Crypto) (setup : Setup) (w : World) : Prop where
  received : Justified (fun pre x => x.role = .target → ∀ event payloadType payload,
    x.entry.Receives event payloadType payload →
      Received crypto setup pre payloadType payload) w.log
  /-- Both have the same session id and SAS code. -/
  same : ∀ y event payloadType payload, ⟨.target, y⟩ ∈ w.log →
    y.Receives event payloadType payload → w.source.sessionId = w.target.sessionId
      ∧ ∃ code, w.source.sasCode = some code ∧ w.target.sasCode = some code
  /-- A source that has completed has sent one payload, and the target has it. -/
  completed : w.source.state = .completed → ∃ payloadType payload,
    (∃ y event, ⟨.target, y⟩ ∈ w.log ∧ y.Receives event payloadType payload)
      ∧ (∃ y event, ⟨.source, y⟩ ∈ w.log ∧ y.Sends payloadType payload event)
      ∧ ∀ y payloadType' payload' event, ⟨.source, y⟩ ∈ w.log →
        y.Sends payloadType' payload' event → payloadType' = payloadType ∧ payload' = payload

/-! ## Who a session talks to -/

theorem Caused.role (hpaired : Paired crypto setup) (h : Caused crypto setup pre x) :
    x.entry.before.role = x.role := h.made.path.fixed.role.trans (role_of_paired hpaired x.role)

theorem Caused.pubkey (h : Caused crypto setup pre x) :
    x.entry.before.pubkey crypto = (setup.session x.role).pubkey crypto := by
  unfold PairingSession.pubkey
  rw [h.made.path.fixed.keys]

theorem target_peer (hpaired : Paired crypto setup) {s : PairingSession} {history : List Entry}
    (h : OnPath crypto (setup.source.pubkey crypto) setup.target s history) :
    s.peerPubkey = some (setup.source.pubkey crypto) := by
  have hrole : setup.target.role = .target := role_of_paired hpaired .target
  exact (h.fixed.target hrole).1.trans
    ((ready_of_started (started_of_paired hpaired .target)).peer hrole)

/-- What the target reads was built by the source. -/
theorem sent_by_source (hlaw : Lawful crypto) (hpaired : Paired crypto setup)
    (hpre : Justified (Caused crypto setup) pre) (hcaused : Caused crypto setup pre x)
    (hrole : x.role = .target)
    (hreceives : x.entry.Receives event payloadType payload) : ∃ y e, ⟨.source, y⟩ ∈ pre
      ∧ y.Sends payloadType payload e ∧
        y.before.peerPubkey = some (setup.target.pubkey crypto) := by
  obtain ⟨role, env, api, before, reply, after⟩ := x
  obtain ⟨hapi, hreply⟩ := hreceives
  dsimp only at hapi hreply hrole
  subst hapi hreply hrole
  have heff : Effect crypto env before _ _ after := hcaused.made.effect
  cases heff with
  | payloadReceived _ _ _ hstate _ hreads =>
    have hauthor := hreads.peer _ (target_peer hpaired hcaused.made.path)
    have hpubkey := hcaused.pubkey
    cases reads_built hlaw hpaired hpre hcaused rfl hreads.toReads with
    | offer _ hmsg =>
      obtain ⟨_, hmsg⟩ := hmsg
      cases hmsg
    | built role y e' hy _ hpeer hmakes =>
      cases hmakes with
      | payload _ _ hsource hsends =>
        obtain ⟨_, _, _, _, hycaused⟩ := hpre.of_mem hy
        have hyrole : role = .source := (hycaused.role hpaired).symm.trans hsource
        rw [hyrole] at hy
        exact ⟨y, e', hy, hsends, hpeer.trans (congrArg some hpubkey)⟩
    | foreign _ _ hne => exact absurd hauthor (hne .source)

/-- **The source accepts only the offer of the target.** -/
theorem offer_by_target (hlaw : Lawful crypto) (hpaired : Paired crypto setup)
    (hpre : Justified (Caused crypto setup) pre) (hcaused : Caused crypto setup pre x)
    (hrole : x.role = .source)
    (hoffered : x.entry.Offered crypto event) : event.pubkey = setup.target.pubkey crypto := by
  obtain ⟨role, env, api, before, reply, after⟩ := x
  obtain ⟨hapi, hok, _⟩ := hoffered
  dsimp only at hapi hrole
  subst hapi hrole
  have heff : Effect crypto env before _ reply after := hcaused.made.effect
  cases heff with
  | rejected => cases hok
  | offered _ sessionIdHex _ hstate _ hreads hid =>
    cases reads_built hlaw hpaired hpre hcaused rfl hreads with
    | offer hpubkey _ => exact hpubkey
    | built _ _ _ _ _ _ hmakes => cases hmakes
    | foreign auths hauths hne hforeign =>
      exact absurd hforeign
        (not_foreign_offer hlaw hpaired hpre hcaused.made.path hstate hreads hid hauths
          (hne .target))

/-- When the source has completed, the target had received a payload. -/
theorem completed_by_target (hlaw : Lawful crypto) (hpaired : Paired crypto setup)
    (hpre : Justified (Caused crypto setup) pre) (hcaused : Caused crypto setup pre x)
    (hrole : x.role = .source) (hcompleted : x.entry.Completed event) :
    ∃ y e payloadType payload, ⟨.target, y⟩ ∈ pre ∧ y.Receives e payloadType payload := by
  obtain ⟨role, env, api, before, reply, after⟩ := x
  obtain ⟨hapi, hok⟩ := hcompleted
  dsimp only at hapi hrole
  subst hapi hrole
  have heff : Effect crypto env before _ reply after := hcaused.made.effect
  cases heff with
  | rejected => cases hok
  | completeFailed => cases hok
  | completed _ hstate hsource hreads =>
    -- the peer is the author of the accepted offer
    have hpath := hcaused.made.path.source (role_of_paired hpaired .source)
    unfold SourcePath at hpath
    rw [hstate] at hpath
    obtain ⟨o, offer, _, _, ho, hpeer, _, _, hl⟩ := hpath
    have homem : ⟨.source, o⟩ ∈ pre := by
      refine mem_historyOf.mp (mem_acceptedOf.mp ?_).1
      rw [hl]
      exact List.mem_cons_self
    obtain ⟨opre, _, _, hopre, hocaused⟩ := hpre.of_mem homem
    have htarget := offer_by_target hlaw hpaired hopre hocaused rfl ho
    have hauthor := (hreads.peer _ hpeer).trans htarget
    cases reads_built hlaw hpaired hpre hcaused rfl hreads.toReads with
    | offer _ hmsg =>
      obtain ⟨_, hmsg⟩ := hmsg
      cases hmsg
    | foreign _ _ hne => exact absurd hauthor (hne .target)
    | built role y e' hy _ _ hmakes =>
      cases hmakes with
      | complete hrole hexchanged _ =>
        obtain ⟨ypre, ypost, hsplit, _, hycaused⟩ := hpre.of_mem hy
        have hyrole : role = .target := (hycaused.role hpaired).symm.trans hrole
        subst hyrole
        have hpath := hycaused.made.path.target (role_of_paired hpaired .target)
        unfold TargetPath at hpath
        rw [hexchanged] at hpath
        obtain ⟨_, _, _, p, _, _, ⟨e, payloadType, payload, hreceives⟩, hl⟩ := hpath
        have hpmem : ⟨.target, p⟩ ∈ ypre := by
          refine mem_historyOf.mp (mem_acceptedOf.mp ?_).1
          rw [hl]
          simp
        refine ⟨p, e, payloadType, payload, ?_, hreceives⟩
        rw [hsplit]
        exact List.mem_append_left _ hpmem

/-! ## Agreement -/

theorem received_of_caused (hlaw : Lawful crypto) (hpaired : Paired crypto setup)
    (hpre : Justified (Caused crypto setup) pre) (hcaused : Caused crypto setup pre x)
    (hrole : x.role = .target) (hreceives : x.entry.Receives event payloadType payload) :
    Received crypto setup pre payloadType payload := by
  obtain ⟨y, e, hy, hsends, hpeer⟩ := sent_by_source hlaw hpaired hpre hcaused hrole hreceives
  refine ⟨⟨y, e, hy, hsends, hpeer⟩, ?_, ?_⟩
  · -- the confirmation of the source comes before what it sends
    obtain ⟨ypre, ypost, hsplit, _, hycaused⟩ := hpre.of_mem hy
    obtain ⟨a, o, b, _, hhistory, _, ⟨c, hc, hconfirmed⟩, _⟩ := (maySend hycaused.made hsends).offer
    have hmem : c ∈ historyOf .source ypre := by
      rw [hhistory]
      exact List.mem_append_right a (List.mem_cons_of_mem o hc)
    refine ⟨c, ?_, hconfirmed⟩
    rw [hsplit]
    exact List.mem_append_left _ (mem_historyOf.mp hmem)
  · obtain ⟨a, o, b, _, hhistory, _, c, hc, hconfirmed⟩ :=
      (mayReceive hcaused.made hreceives).confirmed
    have hmem : c ∈ historyOf x.role pre := by
      rw [hhistory]
      exact List.mem_append_right a (List.mem_cons_of_mem o hc)
    rw [hrole] at hmem
    exact ⟨c, mem_historyOf.mp hmem, hconfirmed⟩

/-- Both sessions derive the SAS code from the same shared key. -/
theorem same_sas (hlaw : Lawful crypto) (hpaired : Paired crypto setup) (h : NetInv crypto setup w)
    (hpeer : w.source.peerPubkey = some (setup.target.pubkey crypto)) :
    w.source.sessionId = w.target.sessionId
      ∧ ∃ code, w.source.sasCode = some code ∧ w.target.sasCode = some code := by
  have hsource : Fixed setup.source w.source := (h.path .source).fixed
  have htarget : Fixed setup.target w.target := (h.path .target).fixed
  have hrole : setup.target.role = .target := role_of_paired hpaired .target
  obtain ⟨ecdh, hecdh, hcode⟩ := h.sas.sas _ hpeer
  obtain ⟨env, env', secretKey, secretKey', sessionSecret, relayUrl, hnew, hnew'⟩ := hpaired.created
  obtain ⟨ecdh', _, hecdh', hs, _⟩ := newTarget_ok hnew'
  have hsecret : setup.source.sessionSecret = sessionSecret := by
    rw [← hnew]
    rfl
  have hid : setup.source.sessionId = crypto.deriveSessionId sessionSecret := by
    rw [← hnew]
    rfl
  have hkeys : setup.source.keys = secretKey := by
    rw [← hnew]
    rfl
  have hsame : ecdh = ecdh' := by
    have hshared := hlaw.shared secretKey secretKey'
    rw [hsource.keys, hkeys] at hecdh
    have htkeys : setup.target.keys = secretKey' := by rw [hs]
    unfold PairingSession.pubkey at hecdh
    rw [htkeys, hshared] at hecdh
    exact Except.ok.inj (hecdh.symm.trans hecdh')
  refine ⟨?_, _, hcode, ?_⟩
  · rw [hsource.sessionId, htarget.sessionId, hid, hs]
    rfl
  · rw [(htarget.target hrole).2.1, hsource.sessionSecret, hsecret, hsame, hs]
    rfl

/-- **Source and target agree**, whatever calls are made and whatever the network does. -/
theorem pairing_agreement (hlaw : Lawful crypto) (hpaired : Paired crypto setup)
    {ops : List WorldOp} (h : (pairingWorld crypto).run (World.init setup) ops = some w)
    (hnet : (pairingWorld crypto).Always (Delivers crypto setup) (World.init setup) ops) :
    Agreement crypto setup w := by
  have hinv := netInv_run hpaired h hnet
  refine ⟨?_, ?_, ?_⟩
  · refine hinv.caused.imp ?_
    intro pre x hpre hcaused hrole event payloadType payload hreceives
    exact received_of_caused hlaw hpaired hpre hcaused hrole hreceives
  · intro y event payloadType payload hy hreceives
    obtain ⟨pre, post, hsplit, hpre, hcaused⟩ := hinv.caused.of_mem hy
    obtain ⟨z, e, hz, _, hpeer⟩ := sent_by_source hlaw hpaired hpre hcaused rfl hreceives
    refine same_sas hlaw hpaired hinv (hinv.sas.kept z (mem_historyOf.mpr ?_) _ hpeer)
    rw [hsplit]
    exact List.mem_append_left _ hz
  · intro hstate
    have hpath := (hinv.path .source).source (role_of_paired hpaired .source)
    unfold SourcePath at hpath
    rw [show (w.session .source).state = .completed from hstate] at hpath
    obtain ⟨o, offer, c, p, d, ho, _, hc, ⟨payloadType, payload, e, hp⟩, ⟨_, hd⟩, hl⟩ := hpath
    have hmem : ∀ z, z ∈ [o, c, p, d] → ⟨.source, z⟩ ∈ w.log := by
      intro z hz
      rw [← hl] at hz
      exact mem_historyOf.mp (mem_acceptedOf.mp hz).1
    have honly : ∀ z payloadType' payload' event, ⟨.source, z⟩ ∈ w.log →
        z.Sends payloadType' payload' event → payloadType' = payloadType ∧ payload' = payload := by
      intro z payloadType' payload' event hz hsends
      have hzmem := mem_acceptedOf.mpr ⟨mem_historyOf.mpr hz, hsends.accepted⟩
      have hz4 : z ∈ [o, c, p, d] := by
        rw [← hl]
        exact hzmem
      simp only [List.mem_cons, List.not_mem_nil, or_false] at hz4
      rcases hz4 with hz | hz | hz | hz
      · exact absurd hz (api_ne hsends.api ho.api (fun h => nomatch h))
      · exact absurd hz (api_ne hsends.api hc.api (fun h => nomatch h))
      · rw [hz] at hsends
        have happ := hsends.api.symm.trans hp.api
        cases happ
        exact ⟨rfl, rfl⟩
      · exact absurd hz (api_ne hsends.api hd.api (fun h => nomatch h))
    obtain ⟨pre, post, hsplit, hpre, hcaused⟩ := hinv.caused.of_mem (hmem d (by simp))
    obtain ⟨y, e', payloadType', payload', hy, hreceives⟩ :=
      completed_by_target hlaw hpaired hpre hcaused rfl hd
    obtain ⟨ypre, ypost, hysplit, hypre, hycaused⟩ := hpre.of_mem hy
    obtain ⟨z, ez, hz, hsends, _⟩ := sent_by_source hlaw hpaired hypre hycaused rfl hreceives
    have hzlog : ⟨.source, z⟩ ∈ w.log := by
      rw [hsplit, hysplit]
      exact List.mem_append_left _ (List.mem_append_left _ hz)
    obtain ⟨htype, hpayload⟩ := honly z payloadType' payload' ez hzlog hsends
    rw [htype, hpayload] at hreceives
    refine ⟨payloadType, payload, ⟨y, e', ?_, hreceives⟩, ⟨p, e, hmem p (by simp), hp⟩, honly⟩
    rw [hsplit]
    exact List.mem_append_left _ hy

/-! ## A pairing from start to end -/

def exampleSetup : Setup :=
  match newTarget exampleCrate (exampleEnv 1) exampleTargetKey exampleSource.2 with
  | .ok (target, offer) => ⟨exampleSource.1, target, offer⟩
  | .error _ => ⟨exampleSource.1, exampleSource.1, exampleOffer⟩

theorem exampleSetup_paired : Paired exampleCrate exampleSetup := by
  obtain ⟨target, offer, hjoin⟩ := exampleTarget_joins
  have hsetup : exampleSetup = ⟨exampleSource.1, target, offer⟩ := by
    unfold exampleSetup
    rw [hjoin]
  refine ⟨⟨exampleEnv 0, exampleEnv 1, exampleSecretKey, exampleTargetKey, exampleSecret,
    "wss://relay.example", ?_, ?_⟩⟩
  · rw [hsetup]
    rfl
  · rw [hsetup]
    exact hjoin

def exampleInit : World := World.init exampleSetup

def exampleRun (ops : List WorldOp) : World :=
  ((pairingWorld exampleCrate).run exampleInit ops).getD exampleInit

/-- The event that was built last. -/
def latest (w : World) : Event :=
  (w.log.getLast?.bind fun x => x.entry.built).getD exampleSetup.offer

def exampleOffering : List WorldOp :=
  [.call .source (exampleEnv 2) (.handleOffer exampleSetup.offer),
    .call .source (exampleEnv 3) .confirmSas]

def exampleConfirming : List WorldOp :=
  [.call .target (exampleEnv 4) (.handleSasConfirm (latest (exampleRun exampleOffering))),
    .call .target (exampleEnv 5) .confirmTargetSas,
      .call .source (exampleEnv 6) (.sendPayload .nsec "nsec1")]

def exampleReceiving : List WorldOp :=
  [.call .target (exampleEnv 7)
    (.handlePayload (latest (exampleRun (exampleOffering ++ exampleConfirming)))),
    .call .target (exampleEnv 8) .sendComplete]

def exampleCompleting : List WorldOp :=
  [.call .source (exampleEnv 9)
    (.handleComplete (latest
      (exampleRun ((exampleOffering ++ exampleConfirming) ++ exampleReceiving))))]

def exampleOps : List WorldOp :=
  ((exampleOffering ++ exampleConfirming) ++ exampleReceiving) ++ exampleCompleting

theorem step_isSome (w : World) (op : WorldOp) :
    ∃ w', (pairingWorld exampleCrate).step w op = some w' := by
  cases op with
  | call role env api => exact ⟨_, rfl⟩
  | authenticate role env tags =>
    unfold pairingWorld
    dsimp only
    cases (w.session role).signEvent exampleCrate env ⟨env.unixTime, authKind, tags, ""⟩ with
    | ok event => exact ⟨_, rfl⟩
    | error e => exact ⟨_, rfl⟩

/-- Every call has a result. -/
theorem run_exampleRun (ops : List WorldOp) :
    (pairingWorld exampleCrate).run exampleInit ops = some (exampleRun ops) := by
  have hsome : ∀ w : World, ∃ w', (pairingWorld exampleCrate).run w ops = some w' := by
    induction ops with
    | nil => exact fun w => ⟨w, rfl⟩
    | cons op ops ih =>
      intro w
      obtain ⟨u, hu⟩ := step_isSome w op
      obtain ⟨w', hw'⟩ := ih u
      exact ⟨w', Machine.run_cons.mpr ⟨u, hu, hw'⟩⟩
  obtain ⟨w', hw'⟩ := hsome exampleInit
  unfold exampleRun
  rw [hw']
  rfl

theorem latest_mem (w : World) : latest w ∈ published exampleSetup w.log w.auths := by
  unfold latest published
  refine List.mem_append_left _ ?_
  cases hlast : w.log.getLast? with
  | none => exact List.mem_cons_self
  | some x =>
    cases hbuilt : x.entry.built with
    | none =>
      rw [Option.bind_some, hbuilt]
      exact List.mem_cons_self
    | some e =>
      rw [Option.bind_some, hbuilt]
      exact List.mem_cons_of_mem _ (List.mem_filterMap.mpr ⟨x, List.mem_of_getLast? hlast, hbuilt⟩)

/-- The event that was built last is delivered, and then what needs no event is done. -/
theorem delivers_latest {w : World} {role : Role} {env : Env} {api : Api} {ops : List WorldOp}
    (hapi : api.event = some (latest w))
    (hops : ∀ op ∈ ops, ∃ role env api, op = .call role env api ∧ api.event = none) :
    (pairingWorld exampleCrate).Always (Delivers exampleCrate exampleSetup) w
    (.call role env api :: ops) := by
  refine ⟨?_, ?_⟩
  · intro e he
    rw [← Option.some.inj (hapi.symm.trans he)]
    exact .copied _ (latest_mem w) ⟨rfl, rfl, rfl, rfl, rfl⟩
  · intro w' _
    refine Machine.always_of_forall ?_
    intro op hop s
    obtain ⟨role', env', api', rfl, hnone⟩ := hops op hop
    intro e he
    rw [hnone] at he
    cases he

theorem exampleOps_delivered :
    (pairingWorld exampleCrate).Always
    (Delivers exampleCrate exampleSetup) exampleInit exampleOps := by
  refine (Machine.always_append (run_exampleRun _)).mpr ⟨?_, delivers_latest rfl (by simp)⟩
  refine (Machine.always_append (run_exampleRun _)).mpr ⟨?_, delivers_latest rfl ?_⟩
  · refine (Machine.always_append (run_exampleRun _)).mpr ⟨delivers_latest rfl ?_,
      delivers_latest rfl ?_⟩
    · intro op hop
      exact ⟨_, _, _, List.mem_singleton.mp hop, rfl⟩
    · intro op hop
      rcases List.mem_cons.mp hop with hop | hop
      · exact ⟨_, _, _, hop, rfl⟩
      · exact ⟨_, _, _, List.mem_singleton.mp hop, rfl⟩
  · intro op hop
    exact ⟨_, _, _, List.mem_singleton.mp hop, rfl⟩

/-- A whole pairing, from the offer to the `complete`. -/
theorem pairing_agreement_complete :
    ∃ w, (pairingWorld exampleCrate).run exampleInit exampleOps = some w
    ∧ w.source.state = .completed ∧ Agreement exampleCrate exampleSetup w := by
  have hrun := run_exampleRun exampleOps
  have hstate : (exampleRun exampleOps).source.state = .completed := by decide +kernel
  exact ⟨_, hrun, hstate,
    pairing_agreement (exampleCrypto_lawful _) exampleSetup_paired hrun exampleOps_delivered⟩

end Pkzz.Pairing
