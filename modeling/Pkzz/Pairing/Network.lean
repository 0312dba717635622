import Pkzz.Pairing.Safety

/-!
# A source, a target and the network between them

Both sessions of a pairing, and all calls made to them in their order. What is delivered to
a session is up to the network (`Deliverable`): an event that one of the two has published,
as often and as late as it likes; an event that does not verify; or one by an author of its
own, who can take over contents and encrypt what he knows, but does not know the session id.

A message that a session reads was built by the other one, or comes from such an author
(`reads_built`).
-/

namespace Pkzz.Pairing

open Pkzz.Core Pkzz.Lib PairingSession

/-! ## What is assumed of the crates -/

structure Lawful (crypto : Crypto) : Prop where
  /-- A content opens under the key it was encrypted with only, and gives the plaintext. -/
  opens : ∀ key key' nonce plaintext content plaintext',
    crypto.encryptWith key nonce plaintext = .ok content →
    crypto.decryptWith key' content = .ok plaintext' → key' = key ∧ plaintext' = plaintext
  /-- Both sides of a pair of keys compute the same shared key. -/
  shared : ∀ a b, crypto.generateSharedKey a (crypto.publicKey b) =
    crypto.generateSharedKey b (crypto.publicKey a)
  /-- A shared key belongs to one peer. -/
  separate : ∀ a p q key, crypto.generateSharedKey a p = .ok key →
    crypto.generateSharedKey a q = .ok key → p = q
  /-- A message that was serialized is not parsed as another one. -/
  parses : ∀ m m' : PairingMessage, crypto.fromStr m.text = .ok m' → m' = m

/-! ## The two sessions -/

/-- A source, a target that scanned its QR code, and the target's offer. -/
structure Setup where
  source : PairingSession
  target : PairingSession
  offer : Event

structure Paired (crypto : Crypto) (setup : Setup) : Prop where
  created : ∃ env env' secretKey secretKey' sessionSecret relayUrl,
    (newSource crypto env secretKey sessionSecret relayUrl).1 = setup.source
      ∧ newTarget crypto env' secretKey' (newSource crypto env secretKey sessionSecret relayUrl).2
        = .ok (setup.target, setup.offer)

namespace Setup

def session (setup : Setup) : Role → PairingSession
  | .source => setup.source
  | .target => setup.target

end Setup

structure Logged where
  role : Role
  entry : Entry

structure World where
  source : PairingSession
  target : PairingSession
  log : List Logged
  /-- Events signed for the relay. -/
  auths : List Event

namespace World

def init (setup : Setup) : World := ⟨setup.source, setup.target, [], []⟩

def session (w : World) : Role → PairingSession
  | .source => w.source
  | .target => w.target

def setSession (w : World) (role : Role) (s : PairingSession) : World :=
  match role with
  | .source => { w with source := s }
  | .target => { w with target := s }

end World

inductive WorldOp where
  | call (role : Role) (env : Env) (api : Api)
  /-- `sign_event(EventBuilder::auth(…))`. -/
  | authenticate (role : Role) (env : Env) (tags : List (List String))

def authKind : Nat := 22242

/-- Both sessions, in any order of calls. -/
def pairingWorld (crypto : Crypto) : Machine World WorldOp where
  step w
    | .call role env api =>
      let r := (perform crypto env api).call (w.session role)
      some { w.setSession role r.2 with
        log := w.log ++ [⟨role, env, api, w.session role, r.1, r.2⟩] }
    | .authenticate role env tags =>
      match (w.session role).signEvent crypto env ⟨env.unixTime, authKind, tags, ""⟩ with
      | .ok event => some { w with auths := w.auths ++ [event] }
      | .error _ => some w

/-! ## The network -/

/-- The event a call has built. -/
def Entry.built (x : Entry) : Option Event :=
  match x.reply with
  | .ok (.event event) => some event
  | .ok (.maybeEvent event) => event
  | _ => none

def published (setup : Setup) (log : List Logged) (auths : List Event) : List Event :=
  setup.offer :: log.filterMap (fun x => x.entry.built) ++ auths

/-- All that is signed is the same; the signature may be another one. -/
structure SameSigned (e e' : Event) : Prop where
  pubkey : e.pubkey = e'.pubkey
  createdAt : e.createdAt = e'.createdAt
  kind : e.kind = e'.kind
  tags : e.tags = e'.tags
  content : e.content = e'.content

/-- The plaintext is an offer with the session id. -/
def MentionsSessionId (crypto : Crypto) (setup : Setup) (plaintext : String) : Prop :=
  ∃ sessionIdHex version, crypto.fromStr plaintext = .ok (.offer sessionIdHex version)
    ∧ decodeHash sessionIdHex = some setup.source.sessionId

/-- The contents someone can come up with who knows neither the secret keys nor the session id. -/
inductive Foreign (crypto : Crypto) (setup : Setup) (events : List Event) (content : String) : Prop
  | copied (e : Event) : e ∈ events → content = e.content → Foreign crypto setup events content
  | encrypted (key nonce : FixedBytes 32) (plaintext : String) :
      crypto.encryptWith key nonce plaintext = .ok content →
        ¬ MentionsSessionId crypto setup plaintext →
      Foreign crypto setup events content
  | junk : (∀ key plaintext, crypto.decryptWith key content ≠ .ok plaintext) →
      Foreign crypto setup events content

/-- What the network may hand to a session. -/
inductive Deliverable (crypto : Crypto) (setup : Setup) (events : List Event) (e : Event) : Prop
  | copied (e' : Event) : e' ∈ events → SameSigned e e' → Deliverable crypto setup events e
  | unverified (err : String) : crypto.verify e = .error err → Deliverable crypto setup events e
  | foreign : (∀ role, e.pubkey ≠ (setup.session role).pubkey crypto) →
      Foreign crypto setup events e.content → Deliverable crypto setup events e

/-- The network delivers what it can. -/
def Delivers (crypto : Crypto) (setup : Setup) (w : World) : WorldOp → Prop
  | .call _ _ api => ∀ e, api.event = some e →
      Deliverable crypto setup (published setup w.log w.auths) e
  | .authenticate _ _ _ => True

/-! ## The invariant -/

/-- The calls of one session. -/
def historyOf (role : Role) (log : List Logged) : List Entry :=
  (log.filter fun x => x.role = role).map Logged.entry

variable {crypto : Crypto} {setup : Setup} {w w' : World} {log pre : List Logged} {x : Logged}
    {role : Role}

theorem historyOf_append (role : Role) (log : List Logged) (x : Logged) :
    historyOf role (log ++ [x]) = historyOf role log ++ if x.role = role then
      [x.entry] else [] := by
  unfold historyOf
  rw [List.filter_append, List.map_append, List.filter_cons, List.filter_nil]
  by_cases h : x.role = role
  · rw [if_pos h, if_pos (decide_eq_true h)]
    rfl
  · rw [if_neg h, if_neg (by simpa using h)]
    rfl

theorem mem_historyOf {y : Entry} : y ∈ historyOf role log ↔ ⟨role, y⟩ ∈ log := by
  unfold historyOf
  constructor
  · intro h
    obtain ⟨⟨r, z⟩, hz, heq⟩ := List.mem_map.mp h
    obtain ⟨hmem, hrole⟩ := List.mem_filter.mp hz
    rw [← heq, ← of_decide_eq_true hrole]
    exact hmem
  · intro h
    exact List.mem_map.mpr ⟨⟨role, y⟩, List.mem_filter.mpr ⟨h, decide_eq_true rfl⟩, rfl⟩

/-- Why a call was possible: where its session stood, and where its event came from. -/
structure Caused (crypto : Crypto) (setup : Setup) (pre : List Logged) (x : Logged) : Prop where
  made : MadeOnPath crypto (setup.source.pubkey crypto) (setup.session x.role)
    (historyOf x.role pre) x.entry
  delivered : ∀ e, x.entry.api.event = some e → ∃ auths : List Event,
    (∀ a ∈ auths, a.kind = authKind ∧ a.content = "") ∧
      Deliverable crypto setup (published setup pre auths) e

/-- The SAS of the source is that of its peer, whom it keeps. -/
structure SourceSas (crypto : Crypto) (s : PairingSession) (history : List Entry) : Prop where
  waiting : s.state = .waiting → s.peerPubkey = none
  sas : ∀ peer, s.peerPubkey = some peer → ∃ ecdh, crypto.generateSharedKey s.keys peer = .ok ecdh
    ∧ s.sasCode = some (crypto.deriveSas ecdh s.sessionSecret).1
  kept : ∀ y ∈ history, ∀ peer, y.before.peerPubkey = some peer → s.peerPubkey = some peer

structure NetInv (crypto : Crypto) (setup : Setup) (w : World) : Prop where
  path : ∀ role, OnPath crypto (setup.source.pubkey crypto) (setup.session role) (w.session role)
    (historyOf role w.log)
  sas : SourceSas crypto w.source (historyOf .source w.log)
  caused : Justified (Caused crypto setup) w.log
  auths : ∀ a ∈ w.auths, a.kind = authKind ∧ a.content = ""

theorem started_of_paired (h : Paired crypto setup) (role : Role) :
    Started crypto (setup.session role) (setup.source.pubkey crypto) := by
  obtain ⟨env, env', secretKey, secretKey', sessionSecret, relayUrl, hsource, htarget⟩ := h.created
  cases role with
  | source =>
    show Started crypto setup.source (setup.source.pubkey crypto)
    rw [← hsource]
    exact .source env secretKey sessionSecret relayUrl
  | target =>
    show Started crypto setup.target (setup.source.pubkey crypto)
    rw [← hsource]
    exact .target env' secretKey' _ _ _ htarget

theorem role_of_paired (h : Paired crypto setup) (role : Role) :
    (setup.session role).role = role := by
  obtain ⟨_, _, _, _, _, _, hsource, htarget⟩ := h.created
  cases role with
  | source =>
    show setup.source.role = .source
    rw [← hsource]
    rfl
  | target =>
    obtain ⟨ecdh, _, _, hs, _⟩ := newTarget_ok htarget
    show setup.target.role = .target
    rw [hs]

theorem NetInv.session_role (hpaired : Paired crypto setup) (h : NetInv crypto setup w)
    (role : Role) :
    (w.session role).role = role := (h.path role).fixed.role.trans (role_of_paired hpaired role)

theorem session_setSession (w : World) (role q : Role) (s : PairingSession) (log : List Logged) :
    ({ w.setSession role s with log } : World).session q = if q = role then s else w.session q := by
  cases role <;> cases q <;> rfl

variable {s : PairingSession}

theorem sourceSas_step {s' : PairingSession} {history : List Entry} {env : Env} {api : Api}
    {r : Except PairingError Reply} (h : SourceSas crypto s history) (hrole : s.role = .source)
    (heff : Effect crypto env s api r s') :
    SourceSas crypto s' (history ++ [⟨env, api, s, r, s'⟩]) := by
  have hkept : (∀ peer, s.peerPubkey = some peer → s'.peerPubkey = some peer) →
      ∀ y ∈ history ++ [⟨env, api, s, r, s'⟩], ∀ peer, y.before.peerPubkey = some peer →
        s'.peerPubkey = some peer := by
    intro hsame y hy peer hpeer
    rcases List.mem_append.mp hy with hy | hy
    · exact hsame peer (h.kept y hy peer hpeer)
    · rw [List.mem_singleton.mp hy] at hpeer
      exact hsame peer hpeer
  cases heff with
  | rejected => exact ⟨h.waiting, h.sas, hkept fun _ hp => hp⟩
  | offered event sessionIdHex ecdh hstate _ _ _ hkey =>
    refine ⟨fun hw => (nomatch hw), ?_, hkept ?_⟩
    · intro peer hpeer
      cases hpeer
      exact ⟨ecdh, hkey, rfl⟩
    · intro peer hpeer
      rw [h.waiting hstate] at hpeer
      cases hpeer
  | sasConfirmed _ _ _ _ _ _ htarget =>
    rw [hrole] at htarget
    cases htarget
  | _ => exact ⟨fun hw => (nomatch hw), h.sas, hkept fun _ hp => hp⟩

theorem netInv_step (hpaired : Paired crypto setup) {op : WorldOp} (h : NetInv crypto setup w)
    (hnet : Delivers crypto setup w op) (hstep : (pairingWorld crypto).step w op = some w') :
    NetInv crypto setup w' := by
  cases op with
  | authenticate role env tags =>
    unfold pairingWorld at hstep
    dsimp only at hstep
    cases hsign : (w.session role).signEvent crypto env ⟨env.unixTime, authKind, tags, ""⟩ with
    | error e =>
      rw [hsign] at hstep
      cases hstep
      exact h
    | ok event =>
      rw [hsign] at hstep
      cases hstep
      refine ⟨fun q => ?_, h.sas, h.caused, ?_⟩
      · cases q
        · exact h.path .source
        · exact h.path .target
      · intro a ha
        rcases List.mem_append.mp ha with ha | ha
        · exact h.auths a ha
        rw [List.mem_singleton.mp ha]
        unfold signEvent Crypto.signWithKeys at hsign
        dsimp only at hsign
        split at hsign
        · cases hsign
        rename_i built hbuilt
        split at hbuilt
        · rw [← Except.ok.inj hsign, ← Except.ok.inj hbuilt]
          exact ⟨rfl, rfl⟩
        · cases hbuilt
  | call role env api =>
    have hready := ready_of_started (started_of_paired hpaired role)
    have heff : Effect crypto env (w.session role) api _ _ :=
      effect (code_of_fixed hready (h.path role).fixed) api
    cases hstep
    refine ⟨?_, ?_, ?_, ?_⟩
    · intro q
      dsimp only
      rw [session_setSession, historyOf_append]
      by_cases hq : q = role
      · subst hq
        rw [if_pos rfl, if_pos rfl]
        exact onPath_step hready (h.path q) heff
      · rw [if_neg hq, if_neg (fun hr => hq hr.symm), List.append_nil]
        exact h.path q
    · dsimp only
      rw [historyOf_append]
      cases role with
      | source =>
        rw [if_pos rfl]
        exact sourceSas_step h.sas (h.session_role hpaired .source) heff
      | target =>
        rw [if_neg (fun hr => nomatch hr), List.append_nil]
        exact h.sas
    · exact justified_append h.caused ⟨⟨h.path role, heff⟩, fun e he =>
        ⟨w.auths, h.auths, hnet e he⟩⟩
    · cases role
      · exact h.auths
      · exact h.auths

theorem netInv_init (hpaired : Paired crypto setup) : NetInv crypto setup (World.init setup) := by
  refine ⟨?_, ⟨?_, ?_, ?_⟩, justified_nil, ?_⟩
  · intro role
    cases role with
    | source => exact (inv_init (started_of_paired hpaired .source)).path
    | target => exact (inv_init (started_of_paired hpaired .target)).path
  · intro _
    obtain ⟨_, _, _, _, _, _, hsource, _⟩ := hpaired.created
    show setup.source.peerPubkey = none
    rw [← hsource]
    rfl
  · intro peer hpeer
    obtain ⟨_, _, _, _, _, _, hsource, _⟩ := hpaired.created
    rw [show (World.init setup).source = setup.source from rfl, ← hsource] at hpeer
    cases hpeer
  · intro y hy
    exact absurd hy List.not_mem_nil
  · intro a ha
    exact absurd ha List.not_mem_nil

theorem netInv_run (hpaired : Paired crypto setup) {ops : List WorldOp}
    (h : (pairingWorld crypto).run (World.init setup) ops = some w)
    (hnet : (pairingWorld crypto).Always (Delivers crypto setup) (World.init setup) ops) :
    NetInv crypto setup w :=
  Machine.invariant (I := NetInv crypto setup)
    (fun _ _ _ hinv hP hstep => netInv_step hpaired hinv hP hstep) (netInv_init hpaired) hnet h

/-! ## Where a message comes from -/

/-- The message an entry has put into an event. -/
inductive Makes (x : Entry) (e : Event) : PairingMessage → Prop
  | sasConfirm (hash : String) : x.Confirmed → Makes x e (.sasConfirm hash)
  | payload (payloadType : PayloadType) (payload : String) : x.before.role = .source →
      x.Sends payloadType payload e → Makes x e (.payload payloadType payload)
  | complete : x.before.role = .target → x.before.state = .payloadExchanged → x.CompleteSent e →
      Makes x e (.complete true)
  | abort (reason : AbortReason) : Makes x e (.abort reason)

variable {e : Event}

theorem makes_of_built {x : Entry} (heff : Effect crypto x.env x.before x.api x.reply x.after)
    (h : x.built = some e) : x.accepted = true
      ∧ ∃ msg, Makes x e msg ∧ x.before.buildEvent crypto x.env msg = .ok e := by
  obtain ⟨env, api, before, reply, after⟩ := x
  have heff' : Effect crypto env before api reply after := heff
  unfold Entry.built at h
  cases heff' with
  | confirmed peer sasInput event hstate hrole hsas hpeer hbuild =>
    cases h
    exact ⟨rfl, _, .sasConfirm _ ⟨rfl, rfl⟩, hbuild⟩
  | payloadSent payloadType payload event hstate hrole hbuild =>
    cases h
    exact ⟨rfl, _, .payload _ _ hrole ⟨rfl, rfl⟩, hbuild⟩
  | completeSent event hstate hrole hbuild =>
    cases h
    exact ⟨rfl, _, .complete hrole hstate ⟨rfl, rfl⟩, hbuild⟩
  | aborted reason event hopen hbuild =>
    cases h
    exact ⟨rfl, _, .abort reason, hbuild⟩
  | _ => cases h

theorem validateEventBasics_ok (h : s.validateEventBasics crypto e = .ok ()) :
    crypto.verify e = .ok () ∧ e.kind = pairingKind ∧ s.hasPTag crypto e = true := by
  unfold validateEventBasics at h
  cases hverify : crypto.verify e with
  | error err =>
    rw [hverify] at h
    cases h
  | ok _ =>
    rw [hverify] at h
    dsimp only at h
    split at h
    · cases h
    split at h
    · cases h
    rename_i hkind
    split at h
    · rename_i htag
      exact ⟨rfl, by simpa using hkind, htag⟩
    · cases h

/-- The p-tag of an event that a session has built is that of its peer. -/
theorem peer_of_hasPTag {peer : PublicKey}
    (htags : e.tags = [["p", peer.toHex]]) (h : s.hasPTag crypto e = true) :
    peer = s.pubkey crypto := by
  unfold hasPTag at h
  rw [htags] at h
  have hhex : peer.toHex = (s.pubkey crypto).toHex := by simpa using h
  exact FixedBytes.toHex_inj hhex

theorem content_ne_empty {msg : PairingMessage}
    (h : s.decryptMessage crypto e = .ok msg) : e.content ≠ "" := by
  intro hempty
  unfold decryptMessage at h
  rw [hempty] at h
  cases h

/-- What was encrypted is what is read, under one shared key. -/
theorem read_of_encrypted (hlaw : Lawful crypto) {e' : Event} {keys : SecretKey}
    {peer : PublicKey} {m msg : PairingMessage} (henc : EncryptedTo crypto keys peer m.text e')
    (hcontent : e.content = e'.content) (hreads : s.Reads crypto e msg) :
    msg = m ∧ ∃ key, crypto.generateSharedKey keys peer = .ok key
      ∧ crypto.generateSharedKey s.keys e.pubkey = .ok key := by
  obtain ⟨key, plaintext, hkey, hdec, hparse⟩ := decryptMessage_ok hreads.decrypted
  obtain ⟨_, nonce, henc⟩ := henc
  unfold Crypto.encrypt at henc
  cases hkey' : crypto.generateSharedKey keys peer with
  | error err =>
    rw [hkey'] at henc
    cases henc
  | ok key' =>
    rw [hkey'] at henc
    rw [hcontent] at hdec
    obtain ⟨hkeys, htext⟩ := hlaw.opens _ _ _ _ _ _ henc hdec
    rw [htext] at hparse
    rw [← hkeys]
    exact ⟨hlaw.parses m msg hparse, key, rfl, hkey⟩

/-- Where a message that was read comes from. -/
inductive Origin (crypto : Crypto) (setup : Setup) (pre : List Logged)
    (s : PairingSession) (e : Event) (msg : PairingMessage) : Prop
  | offer : e.pubkey = setup.target.pubkey crypto → (∃ sessionIdHex, msg = .offer sessionIdHex 1) →
      Origin crypto setup pre s e msg
  | built (role : Role) (y : Entry) (e' : Event) : ⟨role, y⟩ ∈ pre →
      e.pubkey = (setup.session role).pubkey crypto →
      y.before.peerPubkey = some (s.pubkey crypto) → Makes y e' msg →
        Origin crypto setup pre s e msg
  | foreign (auths : List Event) : (∀ a ∈ auths, a.kind = authKind ∧ a.content = "") →
      (∀ role, e.pubkey ≠ (setup.session role).pubkey crypto) →
      Foreign crypto setup (published setup pre auths) e.content → Origin crypto setup pre s e msg

theorem offer_built (hpaired : Paired crypto setup) : ∃ sessionIdHex,
    setup.offer.pubkey = setup.target.pubkey crypto
      ∧ EncryptedTo crypto setup.target.keys (setup.source.pubkey crypto)
        (PairingMessage.offer sessionIdHex 1).text setup.offer := by
  obtain ⟨_, _, _, _, _, _, hsource, htarget⟩ := hpaired.created
  obtain ⟨ecdh, waiting, _, hs, hwaiting, hbuild⟩ := newTarget_ok htarget
  obtain ⟨peer, hpeer, hpubkey, _, henc⟩ := buildEvent_ok hbuild
  have hkeys : waiting.keys = setup.target.keys := by rw [hwaiting]
  have hpeer' : peer = setup.source.pubkey crypto := by
    rw [hwaiting, hs] at hpeer
    rw [← Option.some.inj hpeer, ← hsource]
    rfl
  rw [hkeys, hpeer'] at henc
  refine ⟨_, ?_, henc⟩
  rw [hpubkey]
  unfold pubkey
  rw [hkeys]

/-- An event of one of the sessions, in the log. -/
theorem built_of_mem (hpre : Justified (Caused crypto setup) pre)
    (h : e ∈ pre.filterMap fun x => x.entry.built) : ∃ role y, ⟨role, y⟩ ∈ pre ∧ y.accepted = true
      ∧ e.pubkey = (setup.session role).pubkey crypto ∧
        ∃ peer msg, y.before.peerPubkey = some peer ∧ Makes y e msg
        ∧ EncryptedTo crypto (setup.session role).keys peer msg.text e := by
  obtain ⟨⟨role, y⟩, hmem, hbuilt⟩ := List.mem_filterMap.mp h
  obtain ⟨_, _, _, _, hcaused⟩ := hpre.of_mem hmem
  obtain ⟨haccepted, msg, hmakes, hbuild⟩ := makes_of_built hcaused.made.effect hbuilt
  obtain ⟨peer, hpeer, hpubkey, _, henc⟩ := buildEvent_ok hbuild
  have hkeys : y.before.keys = (setup.session role).keys := hcaused.made.path.fixed.keys
  refine ⟨role, y, hmem, haccepted, ?_, peer, msg, hpeer, hmakes, ?_⟩
  · rw [hpubkey]
    unfold pubkey
    rw [hkeys]
  · rw [← hkeys]
    exact henc

/-- **What a session reads was put there by the other one, or comes from an author of the network.**
-/
theorem reads_built (hlaw : Lawful crypto) (hpaired : Paired crypto setup)
    (hpre : Justified (Caused crypto setup) pre) (hcaused : Caused crypto setup pre x)
    (hevent : x.entry.api.event = some e) {msg : PairingMessage}
    (hreads : x.entry.before.Reads crypto e msg) :
    Origin crypto setup pre x.entry.before e msg := by
  obtain ⟨hverify, hkind, htag⟩ := validateEventBasics_ok hreads.valid
  obtain ⟨auths, hauths, hdeliv⟩ := hcaused.delivered e hevent
  cases hdeliv with
  | unverified err herr =>
    rw [hverify] at herr
    cases herr
  | foreign hne hforeign => exact .foreign auths hauths hne hforeign
  | copied e' hmem hsame =>
    unfold published at hmem
    rcases List.mem_append.mp hmem with hmem | hmem
    · rcases List.mem_cons.mp hmem with heq | hmem
      · obtain ⟨sessionIdHex, hpubkey, henc⟩ := offer_built hpaired
        rw [← heq] at hpubkey henc
        exact .offer (hsame.pubkey.trans hpubkey)
          ⟨sessionIdHex, (read_of_encrypted hlaw henc hsame.content hreads).1⟩
      · obtain ⟨role, y, hy, _, hpubkey, peer, m, hpeer, hmakes, henc⟩ := built_of_mem hpre hmem
        have hmsg := (read_of_encrypted hlaw henc hsame.content hreads).1
        have hpeer' := peer_of_hasPTag (hsame.tags.trans henc.1) htag
        rw [hpeer'] at hpeer
        exact .built role y e' hy (hsame.pubkey.trans hpubkey) hpeer (hmsg ▸ hmakes)
    · have hauth := hsame.kind.symm.trans hkind
      rw [(hauths e' hmem).1] at hauth
      cases hauth

/-- **Nobody else can make an offer.** The source accepts an offer while it has built nothing. -/
theorem not_foreign_offer (hlaw : Lawful crypto) (hpaired : Paired crypto setup)
    (hpre : Justified (Caused crypto setup) pre)
    (hpath : OnPath crypto (setup.source.pubkey crypto) setup.source s (historyOf .source pre))
    (hstate : s.state = .waiting) {sessionIdHex : String} {version : UInt32}
    (hreads : s.Reads crypto e (.offer sessionIdHex version))
    (hid : decodeHash sessionIdHex = some s.sessionId)
    {auths : List Event} (hauths : ∀ a ∈ auths, a.kind = authKind ∧ a.content = "")
    (hne : e.pubkey ≠ setup.target.pubkey crypto) :
    ¬ Foreign crypto setup (published setup pre auths) e.content := by
  have hkeys : s.keys = setup.source.keys := hpath.fixed.keys
  -- whatever the target encrypts, it encrypts to the source
  have htarget : ∀ e' m, e.content = e'.content →
      ¬ EncryptedTo crypto setup.target.keys (setup.source.pubkey crypto)
        (PairingMessage.text m) e' := by
    intro e' m hcontent henc
    obtain ⟨_, key, hkey, hkey'⟩ := read_of_encrypted hlaw henc hcontent hreads
    have hshared := hlaw.shared setup.target.keys setup.source.keys
    unfold pubkey at hkey
    rw [hshared] at hkey
    rw [hkeys] at hkey'
    exact hne (hlaw.separate _ _ _ _ hkey' hkey)
  obtain ⟨key, plaintext, hkey, hdec, hparse⟩ := decryptMessage_ok hreads.decrypted
  intro hforeign
  cases hforeign with
  | junk hjunk => exact hjunk key plaintext hdec
  | encrypted key' nonce plaintext' henc hnot =>
    refine hnot ⟨sessionIdHex, version, ?_, ?_⟩
    · rw [← (hlaw.opens _ _ _ _ _ _ henc hdec).2]
      exact hparse
    · rw [hid, hpath.fixed.sessionId]
  | copied e' hmem hcontent =>
    unfold published at hmem
    rcases List.mem_append.mp hmem with hmem | hmem
    · rcases List.mem_cons.mp hmem with heq | hmem
      · obtain ⟨hex, _, henc⟩ := offer_built hpaired
        rw [← heq] at henc
        exact htarget e' _ hcontent henc
      · obtain ⟨role, y, hy, haccepted, _, peer, m, hpeer, _, henc⟩ := built_of_mem hpre hmem
        cases role with
        | source =>
          have hwaiting := hpath.source (role_of_paired hpaired .source)
          unfold SourcePath at hwaiting
          rw [hstate] at hwaiting
          have hmem' := mem_acceptedOf.mpr ⟨mem_historyOf.mpr hy, haccepted⟩
          rw [hwaiting] at hmem'
          exact absurd hmem' List.not_mem_nil
        | target =>
          obtain ⟨_, _, _, _, hcaused⟩ := hpre.of_mem hy
          have hrole := role_of_paired hpaired .target
          have hfixed := hcaused.made.path.fixed.target hrole
          have hready := (ready_of_started (started_of_paired hpaired .target)).peer hrole
          rw [Option.some.inj (hpeer.symm.trans (hfixed.1.trans hready))] at henc
          exact htarget e' m hcontent henc
    · refine content_ne_empty hreads.decrypted ?_
      rw [hcontent, (hauths e' hmem).2]

/-! ## The example -/

theorem zipWith_add_cancel : ∀ {l a b : List UInt8}, a.length = l.length → b.length = l.length →
    List.zipWith (· + ·) l a = List.zipWith (· + ·) l b → a = b
  | [], a, b, ha, hb, _ => by
    rw [List.length_eq_zero_iff.mp ha, List.length_eq_zero_iff.mp hb]
  | x :: l, [], _, ha, _, _ => by cases ha
  | x :: l, _ :: _, [], _, hb, _ => by cases hb
  | x :: l, y :: a, z :: b, ha, hb, h => by
    rw [List.zipWith_cons_cons, List.zipWith_cons_cons] at h
    obtain ⟨hhead, htail⟩ := List.cons.inj h
    have hrest := zipWith_add_cancel (Nat.succ.inj ha) (Nat.succ.inj hb) htail
    rw [hrest, UInt8.add_right_inj x |>.mp hhead]

theorem exampleSealed_inj {key key' : FixedBytes 32} {p p' : String}
    (h : exampleSealed key p = exampleSealed key' p') : key = key' ∧ p = p' := by
  unfold exampleSealed at h
  have hl := congrArg String.toList h
  simp only [String.toList_append, List.append_assoc] at hl
  have hlen : key.toHex.toList.length = key'.toHex.toList.length := by
    rw [FixedBytes.length_toHex, FixedBytes.length_toHex]
  obtain ⟨hkey, hrest⟩ := List.append_inj hl hlen
  have hrest := (List.append_inj hrest hlen).2
  exact ⟨FixedBytes.toHex_inj (String.toList_injective hkey), String.toList_injective hrest⟩

theorem exampleCrypto_lawful (messages : List PairingMessage) :
    Lawful (exampleCrypto messages) where
  opens := by
    intro key key' nonce plaintext content plaintext' henc hdec
    have hcontent : exampleSealed key plaintext = content := Except.ok.inj henc
    unfold exampleCrypto at hdec
    dsimp only at hdec
    cases hfind : messages.find? fun m => exampleSealed key' m.text = content with
    | none =>
      rw [hfind] at hdec
      cases hdec
    | some m =>
      rw [hfind] at hdec
      have hm : exampleSealed key' m.text = content := by simpa using List.find?_some hfind
      obtain ⟨hkey, htext⟩ := exampleSealed_inj (hm.trans hcontent.symm)
      cases hdec
      exact ⟨hkey, htext⟩
  shared := by
    intro a b
    refine congrArg Except.ok (FixedBytes.ext ?_)
    exact List.zipWith_comm_of_comm UInt8.add_comm
  separate := by
    intro a p q key hp hq
    have hsame := congrArg FixedBytes.bytes (Except.ok.inj (hp.trans hq.symm))
    refine FixedBytes.ext (zipWith_add_cancel ?_ ?_ hsame)
    · rw [p.length_eq, a.length_eq]
    · rw [q.length_eq, a.length_eq]
  parses := by
    intro m m' h
    unfold exampleCrypto at h
    dsimp only at h
    cases hfind : messages.find? fun m' => m'.text = m.text with
    | none =>
      rw [hfind] at h
      cases h
    | some found =>
      rw [hfind] at h
      have hfound : found.text = m.text := by simpa using List.find?_some hfind
      cases h
      exact PairingMessage.text_inj hfound

end Pkzz.Pairing
