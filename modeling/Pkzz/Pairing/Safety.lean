import Pkzz.Pairing.Trace

/-!
# What a session never does

Whatever calls are made and whatever events come in, a source sends one payload at most,
after its user's confirmation and to the author of the offer it accepted; a target returns
one payload at most, after a `sas-confirm` of the source and its own user's confirmation
(`session_safe`). Each call is justified by what was accepted before it.
-/

namespace Pkzz.Pairing

open Pkzz.Core Pkzz.Lib PairingSession

variable {crypto : Crypto} {sourcePubkey : PublicKey} {s₀ s : PairingSession}
    {history pre l : List Entry}
  {x o c : Entry} {t u : Trace}

/-- The event carries the text, encrypted to the peer. -/
def EncryptedTo (crypto : Crypto) (keys : SecretKey) (peer : PublicKey) (text : String)
    (event : Event) : Prop :=
  event.tags = [["p", peer.toHex]] ∧ ∃ nonce, crypto.encrypt keys peer nonce text =
    .ok event.content

/-- Why a source may send this payload. -/
structure MaySend (crypto : Crypto) (pre : List Entry) (x : Entry) (payloadType : PayloadType)
    (payload : String) (event : Event) : Prop where
  first : ∀ y ∈ pre, ∀ payloadType payload event, ¬ y.Sends payloadType payload event
  offer : ∃ a o b offer, pre = a ++ o :: b ∧ o.Offered crypto offer ∧ (∃ y ∈ b, y.Confirmed)
    ∧ EncryptedTo crypto x.before.keys offer.pubkey
      (PairingMessage.payload payloadType payload).text event

/-- Why a target may return a payload. -/
structure MayReceive (crypto : Crypto) (s₀ : PairingSession) (sourcePubkey : PublicKey)
    (pre : List Entry) : Prop where
  first : ∀ y ∈ pre, ∀ event payloadType payload, ¬ y.Receives event payloadType payload
  confirmed : ∃ a o b event, pre = a ++ o :: b ∧ o.SasConfirmed crypto s₀ sourcePubkey event
    ∧ ∃ y ∈ b, y.TargetConfirmed

/-- The two failures that abort the session. -/
inductive AbortsOnFailure (crypto : Crypto) (x : Entry) : Prop
  | mismatched (event : Event) (hash : String) (peer : PublicKey) (sasInput : FixedBytes 32) :
      x.api = .handleSasConfirm event → x.before.ReadsFromPeer crypto event (.sasConfirm hash) →
      x.before.peerPubkey = some peer → x.before.sasInput = some sasInput →
      decodeHash hash ≠ some (x.before.expectedHash crypto peer sasInput) →
      x.reply = .error .transcriptMismatch → x.after = { x.before with state := .aborted } →
      AbortsOnFailure crypto x
  | completeFailed (event : Event) : x.api = .handleComplete event →
      x.before.ReadsFromPeer crypto event (.complete false) →
        x.after = { x.before with state := .aborted } →
      AbortsOnFailure crypto x

/-- What is promised about the calls of a session. -/
structure Safe (crypto : Crypto) (s₀ : PairingSession) (sourcePubkey : PublicKey)
    (history : List Entry) : Prop where
  /-- One offer is accepted at most. -/
  offers : Justified (fun pre x => ∀ event, x.Offered crypto event → ∀ y ∈ pre, ∀ e,
    ¬ y.Offered crypto e) history
  sends : Justified (fun pre x => ∀ payloadType payload event, x.Sends payloadType payload event →
    MaySend crypto pre x payloadType payload event) history
  receives : Justified (fun pre x => ∀ event payloadType payload,
    x.Receives event payloadType payload → MayReceive crypto s₀ sourcePubkey pre) history
  /-- A call that fails changes nothing, or aborts. -/
  failed : ∀ x ∈ history, ∀ e, x.reply = .error e → x.after = x.before ∨ AbortsOnFailure crypto x
  /-- Only events that were accepted count as duplicates. -/
  processed : Justified (fun pre x => ∀ id ∈ x.before.processedIds,
    ∃ y ∈ pre, y.accepted = true ∧ ∃ e, y.api.event = some e ∧ e.id = id) history

/-! ## Reading a path -/

theorem mem_acceptedOf : x ∈ acceptedOf history ↔ x ∈ history ∧ x.accepted = true := List.mem_filter

/-- Two accepted calls in their order. -/
theorem split_accepted (h : acceptedOf pre = [o, c]) : ∃ a b, pre = a ++ o :: b ∧ c ∈ b := by
  obtain ⟨a, b, hpre, _, _, hb⟩ := List.filter_eq_cons_iff.mp h
  refine ⟨a, b, hpre, ?_⟩
  have hc : c ∈ acceptedOf b := by
    unfold acceptedOf
    rw [hb]
    exact List.mem_singleton_self c
  exact (mem_acceptedOf.mp hc).1

variable {event : Event}

theorem buildEvent_ok {env : Env} {msg : PairingMessage}
    (h : s.buildEvent crypto env msg = .ok event) : ∃ peer, s.peerPubkey = some peer
      ∧ event.pubkey = s.pubkey crypto ∧ event.kind = pairingKind
      ∧ EncryptedTo crypto s.keys peer msg.text event := by
  unfold buildEvent at h
  cases hpeer : s.peerPubkey with
  | none =>
    rw [hpeer] at h
    cases h
  | some peer =>
    rw [hpeer] at h
    dsimp only at h
    cases hencrypt : crypto.encrypt s.keys peer env.nonce msg.text with
    | error e =>
      rw [hencrypt] at h
      cases h
    | ok encrypted =>
      rw [hencrypt] at h
      unfold Crypto.signWithKeys at h
      dsimp only at h
      split at h
      · cases h
      rename_i built hbuilt
      split at hbuilt
      · rw [← Except.ok.inj h, ← Except.ok.inj hbuilt]
        exact ⟨peer, rfl, rfl, rfl, rfl, env.nonce, hencrypt⟩
      · cases hbuilt

/-! ## Why each call was possible -/

variable {payloadType : PayloadType} {payload : String}

theorem Entry.Sends.accepted
    (h : x.Sends payloadType payload event) : x.accepted = true := accepted_iff.mpr ⟨_, h.reply⟩

theorem Entry.Receives.accepted
    (h : x.Receives event payloadType payload) : x.accepted = true := accepted_iff.mpr ⟨_, h.reply⟩

/-- Two calls are not the same one if one is another method. -/
theorem api_ne {y : Entry} {a b : Api} (hx : x.api = a) (hy : y.api = b) (hne : a ≠ b) : x ≠ y := by
  intro heq
  rw [heq] at hx
  exact hne (hx.symm.trans hy)

theorem mayOffer (h : MadeOnPath crypto sourcePubkey s₀ pre x) (hx : x.Offered crypto event) :
    ∀ y ∈ pre, ∀ e, ¬ y.Offered crypto e := by
  obtain ⟨env, api, before, reply, after⟩ := x
  obtain ⟨hapi, hok, _⟩ := hx
  dsimp only at hapi
  subst hapi
  intro y hy e hoffered
  have heff : Effect crypto env before _ _ after := h.effect
  cases heff with
  | rejected => cases hok
  | offered _ _ _ hstate hrole =>
    -- nothing has been accepted while the source waits
    have hpath := h.path.source (h.path.fixed.role.symm.trans hrole)
    unfold SourcePath at hpath
    rw [hstate] at hpath
    have hmem := mem_acceptedOf.mpr ⟨hy, hoffered.accepted⟩
    rw [hpath] at hmem
    exact absurd hmem List.not_mem_nil

theorem maySend (h : MadeOnPath crypto sourcePubkey s₀ pre x)
    (hx : x.Sends payloadType payload event) : MaySend crypto pre x payloadType payload event := by
  obtain ⟨env, api, before, reply, after⟩ := x
  obtain ⟨hapi, hreply⟩ := hx
  dsimp only at hapi hreply
  subst hapi hreply
  have heff : Effect crypto env before _ _ after := h.effect
  cases heff with
  | payloadSent _ _ _ hstate hrole hbuild =>
    have hpath := h.path.source (h.path.fixed.role.symm.trans hrole)
    unfold SourcePath at hpath
    rw [hstate] at hpath
    obtain ⟨o, offer, c, ho, hpeer, hc, hl⟩ := hpath
    obtain ⟨peer, hpeer', _, _, hencrypted⟩ := buildEvent_ok hbuild
    rw [Option.some.inj (hpeer'.symm.trans hpeer)] at hencrypted
    refine ⟨?_, ?_⟩
    · intro y hy payloadType' payload' event' hsends
      have hmem := mem_acceptedOf.mpr ⟨hy, hsends.accepted⟩
      rw [hl] at hmem
      rcases List.mem_cons.mp hmem with heq | hmem
      · exact api_ne hsends.api ho.api (fun h => nomatch h) heq
      · exact api_ne hsends.api hc.api (fun h => nomatch h) (List.mem_singleton.mp hmem)
    · obtain ⟨a, b, hpre, hmem⟩ := split_accepted hl
      exact ⟨a, o, b, offer, hpre, ho, ⟨c, hmem, hc⟩, hencrypted⟩

theorem mayReceive (h : MadeOnPath crypto sourcePubkey s₀ pre x)
 (hx : x.Receives event payloadType payload) : MayReceive crypto s₀ sourcePubkey pre := by
  obtain ⟨env, api, before, reply, after⟩ := x
  obtain ⟨hapi, hreply⟩ := hx
  dsimp only at hapi hreply
  subst hapi hreply
  have heff : Effect crypto env before _ _ after := h.effect
  cases heff with
  | payloadReceived _ _ _ hstate hrole hreads =>
    have hpath := h.path.target (h.path.fixed.role.symm.trans hrole)
    unfold TargetPath at hpath
    rw [hstate] at hpath
    obtain ⟨o, confirm, c, ho, hc, hl⟩ := hpath
    refine ⟨?_, ?_⟩
    · intro y hy event' payloadType' payload' hreceives
      have hmem := mem_acceptedOf.mpr ⟨hy, hreceives.accepted⟩
      rw [hl] at hmem
      rcases List.mem_cons.mp hmem with heq | hmem
      · exact api_ne hreceives.api ho.api (fun h => nomatch h) heq
      · exact api_ne hreceives.api hc.api (fun h => nomatch h) (List.mem_singleton.mp hmem)
    · obtain ⟨a, b, hpre, hmem⟩ := split_accepted hl
      exact ⟨a, o, b, confirm, hpre, ho, c, hmem, hc⟩

theorem failed_of_effect (h : MadeOnPath crypto sourcePubkey s₀ pre x) {e : PairingError}
    (hx : x.reply = .error e) : x.after = x.before ∨ AbortsOnFailure crypto x := by
  obtain ⟨env, api, before, reply, after⟩ := x
  dsimp only at hx
  subst hx
  have heff : Effect crypto env before _ _ after := h.effect
  cases heff with
  | rejected => exact .inl rfl
  | completeFailed event _ _ hreads => exact .inr (.completeFailed event rfl hreads rfl)
  | mismatched event hash peer sasInput _ _ hreads hsas hpeer hne =>
    exact .inr (.mismatched event hash peer sasInput rfl hreads hpeer hsas hne rfl rfl)

/-! ## The end of a session -/

/-- **A session that is completed or aborted stays as it is.** -/
theorem terminal_step {env : Env} {api : Api} {r : Except PairingError Reply} {s' : PairingSession}
    (hterm : s.isTerminal = true) (h : Effect crypto env s api r s') : s' = s := by
  have hstate : s.state = .completed ∨ s.state = .aborted := by
    unfold isTerminal at hterm
    rcases Bool.or_eq_true_iff.mp hterm with h | h
    · exact .inl (of_decide_eq_true h)
    · exact .inr (of_decide_eq_true h)
  have hnot : ∀ state, s.state = state → state ≠ .completed → state ≠ .aborted → s' = s := by
    intro state hs hcompleted haborted
    rcases hstate with h | h
    · exact absurd (hs.symm.trans h) hcompleted
    · exact absurd (hs.symm.trans h) haborted
  have hopen : s.isTerminal = false → s' = s := fun h => nomatch hterm.symm.trans h
  cases h with
  | rejected => rfl
  | offered _ _ _ hs | confirmed _ _ _ hs | payloadSent _ _ _ hs | completed _ hs
  | completeFailed _ hs | sasConfirmed _ _ _ _ _ hs | mismatched _ _ _ _ hs | targetConfirmed hs
  | payloadReceived _ _ _ hs | completeSent _ hs =>
    exact hnot _ hs (fun h => nomatch h) (fun h => nomatch h)
  | abortedAlone _ hopen' => exact hopen hopen'
  | aborted _ _ hopen' => exact hopen hopen'
  | abortReceived _ _ _ hopen' => exact hopen hopen'

/-- **The safety of a session.** Every call is justified, and a session that has ended has ended. -/
theorem session_safe {ops more : List (Env × Api)} (hs : Started crypto s₀ sourcePubkey)
    (h : (pairing crypto).run ⟨s₀, []⟩ ops = some t)
    (hmore : (pairing crypto).run t more = some u) : Safe crypto s₀ sourcePubkey t.history ∧
      (t.session.isTerminal = true → u.session = t.session) := by
  have hinv := inv_run hs h
  refine ⟨⟨?_, ?_, ?_, ?_, ?_⟩, ?_⟩
  · exact hinv.entries.imp fun pre x _ hx event => mayOffer hx
  · exact hinv.entries.imp fun pre x _ hx payloadType payload event => maySend hx
  · exact hinv.entries.imp fun pre x _ hx event payloadType payload => mayReceive hx
  · intro x hx e he
    obtain ⟨pre, _, _, _, hmade⟩ := hinv.entries.of_mem hx
    exact failed_of_effect hmade he
  · refine hinv.entries.imp ?_
    intro pre x _ hx id hid
    obtain ⟨y, hy, hevent⟩ := (hx.path.processed id).mp hid
    exact ⟨y, (mem_acceptedOf.mp hy).1, (mem_acceptedOf.mp hy).2, hevent⟩
  · intro hterm
    refine Machine.invariant (I := fun v => v.session = t.session) ?_ rfl Machine.always_true hmore
    intro v op v' hv _ hstep
    have hfixed : Fixed s₀ v.session := by
      rw [hv]
      exact hinv.path.fixed
    have heff : Effect crypto op.1 v.session op.2 _ _ :=
      effect (code_of_fixed (ready_of_started hs) hfixed) op.2
    cases hstep
    refine (terminal_step ?_ heff).trans hv
    rw [hv]
    exact hterm

/-! ## An example -/

def exampleHash (bytes : List UInt8) : Nat :=
  bytes.foldl (fun n b => (257 * n + b.toNat + 1) % 2 ^ 61) 7

/-- The sum of two keys, octet by octet. -/
def exampleShared (a b : FixedBytes 32) : FixedBytes 32 where
  bytes := List.zipWith (· + ·) a.bytes b.bytes
  length_eq := by rw [List.length_zipWith, a.length_eq, b.length_eq, Nat.min_self]

def exampleSealed (key : FixedBytes 32) (plaintext : String) : String :=
  key.toHex ++ key.toHex ++ plaintext

/-- A crate that knows some messages. -/
def exampleCrypto (messages : List PairingMessage) : Crypto where
  publicKey secretKey := secretKey
  sign _ builder _ :=
    .ok (FixedBytes.ofNat 32 builder.createdAt, FixedBytes.ofNat 64 builder.createdAt)
  verify event :=
    if event.sig = FixedBytes.ofNat 64 event.createdAt then .ok () else .error "invalid signature"
  generateSharedKey secretKey peer := .ok (exampleShared secretKey peer)
  hkdfExtract salt ikm := FixedBytes.ofNat 32 (exampleHash (salt ++ ikm))
  hkdfExpand prk info n := FixedBytes.ofNat n (exampleHash (prk.bytes ++ info))
  encryptWith key _ plaintext := .ok (exampleSealed key plaintext)
  decryptWith key content :=
    match messages.find? fun m => exampleSealed key m.text = content with
    | some m => .ok m.text
    | none => .error "invalid MAC"
  fromStr s :=
    match messages.find? fun m => m.text = s with
    | some m => .ok m
    | none => .error "expected value"

def exampleSecretKey : SecretKey := FixedBytes.ofNat 32 3

def exampleTargetKey : SecretKey := FixedBytes.ofNat 32 5

def exampleSecret : FixedBytes 32 := FixedBytes.ofNat 32 77

def exampleEnv (now : Nat) : Env := ⟨now, now, 0, FixedBytes.ofNat 32 now, FixedBytes.ofNat 32 0⟩

def exampleMessages : List PairingMessage :=
  [.offer "0000000000000000000000000000000000000000000000000b5565e7f46df1ec" 1,
    .sasConfirm "00000000000000000000000000000000000000000000000005255ebce863de16",
    .payload .nsec "nsec1", .complete true]

def exampleCrate : Crypto := exampleCrypto exampleMessages

def exampleSource : PairingSession × QrPayload :=
  newSource exampleCrate (exampleEnv 0) exampleSecretKey exampleSecret "wss://relay.example"

theorem exampleTarget_joins : ∃ target offer,
    newTarget exampleCrate (exampleEnv 1) exampleTargetKey exampleSource.2 = .ok (target, offer) :=
      ⟨_, _, rfl⟩

/-- The offer of a target that has scanned the QR code. -/
def exampleOffer : Event where
  id := FixedBytes.ofNat 32 1
  pubkey := exampleTargetKey
  createdAt := 1
  kind := pairingKind
  tags := [["p", exampleSecretKey.toHex]]
  content := exampleSealed (exampleShared exampleTargetKey exampleSecretKey)
    (PairingMessage.offer exampleSource.1.sessionId.toHex 1).text
  sig := FixedBytes.ofNat 64 1

/-- The offer comes in twice. -/
def exampleCalls : List (Env × Api) :=
  [(exampleEnv 2, .handleOffer exampleOffer), (exampleEnv 3, .handleOffer exampleOffer),
    (exampleEnv 4, .confirmSas), (exampleEnv 5, .sendPayload .nsec "nsec1")]

/-- The source sends its payload, although the offer came twice. -/
theorem session_safe_source :
    ∃ t, (pairing exampleCrate).run ⟨exampleSource.1, []⟩ exampleCalls = some t
    ∧ t.session.state = .payloadExchanged ∧
      Safe exampleCrate exampleSource.1 exampleSecretKey t.history := by
  obtain ⟨t, ht⟩ : ∃ t, (pairing exampleCrate).run ⟨exampleSource.1, []⟩ exampleCalls = some t :=
    ⟨_, rfl⟩
  have hstate : ((pairing exampleCrate).run ⟨exampleSource.1, []⟩ exampleCalls).map
    (fun t => t.session.state)
      = some .payloadExchanged := by decide +kernel
  rw [ht] at hstate
  exact ⟨t, ht, Option.some.inj hstate,
    (session_safe (.source _ _ _ _) ht (Machine.run_nil (M := pairing exampleCrate))).1⟩

end Pkzz.Pairing
