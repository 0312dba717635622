import Mathlib.Data.List.ReduceOption
import Pkzz.Pairing.Qr

/-!
# The QR code is a codec

What `encode_qr` writes is read back. What `decode_qr` accepts says which version it is and says
nothing twice, as long as every `v` is a number of 32 bits and neither `v` nor `secret` is repeated:
`value.parse::<u32>().ok()` makes a `v` that is no such number the same as a missing one.
-/

namespace Pkzz.Pairing

open Pkzz.Core Pkzz.Lib

/-! ## One relay -/

theorem isAsciiAlphanumeric_bounds {b : UInt8} (h : isAsciiAlphanumeric b = true) :
    (48 ≤ b.toNat ∧ b.toNat ≤ 57) ∨ (65 ≤ b.toNat ∧ b.toNat ≤ 90) ∨
    (97 ≤ b.toNat ∧ b.toNat ≤ 122) := by
  simp only [isAsciiAlphanumeric, Bool.or_eq_true, Bool.and_eq_true, decide_eq_true_eq,
    UInt8.le_iff_toNat_le] at h
  simp at h
  omega

/-- The octets of an encoded relay are ASCII, and none is the octet of `&`. -/
theorem encode_bounds {bs : List UInt8} {b : UInt8}
    (h : b ∈ Percent.encode isAsciiAlphanumeric bs) : b.toNat < 128 ∧ b.toNat ≠ 38 := by
  rcases Percent.mem_encode h with h | rfl | ⟨d, hd, rfl⟩
  · have := isAsciiAlphanumeric_bounds h
    omega
  · decide
  · rw [Percent.toNat_hexDigit hd]
    split <;> omega

theorem asBytes_urlEncode (s : String) :
    Str.asBytes (urlEncode s) = Percent.encode isAsciiAlphanumeric (Str.asBytes s) :=
  Str.asBytes_ofAscii fun _ hb => (encode_bounds hb).1

/-- **A relay of any characters is read back.** -/
theorem urlDecode_urlEncode (s : String) : urlDecode (urlEncode s) = s := by
  rw [urlDecode, asBytes_urlEncode, Percent.decode_encode rfl, Str.fromUtf8Lossy_asBytes]

theorem amp_notMem_urlEncode (s : String) : '&' ∉ (urlEncode s).toList := by
  rw [Str.mem_toList_iff (by decide), asBytes_urlEncode]
  intro h
  exact (encode_bounds h).2 (by decide)

/-- The octets that a text takes when it is percent-encoded. -/
def escapedLen (s : String) : Nat :=
  ((Str.asBytes s).map fun b => if isAsciiAlphanumeric b then 1 else 3).sum

theorem len_urlEncode (s : String) : Str.len (urlEncode s) = escapedLen s := by
  rw [Str.len, asBytes_urlEncode, Percent.length_encode, escapedLen]

/-! ## What `encode_qr` writes -/

def relayParts : List String → String
  | [] => ""
  | relay :: relays => relayPart relay ++ relayParts relays

theorem foldl_relayPart : ∀ (relays : List String) (uri : String),
    relays.foldl (fun uri relay => uri ++ relayPart relay) uri = uri ++ relayParts relays
  | [], uri => by rw [List.foldl_nil, relayParts, String.append_empty]
  | relay :: relays, uri => by
    rw [List.foldl_cons, foldl_relayPart relays, relayParts, String.append_assoc]

/-- What stands behind the `?`, with any text for the version. -/
def queryText (payload : QrPayload) (v : String) : String :=
  "secret=" ++ payload.sessionSecret.toHex ++ (relayParts payload.relays ++ ("&v=" ++ v))

def uriText (payload : QrPayload) (v : String) : String :=
  qrScheme ++ (payload.sourcePubkey.toHex ++ "?" ++ queryText payload v)

theorem encodeQr_eq (payload : QrPayload) : encodeQr payload = uriText payload "1" := by
  have hmark : "?secret=" = "?" ++ "secret=" := by decide
  have hversion : "&v=" ++ "1" = "&v=1" := by decide
  unfold encodeQr uriText queryText
  dsimp only
  rw [foldl_relayPart, hmark, hversion]
  simp only [String.append_assoc]

theorem len_relayParts : ∀ relays : List String,
    Str.len (relayParts relays) = (relays.map fun relay => 7 + escapedLen relay).sum
  | [] => rfl
  | relay :: relays => by
    have hmark : Str.len "&relay=" = 7 := by decide
    rw [relayParts, Str.len_append, relayPart, Str.len_append, len_urlEncode, hmark,
      len_relayParts relays, List.map_cons, List.sum_cons]

theorem len_uriText (payload : QrPayload) (v : String) : Str.len (uriText payload v) =
    151 + Str.len v + (payload.relays.map fun relay => 7 + escapedLen relay).sum := by
  have hscheme : Str.len qrScheme = 12 := by decide
  have hmark : Str.len "?" = 1 := by decide
  have hsecret : Str.len "secret=" = 7 := by decide
  have hversion : Str.len "&v=" = 3 := by decide
  rw [uriText, queryText]
  simp only [Str.len_append, FixedBytes.len_toHex, len_relayParts, hscheme, hmark,
    hsecret, hversion]
  omega

theorem len_encodeQr (payload : QrPayload) :
    Str.len (encodeQr payload) =
      152 + (payload.relays.map fun relay => 7 + escapedLen relay).sum := by
  have hone : Str.len "1" = 1 := by decide
  rw [encodeQr_eq, len_uriText, hone]

/-! ## Reading it back -/

theorem splitOnce_append {s t : String} {c : Char} (u : String) (h : c ∉ s.toList)
    (ht : t.toList = [c]) : splitOnce (s ++ t ++ u) c = some (s, u) := by
  rw [splitOnce, String.toList_append, String.toList_append, ht, splitFirst_singleton_append _ h]
  simp only [Option.map_some, String.ofList_toList]

theorem notMem_toHex {n : Nat} (a : FixedBytes n) {c : Char}
    (h : FixedBytes.isLowerHexdigit c = false) : c ∉ a.toHex.toList := by
  intro hc
  rw [a.toHex_isLowerHexdigit c hc] at h
  cases h

theorem split_relayParts {v : String} (hv : '&' ∉ v.toList) :
    ∀ (relays : List String) (first : String),
    '&' ∉ first.toList → Str.split (first ++ (relayParts relays ++ ("&v=" ++ v))) '&' =
      first :: relays.map (fun relay => "relay=" ++ urlEncode relay) ++ ["v=" ++ v]
  | [], first, h => by
    have hshape : first ++ (relayParts [] ++ ("&v=" ++ v)) = first ++ "&" ++ ("v=" ++ v) := by
      have hmark : "&v=" = "&" ++ "v=" := by decide
      rw [relayParts, String.empty_append, hmark]
      simp only [String.append_assoc]
    have hlast : '&' ∉ ("v=" ++ v).toList := by
      rw [String.toList_append, List.mem_append, not_or]
      exact ⟨by decide, hv⟩
    rw [hshape, Str.split_append h rfl, Str.split_of_notMem hlast]
    rfl
  | relay :: relays, first, h => by
    have hshape : first ++ (relayParts (relay :: relays) ++ ("&v=" ++ v)) =
        first ++ "&" ++ (("relay=" ++ urlEncode relay) ++ (relayParts relays ++ ("&v=" ++ v))) := by
      have hmark : "&relay=" = "&" ++ "relay=" := by decide
      rw [relayParts, relayPart, hmark]
      simp only [String.append_assoc]
    have hrelay : '&' ∉ ("relay=" ++ urlEncode relay).toList := by
      rw [String.toList_append, List.mem_append, not_or]
      exact ⟨by decide, amp_notMem_urlEncode relay⟩
    rw [hshape, Str.split_append h rfl, split_relayParts hv relays _ hrelay]
    rfl

theorem split_queryText (payload : QrPayload) {v : String} (hv : '&' ∉ v.toList) :
    Str.split (queryText payload v) '&' = ("secret=" ++ payload.sessionSecret.toHex) ::
      payload.relays.map (fun relay => "relay=" ++ urlEncode relay) ++ ["v=" ++ v] := by
  refine split_relayParts hv _ _ ?_
  rw [String.toList_append, List.mem_append, not_or]
  exact ⟨by decide, notMem_toHex _ (by decide)⟩

theorem splitOnce_secret (value : String) :
    splitOnce ("secret=" ++ value) '=' = some ("secret", value) := by
  have hmark : "secret=" = "secret" ++ "=" := by decide
  rw [hmark, splitOnce_append value (by decide) rfl]

theorem splitOnce_relay (value : String) :
    splitOnce ("relay=" ++ value) '=' = some ("relay", value) := by
  have hmark : "relay=" = "relay" ++ "=" := by decide
  rw [hmark, splitOnce_append value (by decide) rfl]

theorem splitOnce_v (value : String) : splitOnce ("v=" ++ value) '=' = some ("v", value) := by
  have hmark : "v=" = "v" ++ "=" := by decide
  rw [hmark, splitOnce_append value (by decide) rfl]

theorem foldl_read_relays : ∀ (relays : List String) (found : Found),
    (relays.map fun relay => "relay=" ++ urlEncode relay).foldl Found.read found =
      { found with relays := found.relays ++ relays }
  | [], found => by rw [List.map_nil, List.foldl_nil, List.append_nil]
  | relay :: relays, found => by
    have hread : found.read ("relay=" ++ urlEncode relay) =
        { found with relays := found.relays ++ [relay] } := by
      rw [Found.read, splitOnce_relay]
      simp only [if_true, if_neg (by decide : ¬ "relay" = "secret"), urlDecode_urlEncode]
    rw [List.map_cons, List.foldl_cons, hread, foldl_read_relays relays, List.append_assoc]
    rfl

theorem readQuery_queryText (payload : QrPayload) {v : String} (hv : '&' ∉ v.toList) :
    readQuery (queryText payload v) =
    {
      secretHex := some payload.sessionSecret.toHex, relays := payload.relays,
      version := parseU32 v } := by
  rw [readQuery, split_queryText payload hv, List.cons_append, List.foldl_cons,
    List.foldl_append, Found.read, splitOnce_secret]
  dsimp only
  rw [if_pos rfl, foldl_read_relays, List.foldl_cons, Found.read, splitOnce_v]
  rfl

/-! ## What it takes to be accepted -/

variable (crates : QrCrates)

/-- The URL crate reads the relay, with a WebSocket scheme and a host. -/
def IsRelay (relay : String) : Prop :=
  ∃ url, crates.urlParse relay = .ok url ∧ (url.scheme = "wss" ∨ url.scheme = "ws") ∧
    url.host ≠ none

structure QrPayload.Valid (payload : QrPayload) : Prop where
  /-- The key crate takes the key's own hex form. -/
  key : ∃ key, crates.publicKeyFromHex payload.sourcePubkey.toHex = .ok key
  secret : payload.sessionSecret.bytes ≠ List.replicate 32 0
  relays_ne : payload.relays ≠ []
  relays : ∀ relay ∈ payload.relays, IsRelay crates relay
  version : payload.version = 1

variable {crates}

theorem checkRelay_ok {relay : String} : checkRelay crates relay = .ok () ↔
    IsRelay crates relay := by
  unfold checkRelay IsRelay
  cases hparse : crates.urlParse relay with
  | error e => simp
  | ok url =>
    simp only [Except.ok.injEq, exists_eq_left']
    by_cases hscheme : url.scheme ≠ "wss" ∧ url.scheme ≠ "ws"
    · rw [if_pos hscheme]
      simp [hscheme.1, hscheme.2]
    rw [if_neg hscheme]
    have hor : url.scheme = "wss" ∨ url.scheme = "ws" := by
      by_cases hwss : url.scheme = "wss"
      · exact .inl hwss
      · exact .inr (by_contra fun hws => hscheme ⟨hwss, hws⟩)
    by_cases hhost : url.host = none
    · simp [hhost]
    · simp [hhost, hor]

theorem checkRelays_ok : ∀ {relays : List String},
    checkRelays crates relays = .ok () ↔ ∀ relay ∈ relays, IsRelay crates relay
  | [] => by simp [checkRelays]
  | relay :: relays => by
    rw [checkRelays, List.forall_mem_cons, ← @checkRelay_ok crates relay, ← checkRelays_ok]
    cases checkRelay crates relay <;> simp

theorem lowercase_toHex {n : Nat} (a : FixedBytes n) : a.toHex.toList.all isLowercaseHex = true :=
  List.all_eq_true.mpr fun c hc => a.toHex_isLowerHexdigit c hc

theorem readSecret_toHex {secret : FixedBytes 32} (h : secret.bytes ≠ List.replicate 32 0) :
    readSecret crates (some secret.toHex) = .ok secret := by
  rw [readSecret, if_neg, FixedBytes.toList_toHex, decodeHex_hexByte]
  · simp only
    rw [dif_pos secret.length_eq, if_neg h]
  · rw [FixedBytes.len_toHex, lowercase_toHex]
    simp

theorem readPubkey_toHex {pubkey key : PublicKey}
    (h : crates.publicKeyFromHex pubkey.toHex = .ok key) :
    readPubkey crates pubkey.toHex = .ok key := by
  rw [readPubkey, if_neg, h]
  rw [FixedBytes.len_toHex, lowercase_toHex]
  simp

/-- `PublicKey::from_hex` decodes the digits. -/
def DecodesHex (crates : QrCrates) : Prop :=
  ∀ text key, crates.publicKeyFromHex text = .ok key → FixedBytes.fromHex 32 text = some key

variable {payload : QrPayload}

/--
A payload is read back from its URI, whatever the version is written as, if that reads as 1 or as no
number of 32 bits at all.
-/
theorem decodeQr_uriText (hkey : DecodesHex crates) (h : payload.Valid crates) {v : String}
    (hv : '&' ∉ v.toList) (hone : (parseU32 v).getD 1 = 1)
    (hlen : Str.len (uriText payload v) ≤ maxUriLen) :
    decodeQr crates (uriText payload v) = .ok payload := by
  obtain ⟨key, hfrom⟩ := h.key
  have hself : key = payload.sourcePubkey := by
    have hdecoded := hkey _ _ hfrom
    rw [FixedBytes.fromHex_toHex] at hdecoded
    exact (Option.some.inj hdecoded).symm
  have hversion : readVersion (parseU32 v) = .ok payload.version := by
    rw [readVersion, hone, h.version]
    rfl
  unfold decodeQr
  rw [if_neg (Nat.not_lt.mpr hlen), uriText, Str.stripPrefix_append]
  dsimp only
  rw [splitOnce_append _ (notMem_toHex _ (by decide)) rfl]
  simp only [readPubkey_toHex hfrom, readQuery_queryText payload hv, hversion,
    readSecret_toHex h.secret, checkRelays_ok.mpr h.relays, if_neg h.relays_ne, hself]
  rfl

/-- **The round trip.** -/
theorem decodeQr_encodeQr (hkey : DecodesHex crates) (h : payload.Valid crates)
    (hlen : Str.len (encodeQr payload) ≤ maxUriLen) :
    decodeQr crates (encodeQr payload) = .ok payload := by
  rw [encodeQr_eq] at hlen ⊢
  exact decodeQr_uriText hkey h (by decide) (by decide) hlen

/-! ## What was accepted -/

/-- What an accepted URI was read as, step by step. -/
structure Accepted (crates : QrCrates) (uri : String) (query : String)
    (payload : QrPayload) : Prop where
  len : Str.len uri ≤ maxUriLen
  parts : ∃ rest pubkeyHex, Str.stripPrefix uri qrScheme = some rest ∧
    splitOnce rest '?' = some (pubkeyHex, query)
    ∧ readPubkey crates pubkeyHex = .ok payload.sourcePubkey
  version : readVersion (readQuery query).version = .ok payload.version
  secret : readSecret crates (readQuery query).secretHex = .ok payload.sessionSecret
  relays : (readQuery query).relays = payload.relays
  relays_ne : payload.relays ≠ []
  checked : checkRelays crates payload.relays = .ok ()

variable {uri : String}

theorem accepted_of_decodeQr (h : decodeQr crates uri = .ok payload) :
    ∃ query, Accepted crates uri query payload := by
  unfold decodeQr at h
  by_cases hlen : Str.len uri > maxUriLen
  · rw [if_pos hlen] at h
    cases h
  rw [if_neg hlen] at h
  dsimp only at h
  cases hstrip : Str.stripPrefix uri qrScheme with
  | none => rw [hstrip] at h; cases h
  | some rest =>
  rw [hstrip] at h
  dsimp only at h
  cases hsplit : splitOnce rest '?' with
  | none => rw [hsplit] at h; cases h
  | some parts =>
  obtain ⟨pubkeyHex, query⟩ := parts
  rw [hsplit] at h
  dsimp only at h
  cases hpubkey : readPubkey crates pubkeyHex with
  | error e => rw [hpubkey] at h; cases h
  | ok sourcePubkey =>
  cases hversion : readVersion (readQuery query).version with
  | error e => rw [hpubkey, hversion] at h; cases h
  | ok version =>
  cases hsecret : readSecret crates (readQuery query).secretHex with
  | error e => rw [hpubkey, hversion, hsecret] at h; cases h
  | ok sessionSecret =>
  rw [hpubkey, hversion, hsecret] at h
  by_cases hne : (readQuery query).relays = []
  · simp only [bind, Except.bind, hne, if_true] at h
    cases h
  cases hcheck : checkRelays crates (readQuery query).relays with
  | error e =>
    simp only [bind, Except.bind, hcheck, if_neg hne] at h
    cases h
  | ok u =>
    simp only [bind, Except.bind, hcheck, if_neg hne] at h
    cases h
    exact ⟨query, Nat.not_lt.mp hlen, ⟨rest, pubkeyHex, hstrip, hsplit, hpubkey⟩, hversion, hsecret,
      rfl, hne, hcheck⟩

theorem readVersion_ok {version : Option Nat} {n : Nat} (h : readVersion version = .ok n) :
    version.getD 1 = 1 ∧ n = 1 := by
  unfold readVersion at h
  by_cases hone : version.getD 1 = 1
  · rw [if_neg (by simpa using hone), hone] at h
    exact ⟨hone, (Except.ok.inj h).symm⟩
  · rw [if_pos hone] at h
    cases h

theorem readSecret_ok {secretHex : Option String} {secret : FixedBytes 32}
    (h : readSecret crates secretHex = .ok secret) : secret.bytes ≠ List.replicate 32 0 := by
  unfold readSecret at h
  cases secretHex with
  | none => cases h
  | some secretStr =>
    dsimp only at h
    split at h
    · cases h
    split at h
    · cases h
    split at h
    · split at h
      · cases h
      · rename_i hzero
        cases h
        exact hzero
    · cases h

theorem readPubkey_ok (hkey : DecodesHex crates) {pubkeyHex : String} {key : PublicKey}
    (h : readPubkey crates pubkeyHex = .ok key) : crates.publicKeyFromHex key.toHex = .ok key := by
  unfold readPubkey at h
  split at h
  · cases h
  rename_i hform
  simp only [ne_eq, Bool.not_eq_true', Bool.or_eq_true, decide_eq_true_eq, not_or, not_not,
    Bool.not_eq_false] at hform
  obtain ⟨hlen, hlower⟩ := hform
  have hlower : ∀ c ∈ pubkeyHex.toList, FixedBytes.isLowerHexdigit c = true :=
    List.all_eq_true.mp hlower
  have hascii : ∀ c ∈ pubkeyHex.toList, c.toNat < 128 := by
    intro c hc
    have := FixedBytes.toNat_of_isLowerHexdigit (hlower c hc)
    omega
  rw [Str.len_ascii hascii] at hlen
  obtain ⟨a, hdecoded, htext⟩ := FixedBytes.fromHex_of_isLowerHexdigit (n := 32) hlen hlower
  cases hfrom : crates.publicKeyFromHex pubkeyHex with
  | error e => rw [hfrom] at h; cases h
  | ok key' =>
    rw [hfrom] at h
    have hkey' := hkey _ _ hfrom
    rw [hdecoded] at hkey'
    rw [← Except.ok.inj h, ← Option.some.inj hkey', htext, hfrom, Option.some.inj hkey']

variable {query : String}

/-- What was accepted can be encoded. -/
theorem Accepted.valid (hkey : DecodesHex crates)
    (h : Accepted crates uri query payload) : payload.Valid crates where
  key := by
    obtain ⟨_, _, _, _, hpubkey⟩ := h.parts
    exact ⟨_, readPubkey_ok hkey hpubkey⟩
  secret := readSecret_ok h.secret
  relays_ne := h.relays_ne
  relays := checkRelays_ok.mp h.checked
  version := (readVersion_ok h.version).2

/-! ## The parameters of a query -/

/-- A parameter and its value; text without `=` is a parameter without a value. -/
def parameter (pair : String) : String × Option String :=
  match splitOnce pair '=' with
  | some (key, value) => (key, some value)
  | none => (pair, none)

/-- The values of a parameter, in their order. -/
def values (key : String) (pairs : List String) : List (Option String) :=
  pairs.filterMap fun pair => if (parameter pair).1 = key then some (parameter pair).2 else none

/-- The query of a URI. -/
def queryOf (uri : String) : String :=
  match (Str.stripPrefix uri qrScheme).bind fun rest => splitOnce rest '?' with
  | some (_, query) => query
  | none => ""

def valuesOf (key uri : String) : List (Option String) := values key (Str.split (queryOf uri) '&')

/-- The relays that a URI names. -/
def relaysOf (uri : String) : List String := (valuesOf "relay" uri).reduceOption.map urlDecode

theorem Accepted.queryOf (h : Accepted crates uri query payload) :
    Pairing.queryOf uri = query := by
  obtain ⟨rest, pubkeyHex, hstrip, hsplit, _⟩ := h.parts
  rw [Pairing.queryOf, hstrip, Option.bind_some, hsplit]

theorem values_cons (key pair : String) (pairs : List String) : values key (pair :: pairs) =
    (if (parameter pair).1 = key then [(parameter pair).2] else []) ++ values key pairs := by
  unfold values
  rw [List.filterMap_cons]
  split <;> split_ifs at * <;> simp_all

theorem Found.relays_read (found : Found) (pair : String) :
    (found.read pair).relays = found.relays ++ (if (parameter pair).1 = "relay" then
      [(parameter pair).2] else []).reduceOption.map urlDecode := by
  unfold Found.read parameter
  cases splitOnce pair '=' with
  | none =>
    dsimp only
    split <;> simp [List.reduceOption]
  | some kv =>
    obtain ⟨key, value⟩ := kv
    dsimp only
    by_cases hrelay : key = "relay"
    · subst hrelay
      simp [List.reduceOption]
    · rw [if_neg hrelay]
      split_ifs <;> simp [List.reduceOption]

theorem Found.version_read_of_ne {found : Found} {pair : String} (h : (parameter pair).1 ≠ "v") :
    (found.read pair).version = found.version := by
  unfold Found.read
  unfold parameter at h
  cases hsplit : splitOnce pair '=' with
  | none => rfl
  | some kv =>
    rw [hsplit] at h
    dsimp only
    rw [if_neg h]
    split_ifs <;> rfl

theorem Found.version_read {found : Found} {pair value : String}
    (h : parameter pair = ("v", some value)) : (found.read pair).version = parseU32 value := by
  unfold Found.read
  unfold parameter at h
  cases hsplit : splitOnce pair '=' with
  | none => rw [hsplit] at h; cases h
  | some kv =>
    rw [hsplit] at h
    obtain ⟨hkey, hvalue⟩ := Prod.mk.inj h
    dsimp only
    rw [hkey, Option.some.inj hvalue]
    rfl

theorem foldl_relays : ∀ (pairs : List String) (found : Found),
    (pairs.foldl Found.read found).relays = found.relays ++
    (values "relay" pairs).reduceOption.map urlDecode
  | [], found => by simp [values, List.reduceOption]
  | pair :: pairs, found => by
    rw [List.foldl_cons, foldl_relays pairs, values_cons, Found.relays_read]
    simp only [List.reduceOption, List.filterMap_append, List.map_append, List.append_assoc]

theorem foldl_version_of_nil : ∀ (pairs : List String) (found : Found), values "v" pairs = [] →
    (pairs.foldl Found.read found).version = found.version
  | [], found, _ => rfl
  | pair :: pairs, found, h => by
    rw [values_cons, List.append_eq_nil_iff] at h
    have hkey : (parameter pair).1 ≠ "v" := by
      intro hv
      rw [if_pos hv] at h
      cases h.1
    rw [List.foldl_cons, foldl_version_of_nil pairs _ h.2, Found.version_read_of_ne hkey]

/-- A `v` with a value that stands alone is the version. -/
theorem foldl_version_of_singleton {value : String} : ∀ (pairs : List String) (found : Found),
    values "v" pairs = [some value] → (pairs.foldl Found.read found).version = parseU32 value
  | [], found, h => by cases h
  | pair :: pairs, found, h => by
    rw [values_cons] at h
    by_cases hkey : (parameter pair).1 = "v"
    · rw [if_pos hkey, List.singleton_append] at h
      obtain ⟨hvalue, hnil⟩ := List.cons.inj h
      rw [List.foldl_cons, foldl_version_of_nil pairs _ hnil,
        Found.version_read (Prod.ext hkey hvalue)]
    · rw [if_neg hkey, List.nil_append] at h
      rw [List.foldl_cons, foldl_version_of_singleton pairs _ h]

theorem Accepted.relaysOf (h : Accepted crates uri query payload) :
    Pairing.relaysOf uri = payload.relays := by
  rw [← h.relays, readQuery, foldl_relays, Pairing.relaysOf, valuesOf, h.queryOf]
  rfl

/-! ## The parameters of what `encode_qr` writes -/

theorem values_append (key : String) (pairs pairs' : List String) :
    values key (pairs ++ pairs') = values key pairs ++ values key pairs' :=
  List.filterMap_append

theorem values_relays {key : String} (h : key ≠ "relay") (relays : List String) :
    values key (relays.map fun relay => "relay=" ++ urlEncode relay) = [] := by
  refine List.filterMap_eq_nil_iff.mpr fun pair hpair => ?_
  obtain ⟨relay, _, rfl⟩ := List.mem_map.mp hpair
  rw [parameter, splitOnce_relay]
  exact if_neg fun heq => h heq.symm

theorem queryOf_uriText (payload : QrPayload) (v : String) :
    queryOf (uriText payload v) = queryText payload v := by
  rw [queryOf, uriText, Str.stripPrefix_append, Option.bind_some,
    splitOnce_append _ (notMem_toHex _ (by decide)) rfl]

theorem valuesOf_uriText {key : String} (hkey : key ≠ "relay") (payload : QrPayload) {v : String}
    (hv : '&' ∉ v.toList) : valuesOf key (uriText payload v) =
      (if "secret" = key then [some payload.sessionSecret.toHex] else []) ++ (if "v" = key then
        [some v] else []) := by
  rw [valuesOf, queryOf_uriText, split_queryText payload hv, List.cons_append, values_cons,
    values_append, values_relays hkey, values_cons]
  rw [parameter, splitOnce_secret, parameter, splitOnce_v]
  simp [values]

/-! ## The codec -/

/-- What reading a URI should come to: one version, which is 1, nothing said twice, and a payload
that encoding and decoding leave as it is. -/
structure Faithful (crates : QrCrates) (uri : String) (payload : QrPayload) : Prop where
  version : ∀ value ∈ valuesOf "v" uri, value.bind numeral = some 1
  one_version : (valuesOf "v" uri).length ≤ 1
  one_secret : (valuesOf "secret" uri).length ≤ 1
  stable : decodeQr crates (encodeQr payload) = .ok payload

/-- Every `v` is a number of 32 bits, `v` and `secret` are not repeated, and the relays leave room
for being percent-encoded. -/
structure Plain (uri : String) : Prop where
  version : ∀ value ∈ valuesOf "v" uri, ∃ n < 2 ^ 32, value.bind numeral = some n
  one_version : (valuesOf "v" uri).length ≤ 1
  one_secret : (valuesOf "secret" uri).length ≤ 1
  short : 152 + ((relaysOf uri).map fun relay => 7 + escapedLen relay).sum ≤ maxUriLen

theorem Accepted.version_eq (h : Accepted crates uri query payload)
    (hplain : Plain uri) : ∀ value ∈ valuesOf "v" uri, value.bind numeral = some 1 := by
  intro value hvalue
  obtain ⟨n, hn, hnumeral⟩ := hplain.version value hvalue
  have hone := hplain.one_version
  have hvalues : valuesOf "v" uri = [value] := by
    cases hv : valuesOf "v" uri with
    | nil => rw [hv] at hvalue; cases hvalue
    | cons first rest =>
      rw [hv, List.length_cons] at hone
      obtain rfl : rest = [] := List.length_eq_zero_iff.mp (by omega)
      rw [hv] at hvalue
      rw [List.mem_singleton.mp hvalue]
  cases value with
  | none => cases hnumeral
  | some text =>
    rw [valuesOf, h.queryOf] at hvalues
    have hread : (readQuery query).version = some n := by
      rw [Option.bind_some] at hnumeral
      rw [readQuery, foldl_version_of_singleton _ _ hvalues, parseU32, hnumeral, Option.filter_some,
        if_pos (decide_eq_true hn)]
    have hversion := (readVersion_ok h.version).1
    rw [hread, Option.getD_some] at hversion
    rw [hnumeral, hversion]

/--
**The QR code is a codec**: what is encoded in 2048 octets is decoded, and what is decoded is said
by its URI once and stays as it is, exactly if its URI is plain.
-/
theorem qr_codec (crates : QrCrates) (hkey : DecodesHex crates) :
    (∀ payload : QrPayload, payload.Valid crates → Str.len (encodeQr payload) ≤ maxUriLen →
      decodeQr crates (encodeQr payload) = .ok payload)
    ∧ ∀ uri payload, decodeQr crates uri = .ok payload →
      (Faithful crates uri payload ↔ Plain uri) := by
  refine ⟨fun payload h hlen => decodeQr_encodeQr hkey h hlen, fun uri payload h => ?_⟩
  obtain ⟨query, haccepted⟩ := accepted_of_decodeQr h
  constructor
  · intro hfaithful
    obtain ⟨_, hagain⟩ := accepted_of_decodeQr hfaithful.stable
    have hlen := hagain.len
    rw [len_encodeQr, ← haccepted.relaysOf] at hlen
    exact ⟨fun value hvalue => ⟨1, by decide, hfaithful.version value hvalue⟩,
      hfaithful.one_version, hfaithful.one_secret, hlen⟩
  · intro hplain
    refine ⟨haccepted.version_eq hplain, hplain.one_version, hplain.one_secret, ?_⟩
    refine decodeQr_encodeQr hkey (haccepted.valid hkey) ?_
    rw [len_encodeQr, ← haccepted.relaysOf]
    exact hplain.short

/-! ## One payload -/

/-- Crates that answer as the real ones do on the texts below. -/
def sampleCrates : QrCrates where
  publicKeyFromHex text :=
    match FixedBytes.fromHex 32 text with
    | some key => .ok key
    | none => .error "Invalid public key"
  urlParse text :=
    match splitFirst "://".toList text.toList with
    | some (scheme, host) =>
        .ok { scheme := String.ofList scheme, host := some (String.ofList host) }
    | none => .error "relative URL without a base"
  debug text := "\"" ++ text ++ "\""
  hexError _ := "Odd number of digits"

theorem sampleCrates_decodesHex : DecodesHex sampleCrates := by
  intro text key h
  simp only [sampleCrates] at h
  cases hdecoded : FixedBytes.fromHex 32 text with
  | none => rw [hdecoded] at h; cases h
  | some key' =>
    rw [hdecoded] at h
    rw [Except.ok.inj h]

def samplePayload : QrPayload where
  version := 1
  sourcePubkey := FixedBytes.ofNat 32 1
  sessionSecret := FixedBytes.ofNat 32 1
  relays := ["wss://r.io"]

theorem samplePayload_valid : samplePayload.Valid sampleCrates where
  key := ⟨samplePayload.sourcePubkey, by simp only [sampleCrates, FixedBytes.fromHex_toHex]⟩
  secret := by decide
  relays_ne := by decide
  relays := by
    intro relay hrelay
    obtain rfl := List.mem_singleton.mp hrelay
    exact ⟨{ scheme := "wss", host := some "r.io" }, by rfl, .inl rfl, by decide⟩
  version := rfl

/-- The sample payload is read back from its URI. -/
theorem qr_codec_sample : decodeQr sampleCrates (encodeQr samplePayload) = .ok samplePayload
    ∧ Faithful sampleCrates (encodeQr samplePayload) samplePayload := by
  have hlen : Str.len (encodeQr samplePayload) ≤ maxUriLen := by
    rw [len_encodeQr]
    decide
  obtain ⟨hround, hfaithful⟩ := qr_codec sampleCrates sampleCrates_decodesHex
  have hread := hround samplePayload samplePayload_valid hlen
  refine ⟨hread, (hfaithful _ _ hread).mpr ?_⟩
  have hv : valuesOf "v" (encodeQr samplePayload) = [some "1"] := by
    rw [encodeQr_eq, valuesOf_uriText (by decide) _ (by decide)]
    rfl
  have hsecret : valuesOf "secret" (encodeQr samplePayload) =
      [some samplePayload.sessionSecret.toHex] := by
    rw [encodeQr_eq, valuesOf_uriText (by decide) _ (by decide)]
    rfl
  obtain ⟨_, haccepted⟩ := accepted_of_decodeQr hread
  refine ⟨?_, by rw [hv]; decide, by rw [hsecret]; exact Nat.le_refl 1, ?_⟩
  · intro value hvalue
    rw [hv] at hvalue
    rw [List.mem_singleton.mp hvalue]
    exact ⟨1, by decide, by decide⟩
  · rw [haccepted.relaysOf, ← len_encodeQr]
    exact hlen

/-- A version that is no number is taken for a missing one. -/
theorem not_qr_codec : ¬ ∀ crates : QrCrates, DecodesHex crates →
    (∀ payload : QrPayload, payload.Valid crates → Str.len (encodeQr payload) ≤ maxUriLen →
      decodeQr crates (encodeQr payload) = .ok payload)
    ∧ ∀ uri payload, decodeQr crates uri = .ok payload → Faithful crates uri payload := by
  intro h
  have hlen : Str.len (uriText samplePayload "abc") ≤ maxUriLen := by
    rw [len_uriText]
    decide
  have hread := decodeQr_uriText (v := "abc") sampleCrates_decodesHex samplePayload_valid
      (by decide) (by decide) hlen
  have hfaithful := (h sampleCrates sampleCrates_decodesHex).2 _ _ hread
  have hv : some "abc" ∈ valuesOf "v" (uriText samplePayload "abc") := by
    rw [valuesOf_uriText (by decide) _ (by decide)]
    exact List.mem_singleton.mpr rfl
  exact absurd (hfaithful.version _ hv) (by decide)

end Pkzz.Pairing
