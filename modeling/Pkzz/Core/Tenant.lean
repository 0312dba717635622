import Pkzz.Lib.ByteIndex
import Pkzz.Lib.Scan

/-!
# The host of a tenant

A community is looked up by the host a request came for, in one normalized spelling. Two spellings
of one host that are normalized differently are two tenants. `normalize_host` strips a default port
and then one dot from the end of the text, so what it makes of an authority depends on what stands
at the end: `canonical` says what that is, for all authorities. A root dot in front of a port that
is kept stays, and this is the one way in which a spelling survives.
-/

namespace Pkzz.Core

open Lib

/-! ## Normalization -/

/-- Normalize a connection `Host` into the canonical form used as the community lookup key. -/
def normalizeHost (host : String) : String :=
  let host := Str.toAsciiLowercase (Str.trim host)
  let host := ((Str.stripSuffix host ":443").or (Str.stripSuffix host ":80")).getD host
  (Str.stripSuffix host ".").getD host

/-- `std::net::Ipv4Addr`. -/
structure Ipv4Addr where
  a : UInt8
  b : UInt8
  c : UInt8
  d : UInt8

def Ipv4Addr.toString (addr : Ipv4Addr) : String :=
  addr.a.toNat.repr ++ "." ++ addr.b.toNat.repr ++ "." ++ addr.c.toNat.repr ++ "." ++
    addr.d.toNat.repr

/-- The canonical text of an IPv6 address. What counts is its alphabet. -/
structure Ipv6Addr where
  toString : String
  alphabet : ∀ c ∈ toString.toList, Str.isAsciiHexdigit c = true ∨ c = ':' ∨ c = '.'

/-- `url::Host`. -/
inductive UrlHost where
  | domain (domain : String)
  | ipv4 (addr : Ipv4Addr)
  | ipv6 (addr : Ipv6Addr)

/-- What is read of a `url::Url`: the host, and the port unless it is the default of the scheme. -/
structure Url where
  host : Option UrlHost
  port : Option Nat

def UrlHost.toString : UrlHost → String
  | .domain name => name
  | .ipv4 addr => addr.toString
  | .ipv6 addr => "[" ++ addr.toString ++ "]"

/-- Extract the authority from a relay URL, in the shape of `Host` headers. -/
def relayUrlAuthority (parse : String → Option Url) (relayUrl : String) : String :=
  match parse relayUrl with
  | none => ""
  | some url =>
    match url.host with
    | none => ""
    | some host =>
      let authority :=
        match url.port with
        | some port => host.toString ++ ":" ++ port.repr
        | none => host.toString
      normalizeHost authority

/-! ## Authorities -/

def isNameChar (c : Char) : Bool := c.isAlphanum || c == '-' || c == '_' || c == '.'

/-- A DNS name, without the root dot. -/
structure DnsName where
  text : String
  alphabet : ∀ c ∈ text.toList, isNameChar c = true
  ne_nil : text.toList ≠ []
  last : text.toList.getLast? ≠ some '.'

inductive Host where
  | name (name : DnsName) (rootDot : Bool)
  | ipv4 (addr : Ipv4Addr)
  | ipv6 (addr : Ipv6Addr)

namespace Host

/-- The host without a root dot. -/
def core : Host → String
  | name dns _ => dns.text
  | ipv4 addr => addr.toString
  | ipv6 addr => "[" ++ addr.toString ++ "]"

def rootDot : Host → Bool
  | name _ dot => dot
  | _ => false

def text (h : Host) : String := if h.rootDot then h.core ++ "." else h.core

/-- What a URL has for the host: a name is in lower case. -/
def url : Host → UrlHost
  | name dns dot => .domain (Str.toAsciiLowercase (name dns dot).text)
  | ipv4 addr => .ipv4 addr
  | ipv6 addr => .ipv6 addr

end Host

/-- A host with at most a port, which is a number. Spellings of a port with leading zeros and a
colon without a port are not covered. -/
structure Authority where
  host : Host
  port : Option UInt16

namespace Authority

def text (a : Authority) : String :=
  match a.port with
  | some port => a.host.text ++ ":" ++ port.toNat.repr
  | none => a.host.text

/-- The port, when it is none of the two default ones. -/
def ownPort (a : Authority) : Option Nat := (a.port.map UInt16.toNat).filter fun p =>
    p != 443 && p != 80

end Authority

/-- The scheme of a relay URL. -/
inductive Scheme where
  | ws
  | wss

def Scheme.defaultPort : Scheme → Nat
  | ws => 80
  | wss => 443

/-- What a relay URL with an authority is parsed to. -/
def Authority.url (a : Authority) (scheme : Scheme) : Url :=
  ⟨some a.host.url, (a.port.map UInt16.toNat).filter fun p => p != scheme.defaultPort⟩

/-- A text of white space. -/
structure Blanks where
  text : String
  blank : ∀ c ∈ text.toList, Str.isWhitespace c = true

/-! ## Stripping -/

/-- A text that ends with another character does not end with this one. -/
theorem not_suffix_of_last {l : List Char} {init : List Char} {c d : Char}
    (hl : l.getLast? = some c) (hcd : c ≠ d) : ¬ init ++ [d] <:+ l := by
  rintro ⟨front, rfl⟩
  rw [← List.append_assoc, List.getLast?_append_of_ne_nil _ (List.cons_ne_nil d [])] at hl
  exact hcd (Option.some.inj hl).symm

/-! ## Texts of authorities -/

/-- What the text of a host is, as far as it matters what is stripped from it. -/
structure HostText (l : List Char) : Prop where
  ne_nil : l ≠ []
  noBlank : ∀ c ∈ l, Str.isWhitespace c = false
  last : l.getLast? ≠ some '.'
  colon : ':' ∉ l ∨ l.getLast? = some ']'

def withDot (core : List Char) (dot : Bool) : List Char := if dot then core ++ ['.'] else core

def withPort (host : List Char) : Option Nat → List Char
  | none => host
  | some port => host ++ ':' :: Nat.toDigits 10 port

def isOwn (port : Nat) : Bool := port != 443 && port != 80

/-- What becomes of a host and a port. -/
def canonical (core : List Char) (dot : Bool) (port : Option Nat) : List Char :=
  match port.filter isOwn with
  | none => core.map Char.toLower
  | some p => withPort (withDot (core.map Char.toLower) dot) (some p)

theorem toLower_eq_iff {c d : Char} (hd : ¬ (65 ≤ d.toNat ∧ d.toNat ≤ 90))
    (hd' : ¬ (97 ≤ d.toNat ∧ d.toNat ≤ 122)) : c.toLower = d ↔ c = d := by
  rcases ByteIndex.toLower_cases c with ⟨h1, h2, h3⟩ | ⟨_, h⟩
  · constructor
    · rintro rfl
      omega
    · rintro rfl
      exact (hd ⟨h1, h2⟩).elim
  · rw [h]

theorem isWhitespace_toLower (c : Char) : Str.isWhitespace c.toLower = Str.isWhitespace c := by
  rcases ByteIndex.toLower_cases c with ⟨h1, h2, h3⟩ | ⟨_, h⟩
  · have hno : ∀ n, 65 ≤ n → n ≤ 122 → ∀ d : Char, d.toNat = n → Str.isWhitespace d = false := by
      intro n hn hn' d rfl
      simp only [Str.isWhitespace, Bool.or_eq_false_iff, Bool.and_eq_false_iff,
        decide_eq_false_iff_not, beq_eq_false_iff_ne]
      omega
    rw [hno _ h1 (by omega) c rfl, hno (c.toNat + 32) (by omega) (by omega) c.toLower h3]
  · rw [h]

theorem HostText.toLower {l : List Char} (h : HostText l) : HostText (l.map Char.toLower) := by
  refine ⟨by simpa using h.ne_nil, ?_, ?_, ?_⟩
  · intro c hc
    obtain ⟨d, hd, rfl⟩ := List.mem_map.mp hc
    rw [isWhitespace_toLower]
    exact h.noBlank d hd
  · intro hlast
    rw [List.getLast?_map] at hlast
    obtain ⟨c, hc, hdot⟩ := Option.map_eq_some_iff.mp hlast
    rw [(toLower_eq_iff (by decide) (by decide)).mp hdot] at hc
    exact h.last hc
  · rcases h.colon with hcolon | hlast
    · refine .inl fun hmem => hcolon ?_
      obtain ⟨c, hc, heq⟩ := List.mem_map.mp hmem
      rwa [(toLower_eq_iff (by decide) (by decide)).mp heq] at hc
    · refine .inr ?_
      rw [List.getLast?_map, hlast]
      rfl

/-- A host does not end with a port. -/
theorem HostText.not_port {core : List Char} (h : HostText core) (dot : Bool)
    (port : List Char) {d : Char}
    (hd : d ≠ '.') (hd' : d ≠ ']') : ¬ ':' :: port ++ [d] <:+ withDot core dot := by
  cases dot with
  | true =>
    refine not_suffix_of_last (c := '.') ?_ hd.symm
    simp [withDot]
  | false =>
    rcases h.colon with hcolon | hlast
    · intro hsuffix
      exact hcolon (hsuffix.subset (by simp))
    · exact @not_suffix_of_last _ (':' :: port) _ _ hlast hd'.symm

theorem isDigit_of_mem {port : Nat} {c : Char} (h : c ∈ Nat.toDigits 10 port) : c.isDigit = true :=
  Nat.isDigit_of_mem_toDigits (by decide) (by decide) h

theorem noBlank_of_range {c : Char} (h : 33 ≤ c.toNat) (h' : c.toNat ≤ 126) :
    Str.isWhitespace c = false := by
  simp only [Str.isWhitespace, Bool.or_eq_false_iff, Bool.and_eq_false_iff, decide_eq_false_iff_not,
    beq_eq_false_iff_ne]
  omega

theorem isDigit_range {c : Char} (h : c.isDigit = true) : 48 ≤ c.toNat ∧ c.toNat ≤ 57 := by
  simp only [Char.isDigit, ge_iff_le, Bool.and_eq_true, decide_eq_true_eq] at h
  exact ⟨UInt32.le_iff_toNat_le.mp h.1, UInt32.le_iff_toNat_le.mp h.2⟩

theorem toLower_of_isDigit {c : Char} (h : c.isDigit = true) : c.toLower = c := by
  have hrange := isDigit_range h
  rcases ByteIndex.toLower_cases c with ⟨h1, _⟩ | ⟨_, h⟩
  · omega
  · exact h

/-- The port is what stands behind the last colon. -/
theorem split_port {a b : List Char} {p q : Nat}
    (h : a ++ ':' :: Nat.toDigits 10 p = b ++ ':' :: Nat.toDigits 10 q) : a = b ∧ p = q := by
  have hrev := congrArg List.reverse h
  simp only [List.reverse_append, List.reverse_cons, List.append_assoc,
    List.singleton_append] at hrev
  have hstop : ∀ l : List Char, StopsAt (fun c : Char => c.isDigit = true) (':' :: l) :=
    fun l => stopsAt_cons (by decide)
  obtain ⟨hdigits, hrest⟩ := SelfDelimiting.append_inj_of_stop
    (fun c hc => isDigit_of_mem (List.mem_reverse.mp hc)) (fun c hc =>
      isDigit_of_mem (List.mem_reverse.mp hc))
    (hstop _) (hstop _) hrev
  refine ⟨List.reverse_injective (List.cons.inj hrest).2, ?_⟩
  have hpq := List.reverse_injective hdigits
  calc p = Nat.ofDigitChars 10 (Nat.toDigits 10 p) 0 := Nat.ofDigitChars_ten_toDigits.symm
    _ = Nat.ofDigitChars 10 (Nat.toDigits 10 q) 0 := by rw [hpq]
    _ = q := Nat.ofDigitChars_ten_toDigits

/-- A port ends with a digit. -/
theorem getLast?_withPort (host : List Char) (port : Nat) :
    ∃ c, (withPort host (some port)).getLast? = some c ∧ c.isDigit = true := by
  have hne : Nat.toDigits 10 port ≠ [] := Nat.toDigits_ne_nil
  refine ⟨(Nat.toDigits 10 port).getLast hne, ?_, isDigit_of_mem (List.getLast_mem hne)⟩
  rw [withPort, List.getLast?_append_of_ne_nil _ (List.cons_ne_nil _ _),
    List.getLast?_eq_some_getLast (List.cons_ne_nil _ _), List.getLast_cons hne]

/-! ## What becomes of an authority -/

theorem trim_blanks {l : List Char} (hne : l ≠ []) (hl : ∀ c ∈ l, Str.isWhitespace c = false)
    (before after : Blanks) :
    Str.trim (before.text ++ String.ofList l ++ after.text) = String.ofList l := by
  obtain ⟨c, rest, rfl⟩ := List.exists_cons_of_ne_nil hne
  have hkeep : ∀ (m : List Char), (∀ c ∈ m, Str.isWhitespace c = false) → m ≠ [] → ∀ more,
      (m ++ more).dropWhile Str.isWhitespace = m ++ more := by
    intro m hm hmne more
    obtain ⟨d, m, rfl⟩ := List.exists_cons_of_ne_nil hmne
    rw [List.cons_append, List.dropWhile_cons_of_neg (by simp [hm d List.mem_cons_self])]
  unfold Str.trim
  rw [String.toList_append, String.toList_append, String.toList_ofList, List.append_assoc,
    List.dropWhile_append_of_pos before.blank, hkeep _ hl hne, List.reverse_append,
    List.dropWhile_append_of_pos fun d hd => after.blank d (List.mem_reverse.mp hd)]
  have hrev := hkeep (c :: rest).reverse (fun d hd => hl d (List.mem_reverse.mp hd)) (by simp) []
  rw [List.append_nil] at hrev
  rw [hrev, List.reverse_reverse]

/-- The dot is stripped from the end of a host. -/
theorem strip_dot {core : List Char} (h : HostText core) (dot : Bool) :
    (Str.stripSuffix (String.ofList (withDot core dot)) ".").getD
    (String.ofList (withDot core dot)) = String.ofList core := by
  cases dot with
  | true =>
    have hsplit : String.ofList (withDot core true) = String.ofList core ++ "." := by
      rw [← String.toList_inj]
      simp [withDot]
    rw [hsplit, Str.stripSuffix_append]
    rfl
  | false =>
    have hnot : ¬ ".".toList <:+ (String.ofList (withDot core false)).toList := by
      rw [String.toList_ofList (l := withDot core false)]
      rintro ⟨front, heq⟩
      have hlast : core.getLast? = some '.' := by
        rw [show core = front ++ ['.'] from heq.symm]
        exact List.getLast?_concat
      exact h.last hlast
    rw [Str.stripSuffix_eq_none hnot]
    rfl

/-- A host in front of a default port. -/
theorem ofList_withPort (host : List Char) (port : Nat) :
    String.ofList (withPort host (some port)) = String.ofList host ++ (":" ++ port.repr) := by
  rw [← String.toList_inj]
  simp [withPort, Nat.toList_repr]

/-- A host with a port ends with a given port exactly when this is its port. -/
theorem suffix_port_iff (host : List Char) (p q : Nat) :
    (":" ++ q.repr).toList <:+ withPort host (some p) ↔ p = q := by
  have hq : (":" ++ q.repr).toList = ':' :: Nat.toDigits 10 q := by
    rw [String.toList_append, Nat.toList_repr]
    rfl
  rw [hq]
  constructor
  · rintro ⟨front, heq⟩
    exact (split_port heq).2.symm
  · rintro rfl
    exact List.suffix_append _ _

theorem withPort_ne_nil {core : List Char} (h : HostText core) (dot : Bool) (port : Option Nat) :
    withPort (withDot core dot) port ≠ [] := by
  have hne := h.ne_nil
  cases port <;> cases dot <;> simp [withPort, withDot, hne]

theorem withPort_noBlank {core : List Char} (h : HostText core) (dot : Bool) (port : Option Nat) :
    ∀ c ∈ withPort (withDot core dot) port, Str.isWhitespace c = false := by
  have hhost : ∀ c ∈ withDot core dot, Str.isWhitespace c = false := by
    intro c hc
    cases dot with
    | false => exact h.noBlank c hc
    | true =>
      rcases List.mem_append.mp hc with hc | hc
      · exact h.noBlank c hc
      · rw [List.mem_singleton.mp hc]
        decide
  intro c hc
  cases port with
  | none => exact hhost c hc
  | some p =>
    rcases List.mem_append.mp hc with hc | hc
    · exact hhost c hc
    rcases List.mem_cons.mp hc with rfl | hc
    · decide
    · have hrange := isDigit_range (isDigit_of_mem hc)
      exact noBlank_of_range (by omega) (by omega)

theorem withPort_toLower (core : List Char) (dot : Bool) (port : Option Nat) :
    (withPort (withDot core dot) port).map Char.toLower = withPort
    (withDot (core.map Char.toLower) dot) port := by
  have hdot : (withDot core dot).map Char.toLower = withDot (core.map Char.toLower) dot := by
    cases dot with
    | false => rfl
    | true => simp [withDot]
  cases port with
  | none => exact hdot
  | some p =>
    have hdigits : (Nat.toDigits 10 p).map Char.toLower = Nat.toDigits 10 p := by
      have hmap := List.map_congr_left fun c hc => toLower_of_isDigit (@isDigit_of_mem p _ hc)
      rw [hmap, List.map_id']
    rw [withPort, withPort, List.map_append, List.map_cons, hdot, hdigits]
    rfl

/-- The port is stripped if it is a default one. -/
theorem strip_port {core : List Char} (h : HostText core) (dot : Bool) (port : Option Nat) :
    ((Str.stripSuffix (String.ofList (withPort (withDot core dot) port)) ":443").or
        (Str.stripSuffix (String.ofList (withPort (withDot core dot) port)) ":80")).getD
        (String.ofList (withPort (withDot core dot) port))
      = String.ofList (withPort (withDot core dot) (port.filter isOwn)) := by
  have h443 : ":443" = ":" ++ Nat.repr 443 := by decide
  have h80 : ":80" = ":" ++ Nat.repr 80 := by decide
  have hnone : ∀ p q, p ≠ q →
      Str.stripSuffix (String.ofList (withPort (withDot core dot) (some p))) (":" ++ Nat.repr q) =
      none := by
    intro p q hpq
    refine Str.stripSuffix_eq_none ?_
    rw [String.toList_ofList, suffix_port_iff]
    exact hpq
  cases port with
  | none =>
    have hno443 : Str.stripSuffix (String.ofList (withDot core dot)) ":443" = none := by
      refine Str.stripSuffix_eq_none ?_
      rw [String.toList_ofList (l := withDot core dot)]
      exact h.not_port dot ['4', '4'] (d := '3') (by decide) (by decide)
    have hno80 : Str.stripSuffix (String.ofList (withDot core dot)) ":80" = none := by
      refine Str.stripSuffix_eq_none ?_
      rw [String.toList_ofList (l := withDot core dot)]
      exact h.not_port dot ['8'] (d := '0') (by decide) (by decide)
    rw [withPort, hno443, hno80]
    rfl
  | some p =>
    rw [h443, h80]
    by_cases hp : p = 443
    · subst hp
      rw [ofList_withPort, Str.stripSuffix_append]
      rfl
    rw [hnone p 443 hp]
    by_cases hp' : p = 80
    · subst hp'
      rw [ofList_withPort, Str.stripSuffix_append]
      rfl
    · rw [hnone p 80 hp', Option.filter_some, if_pos (by simp [isOwn, hp, hp'])]
      rfl

/-- **What becomes of an authority**, in any white space: a default port goes, and then the root
dot, if it is the end. -/
theorem normalizeHost_spec {core : List Char} (h : HostText core) (dot : Bool) (port : Option Nat)
    (before after : Blanks) :
    normalizeHost (before.text ++ String.ofList (withPort (withDot core dot) port) ++ after.text)
      = String.ofList (canonical core dot port) := by
  have hlower : Str.toAsciiLowercase (String.ofList (withPort (withDot core dot) port))
      = String.ofList (withPort (withDot (core.map Char.toLower) dot) port) := by
    rw [← String.toList_inj, ByteIndex.toList_toAsciiLowercase, String.toList_ofList,
      String.toList_ofList, withPort_toLower]
  unfold normalizeHost canonical
  rw [trim_blanks (withPort_ne_nil h dot port) (withPort_noBlank h dot port), hlower]
  dsimp only
  rw [strip_port h.toLower]
  cases port.filter isOwn with
  | none => exact strip_dot h.toLower dot
  | some p =>
    -- a port that is kept ends with a digit
    obtain ⟨c, hlast, hdigit⟩ := getLast?_withPort (withDot (core.map Char.toLower) dot) p
    have hnot : ¬ ".".toList <:+
        (String.ofList (withPort (withDot (core.map Char.toLower) dot) (some p))).toList := by
      rw [String.toList_ofList (l := withPort (withDot (core.map Char.toLower) dot) (some p))]
      refine @not_suffix_of_last _ [] _ _ hlast ?_
      rintro rfl
      cases hdigit
    rw [Str.stripSuffix_eq_none hnot]
    rfl

theorem normalizeHost_spec' {core : List Char} (h : HostText core) (dot : Bool)
    (port : Option Nat) : normalizeHost (String.ofList (withPort (withDot core dot) port)) =
      String.ofList (canonical core dot port) := by
  have hspec := normalizeHost_spec h dot port ⟨"", by simp⟩ ⟨"", by simp⟩
  rwa [String.empty_append, String.append_empty] at hspec

theorem map_toLower_toLower (l : List Char) :
    (l.map Char.toLower).map Char.toLower = l.map Char.toLower := by
  rw [List.map_map]
  exact List.map_congr_left fun c _ => ByteIndex.toLower_toLower c

/-- What has become of an authority stays. -/
theorem normalizeHost_canonical {core : List Char} (h : HostText core) (dot : Bool)
    (port : Option Nat) :
    normalizeHost (String.ofList (canonical core dot port)) =
      String.ofList (canonical core dot port) := by
  cases hport : port.filter isOwn with
  | none =>
    have hcanon : canonical core dot port =
        withPort (withDot (core.map Char.toLower) false) none := by
      rw [canonical, hport]
      rfl
    rw [hcanon, normalizeHost_spec' h.toLower, canonical, Option.filter_none, map_toLower_toLower]
    rfl
  | some p =>
    have hcanon : canonical core dot port =
        withPort (withDot (core.map Char.toLower) dot) (some p) := by
      rw [canonical, hport]
    have hown : (some p).filter isOwn = some p := by
      exact Option.filter_eq_some_iff.mpr ⟨rfl, (Option.filter_eq_some_iff.mp hport).2⟩
    rw [hcanon, normalizeHost_spec' h.toLower, canonical, hown, map_toLower_toLower]

/-- Hosts with and without a dot are told apart. -/
theorem withDot_inj {a b : List Char} (ha : HostText a) (hb : HostText b) {dot dot' : Bool}
    (h : withDot a dot = withDot b dot') : a = b ∧ dot = dot' := by
  have hdot : ∀ {l m : List Char}, HostText l → l ≠ m ++ ['.'] := by
    rintro l m hl rfl
    exact hl.last List.getLast?_concat
  cases dot with
  | false =>
    cases dot' with
    | false => exact ⟨h, rfl⟩
    | true => exact (hdot ha h).elim
  | true =>
    cases dot' with
    | false => exact (hdot hb h.symm).elim
    | true => exact ⟨List.append_cancel_right h, rfl⟩

/-- What two authorities become is equal when their hosts and their ports are, but for a dot in
front of a port. -/
theorem canonical_eq_iff {a b : List Char} (ha : HostText a) (hb : HostText b) (dot dot' : Bool)
    (port port' : Option Nat) : canonical a dot port = canonical b dot' port'
      ↔ a.map Char.toLower = b.map Char.toLower ∧ port.filter isOwn = port'.filter isOwn
        ∧ (port.filter isOwn ≠ none → dot = dot') := by
  have hA := ha.toLower
  have hB := hb.toLower
  unfold canonical
  generalize a.map Char.toLower = A at hA
  generalize b.map Char.toLower = B at hB
  -- a host is none with a port
  have hport : ∀ {L host : List Char} {p : Nat}, HostText L → L ≠ withPort host (some p) := by
    rintro L host p hL rfl
    obtain ⟨c, hlast, hdigit⟩ := getLast?_withPort host p
    rcases hL.colon with hcolon | hbracket
    · exact hcolon (by simp [withPort])
    · rw [hlast] at hbracket
      rw [Option.some.inj hbracket] at hdigit
      cases hdigit
  cases port.filter isOwn with
  | none =>
    cases port'.filter isOwn with
    | none => simp
    | some q =>
      constructor
      · intro h
        exact (hport hA h).elim
      · rintro ⟨_, h, _⟩
        cases h
  | some p =>
    cases port'.filter isOwn with
    | none =>
      constructor
      · intro h
        exact (hport hB h.symm).elim
      · rintro ⟨_, h, _⟩
        cases h
    | some q =>
      constructor
      · intro h
        obtain ⟨hhost, hpq⟩ := split_port h
        obtain ⟨hcore, hdot⟩ := withDot_inj hA hB hhost
        exact ⟨hcore, by rw [hpq], fun _ => hdot⟩
      · rintro ⟨rfl, hpq, hdot⟩
        rw [Option.some.inj hpq, hdot (by simp)]

/-! ## The authorities -/

theorem isNameChar_range {c : Char} (h : isNameChar c = true) : 33 ≤ c.toNat ∧ c.toNat ≤ 126 ∧
    c ≠ ':' := by
  simp only [isNameChar, Char.isAlphanum, Bool.or_eq_true, beq_iff_eq] at h
  have hcolon : c ≠ ':' ↔ c.toNat ≠ 58 := by
    rw [ne_eq, ne_eq, ← Char.toNat_inj]
    rfl
  rw [hcolon]
  rcases h with (((h | h) | h) | h) | h
  · have := Str.isAlpha_range h
    omega
  · have := isDigit_range h
    omega
  · subst h
    decide
  · subst h
    decide
  · subst h
    decide

theorem Host.core_hostText (host : Host) : HostText host.core.toList := by
  cases host with
  | name dns dot =>
    refine ⟨dns.ne_nil, ?_, dns.last, .inl fun hc => (isNameChar_range (dns.alphabet _ hc)).2.2 rfl⟩
    intro c hc
    have hrange := isNameChar_range (dns.alphabet c hc)
    exact noBlank_of_range hrange.1 hrange.2.1
  | ipv4 addr =>
    have htext : (Host.ipv4 addr).core.toList
        = Nat.toDigits 10 addr.a.toNat ++
          '.' :: (Nat.toDigits 10 addr.b.toNat ++ '.' :: (Nat.toDigits 10 addr.c.toNat
          ++ '.' :: Nat.toDigits 10 addr.d.toNat)) := by
      simp [Host.core, Ipv4Addr.toString, Nat.toList_repr]
    have hchar : ∀ c ∈ (Host.ipv4 addr).core.toList, c.isDigit = true ∨ c = '.' := by
      intro c hc
      rw [htext] at hc
      simp only [List.mem_append, List.mem_cons] at hc
      rcases hc with h | h | h | h | h | h | h
      · exact .inl (isDigit_of_mem h)
      · exact .inr h
      · exact .inl (isDigit_of_mem h)
      · exact .inr h
      · exact .inl (isDigit_of_mem h)
      · exact .inr h
      · exact .inl (isDigit_of_mem h)
    refine ⟨by rw [htext]; simp, ?_, ?_, .inl ?_⟩
    · intro c hc
      rcases hchar c hc with hdigit | rfl
      · have hrange := isDigit_range hdigit
        exact noBlank_of_range (by omega) (by omega)
      · decide
    · have hne : Nat.toDigits 10 addr.d.toNat ≠ [] := Nat.toDigits_ne_nil
      rw [htext]
      simp only [List.getLast?_append, List.getLast?_cons, List.getLast?_eq_some_getLast hne,
        Option.some_or, Option.getD_some]
      intro hdot
      have hdigit := isDigit_of_mem (List.getLast_mem hne)
      rw [Option.some.inj hdot] at hdigit
      cases hdigit
    · intro hc
      rcases hchar _ hc with hdigit | hdot
      · cases hdigit
      · cases hdot
  | ipv6 addr =>
    have htext : (Host.ipv6 addr).core.toList = '[' :: addr.toString.toList ++ [']'] := by
      simp [Host.core]
    have hlast : (Host.ipv6 addr).core.toList.getLast? = some ']' := by
      rw [htext]
      exact List.getLast?_concat
    refine ⟨by rw [htext]; simp, ?_, by rw [hlast]; decide, .inr hlast⟩
    intro c hc
    rw [htext] at hc
    simp only [List.cons_append, List.mem_cons, List.mem_append, List.not_mem_nil, or_false] at hc
    rcases hc with rfl | hc | rfl
    · decide
    · rcases addr.alphabet c hc with hhex | rfl | rfl
      · have h1 := Str.le_toNat_of_isAsciiHexdigit hhex
        have h2 := Str.toNat_le_of_isAsciiHexdigit hhex
        exact noBlank_of_range (by omega) (by omega)
      · decide
      · decide
    · decide

theorem Host.text_eq (host : Host) :
    host.text = String.ofList (withDot host.core.toList host.rootDot) := by
  rw [← String.toList_inj, String.toList_ofList, Host.text]
  cases host.rootDot with
  | true => simp [withDot]
  | false => simp [withDot]

theorem Authority.text_eq (a : Authority) :
    a.text = String.ofList
      (withPort (withDot a.host.core.toList a.host.rootDot) (a.port.map UInt16.toNat)) := by
  rw [Authority.text, Host.text_eq]
  cases a.port with
  | none => rfl
  | some port =>
    rw [Option.map_some, ofList_withPort]
    exact String.append_assoc

/-- An authority in white space. -/
def Authority.spelled (a : Authority) (before after : Blanks) : String :=
  before.text ++ a.text ++ after.text

theorem normalizeHost_spelled (a : Authority) (before after : Blanks) :
    normalizeHost (a.spelled before after)
      = String.ofList (canonical a.host.core.toList a.host.rootDot (a.port.map UInt16.toNat)) := by
  rw [Authority.spelled, Authority.text_eq, normalizeHost_spec a.host.core_hostText]

/-- The hosts are equal up to ASCII case and the root dot. -/
def SameHost (a b : Authority) : Prop :=
  Str.toAsciiLowercase a.host.core = Str.toAsciiLowercase b.host.core

theorem sameHost_iff {a b : Authority} :
    SameHost a b ↔ a.host.core.toList.map Char.toLower = b.host.core.toList.map Char.toLower := by
  rw [SameHost, ← String.toList_inj, ByteIndex.toList_toAsciiLowercase,
    ByteIndex.toList_toAsciiLowercase]

/-- The host of a URL, which differs in case at most. -/
theorem Host.url_toString (host : Host) :
    ∃ core, host.url.toString = String.ofList (withDot core host.rootDot)
    ∧ HostText core ∧ core.map Char.toLower = host.core.toList.map Char.toLower := by
  cases host with
  | name dns dot =>
    refine ⟨dns.text.toList.map Char.toLower, ?_, (Host.core_hostText (.name dns dot)).toLower,
      map_toLower_toLower _⟩
    have hlower := withPort_toLower dns.text.toList dot none
    change Str.toAsciiLowercase (Host.name dns dot).text = _
    rw [← String.toList_inj, ByteIndex.toList_toAsciiLowercase, Host.text_eq, String.toList_ofList,
      String.toList_ofList]
    exact hlower
  | ipv4 addr => exact ⟨_, String.ofList_toList.symm, Host.core_hostText (.ipv4 addr), rfl⟩
  | ipv6 addr => exact ⟨_, String.ofList_toList.symm, Host.core_hostText (.ipv6 addr), rfl⟩

/-- The authority of a relay URL is what becomes of the authority it was written with. -/
theorem relayUrlAuthority_eq {parse : String → Option Url} {a : Authority} {scheme : Scheme}
    {relayUrl : String}
    (hparse : parse relayUrl = some (a.url scheme)) :
    relayUrlAuthority parse relayUrl = normalizeHost a.text := by
  obtain ⟨core, htext, hcore, hlower⟩ := a.host.url_toString
  -- a default port of the scheme that is left out is one that would be stripped
  have hown : ((a.port.map UInt16.toNat).filter fun p => p != scheme.defaultPort).filter isOwn
      = (a.port.map UInt16.toNat).filter isOwn := by
    rw [Option.filter_filter]
    congr 1
    funext p
    cases scheme <;> simp [Scheme.defaultPort, isOwn]
  have hauthority : relayUrlAuthority parse relayUrl = normalizeHost (String.ofList
      (withPort (withDot core a.host.rootDot) ((a.port.map UInt16.toNat).filter fun p =>
        p != scheme.defaultPort))) := by
    unfold relayUrlAuthority
    rw [hparse]
    dsimp only [Authority.url]
    rw [htext]
    cases (a.port.map UInt16.toNat).filter fun p => p != scheme.defaultPort with
    | none => rfl
    | some p =>
      rw [ofList_withPort]
      exact congrArg normalizeHost String.append_assoc
  rw [hauthority, normalizeHost_spec' hcore, Authority.text_eq,
    normalizeHost_spec' a.host.core_hostText, canonical, canonical, hown, hlower]

/-- What is asked of the normalization for two authorities: one result for one host and port and for
no others, which stays as it is, and the same result for a relay URL. -/
structure OneKey (parse : String → Option Url) (a b : Authority) : Prop where
  equal : ∀ before after before' after', normalizeHost (a.spelled before after) =
    normalizeHost (b.spelled before' after') ↔ SameHost a b ∧ a.ownPort = b.ownPort
  idempotent : ∀ before after, normalizeHost (normalizeHost (a.spelled before after)) =
    normalizeHost (a.spelled before after)
    ∧ normalizeHost (normalizeHost (b.spelled before after)) =
      normalizeHost (b.spelled before after)
  ofUrl : ∀ scheme relayUrl, (parse relayUrl = some (a.url scheme) →
    relayUrlAuthority parse relayUrl = normalizeHost a.text)
    ∧ (parse relayUrl = some (b.url scheme) →
      relayUrlAuthority parse relayUrl = normalizeHost b.text)

/-- **Normalization is a canonical form**, but for a root dot in front of a port that is kept: two
authorities of one host and one such port have to have the dot or not. -/
theorem normalizeHost_oneKey_iff (parse : String → Option Url) (a b : Authority) :
    OneKey parse a b
      ↔ (SameHost a b → a.ownPort = b.ownPort → a.ownPort ≠ none →
        a.host.rootDot = b.host.rootDot) := by
  have hequal : ∀ before after before' after',
      normalizeHost (a.spelled before after) = normalizeHost (b.spelled before' after')
        ↔ SameHost a b ∧ a.ownPort = b.ownPort ∧
          (a.ownPort ≠ none → a.host.rootDot = b.host.rootDot) := by
    intro before after before' after'
    rw [normalizeHost_spelled, normalizeHost_spelled, String.ofList_inj,
      canonical_eq_iff a.host.core_hostText b.host.core_hostText, sameHost_iff]
    rfl
  constructor
  · intro h hhost hport
    exact ((hequal ⟨"", by simp⟩ ⟨"", by simp⟩ ⟨"", by simp⟩ ⟨"", by simp⟩).mp
      ((h.equal _ _ _ _).mpr ⟨hhost, hport⟩)).2.2
  · intro h
    refine ⟨?_, ?_, fun scheme relayUrl => ⟨relayUrlAuthority_eq, relayUrlAuthority_eq⟩⟩
    · intro before after before' after'
      rw [hequal]
      constructor
      · intro hall
        exact ⟨hall.1, hall.2.1⟩
      · intro hboth
        exact ⟨hboth.1, hboth.2, h hboth.1 hboth.2⟩
    · intro before after
      rw [normalizeHost_spelled, normalizeHost_spelled]
      exact ⟨normalizeHost_canonical a.host.core_hostText _ _,
        normalizeHost_canonical b.host.core_hostText _ _⟩

/-- A host of one deployment, with a root dot or without. -/
def relayExample (rootDot : Bool) : Authority :=
  ⟨.name ⟨"relay.example", List.all_eq_true.mp (by decide), by decide, by decide⟩ rootDot,
    some 3000⟩

/-- With a port of its own, the dot makes two tenants of a host. -/
theorem rootDot_two_keys :
    (relayExample true).text = "relay.example.:3000" ∧
    (relayExample false).text = "relay.example:3000"
      ∧ SameHost (relayExample true) (relayExample false)
      ∧ (relayExample true).ownPort = (relayExample false).ownPort
      ∧ normalizeHost "relay.example.:3000" = "relay.example.:3000"
      ∧ normalizeHost "relay.example:3000" = "relay.example:3000" := by
  refine ⟨by decide, by decide, rfl, rfl, by decide, by decide⟩

end Pkzz.Core
