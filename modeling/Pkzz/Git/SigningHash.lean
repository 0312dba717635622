import Pkzz.Core.Ids

/-!
# What a signature on a git object signs

`git-sign-nostr`'s `compute_signing_hash` puts the owner's attestation between the timestamp and the
payload. The attestation is read off again where one is known to be there, but nothing says whether
one is there: an input without an attestation may have a payload that begins with one.
-/

namespace Pkzz.Git.Sign

open Pkzz.Core Pkzz.Lib Pkzz.Lib.Str

/-! ## The envelope's attestation -/

/-- The three elements of `oa`: the owner, the conditions and the owner's signature. -/
abbrev OwnerAttestation := String × String × String

def validateHexField (val : String) (expectedLen : Nat) (name : String) : Except String Unit :=
  if len val ≠ expectedLen then
    .error (name ++ " must be exactly " ++ expectedLen.repr ++ " characters, got " ++
      (len val).repr)
  else if val.toList.all FixedBytes.isLowerHexdigit = false then
    .error (name ++ " must be lowercase hex")
  else .ok ()

def parseDecimalU32 (s : String) : Option Nat :=
  if s = "" then none
  else if startsWith s "+" || startsWith s "-" then none
  else if len s > 1 && startsWith s "0" then none
  else if s.toList.all Char.isDigit = false then none
  else
    let n := Nat.ofDigitChars 10 s.toList 0
    if n < 2 ^ 32 then some n else none

/-- One clause of the conditions. -/
def validateClause (clause : String) : Bool :=
  match stripPrefix clause "kind=" with
  | some val => (parseDecimalU32 val).any fun n => n ≤ 65535
  | none =>
    match stripPrefix clause "created_at<" with
    | some val => (parseDecimalU32 val).isSome
    | none =>
      match stripPrefix clause "created_at>" with
      | some val => (parseDecimalU32 val).isSome
      | none => false

def validateConditions (conditions : String) : Bool :=
  conditions = "" || (split conditions '&').all fun clause => clause ≠ "" && validateClause clause

/-- What `parse_envelope` asks of an `oa` of three strings, under the signer `pk`. -/
def parseOa (isXOnlyKey : String → Bool) (pk : String) (oa : OwnerAttestation) :
    Except String Unit :=
  match validateHexField oa.1 64 "oa[0]" with
  | .error e => .error e
  | .ok () =>
    match validateHexField oa.2.2 128 "oa[2]" with
    | .error e => .error e
    | .ok () =>
      if validateConditions oa.2.1 = false then
        .error "oa[1] conditions contain invalid characters (allowed: alphanumeric, _=<>&)"
      else if isXOnlyKey oa.1 = false then .error "oa[0] is not a valid BIP-340 public key"
      else if oa.1 = pk then .error "oa[0] (owner) must not equal pk (self-attestation)"
      else .ok ()

/-! ## The signing hash -/

def DOMAIN_SEPARATOR : String := "nostr:git:v1:"

def colon : UInt8 := 58

/-- Each element, and a colon behind it. -/
def oaBinding (oa : OwnerAttestation) : List UInt8 :=
  asBytes oa.1 ++ colon :: (asBytes oa.2.1 ++ colon :: (asBytes oa.2.2 ++ [colon]))

/-- What is fed to SHA-256. -/
def signingBytes (timestamp : Nat) (oa : Option OwnerAttestation) (payload : List UInt8) :
    List UInt8 :=
  asBytes DOMAIN_SEPARATOR ++
    (decimal timestamp ++ colon :: ((oa.map oaBinding).getD [] ++ payload))

def computeSigningHash (sha256 : List UInt8 → FixedBytes 32) (timestamp : Nat)
    (oa : Option OwnerAttestation) (payload : List UInt8) : FixedBytes 32 :=
  sha256 (signingBytes timestamp oa payload)

/-! ## The fields of an attestation -/

variable {isXOnlyKey : String → Bool} {pk : String} {oa oa' : OwnerAttestation}

theorem validateHexField_ok {val name : String} {n : Nat}
    (h : validateHexField val n name = .ok ()) :
    len val = n ∧ ∀ c ∈ val.toList, FixedBytes.isLowerHexdigit c = true := by
  unfold validateHexField at h
  split at h
  · cases h
  rename_i hlen
  split at h
  · cases h
  · rename_i hhex
    exact ⟨by simpa using hlen, List.all_eq_true.mp (by simpa using hhex)⟩

theorem parseDecimalU32_digits {s : String} {n : Nat} (h : parseDecimalU32 s = some n) :
    ∀ c ∈ s.toList, c.isDigit = true := by
  unfold parseDecimalU32 at h
  split at h
  · cases h
  split at h
  · cases h
  split at h
  · cases h
  · split at h
    · cases h
    · rename_i hdigits
      exact List.all_eq_true.mp (by simpa using hdigits)

/-- The characters of conditions: none of them is a colon. -/
def IsConditionChar (c : Char) : Prop := c.toNat < 128 ∧ c ≠ ':'

instance (c : Char) : Decidable (IsConditionChar c) := inferInstanceAs (Decidable (_ ∧ _))

theorem isConditionChar_digit {c : Char} (h : c.isDigit = true) : IsConditionChar c := by
  obtain ⟨hlt, hdigit⟩ := isDigit_of_char h
  refine ⟨hlt, ?_⟩
  rintro rfl
  cases h

theorem toList_of_stripPrefix {s p val : String} (h : stripPrefix s p = some val) :
    s.toList = p.toList ++ val.toList := by
  unfold stripPrefix at h
  obtain ⟨l, hl, rfl⟩ := Option.map_eq_some_iff.mp h
  obtain ⟨p', hs, hp⟩ := List.dropPrefix?_eq_some_iff.mp hl
  rw [String.toList_ofList, hs, eq_of_beq hp]

/-- A clause is a word and digits. -/
theorem validateClause_forall {P : Char → Prop} (hdigit : ∀ c : Char, c.isDigit = true → P c)
    (hword : ∀ c ∈ "kind=created_at<>".toList, P c) {clause : String}
    (h : validateClause clause = true) : ∀ c ∈ clause.toList, P c := by
  have hparts : ∀ {p val : String}, stripPrefix clause p = some val →
      (parseDecimalU32 val).isSome = true →
      p.toList.all (fun c => decide (c ∈ "kind=created_at<>".toList)) = true →
        ∀ c ∈ clause.toList, P c := by
    intro p val hstrip hval hp c hc
    obtain ⟨n, hn⟩ := Option.isSome_iff_exists.mp hval
    rw [toList_of_stripPrefix hstrip] at hc
    rcases List.mem_append.mp hc with hc | hc
    · exact hword c (of_decide_eq_true (List.all_eq_true.mp hp c hc))
    · exact hdigit c (parseDecimalU32_digits hn c hc)
  unfold validateClause at h
  split at h
  · rename_i val hstrip
    obtain ⟨n, hn, _⟩ := (Option.any_eq_true _ _).mp h
    exact hparts hstrip (by rw [hn]; rfl) (by decide)
  split at h
  · rename_i val hstrip
    exact hparts hstrip h (by decide)
  · split at h
    · rename_i val hstrip
      exact hparts hstrip h (by decide)
    · cases h

/-- What is in a text with separators is in a part of it, or a separator. -/
theorem mem_intercalate {α : Type} {sep x : α} : ∀ {ls : List (List α)}, x ∈ [sep].intercalate ls →
    x = sep ∨ ∃ l ∈ ls, x ∈ l
  | [], h => absurd h List.not_mem_nil
  | [l], h => by
    rw [List.intercalate_singleton] at h
    exact .inr ⟨l, List.mem_singleton_self l, h⟩
  | l :: l' :: ls, h => by
    rw [List.intercalate_cons_cons, List.append_assoc] at h
    rcases List.mem_append.mp h with h | h
    · exact .inr ⟨l, List.mem_cons_self, h⟩
    rcases List.mem_append.mp h with h | h
    · exact .inl (List.mem_singleton.mp h)
    · rcases mem_intercalate h with h | ⟨m, hm, h⟩
      · exact .inl h
      · exact .inr ⟨m, List.mem_cons_of_mem _ hm, h⟩

/-- Conditions are clauses and separators. -/
theorem validateConditions_forall {P : Char → Prop} (hdigit : ∀ c : Char, c.isDigit = true → P c)
    (hword : ∀ c ∈ "kind=created_at<>".toList, P c) (hamp : P '&') {conditions : String}
    (h : validateConditions conditions = true) : ∀ c ∈ conditions.toList, P c := by
  rw [validateConditions, Bool.or_eq_true, decide_eq_true_eq] at h
  rcases h with rfl | h
  · exact nofun
  intro c hc
  have hjoin : List.intercalate ['&'] (conditions.toList.splitOn '&') = conditions.toList :=
    List.intercalate_splitOn '&'
  rw [← hjoin] at hc
  rcases mem_intercalate hc with rfl | ⟨l, hl, hcl⟩
  · exact hamp
  · have hclause := List.all_eq_true.mp h (String.ofList l) (List.mem_map_of_mem hl)
    rw [Bool.and_eq_true] at hclause
    exact validateClause_forall hdigit hword hclause.2 c (by rw [String.toList_ofList]; exact hcl)

theorem validateConditions_chars {conditions : String} (h : validateConditions conditions = true) :
    ∀ c ∈ conditions.toList, IsConditionChar c := by
  have hword : "kind=created_at<>".toList.all (fun c => decide (IsConditionChar c)) =
      true := by decide
  refine validateConditions_forall (fun c hc => isConditionChar_digit hc) ?_ (by decide) h
  exact fun c hc => of_decide_eq_true (List.all_eq_true.mp hword c hc)

/-- What was checked of an attestation, as far as the bytes are concerned. -/
structure WellFormed (oa : OwnerAttestation) : Prop where
  owner : len oa.1 = 64
  conditions : ∀ c ∈ oa.2.1.toList, IsConditionChar c
  signature : len oa.2.2 = 128

theorem wellFormed_of_parseOa (h : parseOa isXOnlyKey pk oa = .ok ()) : WellFormed oa := by
  unfold parseOa at h
  split at h
  · cases h
  rename_i howner
  split at h
  · cases h
  rename_i hsignature
  split at h
  · cases h
  · rename_i hconditions
    exact ⟨(validateHexField_ok howner).1, validateConditions_chars (by simpa using hconditions),
      (validateHexField_ok hsignature).1⟩

/-! ## Reading an attestation -/

/-- An octet that is not a colon. -/
def NotColon (b : UInt8) : Prop := b ≠ colon

theorem conditions_selfDelimiting :
    SelfDelimiting (fun s : String => ∀ c ∈ s.toList,
      IsConditionChar c) (StopsAt NotColon) asBytes := by
  refine SelfDelimiting.of_alphabet ?_ fun _ _ _ _ h => asBytes_inj h
  intro s hs
  refine forall_asBytes ?_
  intro c hc
  obtain ⟨hlt, hne⟩ := hs c hc
  refine ⟨hlt, ?_⟩
  intro hcolon
  have hval := congrArg UInt8.toNat hcolon
  rw [UInt8.toNat_ofNat_of_lt' (by simp [UInt8.size]; omega)] at hval
  exact hne (Char.toNat_inj.mp hval)

theorem field_selfDelimiting {n : Nat} :
    SelfDelimiting (fun s : String => len s = n) AnyRest asBytes :=
  SelfDelimiting.of_length (fun _ h => h) fun _ _ _ _ h => asBytes_inj h

/-- **An attestation that is there is read in one way.** -/
theorem oaBinding_peel {p p' : List UInt8} (h : WellFormed oa) (h' : WellFormed oa')
    (heq : oaBinding oa ++ p = oaBinding oa' ++ p') : oa = oa' ∧ p = p' := by
  have hcolon : ∀ r : List UInt8, StopsAt NotColon (colon :: r) := fun r =>
    stopsAt_cons fun hne => hne rfl
  unfold oaBinding at heq
  simp only [List.append_assoc, List.cons_append] at heq
  obtain ⟨howner, heq⟩ := field_selfDelimiting.peel h.owner h'.owner trivial trivial heq
  obtain ⟨hconditions, heq⟩ :=
    conditions_selfDelimiting.peel h.conditions h'.conditions (hcolon _) (hcolon _)
    (List.cons.inj heq).2
  obtain ⟨hsignature, heq⟩ :=
    field_selfDelimiting.peel h.signature h'.signature trivial trivial (List.cons.inj heq).2
  exact ⟨Prod.ext howner (Prod.ext hconditions hsignature), (List.cons.inj heq).2⟩

/-! ## One meaning -/

/-- What is signed. -/
structure SigningInput where
  timestamp : Nat
  oa : Option OwnerAttestation
  payload : List UInt8

namespace SigningInput

def bytes (x : SigningInput) : List UInt8 := signingBytes x.timestamp x.oa x.payload

/-- The attestation passes the checks on an envelope of some signer. -/
def Valid (isXOnlyKey : String → Bool) (x : SigningInput) : Prop :=
  ∀ oa, x.oa = some oa → ∃ pk, parseOa isXOnlyKey pk oa = .ok ()

/-- The payload of `y`, which has no attestation, is that of `x` behind the attestation of `x`. -/
def Recut (x y : SigningInput) : Prop :=
  ∃ oa, x.oa = some oa ∧ y = ⟨x.timestamp, none, oaBinding oa ++ x.payload⟩

variable {x y : SigningInput}

theorem valid_of_none (h : x.oa = none) : x.Valid isXOnlyKey := by
  intro oa hoa
  rw [h] at hoa
  cases hoa

theorem bytes_of_recut (h : Recut x y) : x.bytes = y.bytes := by
  obtain ⟨oa, hoa, rfl⟩ := h
  rw [bytes, bytes, hoa]
  rfl

theorem timestamp_eq (h : x.bytes = y.bytes) :
    x.timestamp = y.timestamp ∧ (x.oa.map oaBinding).getD [] ++ x.payload =
      (y.oa.map oaBinding).getD [] ++ y.payload := by
  have hcolon : ∀ r : List UInt8, StopsAt IsDigit (colon :: r) := fun r =>
    stopsAt_cons (by unfold IsDigit; decide)
  have heq := List.append_cancel_left h
  obtain ⟨ht, heq⟩ := decimal_selfDelimiting.peel trivial trivial (hcolon _) (hcolon _) heq
  exact ⟨ht, (List.cons.inj heq).2⟩

/-- Inputs with the same bytes are equal, or one is the other cut anew. -/
theorem eq_or_recut (hx : x.Valid isXOnlyKey) (hy : y.Valid isXOnlyKey) (h : x.bytes = y.bytes) :
    x = y ∨ Recut x y ∨ Recut y x := by
  obtain ⟨t, oa, p⟩ := x
  obtain ⟨t', oa', p'⟩ := y
  obtain ⟨ht, hrest⟩ := timestamp_eq h
  dsimp only at ht hrest
  subst ht
  cases oa with
  | none =>
    cases oa' with
    | none =>
      have hp : p = p' := hrest
      exact .inl (by rw [hp])
    | some oa' =>
      have hp : p = oaBinding oa' ++ p' := hrest
      exact .inr (.inr ⟨oa', rfl, by rw [hp]⟩)
  | some oa =>
    cases oa' with
    | none =>
      have hp : oaBinding oa ++ p = p' := hrest
      exact .inr (.inl ⟨oa, rfl, by rw [hp]⟩)
    | some oa' =>
      obtain ⟨pk, hoa⟩ := hx oa rfl
      obtain ⟨pk', hoa'⟩ := hy oa' rfl
      obtain ⟨heq, hp⟩ := oaBinding_peel (wellFormed_of_parseOa hoa)
          (wellFormed_of_parseOa hoa') hrest
      exact .inl (by rw [heq, hp])

theorem ne_of_recut (h : Recut x y) : x ≠ y := by
  rintro rfl
  obtain ⟨oa, hoa, heq⟩ := h
  rw [heq] at hoa
  cases hoa

/--
**One signature, one meaning, unless the payload is cut anew.** The bytes that are hashed determine
the input exactly when neither input is without an attestation and has a payload that is the other's
attestation and the other's payload.
-/
theorem one_meaning_iff (hx : x.Valid isXOnlyKey) (hy : y.Valid isXOnlyKey) :
    (x.bytes = y.bytes → x.timestamp = y.timestamp ∧ x.oa = y.oa ∧ x.payload = y.payload) ↔
    ¬ (Recut x y ∨ Recut y x) := by
  constructor
  · rintro hone hrecut
    have heq : x = y := by
      have hbytes : x.bytes = y.bytes := by
        rcases hrecut with h | h
        · exact bytes_of_recut h
        · exact (bytes_of_recut h).symm
      obtain ⟨ht, hoa, hp⟩ := hone hbytes
      cases x
      cases y
      dsimp only at ht hoa hp
      rw [ht, hoa, hp]
    rcases hrecut with h | h
    · exact ne_of_recut h heq
    · exact ne_of_recut h heq.symm
  · intro hnot hbytes
    rcases eq_or_recut hx hy hbytes with rfl | h
    · exact ⟨rfl, rfl, rfl⟩
    · exact absurd h hnot

/-- **Alone, an attestation never has one meaning.** An input is the only one with its bytes exactly
when it has no attestation and its payload does not begin with one. -/
theorem only_meaning_iff (hx : x.Valid isXOnlyKey) :
    (∀ y : SigningInput, y.Valid isXOnlyKey → x.bytes = y.bytes → x = y) ↔
      x.oa = none ∧ ¬ ∃ oa rest, (∃ pk, parseOa isXOnlyKey pk oa = .ok ()) ∧
        x.payload = oaBinding oa ++ rest := by
  constructor
  · intro hone
    constructor
    · cases hoa : x.oa with
      | none => rfl
      | some oa =>
        have hrecut : Recut x ⟨x.timestamp, none, oaBinding oa ++ x.payload⟩ := ⟨oa, hoa, rfl⟩
        exact absurd (hone _ (valid_of_none rfl) (bytes_of_recut hrecut)) (ne_of_recut hrecut)
    · rintro ⟨oa, rest, hoa, hpayload⟩
      have hrecut : Recut ⟨x.timestamp, some oa, rest⟩ x := by
        refine ⟨oa, rfl, ?_⟩
        have hnone : x.oa = none := by
          cases hx' : x.oa with
          | none => rfl
          | some oa' =>
            have hrecut' : Recut x ⟨x.timestamp, none, oaBinding oa' ++ x.payload⟩ :=
              ⟨oa', hx', rfl⟩
            exact absurd (hone _ (valid_of_none rfl) (bytes_of_recut hrecut')) (ne_of_recut hrecut')
        cases x
        dsimp only at hnone hpayload
        rw [hnone, hpayload]
      have hvalid : Valid isXOnlyKey ⟨x.timestamp, some oa, rest⟩ := by
        intro oa' h
        cases h
        exact hoa
      exact ne_of_recut hrecut (hone _ hvalid (bytes_of_recut hrecut).symm).symm
  · rintro ⟨hnone, hbegins⟩ y hy hbytes
    rcases eq_or_recut hx hy hbytes with heq | ⟨oa, hoa, _⟩ | ⟨oa, hoa, heq⟩
    · exact heq
    · rw [hnone] at hoa
      cases hoa
    · exact absurd ⟨oa, y.payload, hy oa hoa, by rw [heq]⟩ hbegins

/-! The attestation is stripped. -/

def theOwner : PublicKey :=
  FixedBytes.ofNat 32 0xf9308a019258c31049344f85f89d5229b531c845836f99b08601f113bce036f9

def theAttestation : OwnerAttestation := (theOwner.toHex, "", (FixedBytes.ofNat 64 7).toHex)

def theCommit : List UInt8 := asBytes "tree 4b825dc642cb6eb9a060e54bf8d69288fbee4904"

def theSigned : SigningInput := ⟨1700000000, some theAttestation, theCommit⟩

def theStripped : SigningInput := ⟨1700000000, none, oaBinding theAttestation ++ theCommit⟩

def theKeys (key : String) : Bool := key = theOwner.toHex

theorem validateHexField_toHex {n : Nat} (b : FixedBytes n) (name : String) :
    validateHexField b.toHex (2 * n) name = .ok () := by
  unfold validateHexField
  rw [if_neg (by rw [FixedBytes.len_toHex]; exact fun h => h rfl), if_neg]
  rw [List.all_eq_true.mpr (FixedBytes.toHex_isLowerHexdigit b)]
  decide

theorem parseOa_toHex {owner : FixedBytes 32} {signature : FixedBytes 64}
    (hkey : isXOnlyKey owner.toHex = true) :
    parseOa isXOnlyKey "" (owner.toHex, "", signature.toHex) = .ok () := by
  unfold parseOa
  dsimp only
  rw [validateHexField_toHex owner, validateHexField_toHex signature]
  dsimp only
  rw [if_neg (by decide), hkey, if_neg nofun, if_neg]
  intro h
  have hlen := congrArg (fun s : String => s.toList.length) h
  rw [FixedBytes.length_toHex] at hlen
  cases hlen

theorem valid_theSigned : theSigned.Valid theKeys := by
  intro oa h
  cases h
  exact ⟨"", parseOa_toHex (decide_eq_true rfl)⟩

/-- The same commit, signed without an attestation. -/
def theUnattested : SigningInput := ⟨1700000000, none, theCommit⟩

theorem payload_ne (oa : OwnerAttestation) (payload : List UInt8) :
    payload ≠ oaBinding oa ++ payload := by
  intro h
  have hlen := congrArg List.length h
  rw [List.length_append, oaBinding, List.length_append, List.length_cons] at hlen
  omega

theorem not_recut_theUnattested :
    ¬ (Recut theSigned theUnattested ∨ Recut theUnattested theSigned) := by
  rintro (⟨oa, _, heq⟩ | ⟨oa, hoa, _⟩)
  · exact payload_ne oa theCommit (congrArg SigningInput.payload heq)
  · cases hoa

/-- With and without an attestation, the bytes are different. -/
theorem one_meaning_iff_theSigned : theSigned ≠ theUnattested ∧
    theSigned.bytes ≠ theUnattested.bytes := by
  have hone := (one_meaning_iff valid_theSigned (valid_of_none (x := theUnattested) rfl)).mpr
      not_recut_theUnattested
  have hoa : theSigned.oa ≠ theUnattested.oa := Option.some_ne_none _
  exact ⟨fun heq => hoa (congrArg SigningInput.oa heq), fun hbytes => hoa (hone hbytes).2.1⟩

/-- An attestation moved into the payload leaves the bytes as they are. -/
theorem stripped : theSigned.Valid theKeys ∧ theStripped.Valid theKeys ∧
    theSigned.bytes = theStripped.bytes ∧
    theSigned.oa ≠ theStripped.oa ∧ theSigned.payload ≠ theStripped.payload :=
  ⟨valid_theSigned, valid_of_none rfl, bytes_of_recut ⟨theAttestation, rfl, rfl⟩,
    Option.some_ne_none _, payload_ne theAttestation theCommit⟩

end SigningInput

end Pkzz.Git.Sign
