import Pkzz.Git.HookSignature
import Pkzz.Git.SigningHash
import Pkzz.Lib.Base64
import Pkzz.Lib.JsonStrings

/-!
# The file of a signature on a git object

What `do_sign` of `git-sign-nostr` writes and what `do_verify` asks of a file before it looks at the
signature. The writer puts its strings into the JSON as they are, and the reader writes what it has
read once more and compares. So a file is accepted in one spelling. The other way round, none of the
strings that the writer is given has a character that would have to be escaped, and the limit on an
attestation keeps the file within the limits of the reader.

How `serde_json` reads a number is a parameter.
-/

namespace Pkzz.Git.Sign

open Pkzz.Core Pkzz.Lib Pkzz.Lib.Str

def ARMOR_BEGIN : String := "-----BEGIN SIGNED MESSAGE-----"
def ARMOR_END : String := "-----END SIGNED MESSAGE-----"
def MAX_SIG_FILE : Nat := 8 * 1024
def MAX_JSON_DECODED : Nat := 2048
def MAX_BASE64_LINE : Nat := 4096
def MAX_AUTH_TAG : Nat := 1024

/-! ## Writing -/

/-- The canonical envelope, in compact form and in a fixed order. -/
def buildEnvelope (pk sig : String) (t : Nat) : Option OwnerAttestation → String
  | some (owner, conditions, ownerSig) =>
    "\x7b\"v\":1,\"pk\":\"" ++ pk ++ "\",\"sig\":\"" ++ sig ++ "\",\"t\":" ++ t.repr ++
      ",\"oa\":[\"" ++ owner ++ "\",\"" ++ conditions ++ "\",\"" ++ ownerSig ++ "\"]\x7d"
  | none => "\x7b\"v\":1,\"pk\":\"" ++ pk ++ "\",\"sig\":\"" ++ sig ++ "\",\"t\":" ++
      t.repr ++ "\x7d"

def armor (jsonBytes : List UInt8) : String :=
  ARMOR_BEGIN ++ "\n" ++ String.ofList (Base64.encode jsonBytes) ++ "\n" ++ ARMOR_END ++ "\n"

/-! ## Signing -/

/-- `as_str`. -/
def asStr : Json → Option String
  | .str s => some s
  | _ => none

def isLowerHex (n : Nat) (s : String) : Bool :=
  len s == n && s.toList.all FixedBytes.isLowerHexdigit

/-- The elements of the auth tag. -/
def readAuthTag (label owner conditions sig : Json) : Except String OwnerAttestation :=
  if asStr label ≠ some "auth" then .error "BUZZ_AUTH_TAG[0] must be \"auth\""
  else
    match asStr owner with
    | none => .error "BUZZ_AUTH_TAG[1] must be a string"
    | some owner =>
      match asStr conditions with
      | none => .error "BUZZ_AUTH_TAG[2] must be a string"
      | some conditions =>
        match asStr sig with
        | none => .error "BUZZ_AUTH_TAG[3] must be a string"
        | some sig =>
          if validateConditions conditions = false then
            .error "BUZZ_AUTH_TAG conditions contain invalid characters"
          else if isLowerHex 64 owner = false then
            .error "BUZZ_AUTH_TAG owner must be 64 lowercase hex chars"
          else if isLowerHex 128 sig = false then
            .error "BUZZ_AUTH_TAG signature must be 128 lowercase hex chars"
          else .ok (owner, conditions, sig)

section

variable (num : List Char → Option JsonNumber)

/-- The tag from the environment or from the git config, if one is set. -/
def loadAuthTag : Option String → Except String (Option OwnerAttestation)
  | none => .ok none
  | some jsonStr =>
    if MAX_AUTH_TAG < len jsonStr then .error "auth tag exceeds 1024-byte size limit"
    else
      match Json.parse num 128 jsonStr.toList with
      | none => .error "BUZZ_AUTH_TAG is not valid JSON"
      | some (.arr [label, owner, conditions, sig]) =>
          (readAuthTag label owner conditions sig).map some
      | some (.arr _) => .error "BUZZ_AUTH_TAG must have exactly 4 elements"
      | some _ => .error "BUZZ_AUTH_TAG must be a JSON array"

/-- One clause of the conditions, at the time of the signature. -/
def enforceClause (t : Nat) (clause : String) : Except String Unit :=
  match stripPrefix clause "created_at<" with
  | some val =>
    match parseDecimalU32 val with
    | some limit =>
      if limit ≤ t then .error ("timestamp " ++ t.repr ++
        " violates auth tag constraint created_at<" ++ limit.repr)
      else .ok ()
    | none => .ok ()
  | none =>
    match stripPrefix clause "created_at>" with
    | some val =>
      match parseDecimalU32 val with
      | some limit =>
        if t ≤ limit then .error ("timestamp " ++ t.repr ++
          " violates auth tag constraint created_at>" ++ limit.repr)
        else .ok ()
      | none => .ok ()
    | none => .ok ()

def enforceConditions (conditions : String) (t : Nat) : Except String Unit :=
  if conditions = "" then .ok () else (split conditions '&').forM (enforceClause t)

/-- What `do_sign` asks of the attestation that it was given. -/
def checkAttestation (isXOnlyKey : String → Bool) (verifyOa : String → OwnerAttestation → Bool)
    (pk : String) (t : Nat) : Option OwnerAttestation → Except String Unit
  | none => .ok ()
  | some oa =>
    if isXOnlyKey oa.1 = false then
      .error "auth tag owner (oa[0]) is not a valid BIP-340 public key"
    else if oa.1 = pk then
      .error "auth tag owner (oa[0]) must not equal signing key (self-attestation)"
    else if verifyOa pk oa = false then
      .error "auth tag owner signature (oa[2]) verification failed — the configured BUZZ_AUTH_TAG is invalid or stale"
    else (enforceConditions oa.2.1 t).mapError ("auth tag conditions not satisfied: " ++ ·)

/-- `do_sign`, from the derived key on: `sign` is the signature, in hex, under an attestation that
is bound into it. -/
def doSign (isXOnlyKey : String → Bool) (verifyOa : String → OwnerAttestation → Bool) (pk : String)
    (sign : Nat → Option OwnerAttestation → String) (t : Nat) (authTag : Option String) :
    Except String String :=
  if 2 ^ 32 - 1 < t then
    .error ("timestamp " ++ t.repr ++ " exceeds NIP-GS u32 range (max 4294967295)")
  else
    match loadAuthTag num authTag with
    | .error e => .error e
    | .ok oa =>
      match checkAttestation isXOnlyKey verifyOa pk t oa with
      | .error e => .error e
      | .ok () => .ok (armor (asBytes (buildEnvelope pk (sign t oa) t oa)))

end

/-! ## Reading -/

structure Envelope where
  pk : String
  sig : String
  t : Nat
  oa : Option OwnerAttestation

/-- Why a file is turned away. -/
inductive VerifyError
  | fileSize
  | armor (msg : String)
  | base64Line
  | base64
  | decodedSize
  | utf8
  | whitespace
  | json
  | unknownKey (key : String)
  | envelope (msg : String)
  | notCanonical

/-- The characters that a line must not end with. -/
def endsWithBlank (line : String) : Bool :=
  endsWith line " " || endsWith line "\t" || endsWith line "\r"

def parseArmor (content : String) : Except String String :=
  match stripSuffix content "\n" with
  | none => .error "armor must end with a newline"
  | some content =>
    match split content '\n' with
    | [first, second, third] =>
      if first ≠ ARMOR_BEGIN then .error "missing or malformed BEGIN marker"
      else if third ≠ ARMOR_END then .error "missing or malformed END marker"
      else
        match [first, second, third].findIdx? endsWithBlank with
        | some i => .error ("trailing whitespace on line " ++ (i + 1).repr)
        | none => .ok second
    | lines => .error ("armor must have exactly 3 lines (BEGIN, base64, END), got " ++
        lines.length.repr)

/-- `has_non_string_whitespace`, from a state of its machine on. -/
def hasNonStringWhitespace (inString escape : Bool) : List Char → Bool
  | [] => false
  | c :: cs =>
    if escape then hasNonStringWhitespace inString false cs
    else if inString then
      if c = '\\' then hasNonStringWhitespace inString true cs
      else if c = '"' then hasNonStringWhitespace false escape cs
      else hasNonStringWhitespace inString escape cs
    else if c = '"' then hasNonStringWhitespace true escape cs
    else if ByteIndex.isAsciiWhitespace c.toNat then true
    else hasNonStringWhitespace inString escape cs

/-- `as_u64`. -/
def asU64 (n : JsonNumber) : Option Nat :=
  if n.text.toList.all Char.isDigit ∧ Nat.ofDigitChars 10 n.text.toList 0 < 2 ^ 64 then
    some (Nat.ofDigitChars 10 n.text.toList 0)
  else none

/-- A negative number that `serde_json` keeps as an integer. -/
def isNegInt (n : JsonNumber) : Bool :=
  match n.text.toList with
  | '-' :: digits =>
    digits.all Char.isDigit && decide (0 < Nat.ofDigitChars 10 digits 0) &&
      decide (Nat.ofDigitChars 10 digits 0 ≤ 2 ^ 63)
  | _ => false

def isF64 (n : JsonNumber) : Bool := (asU64 n).isNone && !isNegInt n

def ALLOWED_KEYS : List String := ["v", "pk", "sig", "t", "oa"]

/-- The first key that is not allowed, in the order of a map. -/
def unknownKey (fields : List (String × Json)) : Option String :=
  match (fields.map Prod.fst).filter fun key => !ALLOWED_KEYS.contains key with
  | [] => none
  | key :: keys => some (keys.foldl (fun least key => if key < least then key else least) key)

/-- A field that has to be there. -/
def required (get : String → Option Json) (key : String) : Except VerifyError Json :=
  match get key with
  | some v => .ok v
  | none => .error (.envelope ("missing required field: " ++ key))

def requiredStr (name : String) (v : Json) : Except VerifyError String :=
  match asStr v with
  | some s => .ok s
  | none => .error (.envelope (name ++ " must be a string"))

def parseVersion : Json → Except VerifyError Unit
  | .num n =>
    match asU64 n with
    | some v => if v ≠ 1 then .error (.envelope ("unsupported version: " ++ v.repr)) else .ok ()
    | none => .error (.envelope "v must be an integer")
  | _ => .error (.envelope "v must be an integer")

def parseTimestamp : Json → Except VerifyError Nat
  | .num n =>
    if isF64 n then .error (.envelope "t must be an integer, not a float")
    else
      match asU64 n with
      | some t => if 4294967295 < t then
          .error (.envelope ("t out of range: " ++ t.repr)) else .ok t
      | none => .error (.envelope "t must be a non-negative integer")
  | _ => .error (.envelope "t must be a non-negative integer")

def parseAttestation (isXOnlyKey : String → Bool) (pk : String) : Json →
    Except VerifyError OwnerAttestation
  | .arr [owner, conditions, ownerSig] => do
      let owner ← requiredStr "oa[0]" owner
      let conditions ← requiredStr "oa[1]" conditions
      let ownerSig ← requiredStr "oa[2]" ownerSig
      (parseOa isXOnlyKey pk (owner, conditions, ownerSig)).mapError .envelope
      .ok (owner, conditions, ownerSig)
  | .arr items => .error (.envelope ("oa must have exactly 3 elements, got " ++ items.length.repr))
  | _ => .error (.envelope "oa must be an array")

/-- The fields of an envelope whose keys are all allowed. -/
def readEnvelope (isXOnlyKey : String → Bool) (get : String → Option Json) :
    Except VerifyError Envelope := do
  parseVersion (← required get "v")
  let pk ← requiredStr "pk" (← required get "pk")
  (validateHexField pk 64 "pk").mapError .envelope
  let sig ← requiredStr "sig" (← required get "sig")
  (validateHexField sig 128 "sig").mapError .envelope
  let t ← parseTimestamp (← required get "t")
  match get "oa" with
  | none => .ok ⟨pk, sig, t, none⟩
  | some v =>
    let oa ← parseAttestation isXOnlyKey pk v
    .ok ⟨pk, sig, t, some oa⟩

section

variable (num : List Char → Option JsonNumber) (isXOnlyKey : String → Bool)

/-- Of a key that is there twice the last value counts. -/
def parseEnvelope (jsonStr : String) : Except VerifyError Envelope :=
  match Json.parse num 128 jsonStr.toList with
  | none => .error .json
  | some (.obj fields) =>
    match unknownKey fields with
    | some key => .error (.unknownKey key)
    | none => readEnvelope isXOnlyKey fun key => fields.reverse.lookup key
  | some _ => .error (.envelope "JSON must be an object")

/-- `do_verify`, up to the check that the JSON is canonical. -/
def checkFile (content : String) : Except VerifyError Envelope :=
  if MAX_SIG_FILE < len content then .error .fileSize
  else
    match parseArmor content with
    | .error msg => .error (.armor msg)
    | .ok b64 =>
      if MAX_BASE64_LINE < len b64 then .error .base64Line
      else
        match Base64.decode b64.toList with
        | none => .error .base64
        | some decoded =>
          if MAX_JSON_DECODED < decoded.length then .error .decodedSize
          else
            match fromUtf8 decoded with
            | none => .error .utf8
            | some jsonStr =>
              if hasNonStringWhitespace false false jsonStr.toList then .error .whitespace
              else
                match parseEnvelope num isXOnlyKey jsonStr with
                | .error e => .error e
                | .ok envelope =>
                  if buildEnvelope envelope.pk envelope.sig envelope.t envelope.oa ≠ jsonStr then
                    .error .notCanonical
                  else .ok envelope

end

/-! ## One spelling -/

theorem append_of_split {s first second third : String} {c : Char}
    (h : split s c = [first, second, third]) :
    s.toList = first.toList ++ c :: (second.toList ++ c :: third.toList) := by
  unfold split at h
  have hjoin : [c].intercalate (s.toList.splitOn c) = s.toList := List.intercalate_splitOn c
  match hparts : s.toList.splitOn c, h with
  | [l, m, r], h =>
    simp only [List.map_cons, List.map_nil, List.cons.injEq, and_true] at h
    obtain ⟨rfl, rfl, rfl⟩ := h
    rw [hparts] at hjoin
    rw [← hjoin, String.toList_ofList (l := l), String.toList_ofList (l := m),
      String.toList_ofList (l := r)]
    simp [List.intercalate]

theorem armor_of_parseArmor {content b64 : String} (h : parseArmor content = .ok b64) :
    content = ARMOR_BEGIN ++ "\n" ++ b64 ++ "\n" ++ ARMOR_END ++ "\n" := by
  unfold parseArmor at h
  split at h
  · cases h
  rename_i body hbody
  split at h
  · rename_i first second third hlines
    split at h
    · cases h
    rename_i hbegin
    split at h
    · cases h
    rename_i hend
    split at h
    · cases h
    cases h
    have hparts := append_of_split hlines
    rw [Decidable.not_not.mp hbegin, Decidable.not_not.mp hend] at hparts
    refine String.toList_inj.mp ?_
    rw [append_of_stripSuffix hbody, String.toList_append, hparts]
    simp only [String.toList_append]
    simp
  · cases h

section

variable {num : List Char → Option JsonNumber} {isXOnlyKey : String → Bool} {content : String}
    {e : Envelope}

/-- **A file that is accepted is the one that is written for what was read.** -/
theorem eq_armor_of_checkFile (h : checkFile num isXOnlyKey content = .ok e) :
    content = armor (asBytes (buildEnvelope e.pk e.sig e.t e.oa)) := by
  unfold checkFile at h
  split at h
  · cases h
  split at h
  · cases h
  rename_i b64 harmor
  split at h
  · cases h
  split at h
  · cases h
  rename_i decoded hdecode
  split at h
  · cases h
  split at h
  · cases h
  rename_i jsonStr hutf8
  split at h
  · cases h
  split at h
  · cases h
  split at h
  · cases h
  · rename_i hcanonical
    cases h
    rw [Decidable.not_not.mp hcanonical, asBytes_of_fromUtf8 hutf8, armor,
      Base64.encode_of_decode _ _ hdecode, String.ofList_toList]
    exact armor_of_parseArmor harmor

end

/-! ## No white space -/

theorem whitespace_plain {l : List Char} (r : List Char)
    (h : ∀ c ∈ l, c ≠ '"' ∧ ByteIndex.isAsciiWhitespace c.toNat = false) :
    hasNonStringWhitespace false false (l ++ r) = hasNonStringWhitespace false false r := by
  induction l with
  | nil => rfl
  | cons c l ih =>
    obtain ⟨hquote, hblank⟩ := h c List.mem_cons_self
    rw [List.cons_append, hasNonStringWhitespace, if_neg (by decide), if_neg (by decide),
      if_neg hquote, if_neg (by rw [hblank]; decide)]
    exact ih fun d hd => h d (List.mem_cons_of_mem c hd)

theorem whitespace_inString {l : List Char} (r : List Char) (h : ∀ c ∈ l, c ≠ '"' ∧ c ≠ '\\') :
    hasNonStringWhitespace true false (l ++ r) = hasNonStringWhitespace true false r := by
  induction l with
  | nil => rfl
  | cons c l ih =>
    obtain ⟨hquote, hbackslash⟩ := h c List.mem_cons_self
    rw [List.cons_append, hasNonStringWhitespace, if_neg (by decide), if_pos rfl, if_neg hbackslash,
      if_neg hquote]
    exact ih fun d hd => h d (List.mem_cons_of_mem c hd)

theorem whitespace_escapeChar (c : Char) (r : List Char) :
    hasNonStringWhitespace true false (escapeChar c ++ r) =
      hasNonStringWhitespace true false r := by
  rcases escapeChar_cases c with ⟨x, _, hc⟩ | ⟨_, hc⟩ | ⟨_, _, hc⟩
  · rw [hc]
    exact rfl
  · rw [hc]
    show hasNonStringWhitespace true false (['0', '0', _, _] ++ r) = _
    refine whitespace_inString r ?_
    have hdigit : ∀ n, n < 16 → Nat.digitChar n ≠ '"' ∧ Nat.digitChar n ≠ '\\' := by decide
    intro d hd
    simp only [List.mem_cons, List.not_mem_nil, or_false] at hd
    rcases hd with rfl | rfl | rfl | rfl
    · decide
    · decide
    · exact hdigit _ (by omega)
    · exact hdigit _ (Nat.mod_lt _ (by decide))
  · rw [hc]
    refine whitespace_inString r ?_
    intro d hd
    rw [List.mem_singleton.mp hd]
    exact ⟨‹_›, ‹_›⟩

theorem whitespace_quote (s : String) (r : List Char) :
    hasNonStringWhitespace false false (quote s ++ r) = hasNonStringWhitespace false false r := by
  have hbody : ∀ l : List Char, hasNonStringWhitespace true false (l.flatMap escapeChar ++ '"' :: r)
      = hasNonStringWhitespace false false r := by
    intro l
    induction l with
    | nil => rfl
    | cons c l ih => rw [List.flatMap_cons, List.append_assoc, whitespace_escapeChar, ih]
  rw [quote, List.cons_append, List.append_assoc]
  exact hbody s.toList

theorem isNumberChar_plain {c : Char} (h : isNumberChar c = true) :
    c ≠ '"' ∧ ByteIndex.isAsciiWhitespace c.toNat = false := by
  simp only [isNumberChar, Bool.or_eq_true, beq_iff_eq] at h
  rcases h with ((((h | rfl) | rfl) | rfl) | rfl) | rfl
  · have hlo : 48 ≤ c.toNat := by
      simp only [Char.isDigit, Bool.and_eq_true, decide_eq_true_eq] at h
      exact UInt32.le_iff_toNat_le.mp h.1
    refine ⟨?_, ?_⟩
    · rintro rfl
      cases h
    · simp only [ByteIndex.isAsciiWhitespace, Bool.or_eq_false_iff, beq_eq_false_iff_ne]
      omega
  all_goals decide

theorem whitespace_comma (first : Bool) (r : List Char) :
    hasNonStringWhitespace false false (comma first ++ r) =
      hasNonStringWhitespace false false r := by
  cases first <;> rfl

mutual

/-- The serializer writes white space nowhere but in strings. -/
theorem whitespace_text : ∀ (v : Json) (r : List Char),
    hasNonStringWhitespace false false (Json.text v ++ r) = hasNonStringWhitespace false false r
  | .null, _ => rfl
  | .bool true, _ => rfl
  | .bool false, _ => rfl
  | .num n, r => by
    rw [Json.text]
    exact whitespace_plain r fun c hc => isNumberChar_plain (n.alphabet c hc)
  | .str s, r => by
    rw [Json.text]
    exact whitespace_quote s r
  | .arr items, r => by
    rw [Json.text, List.cons_append, List.append_assoc]
    exact whitespace_itemsText true items _
  | .obj fields, r => by
    rw [Json.text, List.cons_append, List.append_assoc]
    exact whitespace_fieldsText true fields _

theorem whitespace_itemsText : ∀ (first : Bool) (items : List Json) (r : List Char),
    hasNonStringWhitespace false false (Json.itemsText first items ++ r) =
      hasNonStringWhitespace false false r
  | _, [], _ => by rw [Json.itemsText, List.nil_append]
  | first, v :: vs, r => by
    rw [Json.itemsText, List.append_assoc, List.append_assoc, whitespace_comma, whitespace_text v,
      whitespace_itemsText false vs]

theorem whitespace_fieldsText : ∀ (first : Bool) (fields : List (String × Json)) (r : List Char),
    hasNonStringWhitespace false false (Json.fieldsText first fields ++ r) =
      hasNonStringWhitespace false false r
  | _, [], _ => by rw [Json.fieldsText, List.nil_append]
  | first, (k, v) :: fs, r => by
    rw [Json.fieldsText, List.append_assoc, whitespace_comma, List.append_assoc, whitespace_quote,
      List.cons_append, List.append_assoc]
    show hasNonStringWhitespace false false (Json.text v ++ (Json.fieldsText false fs ++ r)) = _
    rw [whitespace_text v, whitespace_fieldsText false fs]

end

/-! ## The envelope as a value -/

/-- The value that an envelope is the text of. -/
def Envelope.toJson (e : Envelope) : Json :=
  .obj ([("v", .num (.ofNat 1)), ("pk", .str e.pk), ("sig", .str e.sig), ("t", .num (.ofNat e.t))]
    ++ match e.oa with
      | some (owner, conditions, ownerSig) =>
          [("oa", .arr [.str owner, .str conditions, .str ownerSig])]
      | none => [])

/-- What was checked of the parts of an envelope. -/
structure Envelope.WellFormed (isXOnlyKey : String → Bool) (e : Envelope) : Prop where
  pk : validateHexField e.pk 64 "pk" = .ok ()
  sig : validateHexField e.sig 128 "sig" = .ok ()
  t : e.t ≤ 2 ^ 32 - 1
  oa : ∀ oa, e.oa = some oa → parseOa isXOnlyKey e.pk oa = .ok () ∧ len oa.2.1 ≤ MAX_AUTH_TAG

theorem isAsciiHexdigit_of_lower {c : Char} (h : FixedBytes.isLowerHexdigit c = true) :
    isAsciiHexdigit c = true := by
  rw [FixedBytes.isLowerHexdigit] at h
  rw [isAsciiHexdigit, h, Bool.true_or]

theorem isPlain_of_validateHexField {s name : String} {n : Nat}
    (h : validateHexField s n name = .ok ()) : ∀ c ∈ s.toList, IsPlain c :=
  fun c hc => isPlain_of_hexdigit (isAsciiHexdigit_of_lower ((validateHexField_ok h).2 c hc))

theorem isPlain_of_validateConditions {conditions : String}
    (h : validateConditions conditions = true) : ∀ c ∈ conditions.toList, IsPlain c := by
  refine validateConditions_forall ?_ ?_ (by unfold IsPlain; decide) h
  · intro c hc
    exact isPlain_of_hexdigit (by rw [isAsciiHexdigit, hc, Bool.true_or, Bool.true_or])
  · have hword : "kind=created_at<>".toList.all (fun c =>
      decide (32 ≤ c.toNat ∧ c ≠ '"' ∧ c ≠ '\\')) = true := by decide
    intro c hc
    have hplain : 32 ≤ c.toNat ∧
        c ≠ '"' ∧ c ≠ '\\' := of_decide_eq_true (List.all_eq_true.mp hword c hc)
    exact hplain

/-- The parts of an attestation that was checked. -/
structure AttestationParts (isXOnlyKey : String → Bool) (pk : String)
    (oa : OwnerAttestation) : Prop where
  owner : validateHexField oa.1 64 "oa[0]" = .ok ()
  sig : validateHexField oa.2.2 128 "oa[2]" = .ok ()
  conditions : validateConditions oa.2.1 = true
  key : isXOnlyKey oa.1 = true
  other : oa.1 ≠ pk

theorem parseOa_eq_ok {isXOnlyKey : String → Bool} {pk : String} {oa : OwnerAttestation} :
    parseOa isXOnlyKey pk oa = .ok () ↔ AttestationParts isXOnlyKey pk oa := by
  constructor
  · intro h
    unfold parseOa at h
    split at h
    · cases h
    rename_i howner
    split at h
    · cases h
    rename_i hsig
    split at h
    · cases h
    rename_i hconditions
    split at h
    · cases h
    rename_i hkey
    split at h
    · cases h
    · exact ⟨howner, hsig, by simpa using hconditions, by simpa using hkey, ‹_›⟩
  · rintro ⟨howner, hsig, hconditions, hkey, hother⟩
    rw [parseOa, howner, hsig]
    simp [hconditions, hkey, hother]

section

variable {num : List Char → Option JsonNumber} {isXOnlyKey : String → Bool} {e : Envelope}

theorem text_toJson_none (pk sig : String) (t : Nat) :
    Json.text (Envelope.toJson ⟨pk, sig, t, none⟩)
    = "\x7b\"v\":1,\"pk\":\"".toList ++ (escaped pk ++ ("\",\"sig\":\"".toList ++ (escaped sig
      ++ ("\",\"t\":".toList ++ (t.repr.toList ++ "\x7d".toList))))) := by
  simp only [Envelope.toJson, Json.text, Json.fieldsText, quote, comma, List.append_assoc,
    List.cons_append, List.nil_append, if_true, Bool.false_eq_true, if_false, List.append_nil]
  rfl

theorem text_toJson_some (pk sig : String) (t : Nat) (owner conditions ownerSig : String) :
    Json.text (Envelope.toJson ⟨pk, sig, t, some (owner, conditions, ownerSig)⟩)
    = "\x7b\"v\":1,\"pk\":\"".toList ++ (escaped pk ++ ("\",\"sig\":\"".toList ++ (escaped sig
      ++ ("\",\"t\":".toList ++
        (t.repr.toList ++ (",\"oa\":[\"".toList ++ (escaped owner ++ ("\",\"".toList
      ++ (escaped conditions ++
        ("\",\"".toList ++ (escaped ownerSig ++ "\"]\x7d".toList))))))))))) := by
  simp only [Envelope.toJson, Json.text, Json.fieldsText, Json.itemsText, quote, comma,
    List.append_assoc, List.cons_append,
    List.nil_append, if_true, Bool.false_eq_true, if_false, List.append_nil]
  rfl

/-- None of the strings has a character that would be escaped, so they may be put into the text as
they are. -/
theorem toList_buildEnvelope (hw : e.WellFormed isXOnlyKey) :
    (buildEnvelope e.pk e.sig e.t e.oa).toList = Json.text e.toJson := by
  obtain ⟨pk, sig, t, oa⟩ := e
  have hpk : escaped pk = pk.toList := escaped_plain (isPlain_of_validateHexField hw.pk)
  have hsig : escaped sig = sig.toList := escaped_plain (isPlain_of_validateHexField hw.sig)
  cases oa with
  | none =>
    show ("\x7b\"v\":1,\"pk\":\"" ++ pk ++ "\",\"sig\":\"" ++ sig ++ "\",\"t\":" ++ t.repr ++
      "\x7d").toList = _
    rw [text_toJson_none, hpk, hsig]
    simp only [String.toList_append, List.append_assoc]
  | some oa =>
    obtain ⟨owner, conditions, ownerSig⟩ := oa
    have hparts := parseOa_eq_ok.mp (hw.oa _ rfl).1
    have howner : escaped owner = owner.toList :=
      escaped_plain (isPlain_of_validateHexField hparts.owner)
    have hownerSig : escaped ownerSig = ownerSig.toList :=
      escaped_plain (isPlain_of_validateHexField hparts.sig)
    have hconditions : escaped conditions = conditions.toList :=
      escaped_plain (isPlain_of_validateConditions hparts.conditions)
    show ("\x7b\"v\":1,\"pk\":\"" ++ pk ++ "\",\"sig\":\"" ++ sig ++ "\",\"t\":" ++ t.repr ++
      ",\"oa\":[\"" ++ owner
      ++ "\",\"" ++ conditions ++ "\",\"" ++ ownerSig ++ "\"]\x7d").toList = _
    rw [text_toJson_some, hpk, hsig, howner, hconditions, hownerSig]
    simp only [String.toList_append, List.append_assoc]

theorem parse_buildEnvelope (hnum : ∀ n < 2 ^ 32, num n.repr.toList = some (.ofNat n))
    (hw : e.WellFormed isXOnlyKey) :
    Json.parse num 128 (buildEnvelope e.pk e.sig e.t e.oa).toList = some e.toJson := by
  have ht := hw.t
  have hone := hnum 1 (by decide)
  have htime := hnum e.t (by omega)
  rw [toList_buildEnvelope hw]
  refine Json.parse_text ?_ ?_
  · cases hoa : e.oa with
    | none =>
      simp only [Envelope.toJson, hoa, Json.AllNumbers, Json.AllNumbersFields, List.cons_append,
        List.nil_append, and_true, true_and]
      exact ⟨hone, htime⟩
    | some oa =>
      simp only [Envelope.toJson, hoa, Json.AllNumbers, Json.AllNumbersFields, Json.AllNumbersItems,
        List.cons_append, List.nil_append, and_true, true_and]
      exact ⟨hone, htime⟩
  · cases hoa : e.oa with
    | none => simp [Envelope.toJson, hoa, Json.levels, Json.levelsFields]
    | some oa => simp [Envelope.toJson, hoa, Json.levels, Json.levelsFields, Json.levelsItems]

theorem asU64_ofNat {n : Nat} (h : n < 2 ^ 64) : asU64 (.ofNat n) = some n := by
  have htext : (JsonNumber.ofNat n).text.toList = Nat.toDigits 10 n := Nat.toList_repr
  have hdigits : (Nat.toDigits 10 n).all Char.isDigit = true := List.all_eq_true.mpr fun c hc =>
    isDigit_toDigits c hc
  rw [asU64, htext, Nat.ofDigitChars_ten_toDigits, if_pos ⟨hdigits, h⟩]

theorem parseVersion_one : parseVersion (.num (.ofNat 1)) = .ok () := by
  rw [parseVersion, asU64_ofNat (by decide)]
  rfl

theorem parseTimestamp_ofNat {t : Nat} (h : t ≤ 2 ^ 32 - 1) :
    parseTimestamp (.num (.ofNat t)) = .ok t := by
  have hu64 : asU64 (.ofNat t) = some t := asU64_ofNat (by omega)
  rw [parseTimestamp, isF64, hu64]
  have hrange : ¬ 4294967295 < t := by omega
  simp only [Option.isNone_some, Bool.false_and, Bool.false_eq_true, if_false, if_neg hrange]

theorem readEnvelope_toJson (hw : e.WellFormed isXOnlyKey) {get : String → Option Json}
    (hv : get "v" = some (.num (.ofNat 1)))
    (hpk : get "pk" = some (.str e.pk)) (hsig : get "sig" = some (.str e.sig))
    (ht : get "t" = some (.num (.ofNat e.t)))
    (hoa : get "oa" = e.oa.map fun oa => .arr [.str oa.1, .str oa.2.1, .str oa.2.2]) :
    readEnvelope isXOnlyKey get = .ok e := by
  have hversion := parseVersion_one
  have htime := parseTimestamp_ofNat hw.t
  have hpk' := hw.pk
  have hsig' := hw.sig
  simp only [readEnvelope, required, requiredStr, hv, hpk, hsig, ht, hoa, asStr, hversion, htime,
    hpk', hsig', Except.mapError, bind, Except.bind]
  cases hsome : e.oa with
  | none =>
    simp only [Option.map_none]
    rw [← hsome]
  | some oa =>
    have hparts := (hw.oa oa hsome).1
    simp only [Option.map_some, parseAttestation, requiredStr, asStr, hparts, Except.mapError, bind,
      Except.bind]
    rw [← hsome]

theorem parseEnvelope_buildEnvelope (hnum : ∀ n < 2 ^ 32, num n.repr.toList = some (.ofNat n))
    (hw : e.WellFormed isXOnlyKey) :
    parseEnvelope num isXOnlyKey (buildEnvelope e.pk e.sig e.t e.oa) = .ok e := by
  rw [parseEnvelope, parse_buildEnvelope hnum hw]
  cases hoa : e.oa with
  | none | some oa =>
    simp only [Envelope.toJson, hoa]
    exact readEnvelope_toJson hw rfl rfl rfl rfl (by rw [hoa]; rfl)

/-! ## The limits -/

theorem len_repr_le {n k : Nat} (hk : 0 < k) (h : n < 10 ^ k) : len n.repr ≤ k := by
  have hascii : ∀ c ∈ n.repr.toList, c.toNat < 128 := by
    intro c hc
    rw [Nat.toList_repr] at hc
    exact (isDigit_of_char (isDigit_toDigits c hc)).1
  rw [len_ascii hascii, Nat.toList_repr]
  exact (Nat.length_toDigits_le_iff (by decide) hk).mpr h

/-- The JSON is well below the limit on what is decoded. -/
theorem len_buildEnvelope_le (hw : e.WellFormed isXOnlyKey) :
    len (buildEnvelope e.pk e.sig e.t e.oa) ≤ 1468 := by
  obtain ⟨pk, sig, t, oa⟩ := e
  have ht : t ≤ 2 ^ 32 - 1 := hw.t
  have hpk : len pk = 64 := (validateHexField_ok hw.pk).1
  have hsig : len sig = 128 := (validateHexField_ok hw.sig).1
  have htime : len t.repr ≤ 10 := len_repr_le (by decide) (by omega)
  have hopen : len "\x7b\"v\":1,\"pk\":\"" = 13 := by decide
  have hmid : len "\",\"sig\":\"" = 9 := by decide
  have hstamp : len "\",\"t\":" = 6 := by decide
  cases oa with
  | none =>
    have hclose : len "\x7d" = 1 := by decide
    show len ("\x7b\"v\":1,\"pk\":\"" ++ pk ++ "\",\"sig\":\"" ++ sig ++ "\",\"t\":" ++ t.repr ++
      "\x7d") ≤ 1468
    simp only [len_append]
    omega
  | some oa =>
    obtain ⟨owner, conditions, ownerSig⟩ := oa
    obtain ⟨hoa, hconditions⟩ := hw.oa _ rfl
    have hconditions : len conditions ≤ 1024 := hconditions
    have howner : len owner = 64 := (validateHexField_ok (parseOa_eq_ok.mp hoa).owner).1
    have hownerSig : len ownerSig = 128 := (validateHexField_ok (parseOa_eq_ok.mp hoa).sig).1
    have hbracket : len ",\"oa\":[\"" = 8 := by decide
    have hsep : len "\",\"" = 3 := by decide
    have hclose : len "\"]\x7d" = 3 := by decide
    show len ("\x7b\"v\":1,\"pk\":\"" ++ pk ++ "\",\"sig\":\"" ++ sig ++ "\",\"t\":" ++ t.repr ++
      ",\"oa\":[\"" ++ owner ++ "\",\"" ++ conditions ++ "\",\"" ++ ownerSig ++ "\"]\x7d") ≤ 1468
    simp only [len_append]
    omega

theorem isBase64_plain {c : Char} (h : Base64.IsBase64 c) : c.toNat < 128 ∧ c ≠ '\n' ∧ c ≠ ' ' ∧
    c ≠ '\t' ∧ c ≠ '\r' := by
  rcases h with h | rfl | rfl | rfl
  · have hne : ∀ d : Char, d.isAlphanum = false → c ≠ d := by
      rintro d hd rfl
      rw [hd] at h
      cases h
    refine ⟨?_, hne _ (by decide), hne _ (by decide), hne _ (by decide), hne _ (by decide)⟩
    simp only [Char.isAlphanum, Char.isDigit, Bool.or_eq_true, Bool.and_eq_true,
      decide_eq_true_eq] at h
    rcases h with h | ⟨_, h⟩
    · have := Str.isAlpha_range h
      omega
    · exact Nat.lt_of_le_of_lt (UInt32.le_iff_toNat_le.mp h) (by decide)
  all_goals decide

theorem len_base64 (bytes : List UInt8) :
    len (String.ofList (Base64.encode bytes)) = 4 * ((bytes.length + 2) / 3) := by
  rw [len_ascii, String.toList_ofList, Base64.length_encode]
  intro c hc
  rw [String.toList_ofList] at hc
  exact (isBase64_plain (Base64.isBase64_encode bytes c hc)).1

theorem len_armor (bytes : List UInt8) : len (armor bytes) = 61 + 4 * ((bytes.length + 2) / 3) := by
  have hbegin : len ARMOR_BEGIN = 30 := by decide
  have hend : len ARMOR_END = 28 := by decide
  have hnewline : len "\n" = 1 := by decide
  rw [armor]
  simp only [len_append, len_base64]
  omega

/-! ## The armor is read -/

/-- A line without blanks does not end with one. -/
theorem endsWithBlank_eq_false {line : String}
    (h : ∀ c ∈ line.toList, c ≠ ' ' ∧ c ≠ '\t' ∧ c ≠ '\r') : endsWithBlank line = false := by
  have hnot : ∀ s : String, ∀ d : Char, s.toList = [d] → (∀ c ∈ line.toList, c ≠ d) →
      endsWith line s = false := by
    intro s d hs hd
    rw [endsWith, hs]
    refine Bool.eq_false_iff.mpr fun hsuffix => ?_
    obtain ⟨front, hfront⟩ := List.isSuffixOf_iff_suffix.mp hsuffix
    exact hd d (by rw [← hfront]; exact List.mem_append_right _ (List.mem_singleton_self d)) rfl
  rw [endsWithBlank, hnot " " ' ' rfl fun c hc => (h c hc).1, hnot "\t" '\t' rfl fun c hc =>
    (h c hc).2.1, hnot "\r" '\r' rfl fun c hc => (h c hc).2.2]
  rfl

theorem parseArmor_armor (bytes : List UInt8) :
    parseArmor (armor bytes) = .ok (String.ofList (Base64.encode bytes)) := by
  have hplain : ∀ c ∈ (String.ofList (Base64.encode bytes)).toList, c ≠ '\n' ∧ c ≠ ' ' ∧ c ≠ '\t' ∧
      c ≠ '\r' := by
    intro c hc
    rw [String.toList_ofList] at hc
    exact (isBase64_plain (Base64.isBase64_encode bytes c hc)).2
  have hsplit : split (ARMOR_BEGIN ++ "\n" ++ String.ofList (Base64.encode bytes) ++ "\n" ++
      ARMOR_END) '\n' = [ARMOR_BEGIN, String.ofList (Base64.encode bytes), ARMOR_END] := by
    have hassoc : ARMOR_BEGIN ++ "\n" ++ String.ofList (Base64.encode bytes) ++ "\n" ++ ARMOR_END
        = ARMOR_BEGIN ++ "\n" ++ (String.ofList (Base64.encode bytes) ++ "\n" ++ ARMOR_END) := by
      simp only [String.append_assoc]
    rw [hassoc, split_append (by decide) rfl, split_append (fun hmem => (hplain _ hmem).1 rfl) rfl,
      split_of_notMem (by decide)]
  have hblank : endsWithBlank (String.ofList (Base64.encode bytes)) = false :=
    endsWithBlank_eq_false fun c hc => (hplain c hc).2
  have hbegin : endsWithBlank ARMOR_BEGIN = false := by decide
  have hend : endsWithBlank ARMOR_END = false := by decide
  rw [parseArmor, armor, stripSuffix_append]
  simp only [hsplit, ne_eq, not_true_eq_false, if_false, List.findIdx?_cons, List.findIdx?_nil,
    hblank, hbegin, hend, Bool.false_eq_true, Option.map_none]

/-- **What is written of an envelope is accepted, and read as it was.** -/
theorem checkFile_armor (hnum : ∀ n < 2 ^ 32, num n.repr.toList = some (.ofNat n))
    (hw : e.WellFormed isXOnlyKey) :
    checkFile num isXOnlyKey (armor (asBytes (buildEnvelope e.pk e.sig e.t e.oa))) = .ok e := by
  have hjson := len_buildEnvelope_le hw
  have hlen := len_armor (asBytes (buildEnvelope e.pk e.sig e.t e.oa))
  have hline := len_base64 (asBytes (buildEnvelope e.pk e.sig e.t e.oa))
  rw [show (asBytes (buildEnvelope e.pk e.sig e.t e.oa)).length =
    len (buildEnvelope e.pk e.sig e.t e.oa) from rfl] at hlen hline
  have hblank : hasNonStringWhitespace false false (buildEnvelope e.pk e.sig e.t e.oa).toList =
      false := by
    have h := whitespace_text e.toJson []
    rw [List.append_nil] at h
    rw [toList_buildEnvelope hw, h]
    rfl
  have hfile : ¬ MAX_SIG_FILE < len (armor (asBytes (buildEnvelope e.pk e.sig e.t e.oa))) := by
    unfold MAX_SIG_FILE
    omega
  have hbase64 : ¬ MAX_BASE64_LINE <
      len (String.ofList (Base64.encode (asBytes (buildEnvelope e.pk e.sig e.t e.oa)))) := by
    unfold MAX_BASE64_LINE
    omega
  have hdecoded : ¬ MAX_JSON_DECODED < (asBytes (buildEnvelope e.pk e.sig e.t e.oa)).length := by
    show ¬ MAX_JSON_DECODED < len _
    unfold MAX_JSON_DECODED
    omega
  rw [checkFile, if_neg hfile, parseArmor_armor]
  simp only [if_neg hbase64]
  rw [String.toList_ofList, Base64.decode_encode]
  simp only [if_neg hdecoded, fromUtf8_asBytes, hblank, Bool.false_eq_true, if_false]
  rw [parseEnvelope_buildEnvelope hnum hw]
  simp only [ne_eq, not_true_eq_false, if_false]

/-! ## The attestation that is signed with -/

theorem asStr_eq_some {v : Json} {s : String} (h : asStr v = some s) : v = .str s := by
  cases v with
  | str s' => exact congrArg Json.str (Option.some.inj h)
  | _ => cases h

theorem validateHexField_of_isLowerHex {s name : String} {n : Nat} (h : isLowerHex n s = true) :
    validateHexField s n name = .ok () := by
  obtain ⟨hlen, hhex⟩ := Bool.and_eq_true_iff.mp h
  rw [validateHexField, if_neg (by simpa using hlen), if_neg (by rw [hhex]; decide)]

/-- What the auth tag was checked for. -/
structure TagParts (label owner conditions sig : Json) (oa : OwnerAttestation) : Prop where
  owner : owner = .str oa.1
  conditions : conditions = .str oa.2.1
  sig : sig = .str oa.2.2
  hexOwner : isLowerHex 64 oa.1 = true
  hexSig : isLowerHex 128 oa.2.2 = true
  valid : validateConditions oa.2.1 = true

theorem tagParts_of_readAuthTag {label owner conditions sig : Json} {oa : OwnerAttestation}
    (h : readAuthTag label owner conditions sig = .ok oa) :
    TagParts label owner conditions sig oa := by
  unfold readAuthTag at h
  split at h
  · cases h
  split at h
  · cases h
  rename_i owner' howner
  split at h
  · cases h
  rename_i conditions' hconditions
  split at h
  · cases h
  rename_i sig' hsig
  split at h
  · cases h
  rename_i hvalid
  split at h
  · cases h
  rename_i hhexOwner
  split at h
  · cases h
  rename_i hhexSig
  cases h
  exact ⟨asStr_eq_some howner, asStr_eq_some hconditions,
    asStr_eq_some hsig, by simpa using hhexOwner,
    by simpa using hhexSig, by simpa using hvalid⟩

/-- The conditions come out of a text that is limited. -/
theorem loadAuthTag_eq_some {authTag : Option String} {oa : OwnerAttestation}
    (h : loadAuthTag num authTag = .ok (some oa)) :
    isLowerHex 64 oa.1 = true ∧ isLowerHex 128 oa.2.2 = true ∧ validateConditions oa.2.1 = true ∧
      len oa.2.1 ≤ MAX_AUTH_TAG := by
  cases authTag with
  | none => cases h
  | some jsonStr =>
    rw [loadAuthTag] at h
    split at h
    · cases h
    rename_i hlimit
    split at h
    · cases h
    · rename_i label owner conditions sig hparse
      cases hread : readAuthTag label owner conditions sig with
      | error msg =>
        rw [hread] at h
        cases h
      | ok oa' =>
        rw [hread] at h
        obtain rfl := Option.some.inj (Except.ok.inj h)
        obtain ⟨rfl, rfl, rfl, hhexOwner, hhexSig, hvalid⟩ := tagParts_of_readAuthTag hread
        refine ⟨hhexOwner, hhexSig, hvalid, ?_⟩
        have hstrings := Json.stringBytes_parse hparse
        simp only [Json.stringBytes, Json.stringBytesItems] at hstrings
        rw [ByteIndex.byteLen_eq_length, ByteIndex.byteLen_eq_length, ByteIndex.byteLen_eq_length,
          ByteIndex.byteLen_eq_length] at hstrings
        have hconditions : len oa'.2.1 = (oa'.2.1.toList.flatMap String.utf8EncodeChar).length :=
          rfl
        have hjson : len jsonStr = (jsonStr.toList.flatMap String.utf8EncodeChar).length := rfl
        omega
    · cases h
    · cases h

theorem checkAttestation_some {verifyOa : String → OwnerAttestation → Bool} {pk : String} {t : Nat}
    {oa : OwnerAttestation}
    (h : checkAttestation isXOnlyKey verifyOa pk t (some oa) = .ok ()) : isXOnlyKey oa.1 = true ∧
    oa.1 ≠ pk := by
  rw [checkAttestation] at h
  split at h
  · cases h
  rename_i hkey
  split at h
  · cases h
  · exact ⟨by simpa using hkey, ‹_›⟩

theorem wellFormed_of_checks {verifyOa : String → OwnerAttestation → Bool} {pk sig : String}
    {t : Nat} {authTag : Option String}
    {oa : Option OwnerAttestation} (hpk : validateHexField pk 64 "pk" = .ok ())
    (hsig : validateHexField sig 128 "sig" = .ok ())
    (ht : t ≤ 2 ^ 32 - 1) (hload : loadAuthTag num authTag = .ok oa)
    (hcheck : checkAttestation isXOnlyKey verifyOa pk t oa = .ok ()) :
    Envelope.WellFormed isXOnlyKey ⟨pk, sig, t, oa⟩ := by
  refine ⟨hpk, hsig, ht, ?_⟩
  intro attestation hsome
  have hsome : oa = some attestation := hsome
  rw [hsome] at hload hcheck
  obtain ⟨hhexOwner, hhexSig, hvalid, hlen⟩ := loadAuthTag_eq_some hload
  obtain ⟨hkey, hother⟩ := checkAttestation_some hcheck
  refine ⟨parseOa_eq_ok.mpr ?_, hlen⟩
  exact ⟨validateHexField_of_isLowerHex hhexOwner, validateHexField_of_isLowerHex hhexSig, hvalid,
    hkey, hother⟩

end

/-! ## A canonical code -/

/-- **The signature file is a canonical code.** A file that is accepted is the one that is written
for its envelope, so two different files do not carry one envelope. What is signed under an
attestation that was accepted is written, passes all checks of the reader, its limits among them,
and is read as it was. -/
theorem signatureFile_canonical (num : List Char → Option JsonNumber)
    (hnum : ∀ n < 2 ^ 32, num n.repr.toList = some (.ofNat n))
    (isXOnlyKey : String → Bool) (verifyOa : String → OwnerAttestation → Bool) :
    (∀ content e, checkFile num isXOnlyKey content = .ok e →
      content = armor (asBytes (buildEnvelope e.pk e.sig e.t e.oa)))
    ∧ (∀ content content' e, checkFile num isXOnlyKey content = .ok e →
      checkFile num isXOnlyKey content' = .ok e →
        content = content')
    ∧ ∀ (pk : String) (sign : Nat → Option OwnerAttestation →
      String) (t : Nat) (authTag : Option String)
        (oa : Option OwnerAttestation), validateHexField pk 64 "pk" = .ok () → validateHexField
          (sign t oa) 128 "sig" = .ok () →
        t ≤ 2 ^ 32 - 1 → loadAuthTag num authTag = .ok oa →
          checkAttestation isXOnlyKey verifyOa pk t oa = .ok () →
        ∃ file, doSign num isXOnlyKey verifyOa pk sign t authTag = .ok file
          ∧ checkFile num isXOnlyKey file = .ok ⟨pk, sign t oa, t, oa⟩ := by
  refine ⟨fun content e h => eq_armor_of_checkFile h, ?_, ?_⟩
  · intro content content' e h h'
    rw [eq_armor_of_checkFile h, eq_armor_of_checkFile h']
  · intro pk sign t authTag oa hpk hsig ht hload hcheck
    refine ⟨armor (asBytes (buildEnvelope pk (sign t oa) t oa)), ?_, ?_⟩
    · have hrange : ¬ 2 ^ 32 - 1 < t := Nat.not_lt.mpr ht
      simp only [doSign, if_neg hrange, hload, hcheck]
    · exact checkFile_armor (e :=
        ⟨pk, sign t oa, t, oa⟩) hnum (wellFormed_of_checks hpk hsig ht hload hcheck)

/-! ### An attestation -/

/-- An auth tag, as JSON. -/
def authTagText (oa : OwnerAttestation) : String :=
  "[\"auth\",\"" ++ oa.1 ++ "\",\"" ++ oa.2.1 ++ "\",\"" ++ oa.2.2 ++ "\"]"

theorem loadAuthTag_text {num : List Char → Option JsonNumber} {oa : OwnerAttestation}
    (howner : isLowerHex 64 oa.1 = true)
    (hconditions : validateConditions oa.2.1 = true) (hsig : isLowerHex 128 oa.2.2 = true)
    (hlen : len (authTagText oa) ≤ MAX_AUTH_TAG) :
    loadAuthTag num (some (authTagText oa)) = .ok (some oa) := by
  obtain ⟨owner, conditions, sig⟩ := oa
  dsimp only at howner hconditions hsig
  have hplainOwner := escaped_plain
      (isPlain_of_validateHexField (@validateHexField_of_isLowerHex owner "oa[0]" 64 howner))
  have hplainSig := escaped_plain
      (isPlain_of_validateHexField (@validateHexField_of_isLowerHex sig "oa[2]" 128 hsig))
  have hplain := escaped_plain (isPlain_of_validateConditions hconditions)
  have htext : (authTagText (owner, conditions, sig)).toList
      = Json.text (.arr [.str "auth", .str owner, .str conditions, .str sig]) := by
    simp only [authTagText, String.toList_append, Json.text, Json.itemsText, quote, comma,
      hplainOwner, hplainSig, hplain,
      List.append_assoc, List.cons_append, List.nil_append, if_true, Bool.false_eq_true, if_false,
        List.append_nil]
    rfl
  have hparse : Json.parse num 128 (authTagText (owner, conditions, sig)).toList
      = some (.arr [.str "auth", .str owner, .str conditions, .str sig]) := by
    rw [htext]
    refine Json.parse_text ?_ ?_
    · simp [Json.AllNumbers, Json.AllNumbersItems]
    · simp [Json.levels, Json.levelsItems]
  rw [loadAuthTag, if_neg (Nat.not_lt.mpr hlen), hparse]
  dsimp only
  unfold readAuthTag asStr
  dsimp only
  rw [howner, hsig, hconditions]
  rfl

theorem len_replicate {c : Char} (h : c.toNat < 128) (n : Nat) :
    len (String.ofList (List.replicate n c)) = n := by
  rw [len_ascii, String.toList_ofList, List.length_replicate]
  intro d hd
  rw [String.toList_ofList] at hd
  rw [List.eq_of_mem_replicate hd]
  exact h

theorem isLowerHex_replicate {c : Char} (h : FixedBytes.isLowerHexdigit c = true)
    (hascii : c.toNat < 128) (n : Nat) :
    isLowerHex n (String.ofList (List.replicate n c)) = true := by
  rw [isLowerHex, len_replicate hascii, String.toList_ofList, Bool.and_eq_true, List.all_eq_true]
  refine ⟨beq_self_eq_true n, ?_⟩
  intro d hd
  rw [List.eq_of_mem_replicate hd]
  exact h

def exampleKey : String := String.ofList (List.replicate 64 'a')

def exampleSig : String := String.ofList (List.replicate 128 'd')

def exampleOa : OwnerAttestation :=
  (String.ofList (List.replicate 64 'b'), "kind=1&created_at<2000",
    String.ofList (List.replicate 128 'c'))

theorem loadAuthTag_exampleOa : loadAuthTag readUnsigned (some (authTagText exampleOa)) =
    .ok (some exampleOa) := by
  refine loadAuthTag_text (isLowerHex_replicate (by decide) (by decide) 64) (by decide)
    (isLowerHex_replicate (by decide) (by decide) 128) ?_
  have howner : len exampleOa.1 = 64 := len_replicate (by decide) 64
  have hsig : len exampleOa.2.2 = 128 := len_replicate (by decide) 128
  have hconditions : len exampleOa.2.1 = 22 := by decide
  have hquotes : len "[\"auth\",\"" + 2 * len "\",\"" + len "\"]" = 17 := by decide
  simp only [authTagText, len_append, howner, hsig, hconditions, MAX_AUTH_TAG]
  omega

theorem checkAttestation_exampleOa :
    checkAttestation (fun _ => true) (fun _ _ => true) exampleKey 1000 (some exampleOa) =
      .ok () := by
  have hother : exampleOa.1 ≠ exampleKey := by
    intro h
    have hhead := congrArg (fun s : String => s.toList.head?) h
    dsimp only [exampleOa, exampleKey] at hhead
    rw [String.toList_ofList, String.toList_ofList, List.head?_replicate,
      List.head?_replicate] at hhead
    exact absurd hhead (by decide)
  have htrue : ¬ true = false := by decide
  have hconditions : enforceConditions exampleOa.2.1 1000 = .ok () := by rfl
  rw [checkAttestation, if_neg htrue, if_neg hother, if_neg htrue, hconditions]
  rfl

/-- A signature under an attestation with conditions. -/
theorem signatureFile_canonical_plain :
    ∃ file, doSign readUnsigned (fun _ => true) (fun _ _ => true) exampleKey
      (fun _ _ => exampleSig) 1000
          (some (authTagText exampleOa)) = .ok file
      ∧ checkFile readUnsigned (fun _ => true) file = .ok ⟨exampleKey, exampleSig, 1000,
        some exampleOa⟩ := by
  have hnum : ∀ n < 2 ^ 32, readUnsigned n.repr.toList = some (.ofNat n) := fun n _ =>
    readUnsigned_repr n
  exact (signatureFile_canonical readUnsigned hnum (fun _ => true) (fun _ _ => true)).2.2
    exampleKey (fun _ _ => exampleSig) 1000 (some (authTagText exampleOa)) (some exampleOa)
    (validateHexField_of_isLowerHex (isLowerHex_replicate (by decide) (by decide) 64))
    (validateHexField_of_isLowerHex (isLowerHex_replicate (by decide) (by decide) 128)) (by decide)
    loadAuthTag_exampleOa checkAttestation_exampleOa

end Pkzz.Git.Sign
