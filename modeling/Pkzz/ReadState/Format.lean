import Pkzz.Lib.OrderedMap
import Pkzz.Lib.Json

/-!
# Read-state events

The blob a client publishes, the events that carry it, and how an event is read back:
`readStateFormat.ts` and `parseReadStateEvent`. What `JSON.parse` yields is given by its
own properties in enumeration order. Encryption to oneself is a parameter (`Cipher`).
-/

namespace Pkzz.ReadState

open Pkzz.Lib

def readStateDTagPrefix : String := "read-state:"
def maxContexts : Nat := 10000
def readStateMaxPlaintextBytes : Nat := 32768
def readStateMaxSlots : Nat := 8
def msgPrefix : String := "msg:"
def threadPrefix : String := "thread:"
def kindReadState : Nat := 30078

/-- `value.length`: a string has UTF-16 code units. -/
def utf16Length (s : String) : Nat := (s.toList.map fun c => if c.toNat < 0x10000 then 1 else 2).sum

/-! ## Objects used as dictionaries -/

/-- `Record<string, number>`. -/
abbrev Record := OrderedMap String Nat

namespace Record

/-- `record[key] = value`; a number assigned to `__proto__` is dropped. -/
def assign (r : Record) (key : String) (value : Nat) : Record :=
  if key = "__proto__" then r else r.set key value

/-- What `record[key]` finds on `Object.prototype` when the record has no such entry. -/
def inherited : List String :=
  ["constructor", "__defineGetter__", "__defineSetter__", "hasOwnProperty", "__lookupGetter__",
    "__lookupSetter__", "isPrototypeOf", "propertyIsEnumerable", "toString", "valueOf", "__proto__",
    "toLocaleString"]

theorem get_assign (r : Record) (key k : String) (value : Nat) :
    (r.assign key value).get k = if k = key ∧ key ≠ "__proto__" then some value else r.get k := by
  unfold assign
  by_cases h : key = "__proto__"
  · rw [if_pos h, if_neg (fun hk => hk.2 h)]
  rw [if_neg h, OrderedMap.get_set]
  by_cases hk : k = key
  · rw [if_pos hk, if_pos ⟨hk, h⟩]
  · rw [if_neg hk, if_neg (fun hk' => hk hk'.1)]

theorem get_assign_of_ne {r : Record} {key k : String} {value : Nat} (h : k ≠ key) :
    (r.assign key value).get k = r.get k := by
  rw [get_assign, if_neg (fun hk => h hk.1)]

/-- An assignment adds at most its own entry. -/
theorem of_get_assign {r : Record} {key k : String} {value v : Nat}
    (h : (r.assign key value).get k = some v) :
    (k = key ∧ v = value ∧ k ≠ "__proto__") ∨ r.get k = some v := by
  rw [get_assign] at h
  by_cases hk : k = key ∧ key ≠ "__proto__"
  · rw [if_pos hk] at h
    exact .inl ⟨hk.1, (Option.some.inj h).symm, by rw [hk.1]; exact hk.2⟩
  · rw [if_neg hk] at h
    exact .inr h

/-- A record filled by assignments: `for (const [key, value] of entries) record[key] = value`. -/
def assignAll (r : Record) (entries : List (String × Nat)) : Record :=
  entries.foldl (fun r e => r.assign e.1 e.2) r

theorem of_get_assignAll {k : String} {v : Nat} :
    ∀ {entries : List (String × Nat)} {r : Record}, (r.assignAll entries).get k = some v →
      ((k, v) ∈ entries ∧ k ≠ "__proto__") ∨ r.get k = some v
  | [], _, h => .inr h
  | e :: entries, r, h => by
    rcases @of_get_assignAll k v entries (r.assign e.1 e.2) h with h | h
    · exact .inl ⟨List.mem_cons_of_mem _ h.1, h.2⟩
    rcases of_get_assign h with ⟨hk, hv, hproto⟩ | h
    · refine .inl ⟨?_, hproto⟩
      rw [hk, hv]
      exact List.mem_cons_self
    · exact .inr h

theorem get_assignAll_of_notMem {k : String} :
    ∀ {entries : List (String × Nat)} {r : Record}, k ∉ entries.map Prod.fst →
      (r.assignAll entries).get k = r.get k
  | [], _, _ => rfl
  | e :: entries, r, h => by
    rw [List.map_cons, List.mem_cons, not_or] at h
    calc (r.assignAll (e :: entries)).get k = ((r.assign e.1 e.2).assignAll entries).get k := rfl
      _ = (r.assign e.1 e.2).get k := get_assignAll_of_notMem h.2
      _ = r.get k := get_assign_of_ne h.1

end Record

/-! ## Blobs -/

/-- A JavaScript number: an integer, or one that `Number.isInteger` refuses. -/
inductive JsNumber where
  | integer (n : Int)
  | other
  deriving DecidableEq

inductive JsValue where
  | null
  | boolean (b : Bool)
  | number (n : JsNumber)
  | string (s : String)
  | array (items : List JsValue)
  | object (properties : List (String × JsValue))

def JsValue.property (properties : List (String × JsValue)) (name : String) : Option JsValue :=
  OrderedMap.find name properties

structure ReadStateBlob where
  clientId : String
  contexts : Record
  deriving DecidableEq

/-- The value `JSON.stringify` is given, `v` being 1. -/
def ReadStateBlob.value (blob : ReadStateBlob) : JsValue :=
  .object [("v", .number (.integer 1)), ("client_id", .string blob.clientId),
    ("contexts", .object (blob.contexts.entries.map fun e => (e.1, .number (.integer e.2))))]

/-- A type guard: the parts it establishes are handed on. -/
def isValidBlob : JsValue → Option (String × List (String × JsValue))
  | .object record =>
    match JsValue.property record "v", JsValue.property record "client_id",
        JsValue.property record "contexts" with
    | some (.number (.integer 1)), some (.string clientId), some (.object contexts) =>
      if utf16Length clientId = 0 ∨ utf16Length clientId > 64 then none
      else if contexts.length > maxContexts then none
      else some (clientId, contexts)
    | _, _, _ => none
  | _ => none

/-- The entry a property leaves: its key has at most 256 octets, its value is an unsigned
32-bit integer. -/
def sanitizeEntry (e : String × JsValue) : Option (String × Nat) :=
  if e.1.utf8ByteSize > 256 then none
  else match e.2 with
  | .number (.integer value) => if value < 0 ∨ value > 4294967295 then
      none else some (e.1, value.toNat)
  | _ => none

def sanitizeContexts (contexts : List (String × JsValue)) : Record :=
  Record.assignAll .empty (contexts.filterMap sanitizeEntry)

def isValidReadStateDTag (value : String) : Bool :=
  Str.startsWith value readStateDTagPrefix
    && (let slotId := String.ofList (value.toList.drop readStateDTagPrefix.length)
        decide (utf16Length slotId > 0) && decide (utf16Length slotId ≤ 64)
          && slotId.toList.all fun c => decide (c.toNat ≤ 0x7f))

/-! ## Events -/

structure RelayEvent where
  pubkey : String
  createdAt : Nat
  kind : Nat
  tags : List (List String)
  content : String
  deriving DecidableEq

structure ParsedReadStateEvent where
  dTag : String
  blob : ReadStateBlob
  createdAt : Nat

/-- `nip44EncryptToSelf(JSON.stringify(blob))`, which draws a nonce and may fail, and
`JSON.parse(nip44DecryptFromSelf(content))`, which throws on most strings. -/
structure Cipher where
  encrypt : Nat → ReadStateBlob → Option String
  decrypt : String → Option JsValue

/-- What was encrypted is read back. -/
def Cipher.RoundTrip (cipher : Cipher) : Prop :=
  ∀ nonce blob content, cipher.encrypt nonce blob = some content →
    cipher.decrypt content = some blob.value

def parseReadStateEvent (cipher : Cipher) (event : RelayEvent) (pubkey : String) :
    Option ParsedReadStateEvent :=
  if event.pubkey ≠ pubkey then none
  else match event.tags.filter fun tag => tag[0]? = some "d" with
  | [tag] =>
    match tag[1]? with
    | none => none
    | some dTag =>
      if !isValidReadStateDTag dTag then none
      else if (event.tags.filter fun tag =>
        tag[0]? = some "t" ∧ tag[1]? = some "read-state").length ≠ 1 then
        none
      else do
        let parsed ← cipher.decrypt event.content
        let (clientId, contexts) ← isValidBlob parsed
        some { dTag, blob := ⟨clientId, sanitizeContexts contexts⟩, createdAt := event.createdAt }
  | _ => none

/-! ## What is read back -/

theorem of_sanitizeContexts {contexts : List (String × JsValue)} {k : String} {t : Nat}
    (h : (sanitizeContexts contexts).get k = some t) :
    (k, .number (.integer t)) ∈ contexts ∧ k ≠ "__proto__" := by
  rcases Record.of_get_assignAll h with ⟨h, hproto⟩ | h
  · refine ⟨?_, hproto⟩
    obtain ⟨e, he, hs⟩ := List.mem_filterMap.mp h
    obtain ⟨key, value⟩ := e
    unfold sanitizeEntry at hs
    by_cases hkey : key.utf8ByteSize > 256
    · rw [if_pos hkey] at hs
      cases hs
    rw [if_neg hkey] at hs
    cases value with
    | number n =>
      cases n with
      | integer n =>
        dsimp only at hs
        by_cases hn : n < 0 ∨ n > 4294967295
        · rw [if_pos hn] at hs
          cases hs
        rw [if_neg hn] at hs
        cases hs
        rw [Int.toNat_of_nonneg (by omega)]
        exact he
      | other => cases hs
    | null => cases hs
    | boolean b => cases hs
    | string s => cases hs
    | array items => cases hs
    | object properties => cases hs
  · cases h

theorem isValidBlob_value {blob : ReadStateBlob} {clientId : String}
    {contexts : List (String × JsValue)} (h : isValidBlob blob.value = some (clientId, contexts)) :
    clientId = blob.clientId ∧ contexts = blob.contexts.entries.map fun e =>
      (e.1, .number (.integer e.2)) := by
  have hcases : isValidBlob blob.value
      = if utf16Length blob.clientId = 0 ∨ utf16Length blob.clientId > 64 then none
        else if (blob.contexts.entries.map fun e =>
          (e.1, JsValue.number (.integer e.2))).length > maxContexts then none
        else some (blob.clientId, blob.contexts.entries.map fun e =>
          (e.1, JsValue.number (.integer e.2))) := rfl
  rw [hcases] at h
  split at h
  · cases h
  split at h
  · cases h
  · cases h
    exact ⟨rfl, rfl⟩

variable {cipher : Cipher} {event : RelayEvent} {pubkey : String} {parsed : ParsedReadStateEvent}

theorem parse_eq_some (h : parseReadStateEvent cipher event pubkey = some parsed) :
    ∃ tag value contexts, event.tags.filter (fun tag => tag[0]? = some "d") = [tag]
      ∧ tag[1]? = some parsed.dTag ∧ cipher.decrypt event.content = some value
      ∧ isValidBlob value = some (parsed.blob.clientId, contexts)
      ∧ parsed.blob.contexts = sanitizeContexts contexts ∧ parsed.createdAt = event.createdAt := by
  unfold parseReadStateEvent at h
  split at h
  · cases h
  split at h
  · rename_i tag htags
    split at h
    · cases h
    rename_i dTag htag
    split at h
    · cases h
    split at h
    · cases h
    rw [Option.bind_eq_bind, Option.bind_eq_some_iff] at h
    obtain ⟨value, hvalue, h⟩ := h
    rw [Option.bind_eq_bind, Option.bind_eq_some_iff] at h
    obtain ⟨⟨clientId, contexts⟩, hvalid, h⟩ := h
    cases h
    exact ⟨tag, value, contexts, htags, htag, hvalue, hvalid, rfl, rfl⟩
  · cases h

/-- What an event that carries a blob says is in the blob. -/
theorem parse_of_decrypt {blob : ReadStateBlob}
 (hparse : parseReadStateEvent cipher event pubkey = some parsed)
    (hdec : cipher.decrypt event.content = some blob.value) :
    parsed.blob.clientId = blob.clientId
      ∧ ∀ k t, parsed.blob.contexts.get k = some t → blob.contexts.get k = some t := by
  obtain ⟨tag, value, contexts, _, _, hvalue, hvalid, hctx, _⟩ := parse_eq_some hparse
  rw [hdec] at hvalue
  rw [← Option.some.inj hvalue] at hvalid
  obtain ⟨hid, hcontexts⟩ := isValidBlob_value hvalid
  refine ⟨hid, ?_⟩
  intro k t hk
  rw [hctx] at hk
  have hmem := (of_sanitizeContexts hk).1
  rw [hcontexts] at hmem
  obtain ⟨e, he, hek⟩ := List.mem_map.mp hmem
  cases hek
  exact OrderedMap.mem_entries.mp he

end Pkzz.ReadState
