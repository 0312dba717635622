import Pkzz.Git.PreReceive

/-!
# The relay reads what the hook posts

The body the script puts together with `sed` and string concatenation is, octet for octet, the
JSON text of the request it means, and the relay reads that request from it: nothing in a ref
name or a repository id can end a string early or add a field.
-/

namespace Pkzz.Git

open Pkzz.Core Pkzz.Lib

/-! ## The body -/

/-- The characters of a string between its quotes. -/
abbrev escaped (s : String) : List Char := s.toList.flatMap escapeChar

/-- An entry of `ref_updates` as a value. -/
def HookRefUpdate.toJson (r : HookRefUpdate) : Json :=
  .obj [("old_oid", .str r.oldOid), ("new_oid", .str r.newOid), ("ref_name", .str r.refName),
    ("is_ancestor", .bool r.isAncestor)]

def HookCallbackRequest.toJson (req : HookCallbackRequest) : Json :=
  .obj [("repo_id", .str req.repoId), ("repo_owner", .str req.repoOwner),
    ("community_id", .str req.communityId), ("pusher_pubkey", .str req.pusherPubkey),
    ("ref_updates", .arr (req.refUpdates.map HookRefUpdate.toJson)),
    ("timestamp", .num (.ofNat req.timestamp.toNat)), ("signature", .str req.signature)]

theorem HookRefUpdate.ofJson_toJson (r : HookRefUpdate) : ofJson r.toJson = some r := by
  simp [ofJson, toJson, members]

theorem u64OfNumber_ofNat (t : UInt64) : u64OfNumber (.ofNat t.toNat) = some t := by
  have htext : (JsonNumber.ofNat t.toNat).text.toList = Nat.toDigits 10 t.toNat := Nat.toList_repr
  have hdigits : (Nat.toDigits 10 t.toNat).all Char.isDigit = true :=
    List.all_eq_true.mpr fun c hc => isDigit_toDigits c hc
  rw [u64OfNumber, htext, Nat.ofDigitChars_ten_toDigits]
  rw [if_pos ⟨hdigits, t.toNat_lt_size⟩, UInt64.ofNat_toNat]

theorem mapM_ofJson_toJson (rs : List HookRefUpdate) :
    (rs.map HookRefUpdate.toJson).mapM HookRefUpdate.ofJson = some rs := by
  induction rs with
  | nil => rfl
  | cons r rs ih => rw [List.map_cons, List.mapM_cons, HookRefUpdate.ofJson_toJson, ih]; rfl

theorem HookCallbackRequest.ofJson_toJson (req : HookCallbackRequest) :
    ofJson req.toJson = some req := by
  have hrefs := mapM_ofJson_toJson req.refUpdates
  have htime := u64OfNumber_ofNat req.timestamp
  simp only [ofJson, toJson, members, List.mapM_cons, List.mapM_nil]
  simp [hrefs, htime, -List.mapM_map]

theorem text_entry (r : HookRefUpdate) : Json.text r.toJson
    = "\x7b\"old_oid\":\"".toList ++ (escaped r.oldOid ++ ("\",\"new_oid\":\"".toList
      ++ (escaped r.newOid ++ ("\",\"ref_name\":\"".toList ++ (escaped r.refName
      ++ ("\",\"is_ancestor\":".toList ++ ((if r.isAncestor then "true" else "false").toList
      ++ "\x7d".toList))))))) := by
  cases hr : r.isAncestor <;>
  simp only [HookRefUpdate.toJson, Json.text, Json.fieldsText, quote, comma, List.append_assoc,
    List.cons_append, hr,
    List.nil_append, if_true, Bool.false_eq_true, if_false, List.append_nil] <;> rfl

theorem text_request (req : HookCallbackRequest) : Json.text req.toJson
    = "\x7b\"repo_id\":\"".toList ++ (escaped req.repoId
      ++ ("\",\"repo_owner\":\"".toList ++ (escaped req.repoOwner
      ++ ("\",\"community_id\":\"".toList ++ (escaped req.communityId
      ++ ("\",\"pusher_pubkey\":\"".toList ++ (escaped req.pusherPubkey
      ++ ("\",\"ref_updates\":[".toList
      ++ (Json.itemsText true (req.refUpdates.map HookRefUpdate.toJson)
      ++ ("],\"timestamp\":".toList ++ (req.timestamp.toNat.repr.toList
      ++ (",\"signature\":\"".toList ++ (escaped req.signature ++ "\"\x7d".toList))))))))))))) := by
  simp only [HookCallbackRequest.toJson, Json.text, Json.fieldsText, quote, comma,
    List.append_assoc,
    List.cons_append, List.nil_append, if_true, Bool.false_eq_true, if_false, List.append_nil]
  rfl

/-! ### Quoting with `sed` -/

/-- A character JSON writes as it is. -/
def IsPlain (c : Char) : Prop := 32 ≤ c.toNat ∧ c ≠ '"' ∧ c ≠ '\\'

theorem escapeChar_plain {c : Char} (h : IsPlain c) : escapeChar c = [c] := by
  rcases escapeChar_cases c with ⟨x, hx, _⟩ | ⟨hlt, _⟩ | ⟨_, _, hc⟩
  · -- the short escapes are for the quote, the backslash and control characters
    have hall : shortEscapes.all (fun e =>
      decide (e.1.toNat < 32 ∨ e.1 = '"' ∨ e.1 = '\\')) = true := by
      decide
    have he := of_decide_eq_true (List.all_eq_true.mp hall _ (mem_shortEscapes hx))
    rcases he with he | he | he
    · exact absurd h.1 (Nat.not_le.mpr he)
    · exact absurd he h.2.1
    · exact absurd he h.2.2
  · exact absurd h.1 (by omega)
  · exact hc

variable {s : String}

theorem escaped_plain (h : ∀ c ∈ s.toList, IsPlain c) : escaped s = s.toList := by
  have hall : ∀ l : List Char, (∀ c ∈ l, IsPlain c) → l.flatMap escapeChar = l := by
    intro l hl
    induction l with
    | nil => rfl
    | cons c l ih =>
      obtain ⟨hc, hl⟩ := List.forall_mem_cons.mp hl
      rw [List.flatMap_cons, escapeChar_plain hc, ih hl, List.singleton_append]
  exact hall _ h

/-- `sed` on one character does what JSON wants. -/
theorem substitute_utf8EncodeChar {c : Char} (h : 32 ≤ c.toNat) :
    Shell.substitute 34 [92, 34] (Shell.substitute 92 [92, 92] (String.utf8EncodeChar c))
      = (escapeChar c).flatMap String.utf8EncodeChar := by
  by_cases hb : c = '\\'
  · subst hb
    decide
  by_cases hq : c = '"'
  · subst hq
    decide
  · have hoct : ∀ d : Char, d.toNat < 128 → d ≠ c →
        UInt8.ofNat d.toNat ∉ String.utf8EncodeChar c := by
      intro d hd hne hmem
      have hbytes : String.utf8EncodeChar c = Str.asBytes (String.ofList [c]) := by
        rw [Str.asBytes, String.toList_ofList, List.flatMap_singleton]
      rw [hbytes, ← Str.mem_toList_iff hd, String.toList_ofList, List.mem_singleton] at hmem
      exact hne hmem
    rw [escapeChar_plain ⟨h, hq, hb⟩, List.flatMap_singleton,
      Shell.substitute_of_notMem (c := 92) (hoct '\\' (by decide) (Ne.symm hb)),
      Shell.substitute_of_notMem (c := 34) (hoct '"' (by decide) (Ne.symm hq))]

theorem newline_notMem_of_control (h : ∀ c ∈ s.toList, 32 ≤ c.toNat) :
    Shell.newline ∉ Str.asBytes s := by
  intro hmem
  obtain ⟨c, hc, hn⟩ := Str.ascii_of_mem_asBytes hmem (by decide)
  have hge := h c hc
  have hten : Shell.newline.toNat = 10 := rfl
  omega

/-- The octets of a quoted string are those of the text JSON writes for it. -/
theorem sedQuote_asBytes (h : ∀ c ∈ s.toList, 32 ≤ c.toNat) :
    sedQuote (Str.asBytes s) = (escaped s).flatMap String.utf8EncodeChar := by
  have hsub : ∀ l : List Char, (∀ c ∈ l, 32 ≤ c.toNat) →
      Shell.substitute 34 [92, 34] (Shell.substitute 92 [92, 92] (l.flatMap String.utf8EncodeChar))
        = (l.flatMap escapeChar).flatMap String.utf8EncodeChar := by
    intro l hl
    induction l with
    | nil => rfl
    | cons c l ih =>
      obtain ⟨hc, hl⟩ := List.forall_mem_cons.mp hl
      rw [List.flatMap_cons, Shell.substitute_append, Shell.substitute_append,
        substitute_utf8EncodeChar hc, ih hl, List.flatMap_cons, List.flatMap_append]
  have hescaped : ∀ c ∈ (String.ofList (escaped s)).toList, 32 ≤ c.toNat := by
    intro d hd
    rw [String.toList_ofList] at hd
    obtain ⟨c, hc, hdc⟩ := List.mem_flatMap.mp hd
    have hge := h c hc
    by_cases hplain : IsPlain c
    · rw [escapeChar_plain hplain, List.mem_singleton] at hdc
      rw [hdc]
      exact hge
    have hspecial : c = '"' ∨ c = '\\' := by
      unfold IsPlain at hplain
      tauto
    have hall : (['"', '\\'].flatMap escapeChar).all (fun d => decide (32 ≤ d.toNat))
      = true := by decide
    exact of_decide_eq_true
      (List.all_eq_true.mp hall d (List.mem_flatMap.mpr ⟨c, by simpa using hspecial, hdc⟩))
  have hcapture := newline_notMem_of_control hescaped
  rw [Str.asBytes, String.toList_ofList] at hcapture
  rw [sedQuote, Str.asBytes, hsub _ h, Shell.capture_of_notMem hcapture]

/-! ### The texts that need no quoting -/

theorem isPlain_of_hexdigit {c : Char} (h : Str.isAsciiHexdigit c = true) : IsPlain c := by
  have hge := Str.le_toNat_of_isAsciiHexdigit h
  refine ⟨by omega, ?_, ?_⟩
  · rintro rfl
    exact absurd h (by decide)
  · rintro rfl
    exact absurd h (by decide)

theorem isPlain_of_isHex40 (h : isHex40 s = true) : ∀ c ∈ s.toList, IsPlain c :=
  fun c hc => isPlain_of_hexdigit (List.all_eq_true.mp (Bool.and_eq_true_iff.mp h).2 c hc)

theorem isPlain_of_isLowerHex64 (h : isLowerHex64 s = true) : ∀ c ∈ s.toList, IsPlain c := by
  intro c hc
  have hhex := List.all_eq_true.mp (Bool.and_eq_true_iff.mp h).2 c hc
  exact isPlain_of_hexdigit (Bool.and_eq_true_iff.mp hhex).1

theorem isPlain_of_isUuidText (h : IsUuidText s) : ∀ c ∈ s.toList, IsPlain c := by
  refine forall_of_isUuidText (fun c hc => isPlain_of_hexdigit hc) ?_ h
  have hall : ('{' :: '}' :: '-' :: "urn:uuid:".toList).all
      (fun c => decide (32 ≤ c.toNat ∧ c ≠ '"' ∧ c ≠ '\\')) = true := by decide
  intro c hc
  have h := of_decide_eq_true (List.all_eq_true.mp hall c hc)
  exact h

theorem isPlain_of_hexBytes (l : List UInt8) :
    ∀ c ∈ (String.ofList (l.flatMap FixedBytes.hexByte)).toList, IsPlain c := by
  intro c hc
  rw [String.toList_ofList] at hc
  obtain ⟨b, _, hcb⟩ := List.mem_flatMap.mp hc
  have hlower := FixedBytes.hexByte_isLowerHexdigit b c hcb
  refine isPlain_of_hexdigit ?_
  simp only [FixedBytes.isLowerHexdigit, Str.isAsciiHexdigit, Bool.or_eq_true,
    Bool.and_eq_true] at hlower ⊢
  tauto

/-- A name of accepted octets has no control character. -/
theorem control_of_accepted {u : PushedRef} (h : u.Accepted) :
    ∀ c ∈ u.refName.toList, 32 < c.toNat := by
  intro c hc
  by_cases hascii : c.toNat < 128
  · have hb := h.octets _ (Str.mem_asBytes_of_ascii hc hascii)
    rw [not_or, UInt8.not_le, UInt8.lt_iff_toNat_lt,
      UInt8.toNat_ofNat_of_lt' (by simp [UInt8.size]; omega)] at hb
    exact hb.1
  · omega

/-! ### The body is the text of the request -/

/-- What the script holds for an update the relay is to read. -/
def HookRefUpdate.toHookRef (r : HookRefUpdate) : HookRef where
  oldOid := Str.asBytes r.oldOid
  newOid := Str.asBytes r.newOid
  refName := Str.asBytes r.refName
  isAncestor := r.isAncestor

/-- An update whose texts the hook handles. -/
structure HookRefUpdate.Accepted (r : HookRefUpdate) : Prop where
  oldOid : isHex40 r.oldOid = true
  newOid : isHex40 r.newOid = true
  named : r.refName ≠ ""
  control : ∀ c ∈ r.refName.toList, 32 < c.toNat

theorem jsonEntry_toHookRef {r : HookRefUpdate} (h : r.Accepted) :
    jsonEntry r.toHookRef = (Json.text r.toJson).flatMap String.utf8EncodeChar := by
  have hname := sedQuote_asBytes fun c hc => Nat.le_of_lt (h.control c hc)
  rw [text_entry, escaped_plain (isPlain_of_isHex40 h.oldOid),
    escaped_plain (isPlain_of_isHex40 h.newOid)]
  simp only [jsonEntry, HookRefUpdate.toHookRef, hname, List.flatMap_append, List.append_assoc]
  rfl

theorem jsonEntry_ne_nil (r : HookRef) : jsonEntry r ≠ [] := by
  have hopen : Str.asBytes "\x7b\"old_oid\":\"" ≠ [] := by decide
  simp [jsonEntry, hopen]

/-- The entries after the first, each behind its comma. -/
theorem foldl_entries : ∀ (rs : List HookRef) {acc : List UInt8}, acc ≠ [] →
    rs.foldl (fun acc r => (if acc ≠ [] then acc ++ Str.asBytes "," else acc) ++ jsonEntry r) acc
      = acc ++ rs.flatMap fun r => Str.asBytes "," ++ jsonEntry r
  | [], acc, _ => by simp
  | r :: rs, acc, h => by
    rw [List.foldl_cons, if_pos h, foldl_entries rs (by simp [jsonEntry_ne_nil]), List.flatMap_cons]
    simp only [List.append_assoc]

theorem itemsText_false_entries : ∀ {rs : List HookRefUpdate}, (∀ r ∈ rs, r.Accepted) →
    (Json.itemsText false (rs.map HookRefUpdate.toJson)).flatMap String.utf8EncodeChar
      = (rs.map HookRefUpdate.toHookRef).flatMap fun r => Str.asBytes "," ++ jsonEntry r
  | [], _ => by simp [Json.itemsText]
  | r :: rs, h => by
    obtain ⟨hr, hrs⟩ := List.forall_mem_cons.mp h
    have hcomma : ([','] : List Char).flatMap String.utf8EncodeChar = Str.asBytes "," := by decide
    rw [List.map_cons, List.map_cons, Json.itemsText, List.flatMap_cons, jsonEntry_toHookRef hr,
      ← itemsText_false_entries hrs, comma, if_neg (by decide), List.flatMap_append,
      List.flatMap_append, hcomma, List.append_assoc]

theorem refsJson_eq {rs : List HookRefUpdate} (h : ∀ r ∈ rs, r.Accepted) :
    refsJson (rs.map HookRefUpdate.toHookRef)
      = (Json.itemsText true (rs.map HookRefUpdate.toJson)).flatMap String.utf8EncodeChar := by
  cases rs with
  | nil => simp [refsJson, Json.itemsText]
  | cons r rs =>
    obtain ⟨hr, hrs⟩ := List.forall_mem_cons.mp h
    rw [List.map_cons, List.map_cons, Json.itemsText_cons, refsJson, List.foldl_cons,
      if_neg (by simp), List.nil_append, foldl_entries _ (jsonEntry_ne_nil _), List.flatMap_append,
      itemsText_false_entries hrs, jsonEntry_toHookRef hr]

/-- An update with what the hook found out about it. -/
def PushedRef.toUpdate (mergeBase : List UInt8 → List UInt8 → Bool) (u : PushedRef) :
    HookRefUpdate where
  oldOid := u.oldOid
  newOid := u.newOid
  refName := u.refName
  isAncestor :=
    (readRef mergeBase [Str.asBytes u.oldOid, Str.asBytes u.newOid,
      Str.asBytes u.refName]).isAncestor

theorem PushedRef.Accepted.toUpdate {mergeBase : List UInt8 → List UInt8 → Bool} {u : PushedRef}
    (h : u.Accepted) : (u.toUpdate mergeBase).Accepted :=
  ⟨h.oldOid, h.newOid, h.named, control_of_accepted h⟩

/-- What the relay is to read for a push. -/
def HookPush.request (mac : List UInt8 → List UInt8 → List UInt8)
    (mergeBase : List UInt8 → List UInt8 → Bool) (p : HookPush) : HookCallbackRequest where
  repoId := p.repoId
  repoOwner := p.repoOwner
  communityId := p.communityId
  pusherPubkey := p.pusherPubkey
  refUpdates := p.updates.map (PushedRef.toUpdate mergeBase)
  timestamp := p.timestamp
  signature := p.signature mac mergeBase

/-! ### Phase 1 reads the updates back -/

/-- A word of a line: not empty, and nothing in it separates or protects. -/
structure Word (w : List UInt8) : Prop where
  ne_nil : w ≠ []
  octets : ∀ b ∈ w, 32 < b.toNat

theorem Word.notMem {w : List UInt8} (h : Word w) {b : UInt8} (hb : b.toNat ≤ 32) : b ∉ w := by
  intro hmem
  have hgt := h.octets b hmem
  omega

theorem word_asBytes (hne : s ≠ "") (h : ∀ c ∈ s.toList, 32 < c.toNat) : Word (Str.asBytes s) := by
  refine ⟨fun hnil => hne (Str.asBytes_eq_nil hnil), fun b hb => ?_⟩
  by_cases hascii : b.toNat < 128
  · obtain ⟨c, hc, hcb⟩ := Str.ascii_of_mem_asBytes hb hascii
    have hgt := h c hc
    omega
  · omega

theorem word_of_isHex40 (h : isHex40 s = true) : Word (Str.asBytes s) := by
  have hlen : Str.len s = 40 := by simpa using (Bool.and_eq_true_iff.mp h).1
  refine word_asBytes ?_ fun c hc => ?_
  · rintro rfl
    exact absurd hlen (by decide)
  · have hge := Str.le_toNat_of_isAsciiHexdigit
        (List.all_eq_true.mp (Bool.and_eq_true_iff.mp h).2 c hc)
    omega

theorem Word.solid {w ifs : List UInt8} (h : Word w) (hifs : ∀ b ∈ ifs, b.toNat ≤ 32) (p : Bool) :
    Shell.Solid ifs (w.map fun b => (b, p)) :=
  Shell.solid_map (fun b hb hmem => by
    have hgt := h.octets b hb
    have hle := hifs b hmem
    omega) p

/-- The three variables of a line of git's. -/
theorem fields_update {old new name : List UInt8} (hold : Word old) (hnew : Word new)
    (hname : Word name) : Shell.fields defaultIfs 3
        ((old ++ Str.asBytes " " ++ new ++ Str.asBytes " " ++ name).map fun b => (b, false))
      = [old, new, name] := by
  have hblank : Str.asBytes " " = [32] := by decide
  have hsep : Shell.isSeparator defaultIfs (32, false) = true := by decide
  have hifs : ∀ b ∈ defaultIfs, b.toNat ≤ 32 := List.forall_iff_forall_mem.mp (by decide)
  have hmap : ∀ w : List UInt8, (w.map fun b => (b, false)).map Prod.fst = w := fun w => by
    rw [List.map_map]
    exact List.map_id w
  rw [hblank]
  simp only [List.map_append, List.map_cons, List.append_assoc, List.cons_append, List.nil_append]
  rw [Shell.fields_succ (hold.solid hifs false) (by simpa using hold.ne_nil) hsep,
    Shell.fields_cons hsep,
    Shell.fields_succ (hnew.solid hifs false) (by simpa using hnew.ne_nil) hsep,
      Shell.fields_cons hsep,
    Shell.fields_last (hname.solid hifs false), hmap, hmap, hmap]

/-- **Phase 1 reads every update as git wrote it.** -/
theorem readRefs_receivePackInput {mergeBase : List UInt8 → List UInt8 → Bool}
    {updates : List PushedRef} (h : ∀ u ∈ updates, u.Accepted) :
    readRefs mergeBase (receivePackInput updates)
      = (updates.map (PushedRef.toUpdate mergeBase)).map HookRefUpdate.toHookRef := by
  have hword : ∀ u ∈ updates, Word (Str.asBytes u.oldOid) ∧ Word (Str.asBytes u.newOid)
      ∧ Word (Str.asBytes u.refName) := fun u hu =>
    ⟨word_of_isHex40 (h u hu).oldOid, word_of_isHex40 (h u hu).newOid,
      word_asBytes (h u hu).named (control_of_accepted (h u hu))⟩
  have hline : ∀ u ∈ updates, Shell.newline ∉ Str.asBytes u.oldOid ++ Str.asBytes " "
      ++ Str.asBytes u.newOid ++ Str.asBytes " " ++ Str.asBytes u.refName := by
    intro u hu
    have hblank : Shell.newline ∉ Str.asBytes " " := by decide
    obtain ⟨hold, hnew, hname⟩ := hword u hu
    simp [hold.notMem (b := Shell.newline) (by decide),
      hnew.notMem (b := Shell.newline) (by decide),
      hname.notMem (b := Shell.newline) (by decide), hblank]
  have hraw : ∀ l : List UInt8, Shell.marks true false l = (l.map fun b => (b, false), false) :=
    fun l => Shell.marks_plain true (.inl rfl)
  rw [readRefs, Shell.readLoop, receivePackInput, Shell.scan_unlines ?lines, List.map_map,
    List.map_map, List.map_map, List.map_map]
  case lines =>
    intro l hl
    obtain ⟨u, hu, rfl⟩ := List.mem_map.mp hl
    exact ⟨hline u hu, by rw [hraw]⟩
  refine List.map_congr_left fun u hu => ?_
  obtain ⟨hold, hnew, hname⟩ := hword u hu
  simp only [Function.comp_apply, hraw, fields_update hold hnew hname]
  rfl

/-- **The body is the text of the request.** -/
theorem HookPush.body_eq (mac : List UInt8 → List UInt8 → List UInt8)
    (mergeBase : List UInt8 → List UInt8 → Bool) {p : HookPush} (hp : p.WellFormed) :
    p.body mac mergeBase
      = Str.asBytes (String.ofList (Json.text (p.request mac mergeBase).toJson)) := by
  have hrefs : ∀ r ∈ p.updates.map (PushedRef.toUpdate mergeBase), r.Accepted := by
    intro r hr
    obtain ⟨u, hu, rfl⟩ := List.mem_map.mp hr
    exact (hp.updates u hu).toUpdate
  have hid := sedQuote_asBytes hp.repoId
  have hrefsJson := refsJson_eq hrefs
  have hsignature : escaped (p.signature mac mergeBase) = (p.signature mac mergeBase).toList :=
    escaped_plain (isPlain_of_hexBytes _)
  rw [Str.asBytes, String.toList_ofList, text_request]
  simp only [HookPush.request]
  rw [escaped_plain (isPlain_of_isLowerHex64 hp.repoOwner),
    escaped_plain (isPlain_of_isUuidText hp.communityId),
    escaped_plain (isPlain_of_isLowerHex64 hp.pusherPubkey), hsignature]
  simp only [HookPush.body, scriptBody, HookPush.env, readRefs_receivePackInput hp.updates,
    hid, hrefsJson, List.flatMap_append, List.append_assoc]
  rfl

/-- **The relay reads the request the hook means.** -/
theorem HookPush.ofBody_body {num : List Char → Option JsonNumber}
    (hnum : ∀ n < UInt64.size, num n.repr.toList = some (.ofNat n))
    (mac : List UInt8 → List UInt8 → List UInt8) (mergeBase : List UInt8 → List UInt8 → Bool)
    {p : HookPush} (hp : p.WellFormed) :
    HookCallbackRequest.ofBody num (p.body mac mergeBase) = some (p.request mac mergeBase) := by
  have hentries : ∀ rs : List HookRefUpdate,
      Json.AllNumbersItems (fun n => num n.text.toList = some n) (rs.map HookRefUpdate.toJson)
        ∧ Json.levelsItems (rs.map HookRefUpdate.toJson) ≤ 1 := by
    intro rs
    induction rs with
    | nil => simp [Json.AllNumbersItems, Json.levelsItems]
    | cons r rs ih =>
      simp [Json.AllNumbersItems, Json.levelsItems, HookRefUpdate.toJson, Json.AllNumbers,
        Json.levels, Json.AllNumbersFields, Json.levelsFields, ih.1, ih.2]
  obtain ⟨hn, hl⟩ := hentries (p.request mac mergeBase).refUpdates
  have htime := hnum (p.request mac mergeBase).timestamp.toNat (UInt64.toNat_lt_size _)
  have hparse : Json.parse num 128 (Json.text (p.request mac mergeBase).toJson)
      = some (p.request mac mergeBase).toJson := by
    refine Json.parse_text ?_ ?_
    · simp only [HookCallbackRequest.toJson, Json.AllNumbers, Json.AllNumbersFields, hn,
        and_true, true_and]
      exact htime
    · simp only [HookCallbackRequest.toJson, Json.levels, Json.levelsFields]
      omega
  rw [HookCallbackRequest.ofBody, HookPush.body_eq mac mergeBase hp, Str.fromUtf8_asBytes]
  simp only [Option.bind_eq_bind, Option.bind_some, String.toList_ofList]
  rw [hparse, Option.bind_some, HookCallbackRequest.ofJson_toJson]

end Pkzz.Git
