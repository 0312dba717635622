import Pkzz.Audit.Hash
import Pkzz.Lib.JsonSuffix

/-!
# What the audit preimage determines

The fields of an entry are hashed one after the other. The community, the sequence number
and the previous hash have a fixed width, and the timestamp and the action end where their
alphabets do. The actor's key, the object id and the detail have neither: nothing says
where one of them ends, only whether it is there.

So characters can move across these two boundaries. How far they can is limited by what
the next field looks like: a detail can only lose what may be cut off the front of a JSON
text (`Json.Cut`), and an object id can only lose what stands in front of a character that
reads as a presence tag. `Shift` lists what is left, and `preimage_eq_iff` shows that two
entries are hashed alike exactly if they agree or differ by such a shift.
-/

namespace Pkzz.Audit

open Pkzz.Core Pkzz.Lib

/-! ## Object id and detail -/

/-- The object id `o` followed by the detail `j` reads like `o'` followed by `j'`. -/
def Joined (o : String) (j : Json) (o' : String) (j' : Json) : Prop :=
  (o = o' ∧ j = j')
    ∨ (∃ x, o' = o ++ String.ofList x ∧ Json.Cut x j j')
    ∨ ∃ x, o = o' ++ String.ofList x ∧ Json.Cut x j' j

variable {j : Json}

theorem joined_iff {o o' : String} {j' : Json} :
    o.toList ++ j.text = o'.toList ++ j'.text ↔ Joined o j o' j' := by
  have hext : ∀ {s t : String} {x : List Char}, t.toList = s.toList ++ x →
      t = s ++ String.ofList x := by
    intro s t x h
    rw [← String.toList_inj, String.toList_append, String.toList_ofList, h]
  constructor
  · intro h
    rcases List.append_eq_append_iff.mp h with ⟨x, ho, hj⟩ | ⟨x, ho, hj⟩
    · by_cases hx : x = []
      · rw [hx, List.append_nil] at ho
        rw [hx, List.nil_append] at hj
        exact .inl ⟨(String.toList_inj.mp ho).symm, Json.text_inj hj⟩
      · exact .inr (.inl ⟨x, hext ho, (Json.text_eq_append_iff hx).mp hj⟩)
    · by_cases hx : x = []
      · rw [hx, List.append_nil] at ho
        rw [hx, List.nil_append] at hj
        exact .inl ⟨String.toList_inj.mp ho, (Json.text_inj hj).symm⟩
      · exact .inr (.inr ⟨x, hext ho, (Json.text_eq_append_iff hx).mp hj⟩)
  · intro h
    rcases h with ⟨ho, hj⟩ | ⟨x, ho, hj⟩ | ⟨x, ho, hj⟩
    · rw [ho, hj]
    · rw [ho, hj.text_eq, String.toList_append, String.toList_ofList, List.append_assoc]
    · rw [ho, hj.text_eq, String.toList_append, String.toList_ofList, List.append_assoc]

/-- The octets of an object id and a canonical detail. -/
def jsonBytes (j : Json) : List UInt8 := Str.asBytes (String.ofList j.text)

theorem asBytes_append_jsonBytes (o : String) (j : Json) :
    Str.asBytes o ++ jsonBytes j = (o.toList ++ j.text).flatMap String.utf8EncodeChar := by
  unfold jsonBytes Str.asBytes
  rw [String.toList_ofList, List.flatMap_append]

theorem flatMap_utf8EncodeChar_inj {l m : List Char}
    (h : l.flatMap String.utf8EncodeChar = m.flatMap String.utf8EncodeChar) : l = m := by
  have hs : String.ofList l = String.ofList m := by
    refine Str.asBytes_inj ?_
    unfold Str.asBytes
    rw [String.toList_ofList, String.toList_ofList]
    exact h
  exact String.ofList_injective hs

theorem bytes_joined_iff {o o' : String} {j' : Json} :
    Str.asBytes o ++ jsonBytes j = Str.asBytes o' ++ jsonBytes j' ↔ Joined o j o' j' := by
  rw [asBytes_append_jsonBytes, asBytes_append_jsonBytes, ← joined_iff]
  exact ⟨flatMap_utf8EncodeChar_inj, fun h => by rw [h]⟩

theorem jsonBytes_inj {j' : Json} (h : jsonBytes j = jsonBytes j') : j = j' := by
  unfold jsonBytes at h
  exact Json.text_inj (String.ofList_injective (Str.asBytes_inj h))

/-- With the same actor, what differs is at the boundary between object id and detail. -/
theorem objectPart_eq_iff {oa ob : Option String} {j' : Json} :
    objectPart oa ++ jsonBytes j = objectPart ob ++ jsonBytes j' ↔
      (oa = ob ∧ j = j') ∨ ∃ o o', oa = some o ∧ ob = some o' ∧ Joined o j o' j' := by
  cases oa with
  | none =>
    cases ob with
    | none =>
      constructor
      · intro h
        exact .inl ⟨rfl, jsonBytes_inj (List.cons.inj h).2⟩
      · intro h
        rcases h with ⟨_, hj⟩ | ⟨o, _, ho, _⟩
        · rw [hj]
        · cases ho
    | some o' =>
      constructor
      · intro h
        exact absurd (List.cons.inj h).1 (by decide)
      · intro h
        rcases h with ⟨ho, _⟩ | ⟨o, _, ho, _⟩
        · cases ho
        · cases ho
  | some o =>
    cases ob with
    | none =>
      constructor
      · intro h
        exact absurd (List.cons.inj h).1 (by decide)
      · intro h
        rcases h with ⟨ho, _⟩ | ⟨_, o', _, ho, _⟩
        · cases ho
        · cases ho
    | some o' =>
      constructor
      · intro h
        exact .inr ⟨o, o', rfl, rfl, bytes_joined_iff.mp (List.cons.inj h).2⟩
      · intro h
        have hjoined : Joined o j o' j' := by
          rcases h with ⟨ho, hj⟩ | ⟨p, p', hp, hp', h⟩
          · exact .inl ⟨Option.some.inj ho, hj⟩
          · rw [Option.some.inj hp, Option.some.inj hp']
            exact h
        show 1 :: (Str.asBytes o ++ jsonBytes j) = 1 :: (Str.asBytes o' ++ jsonBytes j')
        rw [bytes_joined_iff.mpr hjoined]

/-! ## Actor and object id -/

/-- A control character among the octets of an object id and a detail belongs to the object id. -/
theorem control_in_objectId {o : String} {x y : List UInt8} {c : Char} (hc : c.toNat < 32)
    (h : Str.asBytes o ++ jsonBytes j = x ++ UInt8.ofNat c.toNat :: y) :
    ∃ p z : String, o = p ++ String.singleton c ++ z ∧ x = Str.asBytes p
      ∧ y = Str.asBytes z ++ jsonBytes j := by
  have hnot : ∀ {l r : List Char}, j.text ≠ l ++ c :: r := by
    intro l r hj
    have hge := Json.text_printable j c (by rw [hj]; simp)
    omega
  rw [asBytes_append_jsonBytes] at h
  obtain ⟨p, q, hsplit, hx, hy⟩ := Str.flatMap_utf8EncodeChar_ascii (by omega) h
  rcases List.append_eq_append_iff.mp hsplit with ⟨m, _, hj⟩ | ⟨m, ho, hq⟩
  · exact absurd hj hnot
  cases m with
  | nil => exact absurd hq.symm (@hnot [] q)
  | cons d z =>
    obtain ⟨hd, hq⟩ := List.cons.inj hq
    refine ⟨String.ofList p, String.ofList z, ?_, ?_, ?_⟩
    · rw [← String.toList_inj, ho, ← hd]
      simp
    · rw [hx]
      unfold Str.asBytes
      rw [String.toList_ofList]
    · rw [asBytes_append_jsonBytes, String.toList_ofList, hy, hq]
      rfl

/-- Without an object id there is no such character. -/
theorem no_control_in_jsonBytes {x y : List UInt8} {c : Char} (hc : c.toNat < 32) :
    jsonBytes j ≠ x ++ UInt8.ofNat c.toNat :: y := by
  intro h
  have hempty : Str.asBytes "" ++ jsonBytes j = x ++ UInt8.ofNat c.toNat :: y := h
  obtain ⟨p, z, ho, _, _⟩ := control_in_objectId hc hempty
  have hlen := congrArg (fun s : String => s.toList.length) ho
  simp at hlen

/-! ## Shifts -/

/-- What `canonical_json` writes for the detail of an entry, as a value. -/
def AuditEntry.sortedDetail (e : AuditEntry) : Json := e.detail.json.sortKeys

/-- Characters that have moved towards the front from `a` to `b`. -/
inductive Shift (a b : AuditEntry) : Prop
  /-- From the detail into the object id. -/
  | object {o : String} {x : List Char} : a.actorPubkey = b.actorPubkey → a.objectId = some o →
      b.objectId = some (o ++ String.ofList x) →
        Json.Cut x a.sortedDetail b.sortedDetail → Shift a b
  /-- From the object id into the actor's key: the tag of the object id, what stands before a
  U+0001 there, which reads as the new tag, and perhaps more across the other boundary. -/
  | actor {pk : List UInt8} {p z o' : String} : a.actorPubkey = some pk →
      a.objectId = some (p ++ "\x01" ++ z) → b.actorPubkey = some (pk ++ 1 :: Str.asBytes p) →
      b.objectId = some o' → Joined z a.sortedDetail o' b.sortedDetail → Shift a b
  /-- The same before a U+0000, which reads as the tag of a missing object id. -/
  | actorOnly {pk : List UInt8} {p z : String} : a.actorPubkey = some pk →
      a.objectId = some (p ++ "\x00" ++ z) → b.actorPubkey = some (pk ++ 1 :: Str.asBytes p) →
      b.objectId = none → Joined z a.sortedDetail "" b.sortedDetail → Shift a b

/-- The fields of variable length, as they are hashed. -/
def AuditEntry.tailPart (e : AuditEntry) : List UInt8 :=
  actorPart e.actorPubkey ++ (objectPart e.objectId ++ jsonBytes e.sortedDetail)

structure SameTail (a b : AuditEntry) : Prop where
  actorPubkey : a.actorPubkey = b.actorPubkey
  objectId : a.objectId = b.objectId
  detail : a.sortedDetail = b.sortedDetail

variable {a b : AuditEntry}

/-- With the same actor. -/
theorem shift_of_objectPart (hactor : a.actorPubkey = b.actorPubkey)
    (h : objectPart a.objectId ++ jsonBytes a.sortedDetail
      = objectPart b.objectId ++ jsonBytes b.sortedDetail) : SameTail a b ∨ Shift a b ∨
        Shift b a := by
  rcases objectPart_eq_iff.mp h with ⟨ho, hj⟩ | ⟨o, o', ho, ho', hjoined⟩
  · exact .inl ⟨hactor, ho, hj⟩
  rcases hjoined with ⟨hoo, hj⟩ | ⟨x, hx, hcut⟩ | ⟨x, hx, hcut⟩
  · refine .inl ⟨hactor, ?_, hj⟩
    rw [ho, ho', hoo]
  · rw [hx] at ho'
    exact .inr (.inl (Shift.object hactor ho ho' hcut))
  · rw [hx] at ho
    exact .inr (.inr (Shift.object hactor.symm ho' ho hcut))

/-- With a longer actor in `b`. -/
theorem shift_of_actorPart {pk m : List UInt8} (hm : m ≠ [])
    (ha : a.actorPubkey = some pk) (hb : b.actorPubkey = some (pk ++ m))
    (h : objectPart a.objectId ++ jsonBytes a.sortedDetail
      = m ++ (objectPart b.objectId ++ jsonBytes b.sortedDetail)) : Shift a b := by
  -- the tag that `b` has in front of its object id is a character of the object id of `a`
  have hone : ('\x01' : Char).toNat < 32 := by decide
  have hzero : ('\x00' : Char).toNat < 32 := by decide
  obtain ⟨t, m, rfl⟩ := List.exists_cons_of_ne_nil hm
  cases hoa : a.objectId with
  | none =>
    rw [hoa] at h
    have hj := (List.cons.inj h).2
    cases hob : b.objectId with
    | none =>
      rw [hob] at hj
      exact absurd hj (no_control_in_jsonBytes hzero)
    | some o' =>
      rw [hob] at hj
      exact absurd hj (no_control_in_jsonBytes hone)
  | some o =>
    rw [hoa] at h
    obtain ⟨htag, hj⟩ := List.cons.inj h
    rw [← htag] at hb
    cases hob : b.objectId with
    | none =>
      rw [hob] at hj
      obtain ⟨p, z, ho, hmp, hrest⟩ := control_in_objectId hzero hj
      rw [hmp] at hb
      rw [ho] at hoa
      refine Shift.actorOnly ha hoa hb hob (bytes_joined_iff.mp ?_)
      rw [← hrest]
      rfl
    | some o' =>
      rw [hob] at hj
      obtain ⟨p, z, ho, hmp, hrest⟩ := control_in_objectId hone hj
      rw [hmp] at hb
      rw [ho] at hoa
      exact Shift.actor ha hoa hb hob (bytes_joined_iff.mp hrest.symm)

/-- A shift leaves the octets as they are. -/
theorem Shift.tailPart_eq (h : Shift a b) : a.tailPart = b.tailPart := by
  unfold AuditEntry.tailPart
  cases h with
  | @object o x hactor ho ho' hcut =>
    rw [hactor, objectPart_eq_iff.mpr (.inr ⟨o, _, ho, ho', .inr (.inl ⟨x, rfl, hcut⟩)⟩)]
  | @actor pk p z o' ha hoa hb hob hjoined =>
    have hbytes := bytes_joined_iff.mpr hjoined
    have htag : Str.asBytes "\x01" = [1] := by decide
    rw [ha, hoa, hb, hob]
    simp only [actorPart, objectPart, Str.asBytes_append, htag, List.cons_append, List.append_assoc,
      List.nil_append, hbytes]
  | @actorOnly pk p z ha hoa hb hob hjoined =>
    have hbytes : Str.asBytes z ++ jsonBytes a.sortedDetail = jsonBytes b.sortedDetail :=
      bytes_joined_iff.mpr hjoined
    have htag : Str.asBytes "\x00" = [0] := by decide
    rw [ha, hoa, hb, hob]
    simp only [actorPart, objectPart, Str.asBytes_append, htag, List.cons_append, List.append_assoc,
      List.nil_append, hbytes]

theorem tailPart_eq_iff :
    a.tailPart = b.tailPart ↔ SameTail a b ∨ Shift a b ∨ Shift b a := by
  constructor
  · intro h
    unfold AuditEntry.tailPart at h
    cases ha : a.actorPubkey with
    | none =>
      cases hb : b.actorPubkey with
      | none =>
        rw [ha, hb] at h
        exact shift_of_objectPart (ha.trans hb.symm) (List.cons.inj h).2
      | some pk' =>
        rw [ha, hb] at h
        exact absurd (List.cons.inj h).1 (by decide)
    | some pk =>
      cases hb : b.actorPubkey with
      | none =>
        rw [ha, hb] at h
        exact absurd (List.cons.inj h).1 (by decide)
      | some pk' =>
        rw [ha, hb] at h
        rcases List.append_eq_append_iff.mp (List.cons.inj h).2 with ⟨m, hpk, hrest⟩ |
          ⟨m, hpk, hrest⟩
        · by_cases hm : m = []
          · rw [hm, List.append_nil] at hpk
            rw [hm, List.nil_append] at hrest
            exact shift_of_objectPart (by rw [ha, hb, hpk]) hrest
          · rw [hpk] at hb
            exact .inr (.inl (shift_of_actorPart hm ha hb hrest))
        · by_cases hm : m = []
          · rw [hm, List.append_nil] at hpk
            rw [hm, List.nil_append] at hrest
            exact shift_of_objectPart (by rw [ha, hb, hpk]) hrest.symm
          · rw [hpk] at ha
            exact .inr (.inr (shift_of_actorPart hm hb ha hrest))
  · intro h
    rcases h with h | h | h
    · unfold AuditEntry.tailPart
      rw [h.actorPubkey, h.objectId, h.detail]
    · exact h.tailPart_eq
    · exact h.tailPart_eq.symm

/-! ## The preimage -/

/-- The previous hash is missing, or 32 octets that are not all zero. -/
def AuditEntry.PrevOk (e : AuditEntry) : Prop :=
  ∀ h, e.prevHash = some h → h.length = 32 ∧ h ≠ genesisHash

theorem prevPart_length {e : AuditEntry} (h : e.PrevOk) : (prevPart e.prevHash).length = 32 := by
  cases hp : e.prevHash with
  | none => rfl
  | some p => exact (h p hp).1

theorem prevPart_inj (ha : a.PrevOk) (hb : b.PrevOk)
    (h : prevPart a.prevHash = prevPart b.prevHash) : a.prevHash = b.prevHash := by
  cases hpa : a.prevHash with
  | none =>
    cases hpb : b.prevHash with
    | none => rfl
    | some q =>
      rw [hpa, hpb] at h
      exact absurd h.symm (hb q hpb).2
  | some p =>
    cases hpb : b.prevHash with
    | none =>
      rw [hpa, hpb] at h
      exact absurd h (ha p hpa).2
    | some q =>
      rw [hpa, hpb] at h
      exact congrArg some h

theorem toBeBytes_inj {m n : Int64} (h : toBeBytes m = toBeBytes n) : m = n := by
  have hlt : ∀ n : Int64, n.toUInt64.toNat < 256 ^ 8 := fun n => n.toUInt64.toNat_lt
  have hnat := FixedBytes.ofNat_inj (hlt m) (hlt n) (FixedBytes.ext h)
  have hu : m.toUInt64 = n.toUInt64 := UInt64.toNat_inj.mp hnat
  cases m
  cases n
  exact congrArg Int64.ofUInt64 hu

theorem asStr_alphabet (a : AuditAction) : ∀ b ∈ Str.asBytes a.asStr, 95 ≤ b.toNat := by
  have hall : AuditAction.all.all
    (fun a => (Str.asBytes a.asStr).all fun b => decide (95 ≤ b.toNat))
      = true := by decide
  intro b hb
  have ha := List.all_eq_true.mp hall a a.mem_all
  exact of_decide_eq_true (List.all_eq_true.mp ha b hb)

theorem asStr_head (a : AuditAction) (r : List UInt8) :
    StopsAt (fun b : UInt8 => b.toNat < 97) (Str.asBytes a.asStr ++ r) := by
  have hall : AuditAction.all.all
      (fun a => (Str.asBytes a.asStr).head?.any fun b => decide (97 ≤ b.toNat)) = true := by decide
  have ha := List.all_eq_true.mp hall a a.mem_all
  cases hs : Str.asBytes a.asStr with
  | nil =>
    rw [hs] at ha
    cases ha
  | cons c l =>
    rw [hs] at ha
    have hc : 97 ≤ c.toNat := by simpa using ha
    exact stopsAt_cons (Nat.not_lt.mpr hc)

theorem tailPart_head (e : AuditEntry) (r : List UInt8) :
    StopsAt (fun b : UInt8 => 95 ≤ b.toNat) (e.tailPart ++ r) := by
  unfold AuditEntry.tailPart
  cases e.actorPubkey with
  | none => exact stopsAt_cons (by decide)
  | some pk => exact stopsAt_cons (by decide)

/-- A timestamp ends where an action begins. -/
theorem timestamp_selfDelimiting :
    SelfDelimiting (fun _ => True) (StopsAt fun b : UInt8 => b.toNat < 97)
      fun t : {s : String // ∀ b ∈ Str.asBytes s, b.toNat < 97} => Str.asBytes t.1 :=
  SelfDelimiting.of_alphabet (fun t _ => t.2) fun _ _ _ _ h => Subtype.ext (Str.asBytes_inj h)

/-- An action ends where a presence tag stands. -/
theorem action_selfDelimiting :
    SelfDelimiting (fun _ => True) (StopsAt fun b : UInt8 => 95 ≤ b.toNat)
      fun a : AuditAction => Str.asBytes a.asStr :=
  SelfDelimiting.of_alphabet (fun a _ => asStr_alphabet a)
    fun _ _ _ _ h => AuditAction.asStr_inj (Str.asBytes_inj h)

theorem preimage_eq (e : AuditEntry) :
    e.preimage = e.communityId.bytes ++ (toBeBytes e.seq
      ++ (Str.asBytes e.createdAt.toStoragePrecision.toRfc3339
      ++ (Str.asBytes e.action.asStr ++ (e.tailPart ++ prevPart e.prevHash)))) := by
  unfold AuditEntry.preimage AuditEntry.tailPart AuditEntry.sortedDetail jsonBytes
  rw [canonicalJson_eq_text]
  simp only [List.append_assoc]

/-- The community and the number stand in front, with a fixed width. -/
theorem preimage_front (h : a.preimage = b.preimage) :
    a.communityId = b.communityId ∧ a.seq = b.seq := by
  obtain ⟨hcommunity, h⟩ := List.append_inj h (by
    rw [a.communityId.length_eq, b.communityId.length_eq])
  obtain ⟨hseq, _⟩ := List.append_inj h (by
    unfold toBeBytes
    rw [FixedBytes.length_eq, FixedBytes.length_eq])
  exact ⟨FixedBytes.ext hcommunity, toBeBytes_inj hseq⟩

/-- What the preimage says when the previous hashes have the same width. -/
theorem preimage_parts (ha : (prevPart a.prevHash).length = 32)
    (hb : (prevPart b.prevHash).length = 32) (h : a.preimage = b.preimage) :
    a.action = b.action ∧ prevPart a.prevHash = prevPart b.prevHash
      ∧ DateTime.ShownAlike a.createdAt.toStoragePrecision b.createdAt.toStoragePrecision
      ∧ (SameTail a b ∨ Shift a b ∨ Shift b a) := by
  obtain ⟨hcommunity, hseq⟩ := preimage_front h
  rw [preimage_eq, preimage_eq, hcommunity, hseq] at h
  have h := List.append_cancel_left (List.append_cancel_left h)
  obtain ⟨htime, h⟩ := @SelfDelimiting.peel _ _ _ _ _ timestamp_selfDelimiting
    ⟨_, a.createdAt.toStoragePrecision.toRfc3339_alphabet⟩
    ⟨_, b.createdAt.toStoragePrecision.toRfc3339_alphabet⟩ _ _ trivial trivial
    (asStr_head a.action _) (asStr_head b.action _) h
  obtain ⟨haction, h⟩ := action_selfDelimiting.peel trivial trivial (tailPart_head a _)
    (tailPart_head b _) h
  obtain ⟨htail, hprev⟩ := List.append_inj' h (by rw [ha, hb])
  exact ⟨haction, hprev, DateTime.toRfc3339_inj.mp (congrArg Subtype.val htime),
    tailPart_eq_iff.mp htail⟩

/-- **Two entries are hashed alike exactly if their fields of fixed form are, and their
other fields agree or differ by a shift.** -/
theorem preimage_eq_iff (ha : a.PrevOk) (hb : b.PrevOk) :
    a.preimage = b.preimage ↔
      (a.communityId = b.communityId ∧ a.seq = b.seq ∧ a.action = b.action
        ∧ a.prevHash = b.prevHash)
        ∧ DateTime.ShownAlike a.createdAt.toStoragePrecision b.createdAt.toStoragePrecision
        ∧ (SameTail a b ∨ Shift a b ∨ Shift b a) := by
  constructor
  · intro h
    obtain ⟨hcommunity, hseq⟩ := preimage_front h
    obtain ⟨haction, hprev, htime, htail⟩ :=
      preimage_parts (prevPart_length ha) (prevPart_length hb) h
    exact ⟨⟨hcommunity, hseq, haction, prevPart_inj ha hb hprev⟩, htime, htail⟩
  · intro h
    rw [preimage_eq, preimage_eq]
    obtain ⟨⟨hcommunity, hseq, haction, hprev⟩, htime, htail⟩ := h
    rw [hcommunity, hseq, haction, hprev, DateTime.toRfc3339_inj.mpr htime,
      tailPart_eq_iff.mpr htail]

/-! ## Entries that are confused -/

/-- Two entries that agree on everything the hash is meant to cover. -/
structure Agree (a b : AuditEntry) : Prop where
  communityId : a.communityId = b.communityId
  seq : a.seq = b.seq
  /-- At the precision of the store. -/
  createdAt : a.createdAt.toStoragePrecision = b.createdAt.toStoragePrecision
  action : a.action = b.action
  actorPubkey : a.actorPubkey = b.actorPubkey
  objectId : a.objectId = b.objectId
  /-- Up to the order of keys. -/
  detail : a.detail.json.sortKeys = b.detail.json.sortKeys
  prevHash : a.prevHash = b.prevHash

/-- One timestamp is a leap second on another second than 59, and the other what it is shown as. -/
def LeapConfused (a b : AuditEntry) : Prop :=
  DateTime.LeapAlias a.createdAt.toStoragePrecision b.createdAt.toStoragePrecision
    ∨ DateTime.LeapAlias b.createdAt.toStoragePrecision a.createdAt.toStoragePrecision

/-- Two different entries between which characters have moved, or a leap second is in the way. -/
structure Confused (a b : AuditEntry) : Prop where
  communityId : a.communityId = b.communityId
  seq : a.seq = b.seq
  action : a.action = b.action
  prevHash : a.prevHash = b.prevHash
  rest : (a.createdAt.toStoragePrecision = b.createdAt.toStoragePrecision ∧ (Shift a b ∨ Shift b a))
    ∨ (LeapConfused a b ∧ (SameTail a b ∨ Shift a b ∨ Shift b a))

/-- Characters that move change the actor's key or the detail. -/
theorem Shift.actor_or_detail_ne (h : Shift a b) :
    a.actorPubkey ≠ b.actorPubkey ∨ a.sortedDetail ≠ b.sortedDetail := by
  cases h with
  | object _ _ _ hcut =>
    refine .inr ?_
    intro hdetail
    have htext := hcut.text_eq
    rw [hdetail] at htext
    exact hcut.ne_nil (List.append_left_eq_self.mp htext.symm)
  | actor ha _ hb _ _ | actorOnly ha _ hb _ _ =>
    refine .inl ?_
    intro hactor
    rw [ha, hb] at hactor
    exact List.cons_ne_nil _ _ (List.self_eq_append_right.mp (Option.some.inj hactor))

theorem LeapConfused.createdAt_ne (h : LeapConfused a b) :
    a.createdAt.toStoragePrecision ≠ b.createdAt.toStoragePrecision := by
  intro htime
  rcases h with h | h
  · have hsec := h.second
    rw [htime] at hsec
    omega
  · have hsec := h.second
    rw [htime] at hsec
    omega

/-- What is confused differs in its timestamp, its actor or its detail. -/
theorem Confused.differ (h : Confused a b) :
    a.createdAt.toStoragePrecision ≠ b.createdAt.toStoragePrecision
      ∨ a.actorPubkey ≠ b.actorPubkey ∨ a.sortedDetail ≠ b.sortedDetail := by
  rcases h.rest with ⟨_, hshift | hshift⟩ | ⟨hleap, _⟩
  · exact .inr hshift.actor_or_detail_ne
  · exact .inr (hshift.actor_or_detail_ne.imp Ne.symm Ne.symm)
  · exact .inl hleap.createdAt_ne

theorem Confused.not_agree (h : Confused a b) : ¬ Agree a b := by
  intro hagree
  rcases h.differ with hne | hne | hne
  · exact hne hagree.createdAt
  · exact hne hagree.actorPubkey
  · exact hne hagree.detail

theorem Agree.preimage_eq (h : Agree a b) : a.preimage = b.preimage := by
  unfold AuditEntry.preimage
  rw [canonicalJson_eq_text, canonicalJson_eq_text, h.communityId, h.seq, h.createdAt, h.action,
    h.actorPubkey, h.objectId, h.detail, h.prevHash]

theorem Confused.preimage_eq (h : Confused a b) : a.preimage = b.preimage := by
  have hparts : DateTime.ShownAlike a.createdAt.toStoragePrecision b.createdAt.toStoragePrecision
      ∧ (SameTail a b ∨ Shift a b ∨ Shift b a) := by
    rw [DateTime.shownAlike_iff]
    rcases h.rest with ⟨htime, hshift⟩ | ⟨hleap, htail⟩
    · exact ⟨.inl htime, .inr hshift⟩
    · exact ⟨.inr hleap, htail⟩
  rw [Audit.preimage_eq, Audit.preimage_eq, h.communityId, h.seq, h.action, h.prevHash,
    DateTime.toRfc3339_inj.mpr hparts.1, tailPart_eq_iff.mpr hparts.2]

/-- Entries with one preimage and one previous hash agree or are confused. -/
theorem agree_or_confused (hprev : a.prevHash = b.prevHash)
    (ha : (prevPart a.prevHash).length = 32) (h : a.preimage = b.preimage) :
    Agree a b ∨ Confused a b := by
  obtain ⟨hcommunity, hseq⟩ := preimage_front h
  obtain ⟨haction, _, htime, htail⟩ := preimage_parts ha (hprev ▸ ha) h
  rw [DateTime.shownAlike_iff] at htime
  rcases htime with htime | hleap
  · rcases htail with htail | hshift
    · exact .inl ⟨hcommunity, hseq, htime, haction, htail.actorPubkey, htail.objectId,
        htail.detail, hprev⟩
    · exact .inr ⟨hcommunity, hseq, haction, hprev, .inl ⟨htime, hshift⟩⟩
  · exact .inr ⟨hcommunity, hseq, haction, hprev, .inr ⟨hleap, htail⟩⟩

/-- **The preimage determines the entry, except between entries that a shift or a leap second
confuses.** -/
theorem preimage_injective_iff {a b : AuditEntry} (ha : a.PrevOk) (hb : b.PrevOk) :
    (a.preimage = b.preimage → Agree a b) ↔ ¬ Confused a b := by
  constructor
  · intro h hconf
    exact hconf.not_agree (h hconf.preimage_eq)
  · intro hconf h
    have hprev := ((preimage_eq_iff ha hb).mp h).1.2.2.2
    exact (agree_or_confused hprev (prevPart_length ha) h).resolve_right hconf

/-! ## A stored entry and its forgery -/

/-- An entry of a chain, with the object id and the detail to be filled in. -/
def exampleEntry (objectId : String) (detail : Nat) : AuditEntry where
  communityId := FixedBytes.ofNat 16 1
  seq := 1
  hash := []
  prevHash := none
  action := .eventCreated
  actorPubkey := some (List.replicate 32 0xab)
  objectId := some objectId
  detail := ⟨.num (.ofNat detail), rfl⟩
  createdAt :=
    { year := 2026
      month := 1
      day := 1
      hour := 0
      minute := 0
      second := 0
      nanosecond := 0
      year_range := by decide
      month_range := by decide
      day_range := by decide
      hour_lt := by decide
      minute_lt := by decide
      second_lt := by decide
      nanosecond_lt := by decide }

theorem exampleEntry_prevOk (objectId : String) (detail : Nat) :
    (exampleEntry objectId detail).PrevOk := by
  intro h hh
  cases hh

/-- Moving a digit from the detail to the object id leaves the preimage as it is. -/
theorem not_preimage_injective : ¬ ∀ a b : AuditEntry, a.PrevOk → b.PrevOk →
    a.preimage = b.preimage → Agree a b := by
  intro h
  have hcut : Json.Cut ['1'] (exampleEntry "x" 12).sortedDetail
      (exampleEntry "x1" 2).sortedDetail :=
    Json.Cut.num (by decide) (by decide)
  have hshift : Shift (exampleEntry "x" 12) (exampleEntry "x1" 2) :=
    @Shift.object (exampleEntry "x" 12) (exampleEntry "x1" 2) "x" ['1'] rfl rfl rfl hcut
  have hsame : (exampleEntry "x" 12).preimage = (exampleEntry "x1" 2).preimage := by
    rw [preimage_eq, preimage_eq, hshift.tailPart_eq]
    rfl
  have hagree := h _ _ (exampleEntry_prevOk _ _) (exampleEntry_prevOk _ _) hsame
  exact absurd hagree.objectId (by decide)

/-- An entry that differs from another one in its object id only is hashed differently. -/
theorem preimage_injective_iff_objectId :
    (exampleEntry "x" 1).preimage ≠ (exampleEntry "y" 1).preimage := by
  intro h
  have hconf : ¬ Confused (exampleEntry "x" 1) (exampleEntry "y" 1) := by
    intro hc
    rcases hc.differ with hne | hne | hne
    · exact hne rfl
    · exact hne rfl
    · exact hne rfl
  have hagree := (preimage_injective_iff (exampleEntry_prevOk "x" 1)
      (exampleEntry_prevOk "y" 1)).mpr
    hconf h
  exact absurd hagree.objectId (by decide)

end Pkzz.Audit
