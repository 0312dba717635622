import Pkzz.ReadState.Budget

/-!
# What trimming and splitting leave

The estimate that `trimContextsToBudget` works with is never larger than what leaving an entry out
saves, as long as one entry stays, and it is exact for a key of ASCII characters that JSON writes as
they are. So what is kept fits unless every message and thread is gone, and a split whose channels
fit fits as a whole. A key that takes more octets than its UTF-16 length is counted too low, and
then later entries are dropped that would have fitted.
-/

namespace Pkzz.ReadState

open Pkzz.Lib

/-! ## Sizes -/

def textBytes (l : List Char) : Nat := (l.map Char.utf8Size).sum

theorem textBytes_append (l m : List Char) : textBytes (l ++ m) = textBytes l + textBytes m := by
  rw [textBytes, List.map_append, List.sum_append, ← textBytes, ← textBytes]

theorem textBytes_cons (c : Char) (l : List Char) :
    textBytes (c :: l) = c.utf8Size + textBytes l := by
  rw [textBytes, List.map_cons, List.sum_cons, ← textBytes]

/-- The octets of a key between its quotes. -/
def keyBytes (key : String) : Nat := textBytes (key.toList.flatMap escapeChar)

/-- The octets of an entry with the comma in front of it. -/
def weight (e : String × Nat) : Nat := keyBytes e.1 + 4 + e.2.repr.length

theorem utf8Size_ascii {c : Char} (h : c.toNat < 128) : c.utf8Size = 1 := by
  unfold Char.utf8Size
  rw [if_pos]
  exact UInt32.le_iff_toNat_le.mpr (Nat.le_of_lt_succ h)

theorem textBytes_ascii : ∀ {l : List Char}, (∀ c ∈ l, c.toNat < 128) → textBytes l = l.length
  | [], _ => rfl
  | c :: l, h => by
    obtain ⟨hc, hl⟩ := List.forall_mem_cons.mp h
    rw [textBytes_cons, utf8Size_ascii hc, textBytes_ascii hl, List.length_cons]
    omega

theorem textBytes_repr (n : Nat) : textBytes n.repr.toList = n.repr.length := by
  refine (textBytes_ascii ?_).trans String.length_toList
  intro c hc
  rw [Nat.toList_repr] at hc
  have hdigit := isDigit_toDigits c hc
  simp only [Char.isDigit, ge_iff_le, Bool.and_eq_true, decide_eq_true_eq] at hdigit
  have h57 : c.toNat ≤ 57 := UInt32.le_iff_toNat_le.mp hdigit.2
  omega

/-- The fields of the contexts. -/
def contextFields (es : List (String × Nat)) : List (String × Json) := es.map fun e =>
    (e.1, .num (.ofNat e.2))

theorem textBytes_field (first : Bool) (e : String × Nat) (es : List (String × Nat)) :
    textBytes (Json.fieldsText first (contextFields (e :: es))) + (if first then 1 else 0) =
      weight e + textBytes (Json.fieldsText false (contextFields es)) := by
  have hquote : textBytes ['"'] = 1 := rfl
  have hcolon : (':' : Char).utf8Size = 1 := rfl
  have hopen : ('"' : Char).utf8Size = 1 := rfl
  rw [contextFields, List.map_cons, ← contextFields, Json.fieldsText]
  simp only [textBytes_append, textBytes_cons, quote, Json.text, JsonNumber.ofNat, textBytes_repr,
    hquote, hcolon, hopen]
  rw [weight, keyBytes]
  cases first
  · have hcomma : textBytes (comma false) = 1 := rfl
    rw [hcomma]
    simp only [Bool.false_eq_true, if_false]
    omega
  · have hcomma : textBytes (comma true) = 0 := rfl
    rw [hcomma]
    simp only [if_true]
    omega

theorem textBytes_fields : ∀ es : List (String × Nat),
    textBytes (Json.fieldsText false (contextFields es)) = (es.map weight).sum
  | [] => rfl
  | e :: es => by
    have h := textBytes_field false e es
    rw [textBytes_fields es] at h
    simpa using h

/-- A blob is a frame and its entries, each with a comma but for the first. -/
theorem blobBytes_eq (clientId : String) (contexts : Record) :
    blobBytes clientId contexts + (if contexts.entries = [] then 0 else 1) =
      blobBytes clientId .empty + (contexts.entries.map weight).sum := by
  have hframe : ∀ r : Record,
      blobBytes clientId r + textBytes (Json.fieldsText true (contextFields [])) =
      blobBytes clientId .empty + textBytes (Json.fieldsText true (contextFields r.entries)) := by
    intro r
    show textBytes _ + _ = textBytes _ + _
    simp only [blobJson, Json.text, Json.fieldsText, textBytes_append, textBytes_cons,
      OrderedMap.empty, contextFields, List.map_nil]
    omega
  have h := hframe contexts
  cases hes : contexts.entries with
  | nil =>
    rw [hes] at h
    simp only [List.map_nil, List.sum_nil, if_true]
    omega
  | cons e es =>
    have hfield := textBytes_field true e es
    rw [hes] at h
    have hnil : textBytes (Json.fieldsText true (contextFields [])) = 0 := rfl
    rw [textBytes_fields] at hfield
    simp only [if_true] at hfield
    simp only [reduceCtorEq, if_false, List.map_cons, List.sum_cons]
    omega

/-! ## The estimate -/

/-- ASCII that JSON writes as it is. -/
def IsPlain (key : String) : Prop := ∀ c ∈ key.toList, 32 ≤ c.toNat ∧ c.toNat < 128 ∧
    c ≠ '"' ∧ c ≠ '\\'

theorem escapeChar_plain {c : Char}
    (h : 32 ≤ c.toNat ∧ c.toNat < 128 ∧ c ≠ '"' ∧ c ≠ '\\') : escapeChar c = [c] := by
  have hshort : shortEscape c = none := by
    rw [shortEscape, List.lookup_eq_none_iff]
    intro p hp
    rw [bne_iff_ne]
    rintro rfl
    simp only [shortEscapes, List.mem_cons, List.not_mem_nil, or_false] at hp
    rcases hp with rfl | rfl | rfl | rfl | rfl | rfl | rfl
    · exact h.2.2.1 rfl
    · exact h.2.2.2 rfl
    all_goals exact absurd h.1 (by decide)
  rw [escapeChar, hshort]
  exact if_neg (Nat.not_lt.mpr h.1)

theorem le_textBytes_escapeChar (c : Char) :
    (if c.toNat < 0x10000 then 1 else 2) ≤ textBytes (escapeChar c) := by
  have hslash := Char.utf8Size_pos '\\'
  have hle : (if c.toNat < 0x10000 then 1 else 2) ≤ 2 := by split <;> omega
  unfold escapeChar
  cases shortEscape c with
  | some x =>
    have hx := Char.utf8Size_pos x
    dsimp only
    rw [textBytes_cons, textBytes_cons]
    omega
  | none =>
    dsimp only
    by_cases hcontrol : c.toNat < 32
    · have hu := Char.utf8Size_pos 'u'
      rw [if_pos hcontrol, textBytes_cons, textBytes_cons]
      omega
    rw [if_neg hcontrol, textBytes_cons]
    by_cases hc : c.toNat < 0x10000
    · have hpos := Char.utf8Size_pos c
      rw [if_pos hc]
      omega
    -- such a character takes four octets
    have hlarge : ∀ {n : UInt32}, n.toNat < 0x10000 → ¬ c.val ≤ n := fun hn h =>
      hc (Nat.lt_of_le_of_lt (UInt32.le_iff_toNat_le.mp h) hn)
    rw [if_neg hc, Char.utf8Size, if_neg (hlarge (by decide)), if_neg (hlarge (by decide)),
      if_neg (hlarge (by decide))]
    omega

theorem utf16Length_le_keyBytes (key : String) : utf16Length key ≤ keyBytes key := by
  unfold utf16Length keyBytes
  induction key.toList with
  | nil => exact Nat.le_refl 0
  | cons c l ih =>
    have hc := le_textBytes_escapeChar c
    rw [List.map_cons, List.sum_cons, List.flatMap_cons, textBytes_append]
    omega

theorem utf16Length_plain {key : String} (h : IsPlain key) : utf16Length key = keyBytes key := by
  unfold IsPlain at h
  unfold utf16Length keyBytes
  generalize key.toList = l at h
  induction l with
  | nil => rfl
  | cons c l ih =>
    obtain ⟨hc, hl⟩ := List.forall_mem_cons.mp h
    rw [List.map_cons, List.sum_cons, List.flatMap_cons, textBytes_append, ih hl,
      escapeChar_plain hc, if_pos (by omega), textBytes_cons, utf8Size_ascii hc.2.1]
    rfl

theorem entryBytes_le (e : String × Nat) : entryBytes e ≤ weight e := by
  have h := utf16Length_le_keyBytes e.1
  rw [entryBytes, weight]
  omega

variable {e : String × Nat}

theorem entryBytes_plain (h : IsPlain e.1) : entryBytes e = weight e := by
  rw [entryBytes, weight, utf16Length_plain h]
  omega

theorem sum_entryBytes_le : ∀ es :
    List (String × Nat), (es.map entryBytes).sum ≤ (es.map weight).sum
  | [] => Nat.le_refl 0
  | e :: es => by
    have he := entryBytes_le e
    have ih := sum_entryBytes_le es
    simp only [List.map_cons, List.sum_cons]
    omega

/-- Which entries go: as many as it takes for the estimate to be within the budget. -/
theorem toEvict_eq {maxBytes : Nat} : ∀ (es : List (String × Nat)) (currentBytes : Nat),
    ∃ n ≤ es.length, toEvict maxBytes currentBytes es = (es.take n).map Prod.fst
      ∧ (∀ i < n, maxBytes + ((es.take i).map entryBytes).sum < currentBytes)
      ∧ (n < es.length → currentBytes ≤ maxBytes + ((es.take n).map entryBytes).sum)
  | [], currentBytes => ⟨0, Nat.le_refl 0, rfl, fun i hi => absurd hi (Nat.not_lt_zero i), fun h =>
      absurd h (Nat.not_lt_zero 0)⟩
  | e :: es, currentBytes => by
    rw [toEvict]
    by_cases hfit : currentBytes ≤ maxBytes
    · refine ⟨0, Nat.zero_le
        _, by rw [if_pos hfit]; rfl, fun i hi => absurd hi (Nat.not_lt_zero i), fun _ => ?_⟩
      simpa using hfit
    obtain ⟨n, hn, heq, hover, hstop⟩ := toEvict_eq es (currentBytes - entryBytes e)
    refine ⟨n + 1, Nat.succ_le_succ hn, by rw [if_neg hfit, heq]; rfl, ?_, ?_⟩
    · intro i hi
      cases i with
      | zero => simpa using hfit
      | succ i =>
        have h := hover i (Nat.lt_of_succ_lt_succ hi)
        rw [List.take_succ_cons, List.map_cons, List.sum_cons]
        omega
    · intro hlt
      have h := hstop (Nat.lt_of_succ_lt_succ hlt)
      rw [List.take_succ_cons, List.map_cons, List.sum_cons]
      omega

/-! ## Leaving entries out -/

/-- The contexts without the given entries. -/
def without (contexts : Record) (es : List (String × Nat)) : Record :=
  (es.map Prod.fst).foldl OrderedMap.erase contexts

variable {contexts : Record}

theorem get_without {es : List (String × Nat)} {k : String} :
    (without contexts es).get k = if k ∈ es.map Prod.fst then none else contexts.get k :=
  get_foldl_erase

theorem sum_erase (f : String × Nat → Nat) (he : e ∈ contexts.entries) :
    ((contexts.erase e.1).entries.map f).sum + f e = (contexts.entries.map f).sum := by
  have hall : ∀ es : List (String × Nat), (es.map Prod.fst).Nodup → e ∈ es →
      ((es.filter fun e' => decide (e'.1 ≠ e.1)).map f).sum + f e = (es.map f).sum := by
    intro es
    induction es with
    | nil => intro _ he; cases he
    | cons e' es ih =>
      intro hnd he
      rw [List.map_cons, List.nodup_cons] at hnd
      rcases List.mem_cons.mp he with rfl | he
      · rw [List.filter_cons_of_neg (by simp), OrderedMap.filter_ne_of_notMem hnd.1, List.map_cons,
          List.sum_cons]
        omega
      have hne : e'.1 ≠ e.1 := fun heq => hnd.1 (heq ▸ List.mem_map_of_mem he)
      have hrest := ih hnd.2 he
      rw [List.filter_cons_of_pos (by simpa using hne), List.map_cons, List.sum_cons, List.map_cons,
        List.sum_cons]
      omega
  exact hall contexts.entries contexts.nodup he

/-- What stays and what goes add up. -/
theorem sum_without (f : String × Nat → Nat) : ∀ {es : List (String × Nat)} {contexts : Record},
    (es.map Prod.fst).Nodup → (∀ e ∈ es, e ∈ contexts.entries) →
      ((without contexts es).entries.map f).sum + (es.map f).sum = (contexts.entries.map f).sum
  | [], contexts, _, _ => by simp [without]
  | e :: es, contexts, hnd, h => by
    rw [List.map_cons, List.nodup_cons] at hnd
    obtain ⟨he, hes⟩ := List.forall_mem_cons.mp h
    have hrest : ∀ e' ∈ es, e' ∈ (contexts.erase e.1).entries := by
      intro e' he'
      have hne : e'.1 ≠ e.1 := fun heq => hnd.1 (heq ▸ List.mem_map_of_mem he')
      exact List.mem_filter.mpr ⟨hes e' he', by simpa using hne⟩
    have ih := sum_without f hnd.2 hrest
    have hone := sum_erase f he
    rw [List.map_cons, List.sum_cons]
    show (((without (contexts.erase e.1) es).entries.map f).sum) + _ = _
    omega

/-- Leaving entries out saves their weight, as long as something stays. -/
theorem blobBytes_without {clientId : String} {es : List (String × Nat)}
    (hnd : (es.map Prod.fst).Nodup) (h : ∀ e ∈ es, e ∈ contexts.entries) (he : e ∈ contexts.entries)
    (hstays : e.1 ∉ es.map Prod.fst) :
    blobBytes clientId (without contexts es) + (es.map weight).sum =
      blobBytes clientId contexts := by
  have hkept : (without contexts es).entries ≠ [] := by
    intro hnil
    have hget : (without contexts es).get e.1 = some e.2 := by
      rw [get_without, if_neg hstays]
      exact OrderedMap.mem_entries.mp he
    have hmem := OrderedMap.mem_entries.mpr hget
    rw [hnil] at hmem
    cases hmem
  have hsome : contexts.entries ≠ [] := List.ne_nil_of_mem he
  have hsum := sum_without weight hnd h
  have h1 := blobBytes_eq clientId (without contexts es)
  have h2 := blobBytes_eq clientId contexts
  rw [if_neg hkept] at h1
  rw [if_neg hsome] at h2
  omega

/-- The size depends on the entries alone. -/
theorem blobBytes_congr {clientId : String} {r r' : Record} (h : ∀ k, r.get k = r'.get k) :
    blobBytes clientId r = blobBytes clientId r' := by
  have hperm : r.entries.Perm r'.entries := by
    refine (List.perm_ext_iff_of_nodup (List.Nodup.of_map _ r.nodup)
      (List.Nodup.of_map _ r'.nodup)).mpr ?_
    rintro ⟨k, v⟩
    rw [OrderedMap.mem_entries, OrderedMap.mem_entries, h]
  have h1 := blobBytes_eq clientId r
  have h2 := blobBytes_eq clientId r'
  have hsum : (r.entries.map weight).sum = (r'.entries.map weight).sum := (hperm.map weight).sum_nat
  have hnil : r.entries = [] ↔ r'.entries = [] := by
    constructor <;> intro hn
    · rw [hn] at hperm
      exact List.nil_perm.mp hperm
    · rw [hn] at hperm
      exact List.perm_nil.mp hperm
  by_cases hn : r.entries = []
  · rw [if_pos hn] at h1
    rw [if_pos (hnil.mp hn)] at h2
    omega
  · rw [if_neg hn] at h1
    rw [if_neg fun hn' => hn (hnil.mpr hn')] at h2
    omega

/-! ## The order of eviction -/

def isMsgKey (key : String) : Bool := Str.startsWith key msgPrefix

def isThreadKey (key : String) : Bool :=
  !Str.startsWith key msgPrefix && Str.startsWith key threadPrefix

theorem mem_evictionOrder :
    e ∈ evictionOrder contexts ↔ e ∈ contexts.entries ∧ isChannelKey e.1 = false := by
  unfold evictionOrder oldestFirst isChannelKey
  rw [List.mem_append, List.mem_insertionSort, List.mem_insertionSort, List.mem_filter,
    List.mem_filter]
  cases Str.startsWith e.1 msgPrefix <;> cases Str.startsWith e.1 threadPrefix <;> simp

theorem evictionOrder_nodup (contexts : Record) :
    ((evictionOrder contexts).map Prod.fst).Nodup := by
  unfold evictionOrder oldestFirst
  have hperm := (List.perm_insertionSort (fun a b : String × Nat => a.2 ≤ b.2)
      (contexts.entries.filter fun e => Str.startsWith e.1 msgPrefix)).append
    (List.perm_insertionSort (fun a b : String × Nat => a.2 ≤ b.2) (contexts.entries.filter fun e =>
      !Str.startsWith e.1 msgPrefix && Str.startsWith e.1 threadPrefix))
  refine (hperm.map Prod.fst).nodup_iff.mpr ?_
  rw [List.map_append, List.nodup_append]
  refine ⟨contexts.nodup.sublist (List.Sublist.map _ List.filter_sublist),
    contexts.nodup.sublist (List.Sublist.map _ List.filter_sublist), ?_⟩
  rintro k hk k' hk' rfl
  obtain ⟨e, he, rfl⟩ := List.mem_map.mp hk
  obtain ⟨e', he', heq⟩ := List.mem_map.mp hk'
  have hmsg := (List.mem_filter.mp he).2
  have hthread := (List.mem_filter.mp he').2
  rw [heq, hmsg] at hthread
  cases hthread

/-- The first of two entries goes before the second. -/
def GoesBefore (e e' : String × Nat) : Prop :=
  (isMsgKey e'.1 = true → isMsgKey e.1 = true ∧ e.2 ≤ e'.2)
    ∧ (isThreadKey e'.1 = true → isThreadKey e.1 = true → e.2 ≤ e'.2)

theorem evictionOrder_pairwise (contexts : Record) :
    (evictionOrder contexts).Pairwise GoesBefore := by
  have hmsg : ∀ e ∈ oldestFirst (contexts.entries.filter fun e => Str.startsWith e.1 msgPrefix),
      isMsgKey e.1 = true :=
    fun e he => (List.mem_filter.mp ((List.mem_insertionSort _).mp he)).2
  have hthread : ∀ e ∈ oldestFirst (contexts.entries.filter fun e =>
      !Str.startsWith e.1 msgPrefix && Str.startsWith e.1 threadPrefix), isThreadKey e.1 = true :=
    fun e he => (List.mem_filter.mp ((List.mem_insertionSort _).mp he)).2
  have hnot : ∀ {k : String}, isThreadKey k = true → isMsgKey k = false := by
    intro k hk
    unfold isThreadKey at hk
    rw [Bool.and_eq_true, Bool.not_eq_true'] at hk
    exact hk.1
  have hsorted : ∀ es : List (String × Nat), (oldestFirst es).Pairwise fun a b => a.2 ≤ b.2 :=
    fun es => List.pairwise_insertionSort _ es
  unfold evictionOrder
  rw [List.pairwise_append]
  refine ⟨?_, ?_, ?_⟩
  · refine (hsorted _).imp_of_mem fun he he' hle => ⟨fun _ => ⟨hmsg _ he, hle⟩, fun _ _ => hle⟩
  · refine (hsorted _).imp_of_mem fun he he' hle => ⟨fun hm => ?_, fun _ _ => hle⟩
    rw [hnot (hthread _ he')] at hm
    cases hm
  · intro e he e' he'
    refine ⟨fun hm => ?_, fun _ ht => ?_⟩
    · rw [hnot (hthread _ he')] at hm
      cases hm
    · have hm := hmsg _ he
      rw [hnot ht] at hm
      cases hm

/-! ## What trimming does -/

/--
What trimming should leave. `Exact` says for which entries, left out so far, the next one may not go
if it fits.
-/
structure Trims (Exact : List (String × Nat) → Prop) (contexts : Record) (clientId : String)
    (maxBytes : Nat) : Prop where
  kept : (trimContextsToBudget contexts clientId maxBytes).1 =
    without contexts ((evictionOrder contexts).take
      (trimContextsToBudget contexts clientId maxBytes).2.evicted)
  evicted : (trimContextsToBudget contexts clientId maxBytes).2.evicted ≤
    (evictionOrder contexts).length
  channels : ∀ k, isChannelKey k = true →
    (trimContextsToBudget contexts clientId maxBytes).1.get k = contexts.get k
  oldest_first : ∀ e ∈ contexts.entries, ∀ e' ∈ contexts.entries,
    (trimContextsToBudget contexts clientId maxBytes).1.get e.1 = none →
    (trimContextsToBudget contexts clientId maxBytes).1.get e'.1 = some e'.2 → GoesBefore e e'
  unchanged : blobBytes clientId contexts ≤ maxBytes →
    (trimContextsToBudget contexts clientId maxBytes).1 = contexts
  /-- An entry goes only if keeping it, and what went after it, would not have fitted. -/
  no_waste : ∀ i < (trimContextsToBudget contexts clientId maxBytes).2.evicted,
    Exact ((evictionOrder contexts).take i) →
    maxBytes < blobBytes clientId (without contexts ((evictionOrder contexts).take i))
  fits : (trimContextsToBudget contexts clientId maxBytes).2.fitsAfterTrim = true ↔
    blobBytes clientId (trimContextsToBudget contexts clientId maxBytes).1 ≤ maxBytes
  gives_up : (trimContextsToBudget contexts clientId maxBytes).2.fitsAfterTrim = false →
    ∀ k, isChannelKey k = false → (trimContextsToBudget contexts clientId maxBytes).1.get k = none

section Trim

variable {contexts : Record} {clientId : String} {maxBytes : Nat}

/-- How far trimming goes. -/
theorem trim_eq (contexts : Record) (clientId : String) (maxBytes : Nat) :
    ∃ n ≤ (evictionOrder contexts).length,
    trimContextsToBudget contexts clientId maxBytes =
      (without contexts ((evictionOrder contexts).take n),
      ⟨n, decide (blobBytes clientId (without contexts ((evictionOrder contexts).take n)) ≤
        maxBytes)⟩)
    ∧ (∀ i < n, maxBytes + (((evictionOrder contexts).take i).map entryBytes).sum <
      blobBytes clientId contexts)
    ∧ (n < (evictionOrder contexts).length →
      blobBytes clientId contexts ≤
        maxBytes + (((evictionOrder contexts).take n).map entryBytes).sum) := by
  unfold trimContextsToBudget
  by_cases hfit : blobBytes clientId contexts ≤ maxBytes
  · refine ⟨0, Nat.zero_le _, ?_, fun i hi => absurd hi (Nat.not_lt_zero i),
      fun _ => by simpa using hfit⟩
    dsimp only
    rw [if_pos hfit, List.take_zero, without, List.map_nil, List.foldl_nil, decide_eq_true hfit]
  obtain ⟨n, hn, heq, hover, hstop⟩ :=
    @toEvict_eq maxBytes (evictionOrder contexts) (blobBytes clientId contexts)
  refine ⟨n, hn, ?_, hover, hstop⟩
  have hlen : ((evictionOrder contexts).take n).length = n := by
    rw [List.length_take]
    omega
  simp only [if_neg hfit, heq, List.length_map, hlen]
  rfl

theorem take_nodup (n : Nat) : (((evictionOrder contexts).take n).map Prod.fst).Nodup :=
  (evictionOrder_nodup contexts).sublist (List.Sublist.map _ (List.take_sublist n _))

theorem mem_take {n : Nat} {e : String × Nat} (h : e ∈ (evictionOrder contexts).take n) :
    e ∈ contexts.entries :=
  (mem_evictionOrder.mp (List.mem_of_mem_take h)).1

/-- The next entry to go is none of those that went. -/
theorem next_notMem {n : Nat} (h : n < (evictionOrder contexts).length) :
    ((evictionOrder contexts)[n]).1 ∉ ((evictionOrder contexts).take n).map Prod.fst := by
  intro hmem
  obtain ⟨e, he, heq⟩ := List.mem_map.mp hmem
  obtain ⟨j, hj, hje⟩ := List.mem_take_iff_getElem.mp he
  have hnd := evictionOrder_nodup contexts
  have hlt : j < (evictionOrder contexts).length := by omega
  have hmapped : ((evictionOrder contexts).map Prod.fst).length = (evictionOrder contexts).length :=
    List.length_map _
  have hsame := (@List.Nodup.getElem_inj_iff _ _ hnd j (by omega) n (by omega)).mp (by
    rw [List.getElem_map, List.getElem_map, hje, heq])
  omega

/-- As long as a message or a thread stays, the real size is what its entries leave. -/
theorem blobBytes_take {n : Nat} (h : n < (evictionOrder contexts).length) :
    blobBytes clientId (without contexts ((evictionOrder contexts).take n))
      + (((evictionOrder contexts).take n).map weight).sum = blobBytes clientId contexts :=
  blobBytes_without (take_nodup n) (fun _ he =>
    mem_take he) (mem_evictionOrder.mp (List.getElem_mem h)).1 (next_notMem h)

theorem sum_plain {es : List (String × Nat)} (h : ∀ e ∈ es, IsPlain e.1) :
    (es.map entryBytes).sum = (es.map weight).sum := by
  rw [List.map_congr_left fun e he => entryBytes_plain (h e he)]

/-- What went goes before what stays. -/
theorem goesBefore_of_without {n : Nat} {e e' : String × Nat} (he : e ∈ contexts.entries)
    (he' : e' ∈ contexts.entries)
    (hgone : (without contexts ((evictionOrder contexts).take n)).get e.1 = none)
    (hkept : (without contexts ((evictionOrder contexts).take n)).get e'.1 = some e'.2) :
    GoesBefore e e' := by
  rw [get_without] at hgone hkept
  have hpair := evictionOrder_pairwise contexts
  rw [← List.take_append_drop n (evictionOrder contexts), List.pairwise_append] at hpair
  have hfirst : e ∈ (evictionOrder contexts).take n := by
    by_cases hmem : e.1 ∈ ((evictionOrder contexts).take n).map Prod.fst
    · obtain ⟨d, hd, hde⟩ := List.mem_map.mp hmem
      have hd2 := OrderedMap.mem_entries.mp (mem_take hd)
      rw [hde, OrderedMap.mem_entries.mp he] at hd2
      rw [← (Prod.ext hde (Option.some.inj hd2).symm : d = e)]
      exact hd
    · rw [if_neg hmem, OrderedMap.mem_entries.mp he] at hgone
      cases hgone
  have hstays : e' ∉ (evictionOrder contexts).take n := by
    intro hmem
    rw [if_pos (List.mem_map_of_mem hmem)] at hkept
    cases hkept
  by_cases hchannel : isChannelKey e'.1 = true
  · unfold isChannelKey at hchannel
    rw [Bool.and_eq_true, Bool.not_eq_true', Bool.not_eq_true'] at hchannel
    refine ⟨fun hm => ?_, fun ht => ?_⟩
    · rw [isMsgKey, hchannel.1] at hm
      cases hm
    · rw [isThreadKey, hchannel.2, Bool.and_false] at ht
      cases ht
  · have hmem : e' ∈ evictionOrder contexts := mem_evictionOrder.mpr ⟨he', by simpa using hchannel⟩
    rw [← List.take_append_drop n (evictionOrder contexts), List.mem_append] at hmem
    exact hpair.2.2 e hfirst e' (hmem.resolve_left hstays)

/-- When everything went that may go, only channels are left. -/
theorem get_without_all {k : String} (hk : isChannelKey k = false) :
    (without contexts (evictionOrder contexts)).get k = none := by
  rw [get_without]
  cases hheld : contexts.get k with
  | none => exact ite_self none
  | some t =>
    have hmem : (k, t) ∈ evictionOrder contexts :=
      mem_evictionOrder.mpr ⟨OrderedMap.mem_entries.mpr hheld, hk⟩
    exact if_pos (List.mem_map_of_mem hmem)

/-- Trimming stops early only where the blob fits. -/
theorem fits_of_stop {n : Nat} (hlt : n < (evictionOrder contexts).length)
    (hstop : blobBytes clientId contexts ≤
      maxBytes + (((evictionOrder contexts).take n).map entryBytes).sum) :
    blobBytes clientId (without contexts ((evictionOrder contexts).take n)) ≤ maxBytes := by
  have hreal := @blobBytes_take contexts clientId n hlt
  have hle := sum_entryBytes_le ((evictionOrder contexts).take n)
  omega

/-- **What trimming does.** -/
theorem trims (contexts : Record) (clientId : String) (maxBytes : Nat) :
    Trims (fun es => ∀ e ∈ es, IsPlain e.1) contexts clientId maxBytes := by
  obtain ⟨n, hn, htrim, hover, hstop⟩ := trim_eq contexts clientId maxBytes
  constructor
  case kept => rw [htrim]
  case channels => exact fun k hk => get_trim_of_isChannelKey hk
  case unchanged =>
    intro hfit
    unfold trimContextsToBudget
    simp only [if_pos hfit]
  all_goals
    rw [htrim]
    dsimp only
  case evicted => exact hn
  case oldest_first => exact fun e he e' he' hgone hkept => goesBefore_of_without he he' hgone hkept
  case no_waste =>
    intro i hi hplain
    have hreal := @blobBytes_take contexts clientId i (Nat.lt_of_lt_of_le hi hn)
    have hest := hover i hi
    rw [sum_plain hplain] at hest
    omega
  case fits => exact decide_eq_true_iff
  case gives_up =>
    intro hgives k hk
    have hall : n = (evictionOrder contexts).length := by
      by_contra hne
      have hlt : n < (evictionOrder contexts).length := by omega
      exact of_decide_eq_false hgives (fits_of_stop hlt (hstop hlt))
    rw [hall, List.take_length]
    exact get_without_all hk

end Trim

/-! ## Dealing channels out -/

/-- What the `j`-th slot holds for a key. -/
def held (slots : List Record) (j : Nat) (k : String) : Option Nat :=
  slots[j]?.bind fun c => c.get k

theorem held_foldl_deal_of_notMem {count : Nat} {k : String} {es : List ((String × Nat) × Nat)}
    {slots : List Record}
    (hk : k ∉ es.map fun e => e.1.1) (j : Nat) :
    held (es.foldl (deal count) slots) j k = held slots j k := by
  unfold held
  cases hc : slots[j]? with
  | none =>
    have hlen := List.getElem?_eq_none_iff.mp hc
    rw [List.getElem?_eq_none_iff.mpr (by rw [length_foldl_deal]; exact hlen)]
  | some c =>
    obtain ⟨c', hc', hget⟩ := foldl_deal_keeps hk hc
    rw [hc', Option.bind_some, Option.bind_some, hget]

theorem held_deal {count : Nat} {e : (String × Nat) × Nat} {slots : List Record}
    (hlen : slots.length = count)
    (hpos : 0 < count) (hproto : e.1.1 ≠ "__proto__") (j : Nat) (k : String) :
    held (deal count slots e) j k =
      if e.2 % count = j ∧ k = e.1.1 then some e.1.2 else held slots j k := by
  have hlt : e.2 % count < slots.length := by
    rw [hlen]
    exact Nat.mod_lt _ hpos
  unfold held deal
  rw [List.getElem?_modify]
  by_cases hj : e.2 % count = j
  · subst hj
    rw [List.getElem?_eq_getElem hlt, Option.map_eq_map, Option.map_some, Option.bind_some]
    simp only [if_true, Record.get_assign, true_and, ne_eq, hproto, not_false_eq_true, and_true]
    rfl
  · simp only [if_neg hj, if_neg fun h : e.2 % count = j ∧ k = e.1.1 => hj h.1]
    cases slots[j]? <;> rfl

/-- Each channel goes to the slot its turn says, and to no other. -/
theorem held_foldl_deal {count : Nat} (hpos : 0 < count) :
    ∀ {es : List ((String × Nat) × Nat)} {slots : List Record}
    {e : (String × Nat) × Nat}, slots.length = count → (es.map fun e => e.1.1).Nodup → e ∈ es →
    e.1.1 ≠ "__proto__" →
    ∀ j, held (es.foldl (deal count) slots) j e.1.1 = if e.2 % count = j then
      some e.1.2 else held slots j e.1.1
  | [], _, _, _, _, he, _, _ => by cases he
  | e' :: es, slots, e, hlen, hnd, he, hproto, j => by
    rw [List.map_cons, List.nodup_cons] at hnd
    have hlen' : (deal count slots e').length = count := by
      rw [← hlen]
      exact List.length_modify ..
    rw [List.foldl_cons]
    rcases List.mem_cons.mp he with rfl | he
    · rw [held_foldl_deal_of_notMem hnd.1, held_deal hlen hpos hproto]
      simp only [and_true]
    rw [held_foldl_deal hpos hlen' hnd.2 he hproto]
    have hne : e.1.1 ≠ e'.1.1 := fun heq =>
      hnd.1 (heq ▸ List.mem_map_of_mem (f := fun e => e.1.1) he)
    by_cases hproto' : e'.1.1 = "__proto__"
    · -- nothing is assigned
      have hsame : held (deal count slots e') j e.1.1 = held slots j e.1.1 := by
        unfold held deal
        rw [List.getElem?_modify]
        cases slots[j]? with
        | none => rfl
        | some c =>
          rw [Option.map_eq_map, Option.map_some, Option.bind_some, Option.bind_some]
          split
          · exact Record.get_assign_of_ne hne
          · rfl
      rw [hsame]
    · rw [held_deal hlen hpos hproto', if_neg fun h : e'.2 % count = j ∧ e.1.1 = e'.1.1 => hne h.2]

/-- The loop stops at the first number of slots that fits. -/
theorem exceeds_growSlotCount {exceeds : Nat → Bool} : ∀ {spare slotCount : Nat},
    exceeds (growSlotCount exceeds slotCount spare) = true ↔
      ∀ count, slotCount ≤ count → count ≤ slotCount + spare → exceeds count = true
  | 0, slotCount => by
    rw [growSlotCount]
    constructor
    · intro h count hle hge
      rw [Nat.le_antisymm hge hle]
      exact h
    · exact fun h => h slotCount (Nat.le_refl _) (Nat.le_refl _)
  | spare + 1, slotCount => by
    rw [growSlotCount]
    by_cases hex : exceeds slotCount = true
    · rw [if_pos hex, exceeds_growSlotCount]
      constructor
      · intro h count hle hge
        rcases Nat.lt_or_eq_of_le hle with hlt | rfl
        · exact h count hlt (by omega)
        · exact hex
      · exact fun h count hle hge => h count (by omega) (by omega)
    · rw [if_neg hex]
      constructor
      · exact fun h => absurd h hex
      · exact fun h => absurd (h slotCount (Nat.le_refl _) (by omega)) hex

/-! ## What splitting does -/

def channelsOf (contexts : Record) : List (String × Nat) := contexts.entries.filter fun e =>
    isChannelKey e.1

def markersOf (contexts : Record) : List (String × Nat) := contexts.entries.filter fun e =>
    !isChannelKey e.1

/-- The channels, dealt out to so many slots, fit. -/
def Fits (contexts : Record) (clientId : String) (maxBytes count : Nat) : Prop :=
  ∀ c ∈ distribute (channelsOf contexts) count, blobBytes clientId c ≤ maxBytes

instance (contexts : Record) (clientId : String) (maxBytes count : Nat) :
    Decidable (Fits contexts clientId maxBytes count) :=
  inferInstanceAs (Decidable (∀ c ∈ _, _))

/-- What a split should be, `Named` being the channels that it has to hold. -/
structure Splits (Named : String → Prop) (contexts : Record) (clientId : String)
    (initialSlotCount maxBytes : Nat) (result : SlotSplitResult) : Prop where
  once : ∀ k t, Named k → isChannelKey k = true → contexts.get k = some t →
    ∃ j, held result.slots j k = some t ∧ ∀ j', j' ≠ j → held result.slots j' k = none
  primary : ∀ j k t, held result.slots j k = some t → isChannelKey k = false → j = 0
  fits : ∀ c ∈ result.slots, blobBytes clientId c ≤ maxBytes
  length : result.slots.length = initialSlotCount + result.extraSlotIds.length

section Split

variable {contexts : Record} {clientId : String} {initialSlotCount maxSlots maxBytes : Nat}
    {slotIdGenerator : Nat → String}
  {result : SlotSplitResult}

theorem held_empty {count j : Nat} {k : String} :
    held (List.replicate count (.empty : Record)) j k = none := by
  unfold held
  cases hc : (List.replicate count (.empty : Record))[j]? with
  | none => rfl
  | some c =>
    rw [(List.mem_replicate.mp (List.mem_of_getElem? hc)).2]
    rfl

theorem channelsOf_nodup (contexts : Record) : ((channelsOf contexts).map Prod.fst).Nodup :=
  contexts.nodup.sublist (List.Sublist.map _ List.filter_sublist)

/-- The slots hold channels only. -/
theorem held_distribute {count j : Nat} {k : String} {t : Nat}
    (h : held (distribute (channelsOf contexts) count) j k = some t) : isChannelKey k = true := by
  obtain ⟨c, hc, hk⟩ := Option.bind_eq_some_iff.mp h
  rcases of_foldl_deal hc hk with ⟨hmem, _⟩ | ⟨c', hc', hget⟩
  · rw [map_fst_zipIdx] at hmem
    exact (List.mem_filter.mp hmem).2
  · rw [(List.mem_replicate.mp (List.mem_of_getElem? hc')).2] at hget
    cases hget

theorem distribute_once {count : Nat} (hpos : 0 < count) {k : String} {t : Nat}
    (hproto : k ≠ "__proto__") (hk : isChannelKey k = true) (hget : contexts.get k = some t) :
    ∃ j, held (distribute (channelsOf contexts) count) j k = some t
      ∧ ∀ j', j' ≠ j → held (distribute (channelsOf contexts) count) j' k = none := by
  have hmem : (k, t) ∈ channelsOf contexts :=
    List.mem_filter.mpr ⟨OrderedMap.mem_entries.mpr hget, hk⟩
  rw [← map_fst_zipIdx (channelsOf contexts)] at hmem
  obtain ⟨e, he, hekt⟩ := List.mem_map.mp hmem
  have hnd : ((channelsOf contexts).zipIdx.map fun e => e.1.1).Nodup := by
    have hmap : ((channelsOf contexts).zipIdx.map fun e => e.1.1) =
        (channelsOf contexts).map Prod.fst := by
      rw [← map_fst_zipIdx (channelsOf contexts), List.map_map, map_fst_zipIdx]
      rfl
    rw [hmap]
    exact channelsOf_nodup contexts
  have hek : e.1.1 = k := by rw [hekt]
  have het : e.1.2 = t := by rw [hekt]
  have hall := @held_foldl_deal count hpos _
      (List.replicate count .empty) e List.length_replicate hnd he (by rw [hek]; exact hproto)
  rw [hek, het] at hall
  refine ⟨e.2 % count, ?_, fun j' hj' => ?_⟩
  · rw [distribute, hall, if_pos rfl]
  · rw [distribute, hall, if_neg fun h => hj' h.symm, held_empty]

/-- The messages and threads that slot 0 takes leave its channels as they are. -/
theorem get_primary {c : Record} {k : String} (hk : isChannelKey k = true) :
    (trimContextsToBudget (c.assignAll (markersOf contexts)) clientId maxBytes).1.get k =
    c.get k := by
  rw [get_trim_of_isChannelKey hk, Record.get_assignAll_of_notMem]
  intro hmem
  obtain ⟨e, he, rfl⟩ := List.mem_map.mp hmem
  have hnot := (List.mem_filter.mp he).2
  rw [hk] at hnot
  cases hnot

/-- A slot whose channels fit still fits with what trimming leaves of the messages and threads. -/
theorem primary_fits {c : Record} (hchannels : ∀ k t, c.get k = some t → isChannelKey k = true)
    (hfit : blobBytes clientId c ≤ maxBytes) :
    blobBytes clientId (trimContextsToBudget
      (c.assignAll (markersOf contexts)) clientId maxBytes).1 ≤ maxBytes := by
  have htrims := trims (c.assignAll (markersOf contexts)) clientId maxBytes
  cases hfits : (trimContextsToBudget
    (c.assignAll (markersOf contexts)) clientId maxBytes).2.fitsAfterTrim with
  | true => exact htrims.fits.mp hfits
  | false =>
    -- every message and thread went, and the channels are what they were
    have hsame : ∀ k, (trimContextsToBudget
        (c.assignAll (markersOf contexts)) clientId maxBytes).1.get k = c.get k := by
      intro k
      by_cases hk : isChannelKey k = true
      · exact get_primary hk
      have hk : isChannelKey k = false := by simpa using hk
      rw [htrims.gives_up hfits k hk]
      cases hget : c.get k with
      | none => rfl
      | some t =>
        rw [hchannels k t hget] at hk
        cases hk
    rw [blobBytes_congr hsame]
    exact hfit

theorem held_modify (slots : List Record) (f : Record → Record) (j : Nat) (k : String) :
    held (slots.modify 0 f) j k = if j = 0 then
      slots[j]?.bind (fun c => (f c).get k) else held slots j k := by
  unfold held
  rw [List.getElem?_modify]
  by_cases hj : j = 0
  · subst hj
    cases slots[0]? <;> simp
  rw [if_neg hj]
  cases slots[j]? with
  | none => rfl
  | some c => simp [Ne.symm hj]

/-- **A split holds each channel once and fits.** -/
theorem splits (hpos : 0 < initialSlotCount)
    (h : splitContextsIntoBudgetedSlots (channelsOf contexts) (markersOf contexts)
      clientId initialSlotCount maxSlots maxBytes slotIdGenerator = some result) :
    Splits (fun k => k ≠ "__proto__") contexts clientId initialSlotCount maxBytes result := by
  have hlength := split_length h
  unfold splitContextsIntoBudgetedSlots at h
  dsimp only at h
  generalize hcount : growSlotCount _ initialSlotCount (maxSlots - initialSlotCount) = count at h
  have hle : initialSlotCount ≤ count := by
    rw [← hcount]
    exact le_growSlotCount
  split at h
  · cases h
  rename_i hexceeds
  have hfits : Fits contexts clientId maxBytes count := by
    intro c hc
    rw [Bool.not_eq_true, List.any_eq_false] at hexceeds
    have hle := hexceeds c hc
    rw [decide_eq_true_eq, Nat.not_lt] at hle
    exact hle
  cases h
  have hheld : ∀ j k, isChannelKey k = true →
      held ((distribute (channelsOf contexts) count).modify 0 fun c =>
        (trimContextsToBudget (c.assignAll (markersOf contexts)) clientId maxBytes).1) j k =
      held (distribute (channelsOf contexts) count) j k := by
    intro j k hk
    rw [held_modify]
    split
    · simp only [get_primary hk]
      rfl
    · rfl
  constructor
  · intro k t hproto hk hget
    obtain ⟨j, hj, hother⟩ := distribute_once (Nat.lt_of_lt_of_le hpos hle) hproto hk hget
    refine ⟨j, ?_, fun j' hj' => ?_⟩
    · rw [hheld j k hk]
      exact hj
    · rw [hheld j' k hk]
      exact hother j' hj'
  · intro j k t hget hk
    rw [held_modify] at hget
    split at hget
    · assumption
    · rw [held_distribute hget] at hk
      cases hk
  · intro c hc
    obtain ⟨j, hj⟩ := List.mem_iff_getElem?.mp hc
    rw [List.getElem?_modify] at hj
    obtain ⟨c₀, hc₀, hcase⟩ := Option.map_eq_some_iff.mp hj
    have hmem := List.mem_of_getElem? hc₀
    by_cases hj0 : 0 = j
    · rw [if_pos hj0] at hcase
      rw [← hcase]
      refine primary_fits (fun k t hget => ?_) (hfits c₀ hmem)
      refine @held_distribute contexts count j k t ?_
      rw [held, hc₀]
      exact hget
    · rw [if_neg hj0] at hcase
      rw [← hcase]
      exact hfits c₀ hmem
  · exact hlength

/-- **A split fails only where no number of slots fits that may be tried.** -/
theorem split_eq_none :
    splitContextsIntoBudgetedSlots (channelsOf contexts) (markersOf contexts) clientId
      initialSlotCount maxSlots maxBytes slotIdGenerator = none ↔
    ∀ count, initialSlotCount ≤ count → count ≤ max initialSlotCount maxSlots →
      ¬ Fits contexts clientId maxBytes count := by
  have hexceeds : ∀ count, ((distribute (channelsOf contexts) count).any fun c =>
    decide (blobBytes clientId c > maxBytes)) = true ↔
      ¬ Fits contexts clientId maxBytes count := by
    intro count
    rw [List.any_eq_true, Fits]
    simp only [decide_eq_true_eq, gt_iff_lt, not_forall, Nat.not_le, exists_prop]
  have hmax : initialSlotCount + (maxSlots - initialSlotCount) =
      max initialSlotCount maxSlots := by omega
  have hgrow := @exceeds_growSlotCount (fun count =>
    (distribute (channelsOf contexts) count).any fun c => decide (blobBytes clientId c > maxBytes))
    (maxSlots - initialSlotCount) initialSlotCount
  simp only [hexceeds, hmax] at hgrow
  rw [← hgrow]
  unfold splitContextsIntoBudgetedSlots
  dsimp only
  rw [← hexceeds]
  split <;> simp_all

end Split

/--
**Trimming and splitting keep to the budget**: channels stay and are dealt out once, messages go
before threads and the oldest first, no more than the estimate asks for, and what is returned fits.
-/
theorem budget_spec (contexts : Record) (clientId : String) (maxBytes : Nat) :
    Trims (fun es => ∀ e ∈ es, IsPlain e.1) contexts clientId maxBytes
    ∧ ∀ initialSlotCount maxSlots slotIdGenerator, 0 < initialSlotCount →
      (∀ result, splitContextsIntoBudgetedSlots (channelsOf contexts)
        (markersOf contexts) clientId initialSlotCount
          maxSlots maxBytes slotIdGenerator = some result →
        Splits (fun k => k ≠ "__proto__") contexts clientId initialSlotCount maxBytes result)
      ∧ (splitContextsIntoBudgetedSlots (channelsOf contexts)
        (markersOf contexts) clientId initialSlotCount maxSlots
          maxBytes slotIdGenerator = none ↔
        ∀ count, initialSlotCount ≤ count → count ≤ max initialSlotCount maxSlots →
          ¬ Fits contexts clientId maxBytes count) :=
  ⟨trims contexts clientId maxBytes, fun _ _ _ hpos => ⟨fun _ h => splits hpos h, split_eq_none⟩⟩

/-- Two channels and two messages; the channels alone are more than a slot of 52 octets holds. -/
def sampleContexts : Record := ⟨[("b", 7), ("msg:x", 4), ("c", 8), ("msg:y", 3)], by decide⟩

/-- The channels alone go over the budget of a slot. -/
theorem budget_spec_sample :
    ∃ result, splitContextsIntoBudgetedSlots (channelsOf sampleContexts) (markersOf sampleContexts)
      "client" 1 2 52 (fun _ => "s") = some result
    ∧ Splits (fun k => k ≠ "__proto__") sampleContexts "client" 1 52 result := by
  obtain ⟨hsome, _⟩ := (budget_spec sampleContexts "client" 52).2 1 2 (fun _ => "s") (by decide)
  have hfound : (splitContextsIntoBudgetedSlots (channelsOf sampleContexts)
      (markersOf sampleContexts) "client" 1 2 52 (fun _ => "s")).isSome = true := by decide
  obtain ⟨result, hresult⟩ := Option.isSome_iff_exists.mp hfound
  exact ⟨result, hresult, hsome result hresult⟩

/-- Two messages, the older one under a key of more octets than UTF-16 code units. -/
def accented : Record := ⟨[("msg:éé", 1), ("msg:b", 2)], by decide⟩

/-- Four channels of which the long ones meet in one of three slots, but in neither of two. -/
def crossed : Record := ⟨[("aaaaaaaa", 1), ("b", 1), ("c", 1), ("dddddddd", 1)], by decide⟩

def prototyped : Record := ⟨[("__proto__", 1)], by decide⟩

/--
Without those conditions nothing of it holds: a message is dropped that would have fitted, a channel
called `__proto__` is in no slot, and fewer slots than there are already may fit where more do not.
-/
theorem not_budget_spec :
    (¬ ∀ contexts clientId maxBytes, Trims (fun _ => True) contexts clientId maxBytes)
    ∧ (¬ ∀ contexts clientId initialSlotCount maxSlots maxBytes slotIdGenerator result,
      0 < initialSlotCount →
      splitContextsIntoBudgetedSlots (channelsOf contexts)
        (markersOf contexts) clientId initialSlotCount maxSlots
        maxBytes slotIdGenerator = some result →
      Splits (fun _ => True) contexts clientId initialSlotCount maxBytes result)
    ∧ ¬ ∀ contexts clientId initialSlotCount maxSlots maxBytes slotIdGenerator,
      0 < initialSlotCount → splitContextsIntoBudgetedSlots (channelsOf contexts)
        (markersOf contexts) clientId initialSlotCount maxSlots maxBytes slotIdGenerator = none →
      ∀ count, 0 < count → count ≤ maxSlots → ¬ Fits contexts clientId maxBytes count := by
  refine ⟨fun h => ?_, fun h => ?_, fun h => ?_⟩
  · have hwaste := (h accented "c" 46).no_waste 1 (by decide) trivial
    exact absurd hwaste (by decide)
  · have hfound : (splitContextsIntoBudgetedSlots (channelsOf prototyped) (markersOf prototyped)
        "c" 1 1 100 (fun _ => "s")).isSome = true := by decide
    obtain ⟨result, hresult⟩ := Option.isSome_iff_exists.mp hfound
    obtain ⟨j, hj, _⟩ :=
      (h prototyped "c" 1 1 100 (fun _ =>
      "s") result (by decide) hresult).once "__proto__" 1 trivial (by decide) (by decide)
    -- no slot holds the key
    obtain ⟨c, hc, hget⟩ := Option.bind_eq_some_iff.mp hj
    exact (of_split hresult (List.mem_of_getElem? hc) hget).2 rfl
  · exact h crossed "c" 3 3 55 (fun _ =>
      "s") (by decide) (by decide) 2 (by decide) (by decide) (by decide)

end Pkzz.ReadState
