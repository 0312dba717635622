import Mathlib.Order.WithBot
import Pkzz.Lib.Register

/-!
# Last version wins

A table of records, one for each key, that is offered records and keeps the one of the
greatest stamp. Only the stamp decides: of two records with one stamp the first to come
stays. Where records of one key and one stamp are equal, what the table holds depends on
the set of records it was offered alone.

Two tables are brought level by sending each the records that its stamps are behind on.
-/

namespace Pkzz.Lib.LastWins

variable {K R V : Type} [DecidableEq K] [LinearOrder V] (key : R → K) (stamp : R → V)

/-- What a key holds after a record of it was offered. -/
def newer (held : Option R) (r : R) : Option R :=
  match held with
  | none => some r
  | some h => if stamp r ≤ stamp h then some h else some r

/-- The table after one record was offered. -/
def offer (t : K → Option R) (r : R) : K → Option R :=
  fun k => if key r = k then newer stamp (t k) r else t k

def offerAll (t : K → Option R) (rs : List R) : K → Option R := rs.foldl (offer key stamp) t

/-- The stamp of what a key holds. -/
def level (held : Option R) : WithBot V := held.elim ⊥ fun r => (stamp r : WithBot V)

/-- The stamps of the records, each offered to its key. -/
def stamps (rs : List R) : List (K × WithBot V) := rs.map fun r => (key r, (stamp r : WithBot V))

variable {key stamp} {t t' : K → Option R} {r x y : R} {rs rs' : List R} {k : K}

omit [LinearOrder V] in
@[simp] theorem level_none : level stamp (none : Option R) = ⊥ := rfl

omit [LinearOrder V] in
@[simp] theorem level_some : level stamp (some r) = (stamp r : WithBot V) := rfl

omit [DecidableEq K] [LinearOrder V] in
theorem stamps_cons :
    stamps key stamp (r :: rs) = (key r, (stamp r : WithBot V)) :: stamps key stamp rs := rfl

@[simp] theorem offerAll_nil : offerAll key stamp t [] = t := rfl

theorem offerAll_cons :
    offerAll key stamp t (r :: rs) = offerAll key stamp (offer key stamp t r) rs := rfl

theorem offerAll_append :
    offerAll key stamp t (rs ++ rs') = offerAll key stamp (offerAll key stamp t rs) rs' :=
  List.foldl_append

/-- A key is only touched by the records of it. -/
theorem offerAll_congr_key (h : t k = t' k) :
    offerAll key stamp t rs k = offerAll key stamp t' rs k := by
  induction rs generalizing t t' with
  | nil => exact h
  | cons r rs ih =>
    rw [offerAll_cons, offerAll_cons]
    refine ih ?_
    rw [offer, offer, h]

/-! ## Stamps -/

theorem level_newer (held : Option R) :
    level stamp (newer stamp held r) = level stamp held ⊔ (stamp r : WithBot V) := by
  cases held with
  | none => simp [newer]
  | some h =>
    rw [newer]
    by_cases hle : stamp r ≤ stamp h
    · rw [if_pos hle, level_some, sup_eq_left.mpr (WithBot.coe_le_coe.mpr hle)]
    · rw [if_neg hle, level_some, level_some,
        sup_eq_right.mpr (WithBot.coe_le_coe.mpr (le_of_not_ge hle))]

/-- A table holds, for each key, the greatest stamp it held or was offered. -/
theorem level_offerAll (k : K) :
    level stamp (offerAll key stamp t rs k) =
      level stamp (t k) ⊔ joined (stamps key stamp rs) k := by
  induction rs generalizing t with
  | nil => simp [stamps]
  | cons r rs ih =>
    rw [offerAll_cons, ih, stamps_cons, joined, offer]
    by_cases hk : key r = k
    · rw [if_pos hk, if_pos hk, level_newer, sup_assoc]
    · rw [if_neg hk, if_neg hk]

/-! ## Records -/

/-- The records a table held or was offered. -/
def Known (t : K → Option R) (rs : List R) (r : R) : Prop := (∃ k, t k = some r) ∨ r ∈ rs

/-- A known record of a key that no known record of it exceeds. -/
structure IsLatest (key : R → K) (stamp : R → V) (known : R → Prop) (k : K) (r : R) : Prop where
  isKnown : known r
  key_eq : key r = k
  latest : ∀ y, known y → key y = k → stamp y ≤ stamp r

/-- A record lies under its own key. -/
def Keyed (key : R → K) (t : K → Option R) : Prop := ∀ k r, t k = some r → key r = k

/-- Known records of one key and one stamp are equal. -/
def Consistent (key : R → K) (stamp : R → V) (known : R → Prop) : Prop :=
  ∀ x y, known x → known y → key x = key y → stamp x = stamp y → x = y

omit [DecidableEq K] in
theorem Consistent.unique {known : R → Prop} (hc : Consistent key stamp known)
    (hx : IsLatest key stamp known k x) (hy : IsLatest key stamp known k y) : x = y := by
  refine hc x y hx.isKnown hy.isKnown ?_ ?_
  · rw [hx.key_eq, hy.key_eq]
  · exact le_antisymm (hy.latest x hx.isKnown hx.key_eq) (hx.latest y hy.isKnown hy.key_eq)

theorem newer_eq_some {held : Option R} (h : newer stamp held r = some x) :
    held = some x ∨ x = r := by
  cases held with
  | none => exact .inr (Option.some.inj h).symm
  | some y =>
    rw [newer] at h
    split at h
    · exact .inl h
    · exact .inr (Option.some.inj h).symm

theorem Keyed.offer (hk : Keyed key t) (r : R) : Keyed key (offer key stamp t r) := by
  intro k x h
  rw [LastWins.offer] at h
  split at h
  · rename_i hr
    rcases newer_eq_some h with ht | hx
    · exact hk k x ht
    · rw [hx, hr]
  · exact hk k x h

theorem Keyed.offerAll (hk : Keyed key t) (rs : List R) : Keyed key (offerAll key stamp t rs) := by
  induction rs generalizing t with
  | nil => exact hk
  | cons r rs ih => exact ih (hk.offer r)

/-- Nothing is made up. -/
theorem known_of_offerAll (h : offerAll key stamp t rs k = some x) : t k = some x ∨ x ∈ rs := by
  induction rs generalizing t with
  | nil => exact .inl h
  | cons r rs ih =>
    rcases ih h with ht | hx
    · rw [offer] at ht
      split at ht
      · rcases newer_eq_some ht with hheld | hxr
        · exact .inl hheld
        · rw [hxr]
          exact .inr List.mem_cons_self
      · exact .inl ht
    · exact .inr (List.mem_cons_of_mem _ hx)

/-- What is known of a key does not exceed what the table holds for it. -/
theorem le_level_of_known (hk : Keyed key t) (hy : Known t rs y) :
    (stamp y : WithBot V) ≤ level stamp (offerAll key stamp t rs (key y)) := by
  rw [level_offerAll]
  rcases hy with ⟨k, ht⟩ | hrs
  · rw [hk k y ht, ht, level_some]
    exact le_sup_left
  · refine le_sup_of_le_right (le_joined ?_)
    exact List.mem_map.mpr ⟨y, hrs, rfl⟩

/-- The table holds a latest record of each key it knows one of. -/
theorem isLatest_of_offerAll (hk : Keyed key t) (h : offerAll key stamp t rs k = some x) :
    IsLatest key stamp (Known t rs) k x where
  isKnown := (known_of_offerAll h).imp (fun ht => ⟨k, ht⟩) id
  key_eq := hk.offerAll rs k x h
  latest := by
    intro y hy hyk
    have hle : (stamp y : WithBot V) ≤ level stamp (offerAll key stamp t rs (key y)) :=
      le_level_of_known hk hy
    rw [hyk, h, level_some] at hle
    exact WithBot.coe_le_coe.mp hle

/-- **Last version wins.** Among records of which the stamp says everything, the table holds
the latest one of each key. -/
theorem offerAll_eq_some_iff (hk : Keyed key t) (hc : Consistent key stamp (Known t rs)) :
    offerAll key stamp t rs k = some x ↔ IsLatest key stamp (Known t rs) k x := by
  refine ⟨isLatest_of_offerAll hk, fun hx => ?_⟩
  have hle : (stamp x : WithBot V) ≤ level stamp (offerAll key stamp t rs (key x)) :=
    le_level_of_known hk hx.isKnown
  rw [hx.key_eq] at hle
  -- something is held, and it is a latest record too
  cases h : offerAll key stamp t rs k with
  | none =>
    rw [h] at hle
    exact absurd (le_bot_iff.mp hle) (WithBot.coe_ne_bot)
  | some y => rw [hc.unique hx (isLatest_of_offerAll hk h)]

/-- The order, the batches and the repetitions of the offers do not matter. -/
theorem offerAll_congr (hk : Keyed key t) (hc : Consistent key stamp (Known t rs))
    (h : ∀ r, r ∈ rs ↔ r ∈ rs') : offerAll key stamp t rs = offerAll key stamp t rs' := by
  have hknown : Known t rs = Known t rs' := funext fun r => propext (or_congr Iff.rfl (h r))
  funext k
  refine Option.ext fun x => ?_
  rw [offerAll_eq_some_iff hk hc, offerAll_eq_some_iff hk (hknown ▸ hc), hknown]

/-! ## Sending what the other side is behind on -/

/-- The records of a table that are newer than the stamps given for their keys. -/
def Missing (key : R → K) (stamp : R → V) (t : K → Option R) (behind : K → WithBot V)
    (rs : List R) : Prop :=
  ∀ r, r ∈ rs ↔ t (key r) = some r ∧ behind (key r) < (stamp r : WithBot V)

/-- A table that is offered what it was behind on, at some earlier time or now, reaches the
greater stamp of the two. -/
theorem Missing.level_offerAll {behind : K → WithBot V} (hm : Missing key stamp t' behind rs)
    (hk : Keyed key t') (hb : behind k ≤ level stamp (t k)) :
    level stamp (offerAll key stamp t rs k) = level stamp (t k) ⊔ level stamp (t' k) := by
  rw [LastWins.level_offerAll]
  refine le_antisymm (sup_le_sup_left (joined_le ?_) _) (sup_le le_sup_left ?_)
  · intro v hv
    obtain ⟨r, hr, hrv⟩ := List.mem_map.mp hv
    obtain ⟨hrk, rfl⟩ := Prod.mk.inj hrv
    rw [← hrk, ((hm r).mp hr).1, level_some]
  · cases ht : t' k with
    | none => exact bot_le
    | some r =>
      have hrk : key r = k := hk k r ht
      rw [level_some]
      by_cases hlt : behind k < (stamp r : WithBot V)
      · -- it was sent
        refine le_sup_of_le_right (le_joined ?_)
        have hr : r ∈ rs := (hm r).mpr ⟨by rw [hrk]; exact ht, by rw [hrk]; exact hlt⟩
        exact List.mem_map.mpr ⟨r, hr, by rw [hrk]⟩
      · exact le_sup_of_le_left (le_trans (not_lt.mp hlt) hb)

omit [DecidableEq K] in
/-- Nothing is sent to a side that is behind on nothing. -/
theorem Missing.eq_nil_iff {behind : K → WithBot V} (hm : Missing key stamp t behind rs)
    (hk : Keyed key t) : rs = [] ↔ ∀ k, level stamp (t k) ≤ behind k := by
  constructor
  · intro h k
    cases ht : t k with
    | none => exact bot_le
    | some r =>
      rw [level_some]
      by_contra hlt
      have hrk : key r = k := hk k r ht
      have hr : r ∈ rs := (hm r).mpr ⟨by rw [hrk]; exact ht, by rw [hrk]; exact not_le.mp hlt⟩
      rw [h] at hr
      cases hr
  · intro h
    refine List.eq_nil_iff_forall_not_mem.mpr fun r hr => ?_
    obtain ⟨ht, hlt⟩ := (hm r).mp hr
    have hle := h (key r)
    rw [ht, level_some] at hle
    exact absurd hle (not_le.mpr hlt)

end Pkzz.Lib.LastWins
