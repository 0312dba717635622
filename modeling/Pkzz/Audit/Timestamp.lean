import Pkzz.Lib.Str

/-!
# Timestamps

`chrono`'s `DateTime<Utc>` and its RFC 3339 text, as far as `buzz-audit` hashes it: reduced
to microseconds, then written with as many digits after the second as the value needs.

A `DateTime` can represent a leap second after any second, by a nanosecond count from 10⁹
on. The text shows it as the following second. After second 59 that is `:60`, which
nothing else is written as; after any other second it is the text of the ordinary second
that follows (`toRfc3339_inj`).
-/

namespace Pkzz.Audit

open Pkzz.Lib

def isLeapYear (y : Int) : Bool := y % 4 = 0 && (y % 100 ≠ 0 || y % 400 = 0)

def daysInMonth (y : Int) : Nat → Nat
  | 2 => if isLeapYear y then 29 else 28
  | 4 | 6 | 9 | 11 => 30
  | _ => 31

/-- `DateTime<Utc>`, by its civil fields. -/
structure DateTime where
  year : Int
  month : Nat
  day : Nat
  hour : Nat
  minute : Nat
  second : Nat
  /-- From 10⁹ on, the leap second after `second`. -/
  nanosecond : Nat
  year_range : -262143 ≤ year ∧ year ≤ 262142
  month_range : 1 ≤ month ∧ month ≤ 12
  day_range : 1 ≤ day ∧ day ≤ daysInMonth year month
  hour_lt : hour < 24
  minute_lt : minute < 60
  second_lt : second < 60
  nanosecond_lt : nanosecond < 2000000000

namespace DateTime

/-- `to_storage_precision`: `trunc_subsecs(6)`. -/
def toStoragePrecision (t : DateTime) : DateTime :=
  { t with
    nanosecond := t.nanosecond - t.nanosecond % 1000
    nanosecond_lt := Nat.lt_of_le_of_lt (Nat.sub_le _ _) t.nanosecond_lt }

/-- The second and the nanosecond that are written. -/
def shownSecond (t : DateTime) : Nat :=
  if t.nanosecond ≥ 1000000000 then t.second + 1 else t.second

def shownNanosecond (t : DateTime) : Nat :=
  if t.nanosecond ≥ 1000000000 then t.nanosecond - 1000000000 else t.nanosecond

def twoDigits (n : Nat) : List Char := [Nat.digitChar (n / 10), Nat.digitChar (n % 10)]

/-- Four digits, or a sign and at least four digits. -/
def yearText (y : Int) : List Char :=
  if 0 ≤ y ∧ y ≤ 9999 then twoDigits (y.toNat / 100) ++ twoDigits (y.toNat % 100)
  else (if y < 0 then '-' else '+') :: Str.zeroPadded 4 y.natAbs

/-- No digits, milliseconds, microseconds or nanoseconds. -/
def fractionText (nano : Nat) : List Char :=
  if nano = 0 then []
  else if nano % 1000000 = 0 then '.' :: Str.zeroPadded 3 (nano / 1000000)
  else if nano % 1000 = 0 then '.' :: Str.zeroPadded 6 (nano / 1000)
  else '.' :: Str.zeroPadded 9 nano

/-- `to_rfc3339`. -/
def toRfc3339 (t : DateTime) : String :=
  String.ofList (yearText t.year ++ '-' :: (twoDigits t.month ++ '-' :: (twoDigits t.day
    ++ 'T' :: (twoDigits t.hour ++ ':' :: (twoDigits t.minute
    ++ ':' :: (twoDigits t.shownSecond ++ (fractionText t.shownNanosecond
    ++ ['+', '0', '0', ':', '0', '0'])))))))

/-! ## Fields -/

theorem twoDigits_selfDelimiting : SelfDelimiting (fun n => n < 100) AnyRest twoDigits := by
  refine SelfDelimiting.of_length (fun n _ => show (twoDigits n).length = 2 from rfl) ?_
  intro m n hm hn h
  unfold twoDigits at h
  obtain ⟨hhi, h⟩ := List.cons.inj h
  have hhi := Str.digitChar_inj (by omega) (by omega) hhi
  have hlo := Str.digitChar_inj (by omega) (by omega) (List.cons.inj h).1
  omega

theorem digitChar_isDigit {d : Nat} (h : d < 10) : (Nat.digitChar d).isDigit = true := by
  have hall : ∀ d < 10, (Nat.digitChar d).isDigit = true := by decide
  exact hall d h

theorem twoDigits_isDigit {n : Nat} (h : n < 100) : ∀ c ∈ twoDigits n, c.isDigit = true := by
  intro c hc
  unfold twoDigits at hc
  rcases List.mem_cons.mp hc with hc | hc
  · rw [hc]
    exact digitChar_isDigit (by omega)
  · rw [List.mem_singleton.mp hc]
    exact digitChar_isDigit (by omega)

theorem zeroPadded_selfDelimiting (width : Nat) :
    SelfDelimiting (fun _ => True) (StopsAt fun c : Char =>
      c.isDigit = true) (Str.zeroPadded width) :=
  SelfDelimiting.of_alphabet (fun _ _ => Str.zeroPadded_isDigit) fun _ _ _ _ h =>
    Str.zeroPadded_inj h

/-- A year ends where its digits end. -/
theorem yearText_selfDelimiting :
    SelfDelimiting (fun _ => True) (StopsAt fun c : Char => c.isDigit = true) yearText := by
  intro y z r s _ _ hr hs h
  have hfirst : ∀ {n : Nat} {rest l : List Char} {c : Char}, n < 100 →
      twoDigits n ++ rest = c :: l → c.isDigit = true := by
    intro n rest l c hn he
    rw [← (List.cons.inj he).1]
    exact digitChar_isDigit (by omega)
  have hsign : ∀ y : Int, (if y < 0 then '-' else '+').isDigit = false := by
    intro y
    split <;> decide
  unfold yearText at h
  by_cases hy : 0 ≤ y ∧ y ≤ 9999 <;> by_cases hz : 0 ≤ z ∧ z ≤ 9999
  · rw [if_pos hy, if_pos hz, List.append_assoc, List.append_assoc] at h
    obtain ⟨h1, h⟩ := twoDigits_selfDelimiting.peel (by omega) (by omega) trivial trivial h
    obtain ⟨h2, h⟩ := twoDigits_selfDelimiting.peel (by omega) (by omega) trivial trivial h
    exact ⟨by omega, h⟩
  · rw [if_pos hy, if_neg hz, List.append_assoc] at h
    have hd := hfirst (by omega) h
    rw [hsign] at hd
    cases hd
  · rw [if_neg hy, if_pos hz, List.append_assoc] at h
    have hd := hfirst (by omega) h.symm
    rw [hsign] at hd
    cases hd
  · rw [if_neg hy, if_neg hz, List.cons_append, List.cons_append] at h
    obtain ⟨hs', h⟩ := List.cons.inj h
    obtain ⟨habs, h⟩ := (zeroPadded_selfDelimiting 4).peel trivial trivial hr hs h
    have hneg : y < 0 ↔ z < 0 := by
      by_cases hy0 : y < 0 <;> by_cases hz0 : z < 0
      · simp [hy0, hz0]
      · rw [if_pos hy0, if_neg hz0] at hs'
        exact absurd hs' (by decide)
      · rw [if_neg hy0, if_pos hz0] at hs'
        exact absurd hs' (by decide)
      · simp [hy0, hz0]
    exact ⟨by omega, h⟩

theorem fractionText_inj {m n : Nat} (hm : m < 1000000000) (hn : n < 1000000000)
    (h : fractionText m = fractionText n) : m = n := by
  -- the number of digits says what they count
  have hshape : ∀ n < 1000000000, ∃ w k, n = k * 10 ^ (9 - w) ∧ w ≤ 9
      ∧ fractionText n = (if w = 0 then [] else '.' :: Str.zeroPadded w k)
      ∧ (fractionText n).length = (if w = 0 then 0 else w + 1) := by
    intro n hn
    unfold fractionText
    by_cases h0 : n = 0
    · exact ⟨0, 0, by omega, by omega, by simp [h0], by simp [h0]⟩
    by_cases h3 : n % 1000000 = 0
    · refine ⟨3, n / 1000000, by omega, by omega, by simp [h0, h3], ?_⟩
      rw [if_neg h0, if_pos h3, List.length_cons, Str.length_zeroPadded (by omega) (by omega)]
      rfl
    by_cases h6 : n % 1000 = 0
    · refine ⟨6, n / 1000, by omega, by omega, by simp [h0, h3, h6], ?_⟩
      rw [if_neg h0, if_neg h3, if_pos h6, List.length_cons,
        Str.length_zeroPadded (by omega) (by omega)]
      rfl
    · refine ⟨9, n, by omega, by omega, by simp [h0, h3, h6], ?_⟩
      rw [if_neg h0, if_neg h3, if_neg h6, List.length_cons,
        Str.length_zeroPadded (by omega) (by omega)]
      rfl
  obtain ⟨v, j, hj, hv9, hmt, hml⟩ := hshape m hm
  obtain ⟨w, k, hk, hw9, hnt, hnl⟩ := hshape n hn
  have hvw : v = w := by
    rw [h, hnl] at hml
    split_ifs at hml <;> omega
  rw [hmt, hnt, hvw] at h
  by_cases hw : w = 0
  · have hzero : ∀ n < 1000000000, fractionText n = [] → n = 0 := by
      intro n _ he
      unfold fractionText at he
      by_contra hne
      rw [if_neg hne] at he
      split_ifs at he
    rw [hvw, if_pos hw] at hmt
    rw [if_pos hw] at hnt
    rw [hzero m hm hmt, hzero n hn hnt]
  · rw [if_neg hw, if_neg hw] at h
    have hjk := Str.zeroPadded_inj (List.cons.inj h).2
    rw [hj, hk, hvw, hjk]

theorem shownNanosecond_lt (t : DateTime) : t.shownNanosecond < 1000000000 := by
  have h := t.nanosecond_lt
  unfold shownNanosecond
  split_ifs <;> omega

theorem shownSecond_lt (t : DateTime) : t.shownSecond < 100 := by
  have h := t.second_lt
  unfold shownSecond
  split_ifs <;> omega

theorem day_lt (t : DateTime) : t.day < 100 := by
  have h := t.day_range.2
  have hle : daysInMonth t.year t.month ≤ 31 := by
    unfold daysInMonth
    split
    · split_ifs <;> omega
    all_goals omega
  omega

/-! ## The text -/

/-- Two timestamps that are shown alike: all fields, with a leap second read as the second after. -/
structure ShownAlike (s t : DateTime) : Prop where
  year : s.year = t.year
  month : s.month = t.month
  day : s.day = t.day
  hour : s.hour = t.hour
  minute : s.minute = t.minute
  second : s.shownSecond = t.shownSecond
  nanosecond : s.shownNanosecond = t.shownNanosecond

/-- `s` is a leap second on another second than 59, and `t` the ordinary second it is shown as. -/
structure LeapAlias (s t : DateTime) : Prop where
  year : s.year = t.year
  month : s.month = t.month
  day : s.day = t.day
  hour : s.hour = t.hour
  minute : s.minute = t.minute
  second : s.second + 1 = t.second
  nanosecond : s.nanosecond = t.nanosecond + 1000000000

@[ext] theorem ext {s t : DateTime} (hyear : s.year = t.year) (hmonth : s.month = t.month)
    (hday : s.day = t.day) (hhour : s.hour = t.hour) (hminute : s.minute = t.minute)
    (hsecond : s.second = t.second) (hnano : s.nanosecond = t.nanosecond) : s = t := by
  cases s
  cases t
  simp only at hyear hmonth hday hhour hminute hsecond hnano
  subst hyear hmonth hday hhour hminute hsecond hnano
  rfl

theorem shownAlike_iff {s t : DateTime} :
    ShownAlike s t ↔ s = t ∨ LeapAlias s t ∨ LeapAlias t s := by
  have hs := s.nanosecond_lt
  have ht := t.nanosecond_lt
  constructor
  · intro h
    have hsec := h.second
    have hnano := h.nanosecond
    unfold shownSecond at hsec
    unfold shownNanosecond at hnano
    by_cases h1 : s.nanosecond ≥ 1000000000 <;> by_cases h2 : t.nanosecond ≥ 1000000000
    · rw [if_pos h1, if_pos h2] at hsec hnano
      exact .inl (ext h.year h.month h.day h.hour h.minute (by omega) (by omega))
    · rw [if_pos h1, if_neg h2] at hsec hnano
      exact .inr (.inl ⟨h.year, h.month, h.day, h.hour, h.minute, by omega, by omega⟩)
    · rw [if_neg h1, if_pos h2] at hsec hnano
      exact .inr (.inr ⟨h.year.symm, h.month.symm, h.day.symm, h.hour.symm, h.minute.symm,
        by omega, by omega⟩)
    · rw [if_neg h1, if_neg h2] at hsec hnano
      exact .inl (ext h.year h.month h.day h.hour h.minute hsec hnano)
  · have key : ∀ {s t : DateTime}, t.nanosecond < 2000000000 → s.nanosecond < 2000000000 →
        LeapAlias s t → s.shownSecond = t.shownSecond ∧ s.shownNanosecond = t.shownNanosecond := by
      intro s t ht hs h
      have hsec := h.second
      have hnano := h.nanosecond
      unfold shownSecond shownNanosecond
      rw [if_pos (by omega), if_neg (by omega), if_pos (by omega), if_neg (by omega)]
      exact ⟨hsec, by omega⟩
    intro h
    rcases h with h | h | h
    · rw [h]
      exact ⟨rfl, rfl, rfl, rfl, rfl, rfl, rfl⟩
    · obtain ⟨hsec, hnano⟩ := key ht hs h
      exact ⟨h.year, h.month, h.day, h.hour, h.minute, hsec, hnano⟩
    · obtain ⟨hsec, hnano⟩ := key hs ht h
      exact ⟨h.year.symm, h.month.symm, h.day.symm, h.hour.symm, h.minute.symm,
        hsec.symm, hnano.symm⟩

theorem stopsAt_dash {l : List Char} : StopsAt (fun c : Char => c.isDigit = true) ('-' :: l) :=
  stopsAt_cons (by decide)

/-- **The text of a timestamp determines what it shows.** -/
theorem toRfc3339_inj {s t : DateTime} : s.toRfc3339 = t.toRfc3339 ↔ ShownAlike s t := by
  constructor
  · intro h
    have h := String.ofList_injective h
    obtain ⟨hyear, h⟩ := yearText_selfDelimiting.peel trivial trivial stopsAt_dash stopsAt_dash h
    obtain ⟨hmonth, h⟩ := twoDigits_selfDelimiting.peel (by have := s.month_range; omega)
      (by have := t.month_range; omega) trivial trivial (List.cons.inj h).2
    obtain ⟨hday, h⟩ := twoDigits_selfDelimiting.peel s.day_lt t.day_lt trivial trivial
      (List.cons.inj h).2
    obtain ⟨hhour, h⟩ := twoDigits_selfDelimiting.peel (by have := s.hour_lt; omega)
      (by have := t.hour_lt; omega) trivial trivial (List.cons.inj h).2
    obtain ⟨hminute, h⟩ := twoDigits_selfDelimiting.peel (by have := s.minute_lt; omega)
      (by have := t.minute_lt; omega) trivial trivial (List.cons.inj h).2
    obtain ⟨hsecond, h⟩ := twoDigits_selfDelimiting.peel s.shownSecond_lt t.shownSecond_lt trivial
      trivial (List.cons.inj h).2
    have hnano := fractionText_inj s.shownNanosecond_lt t.shownNanosecond_lt
      (List.append_cancel_right h)
    exact ⟨hyear, hmonth, hday, hhour, hminute, hsecond, hnano⟩
  · intro h
    unfold toRfc3339
    rw [h.year, h.month, h.day, h.hour, h.minute, h.second, h.nanosecond]

/-- A timestamp is written with octets below those of the lower-case letters. -/
theorem toRfc3339_alphabet (t : DateTime) : ∀ b ∈ Str.asBytes t.toRfc3339, b.toNat < 97 := by
  have hdigit : ∀ c : Char, c.isDigit = true → c.toNat < 97 := by
    intro c hc
    have h := (Str.isDigit_of_char hc)
    have hle : c.toNat ≤ 57 := by
      have h57 := h.2.2
      rw [UInt8.toNat_ofNat_of_lt' (by simp [UInt8.size]; omega)] at h57
      exact h57
    omega
  have hyear : ∀ y, ∀ c ∈ yearText y, c.toNat < 97 := by
    intro y c hc
    unfold yearText at hc
    split at hc
    · rcases List.mem_append.mp hc with hc | hc
      · exact hdigit c (twoDigits_isDigit (by omega) c hc)
      · exact hdigit c (twoDigits_isDigit (by omega) c hc)
    rcases List.mem_cons.mp hc with hc | hc
    · rw [hc]
      split <;> decide
    · exact hdigit c (Str.zeroPadded_isDigit c hc)
  have hfraction : ∀ n, ∀ c ∈ fractionText n, c.toNat < 97 := by
    intro n c hc
    have hdot : ∀ {w k : Nat}, c ∈ '.' :: Str.zeroPadded w k → c.toNat < 97 := by
      intro w k hc
      rcases List.mem_cons.mp hc with hc | hc
      · rw [hc]
        decide
      · exact hdigit c (Str.zeroPadded_isDigit c hc)
    unfold fractionText at hc
    split at hc
    · cases hc
    split at hc
    · exact hdot hc
    split at hc
    · exact hdot hc
    · exact hdot hc
  have htwo : ∀ {n : Nat}, n < 100 → ∀ c ∈ twoDigits n, c.toNat < 97 := fun hn c hc =>
    hdigit c (twoDigits_isDigit hn c hc)
  have hsuffix : ['+', '0', '0', ':', '0', '0'].all (fun c => decide (c.toNat < 97)) =
      true := by decide
  have hm := t.month_range
  have hh := t.hour_lt
  have hmin := t.minute_lt
  refine Str.forall_asBytes fun c hc => ?_
  have hlt : c.toNat < 97 := by
    unfold toRfc3339 at hc
    rw [String.toList_ofList] at hc
    simp only [List.mem_append, List.mem_cons] at hc
    rcases hc with hc | hc | hc | hc | hc | hc | hc | hc | hc | hc | hc | hc | hc
    · exact hyear _ c hc
    · rw [hc]; decide
    · exact htwo (by omega) c hc
    · rw [hc]; decide
    · exact htwo t.day_lt c hc
    · rw [hc]; decide
    · exact htwo (by omega) c hc
    · rw [hc]; decide
    · exact htwo (by omega) c hc
    · rw [hc]; decide
    · exact htwo t.shownSecond_lt c hc
    · exact hfraction _ c hc
    · exact of_decide_eq_true (List.all_eq_true.mp hsuffix c (by simpa using hc))
  refine ⟨by omega, ?_⟩
  rw [UInt8.toNat_ofNat_of_lt' (by simp [UInt8.size]; omega)]
  exact hlt

end DateTime

end Pkzz.Audit
