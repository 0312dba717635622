import Pkzz.Lib.Map
import Pkzz.Lib.Str

/-!
# String keys of a Redis server

The commands `GET`, `SET .. PX`, `DEL`, `INCR` and `PEXPIRE`, and the numbers of its Lua. A script
runs alone, so it is a function on the store. A key with a deadline is removed by an `expire` of the
server, which is a step of its own.
-/

namespace Pkzz.Lib

/-- A key's value and its deadline in milliseconds, if it has one. -/
structure RedisEntry where
  value : String
  expiresAt : Option Int
  deriving DecidableEq

abbrev Redis := Map String RedisEntry

namespace Redis

/-- `GET`. -/
def get (r : Redis) (key : String) : Option String := (Finmap.lookup key r).map RedisEntry.value

/-- `SET key value PX ttl`. -/
def setPx (r : Redis) (key value : String) (deadline : Int) : Redis :=
  Finmap.insert key ⟨value, some deadline⟩ r

/-- The deadline of a key has passed. -/
def isOver (e : RedisEntry) (now : Int) : Bool := e.expiresAt.any (· < now)

/-- `SET key value NX EX ttl` at the millisecond `now`, and whether the key was set. A key whose
time is up counts as absent. -/
def setNxEx (r : Redis) (now : Int) (key value : String) (ttlSecs : Nat) : Redis × Bool :=
  if (Finmap.lookup key r).all (isOver · now) then
    (r.setPx key value (now + 1000 * ttlSecs), true) else (r, false)

/-- `DEL`, and what happens to a key when its time is up. -/
def del (r : Redis) (key : String) : Redis := Finmap.erase key r

/-- `PEXPIRE`. -/
def pexpire (r : Redis) (key : String) (deadline : Int) : Redis :=
  match Finmap.lookup key r with
  | some e => Finmap.insert key { e with expiresAt := some deadline } r
  | none => r

/-- The counter a text stands for. Only the decimal form without leading zeros is an integer;
counters that are below zero are left out. -/
def integer (s : String) : Option Nat :=
  let n := Nat.ofDigitChars 10 s.toList 0
  if n.repr = s ∧ n < 2 ^ 63 then some n else none

/-- `INCR`: the counter after it, or an error that changes nothing. The deadline stays. -/
def incr (r : Redis) (key : String) : Except String (Redis × Nat) :=
  match Finmap.lookup key r with
  | none => .ok (Finmap.insert key ⟨"1", none⟩ r, 1)
  | some e =>
    match integer e.value with
    | none => .error "ERR value is not an integer or out of range"
    | some n =>
      if n + 1 < 2 ^ 63 then .ok (Finmap.insert key { e with value := (n + 1).repr } r, n + 1)
      else .error "ERR increment or decrement would overflow"

variable {r r' : Redis} {key key' value : String} {deadline : Int} {n : Nat}

theorem integer_repr (h : n < 2 ^ 63) : integer n.repr = some n := by
  rw [integer, Nat.toList_repr, Nat.ofDigitChars_ten_toDigits, if_pos ⟨rfl, h⟩]

theorem lookup_setPx : Finmap.lookup key' (r.setPx key value deadline) =
    if key' = key then some ⟨value, some deadline⟩ else Finmap.lookup key' r :=
  Map.lookup_insert_eq r key key' _

/-- A key whose time is not up is left alone. -/
theorem setNxEx_of_taken {now : Int} {e : RedisEntry} (value : String) (ttlSecs : Nat)
    (he : Finmap.lookup key r = some e) (hlive : isOver e now = false) :
    r.setNxEx now key value ttlSecs = (r, false) := by
  rw [setNxEx, he, Option.all_some, hlive, if_neg Bool.false_ne_true]

theorem setNxEx_of_free {now : Int} (value : String) (ttlSecs : Nat)
    (h : ∀ e, Finmap.lookup key r = some e →
    isOver e now = true) :
      r.setNxEx now key value ttlSecs = (r.setPx key value (now + 1000 * ttlSecs), true) := by
  rw [setNxEx, if_pos]
  cases he : Finmap.lookup key r with
  | none => rfl
  | some e => exact h e he

theorem lookup_del : Finmap.lookup key' (r.del key) = if key' = key then
    none else Finmap.lookup key' r :=
  Map.lookup_erase_eq r key key'

theorem lookup_pexpire_of_ne (h : key' ≠ key) :
    Finmap.lookup key' (r.pexpire key deadline) = Finmap.lookup key' r := by
  rw [pexpire]
  split
  · rw [Map.lookup_insert_eq, if_neg h]
  · rfl

/-- A deadline does not touch a value. -/
theorem get_pexpire : (r.pexpire key deadline).get key' = r.get key' := by
  by_cases h : key' = key
  · subst h
    rw [pexpire, get, get]
    split
    · rename_i e he
      rw [Map.lookup_insert_eq, if_pos rfl, he]
      rfl
    · rfl
  · rw [get, get, lookup_pexpire_of_ne h]

theorem get_setPx : (r.setPx key value deadline).get key' = if key' = key then
    some value else r.get key' := by
  rw [get, lookup_setPx]
  split <;> rfl

theorem get_del : (r.del key).get key' = if key' = key then none else r.get key' := by
  rw [get, lookup_del]
  split <;> rfl

theorem lookup_incr_of_ne (h : r.incr key = .ok (r', n)) (hne : key' ≠ key) :
    Finmap.lookup key' r' = Finmap.lookup key' r := by
  rw [incr] at h
  split at h
  · cases h
    rw [Map.lookup_insert_eq, if_neg hne]
  split at h
  · cases h
  · split at h
    · cases h
      rw [Map.lookup_insert_eq, if_neg hne]
    · cases h

/-- A counter that holds its decimal form counts on. -/
theorem incr_counter {m : Nat} (hm : r.get key = if m = 0 then none else some m.repr)
    (h : r.incr key = .ok (r', n)) : n = m + 1 ∧ n < 2 ^ 63 ∧ r'.get key = some n.repr := by
  rw [incr] at h
  rw [get] at hm
  split at h
  · rename_i hnone
    cases h
    rw [hnone] at hm
    have hzero : m = 0 := by
      by_contra hne
      rw [if_neg hne] at hm
      cases hm
    refine ⟨by rw [hzero], by decide, ?_⟩
    rw [get, Map.lookup_insert_eq, if_pos rfl]
    rfl
  · rename_i e he
    rw [he] at hm
    have hpos : m ≠ 0 := by
      rintro rfl
      cases hm
    rw [if_neg hpos] at hm
    have hvalue : e.value = m.repr := Option.some.inj hm
    split at h
    · cases h
    rename_i k hk
    have hkm : k = m := by
      rw [integer, hvalue, Nat.toList_repr, Nat.ofDigitChars_ten_toDigits] at hk
      split at hk
      · exact (Option.some.inj hk).symm
      · cases hk
    split at h
    · rename_i hlt
      cases h
      refine ⟨by rw [hkm], hlt, ?_⟩
      rw [get, Map.lookup_insert_eq, if_pos rfl]
      rfl
    · cases h

/-! ## Numbers of Lua -/

/-- Division, rounded to the nearest, to the even one of two. -/
def divRound (n k : Nat) : Nat :=
  if 2 * (n % k) < k ∨ (2 * (n % k) = k ∧ (n / k) % 2 = 0) then n / k else n / k + 1

/-- The double nearest to an integer. -/
def toDouble (n : Nat) : Nat :=
  let ulp := 2 ^ (n.log2 - 52)
  divRound n ulp * ulp

/-- The digits of a number, without zeros at its end. -/
def withoutTrailingZeros (n : Nat) : List Char :=
  ((Nat.toDigits 10 n).reverse.dropWhile (· == '0')).reverse

/-- `tostring` of a number that an integer reply became: `%.14g`, so from `10 ^ 14` on it has an
exponent. -/
def tostring (n : Nat) : String :=
  if n < 10 ^ 14 then n.repr
  else
    let d := toDouble n
    let exponent := (Nat.toDigits 10 d).length - 1
    let rounded := divRound d (10 ^ (exponent - 13))
    -- rounding up may give one more digit
    let exponent' := if rounded = 10 ^ 14 then exponent + 1 else exponent
    let digits := withoutTrailingZeros rounded
    let fraction := if digits.length ≤ 1 then [] else '.' :: digits.drop 1
    String.ofList (digits.take 1 ++ fraction ++ 'e' :: '+' :: Str.zeroPadded 2 exponent')

theorem tostring_of_lt (h : n < 10 ^ 14) : tostring n = n.repr := by rw [tostring, if_pos h]

/-- A number with an exponent has the letter in it. -/
theorem exponent_mem_tostring (h : 10 ^ 14 ≤ n) : 'e' ∈ (tostring n).toList := by
  rw [tostring, if_neg (Nat.not_lt.mpr h)]
  dsimp only
  rw [String.toList_ofList]
  exact List.mem_append_right _ List.mem_cons_self

theorem isDigit_of_mem_withoutTrailingZeros {c : Char} (h : c ∈ withoutTrailingZeros n) :
    c.isDigit = true := by
  rw [withoutTrailingZeros, List.mem_reverse] at h
  have hmem := List.mem_reverse.mp ((List.dropWhile_sublist _).mem h)
  exact Nat.isDigit_of_mem_toDigits (by decide) (by decide) hmem

/-- A number has no other characters than these. -/
theorem mem_tostring {c : Char} (h : c ∈ (tostring n).toList) : c.isDigit = true ∨ c = '.' ∨
    c = 'e' ∨ c = '+' := by
  rw [tostring] at h
  split at h
  · rw [Nat.toList_repr] at h
    exact .inl (Nat.isDigit_of_mem_toDigits (by decide) (by decide) h)
  dsimp only at h
  rw [String.toList_ofList, List.mem_append, List.mem_append, List.mem_cons, List.mem_cons] at h
  rcases h with (hhead | hfraction) | rfl | rfl | hexponent
  · exact .inl (isDigit_of_mem_withoutTrailingZeros (List.mem_of_mem_take hhead))
  · split at hfraction
    · cases hfraction
    · rcases List.mem_cons.mp hfraction with rfl | hmem
      · exact .inr (.inl rfl)
      · exact .inl (isDigit_of_mem_withoutTrailingZeros (List.mem_of_mem_drop hmem))
  · exact .inr (.inr (.inl rfl))
  · exact .inr (.inr (.inr rfl))
  · exact .inl (Str.zeroPadded_isDigit c hexponent)

end Redis

end Pkzz.Lib
