import AppChatAgain.Foundation.Run
import AppChatAgain.Keys.Utilities

/-!
# Keys.NextPushId — the keys that `childByAutoId` makes

A key is the time in milliseconds as eight characters, and twelve random characters after them.  In
one and the same millisecond the last twelve count up instead.  The random characters are those of
the source, and the conversion of the time to milliseconds is not modelled: `now` is the result.

* `get_spec`       : a key is the numeral of a number in base 64, and the number grows;
* `run_increasing` : the keys of one client increase while its clock does not go back;
* `run_same_time`  : the calls of one millisecond succeed as long as they can be counted.
-/

namespace AppChatAgain
namespace Keys

open Foundation Numeral

/-- `-0123456789ABCDEFGHIJKLMNOPQRSTUVWXYZ_abcdefghijklmnopqrstuvwxyz` -/
def PUSH_CHARS : List unichar :=
  ("-0123456789ABCDEFGHIJKLMNOPQRSTUVWXYZ_abcdefghijklmnopqrstuvwxyz".toList).map code

inductive PushFailure where
  /-- `characterAtIndex:` beyond the string -/
  | rangeException
  /-- `lastRandChars[-1]++` -/
  | outOfBounds
  deriving DecidableEq, Repr

/-- `[PUSH_CHARS characterAtIndex:i]` -/
def characterAtIndex (i : ℤ) : Except PushFailure unichar :=
  if i < 0 then .error .rangeException
  else
    match PUSH_CHARS[i.toNat]? with
    | some c => .ok c
    | none => .error .rangeException

/-- The static variables of `get:`. -/
structure FNextPushId where
  lastPushTime : ℤ
  lastRandChars : List ℕ
  length_eq : lastRandChars.length = 12
  lt : ∀ d ∈ lastRandChars, d < 64

namespace FNextPushId

/-- Before the first call. -/
def initial : FNextPushId where
  lastPushTime := 0
  lastRandChars := List.replicate 12 0
  length_eq := by simp
  lt := by
    intro d hd
    simp [List.eq_of_mem_replicate hd]

/-- The loop over `timeStampChars` from `i` down. -/
def timeStampChars : ℕ → ℤ → Except PushFailure (List unichar)
  | 0, _ => .ok []
  | i + 1, now => do
      let c ← characterAtIndex (now.tmod 64)
      let cs ← timeStampChars i (now.tdiv 64)
      return cs ++ [c]

/-- The random characters of a new millisecond. -/
def randChars (arc4random : ℕ → UInt32) : List ℕ :=
  (List.range 12).map fun i => (arc4random i).toNat % 64

theorem randChars_lt (arc4random : ℕ → UInt32) : ∀ d ∈ randChars arc4random, d < 64 := by
  intro d hd
  rcases List.mem_map.1 hd with ⟨i, _, rfl⟩
  exact Nat.mod_lt _ (by decide)

/-- The static variables that a call leaves, or `none` where it counts beyond the first of the
twelve characters. -/
def next (s : FNextPushId) (now : ℤ) (arc4random : ℕ → UInt32) : Option FNextPushId :=
  if now = s.lastPushTime then
    match h : increment 64 s.lastRandChars.reverse with
    | none => none
    | some ds =>
        some
          { lastPushTime := now
            lastRandChars := ds.reverse
            length_eq := by simpa [s.length_eq] using length_increment h
            lt := by simpa using digits_increment h (by simpa using s.lt) }
  else
    some
      { lastPushTime := now
        lastRandChars := randChars arc4random
        length_eq := by simp [randChars]
        lt := randChars_lt arc4random }

/-- `+get:` -/
def get (s : FNextPushId) (now : ℤ) (arc4random : ℕ → UInt32) :
    Except PushFailure (List unichar × FNextPushId) := do
  let timeStampChars ← timeStampChars 8 now
  match s.next now arc4random with
  | none => .error .outOfBounds
  | some s' =>
      let rand ← s'.lastRandChars.mapM fun d : ℕ => characterAtIndex d
      return (timeStampChars ++ rand, s')

end FNextPushId

/-! ## Keys as numerals -/

def pushChar (d : ℕ) : unichar :=
  PUSH_CHARS.getD d (code '-')

theorem length_PUSH_CHARS : PUSH_CHARS.length = 64 := by
  decide

theorem characterAtIndex_of_lt {d : ℕ} (h : d < 64) :
    characterAtIndex (d : ℤ) = .ok (pushChar d) := by
  have hlt : d < PUSH_CHARS.length := by rwa [length_PUSH_CHARS]
  have hget : PUSH_CHARS[d]? = some (pushChar d) := by
    simp [pushChar, List.getElem?_eq_getElem hlt, List.getD_eq_getElem?_getD]
  simp [characterAtIndex, hget]

theorem PUSH_CHARS_increasing : PUSH_CHARS.Pairwise (· < ·) := by
  rw [← List.isChain_iff_pairwise]
  decide +kernel

theorem pushChar_lt {d e : ℕ} (he : e < 64) (h : d < e) : pushChar d < pushChar e := by
  have hlt : d < PUSH_CHARS.length := by rw [length_PUSH_CHARS]; omega
  have hlt' : e < PUSH_CHARS.length := by rwa [length_PUSH_CHARS]
  have hpair := List.pairwise_iff_getElem.1 PUSH_CHARS_increasing d e hlt hlt' h
  simpa [pushChar, List.getD_eq_getElem?_getD, List.getElem?_eq_getElem hlt,
    List.getElem?_eq_getElem hlt'] using hpair

theorem compare_pushChar {d e : ℕ} (hd : d < 64) (he : e < 64) :
    compare (pushChar d) (pushChar e) = compare d e := by
  rcases Nat.lt_trichotomy d e with h | rfl | h
  · rw [Nat.compare_eq_lt.2 h, Std.compare_eq_lt]
    exact pushChar_lt he h
  · simp
  · rw [Nat.compare_eq_gt.2 h, Std.compare_eq_gt]
    exact pushChar_lt hd h

/-- `id` is the numeral of `n`, in twenty characters. -/
def Encodes (id : List unichar) (n : ℕ) : Prop :=
  ∃ ds : List ℕ, ds.length = 20 ∧ (∀ d ∈ ds, d < 64) ∧ id = ds.map pushChar ∧ numeral 64 ds = n

/-- A key of twenty characters is too long for a number. -/
theorem Encodes.not_number {id : List unichar} {n : ℕ} (h : Encodes id n) :
    tryParseStringToInt id = none := by
  rcases h with ⟨ds, hlen, _, rfl, _⟩
  simp [tryParseStringToInt, hlen]

/-- Keys compare as their numbers do. -/
theorem Encodes.compareKey_eq {id id' : List unichar} {n n' : ℕ} (h : Encodes id n)
    (h' : Encodes id' n') : compareKey (.name id) (.name id') = compare n n' := by
  have hnone := h.not_number
  have hnone' := h'.not_number
  rcases h with ⟨ds, hlen, hds, rfl, rfl⟩
  rcases h' with ⟨es, hlen', hes, rfl, rfl⟩
  calc
    compareKey (.name (ds.map pushChar)) (.name (es.map pushChar))
        = compare (ds.map pushChar) (es.map pushChar) := by
          simp only [compareKey, compareName, hnone, hnone']
    _ = compare ds es :=
          compare_map fun d hd e he => compare_pushChar (hds d hd) (hes e he)
    _ = compare (numeral 64 ds) (numeral 64 es) :=
          compare_numeral (by decide) (by rw [hlen, hlen']) hds hes

namespace FNextPushId

/-- The characters of the time. -/
theorem timeStampChars_eq (i now : ℕ) :
    ∃ ds : List ℕ, ds.length = i ∧ (∀ d ∈ ds, d < 64) ∧
      timeStampChars i (now : ℤ) = .ok (ds.map pushChar) ∧ numeral 64 ds = now % 64 ^ i := by
  induction i generalizing now with
  | zero => exact ⟨[], rfl, by simp, rfl, by simp [Nat.mod_one]⟩
  | succ i ih =>
      rcases ih (now / 64) with ⟨ds, hlen, hds, hchars, hnumber⟩
      have hmod : (now : ℤ).tmod 64 = ((now % 64 : ℕ) : ℤ) := by
        rw [Int.tmod_eq_emod_of_nonneg (by omega)]
        rfl
      have hdiv : (now : ℤ).tdiv 64 = ((now / 64 : ℕ) : ℤ) := by
        rw [Int.tdiv_eq_ediv_of_nonneg (by omega)]
        rfl
      refine ⟨ds ++ [now % 64], by simp [hlen], ?_, ?_, ?_⟩
      · intro d hd
        rcases List.mem_append.1 hd with hd | hd
        · exact hds d hd
        · rw [List.mem_singleton.1 hd]
          exact Nat.mod_lt _ (by decide)
      · rw [timeStampChars, hmod, hdiv, characterAtIndex_of_lt (Nat.mod_lt _ (by decide)), hchars]
        simp [bind, Except.bind, pure, Except.pure]
      · rw [numeral_concat, hnumber, pow_succ, mul_comm (64 ^ i), Nat.mod_mul]
        ring

theorem mapM_characterAtIndex {ds : List ℕ} (h : ∀ d ∈ ds, d < 64) :
    (ds.mapM fun d : ℕ => characterAtIndex d) = .ok (ds.map pushChar) := by
  induction ds with
  | nil => rfl
  | cons d ds ih =>
      have hrest := ih (fun e he => h e (by simp [he]))
      rw [List.mapM_cons, characterAtIndex_of_lt (h d (by simp)), hrest]
      rfl

/-! ## One call -/

/-- The number of the last key. -/
def number (s : FNextPushId) : ℕ :=
  s.lastPushTime.toNat * 64 ^ 12 + numeral 64 s.lastRandChars

theorem numeral_lastRandChars_lt (s : FNextPushId) : numeral 64 s.lastRandChars < 64 ^ 12 := by
  have hlt := numeral_lt (b := 64) (by decide) s.lt
  rwa [s.length_eq] at hlt

/-- A call in the same millisecond counts up. -/
theorem next_eq_some {s s' : FNextPushId} {now : ℤ} {arc4random : ℕ → UInt32}
    (h : s.next now arc4random = some s') :
    s'.lastPushTime = now ∧
      (now = s.lastPushTime →
        numeral 64 s'.lastRandChars = numeral 64 s.lastRandChars + 1) := by
  unfold next at h
  by_cases heq : now = s.lastPushTime
  · rw [if_pos heq] at h
    split at h
    case h_1 => cases h
    case h_2 ds hds =>
      cases h
      refine ⟨rfl, fun _ => ?_⟩
      simpa [numeral] using ofDigits_increment hds
  · rw [if_neg heq] at h
    cases h
    exact ⟨rfl, fun h => absurd h heq⟩

/-- Only a call in the same millisecond fails, after the greatest number. -/
theorem next_eq_none_iff {s : FNextPushId} {now : ℤ} {arc4random : ℕ → UInt32} :
    s.next now arc4random = none ↔
      now = s.lastPushTime ∧ numeral 64 s.lastRandChars + 1 = 64 ^ 12 := by
  have hreverse : ∀ d ∈ s.lastRandChars.reverse, d < 64 := by simpa using s.lt
  have hfull := increment_eq_none hreverse
  rw [List.length_reverse, s.length_eq] at hfull
  unfold next
  by_cases heq : now = s.lastPushTime
  · rw [if_pos heq]
    split
    case h_1 h => exact ⟨fun _ => ⟨heq, hfull.1 h⟩, fun _ => rfl⟩
    case h_2 ds h =>
      simp only [reduceCtorEq, false_iff]
      intro hnum
      rw [hfull.2 hnum.2] at h
      cases h
  · simp [heq]

/-- What a call returns is the numeral of the new number. -/
theorem get_eq (s : FNextPushId) (arc4random : ℕ → UInt32) {now : ℤ} (hpos : 0 ≤ now)
    (hlt : now < 64 ^ 8) :
    (s.next now arc4random = none → s.get now arc4random = .error .outOfBounds) ∧
    ∀ s', s.next now arc4random = some s' →
      ∃ id, s.get now arc4random = .ok (id, s') ∧ Encodes id s'.number := by
  obtain ⟨n, rfl⟩ := Int.eq_ofNat_of_zero_le hpos
  rcases timeStampChars_eq 8 n with ⟨ds, hlen, hds, hchars, hnumber⟩
  constructor
  · intro hnone
    simp [get, hchars, hnone, bind, Except.bind]
  · intro s' hsome
    have htime : s'.lastPushTime = (n : ℤ) := (next_eq_some hsome).1
    refine ⟨ds.map pushChar ++ s'.lastRandChars.map pushChar, ?_, ?_⟩
    · simp [get, hchars, hsome, mapM_characterAtIndex s'.lt, bind, Except.bind, pure, Except.pure]
    · refine ⟨ds ++ s'.lastRandChars, by simp [hlen, s'.length_eq], ?_, by simp, ?_⟩
      · intro d hd
        rcases List.mem_append.1 hd with hd | hd
        · exact hds d hd
        · exact s'.lt d hd
      · have hmod : n % 64 ^ 8 = n := Nat.mod_eq_of_lt (by exact_mod_cast hlt)
        rw [numeral_append, hnumber, hmod, s'.length_eq, number, htime, Int.toNat_natCast]

theorem next_of_get {s s' : FNextPushId} {now : ℤ} {arc4random : ℕ → UInt32}
    {id : List unichar} (hpos : 0 ≤ now) (hlt : now < 64 ^ 8)
    (h : s.get now arc4random = .ok (id, s')) :
    s.next now arc4random = some s' ∧ Encodes id s'.number := by
  have hget := get_eq s arc4random hpos hlt
  cases hnext : s.next now arc4random with
  | none =>
      rw [hget.1 hnext] at h
      cases h
  | some t =>
      rcases hget.2 t hnext with ⟨id', hok, hencodes⟩
      rw [h] at hok
      cases hok
      exact ⟨rfl, hencodes⟩

/-- While the clock does not go back, the number grows. -/
theorem get_spec {s s' : FNextPushId} {now : ℤ} {arc4random : ℕ → UInt32} {id : List unichar}
    (hstart : 0 ≤ s.lastPushTime) (hclock : s.lastPushTime ≤ now) (hlt : now < 64 ^ 8)
    (h : s.get now arc4random = .ok (id, s')) :
    s'.lastPushTime = now ∧ Encodes id s'.number ∧ s.number < s'.number := by
  rcases next_of_get (hstart.trans hclock) hlt h with ⟨hnext, hencodes⟩
  rcases next_eq_some hnext with ⟨htime, hcount⟩
  refine ⟨htime, hencodes, ?_⟩
  rcases eq_or_lt_of_le hclock with heq | hlater
  · rw [number, number, htime, heq, hcount heq.symm]
    omega
  · -- one millisecond is more than the twelve characters can make up for
    have hless : s.lastPushTime.toNat + 1 ≤ now.toNat := by omega
    have hrand := s.numeral_lastRandChars_lt
    have hstep := Nat.mul_le_mul_right (64 ^ 12) hless
    rw [number, number, htime]
    linarith

/-- Exactly a call in the same millisecond after the greatest number fails. -/
theorem get_eq_error_iff {s : FNextPushId} {now : ℤ} {arc4random : ℕ → UInt32} (hpos : 0 ≤ now)
    (hlt : now < 64 ^ 8) :
    s.get now arc4random = .error .outOfBounds ↔
      now = s.lastPushTime ∧ numeral 64 s.lastRandChars + 1 = 64 ^ 12 := by
  have hget := get_eq s arc4random hpos hlt
  have hiff : s.next now arc4random = none ↔ _ := next_eq_none_iff
  rw [← hiff]
  refine ⟨?_, hget.1⟩
  intro herror
  cases hnext : s.next now arc4random with
  | none => rfl
  | some t =>
      rcases hget.2 t hnext with ⟨id, hok, _⟩
      rw [hok] at herror
      cases herror

/-! ## A client's keys -/

/-- A call: the time in milliseconds and the random numbers. -/
abbrev Call := ℤ × (ℕ → UInt32)

/-- One call more, with the keys so far. -/
def push : Step (FNextPushId × List (List unichar)) Call
  | (s, ids), (now, arc4random) =>
      match s.get now arc4random with
      | .ok (id, s') => some (s', ids ++ [id])
      | .error _ => none

/-- The clock is in the range of the eight characters and does not go back. -/
def Clock (calls : List Call) : Prop :=
  (∀ c ∈ calls, 0 ≤ c.1 ∧ c.1 < 64 ^ 8) ∧ calls.Pairwise fun c c' => c.1 ≤ c'.1

theorem Clock.concat {calls : List Call} {c : Call} (h : Clock (calls ++ [c])) :
    Clock calls ∧ (0 ≤ c.1 ∧ c.1 < 64 ^ 8) ∧ ∀ c' ∈ calls, c'.1 ≤ c.1 := by
  rcases List.pairwise_append.1 h.2 with ⟨hfront, _, hlast⟩
  refine ⟨⟨fun c' hc' => h.1 c' (by simp [hc']), hfront⟩, h.1 c (by simp), ?_⟩
  intro c' hc'
  exact hlast c' hc' c (by simp)

/-- What holds after the calls: the keys so far are numerals in order, none above the number of the
state, and the last time is that of a call. -/
structure Pushed (calls : List Call) (s : FNextPushId) (ids : List (List unichar)) : Prop where
  start : 0 ≤ s.lastPushTime
  time : ∀ now, 0 ≤ now → (∀ c ∈ calls, c.1 ≤ now) → s.lastPushTime ≤ now
  encodes : ∀ id ∈ ids, ∃ n, Encodes id n ∧ n ≤ s.number
  increasing : ids.Pairwise fun id id' => compareKey (.name id) (.name id') = .lt

theorem Pushed.push {calls : List Call} {s s' : FNextPushId} {ids : List (List unichar)}
    {now : ℤ} {arc4random : ℕ → UInt32} {id : List unichar} (h : Pushed calls s ids)
    (hclock : Clock (calls ++ [(now, arc4random)])) (hget : s.get now arc4random = .ok (id, s')) :
    Pushed (calls ++ [(now, arc4random)]) s' (ids ++ [id]) := by
  rcases hclock.concat with ⟨_, ⟨hpos, hlt⟩, hle⟩
  rcases get_spec h.start (h.time now hpos hle) hlt hget with ⟨htime, hencodes, hgrows⟩
  refine ⟨by rw [htime]; exact hpos, ?_, ?_, ?_⟩
  · intro later _ hlater
    rw [htime]
    exact hlater (now, arc4random) (by simp)
  · intro id' hid'
    rcases List.mem_append.1 hid' with hid' | hid'
    · rcases h.encodes id' hid' with ⟨n, hn, hle⟩
      exact ⟨n, hn, by omega⟩
    · rw [List.mem_singleton.1 hid']
      exact ⟨_, hencodes, le_rfl⟩
  · refine List.pairwise_append.2 ⟨h.increasing, by simp, ?_⟩
    intro id' hid' id'' hid''
    rw [List.mem_singleton.1 hid'']
    rcases h.encodes id' hid' with ⟨n, hn, hle⟩
    rw [hn.compareKey_eq hencodes, Nat.compare_eq_lt]
    omega

theorem run_pushed {calls : List Call} {s : FNextPushId} {ids : List (List unichar)}
    (hclock : Clock calls) (hrun : push.run (initial, []) calls = some (s, ids)) :
    Pushed calls s ids := by
  revert hclock
  refine Step.run_history (P := fun calls t => Clock calls → Pushed calls t.1 t.2) ?_ ?_ hrun
  · intro _
    exact ⟨le_rfl, fun now hpos _ => hpos, by simp, by simp⟩
  · rintro calls ⟨now, arc4random⟩ ⟨s, ids⟩ ⟨s', ids'⟩ _ ih hstep hclock
    cases hget : s.get now arc4random with
    | error e => simp [push, hget] at hstep
    | ok r =>
        rcases r with ⟨id, t⟩
        have hstate : (t, ids ++ [id]) = (s', ids') := by simpa [push, hget] using hstep
        cases hstate
        exact (ih hclock.concat.1).push hclock hget

/-- While its clock does not go back, a client's keys increase, so that a list of its records in the
order of the keys has them in the order in which they were made. -/
theorem run_increasing {calls : List Call} {s : FNextPushId} {ids : List (List unichar)}
    (hclock : Clock calls) (hrun : push.run (initial, []) calls = some (s, ids)) :
    ids.Pairwise fun id id' => compareKey (.name id) (.name id') = .lt :=
  (run_pushed hclock hrun).increasing

def noRandom : ℕ → UInt32 := fun _ => 0

/-- The second key is made in the same millisecond as the first. -/
theorem run_increasing_threeKeys :
    ∃ s a b c, push.run (initial, []) [(5, noRandom), (5, noRandom), (6, noRandom)] =
        some (s, [a, b, c]) ∧
      [a, b, c].Pairwise fun id id' => compareKey (.name id) (.name id') = .lt := by
  have hclock : Clock [(5, noRandom), (5, noRandom), (6, noRandom)] := by
    constructor
    · intro c hc
      simp only [List.mem_cons, List.not_mem_nil, or_false] at hc
      rcases hc with rfl | rfl | rfl <;> decide
    · simp
  have hrun : push.run (initial, []) [(5, noRandom), (5, noRandom), (6, noRandom)] =
      some (_, [_, _, _]) := rfl
  exact ⟨_, _, _, _, hrun, run_increasing hclock hrun⟩

/-- Calls within one millisecond succeed as long as the twelve characters can count them. -/
theorem isSome_run_same_time {s : FNextPushId} {ids : List (List unichar)} {calls : List Call}
    (hpos : 0 ≤ s.lastPushTime) (hlt : s.lastPushTime < 64 ^ 8)
    (htime : ∀ c ∈ calls, c.1 = s.lastPushTime) :
    (push.run (s, ids) calls).isSome ↔
      numeral 64 s.lastRandChars + calls.length < 64 ^ 12 := by
  induction calls generalizing s ids with
  | nil => simpa using s.numeral_lastRandChars_lt
  | cons c calls ih =>
      rcases c with ⟨now, arc4random⟩
      have hnow : now = s.lastPushTime := htime (now, arc4random) (by simp)
      have hrand := s.numeral_lastRandChars_lt
      rw [← hnow] at hpos hlt
      have hget := get_eq s arc4random hpos hlt
      cases hnext : s.next now arc4random with
      | none =>
          have hfull := (next_eq_none_iff.1 hnext).2
          have hfails : Step.run push (s, ids) ((now, arc4random) :: calls) = none := by
            simp [Step.run_cons, push, hget.1 hnext]
          rw [hfails]
          simp only [Option.isSome_none, Bool.false_eq_true, List.length_cons, false_iff]
          omega
      | some t =>
          rcases hget.2 t hnext with ⟨id, hok, _⟩
          rcases next_eq_some hnext with ⟨ht, hcount⟩
          have hstep : push (s, ids) (now, arc4random) = some (t, ids ++ [id]) := by
            simp [push, hok]
          have hrest : (push.run (t, ids ++ [id]) calls).isSome ↔
              numeral 64 t.lastRandChars + calls.length < 64 ^ 12 := by
            refine ih (by rw [ht]; exact hpos) (by rw [ht]; exact hlt) ?_
            intro c hc
            rw [ht, hnow]
            exact htime c (by simp [hc])
          rw [Step.run_cons_of_step hstep, hrest, hcount hnow, List.length_cons]
          omega

/-- They leave the millisecond as it is, and count themselves. -/
theorem run_counts {s s' : FNextPushId} {ids ids' : List (List unichar)} {calls : List Call}
    (hpos : 0 ≤ s.lastPushTime) (hlt : s.lastPushTime < 64 ^ 8)
    (htime : ∀ c ∈ calls, c.1 = s.lastPushTime)
    (hrun : push.run (s, ids) calls = some (s', ids')) :
    s'.lastPushTime = s.lastPushTime ∧
      numeral 64 s'.lastRandChars = numeral 64 s.lastRandChars + calls.length := by
  induction calls generalizing s ids with
  | nil =>
      cases hrun
      exact ⟨rfl, rfl⟩
  | cons c calls ih =>
      rcases c with ⟨now, arc4random⟩
      have hnow : now = s.lastPushTime := htime (now, arc4random) (by simp)
      rw [← hnow] at hpos hlt
      rw [Step.run_cons, Option.bind_eq_some_iff] at hrun
      rcases hrun with ⟨⟨t, ids₁⟩, hstep, hrun⟩
      have hpushed : ∃ id, s.get now arc4random = .ok (id, t) := by
        cases hget : s.get now arc4random with
        | error e => simp [push, hget] at hstep
        | ok r =>
            rcases r with ⟨id, t'⟩
            simp only [push, hget, Option.some.injEq, Prod.mk.injEq] at hstep
            exact ⟨id, by rw [hstep.1]⟩
      rcases hpushed with ⟨id, hget⟩
      rcases next_eq_some (next_of_get hpos hlt hget).1 with ⟨ht, hcount⟩
      have hrest : s'.lastPushTime = t.lastPushTime ∧
          numeral 64 s'.lastRandChars = numeral 64 t.lastRandChars + calls.length := by
        refine ih (by rw [ht]; exact hpos) (by rw [ht]; exact hlt) ?_ hrun
        intro c hc
        rw [ht, hnow]
        exact htime c (by simp [hc])
      refine ⟨hrest.1.trans (ht.trans hnow), ?_⟩
      rw [hrest.2, hcount hnow, List.length_cons]
      omega

/-- After a key of the millisecond 7 that ends with `zzzzzzzzzzzx`. -/
def last : FNextPushId where
  lastPushTime := 7
  lastRandChars := List.replicate 11 63 ++ [61]
  length_eq := by simp
  lt := by decide

/-- From a time of eight characters on, exactly the calls that the other twelve can count succeed
within its millisecond.  The call after the greatest number, and no other one, writes before the
start of the array. -/
theorem run_same_time {s : FNextPushId} {ids : List (List unichar)} {calls : List Call}
    (hpos : 0 ≤ s.lastPushTime) (hlt : s.lastPushTime < 64 ^ 8)
    (htime : ∀ c ∈ calls, c.1 = s.lastPushTime) :
    ((push.run (s, ids) calls).isSome ↔
      numeral 64 s.lastRandChars + calls.length < 64 ^ 12) ∧
    ∀ s' ids' arc4random, push.run (s, ids) calls = some (s', ids') →
      (s'.get s.lastPushTime arc4random = .error .outOfBounds ↔
        numeral 64 s.lastRandChars + calls.length + 1 = 64 ^ 12) := by
  refine ⟨isSome_run_same_time hpos hlt htime, ?_⟩
  intro s' ids' arc4random hrun
  rcases run_counts hpos hlt htime hrun with ⟨hsame, hcount⟩
  rw [get_eq_error_iff hpos hlt, hsame, hcount]
  exact and_iff_right rfl

/-- Three calls succeed from the start.  After `last` two succeed, and the third does not. -/
theorem run_same_time_initial :
    (push.run (initial, []) (List.replicate 3 (0, noRandom))).isSome ∧
    ∃ s' ids', push.run (last, []) (List.replicate 2 (7, noRandom)) = some (s', ids') ∧
      s'.get 7 noRandom = .error .outOfBounds := by
  constructor
  · refine (run_same_time le_rfl (by decide) ?_).1.2 (by decide)
    intro c hc
    rw [List.eq_of_mem_replicate hc]
    rfl
  · have htime : ∀ c ∈ List.replicate 2 ((7, noRandom) : Call), c.1 = last.lastPushTime := by
      intro c hc
      rw [List.eq_of_mem_replicate hc]
      rfl
    have hcount : numeral 64 last.lastRandChars +
        (List.replicate 2 ((7, noRandom) : Call)).length + 1 = 64 ^ 12 := by
      decide
    rcases @run_same_time last [] _ (by decide) (by decide) htime with ⟨hsome, hlast⟩
    rcases Option.isSome_iff_exists.1 (hsome.2 (by omega)) with ⟨⟨s', ids'⟩, hrun⟩
    exact ⟨s', ids', hrun, (hlast s' ids' noRandom hrun).2 hcount⟩

end FNextPushId

end Keys
end AppChatAgain
