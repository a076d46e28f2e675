import Mathlib.Data.Nat.Basic
import AppChatAgain.Foundation.Numeral

/-!
# Keys.Utilities — the order of the children of a node

`FUtilities` compares keys: numbers come first and by value, other names after them, character by
character.  A string is the list of its UTF-16 characters.

* `compareKey_eq`      : the order is that of a rank, and so a total preorder;
* `compareKey_eq_iff`  : which different keys it takes for one;
* `compareKey_decimal` : the keys of an array keep the order of their indices.
-/

namespace AppChatAgain
namespace Keys

open Foundation
open Std (TransCmp)

abbrev unichar := UInt16

/-- The character of an ASCII literal. -/
abbrev code (c : Char) : unichar := c.toNat.toUInt16

/-! ## The comparison -/

def INTEGER_32_MIN : ℤ := -2147483648

def INTEGER_32_MAX : ℤ := 2147483647

/-- The loop over the digits, with the value so far. -/
def parseDigits (value : ℤ) : List unichar → Option ℤ
  | [] => some value
  | c :: str =>
      if c < code '0' ∨ c > code '9' then none
      else parseDigits (value * 10 + (c.toNat - (code '0').toNat : ℕ)) str

def tryParseStringToInt (str : List unichar) : Option ℤ :=
  if str.length > 11 ∨ str.length = 0 then none
  else
    let negative := str.head? = some (code '-')
    if negative ∧ str.length = 1 then none
    else
      (parseDigits 0 (if negative then str.tail else str)).bind fun value =>
        let value := if negative then -value else value
        if value < INTEGER_32_MIN ∨ value > INTEGER_32_MAX then none else some value

/-- A key: one of the two sentinels, which are known by their pointers, or a name. -/
inductive Key where
  | minName
  | maxName
  | name (str : List unichar)
  deriving DecidableEq, Repr

/-- `compareKey:toKey:` for two names. -/
def compareName (a b : List unichar) : Ordering :=
  match tryParseStringToInt a, tryParseStringToInt b with
  | some aAsInt, some bAsInt =>
      if aAsInt > bAsInt then .gt
      else if aAsInt < bAsInt then .lt
      else if a.length > b.length then .gt
      else if a.length < b.length then .lt
      else .eq
  | some _, none => .lt
  | none, some _ => .gt
  | none, none => compare a b

def compareKey : Key → Key → Ordering
  | .minName, .minName => .eq
  | .maxName, .maxName => .eq
  | .minName, _ => .lt
  | _, .maxName => .lt
  | _, .minName => .gt
  | .maxName, _ => .gt
  | .name a, .name b => compareName a b

/-! ## A total preorder -/

namespace Key

/-- The sentinels, the numbers and the other names in order. -/
def rank : Key → ℕ
  | minName => 0
  | name str => if (tryParseStringToInt str).isSome then 1 else 2
  | maxName => 3

/-- The value of a number. -/
def number : Key → ℤ
  | name str => (tryParseStringToInt str).getD 0
  | _ => 0

/-- The length of a number. -/
def numberLength : Key → ℕ
  | name str => if (tryParseStringToInt str).isSome then str.length else 0
  | _ => 0

/-- The characters of a name that is no number. -/
def text : Key → List unichar
  | name str => if (tryParseStringToInt str).isSome then [] else str
  | _ => []

def compareRank : Key → Key → Ordering :=
  compareLex (compareOn rank)
    (compareLex (compareOn number) (compareLex (compareOn numberLength) (compareOn text)))

end Key

/-- Two comparisons in the order of the source are a comparison of the two values. -/
theorem ite_compare {α : Type} [LinearOrder α] (a b : α) (o : Ordering) :
    (if a > b then .gt else if a < b then .lt else o) = (compare a b).then o := by
  rcases lt_trichotomy a b with h | rfl | h
  · have hlt : compare a b = .lt := compare_lt_iff_lt.2 h
    simp [hlt, h, not_lt_of_gt h]
  · simp
  · have hgt : compare a b = .gt := compare_gt_iff_gt.2 h
    simp [hgt, h]

/-- Names of different ranks. -/
theorem compareRank_of_rank_lt {a b : Key} (h : a.rank < b.rank) : a.compareRank b = .lt := by
  have hlt : compare a.rank b.rank = .lt := compare_lt_iff_lt.2 h
  simp [Key.compareRank, compareLex, compareOn, hlt]

theorem compareRank_of_rank_gt {a b : Key} (h : b.rank < a.rank) : a.compareRank b = .gt := by
  have hgt : compare a.rank b.rank = .gt := compare_gt_iff_gt.2 h
  simp [Key.compareRank, compareLex, compareOn, hgt]

namespace Key

theorem rank_number {str : List unichar} {i : ℤ} (h : tryParseStringToInt str = some i) :
    (name str).rank = 1 := by
  simp [rank, h]

theorem rank_text {str : List unichar} (h : tryParseStringToInt str = none) :
    (name str).rank = 2 := by
  simp [rank, h]

/-- Names lie between the sentinels. -/
theorem rank_name (str : List unichar) : 0 < (name str).rank ∧ (name str).rank < 3 := by
  cases h : tryParseStringToInt str <;> simp [rank, h]

end Key

theorem compareName_eq (a b : List unichar) :
    compareName a b = (Key.name a).compareRank (Key.name b) := by
  cases ha : tryParseStringToInt a with
  | none =>
      cases hb : tryParseStringToInt b with
      | none =>
          simp [compareName, Key.compareRank, compareLex, compareOn, Key.rank, Key.number,
            Key.numberLength, Key.text, ha, hb]
      | some j =>
          rw [compareRank_of_rank_gt (by rw [Key.rank_text ha, Key.rank_number hb]; decide)]
          simp [compareName, ha, hb]
  | some i =>
      cases hb : tryParseStringToInt b with
      | none =>
          rw [compareRank_of_rank_lt (by rw [Key.rank_number ha, Key.rank_text hb]; decide)]
          simp [compareName, ha, hb]
      | some j =>
          simp [compareName, Key.compareRank, compareLex, compareOn, Key.rank, Key.number,
            Key.numberLength, Key.text, ha, hb, ite_compare]

/-- `compareKey:toKey:` compares what kind of key it is, then values, lengths and characters. -/
theorem compareKey_eq : compareKey = Key.compareRank := by
  funext a b
  cases a with
  | minName =>
      cases b with
      | minName => rfl
      | maxName => rfl
      | name b => exact (compareRank_of_rank_lt (a := .minName) (Key.rank_name b).1).symm
  | maxName =>
      cases b with
      | minName => rfl
      | maxName => rfl
      | name b => exact (compareRank_of_rank_gt (Key.rank_name b).2).symm
  | name a =>
      cases b with
      | minName => exact (compareRank_of_rank_gt (b := .minName) (Key.rank_name a).1).symm
      | maxName => exact (compareRank_of_rank_lt (Key.rank_name a).2).symm
      | name b => exact compareName_eq a b

instance : TransCmp compareKey := by
  rw [compareKey_eq]
  unfold Key.compareRank
  infer_instance

/-! ## The strings that are numbers -/

def Digit (c : unichar) : Prop :=
  code '0' ≤ c ∧ c ≤ code '9'

/-- `charValue` -/
def digit (c : unichar) : ℕ :=
  c.toNat - (code '0').toNat

theorem digit_lt {c : unichar} (h : Digit c) : digit c < 10 := by
  have hupper : c.toNat ≤ 57 := UInt16.le_iff_toNat_le.1 h.2
  have hzero : (code '0').toNat = 48 := rfl
  unfold digit
  omega

/-- The character of a digit. -/
def ofDigit (d : ℕ) : unichar :=
  (d + (code '0').toNat).toUInt16

theorem ofDigit_digit {c : unichar} (h : Digit c) : ofDigit (digit c) = c := by
  have hlower : 48 ≤ c.toNat := UInt16.le_iff_toNat_le.1 h.1
  have hzero : (code '0').toNat = 48 := rfl
  have hsum : digit c + (code '0').toNat = c.toNat := by
    unfold digit
    omega
  rw [ofDigit, hsum]
  exact UInt16.ofNat_toNat

theorem not_digit_iff {c : unichar} : (c < code '0' ∨ c > code '9') ↔ ¬ Digit c := by
  simp only [Digit, not_and_or, UInt16.not_le]

/-- The number of a string of digits. -/
def digitsNumber (str : List unichar) : ℕ :=
  Numeral.numeral 10 (str.map digit)

theorem parseDigits_cons {c : unichar} (h : Digit c) (value : ℤ) (str : List unichar) :
    parseDigits value (c :: str) = parseDigits (value * 10 + digit c) str := by
  rw [parseDigits, if_neg (fun hnot => not_digit_iff.1 hnot h)]
  rfl

theorem parseDigits_cons_of_not {c : unichar} (h : ¬ Digit c) (value : ℤ) (str : List unichar) :
    parseDigits value (c :: str) = none := by
  rw [parseDigits, if_pos (not_digit_iff.2 h)]

theorem parseDigits_eq_some {value w : ℤ} {str : List unichar} :
    parseDigits value str = some w ↔
      (∀ c ∈ str, Digit c) ∧ w = value * 10 ^ str.length + digitsNumber str := by
  induction str generalizing value with
  | nil => simp [parseDigits, digitsNumber, eq_comm]
  | cons c str ih =>
      by_cases hc : Digit c
      · have hsum : (value * 10 + digit c) * 10 ^ str.length + (digitsNumber str : ℤ) =
            value * 10 ^ (c :: str).length + (digitsNumber (c :: str) : ℤ) := by
          simp only [digitsNumber, List.map_cons, Numeral.numeral_cons, List.length_cons,
            List.length_map]
          push_cast
          ring
        rw [parseDigits_cons hc, ih, hsum]
        simp [hc]
      · simp [parseDigits_cons_of_not hc, hc]

theorem digitsNumber_inj {str str' : List unichar} (hlen : str.length = str'.length)
    (h : ∀ c ∈ str, Digit c) (h' : ∀ c ∈ str', Digit c)
    (heq : digitsNumber str = digitsNumber str') : str = str' := by
  have hmap : str.map digit = str'.map digit := by
    refine Numeral.numeral_inj (b := 10) (by decide) (by simpa using hlen) ?_ ?_ heq
    · intro d hd
      rcases List.mem_map.1 hd with ⟨c, hc, rfl⟩
      exact digit_lt (h c hc)
    · intro d hd
      rcases List.mem_map.1 hd with ⟨c, hc, rfl⟩
      exact digit_lt (h' c hc)
  have hback : ∀ l : List unichar, (∀ c ∈ l, Digit c) → (l.map digit).map ofDigit = l := by
    intro l hl
    have hid : l.map (ofDigit ∘ digit) = l.map id :=
      List.map_congr_left fun c hc => ofDigit_digit (hl c hc)
    simpa using hid
  rw [← hback str h, ← hback str' h', hmap]

/-- The strings that `tryParseStringToInt` takes, with their values. -/
inductive Spells : List unichar → ℤ → Prop where
  | digits (str : List unichar) (hdigits : ∀ c ∈ str, Digit c) (hpos : 0 < str.length)
      (hlen : str.length ≤ 11) (hmax : (digitsNumber str : ℤ) ≤ INTEGER_32_MAX) :
      Spells str (digitsNumber str)
  | negative (str : List unichar) (hdigits : ∀ c ∈ str, Digit c) (hpos : 0 < str.length)
      (hlen : str.length ≤ 10) (hmin : INTEGER_32_MIN ≤ -(digitsNumber str : ℤ)) :
      Spells (code '-' :: str) (-digitsNumber str)

theorem not_digit_minus : ¬ Digit (code '-') := by
  unfold Digit
  decide

/-- The digits of a number without a sign. -/
theorem tryParseStringToInt_of_ne {c : unichar} {str : List unichar} {value : ℤ}
    (h : c ≠ code '-') :
    tryParseStringToInt (c :: str) = some value ↔
      (c :: str).length ≤ 11 ∧ parseDigits 0 (c :: str) = some value ∧
        INTEGER_32_MIN ≤ value ∧ value ≤ INTEGER_32_MAX := by
  have hhead : (c :: str).head? ≠ some (code '-') := by simpa using h
  by_cases hlen : (c :: str).length > 11
  · rw [tryParseStringToInt, if_pos (.inl hlen)]
    simp only [reduceCtorEq, false_iff]
    intro hparts
    omega
  · rw [tryParseStringToInt, if_neg (by simpa using hlen), if_neg (fun hneg => hhead hneg.1)]
    simp only [if_neg hhead]
    cases hparse : parseDigits 0 (c :: str) with
    | none => simp
    | some w =>
        by_cases hrange : w < INTEGER_32_MIN ∨ w > INTEGER_32_MAX
        · simp only [Option.bind_some, if_pos hrange, reduceCtorEq, false_iff]
          rintro ⟨_, hw, hmin, hmax⟩
          cases hw
          omega
        · simp only [Option.bind_some, if_neg hrange, Option.some.injEq]
          constructor
          · rintro rfl
            omega
          · intro hparts
            exact hparts.2.1

/-- The digits of a number after its sign. -/
theorem tryParseStringToInt_minus {str : List unichar} {value : ℤ} :
    tryParseStringToInt (code '-' :: str) = some value ↔
      0 < str.length ∧ str.length ≤ 10 ∧ parseDigits 0 str = some (-value) ∧
        INTEGER_32_MIN ≤ value ∧ value ≤ INTEGER_32_MAX := by
  have hhead : (code '-' :: str).head? = some (code '-') := rfl
  by_cases hlen : (code '-' :: str).length > 11
  · rw [tryParseStringToInt, if_pos (.inl hlen)]
    simp only [reduceCtorEq, false_iff]
    rintro ⟨_, hle, _⟩
    simp only [List.length_cons] at hlen
    omega
  · rw [tryParseStringToInt, if_neg (by simpa using hlen)]
    simp only [List.length_cons] at hlen
    by_cases hone : str.length = 0
    · rw [if_pos ⟨hhead, by simp [hone]⟩]
      simp [hone]
    · rw [if_neg (fun h => hone (by simpa using h.2))]
      simp only [if_pos hhead, List.tail_cons]
      cases hparse : parseDigits 0 str with
      | none => simp
      | some w =>
          by_cases hrange : -w < INTEGER_32_MIN ∨ -w > INTEGER_32_MAX
          · simp only [Option.bind_some, if_pos hrange, reduceCtorEq, false_iff]
            rintro ⟨_, _, hw, hmin, hmax⟩
            cases hw
            omega
          · simp only [Option.bind_some, if_neg hrange, Option.some.injEq]
            constructor
            · rintro rfl
              omega
            · intro hparts
              omega

theorem tryParseStringToInt_eq_some {str : List unichar} {value : ℤ} :
    tryParseStringToInt str = some value ↔ Spells str value := by
  constructor
  · intro h
    cases str with
    | nil => simp [tryParseStringToInt] at h
    | cons c str =>
        by_cases hminus : c = code '-'
        · rw [hminus] at h ⊢
          rcases tryParseStringToInt_minus.1 h with ⟨hpos, hlen, hparse, hmin, hmax⟩
          rcases parseDigits_eq_some.1 hparse with ⟨hdigits, hsum⟩
          have hvalue : value = -digitsNumber str := by
            simp only [zero_mul, zero_add] at hsum
            omega
          rw [hvalue] at hmin ⊢
          exact .negative str hdigits hpos hlen hmin
        · rcases (tryParseStringToInt_of_ne hminus).1 h with ⟨hlen, hparse, hmin, hmax⟩
          rcases parseDigits_eq_some.1 hparse with ⟨hdigits, hsum⟩
          have hvalue : value = digitsNumber (c :: str) := by simpa using hsum
          rw [hvalue] at hmax ⊢
          exact .digits (c :: str) hdigits (by simp) hlen hmax
  · intro h
    cases h with
    | digits str hdigits hpos hlen hmax =>
        cases str with
        | nil => simp at hpos
        | cons c str =>
            have hminus : c ≠ code '-' := by
              rintro rfl
              exact not_digit_minus (hdigits _ (by simp))
            refine (tryParseStringToInt_of_ne hminus).2 ⟨hlen, ?_, ?_, hmax⟩
            · exact parseDigits_eq_some.2 ⟨hdigits, by simp⟩
            · unfold INTEGER_32_MIN
              omega
    | negative str hdigits hpos hlen hmin =>
        refine tryParseStringToInt_minus.2 ⟨hpos, hlen, ?_, hmin, ?_⟩
        · exact parseDigits_eq_some.2 ⟨hdigits, by simp⟩
        · unfold INTEGER_32_MAX
          omega

/-! ## Keys that are taken for one -/

/-- `0…0` and `-0…0` of one length. -/
def SameZero (a b : List unichar) : Prop :=
  ∃ n : ℕ, 0 < n ∧ n ≤ 10 ∧
    a = List.replicate (n + 1) (code '0') ∧ b = code '-' :: List.replicate n (code '0')

theorem digit_zero : Digit (code '0') := by
  unfold Digit
  decide

theorem digits_replicate_zero (n : ℕ) : ∀ c ∈ List.replicate n (code '0'), Digit c := by
  intro c hc
  rw [List.eq_of_mem_replicate hc]
  exact digit_zero

theorem digitsNumber_replicate_zero (n : ℕ) :
    digitsNumber (List.replicate n (code '0')) = 0 := by
  have hzero : digit (code '0') = 0 := by decide
  simp only [digitsNumber, List.map_replicate, hzero, Numeral.numeral_replicate_zero]

/-- Only zeros make zero. -/
theorem eq_zeros {str : List unichar} (h : ∀ c ∈ str, Digit c) (hzero : digitsNumber str = 0) :
    str = List.replicate str.length (code '0') := by
  refine digitsNumber_inj (by simp) h (digits_replicate_zero _) ?_
  rw [hzero, digitsNumber_replicate_zero]

theorem compareName_self (a : List unichar) : compareName a a = .eq := by
  cases ha : tryParseStringToInt a with
  | none => simp [compareName, ha]
  | some i => simp [compareName, ha]

/-- Two numbers are the same key if they have one value and one length. -/
theorem compareName_numbers {a b : List unichar} {i j : ℤ} (ha : tryParseStringToInt a = some i)
    (hb : tryParseStringToInt b = some j) :
    compareName a b = .eq ↔ i = j ∧ a.length = b.length := by
  have hthen : compareName a b = (compare i j).then (compare a.length b.length) := by
    have hlen := ite_compare a.length b.length .eq
    simp only [compareName, ha, hb, ite_compare, hlen, Ordering.then_eq]
  rw [hthen, Ordering.then_eq_eq, compare_eq_iff_eq, compare_eq_iff_eq]

theorem SameZero.spells {a b : List unichar} (h : SameZero a b) :
    Spells a 0 ∧ Spells b 0 ∧ a.length = b.length := by
  rcases h with ⟨n, hpos, hlen, rfl, rfl⟩
  have hplain := Spells.digits _ (digits_replicate_zero (n + 1)) (by simp)
    (by simp; omega) (by rw [digitsNumber_replicate_zero]; decide)
  have hsigned := Spells.negative _ (digits_replicate_zero n) (by simpa using hpos)
    (by simpa using hlen) (by rw [digitsNumber_replicate_zero]; decide)
  rw [digitsNumber_replicate_zero] at hplain hsigned
  exact ⟨hplain, hsigned, by simp⟩

theorem sameZero_of_spells {str str' : List unichar} (hdigits : ∀ c ∈ str, Digit c)
    (hdigits' : ∀ c ∈ str', Digit c) (hpos : 0 < str'.length) (hlen : str'.length ≤ 10)
    (hlength : str.length = (code '-' :: str').length)
    (hvalue : (digitsNumber str : ℤ) = -digitsNumber str') : SameZero str (code '-' :: str') := by
  have hzero : digitsNumber str = 0 := by omega
  have hzero' : digitsNumber str' = 0 := by omega
  refine ⟨str'.length, hpos, hlen, ?_, ?_⟩
  · rw [← List.length_cons, ← hlength]
    exact eq_zeros hdigits hzero
  · rw [← eq_zeros hdigits' hzero']

theorem compareName_eq_iff {a b : List unichar} :
    compareName a b = .eq ↔ a = b ∨ SameZero a b ∨ SameZero b a := by
  constructor
  · intro h
    cases ha : tryParseStringToInt a with
    | none =>
        cases hb : tryParseStringToInt b with
        | none => exact .inl (by simpa [compareName, ha, hb] using h)
        | some j => simp [compareName, ha, hb] at h
    | some i =>
        cases hb : tryParseStringToInt b with
        | none => simp [compareName, ha, hb] at h
        | some j =>
            rcases (compareName_numbers ha hb).1 h with ⟨rfl, hlength⟩
            have hspells := tryParseStringToInt_eq_some.1 hb
            generalize hi : i = j at hspells
            cases tryParseStringToInt_eq_some.1 ha with
            | digits _ hdigits hpos hlen =>
                cases hspells with
                | digits _ hdigits' =>
                    exact .inl (digitsNumber_inj hlength hdigits hdigits' (by omega))
                | negative str' hdigits' hpos' hlen' =>
                    -- a number and the negative of one
                    exact .inr (.inl (sameZero_of_spells hdigits hdigits' hpos' hlen' hlength hi))
            | negative str hdigits hpos hlen =>
                cases hspells with
                | digits _ hdigits' =>
                    exact .inr (.inr
                      (sameZero_of_spells hdigits' hdigits hpos hlen hlength.symm hi.symm))
                | negative str' hdigits' =>
                    refine .inl (congrArg (code '-' :: ·) ?_)
                    exact digitsNumber_inj (by simpa using hlength) hdigits hdigits' (by omega)
  · rintro (rfl | h | h)
    · exact compareName_self a
    · rcases h.spells with ⟨hplain, hsigned, hlength⟩
      exact (compareName_numbers (tryParseStringToInt_eq_some.2 hplain)
        (tryParseStringToInt_eq_some.2 hsigned)).2 ⟨rfl, hlength⟩
    · rcases h.spells with ⟨hplain, hsigned, hlength⟩
      exact (compareName_numbers (tryParseStringToInt_eq_some.2 hsigned)
        (tryParseStringToInt_eq_some.2 hplain)).2 ⟨rfl, hlength.symm⟩

theorem compareKey_eq_iff {a b : Key} :
    compareKey a b = .eq ↔
      a = b ∨ ∃ s t, (SameZero s t ∨ SameZero t s) ∧ a = .name s ∧ b = .name t := by
  cases a <;> cases b
  case name.name a b => simp [compareKey, compareName_eq_iff]
  all_goals simp [compareKey]

/-- The order of the children is a total preorder, and only `0…0` and `-0…0` of one length are two
keys that it takes for one. -/
theorem keyComparator_order :
    TransCmp compareKey ∧
      ∀ a b, compareKey a b = .eq ↔
        a = b ∨ ∃ s t, (SameZero s t ∨ SameZero t s) ∧ a = .name s ∧ b = .name t :=
  ⟨inferInstance, fun _ _ => compareKey_eq_iff⟩

/-! ## The keys of an array -/

/-- `[NSString stringWithFormat:@"%i", i]` for an index. -/
def decimal (i : ℕ) : List unichar :=
  if i = 0 then [code '0'] else (Nat.digits 10 i).reverse.map ofDigit

theorem digit_ofDigit {d : ℕ} (h : d < 10) : Digit (ofDigit d) ∧ digit (ofDigit d) = d := by
  have hzero : (code '0').toNat = 48 := rfl
  have htoNat : (ofDigit d).toNat = d + 48 := by
    rw [ofDigit, hzero, UInt16.toNat_ofNat']
    omega
  refine ⟨⟨?_, ?_⟩, ?_⟩
  · rw [UInt16.le_iff_toNat_le, htoNat, hzero]
    omega
  · have hnine : (code '9').toNat = 57 := rfl
    rw [UInt16.le_iff_toNat_le, htoNat, hnine]
    omega
  · rw [digit, htoNat, hzero]
    omega

theorem decimal_spec (i : ℕ) :
    (∀ c ∈ decimal i, Digit c) ∧ digitsNumber (decimal i) = i ∧ 0 < (decimal i).length := by
  by_cases hzero : i = 0
  · rw [decimal, if_pos hzero, hzero]
    refine ⟨digits_replicate_zero 1, digitsNumber_replicate_zero 1, by simp⟩
  · have hdigits : ∀ d ∈ (Nat.digits 10 i).reverse, d < 10 := by
      intro d hd
      exact Nat.digits_lt_base (by decide) (List.mem_reverse.1 hd)
    rw [decimal, if_neg hzero]
    refine ⟨?_, ?_, ?_⟩
    · intro c hc
      rcases List.mem_map.1 hc with ⟨d, hd, rfl⟩
      exact (digit_ofDigit (hdigits d hd)).1
    · have hback : ((Nat.digits 10 i).reverse.map ofDigit).map digit =
          (Nat.digits 10 i).reverse := by
        rw [List.map_map]
        have hid : (Nat.digits 10 i).reverse.map (digit ∘ ofDigit) =
            (Nat.digits 10 i).reverse.map id :=
          List.map_congr_left fun d hd => (digit_ofDigit (hdigits d hd)).2
        simpa using hid
      rw [digitsNumber, hback, Numeral.numeral, List.reverse_reverse, Nat.ofDigits_digits]
    · simp only [List.length_map, List.length_reverse, List.length_pos_iff]
      exact Nat.digits_ne_nil_iff_ne_zero.2 hzero

/-- The decimal numeral of an index reads back as the index. -/
theorem tryParseStringToInt_decimal {i : ℕ} (h : (i : ℤ) ≤ INTEGER_32_MAX) :
    tryParseStringToInt (decimal i) = some (i : ℤ) := by
  rcases decimal_spec i with ⟨hdigits, hnumber, hpos⟩
  have hlen : (decimal i).length ≤ 11 := by
    by_cases hzero : i = 0
    · simp [decimal, hzero]
    · have hlt : i < 10 ^ 11 := by
        unfold INTEGER_32_MAX at h
        omega
      simpa [decimal, hzero] using (Nat.digits_length_le_iff (by decide) i).2 hlt
  have hspells := Spells.digits (decimal i) hdigits hpos hlen (by rwa [hnumber])
  rw [hnumber] at hspells
  exact tryParseStringToInt_eq_some.2 hspells

/-- The children of an array keep the order of their indices, and every other name comes after
them. -/
theorem compareKey_decimal {i : ℕ} (hi : (i : ℤ) ≤ INTEGER_32_MAX) :
    (∀ j : ℕ, (j : ℤ) ≤ INTEGER_32_MAX →
      compareKey (.name (decimal i)) (.name (decimal j)) = compare i j) ∧
    ∀ str, tryParseStringToInt str = none →
      compareKey (.name (decimal i)) (.name str) = .lt := by
  have hparse := tryParseStringToInt_decimal hi
  constructor
  · intro j hj
    have hparse' := tryParseStringToInt_decimal hj
    rcases lt_trichotomy i j with h | rfl | h
    · simp [compareKey, compareName, hparse, hparse', Nat.compare_eq_lt.2 h, h, not_lt_of_gt h]
    · simp [compareKey, compareName_self]
    · simp [compareKey, compareName, hparse, hparse', Nat.compare_eq_gt.2 h, h]
  · intro str hstr
    simp [compareKey, compareName, hparse, hstr]

theorem compareKey_decimal_two_ten :
    compareKey (.name (decimal 2)) (.name (decimal 10)) = .lt ∧
      compareKey (.name (decimal 2)) (.name (decimal 10 ++ [code 'a'])) = .lt := by
  have htwo := compareKey_decimal (i := 2) (by decide)
  refine ⟨htwo.1 10 (by decide), htwo.2 _ ?_⟩
  decide

end Keys
end AppChatAgain
