import Mathlib.Data.Nat.Digits.Lemmas
import Mathlib.Order.Compare

/-!
# Numeral — numerals of one base, most significant digit first

The library has numerals with the least significant digit first (`Nat.ofDigits`).  Keys are written
the other way, and for them the order of the numerals is the order of the numbers.

* `numeral`         : the number of a list of digits;
* `compare_numeral` : numerals of one length compare as their numbers do;
* `increment`       : the next numeral of the same length, if there is one.
-/

namespace AppChatAgain
namespace Foundation
namespace Numeral

universe u v

/-! ## Comparing lists -/

/-- A map that keeps the order of the elements keeps the order of the lists. -/
theorem compare_map {α : Type u} {β : Type v} [Ord α] [Ord β] {f : α → β} {l₁ l₂ : List α}
    (h : ∀ a ∈ l₁, ∀ b ∈ l₂, compare (f a) (f b) = compare a b) :
    compare (l₁.map f) (l₂.map f) = compare l₁ l₂ := by
  induction l₁ generalizing l₂ with
  | nil =>
      cases l₂ with
      | nil => rfl
      | cons b l₂ => simp [List.compare_nil_cons]
  | cons a l₁ ih =>
      cases l₂ with
      | nil => simp [List.compare_cons_nil]
      | cons b l₂ =>
          have hhead : compare (f a) (f b) = compare a b := h a (by simp) b (by simp)
          have htail : compare (l₁.map f) (l₂.map f) = compare l₁ l₂ := by
            refine ih ?_
            intro a' ha' b' hb'
            exact h a' (by simp [ha']) b' (by simp [hb'])
          simp [List.compare_cons_cons, hhead, htail]

/-! ## The number of a numeral -/

variable {b : ℕ}

/-- The number of the digits `ds` in base `b`. -/
def numeral (b : ℕ) (ds : List ℕ) : ℕ :=
  Nat.ofDigits b ds.reverse

@[simp] theorem numeral_nil : numeral b [] = 0 :=
  rfl

theorem numeral_cons (d : ℕ) (ds : List ℕ) :
    numeral b (d :: ds) = d * b ^ ds.length + numeral b ds := by
  simp only [numeral, Nat.ofDigits_reverse_cons]
  ring

theorem numeral_concat (ds : List ℕ) (d : ℕ) :
    numeral b (ds ++ [d]) = numeral b ds * b + d := by
  simp only [numeral, List.reverse_append, List.reverse_singleton, List.singleton_append,
    Nat.ofDigits_cons]
  ring

theorem numeral_append (ds es : List ℕ) :
    numeral b (ds ++ es) = numeral b ds * b ^ es.length + numeral b es := by
  simp only [numeral, List.reverse_append, Nat.ofDigits_append, List.length_reverse]
  ring

@[simp] theorem numeral_replicate_zero (n : ℕ) : numeral b (List.replicate n 0) = 0 := by
  induction n with
  | zero => rfl
  | succ n ih => simp [List.replicate_succ, numeral_cons, ih]

theorem numeral_lt (hb : 1 < b) {ds : List ℕ} (h : ∀ d ∈ ds, d < b) :
    numeral b ds < b ^ ds.length := by
  have hlt := Nat.ofDigits_lt_base_pow_length hb (l := ds.reverse) (by simpa using h)
  simpa [numeral] using hlt

/-- A number has one numeral of a given length. -/
theorem numeral_inj (hb : 1 < b) {ds es : List ℕ} (hlen : ds.length = es.length)
    (hds : ∀ d ∈ ds, d < b) (hes : ∀ d ∈ es, d < b) (h : numeral b ds = numeral b es) :
    ds = es := by
  have hrev : ds.reverse = es.reverse :=
    Nat.ofDigits_inj_of_len_eq hb (by simpa using hlen) (by simpa using hds) (by simpa using hes) h
  simpa using hrev

/-- Numerals of one length compare as their numbers do: the first different digit decides. -/
theorem compare_numeral (hb : 1 < b) {ds es : List ℕ} (hlen : ds.length = es.length)
    (hds : ∀ d ∈ ds, d < b) (hes : ∀ d ∈ es, d < b) :
    compare ds es = compare (numeral b ds) (numeral b es) := by
  induction ds generalizing es with
  | nil =>
      have hnil : es = [] := List.length_eq_zero_iff.1 hlen.symm
      simp [hnil, Std.compare_self]
  | cons d ds ih =>
      cases es with
      | nil => simp at hlen
      | cons e es =>
          have hlen' : ds.length = es.length := by simpa using hlen
          have hrest : ∀ x ∈ ds, x < b := fun x hx => hds x (by simp [hx])
          have hrest' : ∀ x ∈ es, x < b := fun x hx => hes x (by simp [hx])
          have htail := ih hlen' hrest hrest'
          have hd := numeral_lt hb hrest
          have he := numeral_lt hb hrest'
          rw [List.compare_cons_cons, htail, numeral_cons, numeral_cons, ← hlen']
          rw [← hlen'] at he
          rcases Nat.lt_trichotomy d e with hlt | rfl | hgt
          · -- the rest of the smaller numeral does not make up for a digit
            have hstep : (d + 1) * b ^ ds.length ≤ e * b ^ ds.length := Nat.mul_le_mul_right _ hlt
            have hdecided : compare d e = .lt := Nat.compare_eq_lt.2 hlt
            have hsum : d * b ^ ds.length + numeral b ds < e * b ^ ds.length + numeral b es := by
              linarith
            simp [hdecided, Nat.compare_eq_lt.2 hsum]
          · simp [Std.compare_self, Nat.compare_eq_ite_lt]
          · have hstep : (e + 1) * b ^ ds.length ≤ d * b ^ ds.length := Nat.mul_le_mul_right _ hgt
            have hdecided : compare d e = .gt := Nat.compare_eq_gt.2 hgt
            have hsum : e * b ^ ds.length + numeral b es < d * b ^ ds.length + numeral b ds := by
              linarith
            simp [hdecided, Nat.compare_eq_gt.2 hsum]

/-! ## The next numeral -/

/-- Add one, with the carry; `ds` has its least significant digit first, and `none` is the carry
out of its last digit. -/
def increment (b : ℕ) : List ℕ → Option (List ℕ)
  | [] => none
  | d :: ds => if d + 1 = b then (increment b ds).map (0 :: ·) else some ((d + 1) :: ds)

theorem length_increment {ds es : List ℕ} (h : increment b ds = some es) :
    es.length = ds.length := by
  induction ds generalizing es with
  | nil => simp [increment] at h
  | cons d ds ih =>
      by_cases hd : d + 1 = b
      · rcases Option.map_eq_some_iff.1 (by simpa [increment, hd] using h) with ⟨fs, hfs, rfl⟩
        simp [ih hfs]
      · have hes : (d + 1) :: ds = es := by simpa [increment, hd] using h
        simp [← hes]

theorem digits_increment {ds es : List ℕ} (h : increment b ds = some es)
    (hds : ∀ d ∈ ds, d < b) : ∀ d ∈ es, d < b := by
  induction ds generalizing es with
  | nil => simp [increment] at h
  | cons d ds ih =>
      have hd : d < b := hds d (by simp)
      by_cases heq : d + 1 = b
      · rcases Option.map_eq_some_iff.1 (by simpa [increment, heq] using h) with ⟨fs, hfs, rfl⟩
        have hrest := ih hfs (fun x hx => hds x (by simp [hx]))
        intro x hx
        rcases List.mem_cons.1 hx with rfl | hx
        · omega
        · exact hrest x hx
      · have hes : (d + 1) :: ds = es := by simpa [increment, heq] using h
        intro x hx
        rw [← hes] at hx
        rcases List.mem_cons.1 hx with rfl | hx
        · omega
        · exact hds x (by simp [hx])

theorem ofDigits_increment {ds es : List ℕ} (h : increment b ds = some es) :
    Nat.ofDigits b es = Nat.ofDigits b ds + 1 := by
  induction ds generalizing es with
  | nil => simp [increment] at h
  | cons d ds ih =>
      by_cases hd : d + 1 = b
      · rcases Option.map_eq_some_iff.1 (by simpa [increment, hd] using h) with ⟨fs, hfs, rfl⟩
        -- the carry adds `b`
        have hcarry := ih hfs
        calc
          Nat.ofDigits b (0 :: fs) = b * (Nat.ofDigits b ds + 1) := by
                simp [Nat.ofDigits_cons, hcarry]
          _ = (d + 1) + b * Nat.ofDigits b ds := by rw [hd]; ring
          _ = Nat.ofDigits b (d :: ds) + 1 := by rw [Nat.ofDigits_cons]; ring
      · have hes : (d + 1) :: ds = es := by simpa [increment, hd] using h
        rw [← hes, Nat.ofDigits_cons, Nat.ofDigits_cons]
        ring

/-- Only the numeral of the greatest digits has no successor. -/
theorem increment_eq_none {ds : List ℕ} (hds : ∀ d ∈ ds, d < b) :
    increment b ds = none ↔ Nat.ofDigits b ds + 1 = b ^ ds.length := by
  induction ds with
  | nil => simp [increment]
  | cons d ds ih =>
      have hd : d < b := hds d (by simp)
      have hrest := ih (fun x hx => hds x (by simp [hx]))
      by_cases heq : d + 1 = b
      · have hcarry : increment b (d :: ds) = (increment b ds).map (0 :: ·) := by
          simp [increment, heq]
        have hsum : Nat.ofDigits b (d :: ds) + 1 = b * (Nat.ofDigits b ds + 1) := by
          rw [Nat.ofDigits_cons, mul_add, mul_one]
          omega
        rw [hcarry, Option.map_eq_none_iff, hrest, hsum, List.length_cons, pow_succ, mul_comm b]
        have hpos : 0 < b := by omega
        exact (Nat.mul_left_inj hpos.ne').symm
      · have hsome : increment b (d :: ds) = some ((d + 1) :: ds) := by simp [increment, heq]
        simp only [hsome, reduceCtorEq, false_iff]
        intro hfull
        -- the numeral would be full in its first digit too
        have hmod : (Nat.ofDigits b (d :: ds) + 1) % b = (d + 1) % b := by
          rw [Nat.ofDigits_cons, Nat.add_right_comm, Nat.add_mul_mod_self_left]
        rw [hfull, List.length_cons, pow_succ, Nat.mul_mod_left] at hmod
        have hlt : (d + 1) % b = d + 1 := Nat.mod_eq_of_lt (by omega)
        omega

end Numeral
end Foundation
end AppChatAgain
