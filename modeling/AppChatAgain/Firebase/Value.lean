import Mathlib.Data.Rat.Floor
import AppChatAgain.Foundation.KeyTree

/-!
# Firebase.Value — snapshot values, casts and traps

What `DataSnapshot.value` returns, and the Swift casts the app applies to it.

* A stored value is a tree of string keys; `NSNull` is `KeyTree.empty`.
* `as? T` is a function into `Option`, `as! T` and `!` turn `none` into a `Trap`.
* Where it matters what was written before a trap, a function runs in `EStateM Trap`.
* An array-like node is read as a dictionary here: it has none of the fields the app reads, so
  the casts that follow fail in the same places.
-/

namespace AppChatAgain
namespace Firebase

open Foundation

/-! ## Numbers -/

/-- `NSNumber`, by the number it stands for. -/
structure NSNumber where
  value : ℚ
  deriving DecidableEq, Repr

namespace NSNumber

/-- `NSNumber(value: Int)`. -/
def ofInt (i : ℤ) : NSNumber :=
  ⟨i⟩

/-- `intValue`, a 64-bit `Int`: the number rounded toward zero, and beyond the range of `Int` the
end of the range. -/
def intValue (n : NSNumber) : ℤ :=
  max (-2 ^ 63) (min (2 ^ 63 - 1) (if 0 ≤ n.value then ⌊n.value⌋ else ⌈n.value⌉))

instance : Zero NSNumber :=
  ⟨ofInt 0⟩

end NSNumber

/-! ## Stored values -/

inductive Scalar where
  | string (s : String)
  | number (n : NSNumber)
  | bool (b : Bool)
  deriving DecidableEq, Repr

abbrev Json := KeyTree String Scalar

namespace Json

def string (s : String) : Json :=
  .leaf (.string s)

def number (n : NSNumber) : Json :=
  .leaf (.number n)

def bool (b : Bool) : Json :=
  .leaf (.bool b)

/-- `dictionary["k"]`. -/
abbrev field (j : Json) (k : String) : Json :=
  j.child k

/-- `as? NSDictionary`; the entries are read with `field`. -/
def asNSDictionary : Json → Option Json
  | .node cs => some (.node cs)
  | _ => none

/-- `as? String`. -/
def asString : Json → Option String
  | .leaf (.string s) => some s
  | _ => none

/-- `as? NSNumber`.  A stored boolean is an `NSNumber` too. -/
def asNSNumber : Json → Option NSNumber
  | .leaf (.number n) => some n
  | .leaf (.bool b) => some (NSNumber.ofInt (if b then 1 else 0))
  | _ => none

@[simp] theorem asString_string (s : String) : (string s).asString = some s :=
  rfl

@[simp] theorem asNSNumber_number (n : NSNumber) : (number n).asNSNumber = some n :=
  rfl

@[simp] theorem asString_empty : asString .empty = none :=
  rfl

@[simp] theorem asNSNumber_empty : asNSNumber .empty = none :=
  rfl

theorem asString_eq_none_iff {j : Json} : j.asString = none ↔ ∀ s, j ≠ string s := by
  constructor
  · rintro h s rfl
    cases h
  · intro h
    cases j with
    | leaf v =>
        cases v with
        | string s => exact absurd rfl (h s)
        | number n => rfl
        | bool b => rfl
    | empty => rfl
    | node cs => rfl

/-- What is not an `NSNumber` is neither a number nor a boolean. -/
theorem asNSNumber_eq_none_iff {j : Json} :
    j.asNSNumber = none ↔ (∀ n, j ≠ number n) ∧ ∀ b, j ≠ bool b := by
  constructor
  · intro h
    refine ⟨?_, ?_⟩
    · rintro n rfl
      cases h
    · rintro b rfl
      cases h
  · rintro ⟨hnumber, hbool⟩
    cases j with
    | leaf v =>
        cases v with
        | string s => rfl
        | number n => exact absurd rfl (hnumber n)
        | bool b => exact absurd rfl (hbool b)
    | empty => rfl
    | node cs => rfl

/-- A successful dictionary cast returns the value itself. -/
theorem eq_of_asNSDictionary {j d : Json} (h : j.asNSDictionary = some d) : d = j := by
  cases j with
  | empty => cases h
  | leaf v => cases h
  | node cs =>
      cases h
      rfl

/-- A value with a string somewhere in a field is a dictionary. -/
theorem asNSDictionary_of_field {j : Json} {k s : String} (h : (j.field k).asString = some s) :
    j.asNSDictionary = some j := by
  cases j with
  | empty => cases h
  | leaf v => cases h
  | node cs => rfl

end Json

/-! ## Traps -/

/-- The ways a Swift expression of the app stops the program. -/
inductive Trap where
  | nilUnwrap
  | failedCast
  | invalidPath
  deriving DecidableEq, Repr

/-- Postfix `!`. -/
def forceUnwrap {α : Type} : Option α → Except Trap α
  | some a => .ok a
  | none => .error .nilUnwrap

/-- `as! T`, applied to the result of the conditional cast. -/
def forceCast {α : Type} : Option α → Except Trap α
  | some a => .ok a
  | none => .error .failedCast

@[simp] theorem forceUnwrap_some {α : Type} (a : α) : forceUnwrap (some a) = .ok a :=
  rfl

@[simp] theorem forceCast_some {α : Type} (a : α) : forceCast (some a) = .ok a :=
  rfl

theorem forceUnwrap_eq_ok {α : Type} {o : Option α} {a : α} :
    forceUnwrap o = .ok a ↔ o = some a := by
  cases o <;> simp [forceUnwrap]

theorem forceCast_eq_ok {α : Type} {o : Option α} {a : α} :
    forceCast o = .ok a ↔ o = some a := by
  cases o <;> simp [forceCast]

/-- A sequence of partial computations succeeds when both parts do. -/
theorem bind_eq_ok {α β : Type} {x : Except Trap α} {f : α → Except Trap β} {b : β} :
    (x >>= f) = .ok b ↔ ∃ a, x = .ok a ∧ f a = .ok b := by
  cases x with
  | error t => simp [bind, Except.bind]
  | ok a => simp [bind, Except.bind]

/-- Two computations with the same outcome, as far as `f` and `g` tell. -/
theorem cases_of_map_eq {α β γ : Type} {f : α → γ} {g : β → γ} {x : Except Trap α}
    {y : Except Trap β} (h : x.map f = y.map g) :
    (∃ a b, x = .ok a ∧ y = .ok b ∧ f a = g b) ∨ ∃ t, x = .error t ∧ y = .error t := by
  cases x with
  | ok a =>
      cases y with
      | ok b => exact Or.inl ⟨a, b, rfl, rfl, Except.ok.inj h⟩
      | error t => cases h
  | error t =>
      cases y with
      | ok b => cases h
      | error t' =>
          cases h
          exact Or.inr ⟨t, rfl, rfl⟩

/-! ## State that a trap leaves behind -/

section Writes

variable {σ α β : Type}

/-- A partial computation between writes: where it fails, what was written before stays. -/
theorem ofExcept_bind (x : Except Trap α) (f : α → EStateM Trap σ β) (s : σ) :
    (ofExcept x >>= f) s =
      match x with
      | .ok a => f a s
      | .error t => .error t s := by
  cases x with
  | ok a => rfl
  | error t => rfl

theorem modify_run (g : σ → σ) (s : σ) : (modify g : EStateM Trap σ Unit) s = .ok () (g s) :=
  rfl

theorem modify_bind (g : σ → σ) (f : Unit → EStateM Trap σ β) (s : σ) :
    ((modify g : EStateM Trap σ Unit) >>= f) s = f () (g s) :=
  rfl

theorem get_bind (f : σ → EStateM Trap σ β) (s : σ) :
    ((get : EStateM Trap σ σ) >>= f) s = f s s :=
  rfl

end Writes

end Firebase
end AppChatAgain
