import Mathlib.Data.List.Basic

/-!
# Iteration — visiting a list, and handing one out

* `visit`  : call a block for each element of a list in order, until it asks to stop;
* `Yields` : the calls of `next` return the elements of a list one by one, and nothing afterwards.
-/

namespace AppChatAgain
namespace Foundation
namespace Iteration

universe u v w

variable {α : Type u} {σ : Type v} {ε : Type w}

/-! ## Blocks -/

/-- Call `block` for the elements in order, on a state that it may change; `true` stops. -/
def visit (block : α → σ → Bool × σ) : List α → σ → Bool × σ
  | [], s => (false, s)
  | a :: l, s =>
      match block a s with
      | (true, s') => (true, s')
      | (false, s') => visit block l s'

variable (block : α → σ → Bool × σ)

@[simp] theorem visit_nil (s : σ) : visit block [] s = (false, s) :=
  rfl

/-- The second part of a list is visited only if the first one has not stopped. -/
theorem visit_append (l r : List α) (s : σ) :
    visit block (l ++ r) s =
      match visit block l s with
      | (true, s') => (true, s')
      | (false, s') => visit block r s' := by
  induction l generalizing s with
  | nil => rfl
  | cons a l ih =>
      rcases ha : block a s with ⟨stop, s'⟩
      cases stop with
      | true => simp [visit, ha]
      | false => simpa [visit, ha] using ih s'

/-- A block that checks every element and stops at the first one that fails. -/
theorem visit_check (p : α → Bool) (l : List α) :
    (visit (fun a ok => (!(ok && p a), ok && p a)) l true).2 = l.all p := by
  induction l with
  | nil => rfl
  | cons a l ih =>
      cases ha : p a with
      | false => simp [visit, ha]
      | true =>
          simpa only [visit, ha, Bool.and_true, Bool.not_true, List.all_cons, Bool.true_and]
            using ih

/-! ## Enumerators -/

variable (next : ε → Option α × ε)

/-- What the call after `n` others returns. -/
def nth : ℕ → ε → Option α
  | 0, e => (next e).1
  | n + 1, e => nth n (next e).2

/-- The calls return the elements of the list, and then nothing. -/
def Yields (e : ε) (l : List α) : Prop :=
  ∀ n, nth next n e = l[n]?

/-- What is left to hand out loses its first element by every call. -/
theorem yields_of_next {I : ε → Prop} {left : ε → List α}
    (hnext : ∀ e, I e →
      I (next e).2 ∧ (next e).1 = (left e).head? ∧ left (next e).2 = (left e).tail)
    {e : ε} (he : I e) : Yields next e (left e) := by
  intro n
  induction n generalizing e with
  | zero => simpa [nth, List.head?_eq_getElem?] using (hnext e he).2.1
  | succ n ih =>
      rw [nth, ih (hnext e he).1, (hnext e he).2.2, List.getElem?_tail]

/-- Two lists that one enumerator hands out are the same. -/
theorem Yields.unique {next : ε → Option α × ε} {e : ε} {l l' : List α} (h : Yields next e l)
    (h' : Yields next e l') : l = l' := by
  refine List.ext_getElem? fun n => ?_
  rw [← h n, ← h' n]

end Iteration
end Foundation
end AppChatAgain
