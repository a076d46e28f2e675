import AppChatAgain.Foundation.SortedAssoc

/-!
# Dictionary.Node — the nodes of a left-leaning red-black tree

`FImmutableSortedDictionary` keeps the children of a database node by key.  From 26 entries on it is
a left-leaning red-black tree of `FLLRBEmptyNode` and `FLLRBValueNode`, which this module
translates.  A `nil` argument of `copyWith` stands for the part of the receiver.

`toList` is the inorder listing of a tree; none of the rotations changes it.
-/

namespace AppChatAgain
namespace Dictionary

open Foundation

universe u v

/-- `FLLRBColor`, the `NSNumber` of a boolean. -/
abbrev FLLRBColor := Bool

abbrev RED : FLLRBColor := true

abbrev BLACK : FLLRBColor := false

inductive FLLRBNode (κ : Type u) (ν : Type v) where
  | emptyNode
  | valueNode (key : κ) (value : ν) (color : FLLRBColor) (left right : FLLRBNode κ ν)
  deriving DecidableEq, Repr

namespace FLLRBNode

variable {κ : Type u} {ν : Type v}

/-! ## Reading a node -/

/-- `nil` for the empty node, and for `nil` itself. -/
def key : FLLRBNode κ ν → Option κ
  | emptyNode => none
  | valueNode k _ _ _ _ => some k

def value : FLLRBNode κ ν → Option ν
  | emptyNode => none
  | valueNode _ v _ _ _ => some v

/-- The left child of the empty node is `nil`, which is not red and has no left child either. -/
def left : FLLRBNode κ ν → FLLRBNode κ ν
  | emptyNode => emptyNode
  | valueNode _ _ _ l _ => l

def right : FLLRBNode κ ν → FLLRBNode κ ν
  | emptyNode => emptyNode
  | valueNode _ _ _ _ r => r

def isEmpty : FLLRBNode κ ν → Bool
  | emptyNode => true
  | valueNode .. => false

def isRed : FLLRBNode κ ν → Bool
  | emptyNode => false
  | valueNode _ _ c _ _ => c

def count : FLLRBNode κ ν → ℕ
  | emptyNode => 0
  | valueNode _ _ _ l r => l.count + 1 + r.count

section

variable (k : κ) (v : ν) (c : FLLRBColor) (l r : FLLRBNode κ ν)

@[simp] theorem left_valueNode : (valueNode k v c l r).left = l := rfl

@[simp] theorem right_valueNode : (valueNode k v c l r).right = r := rfl

@[simp] theorem isRed_valueNode : (valueNode k v c l r).isRed = c := rfl

@[simp] theorem isEmpty_valueNode : (valueNode k v c l r).isEmpty = false := rfl

@[simp] theorem key_valueNode : (valueNode k v c l r).key = some k := rfl

@[simp] theorem value_valueNode : (valueNode k v c l r).value = some v := rfl

@[simp] theorem isRed_emptyNode : (emptyNode : FLLRBNode κ ν).isRed = false := rfl

@[simp] theorem isEmpty_emptyNode : (emptyNode : FLLRBNode κ ν).isEmpty = true := rfl

@[simp] theorem left_emptyNode : (emptyNode : FLLRBNode κ ν).left = emptyNode := rfl

end

def min : FLLRBNode κ ν → FLLRBNode κ ν
  | emptyNode => emptyNode
  | valueNode k v c l r => if l.isEmpty then valueNode k v c l r else l.min

def minKey (n : FLLRBNode κ ν) : Option κ :=
  n.min.key

def maxKey : FLLRBNode κ ν → Option κ
  | emptyNode => none
  | valueNode k _ _ _ r => if r.isEmpty then some k else r.maxKey

/-! ## Making new nodes -/

def copyWith (n : FLLRBNode κ ν) (aKey : Option κ) (aValue : Option ν) (aColor : Option FLLRBColor)
    (aLeft aRight : Option (FLLRBNode κ ν)) : FLLRBNode κ ν :=
  match n with
  | emptyNode => emptyNode
  | valueNode k v c l r =>
      valueNode (aKey.getD k) (aValue.getD v) (aColor.getD c) (aLeft.getD l) (aRight.getD r)

def rotateLeft (n : FLLRBNode κ ν) : FLLRBNode κ ν :=
  let nl := n.copyWith none none (some RED) none (some n.right.left)
  n.right.copyWith none none (some n.isRed) (some nl) none

def rotateRight (n : FLLRBNode κ ν) : FLLRBNode κ ν :=
  let nr := n.copyWith none none (some RED) (some n.left.right) none
  n.left.copyWith none none (some n.isRed) none (some nr)

def colorFlip (n : FLLRBNode κ ν) : FLLRBNode κ ν :=
  let nleft := n.left.copyWith none none (some !n.left.isRed) none none
  let nright := n.right.copyWith none none (some !n.right.isRed) none none
  n.copyWith none none (some !n.isRed) (some nleft) (some nright)

def fixUp (n : FLLRBNode κ ν) : FLLRBNode κ ν :=
  let n := if n.right.isRed && !n.left.isRed then n.rotateLeft else n
  let n := if n.left.isRed && n.left.left.isRed then n.rotateRight else n
  if n.left.isRed && n.right.isRed then n.colorFlip else n

def moveRedLeft (n : FLLRBNode κ ν) : FLLRBNode κ ν :=
  let n := n.colorFlip
  if n.right.left.isRed then
    let n := n.copyWith none none none none (some n.right.rotateRight)
    n.rotateLeft.colorFlip
  else n

def moveRedRight (n : FLLRBNode κ ν) : FLLRBNode κ ν :=
  let n := n.colorFlip
  if n.left.left.isRed then n.rotateRight.colorFlip else n

/-! ## Value nodes -/

/-- A copy of the node in the other colour. -/
def flip (n : FLLRBNode κ ν) : FLLRBNode κ ν :=
  n.copyWith none none (some !n.isRed) none none

@[simp] theorem flip_valueNode (k : κ) (v : ν) (c : FLLRBColor) (l r : FLLRBNode κ ν) :
    (valueNode k v c l r).flip = valueNode k v (!c) l r :=
  rfl

@[simp] theorem colorFlip_valueNode (k : κ) (v : ν) (c : FLLRBColor) (l r : FLLRBNode κ ν) :
    (valueNode k v c l r).colorFlip = valueNode k v (!c) l.flip r.flip :=
  rfl

@[simp] theorem rotateLeft_valueNode (k k' : κ) (v v' : ν) (c c' : FLLRBColor)
    (l l' r' : FLLRBNode κ ν) :
    (valueNode k v c l (valueNode k' v' c' l' r')).rotateLeft =
      valueNode k' v' c (valueNode k v RED l l') r' :=
  rfl

@[simp] theorem rotateRight_valueNode (k k' : κ) (v v' : ν) (c c' : FLLRBColor)
    (l' r' r : FLLRBNode κ ν) :
    (valueNode k v c (valueNode k' v' c' l' r') r).rotateRight =
      valueNode k' v' c l' (valueNode k v RED r' r) :=
  rfl

theorem exists_of_isEmpty_eq_false {n : FLLRBNode κ ν} (h : n.isEmpty = false) :
    ∃ k v c l r, n = valueNode k v c l r := by
  cases n with
  | emptyNode => cases h
  | valueNode k v c l r => exact ⟨k, v, c, l, r, rfl⟩

theorem exists_of_isRed {n : FLLRBNode κ ν} (h : n.isRed = true) :
    ∃ k v l r, n = valueNode k v RED l r := by
  cases n with
  | emptyNode => cases h
  | valueNode k v c l r =>
      have hc : c = RED := h
      exact ⟨k, v, l, r, by rw [hc]⟩

theorem isEmpty_of_isRed {n : FLLRBNode κ ν} (h : n.isRed = true) : n.isEmpty = false := by
  rcases exists_of_isRed h with ⟨k, v, l, r, rfl⟩
  rfl

/-! ## The inorder listing -/

def toList : FLLRBNode κ ν → List (κ × ν)
  | emptyNode => []
  | valueNode k v _ l r => l.toList ++ (k, v) :: r.toList

@[simp] theorem toList_emptyNode : (emptyNode : FLLRBNode κ ν).toList = [] :=
  rfl

@[simp] theorem toList_valueNode (k : κ) (v : ν) (c : FLLRBColor) (l r : FLLRBNode κ ν) :
    (valueNode k v c l r).toList = l.toList ++ (k, v) :: r.toList :=
  rfl

theorem length_toList (n : FLLRBNode κ ν) : n.toList.length = n.count := by
  induction n with
  | emptyNode => rfl
  | valueNode k v c l r ihl ihr =>
      simp only [toList_valueNode, List.length_append, List.length_cons, ihl, ihr, count]
      omega

@[simp] theorem toList_flip (n : FLLRBNode κ ν) : n.flip.toList = n.toList := by
  cases n <;> rfl

@[simp] theorem toList_colorFlip (n : FLLRBNode κ ν) : n.colorFlip.toList = n.toList := by
  cases n with
  | emptyNode => rfl
  | valueNode k v c l r => simp

theorem toList_rotateLeft {n : FLLRBNode κ ν} (h : n.right.isEmpty = false) :
    n.rotateLeft.toList = n.toList := by
  cases n with
  | emptyNode => rfl
  | valueNode k v c l r =>
      rcases exists_of_isEmpty_eq_false h with ⟨k', v', c', l', r', hr⟩
      obtain rfl : r = _ := hr
      simp

theorem toList_rotateRight {n : FLLRBNode κ ν} (h : n.left.isEmpty = false) :
    n.rotateRight.toList = n.toList := by
  cases n with
  | emptyNode => rfl
  | valueNode k v c l r =>
      rcases exists_of_isEmpty_eq_false h with ⟨k', v', c', l', r', hl⟩
      obtain rfl : l = _ := hl
      simp

@[simp] theorem toList_fixUp (n : FLLRBNode κ ν) : n.fixUp.toList = n.toList := by
  have h₁ : (if n.right.isRed && !n.left.isRed then n.rotateLeft else n).toList = n.toList := by
    split
    · next h => exact toList_rotateLeft (isEmpty_of_isRed (by simp_all))
    · rfl
  have h₂ : ∀ m : FLLRBNode κ ν,
      (if m.left.isRed && m.left.left.isRed then m.rotateRight else m).toList = m.toList := by
    intro m
    split
    · next h => exact toList_rotateRight (isEmpty_of_isRed (by simp_all))
    · rfl
  have h₃ : ∀ m : FLLRBNode κ ν,
      (if m.left.isRed && m.right.isRed then m.colorFlip else m).toList = m.toList := by
    intro m
    split <;> simp
  exact (h₃ _).trans ((h₂ _).trans h₁)

@[simp] theorem toList_moveRedLeft (n : FLLRBNode κ ν) : n.moveRedLeft.toList = n.toList := by
  simp only [moveRedLeft]
  split
  · next h =>
      cases n with
      | emptyNode => rfl
      | valueNode k v c l r =>
          -- the right child and its left child are value nodes
          rcases exists_of_isRed h with ⟨k₂, v₂, l₂, r₂, hrl⟩
          cases r with
          | emptyNode => cases hrl
          | valueNode k₁ v₁ c₁ l₁ r₁ =>
              obtain rfl : l₁ = _ := hrl
              simp [copyWith, right]
  · exact toList_colorFlip n

@[simp] theorem toList_moveRedRight (n : FLLRBNode κ ν) : n.moveRedRight.toList = n.toList := by
  simp only [moveRedRight]
  split
  · next h =>
      have hne : n.colorFlip.left.isEmpty = false := by
        cases hl : n.colorFlip.left with
        | emptyNode =>
            rw [hl] at h
            cases h
        | valueNode => rfl
      simp [toList_rotateRight hne]
  · exact toList_colorFlip n

/-! ## Inserting and removing -/

/-- A `NSComparator`; its laws are assumed where they are used. -/
abbrev NSComparator (κ : Type u) := κ → κ → Ordering

def insertKey (aComparator : NSComparator κ) (aKey : κ) (aValue : ν) :
    FLLRBNode κ ν → FLLRBNode κ ν
  | emptyNode => valueNode aKey aValue RED emptyNode emptyNode
  | valueNode k v c l r =>
      let n := valueNode k v c l r
      match aComparator aKey k with
      | .lt => (n.copyWith none none none (some (insertKey aComparator aKey aValue l)) none).fixUp
      -- the key of the node stays
      | .eq => (n.copyWith none (some aValue) none none none).fixUp
      | .gt => (n.copyWith none none none none (some (insertKey aComparator aKey aValue r))).fixUp

theorem count_left_lt {n : FLLRBNode κ ν} (h : n.isEmpty = false) : n.left.count < n.count := by
  rcases exists_of_isEmpty_eq_false h with ⟨k, v, c, l, r, rfl⟩
  simp only [left, count]
  omega

theorem count_right_lt {n : FLLRBNode κ ν} (h : n.isEmpty = false) : n.right.count < n.count := by
  rcases exists_of_isEmpty_eq_false h with ⟨k, v, c, l, r, rfl⟩
  simp only [right, count]
  omega

theorem count_eq_of_toList {m n : FLLRBNode κ ν} (h : m.toList = n.toList) : m.count = n.count := by
  rw [← length_toList, ← length_toList, h]

theorem isEmpty_eq_of_toList {m n : FLLRBNode κ ν} (h : m.toList = n.toList) :
    m.isEmpty = n.isEmpty := by
  cases m <;> cases n <;> simp_all [isEmpty]

/-- The first step of `removeMin`. -/
def borrowForMin (n : FLLRBNode κ ν) : FLLRBNode κ ν :=
  if !n.left.isRed && !n.left.left.isRed then n.moveRedLeft else n

/-- The first step of `remove`, to the left. -/
def borrowLeft (n : FLLRBNode κ ν) : FLLRBNode κ ν :=
  if !n.left.isEmpty && !n.left.isRed && !n.left.left.isRed then n.moveRedLeft else n

/-- The first two steps of `remove`, to the right. -/
def borrowRight (n : FLLRBNode κ ν) : FLLRBNode κ ν :=
  let n := if n.left.isRed then n.rotateRight else n
  if !n.right.isEmpty && !n.right.isRed && !n.right.left.isRed then n.moveRedRight else n

@[simp] theorem toList_borrowForMin (n : FLLRBNode κ ν) : n.borrowForMin.toList = n.toList := by
  unfold borrowForMin
  split <;> simp

@[simp] theorem toList_borrowLeft (n : FLLRBNode κ ν) : n.borrowLeft.toList = n.toList := by
  unfold borrowLeft
  split <;> simp

@[simp] theorem toList_borrowRight (n : FLLRBNode κ ν) : n.borrowRight.toList = n.toList := by
  have hrotate : (if n.left.isRed then n.rotateRight else n).toList = n.toList := by
    split
    · next h => exact toList_rotateRight (isEmpty_of_isRed h)
    · rfl
  have hmove : ∀ m : FLLRBNode κ ν,
      (if !m.right.isEmpty && !m.right.isRed && !m.right.left.isRed then m.moveRedRight
        else m).toList = m.toList := by
    intro m
    split <;> simp
  exact (hmove _).trans hrotate

/-- Both children of what was borrowed for are smaller than the node. -/
theorem count_left_lt_of_toList {m n : FLLRBNode κ ν} (h : m.toList = n.toList)
    (hn : n.isEmpty = false) : m.left.count < n.count := by
  rw [← count_eq_of_toList h]
  exact count_left_lt ((isEmpty_eq_of_toList h).trans hn)

theorem count_right_lt_of_toList {m n : FLLRBNode κ ν} (h : m.toList = n.toList)
    (hn : n.isEmpty = false) : m.right.count < n.count := by
  rw [← count_eq_of_toList h]
  exact count_right_lt ((isEmpty_eq_of_toList h).trans hn)

/-- Only value nodes are asked to remove their least entry. -/
def removeMin : FLLRBNode κ ν → FLLRBNode κ ν
  | emptyNode => emptyNode
  | valueNode k v c l r =>
      if l.isEmpty then emptyNode
      else
        let n := (valueNode k v c l r).borrowForMin
        (n.copyWith none none none (some (removeMin n.left)) none).fixUp
termination_by n => n.count
decreasing_by exact count_left_lt_of_toList (toList_borrowForMin _) rfl

theorem count_copyWith_left_le {n l : FLLRBNode κ ν} (h : l.count ≤ n.left.count) :
    (n.copyWith none none none (some l) none).count ≤ n.count := by
  cases n with
  | emptyNode => exact Nat.le_refl _
  | valueNode k v c l' r =>
      have h' : l.count ≤ l'.count := h
      simp only [copyWith, count, Option.getD_some, Option.getD_none]
      omega

theorem count_removeMin_le (n : FLLRBNode κ ν) : n.removeMin.count ≤ n.count := by
  induction hn : n.count using Nat.strongRecOn generalizing n with
  | ind m ih =>
      cases n with
      | emptyNode =>
          rw [removeMin]
          exact Nat.zero_le _
      | valueNode k v c l r =>
          rw [removeMin]
          split
          · exact Nat.zero_le _
          · -- the left child of what was borrowed for is smaller
            have hlt := count_left_lt_of_toList
              (toList_borrowForMin (valueNode k v c l r)) rfl
            have hleft := ih _ (hn ▸ hlt) (valueNode k v c l r).borrowForMin.left rfl
            rw [count_eq_of_toList (toList_fixUp _), ← hn,
              ← count_eq_of_toList (toList_borrowForMin (valueNode k v c l r))]
            exact count_copyWith_left_le hleft

/-- `[comparator(aKey, n.key) == NSOrderedSame]`, for a node that has a key. -/
def sameKey (comparator : NSComparator κ) (aKey : κ) (n : FLLRBNode κ ν) : Bool :=
  n.key.any fun k => comparator aKey k = .eq

def remove (comparator : NSComparator κ) (aKey : κ) : FLLRBNode κ ν → FLLRBNode κ ν
  | emptyNode => emptyNode
  | valueNode k v c l r =>
      if comparator aKey k = .lt then
        let n := (valueNode k v c l r).borrowLeft
        (n.copyWith none none none (some (remove comparator aKey n.left)) none).fixUp
      else
        let n := (valueNode k v c l r).borrowRight
        if sameKey comparator aKey n then
          if n.right.isEmpty then emptyNode
          else
            let smallest := n.right.min
            let right := n.right.removeMin
            let n := n.copyWith smallest.key smallest.value none none (some right)
            -- the key is gone already, but the source goes on as for another key
            (n.copyWith none none none none (some (remove comparator aKey right))).fixUp
        else (n.copyWith none none none none (some (remove comparator aKey n.right))).fixUp
termination_by n => n.count
decreasing_by
  · exact count_left_lt_of_toList (toList_borrowLeft _) rfl
  · exact Nat.lt_of_le_of_lt (count_removeMin_le _)
      (count_right_lt_of_toList (toList_borrowRight _) rfl)
  · exact count_right_lt_of_toList (toList_borrowRight _) rfl

end FLLRBNode

end Dictionary
end AppChatAgain
