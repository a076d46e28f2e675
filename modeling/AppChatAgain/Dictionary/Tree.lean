import Mathlib.Algebra.Group.Nat.Defs
import Mathlib.Data.Nat.Log
import AppChatAgain.Dictionary.Removal

/-!
# Dictionary.Tree — `FTreeSortedDictionary`

The tree-backed dictionary: a root node, painted black after every operation.  Its comparator never
changes and is a parameter here.

* `Valid` : the listing of the root is sorted, and the root is black and balanced;
* every operation keeps `Valid` and does to the listing what `SortedAssoc` says;
* a valid tree passes `checkMaxDepth`, and no path in it is longer than `2 * log₂ (count + 1)`.
-/

namespace AppChatAgain
namespace Dictionary

open Foundation Std

universe u v

/-- An exception that is thrown, without its `userInfo`. -/
structure NSException where
  name : String
  reason : String
  deriving DecidableEq, Repr

variable {κ : Type u} {ν : Type v}

/-! ## The depth of a balanced tree -/

namespace FLLRBNode

/-- The number of nodes on the longest path. -/
def depth : FLLRBNode κ ν → ℕ
  | emptyNode => 0
  | valueNode _ _ _ l r => max l.depth r.depth + 1

theorem Balanced.two_pow_le {n : FLLRBNode κ ν} {c : FLLRBColor} {h : ℕ} (hn : Balanced n c h) :
    2 ^ h ≤ n.count + 1 := by
  induction hn with
  | empty => simp
  | red hl hr ihl ihr =>
      simp only [count]
      omega
  | black hl hr ihl ihr =>
      simp only [count, Nat.pow_succ]
      omega

/-- At most every other node of a path is red. -/
theorem Balanced.depth_le {n : FLLRBNode κ ν} {c : FLLRBColor} {h : ℕ} (hn : Balanced n c h) :
    n.depth ≤ 2 * h + if c = RED then 1 else 0 := by
  induction hn with
  | empty => simp [depth]
  | red hl hr ihl ihr =>
      simp only [depth, reduceCtorEq, if_false, if_true] at *
      omega
  | @black k v l r c h hl hr ihl ihr =>
      simp only [depth, reduceCtorEq, if_false] at *
      split at ihl <;> omega

theorem Balanced.depth_le_log {n : FLLRBNode κ ν} {h : ℕ} (hn : Balanced n BLACK h) :
    n.depth ≤ 2 * Nat.log 2 (n.count + 1) := by
  have hlog : h ≤ Nat.log 2 (n.count + 1) := Nat.le_log_of_pow_le (by omega) hn.two_pow_le
  have hdepth : n.depth ≤ 2 * h := by simpa using hn.depth_le
  omega

/-- `checkMaxDepth`, with `none` where `check` throws. -/
def checkMaxDepth (n : FLLRBNode κ ν) : Option Bool :=
  n.check.map fun blackDepth => 2 ^ blackDepth ≤ n.count + 1

theorem Balanced.checkMaxDepth {n : FLLRBNode κ ν} {c : FLLRBColor} {h : ℕ}
    (hn : Balanced n c h) : n.checkMaxDepth = some true := by
  have hcheck : n.check = some h := check_eq_some_iff.2 ⟨c, hn⟩
  simp [FLLRBNode.checkMaxDepth, hcheck, hn.two_pow_le]

/-! ## The ends of the listing -/

/-- Following the right children as far as they go. -/
def rightmost : FLLRBNode κ ν → FLLRBNode κ ν
  | emptyNode => emptyNode
  | valueNode k v c l r => if r.isEmpty then valueNode k v c l r else r.rightmost

theorem toList_eq_nil_iff {n : FLLRBNode κ ν} : n.toList = [] ↔ n.isEmpty = true := by
  cases n <;> simp

theorem key_rightmost (n : FLLRBNode κ ν) : n.rightmost.key = n.toList.getLast?.map Prod.fst := by
  induction n with
  | emptyNode => rfl
  | valueNode k v c l r ihl ihr =>
      cases hr : r.isEmpty with
      | true => simp [rightmost, hr, toList_eq_nil_iff.2 hr]
      | false =>
          rcases exists_of_isEmpty_eq_false hr with ⟨k', v', c', l', r', rfl⟩
          simpa [rightmost, List.getLast?_append, List.getLast?_cons] using ihr

theorem maxKey_eq (n : FLLRBNode κ ν) : n.maxKey = n.toList.getLast?.map Prod.fst := by
  rw [← key_rightmost]
  induction n with
  | emptyNode => rfl
  | valueNode k v c l r ihl ihr => cases hr : r.isEmpty <;> simp [maxKey, rightmost, hr, ihr]

theorem minKey_eq (n : FLLRBNode κ ν) : n.minKey = n.toList.head?.map Prod.fst := by
  cases hn : n.isEmpty with
  | true =>
      cases n with
      | emptyNode => rfl
      | valueNode => cases hn
  | false =>
      rcases exists_min hn with ⟨k, v, rest, hkey, hval, hlist⟩
      simp [minKey, hkey, hlist]

end FLLRBNode

open FLLRBNode

/-! ## The dictionary -/

structure FTreeSortedDictionary (comparator : NSComparator κ) (ν : Type v) where
  root : FLLRBNode κ ν

namespace FTreeSortedDictionary

variable {comparator : NSComparator κ}

def initWithComparator (comparator : NSComparator κ) : FTreeSortedDictionary comparator ν :=
  ⟨emptyNode⟩

variable (d : FTreeSortedDictionary comparator ν)

def insertKey (aKey : κ) (aValue : ν) : FTreeSortedDictionary comparator ν :=
  ⟨(d.root.insertKey comparator aKey aValue).blacken⟩

/-- The loop of `get`. -/
def find (comparator : NSComparator κ) (key : κ) : FLLRBNode κ ν → Option ν
  | emptyNode => none
  | valueNode k v _ l r =>
      match comparator key k with
      | .eq => some v
      | .lt => find comparator key l
      | .gt => find comparator key r

def get (key : κ) : Option ν :=
  find comparator key d.root

def contains (key : κ) : Bool :=
  (d.get key).isSome

def removeKey (aKey : κ) : FTreeSortedDictionary comparator ν :=
  if !d.contains aKey then d
  else ⟨(d.root.remove comparator aKey).blacken⟩

/-- The exception of `getPredecessorKey`. -/
def nonexistentKey : NSException where
  name := "NonexistentKey"
  reason := "getPredecessorKey called with nonexistent key."

/-- The loop of `getPredecessorKey`. -/
def findPredecessor (comparator : NSComparator κ) (key : κ) :
    FLLRBNode κ ν → Option (FLLRBNode κ ν) → Except NSException (Option κ)
  | emptyNode, _ => .error nonexistentKey
  | valueNode k v c l r, rightParent =>
      match comparator key k with
      | .eq => .ok (if !l.isEmpty then l.rightmost.key else rightParent.bind FLLRBNode.key)
      | .lt => findPredecessor comparator key l rightParent
      | .gt => findPredecessor comparator key r (some (valueNode k v c l r))

def getPredecessorKey (key : κ) : Except NSException (Option κ) :=
  findPredecessor comparator key d.root none

def isEmpty : Bool :=
  d.root.isEmpty

def count : ℕ :=
  d.root.count

def minKey : Option κ :=
  d.root.minKey

def maxKey : Option κ :=
  d.root.maxKey

/-- The entries, in the order of their keys. -/
def entries : List (κ × ν) :=
  d.root.toList

/-- What every operation keeps. -/
structure Valid : Prop where
  sorted : SortedAssoc.Sorted comparator d.entries
  balanced : ∃ h, d.root.Balanced BLACK h

variable {d}

/-! ## Reading -/

theorem find_eq_lookup [TransCmp comparator] {n : FLLRBNode κ ν}
    (hn : SortedAssoc.Sorted comparator n.toList) (key : κ) :
    find comparator key n = SortedAssoc.lookup comparator key n.toList := by
  induction n with
  | emptyNode => rfl
  | valueNode k v c l r ihl ihr =>
      rcases SortedAssoc.sorted_append_cons.1 hn with ⟨hl, hr, _, _⟩
      rw [toList_valueNode, SortedAssoc.lookup_append_cons hn]
      cases hk : comparator key k with
      | lt => simpa [find, hk] using ihl hl
      | eq => simp [find, hk]
      | gt => simpa [find, hk] using ihr hr

theorem Valid.get_eq [TransCmp comparator] (h : d.Valid) (key : κ) :
    d.get key = SortedAssoc.lookup comparator key d.entries :=
  find_eq_lookup h.sorted key

/-- The loop throws if the key is not below the node; otherwise the last node from which it went to
the right has the predecessor, unless there is a greater one below. -/
theorem findPredecessor_eq [TransCmp comparator] {n : FLLRBNode κ ν}
    (hn : SortedAssoc.Sorted comparator n.toList) (key : κ) (rightParent : Option (FLLRBNode κ ν)) :
    findPredecessor comparator key n rightParent =
      if (SortedAssoc.lookup comparator key n.toList).isSome then
        .ok ((SortedAssoc.predecessor comparator key n.toList).or
          (rightParent.bind FLLRBNode.key))
      else .error nonexistentKey := by
  induction n generalizing rightParent with
  | emptyNode => rfl
  | valueNode k v c l r ihl ihr =>
      rcases SortedAssoc.sorted_append_cons.1 hn with ⟨hl, hr, _, _⟩
      rw [toList_valueNode, SortedAssoc.lookup_append_cons hn,
        SortedAssoc.predecessor_append_cons hn]
      cases hk : comparator key k with
      | lt => simpa [findPredecessor, hk] using ihl hl rightParent
      | gt => simpa [findPredecessor, hk] using ihr hr (some (valueNode k v c l r))
      | eq =>
          cases hl : l.isEmpty with
          | true => simp [findPredecessor, hk, hl, toList_eq_nil_iff.2 hl]
          | false =>
              rcases exists_of_isEmpty_eq_false hl with ⟨k', v', c', l', r', rfl⟩
              simp [findPredecessor, hk, key_rightmost, List.getLast?_append, List.getLast?_cons]

theorem Valid.getPredecessorKey_eq [TransCmp comparator] (h : d.Valid) (key : κ) :
    d.getPredecessorKey key =
      if (SortedAssoc.lookup comparator key d.entries).isSome then
        .ok (SortedAssoc.predecessor comparator key d.entries)
      else .error nonexistentKey := by
  have hfind := findPredecessor_eq h.sorted key none
  rw [Option.bind_none, Option.or_none] at hfind
  exact hfind

/-! ## Writing -/

theorem valid_init :
    (initWithComparator comparator : FTreeSortedDictionary comparator ν).Valid where
  sorted := SortedAssoc.sorted_nil
  balanced := ⟨0, .empty⟩

theorem Valid.entries_insertKey [TransCmp comparator] (h : d.Valid) (k : κ) (v : ν) :
    (d.insertKey k v).entries = SortedAssoc.insert comparator false k v d.entries := by
  simpa [insertKey, entries] using toList_insertKey h.sorted k v

theorem Valid.insertKey [TransCmp comparator] (h : d.Valid) (k : κ) (v : ν) :
    (d.insertKey k v).Valid where
  sorted := by
    rw [h.entries_insertKey]
    exact h.sorted.insert false k v
  balanced := by
    rcases h.balanced with ⟨_, hbal⟩
    exact (hbal.insertKey comparator k v).blacken

/-- A key that is there is in a tree that is not empty. -/
theorem Valid.isEmpty_of_contains [TransCmp comparator] (h : d.Valid) {k : κ}
    (hk : d.contains k = true) : d.root.isEmpty = false := by
  cases hd : d.root.isEmpty with
  | false => rfl
  | true =>
      have hnil : d.entries = [] := toList_eq_nil_iff.2 hd
      simp [contains, h.get_eq, hnil, SortedAssoc.lookup] at hk

theorem Valid.entries_removeKey [TransCmp comparator] (h : d.Valid) (k : κ) :
    (d.removeKey k).entries = SortedAssoc.erase comparator k d.entries := by
  cases hk : d.contains k with
  | true =>
      rcases h.balanced with ⟨_, hbal⟩
      simpa [removeKey, hk, entries] using
        (hbal.blacken_remove k (h.isEmpty_of_contains hk) h.sorted).2
  | false =>
      have hnone : SortedAssoc.lookup comparator k d.entries = none := by
        simpa [contains, h.get_eq] using hk
      simp [removeKey, hk, SortedAssoc.erase_of_lookup_eq_none hnone]

theorem Valid.removeKey [TransCmp comparator] (h : d.Valid) (k : κ) : (d.removeKey k).Valid where
  sorted := by
    rw [h.entries_removeKey]
    exact h.sorted.erase k
  balanced := by
    rcases h.balanced with ⟨height, hbal⟩
    cases hk : d.contains k with
    | true =>
        simpa [FTreeSortedDictionary.removeKey, hk] using
          (hbal.blacken_remove k (h.isEmpty_of_contains hk) h.sorted).1
    | false => exact ⟨height, by simpa [FTreeSortedDictionary.removeKey, hk] using hbal⟩

end FTreeSortedDictionary

end Dictionary
end AppChatAgain
