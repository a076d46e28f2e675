import AppChatAgain.Foundation.Iteration
import AppChatAgain.Dictionary.Array

/-!
# Dictionary.Enumerator — going through a dictionary

The blocks and the enumerators of both implementations of `FImmutableSortedDictionary`.  A tree
enumerator keeps a stack of the nodes whose keys are still to come; `left` lists the keys that a
stack stands for.

* `enumerateKeysAndObjectsReverse_eq` : a block sees the entries in order, or in reverse, until it
  stops;
* `enumerators_yield` : what the enumerators of a valid dictionary hand out;
* `reverseKeyEnumerator_yields_iff` : without a start key, the reverse enumerator of a tree takes
  every node to be beyond the start, and hands out nothing.
-/

namespace AppChatAgain
namespace Dictionary

open Foundation Foundation.Iteration Std FLLRBNode

universe u v

variable {κ ν : Type u} {σ : Type v}

/-! ## Blocks -/

namespace FLLRBNode

/-- An action returns `YES` to end the traversal. -/
def inorderTraversal (action : κ × ν → σ → Bool × σ) : FLLRBNode κ ν → σ → Bool × σ
  | emptyNode, s => (false, s)
  | valueNode k v _ l r, s =>
      match inorderTraversal action l s with
      | (true, s) => (true, s)
      | (false, s) =>
          match action (k, v) s with
          | (true, s) => (true, s)
          | (false, s) => inorderTraversal action r s

def reverseTraversal (action : κ × ν → σ → Bool × σ) : FLLRBNode κ ν → σ → Bool × σ
  | emptyNode, s => (false, s)
  | valueNode k v _ l r, s =>
      match reverseTraversal action r s with
      | (true, s) => (true, s)
      | (false, s) =>
          match action (k, v) s with
          | (true, s) => (true, s)
          | (false, s) => reverseTraversal action l s

theorem inorderTraversal_eq (action : κ × ν → σ → Bool × σ) (n : FLLRBNode κ ν) (s : σ) :
    n.inorderTraversal action s = visit action n.toList s := by
  induction n generalizing s with
  | emptyNode => rfl
  | valueNode k v c l r ihl ihr =>
      rw [toList_valueNode, visit_append, inorderTraversal, ihl]
      rcases visit action l.toList s with ⟨stop, s'⟩
      cases stop with
      | true => rfl
      | false =>
          rcases ha : action (k, v) s' with ⟨stop, s''⟩
          cases stop <;> simp [visit, ha, ihr]

theorem reverseTraversal_eq (action : κ × ν → σ → Bool × σ) (n : FLLRBNode κ ν) (s : σ) :
    n.reverseTraversal action s = visit action n.toList.reverse s := by
  induction n generalizing s with
  | emptyNode => rfl
  | valueNode k v c l r ihl ihr =>
      rw [toList_valueNode, List.reverse_append, List.reverse_cons, List.append_assoc,
        visit_append, reverseTraversal, ihr]
      rcases visit action r.toList.reverse s with ⟨stop, s'⟩
      cases stop with
      | true => rfl
      | false =>
          rcases ha : action (k, v) s' with ⟨stop, s''⟩
          cases stop <;> simp [visit, ha, ihl]

end FLLRBNode

/-! ## Enumerators of an array -/

structure FArraySortedDictionaryEnumerator (κ : Type u) where
  keys : List κ
  pos : ℤ
  reverse : Bool

namespace FArraySortedDictionaryEnumerator

def nextObject (e : FArraySortedDictionaryEnumerator κ) :
    Option κ × FArraySortedDictionaryEnumerator κ :=
  if 0 ≤ e.pos ∧ e.pos < e.keys.length then
    (e.keys[e.pos.toNat]?, { e with pos := if e.reverse then e.pos - 1 else e.pos + 1 })
  else (none, e)

/-- The keys still to come. -/
def left (e : FArraySortedDictionaryEnumerator κ) : List κ :=
  if 0 ≤ e.pos ∧ e.pos < e.keys.length then
    if e.reverse then (e.keys.take (e.pos.toNat + 1)).reverse else e.keys.drop e.pos.toNat
  else []

theorem left_forward (keys : List κ) (n : ℕ) : left ⟨keys, n, false⟩ = keys.drop n := by
  by_cases hn : n < keys.length
  · simp [left, hn]
  · simp [left, hn, Nat.le_of_not_lt hn]

theorem left_reverse {keys : List κ} {n : ℕ} (hn : n ≤ keys.length) :
    left ⟨keys, (n : ℤ) - 1, true⟩ = (keys.take n).reverse := by
  cases n with
  | zero => simp [left]
  | succ n => simp [left, Nat.lt_of_succ_le hn]

theorem left_next (e : FArraySortedDictionaryEnumerator κ) :
    e.nextObject.1 = e.left.head? ∧ left e.nextObject.2 = e.left.tail := by
  rcases e with ⟨keys, pos, reverse⟩
  by_cases hpos : 0 ≤ pos ∧ pos < keys.length
  · rcases Int.eq_ofNat_of_zero_le hpos.1 with ⟨n, rfl⟩
    have hn : n < keys.length := by omega
    cases reverse with
    | true =>
        have hnow : left ⟨keys, n, true⟩ = keys[n] :: (keys.take n).reverse := by
          have hsplit : keys.take (n + 1) = keys.take n ++ [keys[n]] :=
            List.take_succ_eq_append_getElem hn
          rw [left, if_pos hpos, if_pos rfl, Int.toNat_natCast, hsplit, List.reverse_concat]
        simp [nextObject, hn, hnow, left_reverse (Nat.le_of_lt hn)]
    | false =>
        have hnow : left ⟨keys, n, false⟩ = keys[n] :: keys.drop (n + 1) := by
          rw [left_forward, List.drop_eq_getElem_cons hn]
        have hthen : left ⟨keys, (n : ℤ) + 1, false⟩ = keys.drop (n + 1) :=
          left_forward keys (n + 1)
        simp only [nextObject, hpos, and_self, if_true, Bool.false_eq_true, if_false, hnow, hthen,
          List.head?_cons, List.tail_cons, Int.toNat_natCast, List.getElem?_eq_getElem hn]
  · simp [nextObject, left, hpos]

theorem yields (e : FArraySortedDictionaryEnumerator κ) : Yields nextObject e e.left :=
  yields_of_next (I := fun _ => True) nextObject (fun e _ => ⟨trivial, left_next e⟩) trivial

end FArraySortedDictionaryEnumerator

/-! ## Enumerators of a tree -/

/-- The last object of the stack comes first. -/
structure FTreeSortedDictionaryEnumerator (κ ν : Type u) where
  stack : List (FLLRBNode κ ν)
  isReverse : Bool

namespace FTreeSortedDictionaryEnumerator

/-- The loop of the initializer. -/
def pushStart (comparator : NSComparator κ) (startKey : Option κ) (isReverse : Bool) :
    FLLRBNode κ ν → List (FLLRBNode κ ν) → List (FLLRBNode κ ν)
  | emptyNode, stack => stack
  | valueNode k v c l r, stack =>
      let cmp := match startKey with
        | some start => comparator k start
        | none => .gt
      match if isReverse then cmp.swap else cmp with
      | .lt =>
          if isReverse then pushStart comparator startKey isReverse l stack
          else pushStart comparator startKey isReverse r stack
      | .eq => valueNode k v c l r :: stack
      | .gt =>
          if isReverse then
            pushStart comparator startKey isReverse r (valueNode k v c l r :: stack)
          else pushStart comparator startKey isReverse l (valueNode k v c l r :: stack)

def initWithImmutableSortedDictionary {comparator : NSComparator κ}
    (aDict : FTreeSortedDictionary comparator ν) (startKey : Option κ) (reverse : Bool) :
    FTreeSortedDictionaryEnumerator κ ν where
  stack := pushStart comparator startKey reverse aDict.root []
  isReverse := reverse

/-- The loops of `nextObject`. -/
def pushSpine (isReverse : Bool) : FLLRBNode κ ν → List (FLLRBNode κ ν) → List (FLLRBNode κ ν)
  | emptyNode, stack => stack
  | valueNode k v c l r, stack =>
      if isReverse then pushSpine isReverse r (valueNode k v c l r :: stack)
      else pushSpine isReverse l (valueNode k v c l r :: stack)

def nextObject (e : FTreeSortedDictionaryEnumerator κ ν) :
    Option κ × FTreeSortedDictionaryEnumerator κ ν :=
  match e.stack with
  | [] => (none, e)
  | node :: stack =>
      let next := if e.isReverse then node.left else node.right
      (node.key, { e with stack := pushSpine e.isReverse next stack })

/-- The entries that a node on the stack stands for. -/
def below (isReverse : Bool) : FLLRBNode κ ν → List (κ × ν)
  | emptyNode => []
  | valueNode k v _ l r => (k, v) :: if isReverse then l.toList.reverse else r.toList

/-- The keys still to come. -/
def left (e : FTreeSortedDictionaryEnumerator κ ν) : List κ :=
  (e.stack.flatMap (below e.isReverse)).map Prod.fst

theorem flatMap_below_pushSpine (isReverse : Bool) (n : FLLRBNode κ ν)
    (stack : List (FLLRBNode κ ν)) :
    (pushSpine isReverse n stack).flatMap (below isReverse) =
      (if isReverse then n.toList.reverse else n.toList) ++ stack.flatMap (below isReverse) := by
  induction n generalizing stack with
  | emptyNode => simp [pushSpine]
  | valueNode k v c l r ihl ihr =>
      cases isReverse with
      | true => simp [pushSpine, ihr, below]
      | false => simp [pushSpine, ihl, below]

/-- Only value nodes are pushed. -/
theorem isEmpty_of_mem_pushSpine {isReverse : Bool} {n m : FLLRBNode κ ν}
    {stack : List (FLLRBNode κ ν)} (hstack : ∀ m ∈ stack, m.isEmpty = false)
    (hm : m ∈ pushSpine isReverse n stack) : m.isEmpty = false := by
  induction n generalizing stack with
  | emptyNode => exact hstack m hm
  | valueNode k v c l r ihl ihr =>
      have hcons : ∀ m ∈ valueNode k v c l r :: stack, m.isEmpty = false := by
        simpa using hstack
      cases isReverse with
      | true => exact ihr hcons hm
      | false => exact ihl hcons hm

theorem left_next (e : FTreeSortedDictionaryEnumerator κ ν)
    (h : ∀ n ∈ e.stack, n.isEmpty = false) :
    (∀ n ∈ e.nextObject.2.stack, n.isEmpty = false) ∧
      e.nextObject.1 = e.left.head? ∧ left e.nextObject.2 = e.left.tail := by
  rcases e with ⟨stack, isReverse⟩
  cases stack with
  | nil => exact ⟨h, rfl, rfl⟩
  | cons n stack =>
      rcases exists_of_isEmpty_eq_false (h n List.mem_cons_self) with ⟨k, v, c, l, r, rfl⟩
      have hstack : ∀ m ∈ stack, m.isEmpty = false := fun m hm => h m (List.mem_cons_of_mem _ hm)
      refine ⟨fun m hm => isEmpty_of_mem_pushSpine hstack hm, ?_⟩
      cases isReverse <;> simp [nextObject, left, below, flatMap_below_pushSpine]

theorem yields {e : FTreeSortedDictionaryEnumerator κ ν}
    (h : ∀ n ∈ e.stack, n.isEmpty = false) : Yields nextObject e e.left :=
  yields_of_next nextObject left_next h

theorem isEmpty_of_mem_pushStart {comparator : NSComparator κ} {startKey : Option κ}
    {isReverse : Bool} {n m : FLLRBNode κ ν} {stack : List (FLLRBNode κ ν)}
    (hstack : ∀ m ∈ stack, m.isEmpty = false)
    (hm : m ∈ pushStart comparator startKey isReverse n stack) : m.isEmpty = false := by
  induction n generalizing stack with
  | emptyNode => exact hstack m hm
  | valueNode k v c l r ihl ihr =>
      have hcons : ∀ m ∈ valueNode k v c l r :: stack, m.isEmpty = false := by
        simpa using hstack
      simp only [pushStart] at hm
      split at hm
      · split at hm
        · exact ihl hstack hm
        · exact ihr hstack hm
      · exact hcons m hm
      · split at hm
        · exact ihr hcons hm
        · exact ihl hcons hm

/-! ### Where the enumeration starts -/

section Start

variable {comparator : NSComparator κ} {n : FLLRBNode κ ν}

theorem flatMap_below_pushStart_none (stack : List (FLLRBNode κ ν)) :
    (pushStart comparator none false n stack).flatMap (below false) =
      n.toList ++ stack.flatMap (below false) := by
  induction n generalizing stack with
  | emptyNode => rfl
  | valueNode k v c l r ihl ihr => simp [pushStart, ihl, below]

/-- Without a start key, a reverse enumerator passes over every node. -/
theorem pushStart_none_reverse (stack : List (FLLRBNode κ ν)) :
    pushStart comparator none true n stack = stack := by
  induction n generalizing stack with
  | emptyNode => rfl
  | valueNode k v c l r ihl ihr => simp [pushStart, ihl]

variable [TransCmp comparator]

theorem flatMap_below_pushStart (hn : SortedAssoc.Sorted comparator n.toList) (start : κ)
    (stack : List (FLLRBNode κ ν)) :
    (pushStart comparator (some start) false n stack).flatMap (below false) =
      SortedAssoc.entriesFrom comparator start n.toList ++ stack.flatMap (below false) := by
  induction n generalizing stack with
  | emptyNode => rfl
  | valueNode k v c l r ihl ihr =>
      rcases SortedAssoc.sorted_append_cons.1 hn with ⟨hl, hr, _, _⟩
      rw [toList_valueNode, SortedAssoc.entriesFrom_append_cons hn]
      cases hk : comparator k start with
      | lt => simp [pushStart, hk, ihr hr]
      | eq => simp [pushStart, hk, below]
      | gt => simp [pushStart, hk, ihl hl, below]

theorem flatMap_below_pushStart_reverse (hn : SortedAssoc.Sorted comparator n.toList) (start : κ)
    (stack : List (FLLRBNode κ ν)) :
    (pushStart comparator (some start) true n stack).flatMap (below true) =
      (SortedAssoc.entriesUpTo comparator start n.toList).reverse ++
        stack.flatMap (below true) := by
  induction n generalizing stack with
  | emptyNode => rfl
  | valueNode k v c l r ihl ihr =>
      rcases SortedAssoc.sorted_append_cons.1 hn with ⟨hl, hr, _, _⟩
      rw [toList_valueNode, SortedAssoc.entriesUpTo_append_cons hn]
      cases hk : comparator k start with
      | lt => simp [pushStart, hk, ihr hr, below]
      | eq => simp [pushStart, hk, below]
      | gt => simp [pushStart, hk, ihl hl]

end Start

end FTreeSortedDictionaryEnumerator

/-! ## Enumerators of a dictionary -/

/-- An `NSEnumerator` of keys. -/
inductive KeyEnumerator (κ ν : Type u) where
  | array (e : FArraySortedDictionaryEnumerator κ)
  | tree (e : FTreeSortedDictionaryEnumerator κ ν)

namespace KeyEnumerator

def nextObject : KeyEnumerator κ ν → Option κ × KeyEnumerator κ ν
  | array e => (e.nextObject.1, array e.nextObject.2)
  | tree e => (e.nextObject.1, tree e.nextObject.2)

theorem yields_array {e : FArraySortedDictionaryEnumerator κ} {l : List κ}
    (h : e.left = l) : Yields nextObject (array e : KeyEnumerator κ ν) l := by
  have hnth : ∀ n e, nth nextObject n (array e : KeyEnumerator κ ν) =
      nth FArraySortedDictionaryEnumerator.nextObject n e := by
    intro n
    induction n with
    | zero => exact fun _ => rfl
    | succ n ih => exact fun e => ih e.nextObject.2
  intro n
  rw [hnth, e.yields n, h]

theorem yields_tree {e : FTreeSortedDictionaryEnumerator κ ν} {l : List κ}
    (hstack : ∀ n ∈ e.stack, n.isEmpty = false) (h : e.left = l) :
    Yields nextObject (tree e) l := by
  have hnth : ∀ n e, nth nextObject n (tree e : KeyEnumerator κ ν) =
      nth FTreeSortedDictionaryEnumerator.nextObject n e := by
    intro n
    induction n with
    | zero => exact fun _ => rfl
    | succ n ih => exact fun e => ih e.nextObject.2
  intro n
  rw [hnth, FTreeSortedDictionaryEnumerator.yields hstack n, h]

end KeyEnumerator

namespace FImmutableSortedDictionary

variable {comparator : NSComparator κ} (d : FImmutableSortedDictionary comparator ν)

/-- The array has Foundation's own enumerator of its keys. -/
def keyEnumerator : KeyEnumerator κ ν :=
  match d with
  | array d => .array { keys := d.keys, pos := 0, reverse := false }
  | tree d => .tree (.initWithImmutableSortedDictionary d none false)

def keyEnumeratorFrom (startKey : κ) : KeyEnumerator κ ν :=
  match d with
  | array d =>
      let startPos := FArraySortedDictionary.findInsertPositionForKey comparator startKey d.keys
      .array { keys := d.keys, pos := startPos, reverse := false }
  | tree d => .tree (.initWithImmutableSortedDictionary d (some startKey) false)

def reverseKeyEnumerator : KeyEnumerator κ ν :=
  match d with
  | array d => .array { keys := d.keys, pos := d.keys.length - 1, reverse := true }
  | tree d => .tree (.initWithImmutableSortedDictionary d none true)

/-- The start of `reverseKeyEnumeratorFrom` in an array. -/
def reverseStart (comparator : NSComparator κ) (startKey : κ) (keys : List κ) : ℤ :=
  let startPos := FArraySortedDictionary.findInsertPositionForKey comparator startKey keys
  if keys[startPos]?.all fun k => comparator k startKey ≠ .eq then startPos - 1 else startPos

def reverseKeyEnumeratorFrom (startKey : κ) : KeyEnumerator κ ν :=
  match d with
  | array d =>
      .array { keys := d.keys, pos := reverseStart comparator startKey d.keys, reverse := true }
  | tree d => .tree (.initWithImmutableSortedDictionary d (some startKey) true)

def enumerateKeysAndObjectsReverse (reverse : Bool) (block : κ × ν → σ → Bool × σ) (s : σ) : σ :=
  match d with
  | array d =>
      if reverse then (visit block (d.keys.zip d.values).reverse s).2
      else (visit block (d.keys.zip d.values) s).2
  | tree d =>
      if reverse then (d.root.reverseTraversal block s).2
      else (d.root.inorderTraversal block s).2

variable {d}

/-- Whatever the block does with its state, the entries are all that it sees of the dictionary. -/
theorem enumerateKeysAndObjectsReverse_eq (reverse : Bool) (block : κ × ν → σ → Bool × σ) (s : σ) :
    d.enumerateKeysAndObjectsReverse reverse block s =
      (visit block (if reverse then d.entries.reverse else d.entries) s).2 := by
  cases d with
  | array d => cases reverse <;> rfl
  | tree d =>
      cases reverse with
      | true => simp only [enumerateKeysAndObjectsReverse, reverseTraversal_eq]; rfl
      | false => simp only [enumerateKeysAndObjectsReverse, inorderTraversal_eq]; rfl

/-! ### What they hand out -/

/-- What the enumerator of a tree hands out, from the stack that it starts with. -/
theorem tree_yields (t : FTreeSortedDictionary comparator ν) (startKey : Option κ)
    (isReverse : Bool) {l : List (κ × ν)}
    (h : (FTreeSortedDictionaryEnumerator.pushStart comparator startKey isReverse t.root []).flatMap
      (FTreeSortedDictionaryEnumerator.below isReverse) = l) :
    Yields KeyEnumerator.nextObject
      (.tree (.initWithImmutableSortedDictionary t startKey isReverse) : KeyEnumerator κ ν)
      (l.map Prod.fst) := by
  refine KeyEnumerator.yields_tree
    (fun n => FTreeSortedDictionaryEnumerator.isEmpty_of_mem_pushStart (by simp)) ?_
  rw [← h]
  rfl

theorem Valid.keyEnumerator_yields (h : d.Valid) :
    Yields KeyEnumerator.nextObject d.keyEnumerator (d.entries.map Prod.fst) := by
  cases d with
  | array d =>
      refine KeyEnumerator.yields_array ?_
      have hkeys := FArraySortedDictionary.Valid.keys_eq h
      exact (FArraySortedDictionaryEnumerator.left_forward d.keys 0).trans hkeys
  | tree d =>
      refine tree_yields d none false ?_
      rw [FTreeSortedDictionaryEnumerator.flatMap_below_pushStart_none]
      exact List.append_nil _

/-- Without a start key, only an array goes backwards: a tree hands out nothing. -/
theorem reverseKeyEnumerator_yields_iff (h : d.Valid) :
    (Yields KeyEnumerator.nextObject d.reverseKeyEnumerator (d.entries.map Prod.fst).reverse ↔
      ∀ t, d = tree t → d.entries = []) ∧
    ∀ t, d = tree t → Yields KeyEnumerator.nextObject d.reverseKeyEnumerator [] := by
  cases d with
  | array d =>
      have hleft := FArraySortedDictionaryEnumerator.left_reverse (Nat.le_refl d.keys.length)
      rw [List.take_length] at hleft
      refine ⟨iff_of_true (KeyEnumerator.yields_array ?_) (fun t ht => by cases ht),
        fun t ht => by cases ht⟩
      exact hleft.trans (congrArg List.reverse (FArraySortedDictionary.Valid.keys_eq h))
  | tree t =>
      have hnone : Yields KeyEnumerator.nextObject (tree t).reverseKeyEnumerator
          (([] : List (κ × ν)).map Prod.fst) := by
        refine tree_yields t none true ?_
        rw [FTreeSortedDictionaryEnumerator.pushStart_none_reverse]
        rfl
      refine ⟨⟨?_, ?_⟩, fun _ _ => hnone⟩
      · intro hyields t' _
        simpa using hyields.unique hnone
      · intro hempty
        rw [hempty t rfl]
        exact hnone

/-- A tree with the keys below 30, which did not come in order. -/
def thirtyKeys : FImmutableSortedDictionary (compare : ℕ → ℕ → Ordering) ℕ :=
  tree ((List.range 30).foldl (fun t i => t.insertKey (7 * i % 30) (100 + i))
    (FTreeSortedDictionary.initWithComparator compare))

theorem valid_thirtyKeys : thirtyKeys.Valid := by
  have hfoldl : ∀ (l : List ℕ) (t : FTreeSortedDictionary (compare : ℕ → ℕ → Ordering) ℕ),
      t.Valid → (l.foldl (fun t i => t.insertKey (7 * i % 30) (100 + i)) t).Valid := by
    intro l
    induction l with
    | nil => exact fun t ht => ht
    | cons i l ih => exact fun t ht => ih _ (ht.insertKey _ _)
  exact hfoldl _ _ FTreeSortedDictionary.valid_init

theorem keys_thirtyKeys : thirtyKeys.entries.map Prod.fst = List.range 30 := by
  decide +kernel

theorem reverseKeyEnumerator_thirtyKeys :
    ¬ Yields KeyEnumerator.nextObject thirtyKeys.reverseKeyEnumerator (List.range 30).reverse ∧
      Yields KeyEnumerator.nextObject thirtyKeys.reverseKeyEnumerator [] := by
  rcases reverseKeyEnumerator_yields_iff valid_thirtyKeys with ⟨hiff, hnothing⟩
  refine ⟨?_, hnothing _ rfl⟩
  intro hyields
  rw [← keys_thirtyKeys] at hyields
  have hnil := congrArg (List.map Prod.fst) (hiff.1 hyields _ rfl)
  rw [keys_thirtyKeys] at hnil
  exact absurd hnil (by decide)

variable [TransCmp comparator]

theorem drop_findInsertPositionForKey {l : List (κ × ν)} (hs : SortedAssoc.Sorted comparator l)
    (start : κ) :
    (l.map Prod.fst).drop
        (FArraySortedDictionary.findInsertPositionForKey comparator start (l.map Prod.fst)) =
      (SortedAssoc.entriesFrom comparator start l).map Prod.fst := by
  induction l with
  | nil => rfl
  | cons e l ih =>
      have hsplit := SortedAssoc.entriesFrom_append_cons (l := []) hs start
      rw [List.nil_append] at hsplit
      rw [hsplit]
      cases hk : comparator e.1 start with
      | lt =>
          simp [FArraySortedDictionary.findInsertPositionForKey, hk,
            ih (SortedAssoc.sorted_cons.1 hs).2]
      | eq => simp [FArraySortedDictionary.findInsertPositionForKey, hk]
      | gt => simp [FArraySortedDictionary.findInsertPositionForKey, hk]

theorem exists_reverseStart {l : List (κ × ν)} (hs : SortedAssoc.Sorted comparator l)
    (start : κ) :
    ∃ n ≤ l.length, reverseStart comparator start (l.map Prod.fst) = (n : ℤ) - 1 ∧
      (l.map Prod.fst).take n = (SortedAssoc.entriesUpTo comparator start l).map Prod.fst := by
  induction l with
  | nil => exact ⟨0, Nat.le_refl _, rfl, rfl⟩
  | cons e l ih =>
      have hsplit := SortedAssoc.entriesUpTo_append_cons (l := []) hs start
      rw [List.nil_append] at hsplit
      rw [hsplit]
      cases hk : comparator e.1 start with
      | lt =>
          rcases ih (SortedAssoc.sorted_cons.1 hs).2 with ⟨n, hn, hstart, htake⟩
          have hsucc : reverseStart comparator start ((e :: l).map Prod.fst) =
              reverseStart comparator start (l.map Prod.fst) + 1 := by
            simp only [reverseStart, List.map_cons,
              FArraySortedDictionary.findInsertPositionForKey, hk, if_true, List.getElem?_cons_succ]
            split <;> omega
          refine ⟨n + 1, Nat.succ_le_succ hn, ?_, by simp [htake]⟩
          rw [hsucc, hstart]
          omega
      | eq =>
          refine ⟨1, Nat.succ_le_succ (Nat.zero_le _), ?_, by simp⟩
          simp [reverseStart, FArraySortedDictionary.findInsertPositionForKey, hk]
      | gt =>
          refine ⟨0, Nat.zero_le _, ?_, by simp⟩
          simp [reverseStart, FArraySortedDictionary.findInsertPositionForKey, hk]

theorem Valid.keyEnumeratorFrom_yields (h : d.Valid) (start : κ) :
    Yields KeyEnumerator.nextObject (d.keyEnumeratorFrom start)
      ((SortedAssoc.entriesFrom comparator start d.entries).map Prod.fst) := by
  cases d with
  | array d =>
      refine KeyEnumerator.yields_array ?_
      have hdrop := drop_findInsertPositionForKey (FArraySortedDictionary.Valid.sorted h) start
      rw [← FArraySortedDictionary.Valid.keys_eq h] at hdrop
      exact (FArraySortedDictionaryEnumerator.left_forward d.keys _).trans hdrop
  | tree d =>
      refine tree_yields d (some start) false ?_
      have hstack := FTreeSortedDictionaryEnumerator.flatMap_below_pushStart
        (FTreeSortedDictionary.Valid.sorted h) start []
      rw [List.flatMap_nil, List.append_nil] at hstack
      exact hstack

theorem Valid.reverseKeyEnumeratorFrom_yields (h : d.Valid) (start : κ) :
    Yields KeyEnumerator.nextObject (d.reverseKeyEnumeratorFrom start)
      ((SortedAssoc.entriesUpTo comparator start d.entries).map Prod.fst).reverse := by
  cases d with
  | array d =>
      refine KeyEnumerator.yields_array ?_
      rcases exists_reverseStart (FArraySortedDictionary.Valid.sorted h) start with
        ⟨n, hn, hstart, htake⟩
      have hlen : n ≤ d.keys.length := by
        simpa [FArraySortedDictionary.Valid.keys_eq h] using hn
      rw [← FArraySortedDictionary.Valid.keys_eq h] at hstart htake
      rw [hstart, FArraySortedDictionaryEnumerator.left_reverse hlen, htake]
      rfl
  | tree d =>
      rw [← List.map_reverse]
      refine tree_yields d (some start) true ?_
      have hstack := FTreeSortedDictionaryEnumerator.flatMap_below_pushStart_reverse
        (FTreeSortedDictionary.Valid.sorted h) start []
      rw [List.flatMap_nil, List.append_nil] at hstack
      exact hstack

/-- The enumerators hand out the keys in order, and those from or up to a start key, whether the
start key is there or not. -/
theorem enumerators_yield (h : d.Valid) (start : κ) :
    Yields KeyEnumerator.nextObject d.keyEnumerator (d.entries.map Prod.fst) ∧
    Yields KeyEnumerator.nextObject (d.keyEnumeratorFrom start)
      ((d.entries.filter fun e => comparator e.1 start ≠ .lt).map Prod.fst) ∧
    Yields KeyEnumerator.nextObject (d.reverseKeyEnumeratorFrom start)
      ((d.entries.filter fun e => comparator e.1 start ≠ .gt).map Prod.fst).reverse :=
  ⟨h.keyEnumerator_yields, h.keyEnumeratorFrom_yields start,
    h.reverseKeyEnumeratorFrom_yields start⟩

theorem enumerators_thirtyKeys :
    Yields KeyEnumerator.nextObject thirtyKeys.keyEnumerator (List.range 30) ∧
    Yields KeyEnumerator.nextObject (thirtyKeys.keyEnumeratorFrom 27) [27, 28, 29] ∧
    Yields KeyEnumerator.nextObject (thirtyKeys.reverseKeyEnumeratorFrom 2) [2, 1, 0] := by
  rcases enumerators_yield valid_thirtyKeys 27 with ⟨hall, hfrom, _⟩
  rcases enumerators_yield valid_thirtyKeys 2 with ⟨_, _, hupTo⟩
  have hlast : (thirtyKeys.entries.filter fun e => compare e.1 27 ≠ .lt).map Prod.fst =
      [27, 28, 29] := by
    decide +kernel
  have hfirst : ((thirtyKeys.entries.filter fun e => compare e.1 2 ≠ .gt).map Prod.fst).reverse =
      [2, 1, 0] := by
    decide +kernel
  exact ⟨keys_thirtyKeys ▸ hall, hlast ▸ hfrom, hfirst ▸ hupTo⟩

end FImmutableSortedDictionary

end Dictionary
end AppChatAgain
