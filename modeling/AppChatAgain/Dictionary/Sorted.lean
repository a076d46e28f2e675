import AppChatAgain.Foundation.Run
import AppChatAgain.Dictionary.Enumerator

/-!
# Dictionary.Sorted — `FImmutableSortedDictionary`

The dictionary that the rest of the database uses: an array while it is small, a tree from the 26th
key on, and a tree for good.

* `Operation.after` : what an operation does to the partial function that a dictionary stands for;
* `run_represents`  : no run of operations throws, and its dictionary stands for what the operations
  make of the function that is nowhere defined;
* `isEqual_iff`     : dictionaries are equal if they stand for one function, whichever
  implementations they have.
-/

namespace AppChatAgain
namespace Dictionary

open Foundation Foundation.Iteration Std FLLRBNode

universe u

variable {κ ν : Type u} {comparator : NSComparator κ}

namespace FImmutableSortedDictionary

def dictionaryWithComparator (comparator : NSComparator κ) :
    FImmutableSortedDictionary comparator ν :=
  array (.initWithComparator comparator)

def fromDictionary [DecidableEq κ] (order : KeyOrder κ ν) (sort : SortFn κ)
    (dictionary : Dict κ ν) (comparator : NSComparator κ) :
    Except NSException (FImmutableSortedDictionary comparator ν) :=
  if dictionary.keys.card ≤ arrayToRbTreeSizeThreshold then
    (FArraySortedDictionary.fromDictionary order sort dictionary comparator).map array
  else (FTreeSortedDictionary.fromDictionary order sort dictionary comparator).map tree

variable (d : FImmutableSortedDictionary comparator ν)

def insertKey [DecidableEq κ] (order : KeyOrder κ ν) (sort : SortFn κ) (aKey : κ) (aValue : ν) :
    Except NSException (FImmutableSortedDictionary comparator ν) :=
  match d with
  | array d => d.insertKey order sort aKey aValue
  | tree d => .ok (tree (d.insertKey aKey aValue))

def removeKey (aKey : κ) : FImmutableSortedDictionary comparator ν :=
  match d with
  | array d => array (d.removeKey aKey)
  | tree d => tree (d.removeKey aKey)

def get (key : κ) : Option ν :=
  match d with
  | array d => d.get key
  | tree d => d.get key

def contains (key : κ) : Bool :=
  match d with
  | array d => d.contains key
  | tree d => d.contains key

def getPredecessorKey (key : κ) : Except NSException (Option κ) :=
  match d with
  | array d => d.getPredecessorKey key
  | tree d => d.getPredecessorKey key

def isEmpty : Bool :=
  match d with
  | array d => d.isEmpty
  | tree d => d.isEmpty

def count : ℕ :=
  match d with
  | array d => d.count
  | tree d => d.count

def minKey : Option κ :=
  match d with
  | array d => d.minKey
  | tree d => d.minKey

def maxKey : Option κ :=
  match d with
  | array d => d.maxKey
  | tree d => d.maxKey

/-- `isEqual:` for another dictionary of the same comparator. -/
def isEqual [DecidableEq ν] (other : FImmutableSortedDictionary comparator ν) : Bool :=
  if d.count ≠ other.count then false
  else
    d.enumerateKeysAndObjectsReverse false
      (fun e isEqual =>
        let isEqual := isEqual && decide (some e.2 = other.get e.1)
        (!isEqual, isEqual))
      true

/-- How much an operation may cost: an array is short, and a tree is as the header of the class
says, with paths of logarithmic length. -/
def Bounded : Prop :=
  match d with
  | array d => d.count ≤ arrayToRbTreeSizeThreshold
  | tree d => d.root.checkMaxDepth = some true ∧ d.root.depth ≤ 2 * Nat.log 2 (d.count + 1)

variable {d}

/-! ## Reading -/

theorem Valid.count_eq (h : d.Valid) : d.count = d.entries.length := by
  cases d with
  | array d => exact FArraySortedDictionary.Valid.count_eq h
  | tree d => exact (length_toList d.root).symm

theorem Valid.isEmpty_eq (h : d.Valid) : d.isEmpty = d.entries.isEmpty := by
  cases d with
  | array d =>
      have hkeys := FArraySortedDictionary.Valid.keys_eq h
      simp [isEmpty, FArraySortedDictionary.isEmpty, hkeys, entries]
  | tree d =>
      rcases d with ⟨root⟩
      cases root <;> simp [isEmpty, FTreeSortedDictionary.isEmpty, entries,
        FTreeSortedDictionary.entries, FLLRBNode.isEmpty]

/-- The least key is that of the first entry. -/
theorem Valid.minKey_eq (h : d.Valid) : d.minKey = d.entries.head?.map Prod.fst := by
  cases d with
  | array d =>
      have hkeys := FArraySortedDictionary.Valid.keys_eq h
      simp [minKey, FArraySortedDictionary.minKey, hkeys, entries]
  | tree d => exact FLLRBNode.minKey_eq d.root

theorem Valid.maxKey_eq (h : d.Valid) : d.maxKey = d.entries.getLast?.map Prod.fst := by
  cases d with
  | array d =>
      have hkeys := FArraySortedDictionary.Valid.keys_eq h
      simp [maxKey, FArraySortedDictionary.maxKey, hkeys, entries]
  | tree d => exact FLLRBNode.maxKey_eq d.root

variable [TransCmp comparator]

theorem Valid.get_eq (h : d.Valid) (key : κ) :
    d.get key = SortedAssoc.lookup comparator key d.entries := by
  cases d with
  | array d => exact FArraySortedDictionary.Valid.get_eq h key
  | tree d => exact FTreeSortedDictionary.Valid.get_eq h key

theorem Valid.contains_eq (h : d.Valid) (key : κ) : d.contains key = (d.get key).isSome := by
  cases d with
  | array d =>
      rw [Valid.get_eq h]
      exact FArraySortedDictionary.Valid.contains_eq h key
  | tree d => rfl

/-- Both implementations throw for a key that is not there, each an exception of its own. -/
theorem Valid.getPredecessorKey_eq (h : d.Valid) (key : κ) :
    d.getPredecessorKey key =
      if d.contains key then .ok (SortedAssoc.predecessor comparator key d.entries)
      else .error (match d with
        | array _ => FArraySortedDictionary.nonexistentKey
        | tree _ => FTreeSortedDictionary.nonexistentKey) := by
  cases d with
  | array d => exact FArraySortedDictionary.Valid.getPredecessorKey_eq h key
  | tree d =>
      have hpred := FTreeSortedDictionary.Valid.getPredecessorKey_eq h key
      rw [← FTreeSortedDictionary.Valid.get_eq h] at hpred
      exact hpred

/-- For a key that is there, `getPredecessorKey` returns the greatest key below it, or nothing if
there is none. -/
theorem getPredecessorKey_spec (h : d.Valid) (key : κ) :
    (d.contains key = false → ∃ e, d.getPredecessorKey key = .error e) ∧
    (d.contains key = true → ∃ predecessor, d.getPredecessorKey key = .ok predecessor ∧
      ∀ p, predecessor = some p ↔ p ∈ d.entries.map Prod.fst ∧ comparator p key = .lt ∧
        ∀ k ∈ d.entries.map Prod.fst, comparator k key = .lt → (comparator k p).isLE) := by
  rw [h.getPredecessorKey_eq]
  constructor
  · intro hnot
    exact ⟨_, by rw [hnot]; rfl⟩
  · intro hin
    refine ⟨SortedAssoc.predecessor comparator key d.entries, by rw [hin]; rfl, fun p => ?_⟩
    rw [h.sorted.predecessor_eq_some_iff]
    simp

/-- Of the keys below 30, 11 is the predecessor of 12, and 40 has none. -/
theorem getPredecessorKey_thirtyKeys :
    thirtyKeys.getPredecessorKey 12 = .ok (some 11) ∧
      ∃ e, thirtyKeys.getPredecessorKey 40 = .error e := by
  constructor
  · rcases (getPredecessorKey_spec valid_thirtyKeys 12).2 (by decide +kernel) with
      ⟨predecessor, hok, hspec⟩
    rw [hok, (hspec 11).2 (by rw [keys_thirtyKeys]; decide +kernel)]
  · exact (getPredecessorKey_spec valid_thirtyKeys 40).1 (by decide +kernel)

/-- Equality does not depend on the implementations. -/
theorem isEqual_iff [DecidableEq ν] {e : FImmutableSortedDictionary comparator ν} (hd : d.Valid)
    (he : e.Valid) : d.isEqual e = true ↔ ∀ k, d.get k = e.get k := by
  have hall : d.isEqual e = true ↔ d.entries.length = e.entries.length ∧
      ∀ a ∈ d.entries, SortedAssoc.lookup comparator a.1 e.entries = some a.2 := by
    have hcheck := visit_check
      (fun a : κ × ν => decide (some a.2 = SortedAssoc.lookup comparator a.1 e.entries)) d.entries
    simp only [isEqual, hd.count_eq, he.count_eq, enumerateKeysAndObjectsReverse_eq, he.get_eq]
    by_cases hlen : d.entries.length = e.entries.length
    · simp only [hlen, ne_eq, not_true_eq_false, if_false, Bool.false_eq_true, true_and, hcheck,
        List.all_eq_true, decide_eq_true_eq]
      exact forall₂_congr fun _ _ => eq_comm
    · simp [hlen]
  rw [hall, ← SortedAssoc.lookup_eq_iff hd.sorted he.sorted]
  simp only [hd.get_eq, he.get_eq]

omit [TransCmp comparator] in
theorem Valid.bounded (h : d.Valid) : d.Bounded := by
  cases d with
  | array d =>
      have hcount : d.count = d.entries.length := FArraySortedDictionary.Valid.count_eq h
      exact hcount.trans_le (FArraySortedDictionary.Valid.small h)
  | tree d =>
      rcases FTreeSortedDictionary.Valid.balanced h with ⟨_, hbal⟩
      exact ⟨hbal.checkMaxDepth, hbal.depth_le_log⟩

/-! ## Writing -/

omit [TransCmp comparator] in
theorem valid_dictionaryWithComparator :
    (dictionaryWithComparator comparator : FImmutableSortedDictionary comparator ν).Valid :=
  FArraySortedDictionary.valid_init

theorem Valid.removeKey (h : d.Valid) (k : κ) : (d.removeKey k).Valid := by
  cases d with
  | array d => exact FArraySortedDictionary.Valid.removeKey h k
  | tree d => exact FTreeSortedDictionary.Valid.removeKey h k

theorem Valid.entries_removeKey (h : d.Valid) (k : κ) :
    (d.removeKey k).entries = SortedAssoc.erase comparator k d.entries := by
  cases d with
  | array d =>
      have heq := FArraySortedDictionary.Valid.removeKey_eq h k
      simp [FImmutableSortedDictionary.removeKey, heq, entries]
  | tree d => exact FTreeSortedDictionary.Valid.entries_removeKey h k

variable [DecidableEq κ] (order : KeyOrder κ ν) (sort : SortFn κ)

theorem fromDictionary_cases (comparator : NSComparator κ) [TransCmp comparator]
    {dictionary : Dict κ ν} (hlen : dictionary.keys.card + 1 < 2 ^ 32) :
    (∃ d, fromDictionary order sort dictionary comparator = .ok d ∧ d.Valid ∧
      ∀ k v, (k, v) ∈ d.entries ↔ dictionary.lookup k = some v) ∨
    (fromDictionary order sort dictionary comparator = .error sameOrdering ∧
      ∃ a ∈ dictionary, ∃ b ∈ dictionary, a ≠ b ∧ comparator a b = .eq) := by
  by_cases hsmall : dictionary.keys.card ≤ arrayToRbTreeSizeThreshold
  · simp only [fromDictionary, hsmall, if_true, FArraySortedDictionary.fromDictionary]
    rcases sortedEntries_cases comparator order sort dictionary with
      ⟨l, hok, hs, hmem⟩ | ⟨hthrow, hsame⟩
    · have hcount := length_le_card hs fun k v => (hmem k v).1
      refine Or.inl ⟨array (.ofEntries comparator l), by rw [hok]; rfl,
        FArraySortedDictionary.valid_ofEntries hs (hcount.trans hsmall), ?_⟩
      simpa [entries] using hmem
    · exact Or.inr ⟨by rw [hthrow]; rfl, hsame⟩
  · simp only [fromDictionary, hsmall, if_false]
    rcases FTreeSortedDictionary.fromDictionary_cases comparator order sort hlen with
      ⟨d, hok, hvalid, hmem⟩ | ⟨hthrow, hsame⟩
    · exact Or.inl ⟨tree d, by rw [hok]; rfl, hvalid, hmem⟩
    · exact Or.inr ⟨by rw [hthrow]; rfl, hsame⟩

/-- `fromDictionary` throws for two keys with the same ordering, and for nothing else. -/
theorem fromDictionary_spec (comparator : NSComparator κ) [TransCmp comparator]
    (dictionary : Dict κ ν) (hlen : dictionary.keys.card + 1 < 2 ^ 32) :
    ((∀ a ∈ dictionary, ∀ b ∈ dictionary, comparator a b = .eq → a = b) →
      ∃ d, fromDictionary order sort dictionary comparator = .ok d ∧ d.Valid ∧
        ∀ k v, (k, v) ∈ d.entries ↔ dictionary.lookup k = some v) ∧
    (¬ (∀ a ∈ dictionary, ∀ b ∈ dictionary, comparator a b = .eq → a = b) →
      fromDictionary order sort dictionary comparator = .error sameOrdering) := by
  rcases fromDictionary_cases order sort comparator hlen with
    ⟨d, hok, hvalid, hmem⟩ | ⟨hthrow, a, ha, b, hb, hne, hab⟩
  · refine ⟨fun _ => ⟨d, hok, hvalid, hmem⟩, fun hnot => absurd ?_ hnot⟩
    intro a ha b hb hab
    rcases Finmap.mem_iff.1 ha with ⟨va, hva⟩
    rcases Finmap.mem_iff.1 hb with ⟨vb, hvb⟩
    exact congrArg Prod.fst
      (hvalid.sorted.eq_of_mem ((hmem a va).2 hva) ((hmem b vb).2 hvb) hab)
  · exact ⟨fun hall => absurd (hall a ha b hb hab) hne, fun _ => hthrow⟩

def thirtyEntries : Dict ℕ ℕ :=
  (List.range 30).foldl (fun dictionary k => dictionary.insert k (100 + k)) ∅

/-- Thirty keys make a tree.  By their halves, two of them have the same ordering. -/
theorem fromDictionary_thirtyKeys :
    (∃ d : FImmutableSortedDictionary (compare : ℕ → ℕ → Ordering) ℕ,
      fromDictionary .increasing (.merge ℕ) thirtyEntries compare = .ok d ∧
        d.Valid ∧ (29, 129) ∈ d.entries) ∧
    fromDictionary .increasing (.merge ℕ) thirtyEntries
      (compareOn fun k : ℕ => k / 2) = .error sameOrdering := by
  constructor
  · rcases (fromDictionary_spec .increasing (.merge ℕ) (compare : ℕ → ℕ → Ordering)
      thirtyEntries (by decide +kernel)).1 (by simp) with ⟨d, hok, hvalid, hmem⟩
    exact ⟨d, hok, hvalid, (hmem 29 129).2 (by decide +kernel)⟩
  · refine (fromDictionary_spec .increasing (.merge ℕ) (compareOn fun k : ℕ => k / 2)
      thirtyEntries (by decide +kernel)).2 ?_
    intro hall
    exact absurd (hall 4 (by decide +kernel) 5 (by decide +kernel) (by decide)) (by decide)

/-- An insertion does not throw.  Where it replaces a value, an array takes the new key and a tree
keeps the old one. -/
theorem Valid.insertKey (h : d.Valid) (k : κ) (v : ν) :
    ∃ d', d.insertKey order sort k v = .ok d' ∧ d'.Valid ∧
      ∃ fresh, d'.entries = SortedAssoc.insert comparator fresh k v d.entries := by
  cases d with
  | array d =>
      rcases FArraySortedDictionary.Valid.insertKey_eq h order sort k v with
        ⟨d', hd', hvalid, hentries⟩
      exact ⟨d', hd', hvalid, true, hentries⟩
  | tree d =>
      exact ⟨tree (d.insertKey k v), rfl, FTreeSortedDictionary.Valid.insertKey h k v, false,
        FTreeSortedDictionary.Valid.entries_insertKey h k v⟩

end FImmutableSortedDictionary

/-! ## Runs -/

inductive Operation (κ ν : Type u) where
  | insertKey (key : κ) (value : ν)
  | removeKey (key : κ)

namespace Operation

/-- What an operation makes of a partial function that does not tell keys with the same ordering
apart. -/
def after (comparator : NSComparator κ) (f : κ → Option ν) : Operation κ ν → κ → Option ν
  | insertKey k v => fun k' => if comparator k' k = .eq then some v else f k'
  | removeKey k => fun k' => if comparator k' k = .eq then none else f k'

/-- The operation on a dictionary, `none` where it throws. -/
def step [DecidableEq κ] (order : KeyOrder κ ν) (sort : SortFn κ)
    (d : FImmutableSortedDictionary comparator ν) :
    Operation κ ν → Option (FImmutableSortedDictionary comparator ν)
  | insertKey k v => (d.insertKey order sort k v).toOption
  | removeKey k => some (d.removeKey k)

end Operation

namespace FImmutableSortedDictionary

variable [TransCmp comparator] [DecidableEq κ] (order : KeyOrder κ ν) (sort : SortFn κ)

/-- The dictionary stands for the function. -/
structure Represents (d : FImmutableSortedDictionary comparator ν) (f : κ → Option ν) : Prop where
  valid : d.Valid
  get : ∀ k, d.get k = f k

omit [TransCmp comparator] [DecidableEq κ] in
theorem represents_init :
    (dictionaryWithComparator comparator : FImmutableSortedDictionary comparator ν).Represents
      fun _ => none where
  valid := valid_dictionaryWithComparator
  get _ := rfl

/-- One operation. -/
theorem Represents.step {d : FImmutableSortedDictionary comparator ν} {f : κ → Option ν}
    (h : d.Represents f) (op : Operation κ ν) :
    ∃ d', op.step order sort d = some d' ∧ d'.Represents (op.after comparator f) := by
  cases op with
  | insertKey k v =>
      rcases h.valid.insertKey order sort k v with ⟨d', hd', hvalid, fresh, hentries⟩
      refine ⟨d', by simp [Operation.step, hd', Except.toOption], hvalid, fun k' => ?_⟩
      rw [hvalid.get_eq, hentries, SortedAssoc.lookup_insert, ← h.valid.get_eq, h.get]
      rfl
  | removeKey k =>
      refine ⟨d.removeKey k, rfl, h.valid.removeKey k, fun k' => ?_⟩
      rw [(h.valid.removeKey k).get_eq, h.valid.entries_removeKey, SortedAssoc.lookup_erase,
        ← h.valid.get_eq, h.get]
      rfl

variable (comparator)

theorem exists_run (ops : List (Operation κ ν)) :
    ∃ d : FImmutableSortedDictionary comparator ν,
      Step.run (Operation.step order sort) (dictionaryWithComparator comparator) ops = some d ∧
        d.Represents (ops.foldl (Operation.after comparator) fun _ => none) :=
  Step.run_refines (fun _ _ op h => h.step order sort op) ops represents_init

/-- No run of operations throws, and every lookup finds what the last operation on its key left. -/
theorem run_represents (ops : List (Operation κ ν)) :
    ∃ d : FImmutableSortedDictionary comparator ν,
      Step.run (Operation.step order sort) (dictionaryWithComparator comparator) ops = some d ∧
        ∀ k, d.get k = (ops.foldl (Operation.after comparator) fun _ => none) k ∧
          d.contains k = (d.get k).isSome := by
  rcases exists_run comparator order sort ops with ⟨d, hrun, h⟩
  exact ⟨d, hrun, fun k => ⟨h.get k, h.valid.contains_eq k⟩⟩

theorem run_represents_twoKeys :
    ∃ d : FImmutableSortedDictionary (compare : ℕ → ℕ → Ordering) ℕ,
      Step.run (Operation.step .increasing (.merge ℕ)) (dictionaryWithComparator compare)
          [.insertKey 2 5, .insertKey 1 7, .removeKey 2] = some d ∧
        d.get 1 = some 7 ∧ d.get 2 = none := by
  rcases run_represents (compare : ℕ → ℕ → Ordering) .increasing (.merge ℕ)
    [.insertKey 2 5, .insertKey 1 7, .removeKey 2] with ⟨d, hrun, h⟩
  exact ⟨d, hrun, (h 1).1.trans (by decide), (h 2).1.trans (by decide)⟩

/-- Every dictionary that a run comes to is bounded. -/
theorem run_bounded (ops : List (Operation κ ν)) :
    ∃ d : FImmutableSortedDictionary comparator ν,
      Step.run (Operation.step order sort) (dictionaryWithComparator comparator) ops = some d ∧
        d.Bounded := by
  rcases exists_run comparator order sort ops with ⟨d, hrun, h⟩
  exact ⟨d, hrun, h.valid.bounded⟩

theorem run_bounded_thirtyKeys :
    ∃ d : FImmutableSortedDictionary (compare : ℕ → ℕ → Ordering) ℕ,
      Step.run (Operation.step .increasing (.merge ℕ)) (dictionaryWithComparator compare)
        ((List.range 30).map (fun k => .insertKey k (100 + k)) ++ [.removeKey 7]) = some d ∧
          d.Bounded :=
  run_bounded compare .increasing (.merge ℕ) _

/-- `isEqual` compares what two runs come to, whichever ways they took. -/
theorem run_isEqual_iff [DecidableEq ν] (ops ops' : List (Operation κ ν)) :
    ∃ d d' : FImmutableSortedDictionary comparator ν,
      Step.run (Operation.step order sort) (dictionaryWithComparator comparator) ops = some d ∧
      Step.run (Operation.step order sort) (dictionaryWithComparator comparator) ops' = some d' ∧
        (d.isEqual d' = true ↔
          ops.foldl (Operation.after comparator) (fun _ => none) =
            ops'.foldl (Operation.after comparator) fun _ => none) := by
  rcases exists_run comparator order sort ops with ⟨d, hrun, h⟩
  rcases exists_run comparator order sort ops' with ⟨d', hrun', h'⟩
  refine ⟨d, d', hrun, hrun', ?_⟩
  rw [isEqual_iff h.valid h'.valid, funext_iff]
  simp only [h.get, h'.get]

omit [TransCmp comparator] [DecidableEq κ] in
/-- Insertions for different keys make the function of their values. -/
theorem foldl_after_insertKey [LawfulEqCmp comparator] [DecidableEq κ] (value : κ → ν) (l : List κ)
    (f : κ → Option ν) :
    (l.map fun k => Operation.insertKey k (value k)).foldl (Operation.after comparator) f =
      fun k => if k ∈ l then some (value k) else f k := by
  induction l generalizing f with
  | nil => simp
  | cons a l ih =>
      funext k
      by_cases hk : k = a
      · simp [ih, Operation.after, hk]
      · simp [ih, Operation.after, hk, LawfulEqCmp.compare_eq_iff_eq]

/-- Thirty keys in order, and one more in reverse order, which is removed again. -/
theorem run_isEqual_otherOrder :
    ∃ d d' : FImmutableSortedDictionary (compare : ℕ → ℕ → Ordering) ℕ,
      Step.run (Operation.step .increasing (.merge ℕ)) (dictionaryWithComparator compare)
          ((List.range 30).map fun k => .insertKey k (100 + k)) = some d ∧
      Step.run (Operation.step .increasing (.merge ℕ)) (dictionaryWithComparator compare)
          ((List.range 31).reverse.map (fun k => .insertKey k (100 + k)) ++ [.removeKey 30]) =
            some d' ∧
        d.isEqual d' = true := by
  rcases run_isEqual_iff (compare : ℕ → ℕ → Ordering) .increasing (.merge ℕ)
    ((List.range 30).map fun k => .insertKey k (100 + k))
    ((List.range 31).reverse.map (fun k => .insertKey k (100 + k)) ++ [.removeKey 30]) with
    ⟨d, d', hrun, hrun', heq⟩
  refine ⟨d, d', hrun, hrun', heq.2 ?_⟩
  funext k
  simp only [List.foldl_append, List.foldl_cons, List.foldl_nil, foldl_after_insertKey,
    Operation.after, List.mem_reverse, List.mem_range, Nat.compare_eq_eq]
  split_ifs <;> first | rfl | omega

end FImmutableSortedDictionary

end Dictionary
end AppChatAgain
