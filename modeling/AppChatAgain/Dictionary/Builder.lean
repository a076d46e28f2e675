import Mathlib.Data.Nat.Bitwise
import AppChatAgain.Foundation.SortedView
import AppChatAgain.Dictionary.Tree

/-!
# Dictionary.Builder — a tree from the entries of a dictionary

`fromDictionary` sorts the keys and builds the tree from the right end of the list, without
comparing keys any more.  The number of keys is written in base {1, 2}: a digit 1 of weight `2 ^ m`
becomes one black *pennant* of `2 ^ m` entries, a digit 2 a black and a red one, and each pennant is
the left child of the one before.

* `sortedEntries_cases` : two keys with the same ordering are the only thing that it throws for;
* `buildPennants_eq`    : what is left of the list is read off the digits that are left, and the
  pennants make a balanced tree of it;
* `fromDictionary_cases`: the two together.
-/

namespace AppChatAgain
namespace Dictionary

open Foundation Std FLLRBNode

universe u

variable {κ ν : Type u}

/-! ## Sorting the keys -/

/-- What an `NSArray` throws for an index that is out of bounds. -/
def rangeException : NSException where
  name := "NSRangeException"
  reason := "index beyond bounds"

def sameOrdering : NSException where
  name := "NSInvalidArgumentException"
  reason := "Can't create FImmutableSortedDictionary with keys with same ordering!"

/-- Every key is below the next one. -/
def ascending (comparator : NSComparator κ) : List κ → Bool
  | a :: b :: keys => comparator a b = .lt && ascending comparator (b :: keys)
  | _ => true

/-- The first part of both `fromDictionary`: the sorted keys, each with its value. -/
def sortedEntries (order : KeyOrder κ ν) (sort : SortFn κ) (comparator : NSComparator κ)
    [DecidableEq κ] (dictionary : Dict κ ν) : Except NSException (List (κ × ν)) :=
  let keys := sort.sort (fun a b => comparator a b = .lt) (order.order dictionary)
  if !ascending comparator keys then .error sameOrdering
  else .ok (keys.filterMap fun key => (dictionary.lookup key).map (key, ·))

section SortedEntries

variable {comparator : NSComparator κ} [TransCmp comparator]

theorem strictWeak_comparator : StrictWeak fun a b : κ => decide (comparator a b = .lt) where
  asymm a b hab := by
    have hlt : comparator a b = .lt := by simpa using hab
    simp [OrientedCmp.gt_of_lt hlt]
  trans a b c hab hbc := by
    simp only [decide_eq_true_eq] at *
    exact TransCmp.lt_trans hab hbc
  incomp a b c hab hbc := by
    simp only [decide_eq_false_iff_not] at *
    intro hac
    have hba : (comparator b a).isLE :=
      Ordering.isLE_iff_ne_gt.2 fun hgt => hab (OrientedCmp.lt_of_gt hgt)
    exact hbc (TransCmp.lt_of_isLE_of_lt hba hac)

theorem ascending_iff {keys : List κ} :
    ascending comparator keys = true ↔ keys.Pairwise fun a b => comparator a b = .lt := by
  induction keys with
  | nil => simp [ascending]
  | cons a keys ih =>
      cases keys with
      | nil => simp [ascending]
      | cons b keys =>
          simp only [ascending, Bool.and_eq_true, decide_eq_true_eq, ih, List.pairwise_cons,
            List.mem_cons, forall_eq_or_imp]
          constructor
          · rintro ⟨hab, hb, hkeys⟩
            exact ⟨⟨hab, fun c hc => TransCmp.lt_trans hab (hb c hc)⟩, hb, hkeys⟩
          · rintro ⟨⟨hab, _⟩, hb, hkeys⟩
            exact ⟨hab, hb, hkeys⟩

/-- Sorted keys that do not ascend have two with the same ordering. -/
theorem exists_same_of_not_ascending {keys : List κ} (hnd : keys.Nodup)
    (hs : keys.Pairwise fun a b => comparator b a ≠ .lt) (h : ascending comparator keys = false) :
    ∃ a ∈ keys, ∃ b ∈ keys, a ≠ b ∧ comparator a b = .eq := by
  by_contra hnone
  have hasc : ascending comparator keys = true := by
    rw [ascending_iff]
    refine (List.Pairwise.and_mem.1 (hs.and hnd)).imp ?_
    rintro a b ⟨ha, hb, hle, hne⟩
    cases hab : comparator a b with
    | lt => rfl
    | eq => exact absurd ⟨a, ha, b, hb, hne, hab⟩ hnone
    | gt => exact absurd (OrientedCmp.lt_of_gt hab) hle
  rw [hasc] at h
  cases h

variable [DecidableEq κ]

/-- Either the entries are listed in order, or there are two keys with the same ordering. -/
theorem sortedEntries_cases (comparator : NSComparator κ) [TransCmp comparator]
    (order : KeyOrder κ ν) (sort : SortFn κ) (dictionary : Dict κ ν) :
    (∃ entries, sortedEntries order sort comparator dictionary = .ok entries ∧
      SortedAssoc.Sorted comparator entries ∧
        ∀ k v, (k, v) ∈ entries ↔ dictionary.lookup k = some v) ∨
    (sortedEntries order sort comparator dictionary = .error sameOrdering ∧
      ∃ a ∈ dictionary, ∃ b ∈ dictionary, a ≠ b ∧ comparator a b = .eq) := by
  let keys := sort.sort (fun a b => comparator a b = .lt) (order.order dictionary)
  have hperm : keys.Perm (order.order dictionary) := sort.perm _ _
  have hmem : ∀ k, k ∈ keys ↔ k ∈ dictionary := by
    intro k
    rw [hperm.mem_iff, order.mem_order, Finmap.mem_keys]
  cases hasc : ascending comparator keys with
  | true =>
      have hok : sortedEntries order sort comparator dictionary =
          .ok (keys.filterMap fun key => (dictionary.lookup key).map (key, ·)) := by
        simp only [sortedEntries]
        exact if_neg (by simp [keys, hasc])
      refine Or.inl ⟨_, hok, ?_, ?_⟩
      · refine (ascending_iff.1 hasc).filterMap _ ?_
        intro a b hab c hc d hd
        simp only [Option.map_eq_some_iff] at hc hd
        rcases hc with ⟨_, _, rfl⟩
        rcases hd with ⟨_, _, rfl⟩
        exact hab
      · intro k v
        simp only [List.mem_filterMap, hmem, Option.map_eq_some_iff, Prod.mk.injEq]
        constructor
        · rintro ⟨_, _, _, hv, rfl, rfl⟩
          exact hv
        · intro hv
          exact ⟨k, Finmap.mem_iff.2 ⟨v, hv⟩, v, hv, rfl, rfl⟩
  | false =>
      have hle : keys.Pairwise fun a b => decide (comparator b a = .lt) = false :=
        sort.sorted _ _ strictWeak_comparator
      have hthrow : sortedEntries order sort comparator dictionary = .error sameOrdering := by
        simp only [sortedEntries]
        exact if_pos (by simp [keys, hasc])
      refine Or.inr ⟨hthrow, ?_⟩
      rcases exists_same_of_not_ascending (hperm.nodup_iff.2 (order.nodup_order dictionary))
        (hle.imp fun hab => by simpa using hab) hasc with ⟨a, ha, b, hb, hne, hab⟩
      exact ⟨a, (hmem a).1 ha, b, (hmem b).1 hb, hne, hab⟩

/-- There are no more entries than keys. -/
theorem length_le_card {entries : List (κ × ν)} {dictionary : Dict κ ν}
    (hs : SortedAssoc.Sorted comparator entries)
    (hmem : ∀ k v, (k, v) ∈ entries → dictionary.lookup k = some v) :
    entries.length ≤ dictionary.keys.card := by
  rw [← List.length_map Prod.fst, ← List.toFinset_card_of_nodup hs.nodup_keys]
  refine Finset.card_le_card fun k hk => ?_
  rcases List.mem_map.1 (List.mem_toFinset.1 hk) with ⟨e, he, rfl⟩
  exact Finmap.mem_keys.2 (Finmap.mem_iff.2 ⟨e.2, hmem e.1 e.2 he⟩)

end SortedEntries

/-! ## Base {1, 2} -/

/-- The digits of a number in base {1, 2}, from the most significant one on: a bit 0 stands for the
digit 1 and a bit 1 for the digit 2. -/
structure Base1_2List where
  bits : ℕ
  count : ℕ
  current : ℕ

namespace Base1_2List

/-- `(unsigned int)(log(num) / log(2))`.  For 32 bits the quotient of the two `double`s is a whole
number where `num` is a power of two, and stays clear of one elsewhere. -/
def logBase2 (num : ℕ) : ℕ :=
  Nat.log2 num

def bitMask (x : ℕ) : ℕ :=
  if 32 ≤ x then 2 ^ 32 - 1 else 2 ^ x - 1

/-- `length` is an `unsigned int`. -/
def new (length : ℕ) : Base1_2List :=
  let num := (length + 1) % 2 ^ 32
  let count := logBase2 num
  { bits := num &&& bitMask count
    count := count
    current := count - 1 }

def next (list : Base1_2List) : Bool × Base1_2List :=
  (!list.bits.testBit list.current, { list with current := list.current - 1 })

end Base1_2List

/-! ## Building the tree -/

namespace FTreeSortedDictionary

def objectAtIndex {α : Type u} (l : List α) (i : ℕ) : Except NSException α :=
  match l[i]? with
  | some a => .ok a
  | none => .error rangeException

/-- `entries` are the keys of the list, each with its value in the dictionary. -/
def buildBalancedTree (entries : List (κ × ν)) (startIndex length : ℕ) :
    Except NSException (FLLRBNode κ ν) :=
  if min (entries.length - startIndex) length = 0 then .ok emptyNode
  else if min (entries.length - startIndex) length = 1 then do
    let e ← objectAtIndex entries startIndex
    return valueNode e.1 e.2 BLACK emptyNode emptyNode
  else do
    let middle := min (entries.length - startIndex) length / 2
    let left ← buildBalancedTree entries startIndex middle
    let right ← buildBalancedTree entries (startIndex + middle + 1) middle
    let e ← objectAtIndex entries (startIndex + middle)
    return valueNode e.1 e.2 BLACK left right
termination_by length
decreasing_by all_goals omega

/-- The root so far, and the first entry that it has.  The last pennant, `node`, is the last node of
its left spine. -/
structure Building (κ ν : Type u) where
  root : FLLRBNode κ ν
  index : ℕ

/-- `node.left = pennant`, or the new root. -/
def attachPennant (pennant : FLLRBNode κ ν) : FLLRBNode κ ν → FLLRBNode κ ν
  | emptyNode => pennant
  | valueNode k v c l r => valueNode k v c (attachPennant pennant l) r

def buildPennant (entries : List (κ × ν)) (color : FLLRBColor) (chunkSize : ℕ)
    (s : Building κ ν) : Except NSException (Building κ ν) := do
  let startIndex := s.index - chunkSize + 1
  let index := s.index - chunkSize
  let e ← objectAtIndex entries index
  let childTree ← buildBalancedTree entries startIndex (chunkSize - 1)
  return { root := attachPennant (valueNode e.1 e.2 color emptyNode childTree) s.root
           index := index }

/-- The loop of `rootFrom12List`, with `count - i` rounds left. -/
def buildPennants (entries : List (κ × ν)) :
    ℕ → Base1_2List → Building κ ν → Except NSException (Building κ ν)
  | 0, _, s => .ok s
  | m + 1, list, s => do
      let isOne := list.next.1
      let chunkSize := 2 ^ m
      let s ← buildPennant entries BLACK chunkSize s
      let s ← if isOne then .ok s else buildPennant entries RED chunkSize s
      buildPennants entries m list.next.2 s

def rootFrom12List (list : Base1_2List) (entries : List (κ × ν)) :
    Except NSException (FLLRBNode κ ν) := do
  let s ← buildPennants entries list.count list { root := emptyNode, index := entries.length }
  return s.root

def fromDictionary [DecidableEq κ] (order : KeyOrder κ ν) (sort : SortFn κ)
    (dictionary : Dict κ ν) (comparator : NSComparator κ) :
    Except NSException (FTreeSortedDictionary comparator ν) := do
  let entries ← sortedEntries order sort comparator dictionary
  let root ← rootFrom12List (.new entries.length) entries
  return ⟨root⟩

/-! ## The tree is balanced and has the entries -/

theorem objectAtIndex_eq {α : Type u} {l : List α} {i : ℕ} (h : i < l.length) :
    objectAtIndex l i = .ok l[i] := by
  simp [objectAtIndex, h]

/-- A slice of a list around one of its elements. -/
theorem take_drop_split {α : Type u} {l : List α} {s a : ℕ} (h : s + a < l.length) (b : ℕ) :
    (l.drop s).take (a + 1 + b) =
      (l.drop s).take a ++ l[s + a] :: (l.drop (s + a + 1)).take b := by
  rw [Nat.add_assoc, List.take_add, List.drop_drop, List.drop_eq_getElem_cons h, Nat.add_comm 1 b,
    List.take_succ_cons]

/-- `2 ^ m - 1` entries make a tree in which all paths are alike. -/
theorem buildBalancedTree_eq (entries : List (κ × ν)) (m : ℕ) :
    ∀ startIndex, startIndex + (2 ^ m - 1) ≤ entries.length →
      ∃ t, buildBalancedTree entries startIndex (2 ^ m - 1) = .ok t ∧ Balanced t BLACK m ∧
        t.toList = (entries.drop startIndex).take (2 ^ m - 1) := by
  induction m with
  | zero =>
      intro startIndex _
      exact ⟨emptyNode, by simp [buildBalancedTree], .empty, by simp⟩
  | succ m ih =>
      intro startIndex hle
      have hpos : 0 < 2 ^ m := Nat.two_pow_pos m
      have hpow : 2 ^ (m + 1) - 1 = (2 ^ m - 1) + 1 + (2 ^ m - 1) := by
        rw [Nat.pow_succ]
        omega
      rw [hpow] at hle ⊢
      have hmid : startIndex + (2 ^ m - 1) < entries.length := by omega
      rcases ih startIndex (by omega) with ⟨l, hl, hlbal, hllist⟩
      rcases ih (startIndex + (2 ^ m - 1) + 1) (by omega) with ⟨r, hr, hrbal, hrlist⟩
      refine ⟨valueNode entries[startIndex + (2 ^ m - 1)].1 entries[startIndex + (2 ^ m - 1)].2
        BLACK l r, ?_, .black hlbal hrbal, by rw [toList_valueNode, hllist, hrlist,
          take_drop_split hmid]⟩
      have hlen : min (entries.length - startIndex) ((2 ^ m - 1) + 1 + (2 ^ m - 1)) =
          (2 ^ m - 1) + 1 + (2 ^ m - 1) := by omega
      rw [buildBalancedTree, hlen, if_neg (by omega)]
      cases m with
      | zero =>
          -- a leaf
          cases hlbal
          cases hrbal
          rw [if_pos (by simp), objectAtIndex_eq (Nat.lt_of_succ_le hle)]
          rfl
      | succ m =>
          have hhalf : ((2 ^ (m + 1) - 1) + 1 + (2 ^ (m + 1) - 1)) / 2 = 2 ^ (m + 1) - 1 := by omega
          have hne : ¬ (2 ^ (m + 1) - 1) + 1 + (2 ^ (m + 1) - 1) = 1 := by
            rw [Nat.pow_succ]
            omega
          rw [if_neg hne]
          simp only [hhalf, hl, hr, objectAtIndex_eq hmid]
          rfl

@[simp] theorem attachPennant_emptyNode (p : FLLRBNode κ ν) : attachPennant p emptyNode = p :=
  rfl

theorem attachPennant_attachPennant (p q r : FLLRBNode κ ν) :
    attachPennant p (attachPennant q r) = attachPennant (attachPennant p q) r := by
  induction r with
  | emptyNode => rfl
  | valueNode k v c l r ihl ihr => simp [attachPennant, ihl]

/-- One pennant takes `2 ^ m` entries off the end of what is left. -/
theorem buildPennant_eq {entries : List (κ × ν)} (color : FLLRBColor) {m : ℕ}
    (root : FLLRBNode κ ν) {index : ℕ} (hle : index + 2 ^ m ≤ entries.length) :
    ∃ k v t, buildPennant entries color (2 ^ m) { root := root, index := index + 2 ^ m } =
        .ok { root := attachPennant (valueNode k v color emptyNode t) root, index := index } ∧
      Balanced t BLACK m ∧
        entries.take (index + 2 ^ m) = entries.take index ++ (k, v) :: t.toList := by
  have hpos : 0 < 2 ^ m := Nat.two_pow_pos m
  have hlt : index < entries.length := by omega
  rcases buildBalancedTree_eq entries m (index + 1) (by omega) with
    ⟨t, ht, hbal, hlist⟩
  refine ⟨entries[index].1, entries[index].2, t, ?_, hbal, ?_⟩
  · simp only [buildPennant, Nat.add_sub_cancel, objectAtIndex_eq hlt, ht]
    rfl
  · have hsplit := take_drop_split (l := entries) (s := 0) (a := index) (by simpa using hlt)
      (2 ^ m - 1)
    have hlen : index + 1 + (2 ^ m - 1) = index + 2 ^ m := by omega
    simpa [hlen, hlist] using hsplit

@[simp] theorem attachPennant_self (n : FLLRBNode κ ν) : attachPennant emptyNode n = n := by
  induction n with
  | emptyNode => rfl
  | valueNode k v c l r ihl ihr => simp [attachPennant, ihl]

theorem index_succ (b m : ℕ) :
    2 ^ (m + 1) - 1 + b % 2 ^ (m + 1) =
      2 ^ m - 1 + b % 2 ^ m + 2 ^ m + if b.testBit m then 2 ^ m else 0 := by
  have hpos : 0 < 2 ^ m := Nat.two_pow_pos m
  have hmod : b % 2 ^ (m + 1) = b % 2 ^ m + if b.testBit m then 2 ^ m else 0 := by
    rw [Nat.mod_pow_succ, ← Nat.toNat_testBit]
    cases b.testBit m <;> simp
  rw [hmod, Nat.pow_succ]
  omega

/-- The digits that are left say how many entries are left, and the pennants that are left make a
balanced tree of them. -/
theorem buildPennants_eq (entries : List (κ × ν)) (b m : ℕ) :
    ∀ (list : Base1_2List) (root : FLLRBNode κ ν),
      (∀ i < m, list.bits.testBit i = b.testBit i) → list.current = m - 1 →
      2 ^ m - 1 + b % 2 ^ m ≤ entries.length →
        ∃ t, buildPennants entries m list { root := root, index := 2 ^ m - 1 + b % 2 ^ m } =
            .ok { root := attachPennant t root, index := 0 } ∧
          Balanced t BLACK m ∧ t.toList = entries.take (2 ^ m - 1 + b % 2 ^ m) := by
  induction m with
  | zero =>
      intro list root _ _ _
      exact ⟨emptyNode, by simp [buildPennants, Nat.mod_one], .empty, by simp [Nat.mod_one]⟩
  | succ m ih =>
      intro list root hbits hcurrent hle
      rw [index_succ] at hle ⊢
      have hbit : list.next.1 = !b.testBit m := by
        simp [Base1_2List.next, hcurrent, hbits m (Nat.lt_succ_self m)]
      have hrest := fun root' => ih list.next.2 root'
        (fun i hi => hbits i (Nat.lt_succ_of_lt hi)) (by simp [Base1_2List.next, hcurrent])
        (by omega)
      cases hb : b.testBit m with
      | false =>
          -- the digit 1
          simp only [hb, Bool.false_eq_true, if_false, Nat.add_zero] at hle ⊢
          rcases buildPennant_eq BLACK root hle with ⟨k, v, r, hblack, hr, hsplit⟩
          rcases hrest (attachPennant (valueNode k v BLACK emptyNode r) root) with
            ⟨t, ht, hbal, hlist⟩
          rw [attachPennant_attachPennant] at ht
          refine ⟨valueNode k v BLACK t r, ?_, .black hbal hr, by simp [hlist, hsplit]⟩
          simp only [buildPennants, hblack, hbit, hb]
          exact ht
      | true =>
          -- the digit 2
          simp only [hb, if_true] at hle ⊢
          rcases buildPennant_eq BLACK root hle with ⟨k, v, r, hblack, hr, hsplit⟩
          rcases buildPennant_eq RED (attachPennant (valueNode k v BLACK emptyNode r) root)
            (show 2 ^ m - 1 + b % 2 ^ m + 2 ^ m ≤ entries.length by omega) with
            ⟨k', v', r', hred, hr', hsplit'⟩
          rcases hrest (attachPennant (valueNode k' v' RED emptyNode r')
            (attachPennant (valueNode k v BLACK emptyNode r) root)) with ⟨t, ht, hbal, hlist⟩
          rw [attachPennant_attachPennant, attachPennant_attachPennant] at ht
          refine ⟨valueNode k v BLACK (valueNode k' v' RED t r') r, ?_, .black (.red hbal hr') hr,
            by simp [hlist, hsplit, hsplit']⟩
          simp only [buildPennants, hblack, hbit, hb, bind, Except.bind, Bool.not_true,
            Bool.false_eq_true, if_false, hred, attachPennant_attachPennant _ _ root]
          exact ht

/-- The digits are the bits of `length + 1` but for the first one. -/
theorem base1_2List_new {length : ℕ} (h : length + 1 < 2 ^ 32) :
    Base1_2List.new length =
      { bits := (length + 1) % 2 ^ Nat.log2 (length + 1)
        count := Nat.log2 (length + 1)
        current := Nat.log2 (length + 1) - 1 } := by
  have hcount : ¬ 32 ≤ Nat.log2 (length + 1) := by
    have hlt : Nat.log2 (length + 1) < 32 := (Nat.log2_lt (by omega)).2 h
    omega
  simp only [Base1_2List.new, Base1_2List.logBase2, Base1_2List.bitMask, Nat.mod_eq_of_lt h,
    hcount, if_false, Nat.and_two_pow_sub_one_eq_mod]

/-- A tree of all entries, for any number of them that an `unsigned int` can count. -/
theorem rootFrom12List_eq (entries : List (κ × ν)) (hlen : entries.length + 1 < 2 ^ 32) :
    ∃ t, rootFrom12List (.new entries.length) entries = .ok t ∧ t.toList = entries ∧
      ∃ h, Balanced t BLACK h := by
  have hindex : 2 ^ Nat.log2 (entries.length + 1) - 1 +
      (entries.length + 1) % 2 ^ Nat.log2 (entries.length + 1) = entries.length := by
    have hlow : 2 ^ Nat.log2 (entries.length + 1) ≤ entries.length + 1 :=
      Nat.log2_self_le (Nat.succ_ne_zero _)
    have hhigh : entries.length + 1 < 2 ^ (Nat.log2 (entries.length + 1) + 1) := Nat.lt_log2_self
    rw [Nat.pow_succ] at hhigh
    have hpos : 0 < 2 ^ Nat.log2 (entries.length + 1) := Nat.two_pow_pos _
    rw [Nat.mod_eq_sub_mod hlow, Nat.mod_eq_of_lt (by omega)]
    omega
  rcases buildPennants_eq entries (entries.length + 1) _
    (.new entries.length) emptyNode
    (fun i hi => by simp [base1_2List_new hlen, Nat.testBit_mod_two_pow, hi])
    (by simp [base1_2List_new hlen]) (Nat.le_of_eq hindex) with ⟨t, ht, hbal, hlist⟩
  rw [hindex] at ht hlist
  refine ⟨t, ?_, by rw [hlist, List.take_length], _, hbal⟩
  have hcount : (Base1_2List.new entries.length).count = Nat.log2 (entries.length + 1) := by
    rw [base1_2List_new hlen]
  simp only [rootFrom12List, hcount, ht]
  rfl

/-- `fromDictionary` throws exactly for two keys with the same ordering, and otherwise makes a valid
tree of the entries. -/
theorem fromDictionary_cases [DecidableEq κ] (comparator : NSComparator κ) [TransCmp comparator]
    (order : KeyOrder κ ν) (sort : SortFn κ) {dictionary : Dict κ ν}
    (hlen : dictionary.keys.card + 1 < 2 ^ 32) :
    (∃ d, fromDictionary order sort dictionary comparator = .ok d ∧ d.Valid ∧
      ∀ k v, (k, v) ∈ d.entries ↔ dictionary.lookup k = some v) ∨
    (fromDictionary order sort dictionary comparator = .error sameOrdering ∧
      ∃ a ∈ dictionary, ∃ b ∈ dictionary, a ≠ b ∧ comparator a b = .eq) := by
  rcases sortedEntries_cases comparator order sort dictionary with
    ⟨entries, hok, hsorted, hmem⟩ | ⟨hthrow, hsame⟩
  · have hcount := length_le_card hsorted fun k v => (hmem k v).1
    rcases rootFrom12List_eq entries (by omega) with ⟨t, ht, hlist, hbal⟩
    have hroot : (⟨t⟩ : FTreeSortedDictionary comparator ν).entries = entries := hlist
    refine Or.inl ⟨⟨t⟩, ?_, ⟨by rw [hroot]; exact hsorted, hbal⟩, by rw [hroot]; exact hmem⟩
    simp only [fromDictionary, hok, bind, Except.bind, ht]
    rfl
  · refine Or.inr ⟨?_, hsame⟩
    simp only [fromDictionary, hthrow]
    rfl

end FTreeSortedDictionary

end Dictionary
end AppChatAgain
