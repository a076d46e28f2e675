import Mathlib.Data.List.InsertIdx
import AppChatAgain.Dictionary.Builder

/-!
# Dictionary.Array — `FArraySortedDictionary`

Up to 25 entries, a dictionary is two parallel arrays, the sorted keys and their values, which are
searched from the start.  The insertion of a 26th key makes a tree of it.

* `ofEntries`    : the two arrays of a list of entries, which every valid dictionary is;
* `insertKey_eq` : an insertion into a valid dictionary does not throw, and gives the array or the
  tree of the entries with the new one among them.

Where it replaces a value, the array takes the new key as well, while the tree keeps the old one.
-/

namespace AppChatAgain
namespace Dictionary

open Foundation Std FLLRBNode

universe u

variable {κ ν : Type u}

/-! ## The dictionaries -/

structure FArraySortedDictionary (comparator : NSComparator κ) (ν : Type u) where
  keys : List κ
  values : List ν

/-- `FImmutableSortedDictionary`, by the subclass that implements it. -/
inductive FImmutableSortedDictionary (comparator : NSComparator κ) (ν : Type u) where
  | array (d : FArraySortedDictionary comparator ν)
  | tree (d : FTreeSortedDictionary comparator ν)

/-- `SORTED_DICTIONARY_ARRAY_TO_RB_TREE_SIZE_THRESHOLD`. -/
def arrayToRbTreeSizeThreshold : ℕ :=
  25

namespace FArraySortedDictionary

variable {comparator : NSComparator κ}

def initWithComparator (comparator : NSComparator κ) : FArraySortedDictionary comparator ν where
  keys := []
  values := []

def fromDictionary [DecidableEq κ] (order : KeyOrder κ ν) (sort : SortFn κ)
    (dictionary : Dict κ ν) (comparator : NSComparator κ) :
    Except NSException (FArraySortedDictionary comparator ν) := do
  let entries ← sortedEntries order sort comparator dictionary
  return { keys := entries.map Prod.fst, values := entries.map Prod.snd }

def findInsertPositionForKey (comparator : NSComparator κ) (key : κ) : List κ → ℕ
  | [] => 0
  | k :: keys =>
      if comparator k key = .lt then findInsertPositionForKey comparator key keys + 1 else 0

/-- `none` is `NSNotFound`. -/
def findKey (comparator : NSComparator κ) (key : κ) : List κ → Option ℕ
  | [] => none
  | k :: keys =>
      match comparator key k with
      | .eq => some 0
      | .lt => none
      | .gt => (findKey comparator key keys).map (· + 1)

variable (d : FArraySortedDictionary comparator ν)

def count : ℕ :=
  d.keys.length

def insertKey [DecidableEq κ] (order : KeyOrder κ ν) (sort : SortFn κ) (key : κ) (value : ν) :
    Except NSException (FImmutableSortedDictionary comparator ν) :=
  match findKey comparator key d.keys with
  | none =>
      if arrayToRbTreeSizeThreshold ≤ d.count then do
        let dict := (d.keys.zip d.values).foldl (fun dict e => Finmap.insert e.1 e.2 dict) ∅
        let tree ← FTreeSortedDictionary.fromDictionary order sort (Finmap.insert key value dict)
          comparator
        return .tree tree
      else
        let newPos := findInsertPositionForKey comparator key d.keys
        .ok (.array { keys := d.keys.insertIdx newPos key
                      values := d.values.insertIdx newPos value })
  | some pos => .ok (.array { keys := d.keys.set pos key, values := d.values.set pos value })

def removeKey (key : κ) : FArraySortedDictionary comparator ν :=
  match findKey comparator key d.keys with
  | none => d
  | some pos => { keys := d.keys.eraseIdx pos, values := d.values.eraseIdx pos }

def get (key : κ) : Option ν :=
  (findKey comparator key d.keys).bind fun pos => d.values[pos]?

def contains (key : κ) : Bool :=
  (findKey comparator key d.keys).isSome

/-- The exception of `getPredecessorKey`. -/
def nonexistentKey : NSException where
  name := "NSInternalInconsistencyException"
  reason := "Can't get predecessor key for non-existent key"

def getPredecessorKey (key : κ) : Except NSException (Option κ) :=
  match findKey comparator key d.keys with
  | none => .error nonexistentKey
  | some 0 => .ok none
  | some (pos + 1) => .ok d.keys[pos]?

def isEmpty : Bool :=
  d.keys.isEmpty

def minKey : Option κ :=
  d.keys.head?

def maxKey : Option κ :=
  d.keys.getLast?

def entries : List (κ × ν) :=
  d.keys.zip d.values

structure Valid : Prop where
  length_eq : d.keys.length = d.values.length
  sorted : SortedAssoc.Sorted comparator d.entries
  small : d.entries.length ≤ arrayToRbTreeSizeThreshold

/-! ## The arrays of a list of entries -/

/-- The two arrays of a list of entries. -/
def ofEntries (comparator : NSComparator κ) (l : List (κ × ν)) :
    FArraySortedDictionary comparator ν where
  keys := l.map Prod.fst
  values := l.map Prod.snd

variable {d}

@[simp] theorem entries_ofEntries (l : List (κ × ν)) : (ofEntries comparator l).entries = l :=
  (List.zip_of_prod rfl rfl).symm

@[simp] theorem keys_ofEntries (l : List (κ × ν)) :
    (ofEntries comparator l).keys = l.map Prod.fst :=
  rfl

theorem Valid.eq_ofEntries (h : d.Valid) : d = ofEntries comparator d.entries := by
  rcases d with ⟨keys, values⟩
  simp only [ofEntries, entries, List.map_fst_zip (Nat.le_of_eq h.length_eq),
    List.map_snd_zip (Nat.le_of_eq h.length_eq.symm)]

theorem valid_ofEntries {l : List (κ × ν)} (hs : SortedAssoc.Sorted comparator l)
    (hlen : l.length ≤ arrayToRbTreeSizeThreshold) : (ofEntries comparator l).Valid where
  length_eq := by simp [ofEntries]
  sorted := by simpa using hs
  small := by simpa using hlen

/-! ## Searching -/

section Search

variable [TransCmp comparator] {key : κ} {l : List (κ × ν)}

theorem bind_findKey (hs : SortedAssoc.Sorted comparator l) (key : κ) :
    ((findKey comparator key (l.map Prod.fst)).bind fun pos => (l.map Prod.snd)[pos]?) =
      SortedAssoc.lookup comparator key l := by
  induction l with
  | nil => rfl
  | cons e l ih =>
      rcases SortedAssoc.sorted_cons.1 hs with ⟨he, hl⟩
      cases hk : comparator key e.1 with
      | eq => simp [findKey, hk, SortedAssoc.lookup]
      | lt =>
          -- the key is below all that follow
          have hnone : SortedAssoc.lookup comparator key l = none := by
            refine SortedAssoc.lookup_eq_none fun a ha => ?_
            simp [SortedAssoc.cmp_lt_of_lt he hk a ha]
          simp [findKey, hk, SortedAssoc.lookup, hnone]
      | gt =>
          have hrest := ih hl
          cases hfind : findKey comparator key (l.map Prod.fst) <;>
            simp_all [findKey, SortedAssoc.lookup]

omit [TransCmp comparator] in
theorem findKey_lt {pos : ℕ} (h : findKey comparator key (l.map Prod.fst) = some pos) :
    pos < l.length := by
  induction l generalizing pos with
  | nil => cases h
  | cons e l ih =>
      cases hk : comparator key e.1 with
      | eq =>
          obtain rfl : 0 = pos := by simpa [findKey, hk] using h
          exact Nat.zero_lt_succ _
      | lt => simp [findKey, hk] at h
      | gt =>
          rw [List.map_cons, findKey, hk] at h
          rcases Option.map_eq_some_iff.1 h with ⟨pos', hpos', rfl⟩
          exact Nat.succ_lt_succ (ih hpos')

theorem findKey_eq_none_iff (hs : SortedAssoc.Sorted comparator l) (key : κ) :
    findKey comparator key (l.map Prod.fst) = none ↔
      SortedAssoc.lookup comparator key l = none := by
  rw [← bind_findKey hs]
  cases hfind : findKey comparator key (l.map Prod.fst) with
  | none => simp
  | some pos => simp [findKey_lt hfind]

/-- The position is the one at which the key belongs. -/
theorem insertIdx_eq (hnone : findKey comparator key (l.map Prod.fst) = none) (value : ν) :
    (l.map Prod.fst).insertIdx (findInsertPositionForKey comparator key (l.map Prod.fst)) key =
        (SortedAssoc.insert comparator true key value l).map Prod.fst ∧
      (l.map Prod.snd).insertIdx (findInsertPositionForKey comparator key (l.map Prod.fst))
          value = (SortedAssoc.insert comparator true key value l).map Prod.snd := by
  induction l with
  | nil => simp [findInsertPositionForKey, SortedAssoc.insert]
  | cons e l ih =>
      cases hk : comparator key e.1 with
      | eq => simp [findKey, hk] at hnone
      | lt =>
          have he : comparator e.1 key = .gt := OrientedCmp.gt_of_lt hk
          simp [findInsertPositionForKey, SortedAssoc.insert, hk, he]
      | gt =>
          have he : comparator e.1 key = .lt := OrientedCmp.lt_of_gt hk
          have hrest := ih (by simpa [findKey, hk] using hnone)
          simp [findInsertPositionForKey, SortedAssoc.insert, hk, he, hrest]

omit [TransCmp comparator] in
theorem set_eq {pos : ℕ} (hpos : findKey comparator key (l.map Prod.fst) = some pos) (value : ν) :
    (l.map Prod.fst).set pos key =
        (SortedAssoc.insert comparator true key value l).map Prod.fst ∧
      (l.map Prod.snd).set pos value =
        (SortedAssoc.insert comparator true key value l).map Prod.snd := by
  induction l generalizing pos with
  | nil => cases hpos
  | cons e l ih =>
      rw [List.map_cons, findKey] at hpos
      cases hk : comparator key e.1 with
      | lt => simp [hk] at hpos
      | eq =>
          obtain rfl : 0 = pos := by simpa [hk] using hpos
          simp [SortedAssoc.insert, hk]
      | gt =>
          rw [hk] at hpos
          rcases Option.map_eq_some_iff.1 hpos with ⟨pos', hpos', rfl⟩
          simp [SortedAssoc.insert, hk, ih hpos']

theorem eraseIdx_eq {pos : ℕ} (hs : SortedAssoc.Sorted comparator l)
    (hpos : findKey comparator key (l.map Prod.fst) = some pos) :
    (l.map Prod.fst).eraseIdx pos = (SortedAssoc.erase comparator key l).map Prod.fst ∧
      (l.map Prod.snd).eraseIdx pos = (SortedAssoc.erase comparator key l).map Prod.snd := by
  induction l generalizing pos with
  | nil => cases hpos
  | cons e l ih =>
      rcases SortedAssoc.sorted_cons.1 hs with ⟨he, hl⟩
      have hsplit := SortedAssoc.erase_append_cons (l := []) (k := key) hs
      rw [List.map_cons, findKey] at hpos
      cases hk : comparator key e.1 with
      | lt => simp [hk] at hpos
      | eq =>
          obtain rfl : 0 = pos := by simpa [hk] using hpos
          simp only [List.nil_append, hk] at hsplit
          simp [hsplit]
      | gt =>
          rw [hk] at hpos
          rcases Option.map_eq_some_iff.1 hpos with ⟨pos', hpos', rfl⟩
          simp only [List.nil_append, hk] at hsplit
          simp [hsplit, ih hl hpos']

/-- The key before the one that was found. -/
theorem predecessor_eq {pos : ℕ} (hs : SortedAssoc.Sorted comparator l)
    (hpos : findKey comparator key (l.map Prod.fst) = some pos) :
    (match pos with
      | 0 => none
      | pos + 1 => (l.map Prod.fst)[pos]?) = SortedAssoc.predecessor comparator key l := by
  induction l generalizing pos with
  | nil => cases hpos
  | cons e l ih =>
      rcases SortedAssoc.sorted_cons.1 hs with ⟨he, hl⟩
      have hsplit := SortedAssoc.predecessor_append_cons (l := []) hs key
      rw [List.map_cons, findKey] at hpos
      cases hk : comparator key e.1 with
      | lt => simp [hk] at hpos
      | eq =>
          obtain rfl : 0 = pos := by simpa [hk] using hpos
          simpa [hk] using hsplit.symm
      | gt =>
          rw [hk] at hpos
          rcases Option.map_eq_some_iff.1 hpos with ⟨pos', hpos', rfl⟩
          simp only [List.nil_append, hk, ← ih hl hpos'] at hsplit
          rw [hsplit]
          cases pos' with
          | zero => rfl
          | succ pos'' =>
              have hlt : pos'' < l.length := Nat.lt_of_succ_lt (findKey_lt hpos')
              simp [hlt]

end Search

end FArraySortedDictionary

/-! ## Reading and writing -/

namespace FImmutableSortedDictionary

variable {comparator : NSComparator κ}

def entries : FImmutableSortedDictionary comparator ν → List (κ × ν)
  | array d => d.entries
  | tree d => d.entries

def Valid : FImmutableSortedDictionary comparator ν → Prop
  | array d => d.Valid
  | tree d => d.Valid

theorem Valid.sorted {d : FImmutableSortedDictionary comparator ν} (h : d.Valid) :
    SortedAssoc.Sorted comparator d.entries := by
  cases d with
  | array d => exact FArraySortedDictionary.Valid.sorted h
  | tree d => exact FTreeSortedDictionary.Valid.sorted h

end FImmutableSortedDictionary

namespace FArraySortedDictionary

variable {comparator : NSComparator κ} {d : FArraySortedDictionary comparator ν}

theorem valid_init : (initWithComparator comparator : FArraySortedDictionary comparator ν).Valid :=
  valid_ofEntries SortedAssoc.sorted_nil (Nat.zero_le _)

theorem Valid.keys_eq (h : d.Valid) : d.keys = d.entries.map Prod.fst :=
  congrArg keys h.eq_ofEntries

theorem Valid.count_eq (h : d.Valid) : d.count = d.entries.length := by
  simp [count, h.keys_eq]

section Operations

variable [TransCmp comparator]

theorem Valid.get_eq (h : d.Valid) (key : κ) :
    d.get key = SortedAssoc.lookup comparator key d.entries := by
  rw [h.eq_ofEntries, entries_ofEntries]
  exact bind_findKey h.sorted key

theorem Valid.contains_eq (h : d.Valid) (key : κ) :
    d.contains key = (SortedAssoc.lookup comparator key d.entries).isSome := by
  have hnone := findKey_eq_none_iff h.sorted key
  rw [h.eq_ofEntries, entries_ofEntries, contains, keys_ofEntries]
  cases hfind : findKey comparator key (d.entries.map Prod.fst) with
  | none => simp [hnone.1 hfind]
  | some pos =>
      cases hlookup : SortedAssoc.lookup comparator key d.entries with
      | none => simp [hnone.2 hlookup] at hfind
      | some v => rfl

theorem Valid.getPredecessorKey_eq (h : d.Valid) (key : κ) :
    d.getPredecessorKey key =
      if d.contains key then .ok (SortedAssoc.predecessor comparator key d.entries)
      else .error nonexistentKey := by
  rw [h.eq_ofEntries, entries_ofEntries, getPredecessorKey, contains, keys_ofEntries]
  cases hfind : findKey comparator key (d.entries.map Prod.fst) with
  | none => rfl
  | some pos =>
      have hpred := predecessor_eq h.sorted hfind
      cases pos with
      | zero => simpa using hpred
      | succ pos => simpa using hpred

theorem Valid.removeKey_eq (h : d.Valid) (key : κ) :
    d.removeKey key = ofEntries comparator (SortedAssoc.erase comparator key d.entries) := by
  have hnone := findKey_eq_none_iff h.sorted key
  rw [h.eq_ofEntries, entries_ofEntries, FArraySortedDictionary.removeKey, keys_ofEntries]
  cases hfind : findKey comparator key (d.entries.map Prod.fst) with
  | none => simp [SortedAssoc.erase_of_lookup_eq_none (hnone.1 hfind)]
  | some pos =>
      rcases eraseIdx_eq h.sorted hfind with ⟨hkeys, hvalues⟩
      simp [ofEntries, hkeys, hvalues]

theorem Valid.removeKey (h : d.Valid) (key : κ) : (d.removeKey key).Valid := by
  rw [h.removeKey_eq]
  exact valid_ofEntries (h.sorted.erase key) (Nat.le_trans (List.length_filter_le _ _) h.small)

variable [DecidableEq κ]

omit [TransCmp comparator] in
/-- Filling an empty dictionary with entries of different keys. -/
theorem lookup_foldl_insert {l : List (κ × ν)} (hnd : (l.map Prod.fst).Nodup) (k : κ) (v : ν) :
    (l.foldl (fun dict e => Finmap.insert e.1 e.2 dict) (∅ : Dict κ ν)).lookup k = some v ↔
      (k, v) ∈ l := by
  induction l using List.reverseRecOn with
  | nil => simp
  | append_singleton l e ih =>
      rw [List.map_append, List.nodup_append] at hnd
      have hnew : ∀ v', (e.1, v') ∉ l := by
        intro v' hmem
        exact hnd.2.2 e.1 (List.mem_map.2 ⟨_, hmem, rfl⟩) e.1 (by simp) rfl
      rw [List.foldl_append, List.foldl_cons, List.foldl_nil]
      by_cases hk : k = e.1
      · subst hk
        rw [Finmap.lookup_insert]
        simp [hnew, Prod.ext_iff, eq_comm]
      · rw [Finmap.lookup_insert_of_ne _ hk, ih hnd.1]
        simp [Prod.ext_iff, hk]

/-- The 26th key. -/
theorem fromDictionary_insert (order : KeyOrder κ ν) (sort : SortFn κ) {l : List (κ × ν)}
    (hs : SortedAssoc.Sorted comparator l) (hlen : l.length ≤ arrayToRbTreeSizeThreshold) {key : κ}
    (hnone : SortedAssoc.lookup comparator key l = none) (value : ν) :
    ∃ d, FTreeSortedDictionary.fromDictionary order sort
        (Finmap.insert key value (l.foldl (fun dict e => Finmap.insert e.1 e.2 dict) ∅))
        comparator = .ok d ∧ d.Valid ∧
      d.entries = SortedAssoc.insert comparator true key value l := by
  let dict : Dict κ ν :=
    Finmap.insert key value (l.foldl (fun dict e => Finmap.insert e.1 e.2 dict) ∅)
  have hs' := hs.insert true key value
  have hlookup : ∀ k v, dict.lookup k = some v ↔
      (k, v) ∈ SortedAssoc.insert comparator true key value l := by
    intro k v
    rw [SortedAssoc.mem_insert_of_lookup_eq_none hnone]
    by_cases hk : k = key
    · subst hk
      have hnew : (k, v) ∉ l := by
        intro hmem
        exact SortedAssoc.ne_of_lookup_eq_none hnone _ hmem ReflCmp.compare_self
      rw [Finmap.lookup_insert]
      simp [hnew, eq_comm]
    · rw [Finmap.lookup_insert_of_ne _ hk, lookup_foldl_insert hs.nodup_keys]
      simp [hk]
  have hcard : dict.keys.card + 1 < 2 ^ 32 := by
    have hsub : dict.keys ⊆
        ((SortedAssoc.insert comparator true key value l).map Prod.fst).toFinset := by
      intro k hk
      rcases Finmap.mem_iff.1 (Finmap.mem_keys.1 hk) with ⟨v, hv⟩
      exact List.mem_toFinset.2 (List.mem_map.2 ⟨_, (hlookup k v).1 hv, rfl⟩)
    have hle := (Finset.card_le_card hsub).trans (List.toFinset_card_le _)
    have hinsert : (SortedAssoc.insert comparator true key value l).length ≤ l.length + 1 :=
      SortedAssoc.length_insert_le l
    simp only [List.length_map, arrayToRbTreeSizeThreshold] at hle hlen
    omega
  rcases FTreeSortedDictionary.fromDictionary_cases comparator order sort hcard with
    ⟨d, hd, hvalid, hmem⟩ | ⟨_, a, ha, b, hb, hne, hab⟩
  · refine ⟨d, hd, hvalid, hvalid.sorted.ext hs' ?_⟩
    rintro ⟨k, v⟩
    rw [hmem, hlookup]
  · -- the keys of a sorted list are told apart
    rcases Finmap.mem_iff.1 ha with ⟨va, hva⟩
    rcases Finmap.mem_iff.1 hb with ⟨vb, hvb⟩
    have heq := hs'.eq_of_mem ((hlookup a va).1 hva) ((hlookup b vb).1 hvb) hab
    exact absurd (congrArg Prod.fst heq) hne

theorem Valid.insertKey_eq (h : d.Valid) (order : KeyOrder κ ν) (sort : SortFn κ) (key : κ)
    (value : ν) :
    ∃ d', d.insertKey order sort key value = .ok d' ∧ d'.Valid ∧
      d'.entries = SortedAssoc.insert comparator true key value d.entries := by
  have hnone := findKey_eq_none_iff h.sorted key
  have hs := h.sorted.insert true key value
  rw [h.eq_ofEntries, entries_ofEntries, FArraySortedDictionary.insertKey, keys_ofEntries]
  cases hfind : findKey comparator key (d.entries.map Prod.fst) with
  | some pos =>
      rcases set_eq hfind value with ⟨hkeys, hvalues⟩
      have hlen : (SortedAssoc.insert comparator true key value d.entries).length =
          d.entries.length := by
        simpa using (congrArg List.length hkeys).symm
      refine ⟨.array (ofEntries comparator _), ?_, valid_ofEntries hs (hlen ▸ h.small),
        entries_ofEntries _⟩
      simp [ofEntries, hkeys, hvalues]
  | none =>
      by_cases hfull : arrayToRbTreeSizeThreshold ≤ d.entries.length
      · rcases fromDictionary_insert order sort h.sorted h.small (hnone.1 hfind) value with
          ⟨tree, htree, hvalid, hentries⟩
        have hzip : (d.entries.map Prod.fst).zip (ofEntries comparator d.entries).values =
            d.entries := entries_ofEntries d.entries
        refine ⟨.tree tree, ?_, hvalid, hentries⟩
        simp only [count, keys_ofEntries, List.length_map, hfull, if_true, hzip, htree]
        rfl
      · rcases insertIdx_eq hfind value with ⟨hkeys, hvalues⟩
        have hle : (SortedAssoc.insert comparator true key value d.entries).length ≤
            arrayToRbTreeSizeThreshold :=
          Nat.le_trans (SortedAssoc.length_insert_le _) (Nat.lt_of_not_le hfull)
        refine ⟨.array (ofEntries comparator _), ?_, valid_ofEntries hs hle, entries_ofEntries _⟩
        simp [count, hfull, ofEntries, hkeys, hvalues]

end Operations

end FArraySortedDictionary

end Dictionary
end AppChatAgain
