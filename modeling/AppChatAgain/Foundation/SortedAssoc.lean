import Mathlib.Data.List.Nodup

/-!
# SortedAssoc — sorted association lists under a comparator

A comparator is a function into `Ordering` that is a total preorder (`Std.TransCmp`).  Keys that it
does not tell apart are one key.  A *sorted* list has strictly increasing keys.

* `lookup`, `insert`, `erase`, `predecessor`, `entriesFrom`, `entriesUpTo` : what a sorted
  dictionary does;
* the `_append_cons` lemmas : where a sorted list is split at an entry, each operation is decided by
  one comparison with it, as a search tree does.
-/

namespace AppChatAgain
namespace Foundation
namespace SortedAssoc

universe u v

open Std

variable {κ : Type u} {ν : Type v} (cmp : κ → κ → Ordering)

/-! ## Operations -/

def Sorted (l : List (κ × ν)) : Prop :=
  l.Pairwise fun a b => cmp a.1 b.1 = .lt

/-- The value of a key. -/
def lookup (k : κ) : List (κ × ν) → Option ν
  | [] => none
  | e :: l => if cmp k e.1 = .eq then some e.2 else lookup k l

/-- Give a key a value.  Where it has one already, its entry takes the new key if `fresh`. -/
def insert (fresh : Bool) (k : κ) (v : ν) : List (κ × ν) → List (κ × ν)
  | [] => [(k, v)]
  | e :: l =>
      match cmp k e.1 with
      | .lt => (k, v) :: e :: l
      | .eq => (if fresh then k else e.1, v) :: l
      | .gt => e :: insert fresh k v l

/-- Take a key away. -/
def erase (k : κ) (l : List (κ × ν)) : List (κ × ν) :=
  l.filter fun e => cmp k e.1 ≠ .eq

/-- The greatest key below `k`. -/
def predecessor (k : κ) (l : List (κ × ν)) : Option κ :=
  (l.filter fun e => cmp e.1 k = .lt).getLast?.map Prod.fst

/-- The entries from `k` on. -/
def entriesFrom (k : κ) (l : List (κ × ν)) : List (κ × ν) :=
  l.filter fun e => cmp e.1 k ≠ .lt

/-- The entries up to `k`. -/
def entriesUpTo (k : κ) (l : List (κ × ν)) : List (κ × ν) :=
  l.filter fun e => cmp e.1 k ≠ .gt

/-! ## Sorted lists -/

variable {cmp}

@[simp] theorem sorted_nil : Sorted cmp ([] : List (κ × ν)) :=
  List.Pairwise.nil

theorem sorted_cons {e : κ × ν} {l : List (κ × ν)} :
    Sorted cmp (e :: l) ↔ (∀ a ∈ l, cmp e.1 a.1 = .lt) ∧ Sorted cmp l :=
  List.pairwise_cons

/-- A sorted list around one of its entries. -/
theorem sorted_append_cons {l r : List (κ × ν)} {e : κ × ν} [TransCmp cmp] :
    Sorted cmp (l ++ e :: r) ↔ Sorted cmp l ∧ Sorted cmp r ∧
      (∀ a ∈ l, cmp a.1 e.1 = .lt) ∧ ∀ a ∈ r, cmp e.1 a.1 = .lt := by
  simp only [Sorted, List.pairwise_append, List.pairwise_cons, List.mem_cons]
  constructor
  · rintro ⟨hl, ⟨her, hr⟩, hall⟩
    exact ⟨hl, hr, fun a ha => hall a ha e (Or.inl rfl), her⟩
  · rintro ⟨hl, hr, hle, her⟩
    refine ⟨hl, ⟨her, hr⟩, ?_⟩
    intro a ha b hb
    rcases hb with rfl | hb
    · exact hle a ha
    · exact TransCmp.lt_trans (hle a ha) (her b hb)

theorem Sorted.sublist {l l' : List (κ × ν)} (h : Sorted cmp l) (hs : l'.Sublist l) :
    Sorted cmp l' :=
  List.Pairwise.sublist hs h

/-- No key comes twice. -/
theorem Sorted.nodup_keys [ReflCmp cmp] {l : List (κ × ν)} (h : Sorted cmp l) :
    (l.map Prod.fst).Nodup := by
  refine List.pairwise_map.2 (h.imp ?_)
  intro a b hab heq
  simp [heq, ReflCmp.compare_self] at hab

/-- Entries with keys that are not told apart are one entry. -/
theorem Sorted.eq_of_mem [OrientedCmp cmp] {l : List (κ × ν)} (h : Sorted cmp l) {a b : κ × ν}
    (ha : a ∈ l) (hb : b ∈ l) (heq : cmp a.1 b.1 = .eq) : a = b := by
  have hall := List.Pairwise.forall_of_forall_of_flip
    (R := fun a b : κ × ν => cmp a.1 b.1 = .eq → a = b) (l := l) (fun a _ _ => rfl)
    (h.imp fun hab heq => by simp [hab] at heq)
    (h.imp fun hab heq => by simp [OrientedCmp.gt_of_lt hab] at heq)
  exact hall ha hb heq

/-- Two sorted lists with the same entries are equal. -/
theorem Sorted.ext [OrientedCmp cmp] {l l' : List (κ × ν)} (h : Sorted cmp l) (h' : Sorted cmp l')
    (hmem : ∀ e, e ∈ l ↔ e ∈ l') : l = l' := by
  have hperm : l.Perm l' :=
    (List.perm_ext_iff_of_nodup (List.Nodup.of_map _ h.nodup_keys)
      (List.Nodup.of_map _ h'.nodup_keys)).2 hmem
  refine List.Perm.eq_of_pairwise ?_ h h' hperm
  intro a b _ _ hab hba
  simp [OrientedCmp.gt_of_lt hab] at hba

section Comparator

variable [TransCmp cmp] {k : κ}

theorem cmp_lt_of_lt {e : κ × ν} {r : List (κ × ν)} (hr : ∀ a ∈ r, cmp e.1 a.1 = .lt)
    (hk : cmp k e.1 = .lt) : ∀ a ∈ r, cmp k a.1 = .lt :=
  fun a ha => TransCmp.lt_trans hk (hr a ha)

theorem cmp_lt_of_eq {e : κ × ν} {r : List (κ × ν)} (hr : ∀ a ∈ r, cmp e.1 a.1 = .lt)
    (hk : cmp k e.1 = .eq) : ∀ a ∈ r, cmp k a.1 = .lt :=
  fun a ha => TransCmp.lt_of_eq_of_lt hk (hr a ha)

theorem cmp_gt_of_eq {e : κ × ν} {l : List (κ × ν)} (hl : ∀ a ∈ l, cmp a.1 e.1 = .lt)
    (hk : cmp k e.1 = .eq) : ∀ a ∈ l, cmp k a.1 = .gt :=
  fun a ha => OrientedCmp.gt_of_lt (TransCmp.lt_of_lt_of_eq (hl a ha) (OrientedCmp.eq_symm hk))

theorem cmp_gt_of_gt {e : κ × ν} {l : List (κ × ν)} (hl : ∀ a ∈ l, cmp a.1 e.1 = .lt)
    (hk : cmp k e.1 = .gt) : ∀ a ∈ l, cmp k a.1 = .gt :=
  fun a ha => OrientedCmp.gt_of_lt (TransCmp.lt_trans (hl a ha) (OrientedCmp.lt_of_gt hk))

end Comparator

/-! ## Looking a key up -/

theorem lookup_eq_none {k : κ} {l : List (κ × ν)} (h : ∀ a ∈ l, cmp k a.1 ≠ .eq) :
    lookup cmp k l = none := by
  induction l with
  | nil => rfl
  | cons e l ih =>
      have he : cmp k e.1 ≠ .eq := h e List.mem_cons_self
      simp [lookup, he, ih fun a ha => h a (List.mem_cons_of_mem _ ha)]

theorem ne_of_lookup_eq_none {k : κ} {l : List (κ × ν)} (h : lookup cmp k l = none) :
    ∀ a ∈ l, cmp k a.1 ≠ .eq := by
  induction l with
  | nil => simp
  | cons e l ih =>
      intro a ha hk
      by_cases he : cmp k e.1 = .eq
      · simp [lookup, he] at h
      · rcases List.mem_cons.1 ha with rfl | ha
        · exact he hk
        · exact ih (by simpa [lookup, he] using h) a ha hk

theorem lookup_append (k : κ) (l r : List (κ × ν)) :
    lookup cmp k (l ++ r) = (lookup cmp k l).or (lookup cmp k r) := by
  induction l with
  | nil => rfl
  | cons e l ih => by_cases he : cmp k e.1 = .eq <;> simp [lookup, he, ih]

theorem lookup_cons (k : κ) (e : κ × ν) (l : List (κ × ν)) :
    lookup cmp k (e :: l) = if cmp k e.1 = .eq then some e.2 else lookup cmp k l :=
  rfl

/-- Around an entry of a sorted list, a lookup is decided by one comparison. -/
theorem lookup_append_cons [TransCmp cmp] {l r : List (κ × ν)} {e : κ × ν}
    (h : Sorted cmp (l ++ e :: r)) (k : κ) :
    lookup cmp k (l ++ e :: r) =
      match cmp k e.1 with
      | .lt => lookup cmp k l
      | .eq => some e.2
      | .gt => lookup cmp k r := by
  rcases sorted_append_cons.1 h with ⟨_, _, hl, hr⟩
  cases hk : cmp k e.1 with
  | lt =>
      have hnone : lookup cmp k r = none := by
        refine lookup_eq_none fun a ha => ?_
        simp [cmp_lt_of_lt hr hk a ha]
      simp [lookup_append, lookup_cons, hk, hnone]
  | eq =>
      have hnone : lookup cmp k l = none := by
        refine lookup_eq_none fun a ha => ?_
        simp [cmp_gt_of_eq hl hk a ha]
      simp [lookup_append, lookup_cons, hk, hnone]
  | gt =>
      have hnone : lookup cmp k l = none := by
        refine lookup_eq_none fun a ha => ?_
        simp [cmp_gt_of_gt hl hk a ha]
      simp [lookup_append, lookup_cons, hk, hnone]

/-! ## Giving a key a value -/

section Insert

variable [TransCmp cmp] {fresh : Bool} {k : κ} {v : ν}

omit [TransCmp cmp] in
theorem insert_of_gt {l : List (κ × ν)} (h : ∀ a ∈ l, cmp k a.1 = .gt) (r : List (κ × ν)) :
    insert cmp fresh k v (l ++ r) = l ++ insert cmp fresh k v r := by
  induction l with
  | nil => rfl
  | cons e l ih =>
      have he : cmp k e.1 = .gt := h e List.mem_cons_self
      simp [insert, he, ih fun a ha => h a (List.mem_cons_of_mem _ ha)]

omit [TransCmp cmp] in
theorem insert_append_of_lt {l r : List (κ × ν)} {e : κ × ν} (hk : cmp k e.1 = .lt) :
    insert cmp fresh k v (l ++ e :: r) = insert cmp fresh k v l ++ e :: r := by
  induction l with
  | nil => simp [insert, hk]
  | cons d l ih => cases hd : cmp k d.1 <;> simp [insert, hd, ih]

/-- Around an entry of a sorted list, an insertion is decided by one comparison. -/
theorem insert_append_cons {l r : List (κ × ν)} {e : κ × ν} (h : Sorted cmp (l ++ e :: r)) :
    insert cmp fresh k v (l ++ e :: r) =
      match cmp k e.1 with
      | .lt => insert cmp fresh k v l ++ e :: r
      | .eq => l ++ (if fresh then k else e.1, v) :: r
      | .gt => l ++ e :: insert cmp fresh k v r := by
  rcases sorted_append_cons.1 h with ⟨_, _, hl, _⟩
  cases hk : cmp k e.1 with
  | lt => exact insert_append_of_lt hk
  | eq =>
      have hgt : insert cmp fresh k v (l ++ e :: r) = l ++ insert cmp fresh k v (e :: r) :=
        insert_of_gt (cmp_gt_of_eq hl hk) (e :: r)
      simpa [insert, hk] using hgt
  | gt =>
      have hgt : insert cmp fresh k v (l ++ e :: r) = l ++ insert cmp fresh k v (e :: r) :=
        insert_of_gt (cmp_gt_of_gt hl hk) (e :: r)
      simpa [insert, hk] using hgt

omit [TransCmp cmp] in
/-- The keys of the new list are old ones or the new one. -/
theorem exists_of_mem_insert {l : List (κ × ν)} {a : κ × ν} (h : a ∈ insert cmp fresh k v l) :
    a.1 = k ∨ ∃ b ∈ l, a.1 = b.1 := by
  induction l with
  | nil =>
      have ha : a = (k, v) := by simpa [insert] using h
      exact Or.inl (by simp [ha])
  | cons e l ih =>
      have hold : a ∈ e :: l → a.1 = k ∨ ∃ b ∈ e :: l, a.1 = b.1 := fun ha => Or.inr ⟨a, ha, rfl⟩
      cases hk : cmp k e.1 with
      | lt =>
          rcases List.mem_cons.1 (by simpa only [insert, hk] using h) with rfl | ha
          · exact Or.inl rfl
          · exact hold ha
      | eq =>
          rcases List.mem_cons.1 (by simpa only [insert, hk] using h) with rfl | ha
          · cases fresh
            · exact Or.inr ⟨e, List.mem_cons_self, rfl⟩
            · exact Or.inl rfl
          · exact hold (List.mem_cons_of_mem _ ha)
      | gt =>
          rcases List.mem_cons.1 (by simpa only [insert, hk] using h) with rfl | ha
          · exact hold List.mem_cons_self
          · rcases ih ha with hnew | ⟨b, hb, heq⟩
            · exact Or.inl hnew
            · exact Or.inr ⟨b, List.mem_cons_of_mem _ hb, heq⟩

omit [TransCmp cmp] in
theorem mem_insert_of_lookup_eq_none {l : List (κ × ν)} (h : lookup cmp k l = none)
    {a : κ × ν} : a ∈ insert cmp fresh k v l ↔ a = (k, v) ∨ a ∈ l := by
  induction l with
  | nil => simp [insert]
  | cons e l ih =>
      have hne := ne_of_lookup_eq_none h
      cases hk : cmp k e.1 with
      | lt => simp [insert, hk]
      | eq => exact absurd hk (hne e List.mem_cons_self)
      | gt =>
          have hrest := ih (lookup_eq_none fun b hb => hne b (List.mem_cons_of_mem _ hb))
          simp [insert, hk, hrest, or_left_comm]

omit [TransCmp cmp] in
theorem length_insert_le (l : List (κ × ν)) : (insert cmp fresh k v l).length ≤ l.length + 1 := by
  induction l with
  | nil => simp [insert]
  | cons e l ih => cases hk : cmp k e.1 <;> simp [insert, hk, ih]

theorem Sorted.insert {l : List (κ × ν)} (h : Sorted cmp l) (fresh : Bool) (k : κ) (v : ν) :
    Sorted cmp (SortedAssoc.insert cmp fresh k v l) := by
  induction l with
  | nil => simp [SortedAssoc.insert, Sorted]
  | cons e l ih =>
      rcases sorted_cons.1 h with ⟨he, hl⟩
      cases hk : cmp k e.1 with
      | lt =>
          simp only [SortedAssoc.insert, hk]
          refine sorted_cons.2 ⟨?_, h⟩
          intro a ha
          rcases List.mem_cons.1 ha with rfl | ha
          · exact hk
          · exact cmp_lt_of_lt he hk a ha
      | eq =>
          simp only [SortedAssoc.insert, hk]
          refine sorted_cons.2 ⟨?_, hl⟩
          intro a ha
          cases fresh
          · exact he a ha
          · exact cmp_lt_of_eq he hk a ha
      | gt =>
          simp only [SortedAssoc.insert, hk]
          refine sorted_cons.2 ⟨?_, ih hl⟩
          intro a ha
          rcases exists_of_mem_insert ha with hnew | ⟨b, hb, heq⟩
          · simpa [hnew] using OrientedCmp.lt_of_gt hk
          · simpa [heq] using he b hb

/-- Afterwards the key has the value, and the other keys have theirs. -/
theorem lookup_insert (l : List (κ × ν)) (fresh : Bool) (k : κ) (v : ν) (k' : κ) :
    lookup cmp k' (insert cmp fresh k v l) =
      if cmp k' k = .eq then some v else lookup cmp k' l := by
  induction l with
  | nil => simp [insert, lookup]
  | cons e l ih =>
      cases hk : cmp k e.1 with
      | lt => simp [insert, hk, lookup]
      | eq =>
          -- both keys of the entry are told apart from `k'` alike
          have hsame : cmp k' k = cmp k' e.1 := TransCmp.congr_right hk
          cases fresh <;> by_cases h' : cmp k' e.1 = .eq <;> simp [insert, hk, lookup, hsame, h']
      | gt =>
          by_cases h' : cmp k' e.1 = .eq
          · have hne : cmp k' k ≠ .eq := by
              intro heq
              have hke : cmp k e.1 = .eq := TransCmp.eq_trans (OrientedCmp.eq_symm heq) h'
              simp [hk] at hke
            simp [insert, hk, lookup, h', hne]
          · simp [insert, hk, lookup, h', ih]

end Insert

/-! ## Taking a key away -/

section Erase

variable [TransCmp cmp] {k : κ}

omit [TransCmp cmp] in
theorem erase_of_ne {l : List (κ × ν)} (h : ∀ a ∈ l, cmp k a.1 ≠ .eq) : erase cmp k l = l := by
  refine List.filter_eq_self.2 ?_
  intro a ha
  simpa using h a ha

omit [TransCmp cmp] in
theorem erase_of_lookup_eq_none {l : List (κ × ν)} (h : lookup cmp k l = none) :
    erase cmp k l = l :=
  erase_of_ne (ne_of_lookup_eq_none h)

omit [TransCmp cmp] in
theorem erase_append (k : κ) (l r : List (κ × ν)) :
    erase cmp k (l ++ r) = erase cmp k l ++ erase cmp k r :=
  List.filter_append l r

/-- Around an entry of a sorted list, a removal is decided by one comparison. -/
theorem erase_append_cons {l r : List (κ × ν)} {e : κ × ν} (h : Sorted cmp (l ++ e :: r)) :
    erase cmp k (l ++ e :: r) =
      match cmp k e.1 with
      | .lt => erase cmp k l ++ e :: r
      | .eq => l ++ r
      | .gt => l ++ e :: erase cmp k r := by
  rcases sorted_append_cons.1 h with ⟨_, _, hl, hr⟩
  have hcons : erase cmp k (e :: r) =
      if cmp k e.1 = .eq then erase cmp k r else e :: erase cmp k r := by
    by_cases he : cmp k e.1 = .eq <;> simp [erase, he]
  rw [erase_append, hcons]
  cases hk : cmp k e.1 with
  | lt =>
      have hr' : erase cmp k r = r := by
        refine erase_of_ne fun a ha => ?_
        simp [cmp_lt_of_lt hr hk a ha]
      simp [hr']
  | eq =>
      have hl' : erase cmp k l = l := by
        refine erase_of_ne fun a ha => ?_
        simp [cmp_gt_of_eq hl hk a ha]
      have hr' : erase cmp k r = r := by
        refine erase_of_ne fun a ha => ?_
        simp [cmp_lt_of_eq hr hk a ha]
      simp [hl', hr']
  | gt =>
      have hl' : erase cmp k l = l := by
        refine erase_of_ne fun a ha => ?_
        simp [cmp_gt_of_gt hl hk a ha]
      simp [hl']

omit [TransCmp cmp] in
theorem Sorted.erase {l : List (κ × ν)} (h : Sorted cmp l) (k : κ) :
    Sorted cmp (SortedAssoc.erase cmp k l) :=
  h.sublist List.filter_sublist

/-- Afterwards the key has no value, and the other keys have theirs. -/
theorem lookup_erase (l : List (κ × ν)) (k k' : κ) :
    lookup cmp k' (erase cmp k l) = if cmp k' k = .eq then none else lookup cmp k' l := by
  induction l with
  | nil => simp [erase, lookup]
  | cons e l ih =>
      by_cases hk : cmp k e.1 = .eq
      · have hsame : cmp k' k = cmp k' e.1 := TransCmp.congr_right hk
        have hskip : erase cmp k (e :: l) = erase cmp k l := by simp [erase, hk]
        by_cases h' : cmp k' e.1 = .eq <;> simp [hskip, ih, lookup, hsame, h']
      · have hkeep : erase cmp k (e :: l) = e :: erase cmp k l := by simp [erase, hk]
        by_cases h' : cmp k' e.1 = .eq
        · have hne : cmp k' k ≠ .eq := by
            intro heq
            exact hk (TransCmp.eq_trans (OrientedCmp.eq_symm heq) h')
          simp [hkeep, lookup, h', hne]
        · simp [hkeep, lookup, h', ih]

end Erase

/-! ## The key before another one -/

@[simp] theorem predecessor_nil (k : κ) : predecessor cmp k ([] : List (κ × ν)) = none :=
  rfl

/-- Around an entry of a sorted list, the predecessor is decided by one comparison. -/
theorem predecessor_append_cons [TransCmp cmp] {l r : List (κ × ν)} {e : κ × ν}
    (h : Sorted cmp (l ++ e :: r)) (k : κ) :
    predecessor cmp k (l ++ e :: r) =
      match cmp k e.1 with
      | .lt => predecessor cmp k l
      | .eq => l.getLast?.map Prod.fst
      | .gt => (predecessor cmp k r).or (some e.1) := by
  rcases sorted_append_cons.1 h with ⟨_, _, hl, hr⟩
  have hall : cmp k e.1 ≠ .lt → l.filter (fun a => cmp a.1 k = .lt) = l := by
    intro hk
    refine List.filter_eq_self.2 fun a ha => ?_
    have hle : (cmp e.1 k).isLE :=
      Ordering.isLE_iff_ne_gt.2 fun hgt => hk (OrientedCmp.lt_of_gt hgt)
    simpa using TransCmp.lt_of_lt_of_isLE (hl a ha) hle
  have hnone : cmp k e.1 ≠ .gt → r.filter (fun a => cmp a.1 k = .lt) = [] := by
    intro hk
    refine List.filter_eq_nil_iff.2 fun a ha => ?_
    have hlt : cmp k a.1 = .lt := TransCmp.lt_of_isLE_of_lt (Ordering.isLE_iff_ne_gt.2 hk) (hr a ha)
    simp [OrientedCmp.gt_of_lt hlt]
  cases hk : cmp k e.1 with
  | lt =>
      have he : cmp e.1 k = .gt := OrientedCmp.gt_of_lt hk
      simp [predecessor, he, hnone (by simp [hk])]
  | eq =>
      have he : cmp e.1 k = .eq := OrientedCmp.eq_symm hk
      simp [predecessor, he, hnone (by simp [hk]), hall (by simp [hk])]
  | gt =>
      have he : cmp e.1 k = .lt := OrientedCmp.lt_of_gt hk
      simp [predecessor, he, hall (by simp [hk]), List.getLast?_append, List.getLast?_cons]

/-- The predecessor is below the key, and every other key below it is not above the predecessor. -/
theorem Sorted.predecessor_eq_some_iff [TransCmp cmp] {l : List (κ × ν)} (h : Sorted cmp l)
    {k p : κ} :
    predecessor cmp k l = some p ↔ p ∈ l.map Prod.fst ∧ cmp p k = .lt ∧
      ∀ a ∈ l, cmp a.1 k = .lt → (cmp a.1 p).isLE := by
  have hs : Sorted cmp (l.filter fun e => cmp e.1 k = .lt) := h.sublist List.filter_sublist
  have hmem : ∀ a, a ∈ l.filter (fun e => cmp e.1 k = .lt) ↔ a ∈ l ∧ cmp a.1 k = .lt := by simp
  rw [predecessor]
  generalize l.filter (fun e => cmp e.1 k = .lt) = below at hs hmem
  rcases List.eq_nil_or_concat below with rfl | ⟨below, b, rfl⟩
  · -- no key is below `k`
    refine iff_of_false (by simp) ?_
    rintro ⟨hp, hlt, _⟩
    rcases List.mem_map.1 hp with ⟨a, ha, rfl⟩
    simpa using (hmem a).2 ⟨ha, hlt⟩
  · rw [List.concat_eq_append] at hs hmem ⊢
    have hlast : ∀ a ∈ below ++ [b], a = b ∨ cmp a.1 b.1 = .lt := by
      intro a ha
      rcases List.mem_append.1 ha with ha | ha
      · exact Or.inr ((List.pairwise_append.1 hs).2.2 a ha b (by simp))
      · exact Or.inl (List.mem_singleton.1 ha)
    have hb := (hmem b).1 (by simp)
    simp only [List.getLast?_concat, Option.map_some, Option.some.injEq]
    constructor
    · rintro rfl
      refine ⟨List.mem_map.2 ⟨b, hb.1, rfl⟩, hb.2, fun a ha hlt => ?_⟩
      rcases hlast a ((hmem a).2 ⟨ha, hlt⟩) with rfl | hab
      · exact ReflCmp.isLE_rfl
      · simp [hab]
    · rintro ⟨hp, hlt, hmax⟩
      rcases List.mem_map.1 hp with ⟨a, ha, rfl⟩
      rcases hlast a ((hmem a).2 ⟨ha, hlt⟩) with rfl | hab
      · rfl
      · have hle := hmax b hb.1 hb.2
        simp [OrientedCmp.gt_of_lt hab] at hle

/-! ## Ranges of entries -/

@[simp] theorem entriesFrom_nil (k : κ) : entriesFrom cmp k ([] : List (κ × ν)) = [] :=
  rfl

@[simp] theorem entriesUpTo_nil (k : κ) : entriesUpTo cmp k ([] : List (κ × ν)) = [] :=
  rfl

section Ranges

variable [TransCmp cmp] {l r : List (κ × ν)} {e : κ × ν}

/-- Around an entry of a sorted list, the entries from a key on are found by one comparison. -/
theorem entriesFrom_append_cons (h : Sorted cmp (l ++ e :: r)) (k : κ) :
    entriesFrom cmp k (l ++ e :: r) =
      match cmp e.1 k with
      | .lt => entriesFrom cmp k r
      | .eq => e :: r
      | .gt => entriesFrom cmp k l ++ e :: r := by
  rcases sorted_append_cons.1 h with ⟨_, _, hl, hr⟩
  have hnone : cmp e.1 k ≠ .gt → entriesFrom cmp k l = [] := by
    intro hk
    refine List.filter_eq_nil_iff.2 fun a ha => ?_
    have hlt : cmp a.1 k = .lt :=
      TransCmp.lt_of_lt_of_isLE (hl a ha) (Ordering.isLE_iff_ne_gt.2 hk)
    simp [hlt]
  have hall : cmp e.1 k ≠ .lt → entriesFrom cmp k r = r := by
    intro hk
    refine List.filter_eq_self.2 fun a ha => ?_
    have hle : (cmp k e.1).isLE :=
      Ordering.isLE_iff_ne_gt.2 fun hgt => hk (OrientedCmp.lt_of_gt hgt)
    have hlt : cmp k a.1 = .lt := TransCmp.lt_of_isLE_of_lt hle (hr a ha)
    simp [OrientedCmp.gt_of_lt hlt]
  have hsplit : entriesFrom cmp k (l ++ e :: r) =
      entriesFrom cmp k l ++ entriesFrom cmp k (e :: r) := List.filter_append l (e :: r)
  have hcons : entriesFrom cmp k (e :: r) =
      if cmp e.1 k = .lt then entriesFrom cmp k r else e :: entriesFrom cmp k r := by
    by_cases he : cmp e.1 k = .lt <;> simp [entriesFrom, he]
  rw [hsplit, hcons]
  cases hk : cmp e.1 k with
  | lt => simp [hnone (by simp [hk])]
  | eq => simp [hnone (by simp [hk]), hall (by simp [hk])]
  | gt => simp [hall (by simp [hk])]

/-- Around an entry of a sorted list, the entries up to a key are found by one comparison. -/
theorem entriesUpTo_append_cons (h : Sorted cmp (l ++ e :: r)) (k : κ) :
    entriesUpTo cmp k (l ++ e :: r) =
      match cmp e.1 k with
      | .lt => l ++ e :: entriesUpTo cmp k r
      | .eq => l ++ [e]
      | .gt => entriesUpTo cmp k l := by
  rcases sorted_append_cons.1 h with ⟨_, _, hl, hr⟩
  have hall : cmp e.1 k ≠ .gt → entriesUpTo cmp k l = l := by
    intro hk
    refine List.filter_eq_self.2 fun a ha => ?_
    have hlt : cmp a.1 k = .lt :=
      TransCmp.lt_of_lt_of_isLE (hl a ha) (Ordering.isLE_iff_ne_gt.2 hk)
    simp [hlt]
  have hnone : cmp e.1 k ≠ .lt → entriesUpTo cmp k r = [] := by
    intro hk
    refine List.filter_eq_nil_iff.2 fun a ha => ?_
    have hle : (cmp k e.1).isLE :=
      Ordering.isLE_iff_ne_gt.2 fun hgt => hk (OrientedCmp.lt_of_gt hgt)
    have hlt : cmp k a.1 = .lt := TransCmp.lt_of_isLE_of_lt hle (hr a ha)
    simp [OrientedCmp.gt_of_lt hlt]
  have hsplit : entriesUpTo cmp k (l ++ e :: r) =
      entriesUpTo cmp k l ++ entriesUpTo cmp k (e :: r) := List.filter_append l (e :: r)
  have hcons : entriesUpTo cmp k (e :: r) =
      if cmp e.1 k = .gt then entriesUpTo cmp k r else e :: entriesUpTo cmp k r := by
    by_cases he : cmp e.1 k = .gt <;> simp [entriesUpTo, he]
  rw [hsplit, hcons]
  cases hk : cmp e.1 k with
  | lt => simp [hall (by simp [hk])]
  | eq => simp [hnone (by simp [hk]), hall (by simp [hk])]
  | gt => simp [hnone (by simp [hk])]

end Ranges

/-! ## Lists that answer alike -/

section Alike

variable [TransCmp cmp] {l l' : List (κ × ν)} {k : κ}

theorem lookup_congr {k' : κ} (h : cmp k k' = .eq) (l : List (κ × ν)) :
    lookup cmp k l = lookup cmp k' l := by
  induction l with
  | nil => rfl
  | cons e l ih => simp [lookup, TransCmp.congr_left h, ih]

omit [TransCmp cmp] in
theorem exists_mem_of_lookup {v : ν} (h : lookup cmp k l = some v) :
    ∃ a ∈ l, cmp k a.1 = .eq ∧ a.2 = v := by
  induction l with
  | nil => cases h
  | cons e l ih =>
      by_cases he : cmp k e.1 = .eq
      · exact ⟨e, List.mem_cons_self, he, by simpa [lookup, he] using h⟩
      · rcases ih (by simpa [lookup, he] using h) with ⟨a, ha, heq, hv⟩
        exact ⟨a, List.mem_cons_of_mem _ ha, heq, hv⟩

/-- The entry of a sorted list is what a lookup finds. -/
theorem Sorted.lookup_of_mem (h : Sorted cmp l) {a : κ × ν} (ha : a ∈ l) :
    lookup cmp a.1 l = some a.2 := by
  cases hlookup : lookup cmp a.1 l with
  | none => exact absurd ReflCmp.compare_self (ne_of_lookup_eq_none hlookup a ha)
  | some v =>
      rcases exists_mem_of_lookup hlookup with ⟨b, hb, heq, hv⟩
      rw [h.eq_of_mem ha hb heq, hv]

omit [TransCmp cmp] in
/-- Taking away a key that is there makes the list shorter. -/
theorem length_erase_lt (h : (lookup cmp k l).isSome) : (erase cmp k l).length < l.length := by
  rcases Option.isSome_iff_exists.1 h with ⟨v, hv⟩
  rcases exists_mem_of_lookup hv with ⟨a, ha, heq, _⟩
  exact List.length_filter_lt_length_iff_exists.2 ⟨a, ha, by simp [heq]⟩

/-- A sorted list is no longer than a list that has all its keys. -/
theorem Sorted.length_le (h : Sorted cmp l) (hall : ∀ a ∈ l, (lookup cmp a.1 l').isSome) :
    l.length ≤ l'.length := by
  induction l generalizing l' with
  | nil => exact Nat.zero_le _
  | cons e l ih =>
      rcases sorted_cons.1 h with ⟨he, hl⟩
      have hrest : l.length ≤ (SortedAssoc.erase cmp e.1 l').length := by
        refine ih hl fun a ha => ?_
        have hne : cmp a.1 e.1 ≠ .eq := by simp [OrientedCmp.gt_of_lt (he a ha)]
        rw [lookup_erase, if_neg hne]
        exact hall a (List.mem_cons_of_mem _ ha)
      exact Nat.lt_of_le_of_lt hrest (length_erase_lt (hall e List.mem_cons_self))

/-- Two sorted lists answer every lookup alike if they are equally long and one has the entries of
the other. -/
theorem lookup_eq_iff (h : Sorted cmp l) (h' : Sorted cmp l') :
    (∀ k, lookup cmp k l = lookup cmp k l') ↔
      l.length = l'.length ∧ ∀ a ∈ l, lookup cmp a.1 l' = some a.2 := by
  constructor
  · intro hall
    have hmem : ∀ a ∈ l, lookup cmp a.1 l' = some a.2 := fun a ha =>
      (hall a.1).symm.trans (h.lookup_of_mem ha)
    refine ⟨Nat.le_antisymm (h.length_le fun a ha => by simp [hmem a ha]) ?_, hmem⟩
    refine h'.length_le fun a ha => ?_
    rw [hall, h'.lookup_of_mem ha]
    rfl
  · rintro ⟨hlen, hmem⟩ k
    cases hk : lookup cmp k l with
    | some v =>
        rcases exists_mem_of_lookup hk with ⟨a, ha, heq, rfl⟩
        rw [lookup_congr heq, hmem a ha]
    | none =>
        cases hk' : lookup cmp k l' with
        | none => rfl
        | some v =>
            -- without `k`, the other list would still have all the entries
            have hle : l.length ≤ (erase cmp k l').length := by
              refine h.length_le fun a ha => ?_
              have hne : cmp a.1 k ≠ .eq := fun heq =>
                ne_of_lookup_eq_none hk a ha (OrientedCmp.eq_symm heq)
              rw [lookup_erase, if_neg hne, hmem a ha]
              rfl
            have hlt : (erase cmp k l').length < l'.length := length_erase_lt (by simp [hk'])
            omega

end Alike

end SortedAssoc
end Foundation
end AppChatAgain
