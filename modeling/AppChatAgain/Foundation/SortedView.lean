import Mathlib.Data.Finmap
import Mathlib.Data.List.Sort
import Mathlib.Data.Finset.Sort

/-!
# SortedView — enumerating and sorting the values of a dictionary

A dictionary (`Finmap`) has no order of its own.  This file packages the two library services a
program uses to show one as a list, each with exactly what a caller may rely on:

* `Enumeration` : some list of the values, in an unspecified order;
* `SortFn`      : some sorted permutation of a list, not necessarily a stable one.

When every value knows its own key, an enumeration has one value for each key, and two sorted
views of one dictionary agree as soon as no two values tie.  Where two do, a stable sort keeps them
as they are enumerated, and any order of them may be.
-/

namespace AppChatAgain
namespace Foundation

universe u

/-! ## Dictionaries -/

/-- A dictionary with values of one type. -/
abbrev Dict (κ β : Type u) := Finmap fun _ : κ => β

namespace Dict

variable {κ β : Type u}

def values (d : Dict κ β) : Multiset β :=
  d.entries.map Sigma.snd

theorem mem_entries_iff [DecidableEq κ] {d : Dict κ β} {k : κ} {b : β} :
    ⟨k, b⟩ ∈ d.entries ↔ d.lookup k = some b := by
  induction d using Finmap.induction_on with
  | H l => exact (AList.mem_lookup_iff (s := l)).symm

theorem mem_values [DecidableEq κ] {d : Dict κ β} {b : β} :
    b ∈ d.values ↔ ∃ k, d.lookup k = some b := by
  rw [values, Multiset.mem_map]
  constructor
  · rintro ⟨⟨k, b'⟩, hmem, rfl⟩
    exact ⟨k, mem_entries_iff.1 hmem⟩
  · rintro ⟨k, hk⟩
    exact ⟨⟨k, b⟩, mem_entries_iff.2 hk, rfl⟩

/-- Every value is stored under the key `f` computes from it. -/
def KeyedBy [DecidableEq κ] (f : β → κ) (d : Dict κ β) : Prop :=
  ∀ k b, d.lookup k = some b → f b = k

/-- The keys of the values of a keyed dictionary are its keys. -/
theorem map_values_of_keyedBy [DecidableEq κ] {f : β → κ} {d : Dict κ β} (h : d.KeyedBy f) :
    d.values.map f = d.keys.val := by
  rw [values, Multiset.map_map]
  refine Multiset.map_congr rfl ?_
  rintro ⟨k, b⟩ hmem
  exact h k b (mem_entries_iff.1 hmem)

/-- A list of the values of a keyed dictionary lists each key once. -/
theorem KeyedBy.map_list [DecidableEq κ] {f : β → κ} {d : Dict κ β} (h : d.KeyedBy f)
    {l : List β} (hl : (l : Multiset β) = d.values) :
    ((l.map f : List κ) : Multiset κ) = d.keys.val := by
  rw [← Multiset.map_coe, hl, map_values_of_keyedBy h]

theorem keyedBy_empty [DecidableEq κ] (f : β → κ) : (∅ : Dict κ β).KeyedBy f := by
  intro k b h
  simp at h

/-- Storing a value under its own key keeps a dictionary keyed. -/
theorem KeyedBy.insert [DecidableEq κ] {f : β → κ} {d : Dict κ β} (h : d.KeyedBy f) (b : β) :
    Dict.KeyedBy f (Finmap.insert (f b) b d) := by
  intro k b' hk
  by_cases hkb : k = f b
  · subst hkb
    have hb : b = b' := by simpa using hk
    rw [hb]
  · have hold : d.lookup k = some b' := by
      simpa [Finmap.lookup_insert_of_ne _ hkb] using hk
    exact h k b' hold

end Dict

/-! ## Enumerations -/

/-- An order in which the values of a dictionary may be listed. -/
structure Enumeration (κ β : Type u) where
  order : Dict κ β → List β
  values_eq : ∀ d, (order d : Multiset β) = d.values

namespace Enumeration

variable {κ β : Type u} (e : Enumeration κ β)

/-- An enumeration of a keyed dictionary has one value for each key. -/
theorem nodup_map_order [DecidableEq κ] {f : β → κ} {d : Dict κ β} (h : d.KeyedBy f) :
    ((e.order d).map f).Nodup := by
  have hkeys : (((e.order d).map f : List κ) : Multiset κ) = d.keys.val := by
    calc
      (((e.order d).map f : List κ) : Multiset κ)
          = Multiset.map f (e.order d : Multiset β) := (Multiset.map_coe f _).symm
      _ = d.values.map f := by rw [e.values_eq]
      _ = d.keys.val := Dict.map_values_of_keyedBy h
  have hnd : (((e.order d).map f : List κ) : Multiset κ).Nodup := by
    simpa only [hkeys] using d.keys.nodup
  exact Multiset.coe_nodup.1 hnd

/-- Any list of the values of a dictionary is an order in which they may be listed. -/
theorem exists_order_eq {d : Dict κ β} {l : List β} (h : (l : Multiset β) = d.values) :
    ∃ e : Enumeration κ β, e.order d = l := by
  classical
  let order : Dict κ β → List β := Function.update (fun d' => d'.values.toList) d l
  have hvalues : ∀ d', (order d' : Multiset β) = d'.values := by
    intro d'
    by_cases hd : d' = d
    · subst hd
      simpa [order] using h
    · simp [order, hd]
  exact ⟨⟨order, hvalues⟩, by simp [order]⟩

/-- Two values may be listed in either order. -/
theorem exists_pair_sublist {d : Dict κ β} {a b : β} (ha : a ∈ d.values) (hb : b ∈ d.values)
    (hne : a ≠ b) : ∃ e : Enumeration κ β, [a, b].Sublist (e.order d) := by
  rcases Multiset.exists_cons_of_mem ha with ⟨s, hs⟩
  have hbs : b ∈ s := by
    have hmem : b ∈ a ::ₘ s := hs ▸ hb
    exact (Multiset.mem_cons.1 hmem).resolve_left hne.symm
  rcases Multiset.exists_cons_of_mem hbs with ⟨t, ht⟩
  have hlist : ((a :: b :: t.toList : List β) : Multiset β) = d.values := by
    calc
      ((a :: b :: t.toList : List β) : Multiset β)
          = a ::ₘ b ::ₘ (t.toList : Multiset β) := rfl
      _ = d.values := by rw [Multiset.coe_toList, ← ht, ← hs]
  rcases exists_order_eq hlist with ⟨e, he⟩
  refine ⟨e, ?_⟩
  simp [he]

/-- The values in increasing order of their keys. -/
def byKey [LinearOrder κ] : Enumeration κ β where
  order d := (d.keys.sort (· ≤ ·)).filterMap fun k => d.lookup k
  values_eq d := by
    rw [← Multiset.filterMap_coe, Finset.sort_eq]
    induction d using Finmap.induction_on with
    | H l =>
        -- on an association list, looking the keys up lists the entries
        change ((l.keys.filterMap fun k => l.lookup k : List β) : Multiset β) =
          (l.entries.map Sigma.snd : List β)
        congr 1
        rw [AList.keys, List.keys, List.filterMap_map, ← List.filterMap_eq_map]
        refine List.filterMap_congr ?_
        rintro ⟨k, b⟩ hmem
        exact AList.mem_lookup_iff.2 hmem

end Enumeration

/-- An order in which the keys of a dictionary may be listed. -/
structure KeyOrder (κ β : Type u) where
  order : Dict κ β → List κ
  keys_eq : ∀ d, (order d : Multiset κ) = d.keys.val

namespace KeyOrder

variable {κ β : Type u} (o : KeyOrder κ β) (d : Dict κ β)

theorem mem_order {k : κ} : k ∈ o.order d ↔ k ∈ d.keys := by
  rw [← Multiset.mem_coe, o.keys_eq]
  rfl

theorem nodup_order : (o.order d).Nodup := by
  rw [← Multiset.coe_nodup, o.keys_eq]
  exact d.keys.nodup

/-- The keys in increasing order. -/
def increasing [LinearOrder κ] : KeyOrder κ β where
  order d := d.keys.sort (· ≤ ·)
  keys_eq _ := Finset.sort_eq _ _

end KeyOrder

/-! ## Sorting -/

/-- What a comparison must satisfy for sorting by it to make sense. -/
structure StrictWeak {α : Type u} (lt : α → α → Bool) : Prop where
  asymm : ∀ a b, lt a b = true → lt b a = false
  trans : ∀ a b c, lt a b = true → lt b c = true → lt a c = true
  incomp : ∀ a b c, lt a b = false → lt b c = false → lt a c = false

/-- A sorting function: a permutation of its input in which no element precedes a smaller one. -/
structure SortFn (α : Type u) where
  sort : (α → α → Bool) → List α → List α
  perm : ∀ lt l, (sort lt l).Perm l
  sorted : ∀ lt l, StrictWeak lt → (sort lt l).Pairwise fun a b => lt b a = false

/-- "Not after" is transitive. -/
theorem StrictWeak.not_after_trans {α : Type u} {lt : α → α → Bool} (h : StrictWeak lt)
    (a b c : α) (hab : (!lt b a) = true) (hbc : (!lt c b) = true) : (!lt c a) = true := by
  have hcb : lt c b = false := by simpa using hbc
  have hba : lt b a = false := by simpa using hab
  simp [h.incomp c b a hcb hba]

/-- "Not after" is total. -/
theorem StrictWeak.not_after_total {α : Type u} {lt : α → α → Bool} (h : StrictWeak lt)
    (a b : α) : (!lt b a || !lt a b) = true := by
  cases hba : lt b a with
  | false => simp
  | true => simp [h.asymm b a hba]

/-- Merge sort is one. -/
def SortFn.merge (α : Type u) : SortFn α where
  sort lt l := l.mergeSort fun a b => !lt b a
  perm lt l := List.mergeSort_perm l _
  sorted lt l h := by
    -- "not after" is transitive and total, which is what merge sort needs
    have hpw := List.pairwise_mergeSort h.not_after_trans h.not_after_total l
    exact hpw.imp fun hab => by simpa using hab

/-- A stable sorting function does not swap elements without need. -/
def SortFn.Stable {α : Type u} (S : SortFn α) : Prop :=
  ∀ lt l a b, StrictWeak lt → lt b a = false → [a, b].Sublist l → [a, b].Sublist (S.sort lt l)

/-- Merge sort is stable. -/
theorem SortFn.merge_stable (α : Type u) : (SortFn.merge α).Stable := by
  intro lt l a b h hab hsub
  exact List.pair_sublist_mergeSort h.not_after_trans h.not_after_total (by simp [hab]) hsub

/-- Comparing by a key in decreasing order. -/
theorem strictWeak_decreasing {α : Type u} (f : α → ℤ) :
    StrictWeak fun a b => decide (f a > f b) where
  asymm a b h := by
    simp only [decide_eq_true_eq, decide_eq_false_iff_not] at *
    omega
  trans a b c hab hbc := by
    simp only [decide_eq_true_eq] at *
    omega
  incomp a b c hab hbc := by
    simp only [decide_eq_false_iff_not] at *
    omega

theorem SortFn.sorted_decreasing {α : Type u} (S : SortFn α) (f : α → ℤ) (l : List α) :
    (S.sort (fun a b => decide (f a > f b)) l).Pairwise fun a b => f b ≤ f a := by
  refine (S.sorted _ l (strictWeak_decreasing f)).imp ?_
  intro a b h
  simpa using h

/-- A stable sort by a key leaves two elements with one key as they are. -/
theorem SortFn.Stable.pair_sublist {α : Type u} {S : SortFn α} (hS : S.Stable) {f : α → ℤ}
    {l : List α} {a b : α} (hab : f a = f b) (hsub : [a, b].Sublist l) :
    [a, b].Sublist (S.sort (fun a b => decide (f a > f b)) l) :=
  hS _ l a b (strictWeak_decreasing f) (by simp [hab]) hsub

/-- Without repetition, no two elements stand in both orders. -/
theorem not_pair_sublist_swap {α : Type u} {l : List α} (hnd : l.Nodup) {a b : α}
    (hab : [a, b].Sublist l) : ¬ [b, a].Sublist l := by
  intro hba
  induction l with
  | nil => cases hab
  | cons c l ih =>
      rcases List.nodup_cons.1 hnd with ⟨hc, hnd⟩
      -- the one that comes first is not among those that follow
      cases hab with
      | cons _ hab =>
          cases hba with
          | cons _ hba => exact ih hnd hab hba
          | cons_cons _ ha => exact hc (hab.subset (by simp))
      | cons_cons _ hb =>
          cases hba with
          | cons _ hba => exact hc (hba.subset (by simp))
          | cons_cons _ ha => exact hc (ha.subset (by simp))

/-- Lists sorted by a key that separates their elements are equal when they are permutations. -/
theorem eq_of_perm_of_decreasing {α : Type u} {f : α → ℤ} {l₁ l₂ : List α} (hp : l₁.Perm l₂)
    (h₁ : l₁.Pairwise fun a b => f b ≤ f a) (h₂ : l₂.Pairwise fun a b => f b ≤ f a)
    (hinj : ∀ a ∈ l₁, ∀ b ∈ l₁, f a = f b → a = b) : l₁ = l₂ := by
  refine List.Perm.eq_of_pairwise ?_ h₁ h₂ hp
  intro a b ha hb hab hba
  exact hinj a ha b (hp.mem_iff.2 hb) (le_antisymm hba hab)

end Foundation
end AppChatAgain
