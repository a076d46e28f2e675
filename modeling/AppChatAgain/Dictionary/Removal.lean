import AppChatAgain.Dictionary.Balance

/-!
# Dictionary.Removal — removing a key from a left-leaning red-black tree

A removal carries a red node down with it.  Before it goes to a child, `borrowLeft` or `borrowRight`
rearranges the node so that the child is red or has a red child, and afterwards `fixUp` puts the
result back in order.  `LeftHole` and `RightHole` say once what such a rearrangement leaves: the
child to go to, and which trees may come back in its place.

`remove` goes on below a node whose key it has replaced by that of its successor, although the key
that it looks for is gone by then.  `remove_below` shows that this changes neither the entries nor
the balance.
-/

namespace AppChatAgain
namespace Dictionary

open Foundation Std

universe u v

namespace FLLRBNode

variable {κ : Type u} {ν : Type v}

/-! ## Moving red nodes -/

section Moves

variable {k k₁ k₂ : κ} {v v₁ v₂ : ν} {c c₁ : FLLRBColor} {l l₂ r r₁ r₂ : FLLRBNode κ ν}

theorem moveRedLeft_of_red :
    (valueNode k v c l (valueNode k₁ v₁ c₁ (valueNode k₂ v₂ RED l₂ r₂) r₁)).moveRedLeft =
      valueNode k₂ v₂ c (valueNode k v BLACK l.flip l₂) (valueNode k₁ v₁ BLACK r₂ r₁) := by
  simp [moveRedLeft, copyWith]

theorem moveRedLeft_of_black (h : r.left.isRed = false) :
    (valueNode k v c l r).moveRedLeft = valueNode k v (!c) l.flip r.flip := by
  have hflip : r.flip.left = r.left := by cases r <;> rfl
  simp [moveRedLeft, hflip, h]

theorem moveRedRight_of_red :
    (valueNode k v c (valueNode k₁ v₁ c₁ (valueNode k₂ v₂ RED l₂ r₂) r₁) r).moveRedRight =
      valueNode k₁ v₁ c (valueNode k₂ v₂ BLACK l₂ r₂) (valueNode k v BLACK r₁ r.flip) := by
  simp [moveRedRight]

theorem moveRedRight_of_black (h : l.left.isRed = false) :
    (valueNode k v c l r).moveRedRight = valueNode k v (!c) l.flip r.flip := by
  have hflip : l.flip.left = l.left := by cases l <;> rfl
  simp [moveRedRight, hflip, h]

end Moves

/-! ## Going to the left -/

/-- `m`, the node with its left child `l`, is `n` rearranged: `l` has a red node to give, and a
balanced tree in its place leaves `n` balanced. -/
structure LeftHole (n : FLLRBNode κ ν) (c : FLLRBColor) (h : ℕ) (k : κ) (v : ν) (cm : FLLRBColor)
    (l r : FLLRBNode κ ν) (cl : FLLRBColor) (hl : ℕ) : Prop where
  eq : n.borrowForMin = valueNode k v cm l r
  balanced : Balanced l cl hl
  red : cl = RED ∨ l.left.isRed = true
  /-- a tree with a root of the same colour -/
  same : ∀ l', Balanced l' cl hl → Balanced (valueNode k v cm l' r).fixUp c h
  /-- a tree whose root may have turned black -/
  plug : c = RED ∨ n.left.isRed = true → ∀ l' c', Balanced l' c' hl → (c' = RED → cl = RED) →
    ∃ c'', Balanced (valueNode k v cm l' r).fixUp c'' h ∧ (c'' = RED → c = RED)
  /-- what is below the key of `n` is below `k` -/
  below : ∀ (cmp : NSComparator κ) [TransCmp cmp] (a : κ), SortedAssoc.Sorted cmp n.toList →
    (∀ k₀, n.key = some k₀ → cmp a k₀ = .lt) → cmp a k = .lt

/-- Where the left child has a red node already, nothing is rearranged. -/
theorem leftHole_of_red {k : κ} {v : ν} {l r : FLLRBNode κ ν} {c cl : FLLRBColor} {h hl : ℕ}
    (hbl : Balanced l cl hl) (hred : cl = RED ∨ l.left.isRed = true)
    (hsame : ∀ l', Balanced l' cl hl → Balanced (valueNode k v c l' r).fixUp c h)
    (hplug : c = RED ∨ l.isRed = true → ∀ l' c', Balanced l' c' hl → (c' = RED → cl = RED) →
      ∃ c'', Balanced (valueNode k v c l' r).fixUp c'' h ∧ (c'' = RED → c = RED)) :
    LeftHole (valueNode k v c l r) c h k v c l r cl hl where
  eq := by
    rcases hred with rfl | hll
    · simp [borrowForMin, hbl.isRed]
    · simp [borrowForMin, hll]
  balanced := hbl
  red := hred
  same := hsame
  plug := hplug
  below _ _ _ _ hk := hk k rfl

/-- A node over two black trees, neither of which has a red node to the left, gives them its own
colour; otherwise the right one gives its red node to the left one. -/
theorem moveRedLeft_cases {k : κ} {v : ν} {l r : FLLRBNode κ ν} {h : ℕ} (c : FLLRBColor)
    (hl : Balanced l BLACK h) (hr : Balanced r BLACK h) (hne : l.isEmpty = false)
    (hll : l.left.isRed = false) :
    (∃ k' v' l' r', (valueNode k v c l r).moveRedLeft = valueNode k' v' c l' r' ∧
      Balanced l' BLACK h ∧ l'.left.isRed = true ∧ Balanced r' BLACK h ∧
        (k, v) ∈ l'.toList) ∨
    ∃ l' r' h', h = h' + 1 ∧ (valueNode k v c l r).moveRedLeft = valueNode k v (!c) l' r' ∧
      Balanced l' RED h' ∧ Balanced r' RED h' := by
  have hh : ∃ h', h = h' + 1 := by
    cases hl with
    | empty => cases hne
    | black => exact ⟨_, rfl⟩
  rcases hh with ⟨h', rfl⟩
  by_cases hrl : r.left.isRed = true
  · cases hr with
    | black hr₁ hr₂ =>
        obtain rfl : _ = RED := hr₁.isRed.symm.trans hrl
        cases hr₁ with
        | red hl₂ hr₁ =>
            have hl' := hl.flip_of_black hll
            exact Or.inl ⟨_, _, _, _, moveRedLeft_of_red, .black hl' hl₂, hl'.isRed,
              .black hr₁ hr₂, by simp⟩
  · have hrl' : r.left.isRed = false := by simpa using hrl
    exact Or.inr ⟨_, _, h', rfl, moveRedLeft_of_black hrl', hl.flip_of_black hll,
      hr.flip_of_black hrl'⟩

theorem eq_black {c : FLLRBColor} (hc : c = RED → BLACK = RED) : c = BLACK := by
  cases c with
  | true => cases hc rfl
  | false => rfl

/-- A node that has moved a red node to the left. -/
theorem leftHole_of_move {k : κ} {v : ν} {l r : FLLRBNode κ ν} {c : FLLRBColor} {h hc : ℕ}
    (hl : Balanced l BLACK h) (hr : Balanced r BLACK h) (hne : l.isEmpty = false)
    (hll : l.left.isRed = false)
    (hblack : ∀ {k' : κ} {v' : ν} {l' r' : FLLRBNode κ ν},
      Balanced l' BLACK h → Balanced r' BLACK h →
      Balanced (valueNode k' v' c l' r').fixUp c hc)
    (hred : ∀ {l' r' : FLLRBNode κ ν} {h'}, h = h' + 1 → Balanced l' RED h' → Balanced r' RED h' →
      Balanced (valueNode k v (!c) l' r').fixUp c hc)
    (hgone : ∀ {l' r' : FLLRBNode κ ν} {h'}, c = RED → h = h' + 1 → Balanced l' BLACK h' →
      Balanced r' RED h' → Balanced (valueNode k v (!c) l' r').fixUp BLACK hc) :
    ∃ k' v' cm l' r' cl hl', LeftHole (valueNode k v c l r) c hc k' v' cm l' r' cl hl' := by
  have hmove : (valueNode k v c l r).borrowForMin = (valueNode k v c l r).moveRedLeft := by
    simp [borrowForMin, hl.isRed, hll]
  have hnotred : c = RED ∨ (valueNode k v c l r).left.isRed = true → c = RED := by
    rintro (hc | hc)
    · exact hc
    · simp [hl.isRed] at hc
  rcases moveRedLeft_cases (k := k) (v := v) c hl hr hne hll with
    ⟨k', v', l', r', heq, hl', hll', hr', hmem⟩ | ⟨l', r', h', hh, heq, hl', hr'⟩
  · refine ⟨k', v', c, l', r', BLACK, h, hmove.trans heq, hl', Or.inr hll', ?_, ?_, ?_⟩
    · exact fun m hm => hblack hm hr'
    · intro _ m c' hm hc
      obtain rfl := eq_black hc
      exact ⟨c, hblack hm hr', id⟩
    · intro cmp _ a hs hk
      -- the old root is to the left of the new one
      have hlist : (valueNode k v c l r).toList = l'.toList ++ (k', v') :: r'.toList := by
        rw [← toList_valueNode k' v' c l' r', ← heq, toList_moveRedLeft]
      rw [hlist] at hs
      exact TransCmp.lt_trans (hk k rfl) ((SortedAssoc.sorted_append_cons.1 hs).2.2.1 _ hmem)
  · refine ⟨k, v, !c, l', r', RED, h', hmove.trans heq, hl', Or.inl rfl, ?_, ?_, ?_⟩
    · exact fun m hm => hred hh hm hr'
    · intro hc m c' hm _
      obtain rfl := hnotred hc
      cases c' with
      | true => exact ⟨RED, hred hh hm hr', fun _ => rfl⟩
      | false => exact ⟨BLACK, hgone rfl hh hm hr', fun hc => by cases hc⟩
    · exact fun _ _ _ _ hk => hk k rfl

/-- Every balanced node with a left child can be rearranged. -/
theorem Balanced.leftHole {n : FLLRBNode κ ν} {c : FLLRBColor} {h : ℕ} (hn : Balanced n c h)
    (hne : n.left.isEmpty = false) :
    ∃ k v cm l r cl hl, LeftHole n c h k v cm l r cl hl := by
  cases hn with
  | empty => cases hne
  | @red k v l r h hl hr =>
      by_cases hll : l.left.isRed = true
      · refine ⟨k, v, RED, l, r, BLACK, h, leftHole_of_red hl (Or.inr hll) ?_ ?_⟩
        · exact fun l' hl' => hl'.fixUp_red hr
        · intro _ l' c' hl' hc
          obtain rfl := eq_black hc
          exact ⟨RED, hl'.fixUp_red hr, fun _ => rfl⟩
      · refine leftHole_of_move hl hr hne (by simpa using hll) (fun hl' hr' => hl'.fixUp_red hr') ?_
          ?_
        · rintro l' r' h' rfl hl' hr'
          exact hl'.fixUp_black hr'
        · rintro l' r' h' _ rfl hl' hr'
          exact hl'.fixUp_black hr'
  | @black k v l r cl h hl hr =>
      by_cases hred : cl = RED ∨ l.left.isRed = true
      · refine ⟨k, v, BLACK, l, r, cl, h, leftHole_of_red hl hred ?_ ?_⟩
        · intro l' hl'
          simpa using hl'.fixUp_black (k := k) (v := v) hr
        · intro _ l' c' hl' _
          exact ⟨BLACK, by simpa using hl'.fixUp_black (k := k) (v := v) hr, fun hc => by cases hc⟩
      · -- only `remove_below` comes here: both children and their left children are black
        have hboth : cl = BLACK ∧ l.left.isRed = false := by simpa using hred
        obtain ⟨rfl, hll⟩ := hboth
        refine leftHole_of_move hl hr hne hll (fun hl' hr' => hl'.fixUp_black hr') ?_ ?_
        · rintro l' r' h' rfl hl' hr'
          have hll' := hl'.left_of_red
          rw [Bool.not_false, fixUp_of_both_red hl'.isRed hr'.isRed hll']
          exact .black hl'.flip_of_red hr'.flip_of_red
        · intro l' r' h' hc
          cases hc

theorem borrowLeft_of_left {n : FLLRBNode κ ν} (h : n.left.isEmpty = false) :
    n.borrowLeft = n.borrowForMin := by
  simp [borrowLeft, borrowForMin, h]

theorem borrowLeft_of_empty {n : FLLRBNode κ ν} (h : n.left.isEmpty = true) : n.borrowLeft = n := by
  simp [borrowLeft, h]

/-- The whole listing of a rearranged node. -/
theorem LeftHole.toList_eq {n : FLLRBNode κ ν} {c cm cl : FLLRBColor} {h hl : ℕ} {k : κ} {v : ν}
    {l r : FLLRBNode κ ν} (hole : LeftHole n c h k v cm l r cl hl) :
    n.toList = l.toList ++ (k, v) :: r.toList := by
  rw [← toList_valueNode k v cm l r, ← hole.eq, toList_borrowForMin]

/-- The child to go to is smaller. -/
theorem LeftHole.count_lt {n : FLLRBNode κ ν} {c cm cl : FLLRBColor} {h hl : ℕ} {k : κ} {v : ν}
    {l r : FLLRBNode κ ν} (hole : LeftHole n c h k v cm l r cl hl) : l.count < n.count := by
  have hlen := congrArg List.length hole.toList_eq
  simp only [length_toList, List.length_append, List.length_cons] at hlen
  omega

theorem LeftHole.isEmpty_eq_false {n : FLLRBNode κ ν} {c cm cl : FLLRBColor} {h hl : ℕ} {k : κ}
    {v : ν} {l r : FLLRBNode κ ν} (hole : LeftHole n c h k v cm l r cl hl) :
    l.isEmpty = false := by
  cases l with
  | valueNode => rfl
  | emptyNode =>
      rcases hole.red with rfl | hred
      · exact absurd hole.balanced.isRed (by simp)
      · simp at hred

/-- A balanced node with no left child is a leaf, and `fixUp` leaves it alone. -/
theorem Balanced.fixUp_leaf {k : κ} {v : ν} {c : FLLRBColor} {l r : FLLRBNode κ ν} {h : ℕ}
    (hn : Balanced (valueNode k v c l r) c h) (hl : l.isEmpty = true) :
    l = emptyNode ∧ r = emptyNode ∧ (valueNode k v c emptyNode r).fixUp = valueNode k v c l r := by
  cases l with
  | valueNode => cases hl
  | emptyNode =>
      have hr : r = emptyNode := hn.right_eq_of_left rfl
      subst hr
      exact ⟨rfl, rfl, fixUp_eq_self rfl fun hred => by simp at hred⟩

/-- Removing a key that is below all others changes neither the entries nor the balance, even where
there is no red node to carry down. -/
theorem Balanced.remove_below {n : FLLRBNode κ ν} {c : FLLRBColor} {h : ℕ} (hn : Balanced n c h)
    (cmp : NSComparator κ) (a : κ) (ha : ∀ e ∈ n.toList, cmp a e.1 = .lt) :
    Balanced (n.remove cmp a) c h ∧ (n.remove cmp a).toList = n.toList := by
  induction hcount : n.count using Nat.strongRecOn generalizing n c h with
  | ind m ih =>
      cases n with
      | emptyNode => simpa [remove] using hn
      | valueNode k v c₀ l r =>
          obtain rfl : c₀ = c := hn.isRed
          have hk : cmp a k = .lt := ha (k, v) (by simp)
          rw [remove, if_pos hk]
          cases hl : l.isEmpty with
          | true =>
              rcases hn.fixUp_leaf hl with ⟨rfl, rfl, hfix⟩
              simp only [borrowLeft_of_empty (n := valueNode k v c₀ emptyNode emptyNode) rfl,
                left_valueNode, remove, copyWith, Option.getD_some, Option.getD_none, hfix]
              exact ⟨hn, trivial⟩
          | false =>
              rcases hn.leftHole hl with ⟨k', v', cm, l', r', cl, hl', hole⟩
              have hsub : ∀ e ∈ l'.toList, cmp a e.1 = .lt := by
                intro e he
                exact ha e (hole.toList_eq ▸ List.mem_append_left _ he)
              rcases ih _ (hcount ▸ hole.count_lt) hole.balanced hsub rfl with ⟨hbal, hlist⟩
              simp only [borrowLeft_of_left (n := valueNode k v c₀ l r) hl, hole.eq,
                left_valueNode, copyWith, Option.getD_some, Option.getD_none]
              refine ⟨hole.same _ hbal, ?_⟩
              rw [toList_fixUp, toList_valueNode, hlist, hole.toList_eq]

/-! ## `removeMin` -/

/-- `min` is the first entry. -/
theorem exists_min {n : FLLRBNode κ ν} (hn : n.isEmpty = false) :
    ∃ k v rest, n.min.key = some k ∧ n.min.value = some v ∧ n.toList = (k, v) :: rest := by
  induction n with
  | emptyNode => cases hn
  | valueNode k v c l r ihl _ =>
      cases l with
      | emptyNode => exact ⟨k, v, r.toList, by simp [min], by simp [min], rfl⟩
      | valueNode k' v' c' l' r' =>
          rcases ihl rfl with ⟨k₀, v₀, rest, hk, hv, hlist⟩
          refine ⟨k₀, v₀, rest ++ (k, v) :: r.toList, hk, hv, ?_⟩
          rw [toList_valueNode, hlist, List.cons_append]

/-- `removeMin` takes away the first entry, if there is a red node to carry down. -/
theorem Balanced.removeMin {n : FLLRBNode κ ν} {c : FLLRBColor} {h : ℕ} (hn : Balanced n c h)
    (hred : c = RED ∨ n.left.isRed = true) :
    (∃ c', Balanced n.removeMin c' h ∧ (c' = RED → c = RED)) ∧
      n.removeMin.toList = n.toList.tail := by
  induction hcount : n.count using Nat.strongRecOn generalizing n c h with
  | ind m ih =>
      cases n with
      | emptyNode =>
          have hc : c = BLACK := hn.isRed.symm
          subst hc
          simp at hred
      | valueNode k v c₀ l r =>
          obtain rfl : c₀ = c := hn.isRed
          rw [FLLRBNode.removeMin]
          cases hl : l.isEmpty with
          | true =>
              rcases hn.fixUp_leaf hl with ⟨rfl, rfl, _⟩
              -- a leaf that is red
              obtain rfl : c₀ = RED := by simpa using hred
              cases hn with
              | red hl' hr' =>
                  cases hl'
                  exact ⟨⟨BLACK, .empty, fun hc => by cases hc⟩, rfl⟩
          | false =>
              rcases hn.leftHole hl with ⟨k', v', cm, l', r', cl, hl', hole⟩
              rcases ih _ (hcount ▸ hole.count_lt) hole.balanced hole.red rfl with
                ⟨⟨c', hbal, hc'⟩, hlist⟩
              have hne : l'.toList ≠ [] := by
                intro hnil
                have hempty := hole.isEmpty_eq_false
                cases l' with
                | emptyNode => cases hempty
                | valueNode => simp at hnil
              simp only [hole.eq, left_valueNode, copyWith, Option.getD_some, Option.getD_none,
                Bool.false_eq_true, if_false]
              refine ⟨hole.plug hred _ c' hbal hc', ?_⟩
              rw [toList_fixUp, toList_valueNode, hlist, hole.toList_eq,
                List.tail_append_of_ne_nil hne]

/-! ## `remove` -/

/-- A tree that `remove` can go down into: its root or a child of it is red.  To the right there may
be a red child, which `moveRedRight` leaves, of a root that is not above the key. -/
inductive Removable (cmp : NSComparator κ) (a : κ) : FLLRBNode κ ν → FLLRBColor → ℕ → Prop
  | leaning {n : FLLRBNode κ ν} {c : FLLRBColor} {h : ℕ} (hn : Balanced n c h)
      (hred : c = RED ∨ n.left.isRed = true) : Removable cmp a n c h
  | rightRed {k : κ} {v : ν} {l r : FLLRBNode κ ν} {h : ℕ} (hk : cmp a k ≠ .lt)
      (hl : Balanced l BLACK h) (hr : Balanced r RED h) :
      Removable cmp a (valueNode k v BLACK l r) BLACK (h + 1)

/-- The mirror image of `LeftHole`, for a key that is not below that of `n`; the node may also take
over another key. -/
structure RightHole (cmp : NSComparator κ) (a : κ) (n : FLLRBNode κ ν) (c : FLLRBColor) (h : ℕ)
    (k : κ) (v : ν) (cm : FLLRBColor) (l r : FLLRBNode κ ν) (cr : FLLRBColor) (hr : ℕ) : Prop where
  eq : n.borrowRight = valueNode k v cm l r
  isEmpty : r.isEmpty = false
  removable : Removable cmp a r cr hr
  notLt : cmp a k ≠ .lt
  /-- where the key is that of the node, the right child leans to the left -/
  balanced : cmp a k = .eq → Balanced r cr hr ∧ (cr = RED ∨ r.left.isRed = true)
  plug : ∀ k' v' r' c', Balanced r' c' hr → (c' = RED → cr = RED) →
    ∃ c'', Balanced (valueNode k' v' cm l r').fixUp c'' h ∧ (c'' = RED → c = RED)

/-- The key of a left child is below the key that is looked for. -/
theorem cmp_eq_gt_of_left {cmp : NSComparator κ} [TransCmp cmp] {a k k₁ : κ} {v v₁ : ν}
    {c c₁ : FLLRBColor} {l₁ r₁ r : FLLRBNode κ ν}
    (hs : SortedAssoc.Sorted cmp (valueNode k v c (valueNode k₁ v₁ c₁ l₁ r₁) r).toList)
    (hk : cmp a k ≠ .lt) : cmp a k₁ = .gt := by
  rcases SortedAssoc.sorted_append_cons.1 hs with ⟨_, _, hlt, _⟩
  have hk₁ : cmp k₁ k = .lt := hlt (k₁, v₁) (by simp)
  have hle : (cmp k a).isLE = true := by
    cases hcmp : cmp k a with
    | lt => rfl
    | eq => rfl
    | gt => exact absurd (OrientedCmp.lt_of_gt hcmp) hk
  exact OrientedCmp.gt_of_lt (TransCmp.lt_of_lt_of_isLE hk₁ hle)

/-- A removable node is a red leaf, or can be rearranged for the right child. -/
theorem Removable.rightHole {cmp : NSComparator κ} [TransCmp cmp] {a k : κ} {v : ν}
    {c c₀ : FLLRBColor} {l r : FLLRBNode κ ν} {h : ℕ}
    (hn : Removable cmp a (valueNode k v c₀ l r) c h)
    (hs : SortedAssoc.Sorted cmp (valueNode k v c₀ l r).toList) (hk : cmp a k ≠ .lt) :
    (c = RED ∧ c₀ = RED ∧ h = 0 ∧ l = emptyNode ∧ r = emptyNode) ∨
      ∃ k' v' cm l' r' cr hr,
        RightHole cmp a (valueNode k v c₀ l r) c h k' v' cm l' r' cr hr := by
  cases hn with
  | rightRed _ hl hr =>
      -- the right child is red already
      refine Or.inr ⟨k, v, BLACK, l, r, RED, _, ?_, isEmpty_of_isRed hr.isRed,
        .leaning hr (Or.inl rfl), hk, fun _ => ⟨hr, Or.inl rfl⟩, ?_⟩
      · simp [borrowRight, hl.isRed, hr.isRed]
      · intro k' v' r' c' hr' _
        exact ⟨_, hl.fixUp_black hr', fun hc => by simp at hc⟩
  | leaning hn hred =>
      cases hn with
      | @black _ _ _ _ cl h hl hr =>
          -- the red left child becomes the root, and the old root is red
          obtain rfl : cl = RED := hl.isRed.symm.trans (by simpa using hred)
          cases hl with
          | @red k₁ v₁ l₁ r₁ _ hl₁ hr₁ =>
              have hgt := cmp_eq_gt_of_left hs hk
              refine Or.inr ⟨k₁, v₁, BLACK, l₁, valueNode k v RED r₁ r, RED, h, ?_, rfl,
                .leaning (.red hr₁ hr) (Or.inl rfl), by simp [hgt], fun heq => ?_, ?_⟩
              · simp [borrowRight]
              · simp [hgt] at heq
              · intro k' v' r' c' hr' _
                exact ⟨_, hl₁.fixUp_black hr', fun hc => by simp at hc⟩
      | @red _ _ _ _ h hl hr =>
          cases hre : r.isEmpty with
          | true =>
              cases r with
              | valueNode => cases hre
              | emptyNode =>
                  cases hr
                  cases hl
                  exact Or.inl ⟨rfl, rfl, rfl, rfl, rfl⟩
          | false =>
              refine Or.inr ?_
              by_cases hrl : r.left.isRed = true
              · -- the right child has a red node already
                refine ⟨k, v, RED, l, r, BLACK, h, ?_, hre, .leaning hr (Or.inr hrl), hk,
                  fun _ => ⟨hr, Or.inr hrl⟩, ?_⟩
                · simp [borrowRight, hl.isRed, hrl]
                · intro k' v' r' c' hr' hc
                  obtain rfl := eq_black hc
                  exact ⟨RED, hl.fixUp_red hr', fun _ => rfl⟩
              · have hrl' : r.left.isRed = false := by simpa using hrl
                have hmove : (valueNode k v RED l r).borrowRight =
                    (valueNode k v RED l r).moveRedRight := by
                  simp [borrowRight, hl.isRed, hre, hr.isRed, hrl']
                cases hr with
                | empty => cases hre
                | black hr₁ hr₂ =>
                    have hflip := (Balanced.black hr₁ hr₂).flip_of_black hrl'
                    cases hl with
                    | @black k₁ v₁ l₁ r₁ cl _ hl₁ hl₂ =>
                        cases cl with
                        | true =>
                            -- the left child gives its red node to the right one
                            have hgt := cmp_eq_gt_of_left hs hk
                            cases hl₁ with
                            | red hl₃ hl₄ =>
                                refine ⟨k₁, v₁, RED, _, _, BLACK, _,
                                  hmove.trans moveRedRight_of_red, rfl,
                                  .rightRed hk hl₂ hflip, by simp [hgt], fun heq => ?_, ?_⟩
                                · simp [hgt] at heq
                                · intro k' v' r' c' hr' hc
                                  obtain rfl := eq_black hc
                                  exact ⟨RED, (Balanced.black hl₃ hl₄).fixUp_red hr',
                                    fun _ => rfl⟩
                        | false =>
                            refine ⟨k, v, BLACK, _, _, RED, _,
                              hmove.trans (moveRedRight_of_black hl₁.isRed), rfl,
                              .leaning hflip (Or.inl rfl), hk,
                              fun _ => ⟨hflip, Or.inl rfl⟩, ?_⟩
                            intro k' v' r' c' hr' _
                            exact ⟨_, ((Balanced.black hl₁ hl₂).flip_of_black
                              hl₁.isRed).fixUp_black hr', fun _ => rfl⟩

namespace RightHole

variable {cmp : NSComparator κ} {a k : κ} {v : ν} {n l r : FLLRBNode κ ν} {c cm cr : FLLRBColor}
  {h hr : ℕ}

theorem toList_eq (hole : RightHole cmp a n c h k v cm l r cr hr) :
    n.toList = l.toList ++ (k, v) :: r.toList := by
  rw [← toList_valueNode k v cm l r, ← hole.eq, toList_borrowRight]

theorem count_lt (hole : RightHole cmp a n c h k v cm l r cr hr) : r.count < n.count := by
  have hlen := congrArg List.length hole.toList_eq
  simp only [length_toList, List.length_append, List.length_cons] at hlen
  omega

end RightHole

/-- Going on below a replaced key: the successor is gone from the right child, and what is left
there is above the key. -/
theorem RightHole.remove_successor {cmp : NSComparator κ} [TransCmp cmp] {a k k' : κ} {v v' : ν}
    {n l r : FLLRBNode κ ν} {c cm cr : FLLRBColor} {h hr : ℕ}
    (hole : RightHole cmp a n c h k v cm l r cr hr) (hs : SortedAssoc.Sorted cmp n.toList)
    (hk : cmp a k = .eq) {rest : List (κ × ν)} (hmin : r.toList = (k', v') :: rest) :
    (∃ c', Balanced (valueNode k' v' cm l (r.removeMin.remove cmp a)).fixUp c' h ∧
        (c' = RED → c = RED)) ∧
      (valueNode k' v' cm l (r.removeMin.remove cmp a)).fixUp.toList =
        SortedAssoc.erase cmp a n.toList := by
  rcases hole.balanced hk with ⟨hbal, hred⟩
  rcases hbal.removeMin hred with ⟨⟨c', hbal', hc'⟩, hlist⟩
  rw [hole.toList_eq] at hs
  have habove : ∀ e ∈ r.removeMin.toList, cmp a e.1 = .lt := by
    intro e he
    have hmem : e ∈ r.toList := List.mem_of_mem_tail (hlist ▸ he)
    exact SortedAssoc.cmp_lt_of_eq (SortedAssoc.sorted_append_cons.1 hs).2.2.2 hk e hmem
  rcases hbal'.remove_below cmp a habove with ⟨hbelow, hsame⟩
  refine ⟨hole.plug k' v' _ c' hbelow hc', ?_⟩
  rw [toList_fixUp, toList_valueNode, hsame, hlist, hole.toList_eq,
    SortedAssoc.erase_append_cons hs, hk, hmin, List.tail_cons]

/-- `remove` takes the key away and leaves the black height as it is. -/
theorem Removable.remove {cmp : NSComparator κ} [TransCmp cmp] {a : κ} {n : FLLRBNode κ ν}
    {c : FLLRBColor} {h : ℕ} (hn : Removable cmp a n c h)
    (hs : SortedAssoc.Sorted cmp n.toList) :
    (∃ c', Balanced (n.remove cmp a) c' h ∧ (c' = RED → c = RED)) ∧
      (n.remove cmp a).toList = SortedAssoc.erase cmp a n.toList := by
  induction hcount : n.count using Nat.strongRecOn generalizing n c h with
  | ind m ih =>
      cases n with
      | emptyNode =>
          -- the empty tree has no red node to carry
          cases hn with
          | leaning hn hred =>
              obtain rfl : c = BLACK := hn.isRed.symm
              simp at hred
      | valueNode k v c₀ l r =>
          rw [FLLRBNode.remove]
          by_cases hk : cmp a k = .lt
          · rw [if_pos hk]
            cases hn with
            | rightRed hnot _ _ => exact absurd hk hnot
            | leaning hn hred =>
                obtain rfl : c₀ = c := hn.isRed
                cases hl : l.isEmpty with
                | true =>
                    rcases hn.fixUp_leaf hl with ⟨rfl, rfl, hfix⟩
                    simp only [borrowLeft_of_empty (n := valueNode k v c₀ emptyNode emptyNode) rfl,
                      left_valueNode, FLLRBNode.remove, copyWith, Option.getD_some,
                      Option.getD_none, hfix]
                    exact ⟨⟨c₀, hn, id⟩, by simp [SortedAssoc.erase, hk]⟩
                | false =>
                    rcases hn.leftHole hl with ⟨k', v', cm, l', r', cl, hl', hole⟩
                    have hk' : cmp a k' = .lt := by
                      refine hole.below cmp a hs ?_
                      intro k₀ hk₀
                      cases hk₀
                      exact hk
                    rw [hole.toList_eq] at hs ⊢
                    rcases ih _ (hcount ▸ hole.count_lt) (.leaning hole.balanced hole.red)
                      (SortedAssoc.sorted_append_cons.1 hs).1 rfl with ⟨⟨c', hbal, hc'⟩, hlist⟩
                    simp only [borrowLeft_of_left (n := valueNode k v c₀ l r) hl, hole.eq,
                      left_valueNode, copyWith, Option.getD_some, Option.getD_none]
                    refine ⟨hole.plug hred _ c' hbal hc', ?_⟩
                    rw [toList_fixUp, toList_valueNode, hlist, SortedAssoc.erase_append_cons hs,
                      hk']
          · rw [if_neg hk]
            rcases hn.rightHole hs hk with
              ⟨rfl, rfl, rfl, rfl, rfl⟩ | ⟨k', v', cm, l', r', cr, hr', hole⟩
            · -- a red leaf goes if the key is its own
              have hborrow : (valueNode k v RED (emptyNode : FLLRBNode κ ν) emptyNode).borrowRight =
                  valueNode k v RED emptyNode emptyNode := rfl
              cases hkk : cmp a k with
              | lt => exact absurd hkk hk
              | eq =>
                  simp only [hborrow, sameKey, key_valueNode, Option.any_some, hkk]
                  exact ⟨⟨BLACK, .empty, fun hc => by cases hc⟩, by simp [SortedAssoc.erase, hkk]⟩
              | gt =>
                  have hfix : (valueNode k v RED (emptyNode : FLLRBNode κ ν) emptyNode).fixUp =
                      valueNode k v RED emptyNode emptyNode :=
                    fixUp_eq_self rfl fun hred => by simp at hred
                  simp only [hborrow, sameKey, key_valueNode, Option.any_some, hkk, right_valueNode,
                    FLLRBNode.remove, copyWith, Option.getD_some, Option.getD_none, reduceCtorEq,
                    decide_false, Bool.false_eq_true, if_false, hfix]
                  exact ⟨⟨RED, .red .empty .empty, fun _ => trivial⟩,
                    by simp [SortedAssoc.erase, hkk]⟩
            · cases hkk : cmp a k' with
              | lt => exact absurd hkk hole.notLt
              | eq =>
                  rcases exists_min hole.isEmpty with ⟨k₀, v₀, rest, hkey, hval, hmin⟩
                  have hsucc := hole.remove_successor hs hkk hmin
                  simpa [hole.eq, sameKey, hkk, hole.isEmpty, hkey, hval, copyWith] using hsucc
              | gt =>
                  rw [hole.toList_eq] at hs ⊢
                  rcases ih _ (hcount ▸ hole.count_lt) hole.removable
                    (SortedAssoc.sorted_append_cons.1 hs).2.1 rfl with ⟨⟨c', hbal, hc'⟩, hlist⟩
                  simp only [hole.eq, sameKey, key_valueNode, Option.any_some, hkk, right_valueNode,
                    copyWith, Option.getD_some, Option.getD_none, reduceCtorEq, decide_false,
                    Bool.false_eq_true, if_false]
                  refine ⟨hole.plug k' v' _ c' hbal hc', ?_⟩
                  rw [toList_fixUp, toList_valueNode, hlist, SortedAssoc.erase_append_cons hs, hkk]

/-! ## The colour of the root

No operation reads the colour of the node it is asked of: it hands it on to the root of what it
returns.  So a black root without a red child can be taken for a red one. -/

section Flip

variable (n : FLLRBNode κ ν)

@[simp] theorem left_flip : n.flip.left = n.left := by
  cases n <;> rfl

@[simp] theorem right_flip : n.flip.right = n.right := by
  cases n <;> rfl

@[simp] theorem key_flip : n.flip.key = n.key := by
  cases n <;> rfl

theorem copyWith_flip (k : Option κ) (v : Option ν) (l r : Option (FLLRBNode κ ν)) :
    n.flip.copyWith k v none l r = (n.copyWith k v none l r).flip := by
  cases n <;> rfl

theorem rotateLeft_flip : n.flip.rotateLeft = n.rotateLeft.flip := by
  cases n with
  | emptyNode => rfl
  | valueNode k v c l r => cases r <;> rfl

theorem rotateRight_flip : n.flip.rotateRight = n.rotateRight.flip := by
  cases n with
  | emptyNode => rfl
  | valueNode k v c l r => cases l <;> rfl

theorem colorFlip_flip : n.flip.colorFlip = n.colorFlip.flip := by
  cases n <;> rfl

theorem ite_flip (p : Prop) [Decidable p] (m : FLLRBNode κ ν) :
    (if p then m.flip else n.flip) = (if p then m else n).flip :=
  (apply_ite flip p m n).symm

theorem fixUp_flip : n.flip.fixUp = n.fixUp.flip := by
  simp only [fixUp, left_flip, right_flip, rotateLeft_flip, rotateRight_flip, colorFlip_flip,
    ite_flip]

theorem moveRedLeft_flip : n.flip.moveRedLeft = n.moveRedLeft.flip := by
  simp only [moveRedLeft, colorFlip_flip, right_flip, copyWith_flip, rotateLeft_flip, ite_flip]

theorem moveRedRight_flip : n.flip.moveRedRight = n.moveRedRight.flip := by
  simp only [moveRedRight, colorFlip_flip, left_flip, rotateRight_flip, ite_flip]

theorem borrowLeft_flip : n.flip.borrowLeft = n.borrowLeft.flip := by
  simp only [borrowLeft, left_flip, moveRedLeft_flip, ite_flip]

theorem borrowRight_flip : n.flip.borrowRight = n.borrowRight.flip := by
  simp only [borrowRight, left_flip, right_flip, rotateRight_flip, moveRedRight_flip, ite_flip]

theorem remove_flip (cmp : NSComparator κ) (a : κ) :
    n.flip.remove cmp a = (n.remove cmp a).flip := by
  cases n with
  | emptyNode => simp [FLLRBNode.remove, flip, copyWith]
  | valueNode k v c l r =>
      have hl := borrowLeft_flip (valueNode k v c l r)
      have hr := borrowRight_flip (valueNode k v c l r)
      have hempty : (emptyNode : FLLRBNode κ ν).flip = emptyNode := rfl
      simp only [flip_valueNode] at hl hr
      rw [flip_valueNode, FLLRBNode.remove, FLLRBNode.remove]
      simp only [hl, hr, sameKey, left_flip, right_flip, key_flip, copyWith_flip, fixUp_flip,
        apply_ite flip, hempty]

end Flip

theorem blacken_flip (n : FLLRBNode κ ν) : n.flip.blacken = n.blacken := by
  cases n <;> rfl

/-- From a black root, whatever the colours below, a removal leaves a balanced tree, if it is
painted black again. -/
theorem Balanced.blacken_remove {cmp : NSComparator κ} [TransCmp cmp] {n : FLLRBNode κ ν} {h : ℕ}
    (hn : Balanced n BLACK h) (a : κ) (hne : n.isEmpty = false)
    (hs : SortedAssoc.Sorted cmp n.toList) :
    (∃ h', Balanced (n.remove cmp a).blacken BLACK h') ∧
      (n.remove cmp a).blacken.toList = SortedAssoc.erase cmp a n.toList := by
  cases hl : n.left.isRed with
  | true =>
      have hrem : Removable cmp a n BLACK h := .leaning hn (Or.inr hl)
      rcases hrem.remove hs with ⟨⟨c', hbal, _⟩, hlist⟩
      exact ⟨hbal.blacken, by rw [toList_blacken, hlist]⟩
  | false =>
      -- the root is taken for a red one
      cases hn with
      | empty => cases hne
      | black hl' hr' =>
          have hred := (Balanced.black hl' hr').flip_of_black hl
          have hs' := hs
          rw [← toList_flip] at hs'
          have hrem : Removable cmp a _ RED _ := .leaning hred (Or.inl rfl)
          rcases hrem.remove hs' with ⟨⟨c', hbal, _⟩, hlist⟩
          rw [remove_flip] at hbal hlist
          rw [toList_flip, toList_flip] at hlist
          rcases hbal.blacken with ⟨h', hblack⟩
          rw [blacken_flip] at hblack
          exact ⟨⟨h', hblack⟩, by rw [toList_blacken, hlist]⟩

end FLLRBNode

end Dictionary
end AppChatAgain
