import Mathlib.Data.List.Basic
import Mathlib.Data.List.Dedup

/-!
# KeyTree — a tree store addressed by paths of keys

`KeyTree κ ν` is a store whose inner nodes branch on keys of type `κ` and whose leaves carry
values of type `ν`; `empty` is what is read where nothing is stored.  A path is a list of keys.

* `get` reads the subtree at a path, `set` replaces it;
* `update` writes several children of one path, later entries winning;
* reading commutes with writing above and below, and does not see a write on a path that
  *diverges* from the one read.
-/

namespace AppChatAgain
namespace Foundation

universe u v

inductive KeyTree (κ : Type u) (ν : Type v) where
  | empty
  | leaf (value : ν)
  | node (children : List (κ × KeyTree κ ν))

namespace KeyTree

variable {κ : Type u} {ν : Type v}

instance : Inhabited (KeyTree κ ν) :=
  ⟨.empty⟩

def isEmpty : KeyTree κ ν → Bool
  | .empty => true
  | _ => false

def children : KeyTree κ ν → List (κ × KeyTree κ ν)
  | .node cs => cs
  | _ => []

/-! ## Equality -/

section DecidableEq

variable [DecidableEq κ] [DecidableEq ν]

mutual

def decEq : ∀ t u : KeyTree κ ν, Decidable (t = u)
  | .empty, .empty => isTrue rfl
  | .leaf v, .leaf v' => decidable_of_iff (v = v') (by simp)
  | .node cs, .node cs' =>
      match decEqChildren cs cs' with
      | isTrue h => isTrue (congrArg node h)
      | isFalse h => isFalse fun heq => h (node.inj heq)
  | .empty, .leaf _ => isFalse fun h => by cases h
  | .empty, .node _ => isFalse fun h => by cases h
  | .leaf _, .empty => isFalse fun h => by cases h
  | .leaf _, .node _ => isFalse fun h => by cases h
  | .node _, .empty => isFalse fun h => by cases h
  | .node _, .leaf _ => isFalse fun h => by cases h

def decEqChildren : ∀ cs cs' : List (κ × KeyTree κ ν), Decidable (cs = cs')
  | [], [] => isTrue rfl
  | (k, t) :: cs, (k', t') :: cs' =>
      match decEq t t', decEqChildren cs cs' with
      | isTrue ht, isTrue hcs => decidable_of_iff (k = k') (by simp [ht, hcs])
      | isFalse ht, _ => isFalse fun heq => ht (Prod.mk.inj (List.cons.inj heq).1).2
      | _, isFalse hcs => isFalse fun heq => hcs (List.cons.inj heq).2
  | [], _ :: _ => isFalse fun h => by cases h
  | _ :: _, [] => isFalse fun h => by cases h

end

instance : DecidableEq (KeyTree κ ν) :=
  decEq

end DecidableEq

/-! ## Paths -/

/-- Two paths diverge when they differ at a common position. -/
def Diverge : List κ → List κ → Prop
  | j :: p, k :: q => j ≠ k ∨ Diverge p q
  | _, _ => False

@[simp] theorem diverge_cons (j k : κ) (p q : List κ) :
    Diverge (j :: p) (k :: q) ↔ j ≠ k ∨ Diverge p q :=
  Iff.rfl

@[simp] theorem not_diverge_nil (p : List κ) : ¬ Diverge p [] := by
  cases p <;> simp [Diverge]

theorem Diverge.append {p q : List κ} (h : Diverge p q) (r : List κ) : Diverge (p ++ r) q := by
  induction p generalizing q with
  | nil => cases q <;> cases h
  | cons j p ih =>
      cases q with
      | nil => cases h
      | cons k q =>
          rcases h with hne | hrest
          · exact Or.inl hne
          · exact Or.inr (ih hrest)

/-! ## Reading and writing -/

variable [DecidableEq κ]

/-- The subtree under one key, `empty` when the key is absent. -/
def child (t : KeyTree κ ν) (k : κ) : KeyTree κ ν :=
  (t.children.lookup k).getD .empty

/-- The keys under which something is stored. -/
def keys (t : KeyTree κ ν) : List κ :=
  (t.children.map Prod.fst).dedup.filter fun k => !(t.child k).isEmpty

/-- The subtree at a path. -/
def get : KeyTree κ ν → List κ → KeyTree κ ν
  | t, [] => t
  | t, k :: p => get (t.child k) p

/-- Replace the subtree at a path.  A leaf on the way becomes a node. -/
def set : KeyTree κ ν → List κ → KeyTree κ ν → KeyTree κ ν
  | _, [], v => v
  | t, k :: p, v => .node ((k, set (t.child k) p v) :: t.children.filter fun c => c.1 ≠ k)

/-- Write children of the path `p`, one after the other. -/
def update (t : KeyTree κ ν) (p : List κ) (vals : List (κ × KeyTree κ ν)) : KeyTree κ ν :=
  vals.foldl (fun t kv => t.set (p ++ [kv.1]) kv.2) t

/-! ## One key -/

@[simp] theorem child_empty (k : κ) : (empty : KeyTree κ ν).child k = empty :=
  rfl

theorem nodup_keys (t : KeyTree κ ν) : t.keys.Nodup :=
  (List.nodup_dedup _).filter _

theorem mem_keys {t : KeyTree κ ν} {k : κ} : k ∈ t.keys ↔ (t.child k).isEmpty = false := by
  simp only [keys, List.mem_filter, List.mem_dedup, Bool.not_eq_true', and_iff_right_iff_imp]
  intro h
  by_contra hk
  -- a key that is not listed has nothing under it
  have hnone : t.children.lookup k = none := by
    refine List.lookup_eq_none_iff.2 ?_
    intro c hc
    have hne : k ≠ c.1 := by
      rintro rfl
      exact hk (List.mem_map_of_mem hc)
    simpa using hne
  simp [child, hnone, isEmpty] at h

@[simp] theorem isEmpty_set_cons (t : KeyTree κ ν) (k : κ) (p : List κ) (v : KeyTree κ ν) :
    (t.set (k :: p) v).isEmpty = false :=
  rfl

theorem lookup_filter_ne (cs : List (κ × KeyTree κ ν)) {j k : κ} (h : j ≠ k) :
    (cs.filter fun c => c.1 ≠ k).lookup j = cs.lookup j := by
  induction cs with
  | nil => rfl
  | cons c cs ih =>
      rcases c with ⟨i, t⟩
      by_cases hi : i = k
      · subst hi
        have hj : (j == i) = false := by simp [h]
        simpa [List.lookup_cons, hj] using ih
      · cases hj : j == i
        · simpa [hi, List.lookup_cons, hj] using ih
        · simp [hi, List.lookup_cons, hj]

/-- What a write leaves under one key. -/
theorem child_set_cons (t : KeyTree κ ν) (j k : κ) (p : List κ) (v : KeyTree κ ν) :
    (t.set (k :: p) v).child j = if j = k then (t.child k).set p v else t.child j := by
  by_cases h : j = k
  · subst h
    simp [set, child, children]
  · have hb : (j == k) = false := by simp [h]
    simp only [set, child, children, List.lookup_cons, hb, lookup_filter_ne _ h, h, if_false]

/-! ## Reading and writing along related paths -/

@[simp] theorem get_nil (t : KeyTree κ ν) : t.get [] = t :=
  rfl

theorem get_cons (t : KeyTree κ ν) (k : κ) (p : List κ) :
    t.get (k :: p) = (t.child k).get p :=
  rfl

@[simp] theorem set_nil (t v : KeyTree κ ν) : t.set [] v = v :=
  rfl

@[simp] theorem get_empty (p : List κ) : (empty : KeyTree κ ν).get p = empty := by
  induction p with
  | nil => rfl
  | cons k p ih => exact ih

theorem get_append (t : KeyTree κ ν) (p q : List κ) : t.get (p ++ q) = (t.get p).get q := by
  induction p generalizing t with
  | nil => rfl
  | cons k p ih => exact ih (t.child k)

/-- A write at a path below `p` is, seen from `p`, a write at the rest of the path. -/
theorem get_set_append (t : KeyTree κ ν) (p q : List κ) (v : KeyTree κ ν) :
    (t.set (p ++ q) v).get p = (t.get p).set q v := by
  induction p generalizing t with
  | nil => rfl
  | cons k p ih => simpa [get_cons, child_set_cons] using ih (t.child k)

@[simp] theorem get_set_self (t : KeyTree κ ν) (p : List κ) (v : KeyTree κ ν) :
    (t.set p v).get p = v := by
  simpa using get_set_append t p [] v

/-- A write is not seen on a diverging path. -/
theorem get_set_of_diverge {p q : List κ} (h : Diverge p q) (t v : KeyTree κ ν) :
    (t.set p v).get q = t.get q := by
  induction p generalizing q t with
  | nil => cases q <;> cases h
  | cons j p ih =>
      cases q with
      | nil => cases h
      | cons k q =>
          by_cases hk : k = j
          · -- the paths diverge further down
            subst hk
            have hrest : Diverge p q := h.resolve_left fun hne => hne rfl
            simpa [get_cons, child_set_cons] using ih hrest (t.child k)
          · -- they diverge here: the child that is read was not written
            simp [get_cons, child_set_cons, hk]

/-! ## Writing several children -/

@[simp] theorem update_nil (t : KeyTree κ ν) (p : List κ) : t.update p [] = t :=
  rfl

@[simp] theorem update_cons (t : KeyTree κ ν) (p : List κ) (kv : κ × KeyTree κ ν)
    (vals : List (κ × KeyTree κ ν)) :
    t.update p (kv :: vals) = (t.set (p ++ [kv.1]) kv.2).update p vals :=
  rfl

/-- Seen from its path, an update writes the children of the root. -/
theorem get_update_self (t : KeyTree κ ν) (p : List κ) (vals : List (κ × KeyTree κ ν)) :
    (t.update p vals).get p = (t.get p).update [] vals := by
  induction vals generalizing t with
  | nil => rfl
  | cons kv vals ih =>
      have hfirst : (t.set (p ++ [kv.1]) kv.2).get p = (t.get p).set [kv.1] kv.2 :=
        get_set_append t p [kv.1] kv.2
      calc
        (t.update p (kv :: vals)).get p
            = ((t.set (p ++ [kv.1]) kv.2).get p).update [] vals := ih _
        _ = ((t.get p).set [kv.1] kv.2).update [] vals := by rw [hfirst]
        _ = (t.get p).update [] (kv :: vals) := rfl

theorem get_update_of_diverge {p q : List κ} (h : Diverge p q) (t : KeyTree κ ν)
    (vals : List (κ × KeyTree κ ν)) : (t.update p vals).get q = t.get q := by
  induction vals generalizing t with
  | nil => rfl
  | cons kv vals ih =>
      have hfirst : (t.set (p ++ [kv.1]) kv.2).get q = t.get q :=
        get_set_of_diverge (h.append [kv.1]) t kv.2
      simpa [hfirst] using ih (t.set (p ++ [kv.1]) kv.2)

theorem isEmpty_update_cons (t : KeyTree κ ν) (kv : κ × KeyTree κ ν)
    (vals : List (κ × KeyTree κ ν)) : (t.update [] (kv :: vals)).isEmpty = false := by
  induction vals generalizing t kv with
  | nil => rfl
  | cons kv' vals ih => exact ih _ kv'

end KeyTree

end Foundation
end AppChatAgain
