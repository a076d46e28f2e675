import Mathlib.Data.List.Dedup
import Mathlib.Data.List.Induction
import Mathlib.Data.List.Nodup
import Mathlib.Data.List.Perm.Basic

/-!
# KeyedLog — logs of keyed versions

A keyed log is a list of pairs: each entry is a new version of the value under its key.

* `latest`  : the version of a key that the log ends with;
* `current` : the latest version of every key, each key once.

A log lists the same values as its current view exactly when no key occurs in it twice.
-/

namespace AppChatAgain
namespace Foundation
namespace KeyedLog

universe u v

variable {κ : Type u} {α : Type v} [DecidableEq κ]

/-- The last version of the key in the log. -/
def latest (log : List (κ × α)) (k : κ) : Option α :=
  log.reverse.lookup k

/-- The latest version of every key of the log. -/
def current (log : List (κ × α)) : List α :=
  (log.map Prod.fst).dedup.filterMap (latest log)

/-! ## The latest version -/

@[simp] theorem latest_nil (k : κ) : latest ([] : List (κ × α)) k = none :=
  rfl

theorem latest_concat (log : List (κ × α)) (j k : κ) (a : α) :
    latest (log ++ [(j, a)]) k = if k = j then some a else latest log k := by
  by_cases h : k = j
  · simp [latest, h]
  · have hb : (k == j) = false := by simp [h]
    simp [latest, List.lookup_cons, hb, h]

/-- A key with one version in the log has it as its latest. -/
theorem latest_of_forall_eq {log : List (κ × α)} {k : κ} {a : α} (h : (k, a) ∈ log)
    (hone : ∀ b, (k, b) ∈ log → b = a) : latest log k = some a := by
  induction log using List.reverseRecOn with
  | nil => simp at h
  | append_singleton log e ih =>
      rcases e with ⟨j, b⟩
      by_cases hk : k = j
      · subst hk
        have hb : b = a := hone b (by simp)
        simp [latest_concat, hb]
      · -- an older entry: the key is not the one written last
        have hmem : (k, a) ∈ log := by
          rcases List.mem_append.1 h with hold | hnew
          · exact hold
          · exact absurd (congrArg Prod.fst (List.mem_singleton.1 hnew)) hk
        have hold := ih hmem fun b' hb' => hone b' (List.mem_append_left _ hb')
        simpa [latest_concat, hk] using hold

/-- In a log without repeated keys every entry is the latest version of its key. -/
theorem latest_of_mem {log : List (κ × α)} (hnd : (log.map Prod.fst).Nodup) {k : κ} {a : α}
    (h : (k, a) ∈ log) : latest log k = some a := by
  refine latest_of_forall_eq h ?_
  intro b hb
  exact congrArg Prod.snd (List.inj_on_of_nodup_map hnd hb h rfl)

/-! ## The current view -/

/-- The log lists exactly its current view when, and only when, no key occurs twice. -/
theorem perm_current_iff (log : List (κ × α)) :
    (log.map Prod.snd).Perm (current log) ↔ (log.map Prod.fst).Nodup := by
  constructor
  · intro h
    -- the view has at most one entry for each distinct key
    have hle : (current log).length ≤ (log.map Prod.fst).dedup.length :=
      List.length_filterMap_le _ _
    have hlen : (log.map Prod.fst).dedup.length = (log.map Prod.fst).length := by
      refine Nat.le_antisymm (List.dedup_sublist _).length_le ?_
      calc
        (log.map Prod.fst).length = (log.map Prod.snd).length := by simp
        _ = (current log).length := h.length_eq
        _ ≤ (log.map Prod.fst).dedup.length := hle
    have hdedup : (log.map Prod.fst).dedup = log.map Prod.fst :=
      (List.dedup_sublist _).eq_of_length hlen
    exact List.dedup_eq_self.1 hdedup
  · intro hnd
    -- nothing is dropped, and every entry is the latest one of its key
    have hcur : current log = log.map Prod.snd := by
      rw [current, List.dedup_eq_self.2 hnd, List.filterMap_map, ← List.filterMap_eq_map]
      refine List.filterMap_congr ?_
      intro e he
      exact latest_of_mem hnd he
    exact hcur ▸ List.Perm.refl _

end KeyedLog

/-- In a list without equal keys, the other entries have other keys. -/
theorem key_ne_of_mem_erase {α : Type*} {κ : Type*} [DecidableEq α] {key : α → κ} {l : List α}
    (hnd : (l.map key).Nodup) {a b : α} (ha : a ∈ l) (hb : b ∈ l.erase a) : key b ≠ key a := by
  intro hkey
  have hba : b = a := List.inj_on_of_nodup_map hnd (List.mem_of_mem_erase hb) ha hkey
  subst hba
  exact (List.Nodup.of_map key hnd).not_mem_erase hb

end Foundation
end AppChatAgain
