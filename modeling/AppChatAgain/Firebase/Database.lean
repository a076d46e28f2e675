import AppChatAgain.Firebase.Value

/-!
# Firebase.Database — the three subtrees of the realtime database

The app keeps everything under three keys of the root reference `ref`:

* `mess/<key>`                      : one record for each message;
* `usermess/<uid>/<partner>/<key>`  : the index of a user's messages, by partner;
* `user/<uid>`                      : one profile for each account.

Uids are made by Firebase Auth and message keys by `childByAutoId`; both are valid path strings
without a `/`, so each is one component of a path.
-/

namespace AppChatAgain
namespace Firebase

open Foundation

abbrev Database := Json

/-- `kInvalidPathCharacters`. -/
def invalidPathCharacters : List Char :=
  ['[', ']', '.', '#', '$']

/-- `FValidation.isValidPathString`. -/
def IsValidPathString (pathString : String) : Prop :=
  pathString ≠ "" ∧ ∀ c ∈ pathString.toList, c ∉ invalidPathCharacters

instance (pathString : String) : Decidable (IsValidPathString pathString) :=
  @instDecidableAnd _ _ instDecidableNot
    (List.decidableBAll (fun c => c ∉ invalidPathCharacters) pathString.toList)

/-- `child(pathString)`, which raises an exception for a string that is no path. -/
def child (pathString : String) : Except Trap String :=
  if IsValidPathString pathString then .ok pathString else .error .invalidPath

theorem child_eq_ok {p q : String} : child p = .ok q ↔ IsValidPathString p ∧ p = q := by
  unfold child
  by_cases h : IsValidPathString p <;> simp [h]

namespace Database

variable (db : Database)

/-! ## Reading -/

/-- The record `mess/k`. -/
def mess (k : String) : Json :=
  db.get ["mess", k]

/-- The profile `user/uid`. -/
def user (uid : String) : Json :=
  db.get ["user", uid]

/-- `usermess/a` has a child `b`. -/
def hasPartner (a b : String) : Bool :=
  !(db.get ["usermess", a, b]).isEmpty

/-- `usermess/a/b` has a child `k`. -/
def indexed (a b k : String) : Bool :=
  !(db.get ["usermess", a, b, k]).isEmpty

/-- A key listed under a partner lists the partner. -/
theorem hasPartner_of_indexed {a b k : String} (h : db.indexed a b k = true) :
    db.hasPartner a b = true := by
  have hsplit : db.get ["usermess", a, b, k] = (db.get ["usermess", a, b]).get [k] :=
    KeyTree.get_append db ["usermess", a, b] [k]
  cases hp : db.get ["usermess", a, b] with
  | empty =>
      -- nothing is stored below an empty path
      have hempty : db.get ["usermess", a, b, k] = .empty := by simp [hsplit, hp]
      simp [indexed, hempty, KeyTree.isEmpty] at h
  | leaf v => simp [hasPartner, hp, KeyTree.isEmpty]
  | node cs => simp [hasPartner, hp, KeyTree.isEmpty]

/-! ## What the index lists -/

/-- The children of `usermess/a`. -/
def partners (a : String) : List String :=
  (db.get ["usermess", a]).keys

/-- The children of `usermess/a/b`. -/
def keysUnder (a b : String) : List String :=
  (db.get ["usermess", a, b]).keys

/-- The children of every `usermess/a/b`, under `b`. -/
def indexKeys (a : String) : List (String × String) :=
  (db.partners a).flatMap fun b => (db.keysUnder a b).map (Prod.mk b)

theorem nodup_partners (a : String) : (db.partners a).Nodup :=
  KeyTree.nodup_keys _

theorem nodup_keysUnder (a b : String) : (db.keysUnder a b).Nodup :=
  KeyTree.nodup_keys _

theorem mem_partners {a b : String} : b ∈ db.partners a ↔ db.hasPartner a b = true := by
  have hread : db.get ["usermess", a, b] = (db.get ["usermess", a]).child b := rfl
  simp [partners, KeyTree.mem_keys, hasPartner, hread]

theorem mem_keysUnder {a b k : String} : k ∈ db.keysUnder a b ↔ db.indexed a b k = true := by
  have hread : db.get ["usermess", a, b, k] = (db.get ["usermess", a, b]).child k := rfl
  simp [keysUnder, KeyTree.mem_keys, indexed, hread]

theorem map_snd_indexKeys (a : String) :
    (db.indexKeys a).map Prod.snd = (db.partners a).flatMap (db.keysUnder a) := by
  simp [indexKeys, List.map_flatMap, Function.comp_def]

theorem mem_indexKeys {a b k : String} :
    (b, k) ∈ db.indexKeys a ↔ db.indexed a b k = true := by
  constructor
  · intro h
    simp only [indexKeys, List.mem_flatMap, List.mem_map, Prod.mk.injEq] at h
    rcases h with ⟨b', _, k', hk', rfl, rfl⟩
    exact db.mem_keysUnder.1 hk'
  · intro h
    refine List.mem_flatMap.2 ⟨b, db.mem_partners.2 (db.hasPartner_of_indexed h), ?_⟩
    exact List.mem_map_of_mem (db.mem_keysUnder.2 h)

theorem nodup_indexKeys (a : String) : (db.indexKeys a).Nodup := by
  refine List.nodup_flatMap.2 ⟨?_, ?_⟩
  · intro b _
    exact (db.nodup_keysUnder a b).map (Prod.mk_right_injective b)
  · refine (db.nodup_partners a).imp ?_
    intro b b' hne pk hpk hpk'
    -- the entries of different partners differ in the partner
    rcases List.mem_map.1 hpk with ⟨k, _, rfl⟩
    rcases List.mem_map.1 hpk' with ⟨k', _, heq⟩
    exact hne (Prod.mk.inj heq).1.symm

/-! ## Writing -/

/-- `ref.child("mess").child(k).updateChildValues(fields)`. -/
def updateMess (k : String) (fields : List (String × Json)) : Database :=
  db.update ["mess", k] fields

/-- `ref.child("usermess").child(a).child(b).updateChildValues([k: 1])`. -/
def addIndex (a b k : String) : Database :=
  db.update ["usermess", a, b] [(k, Json.number (NSNumber.ofInt 1))]

/-- `ref.child("user").child(uid).setValue(profile)`. -/
def setUser (uid : String) (profile : Json) : Database :=
  db.set ["user", uid] profile

/-! ### `updateMess` -/

theorem mess_updateMess_self (k : String) (fields : List (String × Json)) :
    (db.updateMess k fields).mess k = (db.mess k).update [] fields :=
  KeyTree.get_update_self db ["mess", k] fields

@[simp] theorem mess_updateMess_of_ne {j k : String} (h : k ≠ j) (fields : List (String × Json)) :
    (db.updateMess k fields).mess j = db.mess j :=
  KeyTree.get_update_of_diverge (by simp [h]) db fields

@[simp] theorem indexed_updateMess (k : String) (fields : List (String × Json)) (a b j : String) :
    (db.updateMess k fields).indexed a b j = db.indexed a b j := by
  have hread : (db.updateMess k fields).get ["usermess", a, b, j] =
      db.get ["usermess", a, b, j] :=
    KeyTree.get_update_of_diverge (by simp) db fields
  simp [indexed, hread]

@[simp] theorem hasPartner_updateMess (k : String) (fields : List (String × Json))
    (a b : String) : (db.updateMess k fields).hasPartner a b = db.hasPartner a b := by
  have hread : (db.updateMess k fields).get ["usermess", a, b] = db.get ["usermess", a, b] :=
    KeyTree.get_update_of_diverge (by simp) db fields
  simp [hasPartner, hread]

@[simp] theorem user_updateMess (k : String) (fields : List (String × Json)) (uid : String) :
    (db.updateMess k fields).user uid = db.user uid :=
  KeyTree.get_update_of_diverge (by simp) db fields

/-! ### `addIndex` -/

@[simp] theorem mess_addIndex (a b k j : String) : (db.addIndex a b k).mess j = db.mess j :=
  KeyTree.get_update_of_diverge (by simp) db _

@[simp] theorem user_addIndex (a b k uid : String) : (db.addIndex a b k).user uid = db.user uid :=
  KeyTree.get_update_of_diverge (by simp) db _

/-- Indexing a message adds exactly its own entry. -/
theorem indexed_addIndex (a b k a' b' k' : String) :
    (db.addIndex a b k).indexed a' b' k' = true ↔
      (a' = a ∧ b' = b ∧ k' = k) ∨ db.indexed a' b' k' = true := by
  have hwrite : db.addIndex a b k =
      db.set ["usermess", a, b, k] (Json.number (NSNumber.ofInt 1)) := rfl
  by_cases h : a' = a ∧ b' = b ∧ k' = k
  · rcases h with ⟨rfl, rfl, rfl⟩
    simp [indexed, hwrite, Json.number, KeyTree.isEmpty]
  · -- any other entry lies on a path that diverges from the one written
    have hdiv : KeyTree.Diverge ["usermess", a, b, k] ["usermess", a', b', k'] := by
      by_contra hall
      have heq : a = a' ∧ b = b' ∧ k = k' := by simpa [not_or] using hall
      exact h ⟨heq.1.symm, heq.2.1.symm, heq.2.2.symm⟩
    have hread := KeyTree.get_set_of_diverge hdiv db (Json.number (NSNumber.ofInt 1))
    simp [indexed, hwrite, hread, h]

/-- Indexing a message lists its partner, and keeps the others. -/
theorem hasPartner_addIndex (a b k a' b' : String) :
    (db.addIndex a b k).hasPartner a' b' = true ↔
      (a' = a ∧ b' = b) ∨ db.hasPartner a' b' = true := by
  by_cases hab : a' = a ∧ b' = b
  · rcases hab with ⟨rfl, rfl⟩
    have hself := (db.indexed_addIndex a' b' k a' b' k).2 (Or.inl ⟨rfl, rfl, rfl⟩)
    simp [hasPartner_of_indexed _ hself]
  · have hdiv : KeyTree.Diverge ["usermess", a, b] ["usermess", a', b'] := by
      by_contra hall
      have heq : a = a' ∧ b = b' := by simpa [not_or] using hall
      exact hab ⟨heq.1.symm, heq.2.symm⟩
    have hread : (db.addIndex a b k).get ["usermess", a', b'] = db.get ["usermess", a', b'] :=
      KeyTree.get_update_of_diverge hdiv db _
    simp [hasPartner, hread, hab]

/-! ### `setUser` -/

@[simp] theorem hasPartner_setUser (uid : String) (profile : Json) (a b : String) :
    (db.setUser uid profile).hasPartner a b = db.hasPartner a b := by
  have hread : (db.setUser uid profile).get ["usermess", a, b] = db.get ["usermess", a, b] :=
    KeyTree.get_set_of_diverge (by simp) db profile
  simp [hasPartner, hread]

@[simp] theorem mess_setUser (uid : String) (profile : Json) (k : String) :
    (db.setUser uid profile).mess k = db.mess k :=
  KeyTree.get_set_of_diverge (by simp) db profile

@[simp] theorem indexed_setUser (uid : String) (profile : Json) (a b k : String) :
    (db.setUser uid profile).indexed a b k = db.indexed a b k := by
  have hread : (db.setUser uid profile).get ["usermess", a, b, k] =
      db.get ["usermess", a, b, k] :=
    KeyTree.get_set_of_diverge (by simp) db profile
  simp [indexed, hread]

theorem user_setUser (uid : String) (profile : Json) (uid' : String) :
    (db.setUser uid profile).user uid' = if uid' = uid then profile else db.user uid' := by
  by_cases h : uid' = uid
  · subst h
    have hself : (db.setUser uid' profile).user uid' = profile :=
      KeyTree.get_set_self db ["user", uid'] profile
    simpa using hself
  · have hother : (db.setUser uid profile).user uid' = db.user uid' :=
      KeyTree.get_set_of_diverge (by simp [Ne.symm h]) db profile
    simpa [h] using hother

end Database

end Firebase
end AppChatAgain
