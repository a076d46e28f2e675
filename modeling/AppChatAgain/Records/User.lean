import AppChatAgain.Firebase.Database

/-!
# Records.User — profile records, their encoder and decoders

`register_to_firebase` writes the profile `user/<uid>`; every screen decodes it for itself.

* `userForcingName` : the decoder shared by `get_current_user_from_firebase`, the row selection of
  `message_controller` and the inbox cells: the dictionary and the name are forced;
* `userForcingAll`  : the decoder of `new_message`, which forces the password and e-mail as well;
* `userDefaulting`  : the decoder of `get_data_current_user_to_firebase`, which forces nothing.
-/

namespace AppChatAgain
namespace Records

open Foundation Firebase

/-- `class User`.  Both initialisers set every field. -/
structure User where
  id : String
  name : String
  email : String
  pass : String
  avatarUrl : String
  deriving DecidableEq, Repr

/-! ## Decoders -/

/-- The decoding of `user/<uid>` with `snap.value as! NSDictionary` and `name!`. -/
def userForcingName (snap : Json) : Except Trap User := do
  let mangtemp ← forceCast snap.asNSDictionary
  let avatarUrl := (mangtemp.field "avatar_url").asString
  let email := (mangtemp.field "email").asString
  let id := (mangtemp.field "id").asString
  let name := (mangtemp.field "name").asString
  let pass := (mangtemp.field "pass").asString
  let name ← forceUnwrap name
  return {
    id := id.getD ""
    name := name
    email := email.getD ""
    pass := pass.getD ""
    avatarUrl := avatarUrl.getD "" }

/-- The decoding in `new_message.get_data_from_firebase`. -/
def userForcingAll (snap : Json) : Except Trap User := do
  let mangtemp ← forceCast snap.asNSDictionary
  let name ← forceCast (mangtemp.field "name").asString
  let pass ← forceCast (mangtemp.field "pass").asString
  let email ← forceCast (mangtemp.field "email").asString
  let avatarUrl := (mangtemp.field "avatar_url").asString
  let id := (mangtemp.field "id").asString
  return {
    id := id.getD ""
    name := name
    email := email
    pass := pass
    avatarUrl := avatarUrl.getD "" }

/-- The decoding in `message_controller.get_data_current_user_to_firebase`. -/
def userDefaulting (snap : Json) : User :=
  let mangtemp := snap.asNSDictionary
  let avatarUrl := mangtemp.bind fun d => (d.field "avatar_url").asString
  let email := mangtemp.bind fun d => (d.field "email").asString
  let id := mangtemp.bind fun d => (d.field "id").asString
  let name := mangtemp.bind fun d => (d.field "name").asString
  let pass := mangtemp.bind fun d => (d.field "pass").asString
  { id := id.getD ""
    name := name.getD ""
    email := email.getD ""
    pass := pass.getD ""
    avatarUrl := avatarUrl.getD "" }

/-- The profile is a dictionary with a name. -/
def HasName (snap : Json) : Prop :=
  (snap.field "name").asString.isSome

instance (snap : Json) : Decidable (HasName snap) := by
  unfold HasName
  infer_instance

/-- The name is all that `userForcingName` needs. -/
theorem exists_userForcingName_iff {snap : Json} :
    (∃ user, userForcingName snap = .ok user) ↔ HasName snap := by
  constructor
  · rintro ⟨user, h⟩
    -- the two forced steps: the dictionary, then the name
    rcases bind_eq_ok.1 h with ⟨d, hd, h⟩
    rcases bind_eq_ok.1 h with ⟨name, hname, _⟩
    have hds : d = snap := Json.eq_of_asNSDictionary (forceCast_eq_ok.1 hd)
    have hsome : (d.field "name").asString = some name := forceUnwrap_eq_ok.1 hname
    simp [HasName, ← hds, hsome]
  · intro h
    rcases Option.isSome_iff_exists.1 h with ⟨name, hname⟩
    have hd : snap.asNSDictionary = some snap := Json.asNSDictionary_of_field hname
    refine ⟨_, bind_eq_ok.2 ⟨snap, by simp [hd], bind_eq_ok.2 ⟨name, by simp [hname], rfl⟩⟩⟩

/-! ## Encoder -/

/-- The dictionary `user` of `register_to_firebase`; `setValue` drops the entry of a `nil` url. -/
def profileFields (name email pass : String) (avatarUrl : Option String) (uid : String) :
    List (String × Json) :=
  [("name", Json.string name), ("email", Json.string email), ("pass", Json.string pass),
    ("id", Json.string uid)] ++
      (avatarUrl.map fun url => ("avatar_url", Json.string url)).toList

def profileRecord (name email pass : String) (avatarUrl : Option String) (uid : String) : Json :=
  KeyTree.update .empty [] (profileFields name email pass avatarUrl uid)

/-- The user that a written profile stands for. -/
def profileUser (name email pass : String) (avatarUrl : Option String) (uid : String) : User :=
  { id := uid
    name := name
    email := email
    pass := pass
    avatarUrl := avatarUrl.getD "" }

/-- Every decoder inverts the encoder. -/
theorem userForcingName_profileRecord (name email pass : String) (avatarUrl : Option String)
    (uid : String) :
    userForcingName (profileRecord name email pass avatarUrl uid) =
      .ok (profileUser name email pass avatarUrl uid) := by
  cases avatarUrl <;> rfl

theorem userForcingAll_profileRecord (name email pass : String) (avatarUrl : Option String)
    (uid : String) :
    userForcingAll (profileRecord name email pass avatarUrl uid) =
      .ok (profileUser name email pass avatarUrl uid) := by
  cases avatarUrl <;> rfl

theorem userDefaulting_profileRecord (name email pass : String) (avatarUrl : Option String)
    (uid : String) :
    userDefaulting (profileRecord name email pass avatarUrl uid) =
      profileUser name email pass avatarUrl uid := by
  cases avatarUrl <;> rfl

/-- Every field that a registration stores is there. -/
def CompleteProfile (snap : Json) : Prop :=
  ∀ k ∈ ["name", "email", "pass", "avatar_url", "id"], (snap.field k).asString.isSome

instance (snap : Json) : Decidable (CompleteProfile snap) := by
  unfold CompleteProfile
  infer_instance

theorem hasName_profileRecord (name email pass : String) (avatarUrl : Option String)
    (uid : String) : HasName (profileRecord name email pass avatarUrl uid) := by
  cases avatarUrl <;> rfl

/-- A written profile is complete exactly when the download URL was there. -/
theorem completeProfile_profileRecord (name email pass : String) (avatarUrl : Option String)
    (uid : String) :
    CompleteProfile (profileRecord name email pass avatarUrl uid) ↔ avatarUrl.isSome := by
  cases avatarUrl with
  | none =>
      constructor
      · intro h
        -- without a url there is no entry, since `setValue` drops it
        have hurl := h "avatar_url" (by simp)
        simp [profileRecord, profileFields, KeyTree.child_set_cons] at hurl
      · intro h
        cases h
  | some url =>
      constructor
      · intro _
        rfl
      · intro _ k hk
        simp only [List.mem_cons, List.not_mem_nil, or_false] at hk
        rcases hk with rfl | rfl | rfl | rfl | rfl <;> rfl

end Records
end AppChatAgain
