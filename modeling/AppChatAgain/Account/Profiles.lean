import AppChatAgain.Account.Session

/-!
# Account.Profiles — the profile reader of the inbox

`get_current_user_from_firebase` forces the profile to be a dictionary with a name.  An inbox is
pushed as soon as somebody is signed in, and a registration signs its user in long before it
writes the profile.  The reader is safe exactly when every inbox that a listener pushes finds the
user's profile, and no write of an observed profile is rolled back to nothing.
-/

namespace AppChatAgain
namespace Account

open Foundation Firebase Records

/-- Whichever observer of `get_current_user_from_firebase` is called next, its callback decodes the
profile without a trap. -/
def ReadersSafe (s : Session) : Prop :=
  ∀ uid ∈ s.observers, ∃ user, userForcingName (s.view uid) = .ok user

/-- A profile with a name is stored for the uid, or on its way. -/
def HasProfile (s : Session) (uid : String) : Prop :=
  (∃ pw ∈ s.pendingWrites, pw.uid = uid) ∨ HasName (s.db.user uid)

instance (s : Session) (uid : String) : Decidable (HasProfile s uid) := by
  unfold HasProfile
  infer_instance

/-- What the event needs for the readers to stay safe: a listener that pushes an inbox finds the
profile of the current user, and behind a rejected write of an observed profile there is another
one. -/
def ProfileFirst (s : Session) : Event → Prop
  | .callListener _ => ∀ uid, s.currentUser = some uid → HasProfile s uid
  | .setValue pw false => pw.uid ∈ s.observers → HasProfile (s.rejectProfile pw) pw.uid
  | _ => True

/-! ## What the readers see -/

theorem hasName_view_iff (s : Session) (uid : String) :
    HasName (s.view uid) ↔ HasProfile s uid := by
  unfold Session.view HasProfile
  cases hfind : s.pendingWrites.find? fun pw => pw.uid = uid with
  | some pw =>
      have hmem := List.mem_of_find?_eq_some hfind
      have huid : pw.uid = uid := by simpa using List.find?_some hfind
      constructor
      · intro _
        exact Or.inl ⟨pw, hmem, huid⟩
      · intro _
        exact hasName_profileRecord _ _ _ _ _
  | none =>
      have hnone : ∀ pw ∈ s.pendingWrites, pw.uid ≠ uid := by
        simpa using hfind
      constructor
      · exact Or.inr
      · rintro (⟨pw, hmem, huid⟩ | hdb)
        · exact absurd huid (hnone pw hmem)
        · exact hdb

theorem readersSafe_iff {s : Session} :
    ReadersSafe s ↔ ∀ uid ∈ s.observers, HasProfile s uid := by
  apply forall_congr'
  intro uid
  apply forall_congr'
  intro _
  exact exists_userForcingName_iff.trans (hasName_view_iff s uid)

/-- A callback of a safe reader leaves the app running. -/
theorem ReadersSafe.stopped_valueUser {s : Session} (h : ReadersSafe s) {uid : String}
    (huid : uid ∈ s.observers) : (s.valueUser uid).stopped = s.stopped := by
  rcases h uid huid with ⟨user, huser⟩
  simp [Session.valueUser, huser]

/-- A callback of an unsafe one stops it. -/
theorem stopped_valueUser_of_not_hasProfile {s : Session} {uid : String}
    (h : ¬ HasProfile s uid) : (s.valueUser uid).stopped.isSome = true := by
  cases hdec : userForcingName (s.view uid) with
  | ok user =>
      have hname := exists_userForcingName_iff.1 ⟨user, hdec⟩
      exact absurd ((hasName_view_iff s uid).1 hname) h
  | error t => simp [Session.valueUser, hdec, Session.stop]

/-- Safety depends on the observers, the pending writes and the database only. -/
theorem readersSafe_congr {s s' : Session} (hobs : s'.observers = s.observers)
    (hpending : s'.pendingWrites = s.pendingWrites) (hdb : s'.db = s.db) :
    ReadersSafe s' ↔ ReadersSafe s := by
  simp [readersSafe_iff, HasProfile, hobs, hpending, hdb]

/-! ## Profile writes -/

theorem hasProfile_acceptProfile {s : Session} {uid : String} (h : HasProfile s uid)
    (pw : ProfileWrite) : HasProfile (s.acceptProfile pw) uid := by
  unfold HasProfile Session.acceptProfile
  by_cases huid : uid = pw.uid
  · have hnew := hasName_profileRecord pw.name pw.email pw.pass pw.avatarUrl pw.uid
    exact Or.inr (by simpa [Database.user_setUser, huid, ProfileWrite.record] using hnew)
  · rcases h with ⟨pw', hmem, rfl⟩ | hdb
    · refine Or.inl ⟨pw', (List.mem_erase_of_ne ?_).2 hmem, rfl⟩
      rintro rfl
      exact huid rfl
    · exact Or.inr (by simpa [Database.user_setUser, huid] using hdb)

/-- A rejected write matters to its own uid only. -/
theorem hasProfile_rejectProfile_of_ne {s : Session} {uid : String} (h : HasProfile s uid)
    {pw : ProfileWrite} (huid : pw.uid ≠ uid) : HasProfile (s.rejectProfile pw) uid := by
  rcases h with ⟨pw', hmem, rfl⟩ | hdb
  · refine Or.inl ⟨pw', (List.mem_erase_of_ne ?_).2 hmem, rfl⟩
    rintro rfl
    exact huid rfl
  · exact Or.inr hdb

/-! ## One event -/

/-- An event after which the readers are safe is exactly one that meets its condition. -/
theorem ReadersSafe.effect_iff {s s' : Session} {e : Event} (h : ReadersSafe s)
    (he : Effect s e s') : ReadersSafe s' ↔ ProfileFirst s e := by
  have hsame : ∀ {s' : Session}, s'.observers = s.observers →
      s'.pendingWrites = s.pendingWrites → s'.db = s.db → (ReadersSafe s' ↔ True) := by
    intro s' hobs hpending hdb
    exact iff_true_intro ((readersSafe_congr hobs hpending hdb).2 h)
  have hprofiles := readersSafe_iff.1 h
  cases he with
  | callListener j signIn hdue =>
      cases huser : s.currentUser with
      | none =>
          have hcond : ProfileFirst s (.callListener j) := by
            intro uid huid
            simp [huser] at huid
          simp only [s.callListener_of_none huser, iff_true_intro hcond]
          exact hsame rfl rfl rfl
      | some uid =>
          -- the new inbox observes the current user, and nothing has been written
          simp only [s.callListener_of_some huser, readersSafe_iff, ProfileFirst,
            Session.pushMessageController,
            huser, Option.toList_some, List.singleton_append, List.mem_cons, Option.some.injEq]
          constructor
          · rintro hsafe uid' rfl
            exact hsafe uid (Or.inl rfl)
          · rintro hfirst uid' (rfl | hmem)
            · exact hfirst uid' rfl
            · exact hprofiles uid' hmem
  | signInFailed email => exact hsame rfl rfl rfl
  | signIn email uid htold hmem => exact hsame (by simp) (by simp) (by simp)
  | handleLogout signedOut htold =>
      refine hsame ?_ ?_ ?_ <;> cases signedOut <;> simp [Session.handleLogout, Session.pushLogin]
  | moveToRegister => exact hsame rfl rfl rfl
  | registerToFirebase email pass name => exact hsame rfl rfl rfl
  | createUserFailed i imageData a hi hphase => exact hsame rfl rfl rfl
  | createUser i uid imageData a hi hphase htold hfresh =>
      simp only [Session.createdUser_eq]
      exact hsame (by simp) (by simp) (by simp)
  | putData i ok a hi hphase => exact hsame rfl rfl rfl
  | downloadUrl i url a hi hphase =>
      cases huser : s.currentUser with
      | none =>
          simp only [s.downloadedUrl_of_none huser]
          exact hsame rfl rfl rfl
      | some uid =>
          -- the profile is written before the inbox is pushed
          refine iff_of_true (readersSafe_iff.2 ?_) trivial
          simp only [s.downloadedUrl_of_some huser, Session.pushMessageController,
            Session.modifyAttempt, huser, HasProfile, Option.toList_some, List.singleton_append,
            List.mem_cons]
          rintro uid' (rfl | hmem)
          · exact Or.inl ⟨_, Or.inl rfl, rfl⟩
          · rcases hprofiles uid' hmem with ⟨pw, hpw, hpwu⟩ | hdb
            · exact Or.inl ⟨pw, Or.inr hpw, hpwu⟩
            · exact Or.inr hdb
  | setValueAccepted pw hmem =>
      refine iff_of_true (readersSafe_iff.2 ?_) trivial
      intro uid huid
      exact hasProfile_acceptProfile (hprofiles uid huid) pw
  | setValueRejected pw hmem =>
      apply readersSafe_iff.trans
      constructor
      · intro hsafe hobs
        exact hsafe pw.uid hobs
      · intro hfirst uid huid
        by_cases hpw : pw.uid = uid
        · -- what the reader saw is rolled back
          subst hpw
          exact hfirst huid
        · exact hasProfile_rejectProfile_of_ne (hprofiles uid huid) hpw
  | valueUser k uid hk =>
      rcases s.valueUser_eq uid with ⟨stopped, heq⟩
      simp only [heq]
      exact hsame rfl rfl rfl

/-! ## Runs -/

/-- In every run of the app, the readers are safe throughout exactly when every event meets its
condition. -/
theorem readersSafe_iff_profileFirst (accounts : List (String × String)) (db : Database)
    (persisted : Option String) (es : List Event) :
    Step.Throughout step ReadersSafe (launch accounts db persisted) es ↔
      Step.Along step (fun s e _ => ProfileFirst s e) (launch accounts db persisted) es := by
  refine Step.throughout_iff_along (I := fun _ => True) (fun _ _ _ _ _ => trivial) ?_ trivial ?_
  · intro s e s' _ h hs
    exact h.effect_iff (effect_of_step hs).2
  · intro uid huid
    simp [launch] at huid

/-- Carol registers; her account is created, and the login screen's listener is called. -/
def register : List Event :=
  [.callListener 0, .moveToRegister, .registerToFirebase "carol@chat" "secret" "Carol",
    .createUser 0 (some "carol") (some []), .callListener 0]

/-- The inbox that it pushes has no profile to read. -/
theorem register_not_readersSafe :
    ¬ ∀ es : List Event, Step.Throughout step ReadersSafe (launch [] .empty none) es := by
  intro h
  obtain ⟨s, hrun⟩ : ∃ s, Step.run step (launch [] .empty none) register = some s := ⟨_, rfl⟩
  have hsafe := h register register [] s (by simp) hrun
  cases hrun
  rcases hsafe "carol" (by decide) with ⟨user, huser⟩
  cases huser

/-- The app then stops in the reader's first callback. -/
example : (Step.run step (launch [] .empty none)
    [.callListener 0, .registerToFirebase "carol@chat" "secret" "Carol",
      .createUser 0 (some "carol") (some []), .callListener 0, .valueUser 0]).map
        Session.stopped = some (some .failedCast) := rfl

end Account
end AppChatAgain
