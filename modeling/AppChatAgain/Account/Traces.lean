import AppChatAgain.Account.Session
import AppChatAgain.Foundation.KeyedLog

/-!
# Account.Traces — what a registration leaves behind

A call of `register_to_firebase` ends where one of its callbacks returns early or traps, or with
the answer to its profile write.  Nothing that it has done is undone: an account stays, and the
alert is dismissed on the way to the profile write only.  So it leaves no trace exactly when it
ends with a complete profile, which takes the success of every one of its steps.
-/

namespace AppChatAgain
namespace Account

open Foundation Firebase Records

/-! ## The law -/

/-- The attempt has a complete profile, or neither its account nor its alert is there any more. -/
def LeavesNoTrace (s : Session) (a : Attempt) : Prop :=
  (∃ uid, a.account = some uid ∧ CompleteProfile (s.db.user uid)) ∨
    ((∀ uid, a.account = some uid → uid ∉ s.accounts.map Prod.snd) ∧ a.alert = false)

/-- An attempt that the step ends leaves no trace. -/
def EndsClean (s s' : Session) : Prop :=
  ∀ (i : ℕ) (a a' : Attempt), s.attempts[i]? = some a → s'.attempts[i]? = some a' →
    a.phase ≠ .ended → a'.phase = .ended → LeavesNoTrace s' a'

/-- The account that the attempt created has a complete profile. -/
def OwnComplete (s : Session) (i : ℕ) : Prop :=
  ∃ a uid, s.attempts[i]? = some a ∧ a.account = some uid ∧ CompleteProfile (s.db.user uid)

/-- What the event needs for an attempt that it ends to leave no trace: `createUser` succeeds, and
unless the profile of the account is complete already, the avatar has data, `putData` succeeds,
somebody is signed in when the url is there, and the profile is written, with a url and for the
account that the attempt created. -/
def EndsComplete (s : Session) : Event → Prop
  | .createUser _ none _ => False
  | .createUser _ (some uid) imageData => imageData = none → CompleteProfile (s.db.user uid)
  | .putData i ok => ok = false → OwnComplete s i
  | .downloadUrl i _ => s.currentUser = none → OwnComplete s i
  | .setValue pw true =>
      ∃ a uid, s.attempts[pw.attempt]? = some a ∧ a.account = some uid ∧
        if uid = pw.uid then pw.avatarUrl.isSome = true else CompleteProfile (s.db.user uid)
  | .setValue pw false => OwnComplete s pw.attempt
  | _ => True

/-! ## The state of an attempt -/

/-- An attempt has an account, which is not deleted, from the success of `createUser` on, and its
alert is shown before that. -/
structure Attempt.Wf (accounts : List (String × String)) (a : Attempt) : Prop where
  account : ∀ uid, a.account = some uid → uid ∈ accounts.map Prod.snd
  creating : a.phase = .creating → a.account = none
  running : a.phase ≠ .creating → a.phase ≠ .ended → a.account ≠ none
  alert : a.account = none → a.alert = true

/-- Attempts are well-formed, and a profile write without an answer is the only one of its attempt,
which waits for the answer. -/
structure Tracked (s : Session) : Prop where
  attempts : ∀ (i : ℕ) (a : Attempt), s.attempts[i]? = some a → a.Wf s.accounts
  pending : ∀ pw ∈ s.pendingWrites, ∃ a, s.attempts[pw.attempt]? = some a ∧ a.phase = .writing
  distinct : (s.pendingWrites.map ProfileWrite.attempt).Nodup

theorem tracked_launch (accounts : List (String × String)) (db : Database)
    (persisted : Option String) : Tracked (launch accounts db persisted) where
  attempts i a h := by simp [launch] at h
  pending pw h := by simp [launch] at h
  distinct := List.nodup_nil

/-- For a well-formed attempt, only a complete profile counts. -/
theorem Attempt.Wf.leavesNoTrace_iff {s : Session} {a : Attempt} (h : a.Wf s.accounts) :
    LeavesNoTrace s a ↔ ∃ uid, a.account = some uid ∧ CompleteProfile (s.db.user uid) := by
  refine ⟨?_, Or.inl⟩
  rintro (hcomplete | ⟨hgone, halert⟩)
  · exact hcomplete
  · cases hacc : a.account with
    | none =>
        -- before the account there is the alert
        simp [h.alert hacc] at halert
    | some uid => exact absurd (h.account uid hacc) (hgone uid hacc)

/-! ## Steps that modify one attempt -/

theorem endsClean_of_attempts_eq {s s' : Session} (h : s'.attempts = s.attempts) :
    EndsClean s s' := by
  intro i a a' ha ha' hrunning hended
  have hsame : a = a' := by simpa [h, ha] using ha'
  exact absurd (hsame ▸ hended) hrunning

/-- A step that modifies one attempt can end only that one. -/
theorem endsClean_iff_of_modify {s s' : Session} {i : ℕ} {f : Attempt → Attempt} {a : Attempt}
    (hmodify : s'.attempts = s.attempts.modify i f) (hi : s.attempts[i]? = some a)
    (hrunning : a.phase ≠ .ended) (hs' : Tracked s') :
    EndsClean s s' ↔ ((f a).phase = .ended →
      ∃ uid, (f a).account = some uid ∧ CompleteProfile (s'.db.user uid)) := by
  have hi' : s'.attempts[i]? = some (f a) := by
    simp [hmodify, List.getElem?_modify_eq, hi]
  have hwf := hs'.attempts i (f a) hi'
  constructor
  · intro h hended
    exact hwf.leavesNoTrace_iff.1 (h i a (f a) hi hi' hrunning hended)
  · intro h j b b' hj hj' hbrunning hbended
    by_cases hij : i = j
    · subst hij
      have hb' : f a = b' := Option.some.inj (hi'.symm.trans hj')
      subst hb'
      exact hwf.leavesNoTrace_iff.2 (h hbended)
    · -- another attempt is as it was, so it has not ended now
      have hsame : b = b' := by
        simpa [hmodify, List.getElem?_modify_ne f s.attempts hij, hj] using hj'
      exact absurd (hsame ▸ hbended) hbrunning

/-- An attempt that is not waiting for the answer to a profile write has none. -/
theorem Tracked.attempt_ne {s : Session} (h : Tracked s) {i : ℕ} {a : Attempt}
    (hi : s.attempts[i]? = some a) (hphase : a.phase ≠ .writing) {pw : ProfileWrite}
    (hmem : pw ∈ s.pendingWrites) : pw.attempt ≠ i := by
  intro hattempt
  rcases h.pending pw hmem with ⟨b, hb, hwriting⟩
  have hsame : b = a := by simpa [hattempt, hi] using hb.symm
  exact hphase (hsame ▸ hwriting)

/-- A well-formed change of one attempt, whose pending writes it accounts for. -/
theorem Tracked.modify {s s' : Session} (h : Tracked s) {i : ℕ} {f : Attempt → Attempt}
    {a : Attempt} (hi : s.attempts[i]? = some a)
    (hmodify : s'.attempts = s.attempts.modify i f)
    (haccounts : s.accounts.map Prod.snd ⊆ s'.accounts.map Prod.snd)
    (hwf : (f a).Wf s'.accounts)
    (hpending : ∀ pw ∈ s'.pendingWrites, (pw.attempt = i ∧ (f a).phase = .writing) ∨
      (pw.attempt ≠ i ∧ pw ∈ s.pendingWrites))
    (hdistinct : (s'.pendingWrites.map ProfileWrite.attempt).Nodup) : Tracked s' where
  attempts j b hj := by
    by_cases hij : i = j
    · subst hij
      have hb : f a = b := by simpa [hmodify, List.getElem?_modify_eq, hi] using hj
      exact hb ▸ hwf
    · have hold : s.attempts[j]? = some b := by
        simpa [hmodify, List.getElem?_modify_ne f s.attempts hij] using hj
      have hb := h.attempts j b hold
      exact ⟨fun uid huid => haccounts (hb.account uid huid), hb.creating, hb.running, hb.alert⟩
  pending pw hmem := by
    rcases hpending pw hmem with ⟨rfl, hwriting⟩ | ⟨hne, hold⟩
    · have hnew : s'.attempts[pw.attempt]? = some (f a) := by
        simp [hmodify, List.getElem?_modify_eq, hi]
      exact ⟨f a, hnew, hwriting⟩
    · rcases h.pending pw hold with ⟨b, hb, hwriting⟩
      have hsame : s'.attempts[pw.attempt]? = some b := by
        simpa [hmodify, List.getElem?_modify_ne f s.attempts (Ne.symm hne)] using hb
      exact ⟨b, hsame, hwriting⟩
  distinct := hdistinct

/-- The attempt ends before its profile write. -/
theorem Tracked.modify_of_ne_writing {s s' : Session} (h : Tracked s) {i : ℕ}
    {f : Attempt → Attempt} {a : Attempt} (hi : s.attempts[i]? = some a)
    (hphase : a.phase ≠ .writing) (hmodify : s'.attempts = s.attempts.modify i f)
    (haccounts : s.accounts.map Prod.snd ⊆ s'.accounts.map Prod.snd)
    (hwf : (f a).Wf s'.accounts) (hpending : s'.pendingWrites = s.pendingWrites) : Tracked s' := by
  apply h.modify hi hmodify haccounts hwf
  · intro pw hmem
    have hold : pw ∈ s.pendingWrites := by simpa only [hpending] using hmem
    exact Or.inr ⟨h.attempt_ne hi hphase hold, hold⟩
  · simpa only [hpending] using h.distinct

theorem Tracked.congr {s s' : Session} (h : Tracked s) (hattempts : s'.attempts = s.attempts)
    (haccounts : s'.accounts = s.accounts) (hpending : s'.pendingWrites = s.pendingWrites) :
    Tracked s' where
  attempts := by simpa only [hattempts, haccounts] using h.attempts
  pending := by simpa only [hattempts, hpending] using h.pending
  distinct := by simpa only [hpending] using h.distinct

/-- The answer to a profile write ends its attempt. -/
theorem Tracked.answer {s s' : Session} (h : Tracked s) {pw : ProfileWrite}
    (hmem : pw ∈ s.pendingWrites)
    (hmodify : s'.attempts = s.attempts.modify pw.attempt fun a => { a with phase := .ended })
    (haccounts : s'.accounts = s.accounts)
    (hpending : s'.pendingWrites = s.pendingWrites.erase pw) : Tracked s' := by
  rcases h.pending pw hmem with ⟨a, hi, hphase⟩
  have hwf := h.attempts _ a hi
  apply h.modify hi hmodify (by simp [haccounts])
  · simp only [haccounts]
    exact ⟨hwf.account, nofun, fun _ hne => absurd rfl hne, hwf.alert⟩
  · -- no other write is of this attempt
    intro pw' hmem'
    have herased : pw' ∈ s.pendingWrites.erase pw := by simpa only [hpending] using hmem'
    exact Or.inr ⟨key_ne_of_mem_erase h.distinct hmem herased, List.mem_of_mem_erase herased⟩
  · simpa only [hpending] using h.distinct.sublist (List.erase_sublist.map _)

/-! ## One event -/

theorem Tracked.effect {s s' : Session} {e : Event} (h : Tracked s) (he : Effect s e s') :
    Tracked s' := by
  cases he with
  | callListener j signIn hdue => exact h.congr (by simp) (by simp) (by simp)
  | signInFailed email => exact h
  | signIn email uid htold hmem => exact h.congr (by simp) (by simp) (by simp)
  | handleLogout signedOut htold =>
      apply h.congr <;> cases signedOut <;> simp [Session.handleLogout, Session.pushLogin]
  | moveToRegister => exact h.congr rfl rfl rfl
  | registerToFirebase email pass name =>
      refine ⟨?_, ?_, h.distinct⟩
      · intro j b hj
        rcases List.mem_append.1 (List.mem_of_getElem? hj) with hold | hnew
        · rcases List.mem_iff_getElem?.1 hold with ⟨k, hk⟩
          exact h.attempts k b hk
        · cases List.mem_singleton.1 hnew
          exact ⟨nofun, fun _ => rfl, fun hne => absurd rfl hne, fun _ => rfl⟩
      · intro pw hmem
        rcases h.pending pw hmem with ⟨b, hb, hwriting⟩
        rcases List.getElem?_eq_some_iff.1 hb with ⟨hlt, _⟩
        exact ⟨b, (List.getElem?_append_left hlt).trans hb, hwriting⟩
  | createUserFailed i imageData a hi hphase =>
      have hwf := h.attempts i a hi
      refine h.modify_of_ne_writing hi (by simp [hphase]) rfl (List.Subset.refl _) ?_ rfl
      exact ⟨hwf.account, nofun, fun _ hne => absurd rfl hne, hwf.alert⟩
  | createUser i uid imageData a hi hphase htold hfresh =>
      simp only [Session.createdUser_eq]
      refine h.modify_of_ne_writing hi (by simp [hphase]) rfl (List.subset_cons_self _ _) ?_
        (by simp)
      -- the alert is dismissed later only, but from now on there is an account
      refine ⟨?_, ?_, nofun, nofun⟩
      · intro uid' huid'
        cases huid'
        exact List.mem_cons_self
      · intro hcreating
        cases imageData <;> cases hcreating
  | putData i ok a hi hphase =>
      have hwf := h.attempts i a hi
      have hacc : a.account ≠ none := hwf.running (by simp [hphase]) (by simp [hphase])
      refine h.modify_of_ne_writing hi (by simp [hphase]) rfl (List.Subset.refl _) ?_ rfl
      refine ⟨hwf.account, ?_, fun _ _ => hacc, fun hnone => absurd hnone hacc⟩
      intro hcreating
      cases ok <;> cases hcreating
  | downloadUrl i url a hi hphase =>
      have hwf := h.attempts i a hi
      have hacc : a.account ≠ none := hwf.running (by simp [hphase]) (by simp [hphase])
      cases huser : s.currentUser with
      | none =>
          simp only [s.downloadedUrl_of_none huser]
          refine h.modify_of_ne_writing hi (by simp [hphase]) rfl (List.Subset.refl _) ?_ rfl
          exact ⟨hwf.account, nofun, fun _ _ => hacc, hwf.alert⟩
      | some uid =>
          -- the write that is issued is the only one of this attempt
          simp only [s.downloadedUrl_of_some huser]
          refine h.modify hi rfl (List.Subset.refl _) ?_ ?_ ?_
          · exact ⟨hwf.account, nofun, fun _ _ => hacc, fun hnone => absurd hnone hacc⟩
          · intro pw hmem
            rcases List.mem_cons.1 hmem with rfl | hold
            · exact Or.inl ⟨rfl, rfl⟩
            · exact Or.inr ⟨h.attempt_ne hi (by simp [hphase]) hold, hold⟩
          · apply List.nodup_cons.2
            refine ⟨?_, h.distinct⟩
            intro hmem
            rcases List.mem_map.1 hmem with ⟨pw, hpw, hattempt⟩
            exact h.attempt_ne hi (by simp [hphase]) hpw hattempt
  | setValueAccepted pw hmem => exact h.answer hmem rfl rfl rfl
  | setValueRejected pw hmem => exact h.answer hmem rfl rfl rfl
  | valueUser k uid hk =>
      rcases s.valueUser_eq uid with ⟨stopped, heq⟩
      simp only [heq]
      exact h.congr rfl rfl rfl

/-- A profile write is complete if it has the url of the avatar. -/
theorem completeProfile_acceptProfile (s : Session) (pw : ProfileWrite) (uid : String) :
    CompleteProfile ((s.acceptProfile pw).db.user uid) ↔
      if uid = pw.uid then pw.avatarUrl.isSome = true else CompleteProfile (s.db.user uid) := by
  simp only [Session.acceptProfile, Database.user_setUser]
  by_cases huid : uid = pw.uid
  · simp only [if_pos huid]
    exact completeProfile_profileRecord _ _ _ _ _
  · simp only [if_neg huid]

/-- A step that leaves its attempt unended, or ends it complete, is what the condition asks for. -/
theorem Tracked.endsClean_iff {s s' : Session} {e : Event} (h : Tracked s) (he : Effect s e s') :
    EndsClean s s' ↔ EndsComplete s e := by
  have hs' : Tracked s' := h.effect he
  have hown : ∀ {i : ℕ} {a : Attempt}, s.attempts[i]? = some a →
      ((∃ uid, a.account = some uid ∧ CompleteProfile (s.db.user uid)) ↔ OwnComplete s i) := by
    intro i a hi
    constructor
    · rintro ⟨uid, hacc, hcomplete⟩
      exact ⟨a, uid, hi, hacc, hcomplete⟩
    · rintro ⟨b, uid, hb, hacc, hcomplete⟩
      cases hi.symm.trans hb
      exact ⟨uid, hacc, hcomplete⟩
  cases he with
  | callListener j signIn hdue =>
      exact iff_of_true (endsClean_of_attempts_eq (s.attempts_callListener j signIn)) trivial
  | signInFailed email => exact iff_of_true (endsClean_of_attempts_eq rfl) trivial
  | signIn email uid htold hmem =>
      exact iff_of_true (endsClean_of_attempts_eq (s.attempts_setCurrentUser _)) trivial
  | handleLogout signedOut htold =>
      refine iff_of_true (endsClean_of_attempts_eq ?_) trivial
      cases signedOut <;> simp [Session.handleLogout, Session.pushLogin]
  | moveToRegister => exact iff_of_true (endsClean_of_attempts_eq rfl) trivial
  | registerToFirebase email pass name =>
      refine iff_of_true ?_ trivial
      intro i a a' hi hi' hrunning hended
      rcases List.getElem?_eq_some_iff.1 hi with ⟨hlt, _⟩
      have hsame : (s.registerToFirebase email pass name).attempts[i]? = some a :=
        (List.getElem?_append_left hlt).trans hi
      cases hsame.symm.trans hi'
      exact absurd hended hrunning
  | createUserFailed i imageData a hi hphase =>
      -- there is no account, but the alert stays
      have hnone : a.account = none := (h.attempts i a hi).creating hphase
      apply (endsClean_iff_of_modify rfl hi (by simp [hphase]) hs').trans
      simp [EndsComplete, hnone]
  | createUser i uid imageData a hi hphase htold hfresh =>
      simp only [Session.createdUser_eq] at hs' ⊢
      apply (endsClean_iff_of_modify rfl hi (by simp [hphase]) hs').trans
      -- without data the attempt ends here, and the profile would have to be there already
      cases imageData <;> simp [EndsComplete]
  | putData i ok a hi hphase =>
      apply (endsClean_iff_of_modify rfl hi (by simp [hphase]) hs').trans
      cases ok with
      | true => simp [EndsComplete]
      | false => simpa [EndsComplete, Session.modifyAttempt] using hown hi
  | downloadUrl i url a hi hphase =>
      cases huser : s.currentUser with
      | none =>
          simp only [s.downloadedUrl_of_none huser] at hs' ⊢
          apply (endsClean_iff_of_modify rfl hi (by simp [hphase]) hs').trans
          simpa [EndsComplete, huser, Session.trapIn, Session.modifyAttempt, Session.stop]
            using hown hi
      | some uid =>
          -- the attempt goes on to wait for the answer to its profile write
          simp only [s.downloadedUrl_of_some huser] at hs' ⊢
          apply (endsClean_iff_of_modify rfl hi (by simp [hphase]) hs').trans
          simp [EndsComplete, huser]
  | setValueAccepted pw hmem =>
      rcases h.pending pw hmem with ⟨a, hi, hphase⟩
      apply (endsClean_iff_of_modify rfl hi (by simp [hphase]) hs').trans
      -- the write need not be for the account of its attempt
      simp only [Session.modifyAttempt, completeProfile_acceptProfile, EndsComplete, hi]
      constructor
      · intro hclean
        rcases hclean trivial with ⟨uid, hacc, hcomplete⟩
        exact ⟨a, uid, rfl, hacc, hcomplete⟩
      · rintro ⟨b, uid, hb, hacc, hcomplete⟩ _
        cases hb
        exact ⟨uid, hacc, hcomplete⟩
  | setValueRejected pw hmem =>
      rcases h.pending pw hmem with ⟨a, hi, hphase⟩
      apply (endsClean_iff_of_modify rfl hi (by simp [hphase]) hs').trans
      simpa [EndsComplete, Session.rejectProfile, Session.modifyAttempt] using hown hi
  | valueUser k uid hk =>
      rcases s.valueUser_eq uid with ⟨stopped, heq⟩
      exact iff_of_true (endsClean_of_attempts_eq (by simp only [heq])) trivial

/-! ## Runs -/

/-- In every run of the app, every attempt that ends leaves no trace exactly when every event meets
its condition. -/
theorem endsClean_iff_endsComplete (accounts : List (String × String)) (db : Database)
    (persisted : Option String) (es : List Event) :
    Step.Along step (fun s _ s' => EndsClean s s') (launch accounts db persisted) es ↔
      Step.Along step (fun s e _ => EndsComplete s e) (launch accounts db persisted) es := by
  refine Step.along_congr (I := Tracked) ?_ ?_ (tracked_launch accounts db persisted)
  · intro s e s' h hs
    exact h.effect (effect_of_step hs).2
  · intro s e s' h hs
    exact h.endsClean_iff (effect_of_step hs).2

/-- Carol registers, and the upload of her avatar fails. -/
def uploadFails : List Event :=
  [.callListener 0, .moveToRegister, .registerToFirebase "carol@chat" "secret" "Carol",
    .createUser 0 (some "carol") (some []), .putData 0 false]

/-- Her account and the alert stay, without a profile. -/
theorem uploadFails_not_endsClean :
    ¬ ∀ es : List Event,
      Step.Along step (fun s _ s' => EndsClean s s') (launch [] .empty none) es := by
  intro h
  obtain ⟨s, s', hrun, hstep⟩ : ∃ s s',
      Step.run step (launch [] .empty none) (uploadFails.take 4) = some s ∧
        step s (.putData 0 false) = some s' := ⟨_, _, rfl, rfl⟩
  have hclean := h uploadFails _ _ [] s s' rfl hrun hstep
  cases hrun
  cases hstep
  rcases hclean 0 _ _ rfl rfl (by decide) rfl with ⟨uid, hacc, hprofile⟩ | ⟨_, halert⟩
  · cases hacc
    exact absurd hprofile (by decide)
  · cases halert

/-- No later attempt with her e-mail can get an account. -/
example : Step.run step (launch [] .empty none)
    [.callListener 0, .registerToFirebase "carol@chat" "secret" "Carol",
      .createUser 0 (some "carol") (some []), .putData 0 false, .callListener 0,
      .registerToFirebase "carol@chat" "secret" "Carol",
      .createUser 1 (some "carol2") (some [])] = none := rfl

end Account
end AppChatAgain
