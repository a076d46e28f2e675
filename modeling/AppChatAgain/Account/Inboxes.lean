import AppChatAgain.Account.Session

/-!
# Account.Inboxes — how many inboxes a sign-in pushes

A sign-in pushes one inbox for each listener, since every listener of a `login` screen pushes one.
`handle_logout` pushes a further login screen and its listener stays, and a registration pushes an
inbox of its own besides those of the listeners.  So a sign-in pushes exactly one inbox if there
is one listener, and no registration that signed the user in gets to its own push.
-/

namespace AppChatAgain
namespace Account

open Foundation Firebase Records

/-- The inboxes of the sign-in `n`: those pushed, and those whose push is due. -/
def inboxes (n : ℕ) (s : Session) : ℕ :=
  s.stack.count (.messageController (some n)) + s.listeners.count (.due (some n))

/-- Every sign-in so far pushes exactly one inbox. -/
def OneInbox (s : Session) : Prop :=
  ∀ n < s.signIns, inboxes n s = 1

/-- What the event needs for every sign-in to push one inbox: a sign-in finds one listener, and a
registration that pushes an inbox has not signed its user in. -/
def SinglePush (s : Session) : Event → Prop
  | .signIn _ (some _) => s.currentUser = none → s.listeners.length = 1
  | .createUser _ (some _) _ => s.currentUser = none → s.listeners.length = 1
  | .downloadUrl i _ =>
      s.currentUser ≠ none → ∀ a, s.attempts[i]? = some a → a.signIn = none
  | _ => True

/-- The sign-ins that are recorded anywhere have happened, and one whose push is due is the last
change of the current uid. -/
structure Recorded (s : Session) : Prop where
  due : ∀ n, .due (some n) ∈ s.listeners → n < s.signIns ∧ s.currentUser ≠ none
  stack : ∀ n, .messageController (some n) ∈ s.stack → n < s.signIns
  attempts : ∀ a ∈ s.attempts, ∀ n, a.signIn = some n → n < s.signIns

theorem recorded_launch (accounts : List (String × String)) (db : Database)
    (persisted : Option String) : Recorded (launch accounts db persisted) where
  due n h := by simp [launch] at h
  stack n h := by simp [launch] at h
  attempts a h := by simp [launch] at h

theorem oneInbox_launch (accounts : List (String × String)) (db : Database)
    (persisted : Option String) : OneInbox (launch accounts db persisted) := by
  intro n hn
  simp [launch] at hn

theorem count_due_of_told {s : Session} (htold : s.Told) (n : ℕ) :
    s.listeners.count (.due (some n)) = 0 := by
  apply List.count_eq_zero.2
  intro hmem
  cases htold _ hmem

/-- When every listener has been called, every sign-in has pushed exactly one inbox. -/
theorem OneInbox.of_told {s : Session} (h : OneInbox s) (htold : s.Told) {n : ℕ}
    (hn : n < s.signIns) : s.stack.count (.messageController (some n)) = 1 := by
  have hdue := count_due_of_told htold n
  simpa [inboxes, hdue] using h n hn

theorem oneInbox_congr {s s' : Session} (hstack : s'.stack = s.stack)
    (hlisteners : s'.listeners = s.listeners) (hsignIns : s'.signIns = s.signIns) :
    OneInbox s' ↔ OneInbox s := by
  simp [OneInbox, inboxes, hstack, hlisteners, hsignIns]

/-! ## Changing the current uid -/

theorem signIns_setCurrentUser (s : Session) (uid : Option String) :
    (s.setCurrentUser uid).signIns =
      if s.currentUser = none ∧ uid ≠ none then s.signIns + 1 else s.signIns := by
  by_cases heq : s.currentUser = uid
  · have hnot : ¬ (s.currentUser = none ∧ uid ≠ none) := fun hin => hin.2 (heq ▸ hin.1)
    simp only [Session.setCurrentUser, if_pos heq, if_neg hnot]
  · simp only [Session.setCurrentUser, if_neg heq]

/-- The calls that a change of the current uid makes due are of the sign-in that it is. -/
theorem count_due_setCurrentUser {s : Session} {uid : Option String}
    (hne : s.currentUser ≠ uid) (n : ℕ) :
    (s.setCurrentUser uid).listeners.count (.due (some n)) =
      if s.signInOf uid = some n then s.listeners.length else 0 := by
  have hlisteners : (s.setCurrentUser uid).listeners =
      List.replicate s.listeners.length (.due (s.signInOf uid)) := by
    simp [Session.setCurrentUser, hne, List.map_const']
  simp [hlisteners, List.count_replicate]

/-- The sign-in that is about to happen has pushed nothing. -/
theorem Recorded.count_stack_signIns {s : Session} (h : Recorded s) :
    s.stack.count (.messageController (some s.signIns)) = 0 := by
  apply List.count_eq_zero.2
  intro hmem
  exact absurd (h.stack _ hmem) (Nat.lt_irrefl _)

/-- A sign-in has one inbox for each listener; the inboxes of the others stay as they are. -/
theorem inboxes_setCurrentUser {s : Session} (h : Recorded s) (htold : s.Told)
    (uid : Option String) (n : ℕ) :
    inboxes n (s.setCurrentUser uid) =
      if s.currentUser = none ∧ uid ≠ none ∧ n = s.signIns then s.listeners.length
      else inboxes n s := by
  by_cases heq : s.currentUser = uid
  · have hsame : s.setCurrentUser uid = s := if_pos heq
    have hnot : ¬ (s.currentUser = none ∧ uid ≠ none ∧ n = s.signIns) :=
      fun hall => hall.2.1 (heq ▸ hall.1)
    simp only [hsame, if_neg hnot]
  · have hdue := count_due_setCurrentUser heq n
    have hold := count_due_of_told htold n
    simp only [inboxes, Session.stack_setCurrentUser, hdue, hold, Session.signInOf]
    by_cases hin : s.currentUser = none ∧ uid ≠ none
    · by_cases hn : n = s.signIns
      · subst hn
        simp [hin, h.count_stack_signIns]
      · simp [hn, Ne.symm hn]
    · -- a change that is no sign-in makes calls due, but none for an inbox of a sign-in
      have hnot : ¬ (s.currentUser = none ∧ uid ≠ none ∧ n = s.signIns) :=
        fun hall => hin ⟨hall.1, hall.2.1⟩
      simp [hin, if_neg hnot]

theorem oneInbox_setCurrentUser {s : Session} (h : OneInbox s) (hr : Recorded s) (htold : s.Told)
    (uid : Option String) :
    OneInbox (s.setCurrentUser uid) ↔
      (s.currentUser = none → uid ≠ none → s.listeners.length = 1) := by
  constructor
  · intro hone hnone huid
    have hlast : s.signIns < (s.setCurrentUser uid).signIns := by
      simp [signIns_setCurrentUser, hnone, huid]
    calc
      s.listeners.length = inboxes s.signIns (s.setCurrentUser uid) := by
        simp [inboxes_setCurrentUser hr htold, hnone, huid]
      _ = 1 := hone s.signIns hlast
  · intro hlen n hn
    have hcount := inboxes_setCurrentUser hr htold uid n
    have hsignIns := signIns_setCurrentUser s uid
    by_cases hin : s.currentUser = none ∧ uid ≠ none ∧ n = s.signIns
    · -- the new sign-in pushes one inbox for each listener
      exact (hcount.trans (if_pos hin)).trans (hlen hin.1 hin.2.1)
    · have hbefore : n < s.signIns := by
        by_cases hsign : s.currentUser = none ∧ uid ≠ none
        · have hne : n ≠ s.signIns := fun hn' => hin ⟨hsign.1, hsign.2, hn'⟩
          have hlast := hsignIns.trans (if_pos hsign)
          omega
        · have hlast := hsignIns.trans (if_neg hsign)
          omega
      exact (hcount.trans (if_neg hin)).trans (h n hbefore)

theorem le_signIns_setCurrentUser (s : Session) (uid : Option String) :
    s.signIns ≤ (s.setCurrentUser uid).signIns := by
  simp only [signIns_setCurrentUser]
  split <;> omega

/-- The sign-in that a change of the current uid is counts from then on. -/
theorem lt_signIns_of_signInOf {s : Session} {uid : Option String} {n : ℕ}
    (h : s.signInOf uid = some n) : n < (s.setCurrentUser uid).signIns ∧ uid ≠ none := by
  simp only [Session.signInOf, Option.ite_none_right_eq_some, Option.some.injEq] at h
  rcases h with ⟨hin, rfl⟩
  exact ⟨by simp [signIns_setCurrentUser, hin], hin.2⟩

theorem Recorded.setCurrentUser {s : Session} (h : Recorded s) (uid : Option String) :
    Recorded (s.setCurrentUser uid) := by
  have hle := le_signIns_setCurrentUser s uid
  refine ⟨?_, ?_, ?_⟩
  · intro n hmem
    by_cases heq : s.currentUser = uid
    · have hsame : s.setCurrentUser uid = s := if_pos heq
      have hold : .due (some n) ∈ s.listeners := by simpa only [hsame] using hmem
      simpa only [hsame] using h.due n hold
    · -- the calls that were due are no more; those that are now belong to this change
      have hdue : s.signInOf uid = some n := by
        simp only [Session.setCurrentUser, if_neg heq, List.mem_map] at hmem
        rcases hmem with ⟨_, _, hl⟩
        simpa using hl
      simpa using lt_signIns_of_signInOf hdue
  · intro n hmem
    have hold : .messageController (some n) ∈ s.stack := by simpa using hmem
    exact lt_of_lt_of_le (h.stack n hold) hle
  · intro a ha n hn
    have hold : a ∈ s.attempts := by simpa using ha
    exact lt_of_lt_of_le (h.attempts a hold n hn) hle

/-! ## One event -/

/-- The call of a listener pushes the inbox that was due. -/
theorem inboxes_callListener {s : Session} (h : Recorded s) {j : ℕ} {signIn : Option ℕ}
    (hdue : s.listeners[j]? = some (.due signIn)) (n : ℕ) :
    inboxes n (s.callListener j signIn) = inboxes n s := by
  rcases List.getElem?_eq_some_iff.1 hdue with ⟨hj, hget⟩
  have hmem : .due signIn ∈ s.listeners := List.mem_of_getElem? hdue
  have hcount : (s.listeners.set j .idle).count (.due (some n)) =
      s.listeners.count (.due (some n)) - if signIn = some n then 1 else 0 := by
    simp [List.count_set hj, hget]
  cases huser : s.currentUser with
  | none =>
      -- signed out, no push is due, so nothing is lost by not pushing
      have hne : signIn ≠ some n := by
        intro hn
        subst hn
        exact (h.due n hmem).2 huser
      simp [s.callListener_of_none huser, inboxes, hcount, hne]
  | some uid =>
      simp only [s.callListener_of_some huser, inboxes, Session.pushMessageController, hcount,
        List.count_cons]
      by_cases hn : signIn = some n
      · -- one call less is due, and one inbox more is on the stack
        subst hn
        have hpos : 0 < s.listeners.count (.due (some n)) := List.count_pos_iff.2 hmem
        simp
        omega
      · simp [hn]

@[simp] theorem inboxes_pushLogin (s : Session) (n : ℕ) :
    inboxes n s.pushLogin = inboxes n s := by
  simp [inboxes, Session.pushLogin]

/-- A registration that ends pushes an inbox for the sign-in of its account. -/
theorem inboxes_downloadedUrl {s : Session} {uid : String} (huser : s.currentUser = some uid)
    (i : ℕ) (a : Attempt) (url : Option String) (n : ℕ) :
    inboxes n (s.downloadedUrl i a url) = inboxes n s + if a.signIn = some n then 1 else 0 := by
  simp only [s.downloadedUrl_of_some huser, Session.pushMessageController, Session.modifyAttempt,
    inboxes, List.count_cons, beq_iff_eq, Screen.messageController.injEq]
  omega

theorem OneInbox.effect_iff {s s' : Session} {e : Event} (h : OneInbox s) (hr : Recorded s)
    (he : Effect s e s') : OneInbox s' ↔ SinglePush s e := by
  have hsame : ∀ {s' : Session}, s'.stack = s.stack → s'.listeners = s.listeners →
      s'.signIns = s.signIns → (OneInbox s' ↔ True) := by
    intro s' hstack hlisteners hsignIns
    exact iff_true_intro ((oneInbox_congr hstack hlisteners hsignIns).2 h)
  cases he with
  | callListener j signIn hdue =>
      refine iff_of_true ?_ trivial
      intro n hn
      have hlt : n < s.signIns := by simpa using hn
      exact (inboxes_callListener hr hdue n).trans (h n hlt)
  | signInFailed email => exact hsame rfl rfl rfl
  | signIn email uid htold hmem =>
      apply (oneInbox_setCurrentUser h hr htold _).trans
      simp [SinglePush]
  | handleLogout signedOut htold =>
      -- the listener it adds stays, and counts at the next sign-in only
      have hout : OneInbox (s.setCurrentUser none) := by
        apply (oneInbox_setCurrentUser h hr htold _).2
        intro _ hnone
        exact absurd rfl hnone
      refine iff_of_true ?_ trivial
      intro n hn
      simp only [Session.handleLogout, inboxes_pushLogin]
      cases signedOut with
      | true => exact hout n hn
      | false => exact h n hn
  | moveToRegister =>
      refine iff_of_true ?_ trivial
      intro n hn
      simpa [inboxes] using h n hn
  | registerToFirebase email pass name => exact hsame rfl rfl rfl
  | createUserFailed i imageData a hi hphase => exact hsame rfl rfl rfl
  | createUser i uid imageData a hi hphase htold hfresh =>
      -- to the listeners, a new account is a sign-in
      have hauth : OneInbox (s.createdUser i a uid imageData) ↔
          OneInbox (s.setCurrentUser (some uid)) := by
        simp only [Session.createdUser_eq]
        exact oneInbox_congr rfl rfl rfl
      apply hauth.trans
      apply (oneInbox_setCurrentUser h hr htold _).trans
      simp [SinglePush]
  | putData i ok a hi hphase => exact hsame rfl rfl rfl
  | downloadUrl i url a hi hphase =>
      cases huser : s.currentUser with
      | none =>
          have hcond : SinglePush s (.downloadUrl i url) := fun hin => absurd huser hin
          simp only [s.downloadedUrl_of_none huser, iff_true_intro hcond]
          exact hsame rfl rfl rfl
      | some uid =>
          have hsignIns : (s.downloadedUrl i a url).signIns = s.signIns := by
            simp only [s.downloadedUrl_of_some huser]
            rfl
          constructor
          · intro hone _ a' ha'
            cases hi.symm.trans ha'
            cases hn : a.signIn with
            | none => rfl
            | some n =>
                -- the inbox of the listener is there already
                have hlt := hr.attempts a (List.mem_of_getElem? hi) n hn
                have hone' := hone n (hsignIns ▸ hlt)
                have htwo : inboxes n (s.downloadedUrl i a url) = 2 := by
                  simp [inboxes_downloadedUrl huser, h n hlt, hn]
                omega
          · intro hcond n hn
            have hlt : n < s.signIns := hsignIns ▸ hn
            have hnone := hcond (by simp [huser]) a hi
            have hcount := inboxes_downloadedUrl huser i a url n
            simpa [hnone, h n hlt] using hcount
  | setValueAccepted pw hmem => exact hsame rfl rfl rfl
  | setValueRejected pw hmem => exact hsame rfl rfl rfl
  | valueUser k uid hk =>
      rcases s.valueUser_eq uid with ⟨stopped, heq⟩
      simp only [heq]
      exact hsame rfl rfl rfl

/-! ### What is recorded stays so -/

theorem Recorded.modifyAttempt {s : Session} (h : Recorded s) (i : ℕ) {f : Attempt → Attempt}
    (hf : ∀ a n, (f a).signIn = some n → a.signIn = some n ∨ n < s.signIns) :
    Recorded (s.modifyAttempt i f) where
  due := h.due
  stack := h.stack
  attempts a ha n hn := by
    rcases List.mem_iff_getElem?.1 ha with ⟨j, hj⟩
    simp only [Session.modifyAttempt, List.getElem?_modify, Option.map_eq_map,
      Option.map_eq_some_iff] at hj
    rcases hj with ⟨a₀, ha₀, rfl⟩
    have hmem := List.mem_of_getElem? ha₀
    by_cases hij : i = j
    · rcases hf a₀ n (by simpa only [if_pos hij] using hn) with hold | hlt
      · exact h.attempts a₀ hmem n hold
      · exact hlt
    · exact h.attempts a₀ hmem n (by simpa only [if_neg hij] using hn)

theorem Recorded.pushLogin {s : Session} (h : Recorded s) : Recorded s.pushLogin where
  due n hmem := by
    rcases List.mem_cons.1 hmem with hnew | hold
    · cases hnew
    · exact h.due n hold
  stack n hmem := by
    rcases List.mem_cons.1 hmem with hnew | hold
    · cases hnew
    · exact h.stack n hold
  attempts := h.attempts

theorem Recorded.pushMessageController {s : Session} (h : Recorded s) {signIn : Option ℕ}
    (hlt : ∀ n, signIn = some n → n < s.signIns) : Recorded (s.pushMessageController signIn) where
  due := h.due
  stack n hmem := by
    rcases List.mem_cons.1 hmem with hnew | hold
    · exact hlt n (by simpa using hnew.symm)
    · exact h.stack n hold
  attempts := h.attempts

theorem Recorded.createdUser {s : Session} (h : Recorded s) (i : ℕ) (a : Attempt) (uid : String)
    (imageData : Option (List UInt8)) : Recorded (s.createdUser i a uid imageData) := by
  have hauth := h.setCurrentUser (some uid)
  have hmodify := hauth.modifyAttempt i
    (f := fun a =>
      { a with
        account := some uid
        signIn := s.signInOf (some uid)
        phase := if imageData.isSome then .uploading else .ended }) (by
      intro a n hn
      exact Or.inr (lt_signIns_of_signInOf hn).1)
  simp only [Session.createdUser_eq]
  refine ⟨hmodify.due, hmodify.stack, ?_⟩
  simpa [Session.modifyAttempt] using hmodify.attempts

theorem Recorded.effect {s s' : Session} {e : Event} (h : Recorded s) (he : Effect s e s') :
    Recorded s' := by
  cases he with
  | callListener j signIn hdue =>
      have hidle : Recorded { s with listeners := s.listeners.set j .idle } := by
        refine ⟨?_, h.stack, h.attempts⟩
        intro n hmem
        rcases List.mem_or_eq_of_mem_set hmem with hold | hnew
        · exact h.due n hold
        · cases hnew
      cases huser : s.currentUser with
      | none => simpa only [s.callListener_of_none huser] using hidle
      | some uid =>
          simp only [s.callListener_of_some huser]
          apply hidle.pushMessageController
          intro n hn
          subst hn
          exact (h.due n (List.mem_of_getElem? hdue)).1
  | signInFailed email => exact h
  | signIn email uid htold hmem => exact h.setCurrentUser _
  | handleLogout signedOut htold =>
      cases signedOut with
      | true => exact (h.setCurrentUser none).pushLogin
      | false => exact h.pushLogin
  | moveToRegister =>
      refine ⟨h.due, ?_, h.attempts⟩
      intro n hmem
      rcases List.mem_cons.1 hmem with hnew | hold
      · cases hnew
      · exact h.stack n hold
  | registerToFirebase email pass name =>
      refine ⟨h.due, h.stack, ?_⟩
      intro a ha n hn
      rcases List.mem_append.1 ha with hold | hnew
      · exact h.attempts a hold n hn
      · -- a new attempt has not signed anybody in
        cases List.mem_singleton.1 hnew
        cases hn
  | createUserFailed i imageData a hi hphase => exact h.modifyAttempt i fun a n hn => Or.inl hn
  | createUser i uid imageData a hi hphase htold hfresh => exact h.createdUser i a uid imageData
  | putData i ok a hi hphase => exact h.modifyAttempt i fun a n hn => Or.inl hn
  | downloadUrl i url a hi hphase =>
      cases huser : s.currentUser with
      | none =>
          simp only [s.downloadedUrl_of_none huser]
          -- the callback traps: nothing is pushed
          have hended := h.modifyAttempt i (f := fun a => { a with phase := .ended })
            fun a n hn => Or.inl hn
          exact ⟨hended.due, hended.stack, hended.attempts⟩
      | some uid =>
          simp only [s.downloadedUrl_of_some huser]
          have hwrite : Recorded { s with pendingWrites :=
              { attempt := i, uid := uid, name := a.name, email := a.email, pass := a.pass,
                avatarUrl := url } :: s.pendingWrites } := ⟨h.due, h.stack, h.attempts⟩
          have hwriting := hwrite.modifyAttempt i (f := fun a =>
            { a with alert := false, phase := .writing }) fun a n hn => Or.inl hn
          apply hwriting.pushMessageController
          exact h.attempts a (List.mem_of_getElem? hi)
  | setValueAccepted pw hmem =>
      -- a database answer only ends its attempt
      exact (Recorded.mk h.due h.stack h.attempts : Recorded (s.acceptProfile pw)).modifyAttempt
        pw.attempt fun a n hn => Or.inl hn
  | setValueRejected pw hmem =>
      exact (Recorded.mk h.due h.stack h.attempts : Recorded (s.rejectProfile pw)).modifyAttempt
        pw.attempt fun a n hn => Or.inl hn
  | valueUser k uid hk =>
      rcases s.valueUser_eq uid with ⟨stopped, heq⟩
      simp only [heq]
      exact ⟨h.due, h.stack, h.attempts⟩

/-! ## Runs -/

/-- An inbox is only ever pushed while somebody is signed in. -/
theorem signedIn_of_push {s s' : Session} {e : Event} (he : Effect s e s') {signIn : Option ℕ}
    (hpush : s'.stack = .messageController signIn :: s.stack) : s'.currentUser ≠ none := by
  -- every event that pushes no inbox leaves the stack, or pushes something else
  have hno : s'.stack ≠ s.stack := by
    simpa only [hpush] using List.cons_ne_self _ _
  cases he with
  | callListener j tag hdue =>
      cases huser : s.currentUser with
      | none =>
          simp only [s.callListener_of_none huser] at hno
          exact absurd rfl hno
      | some uid =>
          simp [s.callListener_of_some huser, Session.pushMessageController, huser]
  | signInFailed email => exact absurd rfl hno
  | signIn email uid htold hmem => exact absurd (s.stack_setCurrentUser _) hno
  | handleLogout signedOut htold =>
      cases signedOut <;> simp [Session.handleLogout, Session.pushLogin] at hpush
  | moveToRegister => simp at hpush
  | registerToFirebase email pass name => exact absurd rfl hno
  | createUserFailed i imageData a hi hphase => exact absurd rfl hno
  | createUser i uid imageData a hi hphase htold hfresh =>
      simp [Session.createdUser_eq]
  | putData i ok a hi hphase => exact absurd rfl hno
  | downloadUrl i url a hi hphase =>
      cases huser : s.currentUser with
      | none =>
          simp only [s.downloadedUrl_of_none huser] at hno
          exact absurd rfl hno
      | some uid =>
          simp [s.downloadedUrl_of_some huser, Session.pushMessageController,
            Session.modifyAttempt, huser]
  | setValueAccepted pw hmem => exact absurd rfl hno
  | setValueRejected pw hmem => exact absurd rfl hno
  | valueUser k uid hk =>
      rcases s.valueUser_eq uid with ⟨stopped, heq⟩
      simp only [heq] at hno
      exact absurd rfl hno

theorem throughout_oneInbox_iff (accounts : List (String × String)) (db : Database)
    (persisted : Option String) (es : List Event) :
    Step.Throughout step OneInbox (launch accounts db persisted) es ↔
      Step.Along step (fun s e _ => SinglePush s e) (launch accounts db persisted) es := by
  apply Step.throughout_iff_along (I := Recorded) _ _ (recorded_launch accounts db persisted)
    (oneInbox_launch accounts db persisted)
  · intro s e s' hr hs
    exact hr.effect (effect_of_step hs).2
  · intro s e s' hr h hs
    exact h.effect_iff hr (effect_of_step hs).2

/-- In every run of the app no inbox is pushed while signed out, and every sign-in pushes exactly
one inbox exactly when every event meets its condition; then each has pushed it when every
listener has been called. -/
theorem oneInbox_iff_singlePush (accounts : List (String × String)) (db : Database)
    (persisted : Option String) (es : List Event) :
    Step.Along step (fun s _ s' => ∀ signIn,
      s'.stack = .messageController signIn :: s.stack → s'.currentUser ≠ none)
        (launch accounts db persisted) es ∧
    (Step.Throughout step OneInbox (launch accounts db persisted) es ↔
      Step.Along step (fun s e _ => SinglePush s e) (launch accounts db persisted) es) ∧
    (Step.Along step (fun s e _ => SinglePush s e) (launch accounts db persisted) es →
      Step.Throughout step (fun s => s.Told → ∀ n < s.signIns,
        s.stack.count (.messageController (some n)) = 1) (launch accounts db persisted) es) := by
  have hiff := throughout_oneInbox_iff accounts db persisted es
  refine ⟨?_, hiff, ?_⟩
  · intro es₁ e es₂ s s' _ _ hs signIn hpush
    exact signedIn_of_push (effect_of_step hs).2 hpush
  · intro hsingle es₁ es₂ s hes hrun htold n hn
    exact (hiff.2 hsingle es₁ es₂ s hes hrun).of_told htold hn

/-- Bob signs in, logs out, and signs in again. -/
def signInTwice : List Event :=
  [.callListener 0, .signIn "bob@chat" (some "bob"), .callListener 0, .handleLogout true,
    .callListener 0, .callListener 1, .signIn "bob@chat" (some "bob"), .callListener 0,
    .callListener 1]

/-- The second time, he gets two inboxes. -/
theorem signInTwice_not_oneInbox :
    ¬ ∀ (accounts : List (String × String)) (db : Database) (persisted : Option String)
      (es : List Event) (s : Session), Step.run step (launch accounts db persisted) es = some s →
        s.Told → ∀ n < s.signIns, s.stack.count (.messageController (some n)) = 1 := by
  intro h
  obtain ⟨s, hrun, htold, hsignIns, hcount⟩ :
      ∃ s, Step.run step (launch [("bob@chat", "bob")] .empty none) signInTwice = some s ∧
        s.Told ∧ s.signIns = 2 ∧ s.stack.count (.messageController (some 1)) = 2 :=
    ⟨_, rfl, by decide, rfl, by decide⟩
  have hone := h _ _ _ _ s hrun htold 1 (by omega)
  omega

end Account
end AppChatAgain
