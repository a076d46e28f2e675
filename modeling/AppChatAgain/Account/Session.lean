import Mathlib.Data.List.Count
import AppChatAgain.Foundation.Run
import AppChatAgain.Records.User

/-!
# Account.Session — sign-in, registration and the screens they push

One run of the app on one device, from its launch: the navigation stack, the auth-state listeners
of the `login` screens, the profile observers of the `message_controller` screens, and the
registrations in progress.

* Firebase calls an auth-state listener once after it has been added, and once after each change
  of the current uid; a call is due until the main queue gets to it.
* The requests of a registration are answered in any order, and may fail.
* A `setValue` is visible to the app's own observers at once; if the database rejects it, it is
  rolled back.
* The app never pops a screen and never removes a listener or an observer.  Whether a screen is
  covered by another one is not looked at: its buttons may be tapped at any time.
-/

namespace AppChatAgain
namespace Account

open Foundation Firebase Records

/-- The view controllers of the storyboard.  An inbox records the sign-in that it was pushed for,
if it was pushed for one. -/
inductive Screen where
  | login
  | register
  | messageController (signIn : Option ℕ)
  deriving DecidableEq, Repr

/-- An auth-state listener.  A due call records the sign-in that it reports, if it reports one. -/
inductive Listener where
  | idle
  | due (signIn : Option ℕ)
  deriving DecidableEq, Repr

/-- Where a call of `register_to_firebase` is. -/
inductive Phase where
  | creating
  | uploading
  | fetchingUrl
  | writing
  | ended
  deriving DecidableEq, Repr

/-- A call of `register_to_firebase`.  The code keeps neither `account`, the uid of the account it
created, nor `signIn`, the sign-in that came with it. -/
structure Attempt where
  email : String
  pass : String
  name : String
  phase : Phase
  alert : Bool
  account : Option String
  signIn : Option ℕ
  deriving DecidableEq, Repr

/-- `table_user.setValue(user)`, called by an attempt. -/
structure ProfileWrite where
  attempt : ℕ
  uid : String
  name : String
  email : String
  pass : String
  avatarUrl : Option String
  deriving DecidableEq, Repr

def ProfileWrite.record (pw : ProfileWrite) : Json :=
  profileRecord pw.name pw.email pw.pass pw.avatarUrl pw.uid

structure Session where
  /-- `Auth.auth().currentUser?.uid` -/
  currentUser : Option String
  /-- the accounts of the server: e-mail and uid -/
  accounts : List (String × String)
  db : Database
  /-- profile writes without an answer, the newest first -/
  pendingWrites : List ProfileWrite
  /-- the navigation stack, its top first -/
  stack : List Screen
  listeners : List Listener
  /-- the uids whose profile a `message_controller` observes -/
  observers : List String
  attempts : List Attempt
  /-- the number of changes from signed out to signed in -/
  signIns : ℕ
  stopped : Option Trap

namespace Session

variable (s : Session)

/-- What the app's own observers see at `user/<uid>`. -/
def view (uid : String) : Json :=
  match s.pendingWrites.find? fun pw => pw.uid = uid with
  | some pw => pw.record
  | none => s.db.user uid

/-- Every call of a listener that was due has been made. -/
def Told : Prop :=
  ∀ l ∈ s.listeners, l = .idle

instance : Decidable s.Told := by
  unfold Told
  infer_instance

/-! ## Parts of the callbacks -/

/-- The sign-in that a change of the current uid is, if it is one. -/
def signInOf (uid : Option String) : Option ℕ :=
  if s.currentUser = none ∧ uid ≠ none then some s.signIns else none

/-- Firebase Auth changes the current uid; a call of every listener becomes due. -/
def setCurrentUser (uid : Option String) : Session :=
  if s.currentUser = uid then s
  else
    { s with
      currentUser := uid
      listeners := s.listeners.map fun _ => .due (s.signInOf uid)
      signIns := if s.currentUser = none ∧ uid ≠ none then s.signIns + 1 else s.signIns }

/-- `move_to_screen_by_navi(text: "message_controller")`: `viewDidLoad` calls
`get_current_user_from_firebase`, which observes the profile of the current user. -/
def pushMessageController (signIn : Option ℕ) : Session :=
  { s with
    stack := .messageController signIn :: s.stack
    observers := s.currentUser.toList ++ s.observers }

/-- `move_to_screen_by_navi(text: "login")`: `viewDidLoad` calls `is_logined`, which adds a
listener. -/
def pushLogin : Session :=
  { s with
    stack := .login :: s.stack
    listeners := .due none :: s.listeners }

def modifyAttempt (i : ℕ) (f : Attempt → Attempt) : Session :=
  { s with attempts := s.attempts.modify i f }

def stop (t : Trap) : Session :=
  { s with stopped := some t }

/-- A callback of the attempt traps. -/
def trapIn (i : ℕ) (t : Trap) : Session :=
  (s.modifyAttempt i fun a => { a with phase := .ended }).stop t

/-! ## The callbacks -/

/-- The listener of `is_logined`, at its due call. -/
def callListener (j : ℕ) (signIn : Option ℕ) : Session :=
  -- it stays registered: the handle that would remove it is not kept
  let s := { s with listeners := s.listeners.set j .idle }
  if s.currentUser ≠ none then s.pushMessageController signIn else s

/-- `handle_logout`.  An error of `signOut` is printed, and the login screen is pushed anyway. -/
def handleLogout (signedOut : Bool) : Session :=
  let s := if signedOut then s.setCurrentUser none else s
  s.pushLogin

/-- `register_to_firebase`, up to `createUser`. -/
def registerToFirebase (email pass name : String) : Session :=
  { s with
    attempts := s.attempts ++
      [{ email := email, pass := pass, name := name, phase := .creating, alert := true,
         account := none, signIn := none }] }

/-- The callback of `createUser`, when it created the account `uid`, up to `putData`. -/
def createdUser (i : ℕ) (a : Attempt) (uid : String) (imageData : Option (List UInt8)) : Session :=
  let s₁ := { s with accounts := (a.email, uid) :: s.accounts }.setCurrentUser (some uid)
  let s₂ := s₁.modifyAttempt i fun a =>
    { a with account := some uid, signIn := s.signInOf (some uid), phase := .uploading }
  -- `image_data!`, once there is an account
  match forceUnwrap imageData with
  | .ok _ => s₂
  | .error t => s₂.trapIn i t

/-- The callback of `downloadURL`: an error is printed, and the profile is written without a url.
The write has no completion handler. -/
def downloadedUrl (i : ℕ) (a : Attempt) (url : Option String) : Session :=
  match forceUnwrap s.currentUser with
  | .error t => s.trapIn i t
  | .ok uid =>
      -- `uid` is the current user's, whoever that is by now
      let pw : ProfileWrite :=
        { attempt := i, uid := uid, name := a.name, email := a.email, pass := a.pass,
          avatarUrl := url }
      let s := { s with pendingWrites := pw :: s.pendingWrites }
      let s := s.modifyAttempt i fun a => { a with alert := false, phase := .writing }
      s.pushMessageController a.signIn

/-- The database accepts a profile write. -/
def acceptProfile (pw : ProfileWrite) : Session :=
  { s with
    db := s.db.setUser pw.uid pw.record
    pendingWrites := s.pendingWrites.erase pw }

/-- The database rejects a profile write, which is rolled back. -/
def rejectProfile (pw : ProfileWrite) : Session :=
  { s with pendingWrites := s.pendingWrites.erase pw }

/-- The callback of `get_current_user_from_firebase`. -/
def valueUser (uid : String) : Session :=
  match userForcingName (s.view uid) with
  | .ok _ => s
  | .error t => s.stop t

end Session

/-! ## Events -/

inductive Event where
  | callListener (j : ℕ)
  /-- the answer to `signIn` -/
  | signIn (email : String) (uid : Option String)
  | handleLogout (signedOut : Bool)
  | moveToRegister
  | registerToFirebase (email pass name : String)
  /-- the answer to `createUser`, and the data of the avatar -/
  | createUser (i : ℕ) (uid : Option String) (imageData : Option (List UInt8))
  | putData (i : ℕ) (ok : Bool)
  | downloadUrl (i : ℕ) (url : Option String)
  /-- the answer to the `setValue` of a profile -/
  | setValue (pw : ProfileWrite) (ok : Bool)
  | valueUser (k : ℕ)
  deriving DecidableEq, Repr

namespace Session

/-- One event of a running app.  The current uid does not change while a call of a listener is
due; a new account has a new uid, and an e-mail without an account. -/
def react (s : Session) : Event → Option Session
  | .callListener j =>
      match s.listeners[j]? with
      | some (.due signIn) => some (s.callListener j signIn)
      | _ => none
  | .signIn _ none => some s
  | .signIn email (some uid) =>
      if s.Told ∧ (email, uid) ∈ s.accounts then some (s.setCurrentUser (some uid)) else none
  | .handleLogout signedOut => if s.Told then some (s.handleLogout signedOut) else none
  | .moveToRegister => some { s with stack := .register :: s.stack }
  | .registerToFirebase email pass name => some (s.registerToFirebase email pass name)
  | .createUser i uid imageData =>
      match s.attempts[i]? with
      | none => none
      | some a =>
          if a.phase = .creating then
            match uid with
            -- the error is printed: the alert stays
            | none => some (s.modifyAttempt i fun a => { a with phase := .ended })
            | some uid =>
                if s.Told ∧ uid ≠ "" ∧ uid ∉ s.accounts.map Prod.snd ∧
                    a.email ∉ s.accounts.map Prod.fst then
                  some (s.createdUser i a uid imageData)
                else none
          else none
  | .putData i ok =>
      match s.attempts[i]? with
      | none => none
      | some a =>
          if a.phase = .uploading then
            -- on an error the account and the alert stay
            some (s.modifyAttempt i fun a =>
              { a with phase := if ok then .fetchingUrl else .ended })
          else none
  | .downloadUrl i url =>
      match s.attempts[i]? with
      | none => none
      | some a => if a.phase = .fetchingUrl then some (s.downloadedUrl i a url) else none
  | .setValue pw ok =>
      if pw ∈ s.pendingWrites then
        let s := if ok then s.acceptProfile pw else s.rejectProfile pw
        some (s.modifyAttempt pw.attempt fun a => { a with phase := .ended })
      else none
  | .valueUser k =>
      match s.observers[k]? with
      | none => none
      | some uid => some (s.valueUser uid)

end Session

def step : Step Session Event
  | s, e => if s.stopped = none then s.react e else none

/-- The app is launched: the first screen is a `login`, and Firebase Auth may have kept a user. -/
def launch (accounts : List (String × String)) (db : Database) (persisted : Option String) :
    Session :=
  { currentUser := persisted
    accounts := accounts
    db := db
    pendingWrites := []
    stack := [.login]
    listeners := [.due none]
    observers := []
    attempts := []
    signIns := 0
    stopped := none }

/-! ## What an event does -/

/-- The effect of an event, with what must hold for it to occur. -/
inductive Effect (s : Session) : Event → Session → Prop
  | callListener (j : ℕ) (signIn : Option ℕ) (hdue : s.listeners[j]? = some (.due signIn)) :
      Effect s (.callListener j) (s.callListener j signIn)
  | signInFailed (email : String) : Effect s (.signIn email none) s
  | signIn (email uid : String) (htold : s.Told) (hmem : (email, uid) ∈ s.accounts) :
      Effect s (.signIn email (some uid)) (s.setCurrentUser (some uid))
  | handleLogout (signedOut : Bool) (htold : s.Told) :
      Effect s (.handleLogout signedOut) (s.handleLogout signedOut)
  | moveToRegister : Effect s .moveToRegister { s with stack := .register :: s.stack }
  | registerToFirebase (email pass name : String) :
      Effect s (.registerToFirebase email pass name) (s.registerToFirebase email pass name)
  | createUserFailed (i : ℕ) (imageData : Option (List UInt8)) (a : Attempt)
      (hi : s.attempts[i]? = some a) (hphase : a.phase = .creating) :
      Effect s (.createUser i none imageData)
        (s.modifyAttempt i fun a => { a with phase := .ended })
  | createUser (i : ℕ) (uid : String) (imageData : Option (List UInt8)) (a : Attempt)
      (hi : s.attempts[i]? = some a) (hphase : a.phase = .creating) (htold : s.Told)
      (hfresh : uid ∉ s.accounts.map Prod.snd) :
      Effect s (.createUser i (some uid) imageData) (s.createdUser i a uid imageData)
  | putData (i : ℕ) (ok : Bool) (a : Attempt) (hi : s.attempts[i]? = some a)
      (hphase : a.phase = .uploading) :
      Effect s (.putData i ok)
        (s.modifyAttempt i fun a => { a with phase := if ok then .fetchingUrl else .ended })
  | downloadUrl (i : ℕ) (url : Option String) (a : Attempt) (hi : s.attempts[i]? = some a)
      (hphase : a.phase = .fetchingUrl) : Effect s (.downloadUrl i url) (s.downloadedUrl i a url)
  | setValueAccepted (pw : ProfileWrite) (hmem : pw ∈ s.pendingWrites) :
      Effect s (.setValue pw true)
        ((s.acceptProfile pw).modifyAttempt pw.attempt fun a => { a with phase := .ended })
  | setValueRejected (pw : ProfileWrite) (hmem : pw ∈ s.pendingWrites) :
      Effect s (.setValue pw false)
        ((s.rejectProfile pw).modifyAttempt pw.attempt fun a => { a with phase := .ended })
  | valueUser (k : ℕ) (uid : String) (hk : s.observers[k]? = some uid) :
      Effect s (.valueUser k) (s.valueUser uid)

/-- Every event of a running app has one of these effects. -/
theorem effect_of_step {s s' : Session} {e : Event} (h : step s e = some s') :
    s.stopped = none ∧ Effect s e s' := by
  simp only [step, Option.ite_none_right_eq_some] at h
  rcases h with ⟨hrun, h⟩
  refine ⟨hrun, ?_⟩
  cases e with
  | callListener j =>
      cases hj : s.listeners[j]? with
      | none => simp [Session.react, hj] at h
      | some l =>
          cases l with
          | idle => simp [Session.react, hj] at h
          | due signIn =>
              simp only [Session.react, hj, Option.some.injEq] at h
              subst h
              exact .callListener j signIn hj
  | signIn email uid =>
      cases uid with
      | none =>
          simp only [Session.react, Option.some.injEq] at h
          subst h
          exact .signInFailed email
      | some uid =>
          simp only [Session.react, Option.ite_none_right_eq_some, Option.some.injEq] at h
          rcases h with ⟨⟨htold, hmem⟩, rfl⟩
          exact .signIn email uid htold hmem
  | handleLogout signedOut =>
      simp only [Session.react, Option.ite_none_right_eq_some, Option.some.injEq] at h
      rcases h with ⟨htold, rfl⟩
      exact .handleLogout signedOut htold
  | moveToRegister =>
      simp only [Session.react, Option.some.injEq] at h
      subst h
      exact .moveToRegister
  | registerToFirebase email pass name =>
      simp only [Session.react, Option.some.injEq] at h
      subst h
      exact .registerToFirebase email pass name
  | createUser i uid imageData =>
      cases hi : s.attempts[i]? with
      | none => simp [Session.react, hi] at h
      | some a =>
          simp only [Session.react, hi, Option.ite_none_right_eq_some] at h
          rcases h with ⟨hphase, h⟩
          cases uid with
          | none =>
              simp only [Option.some.injEq] at h
              subst h
              exact .createUserFailed i imageData a hi hphase
          | some uid =>
              simp only [Option.ite_none_right_eq_some, Option.some.injEq] at h
              rcases h with ⟨⟨htold, _, hfresh, _⟩, rfl⟩
              exact .createUser i uid imageData a hi hphase htold hfresh
  | putData i ok =>
      cases hi : s.attempts[i]? with
      | none => simp [Session.react, hi] at h
      | some a =>
          simp only [Session.react, hi, Option.ite_none_right_eq_some, Option.some.injEq] at h
          rcases h with ⟨hphase, rfl⟩
          exact .putData i ok a hi hphase
  | downloadUrl i url =>
      cases hi : s.attempts[i]? with
      | none => simp [Session.react, hi] at h
      | some a =>
          simp only [Session.react, hi, Option.ite_none_right_eq_some, Option.some.injEq] at h
          rcases h with ⟨hphase, rfl⟩
          exact .downloadUrl i url a hi hphase
  | setValue pw ok =>
      simp only [Session.react, Option.ite_none_right_eq_some, Option.some.injEq] at h
      rcases h with ⟨hmem, rfl⟩
      cases ok with
      | true => exact .setValueAccepted pw hmem
      | false => exact .setValueRejected pw hmem
  | valueUser k =>
      cases hk : s.observers[k]? with
      | none => simp [Session.react, hk] at h
      | some uid =>
          simp only [Session.react, hk, Option.some.injEq] at h
          subst h
          exact .valueUser k uid hk

/-! ## What the parts of the callbacks leave alone -/

namespace Session

variable (s : Session)

@[simp] theorem accounts_setCurrentUser (uid : Option String) :
    (s.setCurrentUser uid).accounts = s.accounts := by
  unfold setCurrentUser
  split <;> rfl

@[simp] theorem db_setCurrentUser (uid : Option String) :
    (s.setCurrentUser uid).db = s.db := by
  unfold setCurrentUser
  split <;> rfl

@[simp] theorem pendingWrites_setCurrentUser (uid : Option String) :
    (s.setCurrentUser uid).pendingWrites = s.pendingWrites := by
  unfold setCurrentUser
  split <;> rfl

@[simp] theorem stack_setCurrentUser (uid : Option String) :
    (s.setCurrentUser uid).stack = s.stack := by
  unfold setCurrentUser
  split <;> rfl

@[simp] theorem observers_setCurrentUser (uid : Option String) :
    (s.setCurrentUser uid).observers = s.observers := by
  unfold setCurrentUser
  split <;> rfl

@[simp] theorem attempts_setCurrentUser (uid : Option String) :
    (s.setCurrentUser uid).attempts = s.attempts := by
  unfold setCurrentUser
  split <;> rfl

@[simp] theorem stopped_setCurrentUser (uid : Option String) :
    (s.setCurrentUser uid).stopped = s.stopped := by
  unfold setCurrentUser
  split <;> rfl

@[simp] theorem currentUser_setCurrentUser (uid : Option String) :
    (s.setCurrentUser uid).currentUser = uid := by
  unfold setCurrentUser
  split
  · assumption
  · rfl

theorem setCurrentUser_accounts (accounts : List (String × String)) (uid : Option String) :
    { s with accounts := accounts }.setCurrentUser uid =
      { s.setCurrentUser uid with accounts := accounts } := by
  unfold setCurrentUser signInOf
  by_cases h : s.currentUser = uid
  · simp only [if_pos h]
  · simp only [if_neg h]

@[simp] theorem attempts_callListener (j : ℕ) (signIn : Option ℕ) :
    (s.callListener j signIn).attempts = s.attempts := by
  simp only [callListener]
  split <;> rfl

@[simp] theorem accounts_callListener (j : ℕ) (signIn : Option ℕ) :
    (s.callListener j signIn).accounts = s.accounts := by
  simp only [callListener]
  split <;> rfl

@[simp] theorem pendingWrites_callListener (j : ℕ) (signIn : Option ℕ) :
    (s.callListener j signIn).pendingWrites = s.pendingWrites := by
  simp only [callListener]
  split <;> rfl

@[simp] theorem signIns_callListener (j : ℕ) (signIn : Option ℕ) :
    (s.callListener j signIn).signIns = s.signIns := by
  simp only [callListener]
  split <;> rfl

/-! ### The callbacks, case by case -/

theorem callListener_of_none (h : s.currentUser = none) (j : ℕ) (signIn : Option ℕ) :
    s.callListener j signIn = { s with listeners := s.listeners.set j .idle } := by
  simp [callListener, h]

theorem callListener_of_some {uid : String} (h : s.currentUser = some uid) (j : ℕ)
    (signIn : Option ℕ) :
    s.callListener j signIn =
      { s with listeners := s.listeners.set j .idle }.pushMessageController signIn := by
  simp [callListener, h]

/-- Whether or not the avatar has data, there is an account, and its user is signed in. -/
theorem createdUser_eq (i : ℕ) (a : Attempt) (uid : String) (imageData : Option (List UInt8)) :
    s.createdUser i a uid imageData =
      { s.setCurrentUser (some uid) with
        accounts := (a.email, uid) :: s.accounts
        attempts := s.attempts.modify i fun a =>
          { a with
            account := some uid
            signIn := s.signInOf (some uid)
            phase := if imageData.isSome then .uploading else .ended }
        stopped := if imageData.isSome then s.stopped else some .nilUnwrap } := by
  cases imageData with
  | some d => simp [createdUser, setCurrentUser_accounts, modifyAttempt]
  | none =>
      simp [createdUser, setCurrentUser_accounts, forceUnwrap, modifyAttempt, trapIn, stop,
        List.modify_modify_eq, Function.comp_def]

theorem downloadedUrl_of_none (h : s.currentUser = none) (i : ℕ) (a : Attempt)
    (url : Option String) : s.downloadedUrl i a url = s.trapIn i .nilUnwrap := by
  simp [downloadedUrl, h, forceUnwrap]

theorem downloadedUrl_of_some {uid : String} (h : s.currentUser = some uid) (i : ℕ) (a : Attempt)
    (url : Option String) :
    s.downloadedUrl i a url =
      ({ s with
        pendingWrites :=
          { attempt := i, uid := uid, name := a.name, email := a.email, pass := a.pass,
            avatarUrl := url } :: s.pendingWrites }.modifyAttempt i fun a =>
              { a with alert := false, phase := .writing }).pushMessageController a.signIn := by
  simp [downloadedUrl, h]

/-- A reader's callback can stop the app, and does nothing else. -/
theorem valueUser_eq (uid : String) :
    ∃ stopped, s.valueUser uid = { s with stopped := stopped } := by
  unfold valueUser
  cases userForcingName (s.view uid) with
  | ok user => exact ⟨s.stopped, rfl⟩
  | error t => exact ⟨some t, rfl⟩

end Session

end Account
end AppChatAgain
