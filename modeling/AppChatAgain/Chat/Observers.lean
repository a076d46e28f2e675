import AppChatAgain.Foundation.Run
import AppChatAgain.Records.Mess
import AppChatAgain.Records.User

/-!
# Chat.Observers — the three nested observers of `chat_collect`

`get_mess_from_firebase` registers a `childAdded` observer at `usermess/<uid>`; its callback
registers one at `usermess/<uid>/<partner>`, whose callback registers a `value` observer at
`mess/<key>`, whose callback appends the decoded message to `array_mess`.  No observer is ever
removed, so any of their callbacks may come next.
-/

namespace AppChatAgain
namespace Chat

open Foundation Firebase Records

/-- The state of a `chat_collect` screen and of the observers it has registered. -/
structure ChatCollect where
  user : Option User
  /-- the uid whose `usermess` subtree is observed -/
  tableMess : Option String
  /-- the partners whose `usermess/<uid>/<partner>` is observed -/
  tableMessPartner : List String
  /-- the keys whose `mess/<key>` is observed -/
  messKeys : List String
  arrayMess : List Mess

namespace ChatCollect

/-- `viewDidLoad`, which ends with `get_mess_from_firebase`.  The observer is registered only if
somebody is signed in. -/
def viewDidLoad (user : Option User) (currentUid : Option String) : ChatCollect :=
  { user := user
    tableMess := currentUid
    tableMessPartner := []
    messKeys := []
    arrayMess := [] }

/-- The callback of the value observer at `mess/<key>`. -/
def valueMess (c : ChatCollect) (snap : Json) : Except Trap ChatCollect := do
  let messData ← messOfChatSnapshot snap
  return { c with arrayMess := c.arrayMess ++ [messData] }

theorem valueMess_eq_ok {c c' : ChatCollect} {snap : Json} :
    c.valueMess snap = .ok c' ↔
      ∃ m, messOfChatSnapshot snap = .ok m ∧ c' = { c with arrayMess := c.arrayMess ++ [m] } := by
  apply bind_eq_ok.trans
  simp [pure, Except.pure, eq_comm]

end ChatCollect

/-- The callbacks a screen can receive. -/
inductive Callback where
  | partnerAdded (keyPartner : String)
  | messAdded (keyPartner keyMess : String)
  | messValue (keyMess : String)
  /-- `screen.user = user`, from the screen that opened the chat -/
  | userSet (user : User)

/-- One callback, with the database content it reads.  A callback needs its observer to be
registered and its child to exist; a trapping value callback ends the run. -/
def step : Step ChatCollect (Database × Callback)
  | c, (db, .partnerAdded p) =>
      -- every child of `usermess/<uid>` gets an observer, not only `user.id`
      match c.tableMess with
      | none => none
      | some uid =>
          if db.hasPartner uid p then
            some { c with tableMessPartner := p :: c.tableMessPartner }
          else none
  | c, (db, .messAdded p k) =>
      match c.tableMess with
      | none => none
      | some uid =>
          if p ∈ c.tableMessPartner ∧ db.indexed uid p k then
            some { c with messKeys := k :: c.messKeys }
          else none
  | c, (db, .messValue k) =>
      -- called again whenever `mess/<key>` changes
      if k ∈ c.messKeys then (c.valueMess (db.mess k)).toOption else none
  | c, (_, .userSet user) => some { c with user := some user }

/-- Everything a callback can do. -/
theorem step_cases {c c' : ChatCollect} {db : Database} {cb : Callback}
    (h : step c (db, cb) = some c') :
    (∃ uid p, cb = .partnerAdded p ∧ c.tableMess = some uid ∧ db.hasPartner uid p = true ∧
      c' = { c with tableMessPartner := p :: c.tableMessPartner }) ∨
    (∃ uid p k, cb = .messAdded p k ∧ c.tableMess = some uid ∧ p ∈ c.tableMessPartner ∧
      db.indexed uid p k = true ∧ c' = { c with messKeys := k :: c.messKeys }) ∨
    (∃ k m, cb = .messValue k ∧ k ∈ c.messKeys ∧ messOfChatSnapshot (db.mess k) = .ok m ∧
      c' = { c with arrayMess := c.arrayMess ++ [m] }) ∨
    (∃ user, cb = .userSet user ∧ c' = { c with user := some user }) := by
  cases cb with
  | partnerAdded p =>
      simp only [step] at h
      cases hu : c.tableMess with
      | none => simp [hu] at h
      | some uid =>
          simp only [hu, Option.ite_none_right_eq_some, Option.some.injEq] at h
          exact Or.inl ⟨uid, p, rfl, rfl, h.1, h.2.symm⟩
  | messAdded p k =>
      simp only [step] at h
      cases hu : c.tableMess with
      | none => simp [hu] at h
      | some uid =>
          simp only [hu, Option.ite_none_right_eq_some, Option.some.injEq] at h
          exact Or.inr (Or.inl ⟨uid, p, k, rfl, rfl, h.1.1, h.1.2, h.2.symm⟩)
  | messValue k =>
      simp only [step, Option.ite_none_right_eq_some] at h
      rcases h with ⟨hk, hval⟩
      -- a callback that traps is no step of the run
      cases hv : c.valueMess (db.mess k) with
      | error t => simp [hv, Except.toOption] at hval
      | ok c₁ =>
          have hc : c₁ = c' := by simpa [hv, Except.toOption] using hval
          subst hc
          rcases ChatCollect.valueMess_eq_ok.1 hv with ⟨m, hm, hc'⟩
          exact Or.inr (Or.inr (Or.inl ⟨k, m, rfl, hk, hm, hc'⟩))
  | userSet user =>
      simp only [step, Option.some.injEq] at h
      exact Or.inr (Or.inr (Or.inr ⟨user, rfl, h.symm⟩))

end Chat
end AppChatAgain
