import Mathlib.Logic.Function.Basic
import AppChatAgain.Foundation.Run
import AppChatAgain.Records.Mess
import AppChatAgain.Records.User

/-!
# View.InboxCell — reused rows of the inbox

Every assignment to the `mess` property of a `cell_message_controller` adds an observer at the
partner's profile.  The observer captures the cell and is never removed, so a reused cell is written
by the observers of all partners that it has had.

* `didSetMess` : an assignment;
* `valueUser`  : the callback of one observer;
* `step`       : assignments, changes of profiles, and the callbacks in any order.
-/

namespace AppChatAgain
namespace View

open Foundation Firebase Records

/-! ## Cells and their observers -/

structure InboxCell where
  mess : Option Mess
  textLabel : Option String
  /-- the timestamp whose date `time_label` shows -/
  timeLabel : Option NSNumber
  /-- the text of the last `load_image` call on `image_partner` -/
  imagePartner : Option String
  /-- the partner whose observer has set `textLabel`; the code does not keep this -/
  shown : Option String
  /-- the observer that the last assignment has added; neither this -/
  observer : Option ℕ
  deriving DecidableEq, Repr

/-- A value observer at `user/<partner>` that captures a cell. -/
structure ProfileObserver where
  cell : ℕ
  partner : String
  /-- the initial callback has run -/
  called : Bool
  /-- the profile has changed since the last callback -/
  due : Bool
  deriving DecidableEq, Repr

structure InboxTable where
  cells : ℕ → InboxCell
  observers : List ProfileObserver
  /-- `user/<uid>`, as the observers read it -/
  profiles : String → Json
  stopped : Bool

namespace InboxTable

def init : InboxTable :=
  { cells := fun _ =>
      { mess := none
        textLabel := none
        timeLabel := none
        imagePartner := none
        shown := none
        observer := none }
    observers := []
    profiles := fun _ => .empty
    stopped := false }

variable (currentUid : Option String)

/-- `get_data_user_from_firebase`, up to its callback. -/
def getDataUserFromFirebase (c : ℕ) (m : Mess) (t : InboxTable) : Except Trap InboxTable := do
  let partnerId ← child (m.getPartnerId currentUid)
  return { t with
    observers := t.observers ++ [⟨c, partnerId, false, false⟩]
    cells := Function.update t.cells c
      { t.cells c with observer := some t.observers.length } }

/-- The assignment of a message to `mess`, with its `didSet`. -/
def didSetMess (c : ℕ) (m : Mess) (t : InboxTable) : Except Trap InboxTable := do
  let t := { t with cells := Function.update t.cells c { t.cells c with mess := some m } }
  let t ← t.getDataUserFromFirebase currentUid c m
  return { t with
    cells := Function.update t.cells c { t.cells c with timeLabel := some m.timestamp } }

/-- The callback of the observer `o`, the `j`-th one. -/
def valueUser (j : ℕ) (o : ProfileObserver) (t : InboxTable) : Except Trap InboxTable := do
  let user ← userForcingName (t.profiles o.partner)
  return { t with
    observers := t.observers.set j { o with called := true, due := false }
    cells := Function.update t.cells o.cell
      { t.cells o.cell with
        textLabel := some user.name
        imagePartner := some user.avatarUrl
        shown := some o.partner } }

/-- A callback that traps ends everything. -/
def guarded (t : InboxTable) (r : Except Trap InboxTable) : Option InboxTable :=
  if t.stopped then none
  else
    match r with
    | .ok t' => some t'
    | .error _ => some { t with stopped := true }

end InboxTable

namespace InboxCell

inductive Event where
  /-- `tableView(_:cellForRowAt:)` assigns a message to a cell, a new one or one that is reused -/
  | assign (c : ℕ) (m : Mess)
  | changed (uid : String) (profile : Json)
  | valueUser (j : ℕ)

/-- One event, with `currentUid` signed in. -/
def step (currentUid : Option String) : Step InboxTable Event
  | t, .assign c m => t.guarded (t.didSetMess currentUid c m)
  | t, .changed uid profile =>
      -- an observer that was not called yet will read the new profile anyway
      t.guarded (.ok { t with
        profiles := Function.update t.profiles uid profile
        observers := t.observers.map fun o =>
          if o.partner = uid ∧ o.called = true then { o with due := true } else o })
  | t, .valueUser j =>
      match t.observers[j]? with
      | none => none
      | some o => if o.called && !o.due then none else t.guarded (t.valueUser j o)

/-! ## The law -/

/-- Once the observer of the last assignment was called, the label is the partner's, and shows the
current name unless this observer still has to be told of a change. -/
structure ShowsPartner (currentUid : Option String) (t : InboxTable) (cell : InboxCell) (m : Mess)
    (o : ProfileObserver) : Prop where
  shown : cell.shown = some (m.getPartnerId currentUid)
  current : o.due = false → ∃ user,
    userForcingName (t.profiles (m.getPartnerId currentUid)) = .ok user ∧
      cell.textLabel = some user.name

def RowsShowPartners (currentUid : Option String) (t : InboxTable) : Prop :=
  ∀ (c : ℕ) (m : Mess) (j : ℕ) (o : ProfileObserver), (t.cells c).mess = some m →
    (t.cells c).observer = some j → t.observers[j]? = some o → o.called = true →
      ShowsPartner currentUid t (t.cells c) m o

/-- A callback that shows a user shows the partner of the cell's message, or comes before the
initial callback of the observer of the last assignment. -/
def NotLeftOver (currentUid : Option String) (t : InboxTable) : Event → Prop
  | .valueUser j => ∀ (o : ProfileObserver) (user : User), t.observers[j]? = some o →
      userForcingName (t.profiles o.partner) = .ok user →
        ∀ (m : Mess) (k : ℕ) (last : ProfileObserver), (t.cells o.cell).mess = some m →
          (t.cells o.cell).observer = some k → t.observers[k]? = some last →
            last.called = true → o.partner = m.getPartnerId currentUid
  | _ => True

/-! ## What an event does -/

/-- Exactly what an event does, with what must hold for it to occur. -/
inductive Happens (currentUid : Option String) (t : InboxTable) : Event → InboxTable → Prop
  | assign (c : ℕ) (m : Mess) (hvalid : IsValidPathString (m.getPartnerId currentUid)) :
      Happens currentUid t (.assign c m)
        { t with
          observers := t.observers ++ [⟨c, m.getPartnerId currentUid, false, false⟩]
          cells := Function.update t.cells c
            { t.cells c with
              mess := some m
              observer := some t.observers.length
              timeLabel := some m.timestamp } }
  | assignTraps (c : ℕ) (m : Mess) :
      Happens currentUid t (.assign c m) { t with stopped := true }
  | changed (uid : String) (profile : Json) :
      Happens currentUid t (.changed uid profile)
        { t with
          profiles := Function.update t.profiles uid profile
          observers := t.observers.map fun o =>
            if o.partner = uid ∧ o.called = true then { o with due := true } else o }
  | valueUser (j : ℕ) (o : ProfileObserver) (user : User) (hj : t.observers[j]? = some o)
      (hok : userForcingName (t.profiles o.partner) = .ok user) :
      Happens currentUid t (.valueUser j)
        { t with
          observers := t.observers.set j { o with called := true, due := false }
          cells := Function.update t.cells o.cell
            { t.cells o.cell with
              textLabel := some user.name
              imagePartner := some user.avatarUrl
              shown := some o.partner } }
  | valueTraps (j : ℕ) (o : ProfileObserver) (trap : Trap) (hj : t.observers[j]? = some o)
      (htrap : userForcingName (t.profiles o.partner) = .error trap) :
      Happens currentUid t (.valueUser j) { t with stopped := true }

theorem guarded_eq_some {t t' : InboxTable} {r : Except Trap InboxTable}
    (h : t.guarded r = some t') :
    r = .ok t' ∨ ∃ trap, r = .error trap ∧ t' = { t with stopped := true } := by
  simp only [InboxTable.guarded, Option.ite_none_left_eq_some] at h
  cases r with
  | ok t₁ => exact Or.inl (congrArg Except.ok (Option.some.inj h.2))
  | error trap => exact Or.inr ⟨trap, rfl, (Option.some.inj h.2).symm⟩

/-- Every event is one of these. -/
theorem happens_of_step {currentUid : Option String} {t t' : InboxTable} {e : Event}
    (h : step currentUid t e = some t') : Happens currentUid t e t' := by
  cases e with
  | assign c m =>
      rcases guarded_eq_some h with hok | ⟨trap, _, rfl⟩
      · -- the path of the observer is the partner's uid
        rcases bind_eq_ok.1 hok with ⟨t₁, hobserve, heq⟩
        rcases bind_eq_ok.1 hobserve with ⟨partnerId, hpartner, heq₁⟩
        rcases child_eq_ok.1 hpartner with ⟨hvalid, rfl⟩
        cases heq₁
        cases heq
        have hassign : Happens currentUid t (.assign c m) _ := .assign c m hvalid
        simpa using hassign
      · exact .assignTraps c m
  | changed uid profile =>
      simp only [step] at h
      rcases guarded_eq_some h with hok | ⟨trap, htrap, _⟩
      · cases hok
        exact .changed uid profile
      · cases htrap
  | valueUser j =>
      cases hj : t.observers[j]? with
      | none => simp [step, hj] at h
      | some o =>
          simp only [step, hj, Option.ite_none_left_eq_some] at h
          rcases guarded_eq_some h.2 with hok | ⟨trap, htrap, rfl⟩
          · rcases bind_eq_ok.1 hok with ⟨user, huser, heq⟩
            cases heq
            exact .valueUser j o user hj huser
          · cases huser : userForcingName (t.profiles o.partner) with
            | ok user => simp [InboxTable.valueUser, huser, bind, Except.bind, pure,
                Except.pure] at htrap
            | error trap' => exact .valueTraps j o trap' hj huser

/-! ## The observer of the last assignment -/

/-- It is there, captures its cell, and observes the partner of the cell's message. -/
def Linked (currentUid : Option String) (t : InboxTable) : Prop :=
  ∀ (c : ℕ) (m : Mess) (j : ℕ), (t.cells c).mess = some m → (t.cells c).observer = some j →
    ∃ o, t.observers[j]? = some o ∧ o.cell = c ∧ o.partner = m.getPartnerId currentUid

theorem linked_init (currentUid : Option String) : Linked currentUid .init := by
  intro c m j hm
  cases hm

theorem Linked.step {currentUid : Option String} {t t' : InboxTable} {e : Event}
    (h : Linked currentUid t) (hs : step currentUid t e = some t') : Linked currentUid t' := by
  cases happens_of_step hs with
  | assign c m hvalid =>
      intro c' m' j hm hj
      by_cases hc : c' = c
      · subst hc
        have hm' : m = m' := by simpa using hm
        have hj' : t.observers.length = j := by simpa using hj
        subst hm' hj'
        exact ⟨⟨c', m.getPartnerId currentUid, false, false⟩, by simp, rfl, rfl⟩
      · rcases h c' m' j (by simpa [hc] using hm) (by simpa [hc] using hj) with ⟨o, ho, hcell⟩
        have hlt : j < t.observers.length := (List.getElem?_eq_some_iff.1 ho).1
        exact ⟨o, (List.getElem?_append_left hlt).trans ho, hcell⟩
  | assignTraps c m => exact h
  | changed uid profile =>
      intro c m j hm hj
      rcases h c m j hm hj with ⟨o, ho, hcell, hpartner⟩
      -- whether or not the observer becomes due, it stays the cell's
      by_cases hdue : o.partner = uid ∧ o.called = true
      · exact ⟨{ o with due := true }, by simp [ho, hdue], hcell, hpartner⟩
      · exact ⟨o, by simp [ho, hdue], hcell, hpartner⟩
  | valueUser j o user hj hok =>
      intro c m k hm hk
      -- the callback changes neither the message of a cell nor its observer
      have hm' : (t.cells c).mess = some m := by
        by_cases hc : c = o.cell
        · simpa [hc] using hm
        · simpa [hc] using hm
      have hk' : (t.cells c).observer = some k := by
        by_cases hc : c = o.cell
        · simpa [hc] using hk
        · simpa [hc] using hk
      rcases h c m k hm' hk' with ⟨last, hlast, hcell, hpartner⟩
      by_cases hkj : k = j
      · subst hkj
        have heq : last = o := Option.some.inj (hlast.symm.trans hj)
        subst heq
        have hlt : k < t.observers.length := (List.getElem?_eq_some_iff.1 hj).1
        exact ⟨{ last with called := true, due := false }, by simp [hlt], hcell, hpartner⟩
      · exact ⟨last, by simp [List.getElem?_set_ne (Ne.symm hkj), hlast], hcell, hpartner⟩
  | valueTraps j o trap hj htrap => exact h

/-! ## One event -/

theorem RowsShowPartners.stopped {currentUid : Option String} {t : InboxTable}
    (h : RowsShowPartners currentUid t) :
    RowsShowPartners currentUid { t with stopped := true } := by
  intro c m j o hm hj ho hcalled
  have hshows := h c m j o hm hj ho hcalled
  exact ⟨hshows.shown, hshows.current⟩

/-- A change of a profile makes every observer due that has shown the old one. -/
theorem RowsShowPartners.changed {currentUid : Option String} {t : InboxTable}
    (hlink : Linked currentUid t) (h : RowsShowPartners currentUid t) (uid : String)
    (profile : Json) :
    RowsShowPartners currentUid
      { t with
        profiles := Function.update t.profiles uid profile
        observers := t.observers.map fun o =>
          if o.partner = uid ∧ o.called = true then { o with due := true } else o } := by
  intro c m j o' hm hj ho' hcalled'
  rcases hlink c m j hm hj with ⟨o, ho, _, hpartner⟩
  have heq : o' = if o.partner = uid ∧ o.called = true then { o with due := true } else o := by
    simpa [ho] using ho'.symm
  have hcalled : o.called = true := by
    by_cases hdue : o.partner = uid ∧ o.called = true
    · exact hdue.2
    · simpa [heq, hdue] using hcalled'
  have hshows := h c m j o hm hj ho hcalled
  refine ⟨hshows.shown, ?_⟩
  intro hnotdue
  by_cases hp : o.partner = uid
  · simp [heq, hp, hcalled] at hnotdue
  · -- another profile has changed
    have hne : m.getPartnerId currentUid ≠ uid := hpartner ▸ hp
    have hdue : o.due = false := by simpa [heq, hp] using hnotdue
    simpa [hne] using hshows.current hdue

/-- The callback of an observer keeps the rows right exactly if it is not left over. -/
theorem RowsShowPartners.valueUser_iff {currentUid : Option String} {t : InboxTable}
    (hlink : Linked currentUid t) (h : RowsShowPartners currentUid t) {j : ℕ}
    {o : ProfileObserver} {user : User} (hj : t.observers[j]? = some o)
    (hok : userForcingName (t.profiles o.partner) = .ok user) :
    RowsShowPartners currentUid
        { t with
          observers := t.observers.set j { o with called := true, due := false }
          cells := Function.update t.cells o.cell
            { t.cells o.cell with
              textLabel := some user.name
              imagePartner := some user.avatarUrl
              shown := some o.partner } } ↔
      NotLeftOver currentUid t (.valueUser j) := by
  have hlt : j < t.observers.length := (List.getElem?_eq_some_iff.1 hj).1
  constructor
  · intro h' o' user' ho' _ m k last hm hk hlast hcalled
    have heq : o' = o := Option.some.inj (ho'.symm.trans hj)
    subst heq
    by_cases hkj : k = j
    · -- the observer of the last assignment itself
      subst hkj
      rcases hlink o'.cell m k hm hk with ⟨o, ho, _, hpartner⟩
      have hsame : o = o' := Option.some.inj (ho.symm.trans hj)
      simpa only [hsame] using hpartner
    · have hshows := (h' o'.cell m k last (by simpa using hm) (by simpa using hk)
        (by simpa [List.getElem?_set_ne (Ne.symm hkj)] using hlast) hcalled).shown
      simpa using hshows
  · intro hcond c m k last' hm hk hlast' hcalled'
    by_cases hc : c = o.cell
    · -- the cell that was written to, by its own observer or by a left-over one
      subst hc
      have hm' : (t.cells o.cell).mess = some m := by simpa using hm
      have hk' : (t.cells o.cell).observer = some k := by simpa using hk
      have hpartner : o.partner = m.getPartnerId currentUid := by
        by_cases hkj : k = j
        · subst hkj
          rcases hlink o.cell m k hm' hk' with ⟨last, hlast, _, hpartner⟩
          have hsame : last = o := Option.some.inj (hlast.symm.trans hj)
          simpa only [hsame] using hpartner
        · exact hcond o user hj hok m k last' hm' hk'
            (by simpa [List.getElem?_set_ne (Ne.symm hkj)] using hlast') hcalled'
      refine ⟨by simp [hpartner], ?_⟩
      intro _
      exact ⟨user, hpartner ▸ hok, by simp⟩
    · -- the observers of another cell are others
      have hm' : (t.cells c).mess = some m := by simpa [hc] using hm
      have hk' : (t.cells c).observer = some k := by simpa [hc] using hk
      have hkj : k ≠ j := by
        intro hkj
        subst hkj
        rcases hlink c m k hm' hk' with ⟨last, hlast, hcell, _⟩
        have hsame : last = o := Option.some.inj (hlast.symm.trans hj)
        exact hc (hsame ▸ hcell.symm)
      have hlast : t.observers[k]? = some last' := by
        simpa [List.getElem?_set_ne (Ne.symm hkj)] using hlast'
      have hshows := h c m k last' hm' hk' hlast hcalled'
      exact ⟨by simpa [hc] using hshows.shown, by simpa [hc] using hshows.current⟩

/-- Every event keeps the rows right exactly under its condition. -/
theorem RowsShowPartners.step_iff {currentUid : Option String} {t t' : InboxTable} {e : Event}
    (hlink : Linked currentUid t) (h : RowsShowPartners currentUid t)
    (hs : step currentUid t e = some t') :
    RowsShowPartners currentUid t' ↔ NotLeftOver currentUid t e := by
  cases happens_of_step hs with
  | assign c m hvalid =>
      refine iff_of_true ?_ trivial
      intro c' m' j o hm hj ho hcalled
      by_cases hc : c' = c
      · -- the new observer was not called yet
        subst hc
        have hj' : t.observers.length = j := by simpa using hj
        subst hj'
        have heq : o = ⟨c', m.getPartnerId currentUid, false, false⟩ := by simpa using ho.symm
        simp [heq] at hcalled
      · have hm' : (t.cells c').mess = some m' := by simpa [hc] using hm
        have hj' : (t.cells c').observer = some j := by simpa [hc] using hj
        rcases hlink c' m' j hm' hj' with ⟨old, hold, _⟩
        have hlt : j < t.observers.length := (List.getElem?_eq_some_iff.1 hold).1
        have ho' : t.observers[j]? = some o := (List.getElem?_append_left hlt).symm.trans ho
        have hshows := h c' m' j o hm' hj' ho' hcalled
        exact ⟨by simpa [hc] using hshows.shown, by simpa [hc] using hshows.current⟩
  | assignTraps c m => exact iff_of_true h.stopped trivial
  | changed uid profile => exact iff_of_true (h.changed hlink uid profile) trivial
  | valueUser j o user hj hok => exact h.valueUser_iff hlink hj hok
  | valueTraps j o trap hj htrap =>
      refine iff_of_true h.stopped ?_
      intro o' user ho' huser
      have hsame : o' = o := Option.some.inj (ho'.symm.trans hj)
      simp [hsame, htrap] at huser

/-! ## Runs -/

/-- In every run, all rows show their own partners throughout, exactly when every callback is for
the partner of its cell's message, or comes before the initial callback of the observer that the
last assignment has added. -/
theorem rowsShowPartners_iff (currentUid : Option String) (es : List Event) :
    Step.Throughout (step currentUid) (RowsShowPartners currentUid) .init es ↔
      Step.Along (step currentUid) (fun t e _ => NotLeftOver currentUid t e) .init es := by
  refine Step.throughout_iff_along (I := Linked currentUid) ?_ ?_ (linked_init currentUid) ?_
  · intro t e t' hlink hs
    exact hlink.step hs
  · intro t e t' hlink h hs
    exact h.step_iff hlink hs
  · intro c m j o hm
    cases hm

/-- A text that Alice has received from the user. -/
def textFrom (uid : String) : Mess :=
  (MessData.text uid "alice" "hello" (NSNumber.ofInt 1)).toMess

/-- One cell shows Bob's message and then Carol's; Carol's profile comes first. -/
def reused : List Event :=
  [.changed "bob" (profileRecord "Bob" "bob@chat" "secret" none "bob"),
    .changed "carol" (profileRecord "Carol" "carol@chat" "secret" none "carol"),
    .assign 0 (textFrom "bob"), .assign 0 (textFrom "carol"), .valueUser 1, .valueUser 0]

/-- The row of Carol's message then shows Bob's name. -/
theorem reused_not_rowsShowPartners :
    ¬ ∀ (currentUid : Option String) (es : List Event),
      Step.Throughout (step currentUid) (RowsShowPartners currentUid) .init es := by
  intro h
  obtain ⟨t, o, hrun, hmess, hobserver, ho, hcalled, hshown⟩ : ∃ t o,
      Step.run (step (some "alice")) .init reused = some t ∧
      (t.cells 0).mess = some (textFrom "carol") ∧ (t.cells 0).observer = some 1 ∧
      t.observers[1]? = some o ∧ o.called = true ∧ (t.cells 0).textLabel = some "Bob" :=
    ⟨_, _, rfl, rfl, rfl, rfl, rfl, rfl⟩
  have hrow := h (some "alice") reused reused [] t (by simp) hrun 0 _ 1 o hmess hobserver ho hcalled
  cases hrun
  cases ho
  rcases hrow.current rfl with ⟨user, huser, hname⟩
  cases huser
  exact absurd (hshown.symm.trans hname) (by decide)

end InboxCell

end View
end AppChatAgain
