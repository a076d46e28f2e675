import AppChatAgain.Foundation.KeyedLog
import AppChatAgain.Inbox.Callback
import AppChatAgain.Send.View

/-!
# Inbox.Sessions — inboxes across account switches

`get_data_table_user_mess_from_firebase` captures the uid once, for the paths of its observers, but
`get_partner_id` reads the signed-in user whenever a value callback runs.  Nothing removes the
observers or the screen on logout, so a screen of an earlier account goes on filing messages.

* `InboxScreen`  : a `message_controller` with the observers it has;
* `step`         : the world, with the callbacks of every inbox opened so far;
* `Apart`        : an inbox gets nothing after its user has been signed out, and has each message
  under the partner in whose index it was found;
* `LateIsRepeat` : what this asks of the callbacks that come late.
-/

namespace AppChatAgain
namespace Inbox

open Foundation Firebase Records

/-! ## Screens and their observers -/

/-- A value observer at `mess/<key>`, where `key` was found under the partner. -/
structure ValueObserver where
  partner : String
  key : String
  deriving DecidableEq, Repr

structure InboxScreen where
  client : ℕ
  /-- `current_user.uid`, as the observers have captured it -/
  uid : String
  /-- the observed children of `usermess/<uid>` -/
  partners : List String
  values : List ValueObserver
  controller : MessageController
  /-- the user has been signed out since the screen was opened; the code does not keep this -/
  left : Bool
  /-- the messages that its callbacks have delivered, each after the partner that it was given; of
  these, too, the code keeps no record -/
  delivered : List (String × Mess)

namespace InboxScreen

/-- `viewDidLoad`, with `uid` signed in. -/
def viewDidLoad (client : ℕ) (uid : String) : InboxScreen :=
  { client := client
    uid := uid
    partners := []
    values := []
    controller := .viewDidLoad
    left := false
    delivered := [] }

/-- The screen after the world has become `w`. -/
def notice (w : Send.World) (inbox : InboxScreen) : InboxScreen :=
  { inbox with
    left := inbox.left || decide ((w.clients inbox.client).currentUid ≠ some inbox.uid) }

/-- The partner and the message that a value callback delivers, with `currentUid` signed in. -/
def delivery (currentUid : Option String) (snap : Json) : String × Mess :=
  ((messOfInboxSnapshot snap).getPartnerId currentUid, messOfInboxSnapshot snap)

/-- The screen after a value callback. -/
def valueMess (sort : SortFn Mess) (values : Enumeration String Mess)
    (currentUid : Option String) (snap : Json) (inbox : InboxScreen) : InboxScreen :=
  { inbox with
    controller := inbox.controller.valueMess sort values currentUid snap
    delivered := inbox.delivered ++ [delivery currentUid snap] }

end InboxScreen

structure Sessions where
  world : Send.World
  /-- every inbox opened so far: a logout removes none -/
  inboxes : List InboxScreen

namespace Sessions

def init : Sessions :=
  { world := .init
    inboxes := [] }

/-- A callback of the `i`-th inbox, if its client still runs. -/
def react (s : Sessions) (i : ℕ) (f : InboxScreen → Option InboxScreen) : Option Sessions :=
  match s.inboxes[i]? with
  | none => none
  | some inbox =>
      if (s.world.clients inbox.client).running then
        (f inbox).map fun inbox' => { s with inboxes := s.inboxes.set i inbox' }
      else none

end Sessions

inductive Event where
  /-- whatever else the clients and the server do, sign-ins and logouts included -/
  | world (e : Send.Event)
  | viewDidLoad (c : ℕ)
  | childAddedPartner (i : ℕ) (p : String)
  | childAddedMess (i : ℕ) (p k : String)
  | valueMess (i : ℕ) (p k : String) (values : Enumeration String Mess)

/-- One event.  An observer can be called for whatever its client sees at its path, any number of
times. -/
def step (sort : SortFn Mess) : Step Sessions Event
  | s, .world e =>
      (Send.step s.world e).map fun w =>
        { world := w
          inboxes := s.inboxes.map (InboxScreen.notice w) }
  | s, .viewDidLoad c =>
      if (s.world.clients c).running then
        match (s.world.clients c).currentUid with
        -- without a user the screen observes nothing
        | none => some s
        | some uid => some { s with inboxes := s.inboxes ++ [.viewDidLoad c uid] }
      else none
  | s, .childAddedPartner i p =>
      s.react i fun inbox =>
        if (s.world.store.view inbox.client).hasPartner inbox.uid p then
          some { inbox with partners := p :: inbox.partners }
        else none
  | s, .childAddedMess i p k =>
      s.react i fun inbox =>
        if p ∈ inbox.partners ∧
            (s.world.store.view inbox.client).indexed inbox.uid p k = true then
          some { inbox with values := ⟨p, k⟩ :: inbox.values }
        else none
  | s, .valueMess i p k values =>
      s.react i fun inbox =>
        if ⟨p, k⟩ ∈ inbox.values then
          -- the signed-in user of this moment, not `inbox.uid`
          some (inbox.valueMess sort values (s.world.clients inbox.client).currentUid
            (s.world.store.db.mess k))
        else none

/-! ## What an event does -/

/-- What an event does to the world and to the inboxes. -/
inductive Happens (sort : SortFn Mess) (s : Sessions) : Event → Sessions → Prop
  | world (e : Send.Event) (w : Send.World) (hstep : Send.step s.world e = some w) :
      Happens sort s (.world e)
        { world := w
          inboxes := s.inboxes.map (InboxScreen.notice w) }
  | opensNothing (c : ℕ) : Happens sort s (.viewDidLoad c) s
  | opens (c : ℕ) (uid : String) (huid : (s.world.clients c).currentUid = some uid) :
      Happens sort s (.viewDidLoad c) { s with inboxes := s.inboxes ++ [.viewDidLoad c uid] }
  | childAddedPartner (i : ℕ) (p : String) (inbox : InboxScreen)
      (hi : s.inboxes[i]? = some inbox) :
      Happens sort s (.childAddedPartner i p)
        { s with inboxes := s.inboxes.set i { inbox with partners := p :: inbox.partners } }
  | childAddedMess (i : ℕ) (p k : String) (inbox : InboxScreen)
      (hi : s.inboxes[i]? = some inbox)
      (hindexed : (s.world.store.view inbox.client).indexed inbox.uid p k = true) :
      Happens sort s (.childAddedMess i p k)
        { s with inboxes := s.inboxes.set i { inbox with values := ⟨p, k⟩ :: inbox.values } }
  | valueMess (i : ℕ) (p k : String) (values : Enumeration String Mess) (inbox : InboxScreen)
      (hi : s.inboxes[i]? = some inbox) (hmem : ⟨p, k⟩ ∈ inbox.values) :
      Happens sort s (.valueMess i p k values)
        { s with
          inboxes := s.inboxes.set i (inbox.valueMess sort values
            (s.world.clients inbox.client).currentUid (s.world.store.db.mess k)) }

theorem react_eq_some {s s' : Sessions} {i : ℕ} {f : InboxScreen → Option InboxScreen}
    (h : s.react i f = some s') :
    ∃ inbox inbox', s.inboxes[i]? = some inbox ∧ f inbox = some inbox' ∧
      s' = { s with inboxes := s.inboxes.set i inbox' } := by
  cases hi : s.inboxes[i]? with
  | none => simp [Sessions.react, hi] at h
  | some inbox =>
      simp only [Sessions.react, hi, Option.ite_none_right_eq_some, Option.map_eq_some_iff] at h
      rcases h with ⟨_, inbox', hf, rfl⟩
      exact ⟨inbox, inbox', rfl, hf, rfl⟩

/-- Every event is one of these. -/
theorem happens_of_step {sort : SortFn Mess} {s s' : Sessions} {e : Event}
    (h : step sort s e = some s') : Happens sort s e s' := by
  cases e with
  | world e =>
      rcases Option.map_eq_some_iff.1 h with ⟨w, hstep, rfl⟩
      exact .world e w hstep
  | viewDidLoad c =>
      simp only [step, Option.ite_none_right_eq_some] at h
      rcases h with ⟨_, h⟩
      cases huid : (s.world.clients c).currentUid with
      | none =>
          simp only [huid, Option.some.injEq] at h
          subst h
          exact .opensNothing c
      | some uid =>
          simp only [huid, Option.some.injEq] at h
          subst h
          exact .opens c uid huid
  | childAddedPartner i p =>
      rcases react_eq_some h with ⟨inbox, inbox', hi, hf, rfl⟩
      simp only [Option.ite_none_right_eq_some, Option.some.injEq] at hf
      rcases hf with ⟨_, rfl⟩
      exact .childAddedPartner i p inbox hi
  | childAddedMess i p k =>
      rcases react_eq_some h with ⟨inbox, inbox', hi, hf, rfl⟩
      simp only [Option.ite_none_right_eq_some, Option.some.injEq] at hf
      rcases hf with ⟨⟨_, hindexed⟩, rfl⟩
      exact .childAddedMess i p k inbox hi hindexed
  | valueMess i p k values =>
      rcases react_eq_some h with ⟨inbox, inbox', hi, hf, rfl⟩
      simp only [Option.ite_none_right_eq_some, Option.some.injEq] at hf
      rcases hf with ⟨hmem, rfl⟩
      exact .valueMess i p k values inbox hi hmem

/-! ## The law -/

/-- The message is the record of a key that was found at `usermess/<uid>/<p>`. -/
def InboxScreen.FoundUnder (db : Database) (inbox : InboxScreen) (p : String) (m : Mess) : Prop :=
  ∃ k, ⟨p, k⟩ ∈ inbox.values ∧ messOfInboxSnapshot (db.mess k) = m

/-- A message is in the dictionary or in the rows that was not there. -/
def Adds (c c' : MessageController) : Prop :=
  (∃ p m, c'.messageDictionary.lookup p = some m ∧ c.messageDictionary.lookup p ≠ some m) ∨
    ∃ m, c.arrayMessage.count m < c'.arrayMessage.count m

/-- The step adds nothing to an inbox whose user was signed out. -/
def AddsNothingLate (s s' : Sessions) : Prop :=
  ∀ (i : ℕ) (inbox inbox' : InboxScreen), s.inboxes[i]? = some inbox →
    s'.inboxes[i]? = some inbox' → inbox.left = true →
      ¬ Adds inbox.controller inbox'.controller

/-- Every message of an inbox is filed under the partner it was found under. -/
def FiledByPath (s : Sessions) : Prop :=
  ∀ inbox ∈ s.inboxes, ∀ p m, inbox.controller.messageDictionary.lookup p = some m →
    inbox.FoundUnder s.world.store.db p m

/-- The sessions of the run do not leak into each other. -/
def Apart (sort : SortFn Mess) (es : List Event) : Prop :=
  Step.Along (step sort) (fun s _ s' => AddsNothingLate s s') .init es ∧
    Step.Throughout (step sort) FiledByPath .init es

/-- A value callback after the user was signed out repeats the last delivery to its partner. -/
def LateIsRepeat (s : Sessions) : Event → Prop
  | .valueMess i _ k _ =>
      ∀ inbox, s.inboxes[i]? = some inbox → inbox.left = true →
        let d := InboxScreen.delivery (s.world.clients inbox.client).currentUid
          (s.world.store.db.mess k)
        KeyedLog.latest inbox.delivered d.1 = some d.2
  | _ => True

/-! ## What an inbox observes -/

structure InboxScreen.Wired (w : Send.World) (inbox : InboxScreen) : Prop where
  signedIn : inbox.left = false → (w.clients inbox.client).currentUid = some inbox.uid
  values : ∀ p k, ⟨p, k⟩ ∈ inbox.values → Send.RecordOf w.store.db inbox.uid p k
  rows : (inbox.controller.arrayMessage : Multiset Mess) =
    inbox.controller.messageDictionary.values
  latest : ∀ p, inbox.controller.messageDictionary.lookup p = KeyedLog.latest inbox.delivered p

structure Wired (s : Sessions) : Prop where
  sound : Send.Sound s.world.store
  inboxes : ∀ inbox ∈ s.inboxes, inbox.Wired s.world

theorem wired_init : Wired .init where
  sound := Send.Sound.init
  inboxes inbox h := by cases h

namespace InboxScreen

theorem Wired.notice {w w' : Send.World} {e : Send.Event} {inbox : InboxScreen}
    (h : inbox.Wired w) (hsound : Send.Sound w.store) (hs : Send.step w e = some w') :
    (inbox.notice w').Wired w' where
  signedIn hleft := by
    have hboth : inbox.left = false ∧
        (w'.clients inbox.client).currentUid = some inbox.uid := by
      simpa [InboxScreen.notice] using hleft
    exact hboth.2
  values p k hmem := by
    have hrec := h.values p k hmem
    exact hrec.congr (hsound.mess_effect_of_recordOf (Send.effect_of_step hs) hrec)
  rows := h.rows
  latest := h.latest

theorem wired_viewDidLoad {w : Send.World} {c : ℕ} {uid : String}
    (huid : (w.clients c).currentUid = some uid) : (viewDidLoad c uid).Wired w where
  signedIn _ := huid
  values p k h := by cases h
  rows := rfl
  latest p := rfl

/-- Whatever an observer does to its inbox, the inbox stays wired. -/
theorem Wired.valueMess {w : Send.World} {inbox : InboxScreen} (h : inbox.Wired w)
    (sort : SortFn Mess) (values : Enumeration String Mess) (currentUid : Option String)
    (snap : Json) : (inbox.valueMess sort values currentUid snap).Wired w where
  signedIn := h.signedIn
  values := h.values
  rows := by
    -- the rows are a listing of the dictionary
    have hperm := inbox.controller.arrayMessage_valueMess_perm sort values currentUid snap
    exact (Multiset.coe_eq_coe.2 hperm).trans (values.values_eq _)
  latest p := by
    -- the dictionary has the delivery in the place of the partner's last one
    calc
      (inbox.controller.valueMess sort values currentUid snap).messageDictionary.lookup p
          = if p = (delivery currentUid snap).1 then some (delivery currentUid snap).2
            else inbox.controller.messageDictionary.lookup p :=
            inbox.controller.lookup_valueMess sort values currentUid snap p
      _ = if p = (delivery currentUid snap).1 then some (delivery currentUid snap).2
            else KeyedLog.latest inbox.delivered p := by rw [h.latest p]
      _ = KeyedLog.latest (inbox.delivered ++ [delivery currentUid snap]) p :=
          (KeyedLog.latest_concat _ _ _ _).symm

end InboxScreen

/-- Replacing the `i`-th inbox by a wired one. -/
theorem Wired.set {s : Sessions} (h : Wired s) (i : ℕ) {inbox : InboxScreen}
    (hinbox : inbox.Wired s.world) : Wired { s with inboxes := s.inboxes.set i inbox } where
  sound := h.sound
  inboxes inbox' hmem := by
    rcases List.mem_or_eq_of_mem_set hmem with hold | rfl
    · exact h.inboxes inbox' hold
    · exact hinbox

/-- Every event keeps the inboxes wired. -/
theorem Wired.step {sort : SortFn Mess} {s s' : Sessions} {e : Event} (h : Wired s)
    (hs : step sort s e = some s') : Wired s' := by
  cases happens_of_step hs with
  | world e w hstep =>
      refine ⟨h.sound.step hstep, ?_⟩
      intro inbox' hmem
      rcases List.mem_map.1 hmem with ⟨inbox, hinbox, rfl⟩
      exact (h.inboxes inbox hinbox).notice h.sound hstep
  | opensNothing c => exact h
  | opens c uid huid =>
      refine ⟨h.sound, ?_⟩
      intro inbox hmem
      rcases List.mem_append.1 hmem with hold | hnew
      · exact h.inboxes inbox hold
      · obtain rfl : inbox = .viewDidLoad c uid := by simpa using hnew
        exact InboxScreen.wired_viewDidLoad huid
  | childAddedPartner i p inbox hi =>
      have hinbox := h.inboxes inbox (List.mem_of_getElem? hi)
      exact h.set i ⟨hinbox.signedIn, hinbox.values, hinbox.rows, hinbox.latest⟩
  | childAddedMess i p k inbox hi hindexed =>
      have hinbox := h.inboxes inbox (List.mem_of_getElem? hi)
      refine h.set i ⟨hinbox.signedIn, ?_, hinbox.rows, hinbox.latest⟩
      -- a value observer is set up for a key that the client sees in the index
      intro p' k' hmem
      rcases List.mem_cons.1 hmem with heq | hold
      · cases heq
        exact h.sound.recordOf_view hindexed
      · exact hinbox.values p' k' hold
  | valueMess i p k values inbox hi hmem =>
      exact h.set i ((h.inboxes inbox (List.mem_of_getElem? hi)).valueMess sort values _ _)

/-! ## One event -/

theorem not_adds_self (c : MessageController) : ¬ Adds c c := by
  rintro (⟨p, m, hm, hne⟩ | ⟨m, hlt⟩)
  · exact hne hm
  · exact lt_irrefl _ hlt

/-- An event that changes no controller adds nothing. -/
theorem addsNothingLate_of_controllers {s s' : Sessions}
    (h : ∀ (i : ℕ) (inbox inbox' : InboxScreen), s.inboxes[i]? = some inbox →
      s'.inboxes[i]? = some inbox' → inbox'.controller = inbox.controller) :
    AddsNothingLate s s' := by
  intro i inbox inbox' hi hi' _
  simpa only [h i inbox inbox' hi hi'] using not_adds_self inbox.controller

/-- A callback that delivers what is in the row already leaves the dictionary as it is. -/
theorem messageDictionary_valueMess_of_known {c : MessageController} {sort : SortFn Mess}
    {values : Enumeration String Mess} {currentUid : Option String} {snap : Json}
    (h : c.messageDictionary.lookup ((messOfInboxSnapshot snap).getPartnerId currentUid) =
      some (messOfInboxSnapshot snap)) :
    (c.valueMess sort values currentUid snap).messageDictionary = c.messageDictionary := by
  apply Finmap.ext_lookup
  intro p
  apply (c.lookup_valueMess sort values currentUid snap p).trans
  by_cases hp : p = (messOfInboxSnapshot snap).getPartnerId currentUid
  · subst hp
    simpa using h.symm
  · simp [hp]

/-- So it adds nothing, and any other callback adds its message. -/
theorem adds_valueMess_iff {c : MessageController} {sort : SortFn Mess}
    {values : Enumeration String Mess} {currentUid : Option String} {snap : Json}
    (hrows : (c.arrayMessage : Multiset Mess) = c.messageDictionary.values) :
    ¬ Adds c (c.valueMess sort values currentUid snap) ↔
      c.messageDictionary.lookup ((messOfInboxSnapshot snap).getPartnerId currentUid) =
        some (messOfInboxSnapshot snap) := by
  constructor
  · intro h
    by_contra hne
    exact h (Or.inl ⟨_, messOfInboxSnapshot snap, by simp, hne⟩)
  · intro hknown hadds
    have hdict : (c.valueMess sort values currentUid snap).messageDictionary =
        c.messageDictionary := messageDictionary_valueMess_of_known hknown
    rcases hadds with ⟨p, m, hm, hne⟩ | ⟨m, hlt⟩
    · exact hne (hdict ▸ hm)
    · -- both lists of rows enumerate the same dictionary
      have hrows' : ((c.valueMess sort values currentUid snap).arrayMessage : Multiset Mess) =
          c.arrayMessage := by
        calc
          ((c.valueMess sort values currentUid snap).arrayMessage : Multiset Mess)
              = (values.order (c.valueMess sort values currentUid snap).messageDictionary :
                  Multiset Mess) :=
                Multiset.coe_eq_coe.2 (c.arrayMessage_valueMess_perm sort values currentUid snap)
          _ = c.messageDictionary.values := by simp only [values.values_eq, hdict]
          _ = c.arrayMessage := hrows.symm
      have hcount := (Multiset.coe_eq_coe.1 hrows').count_eq m
      omega

namespace InboxScreen

/-- What was found stays as it was. -/
theorem FoundUnder.notice {w w' : Send.World} {e : Send.Event} {inbox : InboxScreen} {p : String}
    {m : Mess} (h : inbox.FoundUnder w.store.db p m) (hwired : inbox.Wired w)
    (hsound : Send.Sound w.store) (hs : Send.step w e = some w') :
    (inbox.notice w').FoundUnder w'.store.db p m := by
  rcases h with ⟨k, hmem, hm⟩
  have hsame := hsound.mess_effect_of_recordOf (Send.effect_of_step hs) (hwired.values p k hmem)
  exact ⟨k, hmem, hsame ▸ hm⟩

/-- A callback adds nothing exactly if it repeats the last delivery to its partner. -/
theorem Wired.not_adds_iff {w : Send.World} {inbox : InboxScreen} (h : inbox.Wired w)
    (sort : SortFn Mess) (values : Enumeration String Mess) (currentUid : Option String)
    (snap : Json) :
    ¬ Adds inbox.controller (inbox.valueMess sort values currentUid snap).controller ↔
      KeyedLog.latest inbox.delivered (delivery currentUid snap).1 =
        some (delivery currentUid snap).2 := by
  rw [← h.latest]
  exact adds_valueMess_iff h.rows

end InboxScreen

/-- An inbox in the place of another one of the same user. -/
theorem FiledByPath.set {s : Sessions} (h : FiledByPath s) (i : ℕ) {inbox : InboxScreen}
    (hinbox : ∀ p m, inbox.controller.messageDictionary.lookup p = some m →
      inbox.FoundUnder s.world.store.db p m) :
    FiledByPath { s with inboxes := s.inboxes.set i inbox } := by
  intro inbox' hmem
  rcases List.mem_or_eq_of_mem_set hmem with hold | rfl
  · exact h inbox' hold
  · exact hinbox

/-- Replacing the `i`-th inbox leaves the others. -/
theorem getElem?_set_cases {inboxes : List InboxScreen} {i j : ℕ}
    {inbox new old new' : InboxScreen} (hi : inboxes[i]? = some inbox)
    (hold : inboxes[j]? = some old) (hnew : (inboxes.set i new)[j]? = some new') :
    (j = i ∧ old = inbox ∧ new' = new) ∨ (j ≠ i ∧ new' = old) := by
  by_cases hj : j = i
  · subst hj
    have hlt : j < inboxes.length := (List.getElem?_eq_some_iff.1 hi).1
    have hsame : new = new' := by simpa [hlt] using hnew
    exact Or.inl ⟨rfl, Option.some.inj (hold.symm.trans hi), hsame.symm⟩
  · have hsame : old = new' := by simpa [List.getElem?_set_ne (Ne.symm hj), hold] using hnew
    exact Or.inr ⟨hj, hsame.symm⟩

/-- An observer that leaves the controller alone adds nothing. -/
theorem addsNothingLate_set {s : Sessions} {i : ℕ} {inbox new : InboxScreen}
    (hi : s.inboxes[i]? = some inbox) (hcontroller : new.controller = inbox.controller) :
    AddsNothingLate s { s with inboxes := s.inboxes.set i new } := by
  apply addsNothingLate_of_controllers
  intro j old new' hold hnew
  rcases getElem?_set_cases hi hold hnew with ⟨_, hsame, hsame'⟩ | ⟨_, hsame⟩
  · simpa only [hsame, hsame'] using hcontroller
  · simp only [hsame]

namespace InboxScreen

/-- As long as its user is signed in, an inbox gives a message the partner it was found under. -/
theorem Wired.getPartnerId {w : Send.World} {inbox : InboxScreen} (h : inbox.Wired w)
    (hleft : inbox.left = false) {p k : String} (hmem : ⟨p, k⟩ ∈ inbox.values) :
    (messOfInboxSnapshot (w.store.db.mess k)).getPartnerId
      (w.clients inbox.client).currentUid = p := by
  -- the signed-in user is the one for whom the message was indexed
  rcases (h.values p k hmem).decodes with ⟨m, hm, hbetween⟩
  have hdecode : messOfInboxSnapshot (w.store.db.mess k) = m :=
    (messOfChatSnapshot_eq_ok.1 hm).2.symm
  simpa only [hdecode, h.signedIn hleft] using hbetween.getPartnerId

theorem Wired.foundUnder_valueMess {sort : SortFn Mess} {w : Send.World} {inbox : InboxScreen}
    (h : inbox.Wired w) (hleft : inbox.left = false) {p k : String} (hmem : ⟨p, k⟩ ∈ inbox.values)
    (values : Enumeration String Mess)
    (hfiled : ∀ q m, inbox.controller.messageDictionary.lookup q = some m →
      inbox.FoundUnder w.store.db q m) (q : String) (m : Mess)
    (hm : (inbox.valueMess sort values (w.clients inbox.client).currentUid
      (w.store.db.mess k)).controller.messageDictionary.lookup q = some m) :
    inbox.FoundUnder w.store.db q m := by
  simp only [InboxScreen.valueMess, MessageController.lookup_valueMess,
    h.getPartnerId hleft hmem] at hm
  by_cases hq : q = p
  · subst hq
    exact ⟨k, hmem, by simpa using hm⟩
  · exact hfiled q m (by simpa [hq] using hm)

end InboxScreen

/-- A value callback keeps the sessions apart exactly if it is not late, or a repeat. -/
theorem valueMess_iff {sort : SortFn Mess} {s : Sessions} (h : Wired s) (hfiled : FiledByPath s)
    {i : ℕ} {p k : String} {values : Enumeration String Mess} {inbox : InboxScreen}
    (hi : s.inboxes[i]? = some inbox) (hmem : ⟨p, k⟩ ∈ inbox.values) :
    AddsNothingLate s { s with
        inboxes := s.inboxes.set i (inbox.valueMess sort values
          (s.world.clients inbox.client).currentUid (s.world.store.db.mess k)) } ∧
      FiledByPath { s with
        inboxes := s.inboxes.set i (inbox.valueMess sort values
          (s.world.clients inbox.client).currentUid (s.world.store.db.mess k)) } ↔
      LateIsRepeat s (.valueMess i p k values) := by
  have hinbox := h.inboxes inbox (List.mem_of_getElem? hi)
  have hadds := hinbox.not_adds_iff sort values (s.world.clients inbox.client).currentUid
    (s.world.store.db.mess k)
  constructor
  · rintro ⟨hnothing, _⟩ inbox' hi' hleft
    have heq : inbox' = inbox := Option.some.inj (hi'.symm.trans hi)
    subst heq
    have hlt : i < s.inboxes.length := (List.getElem?_eq_some_iff.1 hi).1
    exact hadds.1 (hnothing i inbox' _ hi (List.getElem?_set_self hlt) hleft)
  · intro hrepeat
    refine ⟨?_, hfiled.set i ?_⟩
    · intro j old new hold hnew hleft
      rcases getElem?_set_cases hi hold hnew with ⟨_, rfl, rfl⟩ | ⟨_, rfl⟩
      · exact hadds.2 (hrepeat old hi hleft)
      · exact not_adds_self _
    · intro q m hm
      have hold := hfiled inbox (List.mem_of_getElem? hi)
      cases hleft : inbox.left with
      | false => exact hinbox.foundUnder_valueMess hleft hmem values hold q m hm
      | true =>
          -- nothing is filed anew
          have hdict :
              (inbox.controller.valueMess sort values (s.world.clients inbox.client).currentUid
                (s.world.store.db.mess k)).messageDictionary =
                  inbox.controller.messageDictionary :=
            messageDictionary_valueMess_of_known ((hinbox.latest _).trans (hrepeat inbox hi hleft))
          exact hold q m (hdict ▸ hm)

/-- Every event keeps the sessions apart exactly under its condition. -/
theorem FiledByPath.step_iff {sort : SortFn Mess} {s s' : Sessions} {e : Event} (h : Wired s)
    (hfiled : FiledByPath s) (hs : step sort s e = some s') :
    AddsNothingLate s s' ∧ FiledByPath s' ↔ LateIsRepeat s e := by
  cases happens_of_step hs with
  | world e w hstep =>
      refine iff_of_true ⟨addsNothingLate_of_controllers ?_, ?_⟩ trivial
      · intro i inbox inbox' hi hi'
        have hsame : inbox.notice w = inbox' := by simpa [hi] using hi'
        simp only [← hsame, InboxScreen.notice]
      · intro inbox' hmem p m hm
        rcases List.mem_map.1 hmem with ⟨inbox, hinbox, rfl⟩
        exact (hfiled inbox hinbox p m hm).notice (h.inboxes inbox hinbox) h.sound hstep
  | opensNothing c =>
      refine iff_of_true ⟨addsNothingLate_of_controllers ?_, hfiled⟩ trivial
      intro i inbox inbox' hi hi'
      exact congrArg InboxScreen.controller (Option.some.inj (hi'.symm.trans hi))
  | opens c uid huid =>
      refine iff_of_true ⟨addsNothingLate_of_controllers ?_, ?_⟩ trivial
      · intro i inbox inbox' hi hi'
        have hlt : i < s.inboxes.length := (List.getElem?_eq_some_iff.1 hi).1
        have hi'' : s.inboxes[i]? = some inbox' := (List.getElem?_append_left hlt).symm.trans hi'
        exact congrArg InboxScreen.controller (Option.some.inj (hi''.symm.trans hi))
      · intro inbox hmem p m hm
        rcases List.mem_append.1 hmem with hold | hnew
        · exact hfiled inbox hold p m hm
        · -- a new inbox is empty
          obtain rfl : inbox = .viewDidLoad c uid := by simpa using hnew
          simp [InboxScreen.viewDidLoad, MessageController.viewDidLoad] at hm
  | childAddedPartner i p inbox hi =>
      refine iff_of_true ⟨addsNothingLate_set hi rfl, hfiled.set i ?_⟩ trivial
      exact hfiled inbox (List.mem_of_getElem? hi)
  | childAddedMess i p k inbox hi hindexed =>
      refine iff_of_true ⟨addsNothingLate_set hi rfl, hfiled.set i ?_⟩ trivial
      intro q m hm
      rcases hfiled inbox (List.mem_of_getElem? hi) q m hm with ⟨k', hmem, hm'⟩
      exact ⟨k', List.mem_cons_of_mem _ hmem, hm'⟩
  | valueMess i p k values inbox hi hmem => exact valueMess_iff h hfiled hi hmem

/-! ## Runs -/

/-- In every run, the sessions stay apart exactly when every value callback of an inbox runs while
its user has been signed in ever since, or repeats the last delivery to its partner. -/
theorem apart_iff_lateIsRepeat (sort : SortFn Mess) (es : List Event) :
    Apart sort es ↔ Step.Along (step sort) (fun s e _ => LateIsRepeat s e) .init es := by
  refine Step.along_and_throughout_iff (I := Wired) ?_ ?_ wired_init ?_
  · intro s e s' h hs
    exact h.step hs
  · intro s e s' h hfiled hs
    exact hfiled.step_iff h hs
  · intro inbox h
    cases h

/-- Bob writes to Alice from his device. -/
def helloAlice : Send.MessWrite :=
  { client := 1
    key := "k1"
    fromid := some "bob"
    toid := some "alice"
    data := .text "bob" "alice" "hello" (NSNumber.ofInt 1)
    upload := none }

/-- Alice opens her inbox and signs out; Bob signs in on her device. -/
def accountChanges : List Event :=
  [.world (.profileWritten "alice" "Alice" "alice@chat" "secret" none),
    .world (.authChanged 1 (some "bob")), .world (.childAddedUser 1 "alice"),
    .world (.didSelectUser 1 0), .world (.sendMess 1 0 "k1" "hello" 1),
    .world (.messAnswered helloAlice true), .world (.messCompletion helloAlice),
    .world (.indexAnswered ⟨1, "alice", "bob", "k1"⟩ true),
    .world (.authChanged 0 (some "alice")), .viewDidLoad 0, .childAddedPartner 0 "bob",
    .childAddedMess 0 "bob" "k1", .world (.authChanged 0 none),
    .world (.authChanged 0 (some "bob"))]

/-- Only then Alice's inbox hears of the message, and files it under Alice herself. -/
theorem accountChanges_not_apart : ¬ ∀ (sort : SortFn Mess) (es : List Event), Apart sort es := by
  intro h
  obtain ⟨s₁, s₂, inbox, inbox', hrun, hstep, hi, hi', hleft, hbefore, hafter⟩ :
      ∃ s₁ s₂ inbox inbox', Step.run (step (.merge Mess)) .init accountChanges = some s₁ ∧
        step (.merge Mess) s₁ (.valueMess 0 "bob" "k1" .byKey) = some s₂ ∧
        s₁.inboxes[0]? = some inbox ∧ s₂.inboxes[0]? = some inbox' ∧ inbox.left = true ∧
        inbox.controller.messageDictionary = ∅ ∧
        inbox'.controller.messageDictionary =
          inbox.controller.messageDictionary.insert "alice" helloAlice.data.toMess :=
    ⟨_, _, _, _, rfl, rfl, rfl, rfl, rfl, rfl, rfl⟩
  have hnothing := (h (.merge Mess) (accountChanges ++ [.valueMess 0 "bob" "k1" .byKey])).1
    accountChanges _ [] s₁ s₂ rfl hrun hstep
  apply hnothing 0 inbox inbox' hi hi' hleft
  exact Or.inl ⟨"alice", helloAlice.data.toMess, by simp [hafter], by simp [hbefore]⟩

end Inbox
end AppChatAgain
