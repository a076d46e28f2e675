import AppChatAgain.Send.World

/-!
# Send.Passwords — where the password of a registration goes

`register_to_firebase` stores the password in the profile `user/<uid>`, and every reader of the
profile decodes it into a `User`.  It goes nowhere else: two runs of any clients that differ in one
user's password alone agree in everything but the `pass` of this user.

* `EventAlike`       : events of the two runs;
* `Alike`            : states of the two runs, related by every step;
* `SameObservations` : what a client sees of the other users.
-/

namespace AppChatAgain
namespace Send

open Foundation Firebase Records

/-! ## Forgetting a password -/

/-- The user, without the password if it is the user `a`. -/
def hidePass (a : String) (user : User) : User :=
  if user.id = a then { user with pass := "" } else user

def ChatScreen.hidePass (a : String) (screen : ChatScreen) : ChatScreen :=
  { screen with user := screen.user.map (Send.hidePass a) }

def Client.hidePass (a : String) (cl : Client) : Client :=
  { cl with
    arrayUser := cl.arrayUser.map (Send.hidePass a)
    screens := cl.screens.map (ChatScreen.hidePass a) }

@[simp] theorem id_hidePass (a : String) (user : User) : (hidePass a user).id = user.id := by
  by_cases h : user.id = a
  · simp [hidePass, h]
  · simp [hidePass, h]

@[simp] theorem ChatScreen.partner_hidePass (a : String) (screen : ChatScreen) :
    (screen.hidePass a).partner = screen.partner :=
  rfl

/-- Profiles that differ in the password alone stand for users that do. -/
theorem hidePass_profileUser (a name email pass pass' : String) (avatarUrl : Option String) :
    hidePass a (profileUser name email pass avatarUrl a) =
      hidePass a (profileUser name email pass' avatarUrl a) := by
  simp [hidePass, profileUser]

/-- The ids of a screen do not depend on passwords. -/
theorem map_id_of_hidePass {a : String} {screen screen' : ChatScreen}
    (h : screen.hidePass a = screen'.hidePass a) :
    screen.user.map User.id = screen'.user.map User.id := by
  have hids := congrArg (fun s : ChatScreen => s.user.map User.id) h
  have hcomp : User.id ∘ Send.hidePass a = User.id := by
    funext user
    exact id_hidePass a user
  simpa [ChatScreen.hidePass, Option.map_map, hcomp] using hids

/-- Setting the user of a chat, with the passwords hidden. -/
theorem map_hidePass_modify (a : String) (i : ℕ) (user : User) (screens : List ChatScreen) :
    (screens.modify i fun screen => { screen with user := some user }).map
        (ChatScreen.hidePass a) =
      (screens.map (ChatScreen.hidePass a)).modify i
        fun screen => { screen with user := some (hidePass a user) } := by
  apply List.ext_getElem?
  intro j
  simp only [List.getElem?_map, List.getElem?_modify]
  by_cases hij : i = j
  · cases screens[j]? <;> simp [hij, ChatScreen.hidePass]
  · cases screens[j]? <;> simp [hij]

/-- Clients that agree but for passwords agree in each field. -/
theorem Client.hidePass_eq_iff {a : String} {cl cl' : Client} :
    cl.hidePass a = cl'.hidePass a ↔ cl.running = cl'.running ∧ cl.currentUid = cl'.currentUid ∧
      cl.arrayUser.map (Send.hidePass a) = cl'.arrayUser.map (Send.hidePass a) ∧
        cl.screens.map (ChatScreen.hidePass a) = cl'.screens.map (ChatScreen.hidePass a) := by
  simp only [Client.hidePass, Client.mk.injEq]

/-- Lists that agree under `f` agree under `f` at every index. -/
theorem getElem?_cases_of_map_eq {α β : Type} {f : α → β} {l l' : List α}
    (h : l.map f = l'.map f) (i : ℕ) :
    (l[i]? = none ∧ l'[i]? = none) ∨
      ∃ x x', l[i]? = some x ∧ l'[i]? = some x' ∧ f x = f x' := by
  have hi : l[i]?.map f = l'[i]?.map f := by
    simpa using congrArg (fun m => m[i]?) h
  cases hx : l[i]? with
  | none =>
      cases hx' : l'[i]? with
      | none => exact Or.inl ⟨rfl, rfl⟩
      | some x' => simp [hx, hx'] at hi
  | some x =>
      cases hx' : l'[i]? with
      | none => simp [hx, hx'] at hi
      | some x' =>
          have heq : f x = f x' := by simpa [hx, hx'] using hi
          exact Or.inr ⟨x, x', rfl, rfl, heq⟩

/-! ## Two runs -/

/-- The same event, or a registration of `a` with another password. -/
inductive EventAlike (a : String) : Event → Event → Prop
  | same (e : Event) : EventAlike a e e
  | registers (name email pass pass' : String) (avatarUrl : Option String) :
      EventAlike a (.profileWritten a name email pass avatarUrl)
        (.profileWritten a name email pass' avatarUrl)

/-- The same profile, or two of `a` that differ in the password. -/
inductive ProfileAlike (a : String) : String → Json → Json → Prop
  | same (uid : String) (snap : Json) : ProfileAlike a uid snap snap
  | registered (name email pass pass' : String) (avatarUrl : Option String) :
      ProfileAlike a a (profileRecord name email pass avatarUrl a)
        (profileRecord name email pass' avatarUrl a)

structure StoreAlike (a : String) (s s' : Store) : Prop where
  issued : s.issued = s'.issued
  messWrites : s.messWrites = s'.messWrites
  acked : s.acked = s'.acked
  indexWrites : s.indexWrites = s'.indexWrites
  mess : ∀ k, s.db.mess k = s'.db.mess k
  indexed : ∀ p q k, s.db.indexed p q k = s'.db.indexed p q k
  profiles : ∀ uid, ProfileAlike a uid (s.db.user uid) (s'.db.user uid)

structure Alike (a : String) (w w' : World) : Prop where
  store : StoreAlike a w.store w'.store
  storage : w.storage = w'.storage
  putDatas : w.putDatas = w'.putDatas
  downloadUrls : w.downloadUrls = w'.downloadUrls
  clients : ∀ c, (w.clients c).hidePass a = (w'.clients c).hidePass a

theorem alike_init (a : String) : Alike a .init .init where
  store := ⟨rfl, rfl, rfl, rfl, fun _ => rfl, fun _ _ _ => rfl, fun uid => .same uid _⟩
  storage := rfl
  putDatas := rfl
  downloadUrls := rfl
  clients _ := rfl

/-! ## Reading a profile -/

namespace ProfileAlike

variable {a uid : String} {snap snap' : Json}

theorem isEmpty (h : ProfileAlike a uid snap snap') : snap.isEmpty = snap'.isEmpty := by
  cases h with
  | same => rfl
  | registered name email pass pass' avatarUrl => cases avatarUrl <;> rfl

theorem field (h : ProfileAlike a uid snap snap') {k : String} (hk : k ≠ "pass") :
    snap.field k = snap'.field k := by
  cases h with
  | same => rfl
  | registered name email pass pass' avatarUrl =>
      cases avatarUrl with
      | none => simp [profileRecord, profileFields, KeyTree.child_set_cons, hk]
      | some url => simp [profileRecord, profileFields, KeyTree.child_set_cons, hk]

theorem userForcingName (h : ProfileAlike a uid snap snap') :
    (Records.userForcingName snap).map (hidePass a) =
      (Records.userForcingName snap').map (hidePass a) := by
  cases h with
  | same => rfl
  | registered name email pass pass' avatarUrl =>
      simp only [userForcingName_profileRecord]
      exact congrArg Except.ok (hidePass_profileUser a name email pass pass' avatarUrl)

theorem userForcingAll (h : ProfileAlike a uid snap snap') :
    (Records.userForcingAll snap).map (hidePass a) =
      (Records.userForcingAll snap').map (hidePass a) := by
  cases h with
  | same => rfl
  | registered name email pass pass' avatarUrl =>
      simp only [userForcingAll_profileRecord]
      exact congrArg Except.ok (hidePass_profileUser a name email pass pass' avatarUrl)

theorem userDefaulting (h : ProfileAlike a uid snap snap') :
    hidePass a (Records.userDefaulting snap) = hidePass a (Records.userDefaulting snap') := by
  cases h with
  | same => rfl
  | registered name email pass pass' avatarUrl =>
      simp only [userDefaulting_profileRecord]
      exact hidePass_profileUser a name email pass pass' avatarUrl

end ProfileAlike

/-! ## The stores in lockstep -/

namespace StoreAlike

variable {a : String} {s s' : Store}

theorem issue (h : StoreAlike a s s') (mw : MessWrite) :
    StoreAlike a (s.issue mw) (s'.issue mw) where
  issued := by simp [Store.issue, h.issued]
  messWrites := by simp [Store.issue, h.messWrites]
  acked := h.acked
  indexWrites := h.indexWrites
  mess := h.mess
  indexed := h.indexed
  profiles := h.profiles

theorem acceptMess (h : StoreAlike a s s') (mw : MessWrite) :
    StoreAlike a (s.acceptMess mw) (s'.acceptMess mw) where
  issued := h.issued
  messWrites := by simp [Store.acceptMess, h.messWrites]
  acked := by simp [Store.acceptMess, h.acked]
  indexWrites := h.indexWrites
  mess k := by
    by_cases hk : mw.key = k
    · subst hk
      simp [Store.acceptMess, Database.mess_updateMess_self, h.mess]
    · simpa [Store.acceptMess, hk] using h.mess k
  indexed p q k := by simpa [Store.acceptMess] using h.indexed p q k
  profiles uid := by simpa [Store.acceptMess] using h.profiles uid

theorem dropMess (h : StoreAlike a s s') (mw : MessWrite) :
    StoreAlike a (s.dropMess mw) (s'.dropMess mw) where
  issued := h.issued
  messWrites := by simp [Store.dropMess, h.messWrites]
  acked := h.acked
  indexWrites := h.indexWrites
  mess := h.mess
  indexed := h.indexed
  profiles := h.profiles

theorem complete (h : StoreAlike a s s') (mw : MessWrite) (iws : List IndexWrite) :
    StoreAlike a (s.complete mw iws) (s'.complete mw iws) where
  issued := h.issued
  messWrites := h.messWrites
  acked := by simp [Store.complete, h.acked]
  indexWrites := by simp [Store.complete, h.indexWrites]
  mess := h.mess
  indexed := h.indexed
  profiles := h.profiles

theorem acceptIndex (h : StoreAlike a s s') (iw : IndexWrite) :
    StoreAlike a (s.acceptIndex iw) (s'.acceptIndex iw) where
  issued := h.issued
  messWrites := h.messWrites
  acked := h.acked
  indexWrites := by simp [Store.acceptIndex, h.indexWrites]
  mess k := by simpa [Store.acceptIndex] using h.mess k
  indexed p q k := by
    refine Bool.eq_iff_iff.2 ?_
    simp [Store.acceptIndex, Database.indexed_addIndex, h.indexed]
  profiles uid := by simpa [Store.acceptIndex] using h.profiles uid

theorem dropIndex (h : StoreAlike a s s') (iw : IndexWrite) :
    StoreAlike a (s.dropIndex iw) (s'.dropIndex iw) where
  issued := h.issued
  messWrites := h.messWrites
  acked := h.acked
  indexWrites := by simp [Store.dropIndex, h.indexWrites]
  mess := h.mess
  indexed := h.indexed
  profiles := h.profiles

/-- Profiles that are alike are written in both runs. -/
theorem setUser (h : StoreAlike a s s') (uid : String) {profile profile' : Json}
    (hp : ProfileAlike a uid profile profile') :
    StoreAlike a (s.setUser uid profile) (s'.setUser uid profile') where
  issued := h.issued
  messWrites := h.messWrites
  acked := h.acked
  indexWrites := h.indexWrites
  mess k := by simpa [Store.setUser] using h.mess k
  indexed p q k := by simpa [Store.setUser] using h.indexed p q k
  profiles uid' := by
    by_cases huid : uid' = uid
    · subst huid
      simpa [Store.setUser, Database.user_setUser] using hp
    · simpa [Store.setUser, Database.user_setUser, huid] using h.profiles uid'

end StoreAlike

/-! ## The clients in lockstep -/

namespace Alike

variable {a : String} {w w' : World}

theorem running (h : Alike a w w') (c : ℕ) : (w.clients c).running = (w'.clients c).running :=
  (Client.hidePass_eq_iff.1 (h.clients c)).1

theorem currentUid (h : Alike a w w') (c : ℕ) :
    (w.clients c).currentUid = (w'.clients c).currentUid :=
  (Client.hidePass_eq_iff.1 (h.clients c)).2.1

theorem arrayUser (h : Alike a w w') (c : ℕ) :
    (w.clients c).arrayUser.map (hidePass a) = (w'.clients c).arrayUser.map (hidePass a) :=
  (Client.hidePass_eq_iff.1 (h.clients c)).2.2.1

theorem screens (h : Alike a w w') (c : ℕ) :
    (w.clients c).screens.map (ChatScreen.hidePass a) =
      (w'.clients c).screens.map (ChatScreen.hidePass a) :=
  (Client.hidePass_eq_iff.1 (h.clients c)).2.2.2

theorem setStore (h : Alike a w w') {s s' : Store} (hs : StoreAlike a s s') :
    Alike a { w with store := s } { w' with store := s' } :=
  ⟨hs, h.storage, h.putDatas, h.downloadUrls, h.clients⟩

theorem setClient (h : Alike a w w') (c : ℕ) {cl cl' : Client}
    (hcl : cl.hidePass a = cl'.hidePass a) : Alike a (w.setClient c cl) (w'.setClient c cl') where
  store := h.store
  storage := h.storage
  putDatas := h.putDatas
  downloadUrls := h.downloadUrls
  clients c' := by
    by_cases hc : c' = c
    · subst hc
      simpa [World.setClient] using hcl
    · simpa [World.setClient, hc] using h.clients c'

theorem stopClient (h : Alike a w w') (c : ℕ) : Alike a (w.stopClient c) (w'.stopClient c) := by
  apply h.setClient c
  exact Client.hidePass_eq_iff.2 ⟨rfl, h.currentUid c, h.arrayUser c, h.screens c⟩

/-- A callback that does alike things to the client is possible in both runs, or in none. -/
theorem react (h : Alike a w w') (c : ℕ) {f f' : Client → Except Trap Client}
    (hf : (f (w.clients c)).map (Client.hidePass a) =
      (f' (w'.clients c)).map (Client.hidePass a)) :
    Option.Rel (Alike a) (w.react c f) (w'.react c f') := by
  simp only [World.react, ← h.running c]
  by_cases hrun : (w.clients c).running = true
  · simp only [if_pos hrun]
    rcases cases_of_map_eq hf with ⟨cl, cl', hcl, hcl', heq⟩ | ⟨t, ht, ht'⟩
    · simpa only [hcl, hcl'] using Option.Rel.some (h.setClient c heq)
    · -- the callback traps, and the client stops in both runs
      simpa only [ht, ht'] using Option.Rel.some (h.stopClient c)
  · simp only [if_neg hrun]
    exact .none

theorem send (h : Alike a w w') (mw : MessWrite) :
    Option.Rel (Alike a) (w.send mw) (w'.send mw) := by
  simp only [World.send, ← h.running mw.client, ← h.store.issued]
  by_cases hok : (w.clients mw.client).running = true ∧ mw.key ∉ w.store.issued
  · simp only [if_pos hok]
    exact .some (h.setStore (h.store.issue mw))
  · simp only [if_neg hok]
    exact .none

/-- The chats of the two runs. -/
theorem getScreen (h : Alike a w w') (c i : ℕ) :
    ((w.clients c).screens[i]? = none ∧ (w'.clients c).screens[i]? = none) ∨
      ∃ screen screen', (w.clients c).screens[i]? = some screen ∧
        (w'.clients c).screens[i]? = some screen' ∧
          screen.hidePass a = screen'.hidePass a :=
  getElem?_cases_of_map_eq (h.screens c) i

/-- What the clients send does not depend on passwords. -/
theorem sendMessToFirebase (h : Alike a w w') (c : ℕ) {screen screen' : ChatScreen}
    (hscreen : screen.hidePass a = screen'.hidePass a) (key textMess : String) (now : ℤ) :
    Send.sendMessToFirebase c (w.clients c) screen key textMess now =
      Send.sendMessToFirebase c (w'.clients c) screen' key textMess now := by
  simp only [Send.sendMessToFirebase, h.currentUid c, map_id_of_hidePass hscreen]

theorem uploadImageToFirebase (h : Alike a w w') (c i : ℕ) {screen screen' : ChatScreen}
    (hscreen : screen.hidePass a = screen'.hidePass a) (image : UIImage)
    (randomImage : Fin 10001) :
    Send.uploadImageToFirebase c i (w.clients c) screen image randomImage =
      Send.uploadImageToFirebase c i (w'.clients c) screen' image randomImage := by
  simp only [Send.uploadImageToFirebase, h.currentUid c, map_id_of_hidePass hscreen]

theorem messWrite (h : Alike a w w') (u : Upload) {screen screen' : ChatScreen}
    (hscreen : screen.hidePass a = screen'.hidePass a) (imageUrl : Option String) (key : String)
    (now : ℤ) :
    u.messWrite (w.clients u.client) screen imageUrl key now =
      u.messWrite (w'.clients u.client) screen' imageUrl key now := by
  simp only [Upload.messWrite, h.currentUid u.client, map_id_of_hidePass hscreen]

/-! ### The callbacks -/

theorem authChanged (h : Alike a w w') (c : ℕ) (uid : Option String) :
    ({ w.clients c with currentUid := uid } : Client).hidePass a =
      ({ w'.clients c with currentUid := uid } : Client).hidePass a :=
  Client.hidePass_eq_iff.2 ⟨h.running c, rfl, h.arrayUser c, h.screens c⟩

/-- Decoding a profile into the list of users. -/
theorem childAddedUser (h : Alike a w w') (c : ℕ) (uid : String) :
    ((w.clients c).childAddedUser (w.store.db.user uid)).map (Client.hidePass a) =
      ((w'.clients c).childAddedUser (w'.store.db.user uid)).map (Client.hidePass a) := by
  have hread := (h.store.profiles uid).userForcingAll
  rcases cases_of_map_eq hread with ⟨user, user', huser, huser', heq⟩ | ⟨t, ht, ht'⟩
  · simp only [Client.childAddedUser, huser, huser']
    apply congrArg Except.ok
    apply Client.hidePass_eq_iff.2
    exact ⟨h.running c, h.currentUid c, by simp [h.arrayUser c, heq], h.screens c⟩
  · simp only [Client.childAddedUser, ht, ht']
    rfl

theorem didSelectUser (h : Alike a w w') (c : ℕ) {user user' : User}
    (huser : Send.hidePass a user = Send.hidePass a user') :
    ((w.clients c).didSelectUser user).hidePass a =
      ((w'.clients c).didSelectUser user').hidePass a := by
  apply Client.hidePass_eq_iff.2
  refine ⟨h.running c, h.currentUid c, h.arrayUser c, ?_⟩
  simp [Client.didSelectUser, ChatScreen.hidePass, h.screens c, huser]

theorem didSelectMess (h : Alike a w w') (c : ℕ) (partnerId : String) :
    ((w.clients c).didSelectMess partnerId).map (Client.hidePass a) =
      ((w'.clients c).didSelectMess partnerId).map (Client.hidePass a) := by
  cases hchild : child partnerId with
  | error t =>
      simp only [Client.didSelectMess, hchild]
      rfl
  | ok uid =>
      simp only [Client.didSelectMess, hchild]
      apply congrArg Except.ok
      apply Client.hidePass_eq_iff.2
      exact ⟨h.running c, h.currentUid c, h.arrayUser c, by simp [h.screens c]⟩

/-- Decoding a profile into the user of a chat. -/
theorem valueUser (h : Alike a w w') (c i : ℕ) (uid : String) :
    ((w.clients c).valueUser i (w.store.db.user uid)).map (Client.hidePass a) =
      ((w'.clients c).valueUser i (w'.store.db.user uid)).map (Client.hidePass a) := by
  have hread := (h.store.profiles uid).userForcingName
  rcases cases_of_map_eq hread with ⟨user, user', huser, huser', heq⟩ | ⟨t, ht, ht'⟩
  · simp only [Client.valueUser, huser, huser']
    apply congrArg Except.ok
    apply Client.hidePass_eq_iff.2
    refine ⟨h.running c, h.currentUid c, h.arrayUser c, ?_⟩
    calc
      _ = ((w.clients c).screens.map (ChatScreen.hidePass a)).modify i
            fun screen => { screen with user := some (Send.hidePass a user) } :=
          map_hidePass_modify a i user _
      _ = ((w'.clients c).screens.map (ChatScreen.hidePass a)).modify i
            fun screen => { screen with user := some (Send.hidePass a user') } := by
          simp only [h.screens c, heq]
      _ = _ := (map_hidePass_modify a i user' _).symm
  · simp only [Client.valueUser, ht, ht']
    rfl

end Alike

/-! ## One event -/

/-- Guarded by conditions that are equivalent in the two runs. -/
theorem rel_ite {σ : Type} {R : σ → σ → Prop} {p p' : Prop} [Decidable p] [Decidable p']
    (hp : p ↔ p') {o o' : Option σ} (h : p → Option.Rel R o o') :
    Option.Rel R (if p then o else none) (if p' then o' else none) := by
  by_cases hpos : p
  · simpa only [if_pos hpos, if_pos (hp.1 hpos)] using h hpos
  · have hneg : ¬ p' := fun hpos' => hpos (hp.2 hpos')
    simp only [if_neg hpos, if_neg hneg]
    exact .none

/-- The same event keeps the runs alike. -/
theorem Alike.step {a : String} {w w' : World} (h : Alike a w w') (e : Event) :
    Option.Rel (Alike a) (step w e) (step w' e) := by
  cases e with
  | authChanged c uid =>
      apply rel_ite Iff.rfl
      intro _
      exact h.react c (congrArg Except.ok (h.authChanged c uid))
  | profileWritten uid name email pass avatarUrl =>
      apply rel_ite Iff.rfl
      intro _
      exact .some (h.setStore (h.store.setUser uid (.same uid _)))
  | childAddedUser c uid =>
      -- whether there is a profile at all does not depend on its password
      simp only [Send.step, ← (h.store.profiles uid).isEmpty]
      by_cases hempty : (w.store.db.user uid).isEmpty = true
      · simp only [if_pos hempty]
        exact .none
      · simp only [if_neg hempty]
        exact h.react c (h.childAddedUser c uid)
  | didSelectUser c row =>
      rcases getElem?_cases_of_map_eq (h.arrayUser c) row with
        ⟨hrow, hrow'⟩ | ⟨user, user', hrow, hrow', heq⟩
      · simp only [Send.step, hrow, hrow']
        exact .none
      · simp only [Send.step, hrow, hrow']
        exact h.react c (congrArg Except.ok (h.didSelectUser c heq))
  | didSelectMess c partnerId =>
      simp only [Send.step]
      apply h.react c
      exact h.didSelectMess c partnerId
  | valueUser c i =>
      rcases h.getScreen c i with ⟨hi, hi'⟩ | ⟨screen, screen', hi, hi', heq⟩
      · simp only [Send.step, hi, hi', Option.bind_none]
        exact .none
      · -- the partner of a screen is not hidden
        have hpartner : screen.partner = screen'.partner := by
          simpa using congrArg ChatScreen.partner heq
        simp only [Send.step, hi, hi', Option.bind_some, ← hpartner]
        cases screen.partner with
        | none => exact .none
        | some uid => exact h.react c (h.valueUser c i uid)
  | sendMess c i key textMess now =>
      rcases h.getScreen c i with ⟨hi, hi'⟩ | ⟨screen, screen', hi, hi', heq⟩
      · simp only [Send.step, hi, hi']
        exact .none
      · simp only [Send.step, hi, hi', ← h.sendMessToFirebase c heq key textMess now]
        exact h.send _
  | pickImage c i image randomImage =>
      rcases h.getScreen c i with ⟨hi, hi'⟩ | ⟨screen, screen', hi, hi', heq⟩
      · simp only [Send.step, hi, hi']
        exact .none
      · simp only [Send.step, hi, hi', ← h.uploadImageToFirebase c i heq image randomImage]
        apply rel_ite (by simp [h.running c])
        intro _
        cases Send.uploadImageToFirebase c i (w.clients c) screen image randomImage with
        | ok u =>
            exact .some ⟨h.store, h.storage, by simp [h.putDatas], h.downloadUrls, h.clients⟩
        | error t => exact .some (h.stopClient c)
  | putDataAnswered u ok =>
      apply rel_ite (by simp [h.putDatas])
      intro _
      cases ok with
      | true =>
          exact .some ⟨h.store, by simp [h.storage], by simp [h.putDatas],
            by simp [h.downloadUrls], h.clients⟩
      | false => exact .some ⟨h.store, h.storage, by simp [h.putDatas], h.downloadUrls, h.clients⟩
  | downloadUrlFailed u =>
      apply rel_ite (by simp [h.downloadUrls])
      intro _
      exact .some ⟨h.store, h.storage, h.putDatas, by simp [h.downloadUrls], h.clients⟩
  | downloadUrlDone u imageUrl key now =>
      apply rel_ite (by simp [h.downloadUrls])
      intro _
      have hrest : Alike a { w with downloadUrls := w.downloadUrls.erase u }
          { w' with downloadUrls := w'.downloadUrls.erase u } :=
        ⟨h.store, h.storage, h.putDatas, by simp [h.downloadUrls], h.clients⟩
      rcases h.getScreen u.client u.screen with ⟨hi, hi'⟩ | ⟨screen, screen', hi, hi', heq⟩
      · simp only [hi, hi']
        exact .none
      · simp only [hi, hi', ← h.messWrite u heq imageUrl key now]
        exact hrest.send _
  | messAnswered mw ok =>
      apply rel_ite (by simp [h.store.messWrites])
      intro _
      cases ok with
      | true => exact .some (h.setStore (h.store.acceptMess mw))
      | false => exact .some (h.setStore (h.store.dropMess mw))
  | messCompletion mw =>
      apply rel_ite (by simp [h.store.acked, h.running mw.client])
      intro _
      -- the index writes are those of the record, which is the same
      cases mw.indexWrites with
      | ok iws => exact .some (h.setStore (h.store.complete mw iws))
      | error t => exact .some ((h.setStore (h.store.complete mw [])).stopClient mw.client)
  | indexAnswered iw ok =>
      apply rel_ite (by simp [h.store.indexWrites])
      intro _
      cases ok with
      | true => exact .some (h.setStore (h.store.acceptIndex iw))
      | false => exact .some (h.setStore (h.store.dropIndex iw))
  | stop c => exact rel_ite (by simp [h.running c]) fun _ => .some (h.stopClient c)
  | messLost mw =>
      apply rel_ite (by simp [h.store.messWrites, h.running mw.client])
      intro _
      exact .some (h.setStore (h.store.dropMess mw))
  | indexLost iw =>
      apply rel_ite (by simp [h.store.indexWrites, h.running iw.client])
      intro _
      exact .some (h.setStore (h.store.dropIndex iw))

/-- So does a registration with another password. -/
theorem Alike.step_of_eventAlike {a : String} {w w' : World} (h : Alike a w w') {e e' : Event}
    (he : EventAlike a e e') : Option.Rel (Alike a) (Send.step w e) (Send.step w' e') := by
  cases he with
  | same e => exact h.step e
  | registers name email pass pass' avatarUrl =>
      apply rel_ite Iff.rfl
      intro _
      exact .some (h.setStore (h.store.setUser a (.registered name email pass pass' avatarUrl)))

/-! ## What the clients observe -/

/-- What a client sees of the users: the user table, the list of `new_message`, the users of its
chats, which `message_controller` and `new_message` build, and what the inbox cells build. -/
structure SameObservations (w w' : World) (c : ℕ) : Prop where
  table : ∀ uid, w.store.db.user uid = w'.store.db.user uid
  arrayUser : (w.clients c).arrayUser = (w'.clients c).arrayUser
  screens : (w.clients c).screens = (w'.clients c).screens
  cells : ∀ uid, userForcingName (w.store.db.user uid) = userForcingName (w'.store.db.user uid)

/-- The same, but for the entry `pass` of the profile of `a`, and for the `pass` of its users. -/
structure SameButPass (a : String) (w w' : World) (c : ℕ) : Prop where
  table : ∀ uid, uid ≠ a → w.store.db.user uid = w'.store.db.user uid
  entries : (w.store.db.user a).isEmpty = (w'.store.db.user a).isEmpty ∧
    ∀ k, k ≠ "pass" → (w.store.db.user a).field k = (w'.store.db.user a).field k
  arrayUser : (w.clients c).arrayUser.map (hidePass a) = (w'.clients c).arrayUser.map (hidePass a)
  screens : (w.clients c).screens.map (ChatScreen.hidePass a) =
    (w'.clients c).screens.map (ChatScreen.hidePass a)
  cells : ∀ uid, (userForcingName (w.store.db.user uid)).map (hidePass a) =
    (userForcingName (w'.store.db.user uid)).map (hidePass a)
  readers : ∀ uid, (userForcingAll (w.store.db.user uid)).map (hidePass a) =
      (userForcingAll (w'.store.db.user uid)).map (hidePass a) ∧
    hidePass a (userDefaulting (w.store.db.user uid)) =
      hidePass a (userDefaulting (w'.store.db.user uid))

theorem ProfileAlike.eq_of_ne {a uid : String} {snap snap' : Json}
    (h : ProfileAlike a uid snap snap') (hne : uid ≠ a) : snap = snap' := by
  cases h with
  | same => rfl
  | registered name email pass pass' avatarUrl => exact absurd rfl hne

theorem Alike.sameButPass {a : String} {w w' : World} (h : Alike a w w') (c : ℕ) :
    SameButPass a w w' c where
  table uid hne := (h.store.profiles uid).eq_of_ne hne
  entries := ⟨(h.store.profiles a).isEmpty, fun _ hk => (h.store.profiles a).field hk⟩
  arrayUser := h.arrayUser c
  screens := h.screens c
  cells uid := (h.store.profiles uid).userForcingName
  readers uid := ⟨(h.store.profiles uid).userForcingAll, (h.store.profiles uid).userDefaulting⟩

/-- Two runs of any clients that differ in the password of `a` alone: either both get stuck, or
every client observes the same in both, but for this password. -/
theorem observations_same_but_pass {a : String} {es es' : List Event}
    (hes : List.Forall₂ (EventAlike a) es es') :
    Option.Rel (fun w w' => ∀ c, SameButPass a w w' c) (Step.run step .init es)
      (Step.run step .init es') := by
  have hrel : Option.Rel (Alike a) (Step.run step .init es) (Step.run step .init es') :=
    Step.run_rel (fun w w' e e' h he => h.step_of_eventAlike he) hes (alike_init a)
  generalize Step.run step .init es = o at hrel ⊢
  generalize Step.run step .init es' = o' at hrel ⊢
  cases hrel with
  | none => exact .none
  | some h => exact .some fun c => h.sameButPass c

/-- Alice registers with a password; Bob, on a device of his own, opens the list of users. -/
def registration (pass : String) : List Event :=
  [.profileWritten "alice" "Alice" "alice@chat" pass none, .authChanged 0 (some "bob"),
    .childAddedUser 0 "alice"]

theorem registration_alike (pass pass' : String) :
    List.Forall₂ (EventAlike "alice") (registration pass) (registration pass') :=
  .cons (.registers "Alice" "alice@chat" pass pass' none)
    (.cons (.same _) (.cons (.same _) .nil))

theorem registration_same_but_pass :
    Option.Rel (fun w w' => ∀ c, SameButPass "alice" w w' c)
      (Step.run step .init (registration "secret")) (Step.run step .init (registration "sesame")) :=
  observations_same_but_pass (registration_alike "secret" "sesame")

/-- Bob's list then holds the password. -/
theorem registration_not_same :
    ¬ ∀ (a : String) (es es' : List Event) (w w' : World),
      List.Forall₂ (EventAlike a) es es' → Step.run step .init es = some w →
        Step.run step .init es' = some w' → ∀ c, SameObservations w w' c := by
  intro h
  obtain ⟨w, w', hrun, hrun', hpass, hpass'⟩ : ∃ w w',
      Step.run step .init (registration "secret") = some w ∧
      Step.run step .init (registration "sesame") = some w' ∧
      (w.clients 0).arrayUser.map User.pass = ["secret"] ∧
      (w'.clients 0).arrayUser.map User.pass = ["sesame"] := ⟨_, _, rfl, rfl, rfl, rfl⟩
  have hsame := (h "alice" _ _ w w' (registration_alike "secret" "sesame") hrun hrun' 0).arrayUser
  have hboth : ["secret"] = ["sesame"] := by
    simpa only [hsame, hpass'] using hpass.symm
  exact absurd hboth (by decide)

end Send
end AppChatAgain
