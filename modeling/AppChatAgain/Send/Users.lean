import AppChatAgain.Send.World

/-!
# Send.Users — whom the clients know

The ids of a record come from the signed-in user of a client and from the `user` of a chat, which
is decoded from a profile.  Only registrations write profiles, and each carries its own uid, so
whenever a client has a user at all, the user has an id, and the one of a chat that was opened
from the inbox is the chat's partner.

* `Turn`       : what an event does to the clients and to the table of profiles;
* `Acquainted` : the invariant.
-/

namespace AppChatAgain
namespace Send

open Foundation Firebase Records

/-! ## What an event does to a client -/

/-- What a callback can do to a client, over the database that it reads. -/
inductive Moves (db : Database) (cl : Client) : Client → Prop
  | stop : Moves db cl { cl with running := false }
  | authChanged (uid : Option String) (hvalid : ∀ s ∈ uid, IsValidPathString s) :
      Moves db cl { cl with currentUid := uid }
  | childAddedUser (uid : String) (user : User) (hok : userForcingAll (db.user uid) = .ok user) :
      Moves db cl { cl with arrayUser := cl.arrayUser ++ [user] }
  | didSelectUser (user : User) (hmem : user ∈ cl.arrayUser) : Moves db cl (cl.didSelectUser user)
  | didSelectMess (partnerId : String) (hvalid : IsValidPathString partnerId) :
      Moves db cl { cl with screens := cl.screens ++ [{ partner := some partnerId, user := none }] }
  | valueUser (i : ℕ) (screen : ChatScreen) (uid : String) (user : User)
      (hi : cl.screens[i]? = some screen) (hpartner : screen.partner = some uid)
      (hok : userForcingName (db.user uid) = .ok user) :
      Moves db cl
        { cl with screens := cl.screens.modify i fun screen => { screen with user := some user } }

/-- What an event does to the clients and to the profiles. -/
inductive Turn (w w' : World) : Prop
  | moves (c : ℕ) (cl : Client) (hmoves : Moves w.store.db (w.clients c) cl)
      (hclients : w'.clients = Function.update w.clients c cl)
      (huser : ∀ uid, w'.store.db.user uid = w.store.db.user uid) : Turn w w'
  | registers (uid name email pass : String) (avatarUrl : Option String)
      (hvalid : IsValidPathString uid) (hclients : w'.clients = w.clients)
      (hdb : w'.store.db = w.store.db.setUser uid (profileRecord name email pass avatarUrl uid)) :
      Turn w w'
  | rests (hclients : w'.clients = w.clients)
      (huser : ∀ uid, w'.store.db.user uid = w.store.db.user uid) : Turn w w'

/-- Every event is one of these turns. -/
theorem turn_of_step {w w' : World} {e : Event} (h : step w e = some w') : Turn w w' := by
  cases happens_of_step h with
  | authChanged c uid hvalid => exact .moves c _ (.authChanged uid hvalid) rfl fun _ => rfl
  | profileWritten uid name email pass avatarUrl hvalid =>
      exact .registers uid name email pass avatarUrl hvalid rfl rfl
  | childAddedUser c uid user hok =>
      exact .moves c _ (.childAddedUser uid user hok) rfl fun _ => rfl
  | didSelectUser c row user hrow =>
      exact .moves c _ (.didSelectUser user (List.mem_of_getElem? hrow)) rfl fun _ => rfl
  | didSelectMess c partnerId hvalid =>
      exact .moves c _ (.didSelectMess partnerId hvalid) rfl fun _ => rfl
  | valueUser c i screen uid user hi hpartner hok =>
      exact .moves c _ (.valueUser i screen uid user hi hpartner hok) rfl fun _ => rfl
  | traps e c hmay => exact .moves c _ .stop rfl fun _ => rfl
  | sendMess c i key textMess now screen hscreen hrun hfresh => exact .rests rfl fun _ => rfl
  | pickImage c i image randomImage screen u hscreen hu => exact .rests rfl fun _ => rfl
  | putDataStored u hmem => exact .rests rfl fun _ => rfl
  | putDataFailed u hmem => exact .rests rfl fun _ => rfl
  | downloadUrlFailed u hmem => exact .rests rfl fun _ => rfl
  | downloadUrlDone u imageUrl key now screen hmem hscreen hrun hfresh =>
      exact .rests rfl fun _ => rfl
  | messAccepted mw hmem =>
      exact .rests rfl fun uid => w.store.db.user_updateMess mw.key mw.data.fields uid
  | messRejected mw hmem => exact .rests rfl fun _ => rfl
  | completes mw iws hmem hiws => exact .rests rfl fun _ => rfl
  | crashes mw t hmem hrun htrap => exact .moves mw.client _ .stop rfl fun _ => rfl
  | indexAccepted iw hmem =>
      exact .rests rfl fun uid => w.store.db.user_addIndex iw.owner iw.partner iw.key uid
  | indexRejected iw hmem => exact .rests rfl fun _ => rfl
  | stop c => exact .moves c _ .stop rfl fun _ => rfl
  | messLost mw hmem hstopped => exact .rests rfl fun _ => rfl
  | indexLost iw hmem hstopped => exact .rests rfl fun _ => rfl

/-! ## The users that the clients have -/

/-- Nothing is stored for the uid, or a profile that a registration wrote. -/
def Registered (db : Database) (uid : String) : Prop :=
  db.user uid = .empty ∨ IsValidPathString uid ∧ ∃ name email pass avatarUrl,
    db.user uid = profileRecord name email pass avatarUrl uid

/-- The user of a chat has a valid id, which is the partner that the chat was opened for, if it was
opened from the inbox. -/
structure ChatScreen.Known (screen : ChatScreen) : Prop where
  partner : ∀ uid ∈ screen.partner, IsValidPathString uid
  user : ∀ user, screen.user = some user → IsValidPathString user.id
  agree : ∀ user partner, screen.user = some user → screen.partner = some partner →
    user.id = partner

structure Client.Known (cl : Client) : Prop where
  currentUid : ∀ uid ∈ cl.currentUid, IsValidPathString uid
  arrayUser : ∀ user ∈ cl.arrayUser, IsValidPathString user.id
  screens : ∀ screen ∈ cl.screens, screen.Known

structure Acquainted (w : World) : Prop where
  profiles : ∀ uid, Registered w.store.db uid
  clients : ∀ c, (w.clients c).Known

theorem Client.known_launch : Client.launch.Known where
  currentUid := nofun
  arrayUser user h := by simp [Client.launch] at h
  screens screen h := by simp [Client.launch] at h

theorem acquainted_init : Acquainted .init where
  profiles _ := Or.inl (KeyTree.get_empty _)
  clients _ := Client.known_launch

/-- What a profile decodes to has its uid as id. -/
theorem Registered.id_of_forcingName {db : Database} {uid : String} (h : Registered db uid)
    {user : User} (hok : userForcingName (db.user uid) = .ok user) :
    user.id = uid ∧ IsValidPathString uid := by
  rcases h with hempty | ⟨hvalid, name, email, pass, avatarUrl, hprofile⟩
  · simp only [hempty] at hok
    cases hok
  · simp only [hprofile, userForcingName_profileRecord] at hok
    cases hok
    exact ⟨rfl, hvalid⟩

theorem Registered.id_of_forcingAll {db : Database} {uid : String} (h : Registered db uid)
    {user : User} (hok : userForcingAll (db.user uid) = .ok user) :
    user.id = uid ∧ IsValidPathString uid := by
  rcases h with hempty | ⟨hvalid, name, email, pass, avatarUrl, hprofile⟩
  · simp only [hempty] at hok
    cases hok
  · simp only [hprofile, userForcingAll_profileRecord] at hok
    cases hok
    exact ⟨rfl, hvalid⟩

/-- Whatever a client does, the users it has stay known. -/
theorem Client.Known.moves {db : Database} {cl cl' : Client} (h : cl.Known)
    (hdb : ∀ uid, Registered db uid) (hm : Moves db cl cl') : cl'.Known := by
  cases hm with
  | stop => exact ⟨h.currentUid, h.arrayUser, h.screens⟩
  | authChanged uid hvalid => exact ⟨hvalid, h.arrayUser, h.screens⟩
  | childAddedUser uid user hok =>
      -- what the list shows is decoded from a registered profile
      rcases (hdb uid).id_of_forcingAll hok with ⟨hid, hvalid⟩
      refine ⟨h.currentUid, ?_, h.screens⟩
      intro user' hmem
      rcases List.mem_append.1 hmem with hold | hvalidw
      · exact h.arrayUser user' hold
      · have heq : user' = user := by simpa using hvalidw
        simpa only [heq, hid] using hvalid
  | didSelectUser user hmem =>
      refine ⟨h.currentUid, h.arrayUser, ?_⟩
      intro screen hscreen
      rcases List.mem_append.1 hscreen with hold | hvalidw
      · exact h.screens screen hold
      · -- a chat from `new_message` has no partner but its user
        have heq : screen = { partner := none, user := some user } := by simpa using hvalidw
        subst heq
        refine ⟨nofun, ?_, nofun⟩
        intro user' huser'
        cases huser'
        exact h.arrayUser user hmem
  | didSelectMess partnerId hvalid =>
      refine ⟨h.currentUid, h.arrayUser, ?_⟩
      intro screen hscreen
      rcases List.mem_append.1 hscreen with hold | hvalidw
      · exact h.screens screen hold
      · -- one from the inbox has no user yet
        have heq : screen = { partner := some partnerId, user := none } := by simpa using hvalidw
        subst heq
        exact ⟨by simpa using hvalid, nofun, nofun⟩
  | valueUser i screen uid user hi hpartner hok =>
      rcases (hdb uid).id_of_forcingName hok with ⟨hid, hvalid⟩
      refine ⟨h.currentUid, h.arrayUser, ?_⟩
      intro screen' hscreen'
      rcases List.mem_iff_getElem?.1 hscreen' with ⟨j, hj⟩
      simp only [List.getElem?_modify, Option.map_eq_map, Option.map_eq_some_iff] at hj
      rcases hj with ⟨old, hold, rfl⟩
      by_cases hij : i = j
      · -- the profile that was read is the one of the chat's partner
        subst hij
        have heq : old = screen := Option.some.inj (hold.symm.trans hi)
        subst heq
        have hold' := h.screens old (List.mem_of_getElem? hold)
        simp only [if_true]
        refine ⟨hold'.partner, ?_, ?_⟩
        · intro user' huser'
          cases huser'
          simpa only [hid] using hvalid
        · intro user' partner huser' hp
          cases huser'
          exact hid.trans (Option.some.inj (hpartner.symm.trans hp))
      · simpa [hij] using h.screens old (List.mem_of_getElem? hold)

theorem Registered.congr {db db' : Database} {uid : String} (h : Registered db uid)
    (huser : db'.user uid = db.user uid) : Registered db' uid := by
  simpa only [Registered, huser] using h

/-- Every event keeps the clients acquainted. -/
theorem Acquainted.turn {w w' : World} (h : Acquainted w) (ht : Turn w w') : Acquainted w' := by
  cases ht with
  | moves c cl hmoves hclients huser =>
      refine ⟨fun uid => (h.profiles uid).congr (huser uid), ?_⟩
      intro c'
      by_cases hc : c' = c
      · subst hc
        simpa [hclients] using (h.clients c').moves h.profiles hmoves
      · simpa [hclients, hc] using h.clients c'
  | registers uid name email pass avatarUrl hvalid hclients hdb =>
      refine ⟨?_, by simpa only [hclients] using h.clients⟩
      intro uid'
      by_cases huid : uid' = uid
      · -- the profile carries the uid that it is stored at
        subst huid
        have hvalidw : w'.store.db.user uid' = profileRecord name email pass avatarUrl uid' := by
          simp [hdb, Database.user_setUser]
        exact Or.inr ⟨hvalid, name, email, pass, avatarUrl, hvalidw⟩
      · apply (h.profiles uid').congr
        simp [hdb, Database.user_setUser, huid]
  | rests hclients huser =>
      refine ⟨fun uid => (h.profiles uid).congr (huser uid), ?_⟩
      simpa only [hclients] using h.clients

theorem Acquainted.step {w w' : World} {e : Event} (h : Acquainted w)
    (hs : step w e = some w') : Acquainted w' :=
  h.turn (turn_of_step hs)

end Send
end AppChatAgain
