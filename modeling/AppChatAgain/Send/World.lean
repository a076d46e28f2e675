import Mathlib.Logic.Function.Basic
import AppChatAgain.Foundation.Run
import AppChatAgain.Records.User
import AppChatAgain.Send.Writes

/-!
# Send.World — any number of clients that send texts and images

One event is one callback of one client, one answer of the server to one request, or the end of a
client.  Requests are answered in any order.  Where a callback traps, its client stops.  Requests
that have no answer are kept in memory only, so those of a client that has stopped may be lost.

* `sendMessToFirebase`  : `send_mess_to_firebase`, whose record captures both ids at once;
* `upload_image_to_firebase` is three steps: the call itself (`pickImage`), the answer to `putData`
  and the answer to `downloadURL`.  Only the last one reads the signed-in user and the partner.
-/

namespace AppChatAgain
namespace Send

open Foundation Firebase Records

/-! ## Clients -/

/-- A `chat_collect` screen, with the uid whose profile sets its `user` if it was opened from the
inbox. -/
structure ChatScreen where
  partner : Option String
  user : Option User
  deriving DecidableEq, Repr

structure Client where
  running : Bool
  /-- `Auth.auth().currentUser?.uid` -/
  currentUid : Option String
  /-- `new_message.array_User` -/
  arrayUser : List User
  /-- the chats opened so far; a callback keeps its screen alive after the screen has left -/
  screens : List ChatScreen
  deriving DecidableEq, Repr

namespace Client

def launch : Client :=
  { running := true
    currentUid := none
    arrayUser := []
    screens := [] }

variable (cl : Client)

/-- The callback of `new_message.get_data_from_firebase`. -/
def childAddedUser (snap : Json) : Except Trap Client := do
  let user ← userForcingAll snap
  return { cl with arrayUser := cl.arrayUser ++ [user] }

/-- `new_message.tableView(_:didSelectRowAt:)`. -/
def didSelectUser (user : User) : Client :=
  { cl with screens := cl.screens ++ [{ partner := none, user := some user }] }

/-- `message_controller.tableView(_:didSelectRowAt:)`, for the row's `partner_id`. -/
def didSelectMess (partnerId : String) : Except Trap Client := do
  let uid ← child partnerId
  return { cl with screens := cl.screens ++ [{ partner := some uid, user := none }] }

/-- The callback that `didSelectRowAt` leaves at the partner's profile. -/
def valueUser (i : ℕ) (snap : Json) : Except Trap Client := do
  let user ← userForcingName snap
  return { cl with screens := cl.screens.modify i fun screen => { screen with user := some user } }

end Client

/-! ## Sends -/

/-- `send_mess_to_firebase`, up to the record write, with `key` from `childByAutoId`. -/
def sendMessToFirebase (c : ℕ) (cl : Client) (screen : ChatScreen) (key textMess : String)
    (now : ℤ) : MessWrite :=
  let fromid := cl.currentUid
  let toid := screen.user.map User.id
  { client := c
    key := key
    fromid := fromid
    toid := toid
    data := .text (fromid.getD "") (toid.getD "") textMess (NSNumber.ofInt now)
    upload := none }

/-- `upload_image_to_firebase`, up to `putData`. -/
def uploadImageToFirebase (c i : ℕ) (cl : Client) (screen : ChatScreen) (image : UIImage)
    (randomImage : Fin 10001) : Except Trap Upload := do
  let _imageData ← forceUnwrap image.pngData
  return {
    client := c
    screen := i
    image := image
    randomImage := randomImage
    pickedBy := cl.currentUid
    pickedFor := screen.user.map User.id }

namespace Upload

/-- `folder.child("Chat:/\(random_image).jpg")`. -/
def folderChat (u : Upload) : String :=
  "Chat:/" ++ toString u.randomImage.val ++ ".jpg"

/-- The callback of `downloadURL`, up to the record write. -/
def messWrite (u : Upload) (cl : Client) (screen : ChatScreen) (imageUrl : Option String)
    (key : String) (now : ℤ) : MessWrite :=
  let fromid := cl.currentUid
  let toid := screen.user.map User.id
  { client := u.client
    key := key
    fromid := fromid
    toid := toid
    data := .image (fromid.getD "") (toid.getD "") (imageUrl.getD "") (NSNumber.ofInt now)
      u.image.width u.image.height
    upload := some u }

end Upload

/-! ## The world -/

structure World where
  store : Store
  /-- the images in the storage bucket, by path -/
  storage : String → Option UIImage
  /-- uploads whose `putData` has no answer -/
  putDatas : List Upload
  /-- uploads whose `downloadURL` has no answer -/
  downloadUrls : List Upload
  clients : ℕ → Client

namespace World

def init : World :=
  { store := .init
    storage := fun _ => none
    putDatas := []
    downloadUrls := []
    clients := fun _ => .launch }

variable (w : World)

def setClient (c : ℕ) (cl : Client) : World :=
  { w with clients := Function.update w.clients c cl }

def stopClient (c : ℕ) : World :=
  w.setClient c { w.clients c with running := false }

/-- A callback of a running client, which a trap stops. -/
def react (c : ℕ) (f : Client → Except Trap Client) : Option World :=
  if (w.clients c).running then
    match f (w.clients c) with
    | .ok cl => some (w.setClient c cl)
    | .error _ => some (w.stopClient c)
  else none

/-- Give a running client's record write to the network, if its key is new. -/
def send (mw : MessWrite) : Option World :=
  if (w.clients mw.client).running ∧ mw.key ∉ w.store.issued then
    some { w with store := w.store.issue mw }
  else none

end World

inductive Event where
  /-- the client signs in, or out -/
  | authChanged (c : ℕ) (uid : Option String)
  /-- a registration writes its profile -/
  | profileWritten (uid name email pass : String) (avatarUrl : Option String)
  | childAddedUser (c : ℕ) (uid : String)
  | didSelectUser (c row : ℕ)
  | didSelectMess (c : ℕ) (partnerId : String)
  | valueUser (c i : ℕ)
  | sendMess (c i : ℕ) (key textMess : String) (now : ℤ)
  | pickImage (c i : ℕ) (image : UIImage) (randomImage : Fin 10001)
  | putDataAnswered (u : Upload) (ok : Bool)
  | downloadUrlFailed (u : Upload)
  | downloadUrlDone (u : Upload) (imageUrl : Option String) (key : String) (now : ℤ)
  | messAnswered (mw : MessWrite) (ok : Bool)
  /-- the completion handler of an accepted record write runs -/
  | messCompletion (mw : MessWrite)
  | indexAnswered (iw : IndexWrite) (ok : Bool)
  /-- the client ends, at any point -/
  | stop (c : ℕ)
  /-- a write was not sent before its client ended -/
  | messLost (mw : MessWrite)
  | indexLost (iw : IndexWrite)
  deriving DecidableEq, Repr

/-- One event.  Uids are valid path strings, and `childByAutoId` returns new keys. -/
def step : Step World Event
  | w, .authChanged c uid =>
      -- uids come from Firebase Auth
      if ∀ s ∈ uid, IsValidPathString s then
        w.react c fun cl => .ok { cl with currentUid := uid }
      else none
  | w, .profileWritten uid name email pass avatarUrl =>
      if IsValidPathString uid then
        some { w with store := w.store.setUser uid (profileRecord name email pass avatarUrl uid) }
      else none
  | w, .childAddedUser c uid =>
      -- a `childAdded` callback is for a child that exists
      if (w.store.db.user uid).isEmpty then none
      else w.react c fun cl => cl.childAddedUser (w.store.db.user uid)
  | w, .didSelectUser c row =>
      match (w.clients c).arrayUser[row]? with
      | none => none
      | some user => w.react c fun cl => .ok (cl.didSelectUser user)
  | w, .didSelectMess c partnerId => w.react c fun cl => cl.didSelectMess partnerId
  | w, .valueUser c i =>
      -- a chat opened from `new_message` has no profile observer
      match (w.clients c).screens[i]?.bind ChatScreen.partner with
      | none => none
      | some uid => w.react c fun cl => cl.valueUser i (w.store.db.user uid)
  | w, .sendMess c i key textMess now =>
      match (w.clients c).screens[i]? with
      | none => none
      | some screen => w.send (sendMessToFirebase c (w.clients c) screen key textMess now)
  | w, .pickImage c i image randomImage =>
      -- `image_data!` may trap before anything is uploaded
      match (w.clients c).screens[i]? with
      | none => none
      | some screen =>
          if (w.clients c).running then
            match uploadImageToFirebase c i (w.clients c) screen image randomImage with
            | .ok u => some { w with putDatas := u :: w.putDatas }
            | .error _ => some (w.stopClient c)
          else none
  | w, .putDataAnswered u ok =>
      if u ∈ w.putDatas then
        if ok then
          -- an object that is at the path already is replaced
          some { w with
            putDatas := w.putDatas.erase u
            storage := Function.update w.storage u.folderChat (some u.image)
            downloadUrls := u :: w.downloadUrls }
        else some { w with putDatas := w.putDatas.erase u }
      else none
  | w, .downloadUrlFailed u =>
      if u ∈ w.downloadUrls then some { w with downloadUrls := w.downloadUrls.erase u } else none
  | w, .downloadUrlDone u imageUrl key now =>
      if u ∈ w.downloadUrls then
        -- `self.user` and the current uid are read now, not when the image was picked
        match (w.clients u.client).screens[u.screen]? with
        | none => none
        | some screen =>
            World.send { w with downloadUrls := w.downloadUrls.erase u }
              (u.messWrite (w.clients u.client) screen imageUrl key now)
      else none
  | w, .messAnswered mw ok =>
      if mw ∈ w.store.messWrites then
        if ok then some { w with store := w.store.acceptMess mw }
        else some { w with store := w.store.dropMess mw }
      else none
  | w, .messCompletion mw =>
      if mw ∈ w.store.acked ∧ (w.clients mw.client).running then
        -- both index writes are issued, or the client stops before the first
        match mw.indexWrites with
        | .ok iws => some { w with store := w.store.complete mw iws }
        | .error _ => some ({ w with store := w.store.complete mw [] }.stopClient mw.client)
      else none
  | w, .indexAnswered iw ok =>
      if iw ∈ w.store.indexWrites then
        if ok then some { w with store := w.store.acceptIndex iw }
        else some { w with store := w.store.dropIndex iw }
      else none
  | w, .stop c => if (w.clients c).running then some (w.stopClient c) else none
  | w, .messLost mw =>
      if mw ∈ w.store.messWrites ∧ (w.clients mw.client).running = false then
        some { w with store := w.store.dropMess mw }
      else none
  | w, .indexLost iw =>
      if iw ∈ w.store.indexWrites ∧ (w.clients iw.client).running = false then
        some { w with store := w.store.dropIndex iw }
      else none

/-! ## What an event does -/

/-- The callbacks that force what they decode. -/
def Event.mayTrap : Event → Bool
  | .childAddedUser .. => true
  | .didSelectMess .. => true
  | .valueUser .. => true
  | .pickImage .. => true
  | _ => false

/-- Exactly what an event does, with what must hold for it to occur. -/
inductive Happens (w : World) : Event → World → Prop
  | authChanged (c : ℕ) (uid : Option String) (hvalid : ∀ s ∈ uid, IsValidPathString s) :
      Happens w (.authChanged c uid) (w.setClient c { w.clients c with currentUid := uid })
  | profileWritten (uid name email pass : String) (avatarUrl : Option String)
      (hvalid : IsValidPathString uid) :
      Happens w (.profileWritten uid name email pass avatarUrl)
        { w with store := w.store.setUser uid (profileRecord name email pass avatarUrl uid) }
  | childAddedUser (c : ℕ) (uid : String) (user : User)
      (hok : userForcingAll (w.store.db.user uid) = .ok user) :
      Happens w (.childAddedUser c uid)
        (w.setClient c { w.clients c with arrayUser := (w.clients c).arrayUser ++ [user] })
  | didSelectUser (c row : ℕ) (user : User) (hrow : (w.clients c).arrayUser[row]? = some user) :
      Happens w (.didSelectUser c row) (w.setClient c ((w.clients c).didSelectUser user))
  | didSelectMess (c : ℕ) (partnerId : String) (hvalid : IsValidPathString partnerId) :
      Happens w (.didSelectMess c partnerId)
        (w.setClient c { w.clients c with
          screens := (w.clients c).screens ++ [{ partner := some partnerId, user := none }] })
  | valueUser (c i : ℕ) (screen : ChatScreen) (uid : String) (user : User)
      (hi : (w.clients c).screens[i]? = some screen) (hpartner : screen.partner = some uid)
      (hok : userForcingName (w.store.db.user uid) = .ok user) :
      Happens w (.valueUser c i)
        (w.setClient c { w.clients c with
          screens := (w.clients c).screens.modify i fun screen =>
            { screen with user := some user } })
  | traps (e : Event) (c : ℕ) (hmay : e.mayTrap = true) : Happens w e (w.stopClient c)
  | sendMess (c i : ℕ) (key textMess : String) (now : ℤ) (screen : ChatScreen)
      (hscreen : (w.clients c).screens[i]? = some screen)
      (hrun : (w.clients c).running = true) (hfresh : key ∉ w.store.issued) :
      Happens w (.sendMess c i key textMess now)
        { w with store :=
            w.store.issue (sendMessToFirebase c (w.clients c) screen key textMess now) }
  | pickImage (c i : ℕ) (image : UIImage) (randomImage : Fin 10001) (screen : ChatScreen)
      (u : Upload) (hscreen : (w.clients c).screens[i]? = some screen)
      (hu : uploadImageToFirebase c i (w.clients c) screen image randomImage = .ok u) :
      Happens w (.pickImage c i image randomImage) { w with putDatas := u :: w.putDatas }
  | putDataStored (u : Upload) (hmem : u ∈ w.putDatas) :
      Happens w (.putDataAnswered u true)
        { w with
          putDatas := w.putDatas.erase u
          storage := Function.update w.storage u.folderChat (some u.image)
          downloadUrls := u :: w.downloadUrls }
  | putDataFailed (u : Upload) (hmem : u ∈ w.putDatas) :
      Happens w (.putDataAnswered u false) { w with putDatas := w.putDatas.erase u }
  | downloadUrlFailed (u : Upload) (hmem : u ∈ w.downloadUrls) :
      Happens w (.downloadUrlFailed u) { w with downloadUrls := w.downloadUrls.erase u }
  | downloadUrlDone (u : Upload) (imageUrl : Option String) (key : String) (now : ℤ)
      (screen : ChatScreen) (hmem : u ∈ w.downloadUrls)
      (hscreen : (w.clients u.client).screens[u.screen]? = some screen)
      (hrun : (w.clients u.client).running = true) (hfresh : key ∉ w.store.issued) :
      Happens w (.downloadUrlDone u imageUrl key now)
        { w with
          downloadUrls := w.downloadUrls.erase u
          store := w.store.issue (u.messWrite (w.clients u.client) screen imageUrl key now) }
  | messAccepted (mw : MessWrite) (hmem : mw ∈ w.store.messWrites) :
      Happens w (.messAnswered mw true) { w with store := w.store.acceptMess mw }
  | messRejected (mw : MessWrite) (hmem : mw ∈ w.store.messWrites) :
      Happens w (.messAnswered mw false) { w with store := w.store.dropMess mw }
  | completes (mw : MessWrite) (iws : List IndexWrite) (hmem : mw ∈ w.store.acked)
      (hiws : mw.indexWrites = .ok iws) :
      Happens w (.messCompletion mw) { w with store := w.store.complete mw iws }
  | crashes (mw : MessWrite) (t : Trap) (hmem : mw ∈ w.store.acked)
      (hrun : (w.clients mw.client).running = true) (htrap : mw.indexWrites = .error t) :
      Happens w (.messCompletion mw)
        ({ w with store := w.store.complete mw [] }.stopClient mw.client)
  | indexAccepted (iw : IndexWrite) (hmem : iw ∈ w.store.indexWrites) :
      Happens w (.indexAnswered iw true) { w with store := w.store.acceptIndex iw }
  | indexRejected (iw : IndexWrite) (hmem : iw ∈ w.store.indexWrites) :
      Happens w (.indexAnswered iw false) { w with store := w.store.dropIndex iw }
  | stop (c : ℕ) : Happens w (.stop c) (w.stopClient c)
  | messLost (mw : MessWrite) (hmem : mw ∈ w.store.messWrites)
      (hstopped : (w.clients mw.client).running = false) :
      Happens w (.messLost mw) { w with store := w.store.dropMess mw }
  | indexLost (iw : IndexWrite) (hmem : iw ∈ w.store.indexWrites)
      (hstopped : (w.clients iw.client).running = false) :
      Happens w (.indexLost iw) { w with store := w.store.dropIndex iw }

/-- A callback that happens ends well, or its trap stops the client. -/
theorem react_eq_some {w w' : World} {c : ℕ} {f : Client → Except Trap Client}
    (h : w.react c f = some w') :
    (∃ cl, f (w.clients c) = .ok cl ∧ w' = w.setClient c cl) ∨
      ∃ t, f (w.clients c) = .error t ∧ w' = w.stopClient c := by
  by_cases hrun : (w.clients c).running = true
  · cases hf : f (w.clients c) with
    | ok cl =>
        have hw' : w.setClient c cl = w' := by simpa [World.react, hrun, hf] using h
        exact Or.inl ⟨cl, rfl, hw'.symm⟩
    | error t =>
        have hw' : w.stopClient c = w' := by simpa [World.react, hrun, hf] using h
        exact Or.inr ⟨t, rfl, hw'.symm⟩
  · simp [World.react, hrun] at h

theorem send_eq_some {w w' : World} {mw : MessWrite} (h : w.send mw = some w') :
    (w.clients mw.client).running = true ∧ mw.key ∉ w.store.issued ∧
      w' = { w with store := w.store.issue mw } := by
  have hif : ((w.clients mw.client).running = true ∧ mw.key ∉ w.store.issued) ∧
      { w with store := w.store.issue mw } = w' := by
    simpa only [World.send, Option.ite_none_right_eq_some, Option.some.injEq] using h
  exact ⟨hif.1.1, hif.1.2, hif.2.symm⟩

/-- Every event is one of these. -/
theorem happens_of_step {w w' : World} {e : Event} (h : step w e = some w') : Happens w e w' := by
  cases e with
  | authChanged c uid =>
      simp only [step, Option.ite_none_right_eq_some] at h
      rcases react_eq_some h.2 with ⟨cl, hok, rfl⟩ | ⟨t, htrap, _⟩
      · cases hok
        exact .authChanged c uid h.1
      · cases htrap
  | profileWritten uid name email pass avatarUrl =>
      simp only [step, Option.ite_none_right_eq_some, Option.some.injEq] at h
      rcases h with ⟨hvalid, rfl⟩
      exact .profileWritten uid name email pass avatarUrl hvalid
  | childAddedUser c uid =>
      simp only [step, Option.ite_none_left_eq_some] at h
      rcases react_eq_some h.2 with ⟨cl, hok, rfl⟩ | ⟨t, _, rfl⟩
      · rcases bind_eq_ok.1 hok with ⟨user, huser, hcl⟩
        cases hcl
        exact .childAddedUser c uid user huser
      · exact .traps _ c rfl
  | didSelectUser c row =>
      cases hrow : (w.clients c).arrayUser[row]? with
      | none => simp [step, hrow] at h
      | some user =>
          simp only [step, hrow] at h
          rcases react_eq_some h with ⟨cl, hok, rfl⟩ | ⟨t, htrap, _⟩
          · cases hok
            exact .didSelectUser c row user hrow
          · cases htrap
  | didSelectMess c partnerId =>
      simp only [step] at h
      rcases react_eq_some h with ⟨cl, hok, rfl⟩ | ⟨t, _, rfl⟩
      · rcases bind_eq_ok.1 hok with ⟨uid, huid, hcl⟩
        cases hcl
        rcases child_eq_ok.1 huid with ⟨hvalid, rfl⟩
        exact .didSelectMess c partnerId hvalid
      · exact .traps _ c rfl
  | valueUser c i =>
      cases hscreen : (w.clients c).screens[i]?.bind ChatScreen.partner with
      | none => simp [step, hscreen] at h
      | some uid =>
          simp only [step, hscreen] at h
          rcases Option.bind_eq_some_iff.1 hscreen with ⟨screen, hi, hpartner⟩
          rcases react_eq_some h with ⟨cl, hok, rfl⟩ | ⟨t, _, rfl⟩
          · rcases bind_eq_ok.1 hok with ⟨user, huser, hcl⟩
            cases hcl
            exact .valueUser c i screen uid user hi hpartner huser
          · exact .traps _ c rfl
  | sendMess c i key textMess now =>
      cases hscreen : (w.clients c).screens[i]? with
      | none => simp [step, hscreen] at h
      | some screen =>
          simp only [step, hscreen] at h
          rcases send_eq_some h with ⟨hrun, hfresh, rfl⟩
          exact .sendMess c i key textMess now screen hscreen hrun hfresh
  | pickImage c i image randomImage =>
      cases hscreen : (w.clients c).screens[i]? with
      | none => simp [step, hscreen] at h
      | some screen =>
          simp only [step, hscreen, Option.ite_none_right_eq_some] at h
          cases hu : uploadImageToFirebase c i (w.clients c) screen image randomImage with
          | ok u =>
              simp only [hu, Option.some.injEq] at h
              rcases h with ⟨_, rfl⟩
              exact .pickImage c i image randomImage screen u hscreen hu
          | error t =>
              simp only [hu, Option.some.injEq] at h
              rcases h with ⟨_, rfl⟩
              exact .traps _ c rfl
  | putDataAnswered u ok =>
      simp only [step, Option.ite_none_right_eq_some] at h
      rcases h with ⟨hmem, h⟩
      cases ok with
      | true =>
          cases h
          exact .putDataStored u hmem
      | false =>
          cases h
          exact .putDataFailed u hmem
  | downloadUrlFailed u =>
      simp only [step, Option.ite_none_right_eq_some, Option.some.injEq] at h
      rcases h with ⟨hmem, rfl⟩
      exact .downloadUrlFailed u hmem
  | downloadUrlDone u imageUrl key now =>
      simp only [step, Option.ite_none_right_eq_some] at h
      rcases h with ⟨hmem, h⟩
      cases hscreen : (w.clients u.client).screens[u.screen]? with
      | none => simp [hscreen] at h
      | some screen =>
          simp only [hscreen] at h
          rcases send_eq_some h with ⟨hrun, hfresh, rfl⟩
          exact .downloadUrlDone u imageUrl key now screen hmem hscreen hrun hfresh
  | messAnswered mw ok =>
      simp only [step, Option.ite_none_right_eq_some] at h
      rcases h with ⟨hmem, h⟩
      cases ok with
      | true =>
          cases h
          exact .messAccepted mw hmem
      | false =>
          cases h
          exact .messRejected mw hmem
  | messCompletion mw =>
      simp only [step, Option.ite_none_right_eq_some] at h
      rcases h with ⟨⟨hmem, hrun⟩, h⟩
      cases hiws : mw.indexWrites with
      | ok iws =>
          simp only [hiws, Option.some.injEq] at h
          subst h
          exact .completes mw iws hmem hiws
      | error t =>
          simp only [hiws, Option.some.injEq] at h
          subst h
          exact .crashes mw t hmem hrun hiws
  | indexAnswered iw ok =>
      simp only [step, Option.ite_none_right_eq_some] at h
      rcases h with ⟨hmem, h⟩
      cases ok with
      | true =>
          cases h
          exact .indexAccepted iw hmem
      | false =>
          cases h
          exact .indexRejected iw hmem
  | stop c =>
      simp only [step, Option.ite_none_right_eq_some, Option.some.injEq] at h
      rcases h with ⟨_, rfl⟩
      exact .stop c
  | messLost mw =>
      simp only [step, Option.ite_none_right_eq_some, Option.some.injEq] at h
      rcases h with ⟨⟨hmem, hstopped⟩, rfl⟩
      exact .messLost mw hmem hstopped
  | indexLost iw =>
      simp only [step, Option.ite_none_right_eq_some, Option.some.injEq] at h
      rcases h with ⟨⟨hmem, hstopped⟩, rfl⟩
      exact .indexLost iw hmem hstopped

/-! ## What an event does to the store -/

/-- The index write that comes to nothing: the database rejects it, or it ends with its client. -/
def Event.droppedIndex : Event → Option IndexWrite
  | .indexAnswered iw false => some iw
  | .indexLost iw => some iw
  | _ => none

/-- The effects of an event on the store. -/
inductive Effect (w : World) : Event → World → Prop
  /-- the client alone changes -/
  | client (e : Event) (w' : World) (hstore : w'.store = w.store) : Effect w e w'
  | setUser (e : Event) (w' : World) (uid : String) (profile : Json)
      (hstore : w'.store = w.store.setUser uid profile) (hclients : w'.clients = w.clients) :
      Effect w e w'
  | issue (e : Event) (w' : World) (mw : MessWrite) (hfresh : mw.key ∉ w.store.issued)
      (hconsistent : mw.Consistent) (hrunning : (w.clients mw.client).running = true)
      (hstore : w'.store = w.store.issue mw) (hclients : w'.clients = w.clients) : Effect w e w'
  | acceptMess (mw : MessWrite) (hmem : mw ∈ w.store.messWrites) :
      Effect w (.messAnswered mw true) { w with store := w.store.acceptMess mw }
  | dropMess (e : Event) (mw : MessWrite) (hmem : mw ∈ w.store.messWrites) :
      Effect w e { w with store := w.store.dropMess mw }
  | complete (mw : MessWrite) (iws : List IndexWrite) (hmem : mw ∈ w.store.acked)
      (hiws : mw.indexWrites = .ok iws) :
      Effect w (.messCompletion mw) { w with store := w.store.complete mw iws }
  /-- the completion handler traps -/
  | crash (mw : MessWrite) (t : Trap) (hmem : mw ∈ w.store.acked)
      (hrunning : (w.clients mw.client).running = true) (htrap : mw.indexWrites = .error t) :
      Effect w (.messCompletion mw)
        ({ w with store := w.store.complete mw [] }.stopClient mw.client)
  | acceptIndex (iw : IndexWrite) (hmem : iw ∈ w.store.indexWrites) :
      Effect w (.indexAnswered iw true) { w with store := w.store.acceptIndex iw }
  | dropIndex (e : Event) (iw : IndexWrite) (hmem : iw ∈ w.store.indexWrites)
      (hdropped : e.droppedIndex = some iw) :
      Effect w e { w with store := w.store.dropIndex iw }

/-- Every event has one of these effects. -/
theorem effect_of_step {w w' : World} {e : Event} (h : step w e = some w') : Effect w e w' := by
  cases happens_of_step h with
  | authChanged c uid hvalid => exact .client _ _ rfl
  | profileWritten uid name email pass avatarUrl hvalid => exact .setUser _ _ uid _ rfl rfl
  | childAddedUser c uid user hok => exact .client _ _ rfl
  | didSelectUser c row user hrow => exact .client _ _ rfl
  | didSelectMess c partnerId hvalid => exact .client _ _ rfl
  | valueUser c i screen uid user hi hpartner hok => exact .client _ _ rfl
  | traps e c hmay => exact .client _ _ rfl
  | sendMess c i key textMess now screen hscreen hrun hfresh =>
      exact .issue _ _ _ hfresh ⟨rfl, rfl⟩ hrun rfl rfl
  | pickImage c i image randomImage screen u hscreen hu => exact .client _ _ rfl
  | putDataStored u hmem => exact .client _ _ rfl
  | putDataFailed u hmem => exact .client _ _ rfl
  | downloadUrlFailed u hmem => exact .client _ _ rfl
  | downloadUrlDone u imageUrl key now screen hmem hscreen hrun hfresh =>
      exact .issue _ _ _ hfresh ⟨rfl, rfl⟩ hrun rfl rfl
  | messAccepted mw hmem => exact .acceptMess mw hmem
  | messRejected mw hmem => exact .dropMess _ mw hmem
  | completes mw iws hmem hiws => exact .complete mw iws hmem hiws
  | crashes mw t hmem hrun htrap => exact .crash mw t hmem hrun htrap
  | indexAccepted iw hmem => exact .acceptIndex iw hmem
  | indexRejected iw hmem => exact .dropIndex _ iw hmem rfl
  | stop c => exact .client _ _ rfl
  | messLost mw hmem hstopped => exact .dropMess _ mw hmem
  | indexLost iw hmem hstopped => exact .dropIndex _ iw hmem rfl

end Send
end AppChatAgain
