import AppChatAgain.Send.Integrity
import AppChatAgain.Send.Users

/-!
# Send.Attribution — from whom and to whom an image is sent

`upload_image_to_firebase` reads the signed-in user and the user of the chat in the last of its
callbacks, long after the image was picked; `send_mess_to_firebase` reads both at once.  So an
image message is from the user who picked it, and to the chat it was picked in, exactly when that
user is still signed in by then and the user of the chat is there.
-/

namespace AppChatAgain
namespace Send

open Foundation Firebase Records

/-! ## The law -/

/-- The image was picked in a chat with `p`: the chat had this user, or was opened for it. -/
def ChatWith (w : World) (u : Upload) (p : String) : Prop :=
  u.pickedFor = some p ∨
    ∃ screen, (w.clients u.client).screens[u.screen]? = some screen ∧ screen.partner = some p

/-- What is written for the key is from `a` to `p`, and indexed for these two only. -/
structure AttributedTo (s : Store) (key a p : String) : Prop where
  writes : ∀ mw ∈ s.messWrites ++ s.acked, mw.key = key → mw.data.fromId = a ∧ mw.data.toId = p
  stored : ∀ m, messOfChatSnapshot (s.db.mess key) = .ok m → m.fromid = a ∧ m.toid = p
  indexed : ∀ q r, s.db.indexed q r key = true → (q = a ∧ r = p) ∨ (q = p ∧ r = a)

/-- At the end of the run, every image message is attributed to the user who picked the image and
to the chat it was picked in. -/
def ImagesAttributed (es : List Event) : Prop :=
  ∀ es₁ u imageUrl key now es₂ w₁ w, es = es₁ ++ .downloadUrlDone u imageUrl key now :: es₂ →
    Step.run step .init es₁ = some w₁ → Step.run step .init es = some w →
      ∀ a p, u.pickedBy = some a → ChatWith w₁ u p → AttributedTo w.store key a p

/-- What the last callback of an upload needs: the user who picked the image is still signed in,
and the user of the chat is there. -/
def StillThere (w : World) : Event → Prop
  | .downloadUrlDone u _ _ _ =>
      ∀ a p, u.pickedBy = some a → ChatWith w u p →
        (w.clients u.client).currentUid = some a ∧
          ∀ screen, (w.clients u.client).screens[u.screen]? = some screen →
            screen.user.isSome = true
  | _ => True

/-! ## Uploads on their way -/

/-- The upload was picked by somebody with a valid id, and the chat still has the user that it
had. -/
structure PickedIn (cl : Client) (u : Upload) : Prop where
  pickedBy : ∀ a ∈ u.pickedBy, IsValidPathString a
  pickedFor : ∀ p, u.pickedFor = some p → ∃ screen user,
    cl.screens[u.screen]? = some screen ∧ screen.user = some user ∧ user.id = p

def Picked (w : World) : Prop :=
  ∀ u ∈ w.putDatas ++ w.downloadUrls, PickedIn (w.clients u.client) u

/-- Whatever a client does, a chat that has a user keeps a user with its id. -/
theorem PickedIn.moves {db : Database} {cl cl' : Client} {u : Upload} (h : PickedIn cl u)
    (hknown : cl.Known) (hdb : ∀ uid, Registered db uid) (hm : Moves db cl cl') :
    PickedIn cl' u := by
  refine ⟨h.pickedBy, ?_⟩
  intro p hp
  rcases h.pickedFor p hp with ⟨screen, user, hscreen, huser, hid⟩
  rcases List.getElem?_eq_some_iff.1 hscreen with ⟨hlt, _⟩
  cases hm with
  | stop => exact ⟨screen, user, hscreen, huser, hid⟩
  | authChanged uid hvalid => exact ⟨screen, user, hscreen, huser, hid⟩
  | childAddedUser uid user' hok => exact ⟨screen, user, hscreen, huser, hid⟩
  | didSelectUser user' hmem =>
      exact ⟨screen, user, (List.getElem?_append_left hlt).trans hscreen, huser, hid⟩
  | didSelectMess partnerId hvalid =>
      exact ⟨screen, user, (List.getElem?_append_left hlt).trans hscreen, huser, hid⟩
  | valueUser i screen' uid user' hi hpartner hok =>
      by_cases hij : i = u.screen
      · -- the chat's own profile is read again
        subst hij
        have heq : screen' = screen := Option.some.inj (hi.symm.trans hscreen)
        subst heq
        have hagree : user.id = uid :=
          (hknown.screens screen' (List.mem_of_getElem? hi)).agree user uid huser hpartner
        refine ⟨{ screen' with user := some user' }, user', ?_, rfl, ?_⟩
        · simp [hi]
        · calc
            user'.id = uid := ((hdb uid).id_of_forcingName hok).1
            _ = user.id := hagree.symm
            _ = p := hid
      · exact ⟨screen, user, (List.getElem?_modify_ne _ _ hij).trans hscreen, huser, hid⟩

theorem Picked.turn {w w' : World} (h : Picked w) (hknown : Acquainted w) (ht : Turn w w') :
    ∀ u ∈ w.putDatas ++ w.downloadUrls, PickedIn (w'.clients u.client) u := by
  intro u hu
  cases ht with
  | moves c cl hmoves hclients huser =>
      by_cases hc : u.client = c
      · subst hc
        simpa [hclients] using (h u hu).moves (hknown.clients u.client) hknown.profiles hmoves
      · simpa [hclients, hc] using h u hu
  | registers uid name email pass avatarUrl hvalid hclients hdb =>
      simpa only [hclients] using h u hu
  | rests hclients huser => simpa only [hclients] using h u hu

/-- A picked image names the signed-in user, and the user of the chat if there is one. -/
theorem pickedIn_of_upload {c i : ℕ} {cl : Client} {screen : ChatScreen} {image : UIImage}
    {randomImage : Fin 10001} {u : Upload} (hknown : cl.Known)
    (hscreen : cl.screens[i]? = some screen)
    (hu : uploadImageToFirebase c i cl screen image randomImage = .ok u) :
    u.client = c ∧ PickedIn cl u := by
  rcases bind_eq_ok.1 hu with ⟨data, _, hdata⟩
  cases hdata
  refine ⟨rfl, hknown.currentUid, ?_⟩
  intro p hp
  rcases Option.map_eq_some_iff.1 hp with ⟨user, huser, hid⟩
  exact ⟨screen, user, hscreen, huser, hid⟩

/-- Every event keeps what is known of the uploads on their way. -/
theorem Picked.step {w w' : World} {e : Event} (h : Picked w) (hknown : Acquainted w)
    (hs : step w e = some w') : Picked w' := by
  have hold := h.turn hknown (turn_of_step hs)
  cases happens_of_step hs with
  | pickImage c i image randomImage screen u hscreen hu =>
      intro v hv
      rcases List.mem_cons.1 hv with rfl | hv
      · rcases pickedIn_of_upload (hknown.clients c) hscreen hu with ⟨rfl, hpicked⟩
        exact hpicked
      · exact hold v hv
  | putDataStored u hmem =>
      -- the upload moves on to wait for its URL
      intro v hv
      apply hold v
      rcases List.mem_append.1 hv with hp | hd
      · exact List.mem_append_left _ (List.mem_of_mem_erase hp)
      · rcases List.mem_cons.1 hd with rfl | hd
        · exact List.mem_append_left _ hmem
        · exact List.mem_append_right _ hd
  | putDataFailed u hmem =>
      intro v hv
      apply hold v
      rcases List.mem_append.1 hv with hp | hd
      · exact List.mem_append_left _ (List.mem_of_mem_erase hp)
      · exact List.mem_append_right _ hd
  | downloadUrlFailed u hmem =>
      intro v hv
      apply hold v
      rcases List.mem_append.1 hv with hp | hd
      · exact List.mem_append_left _ hp
      · exact List.mem_append_right _ (List.mem_of_mem_erase hd)
  | downloadUrlDone u imageUrl key now screen hmem hscreen hrun hfresh =>
      intro v hv
      apply hold v
      rcases List.mem_append.1 hv with hp | hd
      · exact List.mem_append_left _ hp
      · exact List.mem_append_right _ (List.mem_of_mem_erase hd)
  | _ => exact hold

/-- If the chat of an upload has a user, it is the one that the image was picked for. -/
theorem ChatWith.user_id {w : World} {u : Upload} {screen : ChatScreen} {p : String}
    (h : ChatWith w u p) (hknown : (w.clients u.client).Known)
    (hpicked : PickedIn (w.clients u.client) u)
    (hscreen : (w.clients u.client).screens[u.screen]? = some screen) :
    ∀ user, screen.user = some user → user.id = p := by
  intro user huser
  rcases h with hfor | ⟨screen', hscreen', hpartner⟩
  · rcases hpicked.pickedFor p hfor with ⟨screen', user', hscreen', huser', hid⟩
    have hsame : screen' = screen := Option.some.inj (hscreen'.symm.trans hscreen)
    subst hsame
    have heq : user' = user := Option.some.inj (huser'.symm.trans huser)
    simpa [heq] using hid
  · have hsame : screen' = screen := Option.some.inj (hscreen'.symm.trans hscreen)
    subst hsame
    exact (hknown.screens screen' (List.mem_of_getElem? hscreen)).agree user p huser hpartner

theorem ChatWith.ne_empty {w : World} {u : Upload} {p : String} (h : ChatWith w u p)
    (hknown : (w.clients u.client).Known) (hpicked : PickedIn (w.clients u.client) u) :
    p ≠ "" := by
  rcases h with hfor | ⟨screen, hscreen, hpartner⟩
  · rcases hpicked.pickedFor p hfor with ⟨screen, user, hscreen, huser, hid⟩
    have hvalid := (hknown.screens screen (List.mem_of_getElem? hscreen)).user user huser
    exact hid ▸ hvalid.1
  · exact ((hknown.screens screen (List.mem_of_getElem? hscreen)).partner p hpartner).1

/-- The ids of an image message, where its upload ends. -/
theorem messWrite_ids_iff {w : World} {u : Upload} {screen : ChatScreen} {a p : String}
    (hknown : Acquainted w) (hpicked : PickedIn (w.clients u.client) u)
    (hscreen : (w.clients u.client).screens[u.screen]? = some screen)
    (ha : u.pickedBy = some a) (hp : ChatWith w u p) (imageUrl : Option String) (key : String)
    (now : ℤ) :
    ((u.messWrite (w.clients u.client) screen imageUrl key now).data.fromId = a ∧
        (u.messWrite (w.clients u.client) screen imageUrl key now).data.toId = p) ↔
      (w.clients u.client).currentUid = some a ∧ screen.user.isSome = true := by
  have hane : a ≠ "" := (hpicked.pickedBy a ha).1
  have hpne : p ≠ "" := hp.ne_empty (hknown.clients u.client) hpicked
  constructor
  · intro h
    rcases h with ⟨hfrom, hto⟩
    refine ⟨?_, ?_⟩
    · -- a missing id would have become the empty string
      cases huid : (w.clients u.client).currentUid with
      | none =>
          have hempty : a = "" := by
            simpa [Upload.messWrite, MessData.fromId, huid] using hfrom.symm
          exact absurd hempty hane
      | some b => simpa [Upload.messWrite, MessData.fromId, huid] using hfrom
    · cases huser : screen.user with
      | none =>
          have hempty : p = "" := by
            simpa [Upload.messWrite, MessData.toId, huser] using hto.symm
          exact absurd hempty hpne
      | some user => rfl
  · intro h
    rcases h with ⟨huid, huser⟩
    rcases Option.isSome_iff_exists.1 huser with ⟨user, huser⟩
    have hid : user.id = p := hp.user_id (hknown.clients u.client) hpicked hscreen user huser
    refine ⟨?_, ?_⟩
    · simp [Upload.messWrite, MessData.fromId, huid]
    · simp [Upload.messWrite, MessData.toId, huser, hid]

/-! ## What happens to a message after it was sent -/

/-- The key was given to a message from `a` to `p`. -/
structure Carries (s : Store) (key a p : String) : Prop where
  issued : key ∈ s.issued
  writes : ∀ mw ∈ s.messWrites ++ s.acked, mw.key = key → mw.data.fromId = a ∧ mw.data.toId = p
  stored : s.db.mess key = .empty ∨
    ∃ d : MessData, s.db.mess key = d.record ∧ d.fromId = a ∧ d.toId = p

/-- The message is what the key names from then on. -/
theorem Carries.effect {w w' : World} {e : Event} {key a p : String}
    (h : Carries w.store key a p) (hsound : Sound w.store) (he : Effect w e w') :
    Carries w'.store key a p where
  issued := he.issued_subset h.issued
  writes mw hmem hkey := by
    rcases he.writes hmem with hold | ⟨hfresh, _⟩
    · exact h.writes mw hold hkey
    · -- another message has another key
      exact absurd (hkey ▸ h.issued) hfresh
  stored := by
    rcases hsound.mess_effect he key with hsame | ⟨mw, hmem, hkey, hrecord⟩
    · simpa only [hsame] using h.stored
    · exact Or.inr ⟨mw.data, hrecord, h.writes mw (List.mem_append_left _ hmem) hkey⟩

/-- What a sound store has under the key, in its records and in its index. -/
theorem Carries.attributedTo {s : Store} {key a p : String} (h : Carries s key a p)
    (hsound : Sound s) : AttributedTo s key a p := by
  have hstored : ∀ m, messOfChatSnapshot (s.db.mess key) = .ok m → m.fromid = a ∧ m.toid = p := by
    intro m hm
    -- a record that is there decodes to the ids that were sent
    rcases h.stored with hempty | ⟨d, hd, hfrom, hto⟩
    · simp only [hempty] at hm
      cases hm
    · simp only [hd, d.messOfChatSnapshot_record] at hm
      cases hm
      exact ⟨by simpa using hfrom, by simpa using hto⟩
  refine ⟨h.writes, hstored, ?_⟩
  intro q r hidx
  rcases (hsound.indexed q r key hidx).decodes with ⟨m, hm, hbetween⟩
  -- so its index entries stand under the sender and the receiver, in either order
  rcases hstored m hm with ⟨rfl, rfl⟩
  rcases hbetween with ⟨hq, hr⟩ | ⟨hr, hq⟩
  · exact Or.inl ⟨hq.symm, hr.symm⟩
  · exact Or.inr ⟨hq.symm, hr.symm⟩

/-! ## Runs -/

/-- What holds of the whole world in every run. -/
structure Regular (w : World) : Prop where
  sound : Sound w.store
  known : Acquainted w
  picked : Picked w

theorem Regular.step {w w' : World} {e : Event} (h : Regular w) (hs : step w e = some w') :
    Regular w' :=
  ⟨h.sound.step hs, h.known.step hs, h.picked.step h.known hs⟩

theorem regular_init : Regular .init where
  sound := Sound.init
  known := acquainted_init
  picked u hu := by simp [World.init] at hu

theorem regular_of_run {es : List Event} {w : World} (hrun : Step.run step .init es = some w) :
    Regular w :=
  Step.run_invariant (P := Regular) (fun _ _ _ h hs => h.step hs) regular_init hrun

/-- A message is carried to the end of the run. -/
theorem Carries.attributedTo_of_run {w w' : World} {es : List Event} {key a p : String}
    (h : Carries w.store key a p) (hsound : Sound w.store)
    (hrun : Step.run step w es = some w') : AttributedTo w'.store key a p := by
  have hend : Sound w'.store ∧ Carries w'.store key a p := by
    refine Step.run_invariant (P := fun w => Sound w.store ∧ Carries w.store key a p) ?_
      ⟨hsound, h⟩ hrun
    intro w e w' h hs
    exact ⟨h.1.step hs, h.2.effect h.1 (effect_of_step hs)⟩
  exact hend.2.attributedTo hend.1

/-- An image message that is sent with the right ids carries them. -/
theorem carries_issue {w : World} (hsound : Sound w.store) {mw : MessWrite} {a p : String}
    (hfresh : mw.key ∉ w.store.issued) (hids : mw.data.fromId = a ∧ mw.data.toId = p) :
    Carries (w.store.issue mw) mw.key a p where
  issued := List.mem_cons_self
  writes mw' hmem hkey := by
    rcases List.mem_cons.1 hmem with rfl | hold
    · exact hids
    · -- no other write has the new key
      refine absurd ?_ hfresh
      rcases List.mem_append.1 hold with hw | ha
      · simpa only [hkey] using hsound.issued mw' hw
      · by_contra hnew
        have hempty : w.store.db.mess mw'.key = .empty :=
          hsound.unissued mw'.key (by simpa only [hkey] using hnew)
        have hrecord := (hsound.acked mw' ha).2
        have hne := mw'.data.isEmpty_record
        simp [← hrecord, hempty, KeyTree.isEmpty] at hne
  stored := Or.inl (hsound.unissued mw.key hfresh)

/-- A step that gives an image message the right ids meets the condition. -/
theorem stillThere_of_writes {w w' : World} (h : Regular w) {u : Upload}
    {imageUrl : Option String} {key : String} {now : ℤ}
    (hs : step w (.downloadUrlDone u imageUrl key now) = some w')
    (hwrites : ∀ a p, u.pickedBy = some a → ChatWith w u p →
      ∀ mw ∈ w'.store.messWrites ++ w'.store.acked, mw.key = key →
        mw.data.fromId = a ∧ mw.data.toId = p) :
    StillThere w (.downloadUrlDone u imageUrl key now) := by
  cases happens_of_step hs with
  | traps e c hmay => cases hmay
  | downloadUrlDone u imageUrl key now screen hmem hscreen hrun hfresh =>
      intro a p ha hp
      have hpicked := h.picked u (List.mem_append_right _ hmem)
      have hids := messWrite_ids_iff h.known hpicked hscreen ha hp imageUrl key now
      -- the new write is the first one
      have hright := hids.1 (hwrites a p ha hp _ List.mem_cons_self rfl)
      refine ⟨hright.1, ?_⟩
      intro screen' hscreen'
      have heq : screen' = screen := Option.some.inj (hscreen'.symm.trans hscreen)
      simpa only [heq] using hright.2

/-- A step that meets the condition gives the message the right ids. -/
theorem carries_of_stillThere {w w' : World} (h : Regular w) {u : Upload}
    {imageUrl : Option String} {key : String} {now : ℤ}
    (hs : step w (.downloadUrlDone u imageUrl key now) = some w')
    (hcond : StillThere w (.downloadUrlDone u imageUrl key now)) {a p : String}
    (ha : u.pickedBy = some a) (hp : ChatWith w u p) : Carries w'.store key a p := by
  cases happens_of_step hs with
  | traps e c hmay => cases hmay
  | downloadUrlDone u imageUrl key now screen hmem hscreen hrun hfresh =>
      rcases hcond a p ha hp with ⟨huid, huser⟩
      have hpicked := h.picked u (List.mem_append_right _ hmem)
      have hids := messWrite_ids_iff h.known hpicked hscreen ha hp imageUrl key now
      exact carries_issue h.sound hfresh (hids.2 ⟨huid, huser screen hscreen⟩)

/-- In every run of any number of clients, every image message is attributed to the user who
picked the image, and to the chat it was picked in, exactly when every upload that ends finds both
still there. -/
theorem imagesAttributed_iff_stillThere (es : List Event) :
    (∀ es₁ es₂, es = es₁ ++ es₂ → ImagesAttributed es₁) ↔
      Step.Along step (fun w e _ => StillThere w e) .init es := by
  constructor
  · intro h es₁ e es₂ w₁ w₂ hes hrun hstep
    cases e with
    | downloadUrlDone u imageUrl key now =>
        -- look at the run up to this step
        have hrun₂ : Step.run step .init (es₁ ++ [.downloadUrlDone u imageUrl key now]) = some w₂ :=
          Step.run_concat_eq_some.2 ⟨w₁, hrun, hstep⟩
        have hupto := h (es₁ ++ [.downloadUrlDone u imageUrl key now]) es₂ (by simp [hes])
        apply stillThere_of_writes (regular_of_run hrun) hstep
        intro a p ha hp
        exact (hupto es₁ u imageUrl key now [] w₁ w₂ rfl hrun hrun₂ a p ha hp).writes
    | _ => trivial
  · intro h es' es'' hes es₁ u imageUrl key now es₂ w₁ w hes' hrun₁ hrun a p ha hp
    simp only [hes', Step.run_append, hrun₁, Option.bind_some, Step.run_cons] at hrun
    rcases Option.bind_eq_some_iff.1 hrun with ⟨w₂, hstep, hrun₂⟩
    have hcond : StillThere w₁ (.downloadUrlDone u imageUrl key now) :=
      h es₁ _ (es₂ ++ es'') w₁ w₂ (by simp [hes, hes']) hrun₁ hstep
    have hregular := regular_of_run hrun₁
    -- the ids are right when the message is sent, and are carried to the end of the run
    have hcarries := carries_of_stillThere hregular hstep hcond ha hp
    exact hcarries.attributedTo_of_run (hregular.sound.step hstep) hrun₂

/-- The picture that Alice picks in her chat with Bob. -/
def sunset : Upload :=
  { client := 0
    screen := 0
    image := { pngData := some [1], width := NSNumber.ofInt 1, height := NSNumber.ofInt 1 }
    randomImage := 7
    pickedBy := some "alice"
    pickedFor := some "bob" }

/-- Alice picks it and signs out; Carol signs in on the same device before the upload ends. -/
def accountChanges : List Event :=
  [.profileWritten "bob" "Bob" "bob@chat" "secret" none, .authChanged 0 (some "alice"),
    .childAddedUser 0 "bob", .didSelectUser 0 0, .pickImage 0 0 sunset.image 7,
    .putDataAnswered sunset true, .authChanged 0 none, .authChanged 0 (some "carol")]

/-- The picture goes out as one from Carol. -/
theorem accountChanges_not_imagesAttributed : ¬ ∀ es : List Event, ImagesAttributed es := by
  intro h
  obtain ⟨w₁, w, hrun₁, hstep, hfor, hwrites⟩ : ∃ w₁ w,
      Step.run step .init accountChanges = some w₁ ∧
      Step.run step .init
        (accountChanges ++ [.downloadUrlDone sunset (some "url/7") "k1" 1]) = some w ∧
      ChatWith w₁ sunset "bob" ∧
      w.store.messWrites.map (fun mw => (mw.key, mw.data.fromId)) = [("k1", "carol")] :=
    ⟨_, _, rfl, rfl, Or.inl rfl, rfl⟩
  have hattr := h _ accountChanges sunset _ "k1" 1 [] w₁ w rfl hrun₁ hstep "alice" "bob" rfl hfor
  have hmem : ("k1", "carol") ∈ w.store.messWrites.map fun mw => (mw.key, mw.data.fromId) := by
    simp [hwrites]
  rcases List.mem_map.1 hmem with ⟨mw, hmw, hpair⟩
  rcases Prod.mk.inj hpair with ⟨hkey, hfrom⟩
  have halice : mw.data.fromId = "alice" :=
    (hattr.writes mw (List.mem_append_left _ hmw) hkey).1
  exact absurd (hfrom.symm.trans halice) (by decide)

end Send
end AppChatAgain
