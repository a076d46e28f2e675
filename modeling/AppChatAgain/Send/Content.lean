import AppChatAgain.Send.Integrity
import AppChatAgain.Send.Users

/-!
# Send.Content — which records a send writes

Neither send function checks what it puts into the record: a missing id becomes the empty string,
and so do an empty text field and a missing download URL.  The completion handler forces the same
ids that the record defaults.  So the records are proper, and the handlers never trap, exactly
when every send finds somebody signed in, the user of its chat, and some content.
-/

namespace AppChatAgain
namespace Send

open Foundation Firebase Records

/-! ## Proper messages -/

/-- The message has both its users and is either a text or an image. -/
structure Proper (m : Mess) : Prop where
  fromid : m.fromid ≠ ""
  toid : m.toid ≠ ""
  content : (m.mess ≠ "" ∧ m.imageUrl = "") ∨ (m.mess = "" ∧ m.imageUrl ≠ "")

/-- The write is of a proper message, and its completion handler does not trap. -/
structure ProperWrite (mw : MessWrite) : Prop where
  data : Proper mw.data.toMess
  handler : ∃ iws, mw.indexWrites = .ok iws

/-- Every record that is written or on its way is proper. -/
structure OnlyProper (w : World) : Prop where
  writes : ∀ mw ∈ w.store.messWrites ++ w.store.acked, ProperWrite mw
  stored : ∀ k, w.store.db.mess k = .empty ∨
    ∃ m, messOfChatSnapshot (w.store.db.mess k) = .ok m ∧ Proper m

/-- What a send needs for its record to be proper: somebody is signed in, the user of the chat is
there, and there is a text or a URL. -/
def SendsContent (w : World) : Event → Prop
  | .sendMess c i _ textMess _ =>
      (w.clients c).currentUid.isSome = true ∧
        (∀ screen, (w.clients c).screens[i]? = some screen → screen.user.isSome = true) ∧
          textMess ≠ ""
  | .downloadUrlDone u imageUrl _ _ =>
      (w.clients u.client).currentUid.isSome = true ∧
        (∀ screen, (w.clients u.client).screens[u.screen]? = some screen →
          screen.user.isSome = true) ∧
          imageUrl.getD "" ≠ ""
  | _ => True

theorem onlyProper_init : OnlyProper .init where
  writes mw h := by simp [World.init, Store.init] at h
  stored k := Or.inl (KeyTree.get_empty _)

/-! ## The ids of a record -/

theorem getD_ne_empty_iff {o : Option String} (h : ∀ s ∈ o, IsValidPathString s) :
    o.getD "" ≠ "" ↔ o.isSome = true := by
  cases o with
  | none => simp
  | some s => simp [(h s rfl).1]

/-- With both ids there, and valid path strings, the handler has its paths. -/
theorem MessWrite.exists_indexWrites {mw : MessWrite}
    (hfrom : ∀ s ∈ mw.fromid, IsValidPathString s) (hto : ∀ s ∈ mw.toid, IsValidPathString s)
    (hf : mw.fromid.isSome = true) (ht : mw.toid.isSome = true) :
    ∃ iws, mw.indexWrites = .ok iws := by
  rcases Option.isSome_iff_exists.1 hf with ⟨f, hf⟩
  rcases Option.isSome_iff_exists.1 ht with ⟨t, ht⟩
  have hchildf : child f = .ok f := child_eq_ok.2 ⟨hfrom f hf, rfl⟩
  have hchildt : child t = .ok t := child_eq_ok.2 ⟨hto t ht, rfl⟩
  refine ⟨[⟨mw.client, f, t, mw.key⟩, ⟨mw.client, t, f, mw.key⟩], ?_⟩
  simp [MessWrite.indexWrites, hf, ht, hchildf, hchildt, bind, Except.bind, pure, Except.pure]

/-- A write is proper exactly when both ids and the content are there. -/
theorem properWrite_iff {mw : MessWrite} (hc : mw.Consistent)
    (hfrom : ∀ s ∈ mw.fromid, IsValidPathString s) (hto : ∀ s ∈ mw.toid, IsValidPathString s) :
    ProperWrite mw ↔ mw.fromid.isSome = true ∧ mw.toid.isSome = true ∧
      ((mw.data.toMess.mess ≠ "" ∧ mw.data.toMess.imageUrl = "") ∨
        (mw.data.toMess.mess = "" ∧ mw.data.toMess.imageUrl ≠ "")) := by
  constructor
  · intro h
    have hf : mw.fromid.getD "" ≠ "" := by simpa [hc.1] using h.data.fromid
    have ht : mw.toid.getD "" ≠ "" := by simpa [hc.2] using h.data.toid
    exact ⟨(getD_ne_empty_iff hfrom).1 hf, (getD_ne_empty_iff hto).1 ht, h.data.content⟩
  · rintro ⟨hf, ht, hcontent⟩
    refine ⟨⟨?_, ?_, hcontent⟩, mw.exists_indexWrites hfrom hto hf ht⟩
    · simpa [hc.1] using (getD_ne_empty_iff hfrom).2 hf
    · simpa [hc.2] using (getD_ne_empty_iff hto).2 ht

/-- The id that a chat's user gives to a record is a valid path string. -/
theorem ChatScreen.Known.userId {screen : ChatScreen} (h : screen.Known) :
    ∀ s ∈ screen.user.map User.id, IsValidPathString s := by
  intro s hs
  rcases Option.map_eq_some_iff.1 hs with ⟨user, huser, rfl⟩
  exact h.user user huser

theorem properWrite_sendMess_iff {c : ℕ} {cl : Client} {screen : ChatScreen} (hcl : cl.Known)
    (hscreen : screen.Known) (key textMess : String) (now : ℤ) :
    ProperWrite (sendMessToFirebase c cl screen key textMess now) ↔
      cl.currentUid.isSome = true ∧ screen.user.isSome = true ∧ textMess ≠ "" := by
  apply (properWrite_iff ⟨rfl, rfl⟩ hcl.currentUid hscreen.userId).trans
  simp [sendMessToFirebase, MessData.toMess]

theorem properWrite_messWrite_iff {u : Upload} {cl : Client} {screen : ChatScreen}
    (hcl : cl.Known) (hscreen : screen.Known) (imageUrl : Option String) (key : String) (now : ℤ) :
    ProperWrite (u.messWrite cl screen imageUrl key now) ↔
      cl.currentUid.isSome = true ∧ screen.user.isSome = true ∧ imageUrl.getD "" ≠ "" := by
  apply (properWrite_iff ⟨rfl, rfl⟩ hcl.currentUid hscreen.userId).trans
  simp [Upload.messWrite, MessData.toMess]

/-! ## Sends and other events -/

def Event.isSend : Event → Bool
  | .sendMess .. => true
  | .downloadUrlDone .. => true
  | _ => false

/-- Only the two send functions ask for a key. -/
theorem issued_of_not_isSend {w w' : World} {e : Event} (h : step w e = some w')
    (he : e.isSend = false) : w'.store.issued = w.store.issued := by
  cases happens_of_step h with
  | sendMess c i key textMess now screen hscreen hrun hfresh => cases he
  | downloadUrlDone u imageUrl key now screen hmem hscreen hrun hfresh => cases he
  | _ => rfl

/-! ## One event -/

/-- A record write that is issued makes the difference. -/
theorem OnlyProper.issue_iff {w w' : World} (h : OnlyProper w) {mw : MessWrite}
    (hstore : w'.store = w.store.issue mw) : OnlyProper w' ↔ ProperWrite mw := by
  constructor
  · intro h'
    apply h'.writes mw
    simp [hstore, Store.issue]
  · intro hmw
    refine ⟨?_, by simpa only [hstore, Store.issue] using h.stored⟩
    intro mw' hmem
    have hcons : mw' ∈ mw :: (w.store.messWrites ++ w.store.acked) := by
      simpa [hstore, Store.issue, or_assoc] using hmem
    rcases List.mem_cons.1 hcons with heq | hold
    · simpa only [heq] using hmw
    · exact h.writes mw' hold

/-- An event that asks for no key writes no other records than those on their way. -/
theorem OnlyProper.effect {w w' : World} {e : Event} (h : OnlyProper w) (hsound : Sound w.store)
    (he : Effect w e w') (hissued : w'.store.issued = w.store.issued) : OnlyProper w' where
  writes mw hmem := by
    rcases he.writes hmem with hold | ⟨hfresh, hnow, _⟩
    · exact h.writes mw hold
    · exact absurd (hissued ▸ hnow) hfresh
  stored k := by
    rcases hsound.mess_effect he k with hsame | ⟨mw, hmem, _, hrecord⟩
    · simpa only [hsame] using h.stored k
    · -- the record that arrives is the one that was sent
      have hproper := (h.writes mw (List.mem_append_left _ hmem)).data
      exact Or.inr ⟨mw.data.toMess, by simpa only [hrecord] using mw.data.messOfChatSnapshot_record,
        hproper⟩

/-- An event after which only proper records are written is exactly one that meets its
condition. -/
theorem OnlyProper.step_iff {w w' : World} {e : Event} (h : OnlyProper w)
    (hsound : Sound w.store) (hknown : Acquainted w) (hs : step w e = some w') :
    OnlyProper w' ↔ SendsContent w e := by
  have hquiet : e.isSend = false → OnlyProper w' := fun he =>
    h.effect hsound (effect_of_step hs) (issued_of_not_isSend hs he)
  cases happens_of_step hs with
  | sendMess c i key textMess now screen hscreen hrun hfresh =>
      have hcl := hknown.clients c
      have hknows := hcl.screens screen (List.mem_of_getElem? hscreen)
      calc
        OnlyProper _ ↔ ProperWrite (sendMessToFirebase c (w.clients c) screen key textMess now) :=
          h.issue_iff rfl
        _ ↔ _ := properWrite_sendMess_iff hcl hknows key textMess now
        _ ↔ SendsContent w (.sendMess c i key textMess now) := by simp [SendsContent, hscreen]
  | downloadUrlDone u imageUrl key now screen hmem hscreen hrun hfresh =>
      have hcl := hknown.clients u.client
      have hknows := hcl.screens screen (List.mem_of_getElem? hscreen)
      calc
        OnlyProper _ ↔ ProperWrite (u.messWrite (w.clients u.client) screen imageUrl key now) :=
          h.issue_iff rfl
        _ ↔ _ := properWrite_messWrite_iff hcl hknows imageUrl key now
        _ ↔ SendsContent w (.downloadUrlDone u imageUrl key now) := by
          simp [SendsContent, hscreen]
  | traps e c hmay =>
      -- a send does not trap before its completion handler
      cases e <;> first | exact iff_of_true (hquiet rfl) trivial | cases hmay
  | _ => exact iff_of_true (hquiet rfl) trivial

/-! ## Runs -/

/-- In every run of any number of clients, only proper records are written throughout, and no
completion handler traps, exactly when every send meets its condition. -/
theorem onlyProper_iff_sendsContent (es : List Event) :
    Step.Throughout step OnlyProper .init es ↔
      Step.Along step (fun w e _ => SendsContent w e) .init es := by
  refine Step.throughout_iff_along (I := fun w => Sound w.store ∧ Acquainted w) ?_ ?_
    ⟨Sound.init, acquainted_init⟩ onlyProper_init
  · intro w e w' h hs
    exact ⟨h.1.step hs, h.2.step hs⟩
  · intro w e w' h hproper hs
    exact hproper.step_iff h.1 h.2 hs

/-- Alice opens Bob's chat from the inbox, and sends before his profile is there. -/
def sendsEarly : List Event :=
  [.authChanged 0 (some "alice"), .didSelectMess 0 "bob", .sendMess 0 0 "k1" "hello" 1,
    .messAnswered
      { client := 0
        key := "k1"
        fromid := some "alice"
        toid := none
        data := .text "alice" "" "hello" (NSNumber.ofInt 1)
        upload := none } true]

/-- The record that is stored has no recipient, and its handler will trap. -/
theorem sendsEarly_not_onlyProper :
    ¬ ∀ es : List Event, Step.Throughout step OnlyProper .init es := by
  intro h
  obtain ⟨w, hrun⟩ : ∃ w, Step.run step .init sendsEarly = some w := ⟨_, rfl⟩
  have hproper := h sendsEarly sendsEarly [] w (by simp) hrun
  cases hrun
  rcases hproper.stored "k1" with hempty | ⟨m, hm, hm'⟩
  · cases hempty
  · cases hm
    exact hm'.toid rfl

/-- An empty text field is sent too. -/
example : (Step.run step .init
    [.authChanged 0 (some "alice"), .didSelectMess 0 "bob", .sendMess 0 0 "k1" "" 1]).isSome =
      true := rfl

end Send
end AppChatAgain
