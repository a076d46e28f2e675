import AppChatAgain.Inbox.Sessions
import AppChatAgain.Send.Completeness

/-!
# Inbox.Convergence — the inbox of a user who stays signed in

Observers file each message by the partner that the signed-in user gives it.  While this is the
user of the screen, that partner is the one under whom the message was found, whatever the other
clients do.  So once every entry of the index that its client sees has been called back, in any
order and any number of times, the inbox has exactly one row for each partner of the index.  A row
whose entry was an index write of the client itself outlives the rejection of the write.
-/

namespace AppChatAgain
namespace Inbox

open Foundation Firebase Records

/-- The value callback of the `i`-th inbox for `key`, found under `partner`, is among the events. -/
def CalledBack (es : List Event) (i : ℕ) (partner key : String) : Prop :=
  ∃ values, Event.valueMess i partner key values ∈ es

/-- The events of the world in a run of the inboxes. -/
def worldEvent : Event → Option Send.Event
  | .world e => some e
  | _ => none

/-- What the dictionary and the rows of a screen hold after the events. -/
structure Filed (db : Database) (es : List Event) (i : ℕ) (inbox : InboxScreen) : Prop where
  found : ∀ p m, inbox.controller.messageDictionary.lookup p = some m → inbox.FoundUnder db p m
  called : ∀ p k, CalledBack es i p k → p ∈ inbox.controller.messageDictionary
  sorted : inbox.controller.arrayMessage.Pairwise fun m m' => m'.time ≤ m.time

/-- What a screen observes is in the index that its client sees, or was, and has been taken back. -/
def Seen (s : Send.Store) (es : List Event) (inbox : InboxScreen) : Prop :=
  ∀ p k, ⟨p, k⟩ ∈ inbox.values → (s.view inbox.client).indexed inbox.uid p k = true ∨
    Send.TakenBack (es.filterMap worldEvent) inbox.client inbox.uid p k

/-- The screens of signed-in users have filed what they were called back for. -/
structure Files (es : List Event) (s : Sessions) : Prop where
  wired : Wired s
  known : ∀ i p k, CalledBack es i p k → i < s.inboxes.length
  filed : ∀ (i : ℕ) (inbox : InboxScreen), s.inboxes[i]? = some inbox → inbox.left = false →
    Filed s.world.store.db es i inbox
  seen : ∀ inbox ∈ s.inboxes, Seen s.world.store es inbox

/-! ## One event -/

theorem calledBack_concat {es : List Event} {e : Event} {i : ℕ} {p k : String}
    (h : CalledBack (es ++ [e]) i p k) :
    CalledBack es i p k ∨ ∃ values, e = .valueMess i p k values := by
  rcases h with ⟨values, hmem⟩
  rcases List.mem_append.1 hmem with hold | hnew
  · exact Or.inl ⟨values, hold⟩
  · exact Or.inr ⟨values, (List.mem_singleton.1 hnew).symm⟩

/-- An event that is no value callback calls nobody back for a value. -/
theorem calledBack_concat_iff {es : List Event} {e : Event}
    (he : ∀ i p k values, e ≠ .valueMess i p k values) {i : ℕ} {p k : String} :
    CalledBack (es ++ [e]) i p k ↔ CalledBack es i p k := by
  constructor
  · intro h
    rcases calledBack_concat h with hold | ⟨values, heq⟩
    · exact hold
    · exact absurd heq (he i p k values)
  · rintro ⟨values, hmem⟩
    exact ⟨values, List.mem_append_left _ hmem⟩

/-- What was taken back stays so. -/
theorem takenBack_concat {es : List Event} {c : ℕ} {uid p k : String} (e : Event)
    (h : Send.TakenBack (es.filterMap worldEvent) c uid p k) :
    Send.TakenBack ((es ++ [e]).filterMap worldEvent) c uid p k := by
  rw [List.filterMap_append]
  exact h.append_left _

/-- A screen has seen what it observes as long as the world stays as it is. -/
theorem Seen.concat {s : Send.Store} {es : List Event} {inbox inbox' : InboxScreen}
    (h : Seen s es inbox) (e : Event) (hclient : inbox'.client = inbox.client)
    (huid : inbox'.uid = inbox.uid)
    (hvalues : ∀ p k, ⟨p, k⟩ ∈ inbox'.values →
      ⟨p, k⟩ ∈ inbox.values ∨ (s.view inbox.client).indexed inbox.uid p k = true) :
    Seen s (es ++ [e]) inbox' := by
  intro p k hmem
  rw [hclient, huid]
  rcases hvalues p k hmem with hold | hnew
  · exact (h p k hold).imp_right (takenBack_concat e)
  · exact Or.inl hnew

/-- An event of the world takes back what the client no longer sees. -/
theorem Seen.world {w w' : Send.World} {es : List Event} {inbox : InboxScreen} {e : Send.Event}
    (h : Seen w.store es inbox) (hs : Send.step w e = some w') :
    Seen w'.store (es ++ [.world e]) (inbox.notice w') := by
  intro p k hmem
  rcases h p k hmem with hview | hback
  · rcases (Send.effect_of_step hs).indexed_view hview with hview' | hback
    · exact Or.inl hview'
    · exact Or.inr ⟨e, by simp [worldEvent], hback⟩
  · exact Or.inr (takenBack_concat _ hback)

/-- Every screen of a list has seen what it observes after the `i`-th one was replaced. -/
theorem seen_set {s : Send.Store} {es : List Event} {e : Event} {inboxes : List InboxScreen}
    (h : ∀ inbox ∈ inboxes, Seen s es inbox) (i : ℕ) {new : InboxScreen}
    (hnew : Seen s (es ++ [e]) new) : ∀ inbox ∈ inboxes.set i new, Seen s (es ++ [e]) inbox := by
  intro inbox hmem
  rcases List.mem_or_eq_of_mem_set hmem with hold | rfl
  · exact (h inbox hold).concat e rfl rfl fun _ _ => Or.inl
  · exact hnew

/-- A value callback files its message, and takes nothing away. -/
theorem Filed.valueMess {sort : SortFn Mess} {w : Send.World} {es : List Event} {i : ℕ}
    {inbox : InboxScreen} (h : Filed w.store.db es i inbox) (hwired : inbox.Wired w)
    (hleft : inbox.left = false) {p k : String} (hmem : ⟨p, k⟩ ∈ inbox.values)
    (values : Enumeration String Mess) :
    Filed w.store.db (es ++ [.valueMess i p k values]) i
      (inbox.valueMess sort values (w.clients inbox.client).currentUid (w.store.db.mess k)) where
  found := hwired.foundUnder_valueMess hleft hmem values h.found
  called p' k' hcalled := by
    simp only [InboxScreen.valueMess, MessageController.messageDictionary_valueMess,
      hwired.getPartnerId hleft hmem, Finmap.mem_insert]
    rcases calledBack_concat hcalled with hold | ⟨values', heq⟩
    · exact Or.inr (h.called p' k' hold)
    · cases heq
      exact Or.inl rfl
  sorted := inbox.controller.arrayMessage_valueMess_sorted sort values _ _

/-- The other screens are not called back. -/
theorem Filed.of_ne {db : Database} {es : List Event} {i j : ℕ} {inbox : InboxScreen}
    (h : Filed db es j inbox) (hne : j ≠ i) (p k : String) (values : Enumeration String Mess) :
    Filed db (es ++ [.valueMess i p k values]) j inbox where
  found := h.found
  called p' k' hcalled := by
    rcases calledBack_concat hcalled with hold | ⟨values', heq⟩
    · exact h.called p' k' hold
    · cases heq
      exact absurd rfl hne
  sorted := h.sorted

/-- What stands at an index after the `i`-th element was replaced. -/
theorem getElem?_set_of_getElem? {α : Type*} {l : List α} {i j : ℕ} {new a : α}
    (h : (l.set i new)[j]? = some a) : (j = i ∧ a = new) ∨ l[j]? = some a := by
  by_cases hj : j = i
  · subst hj
    have hlt : j < l.length := by simpa using (List.getElem?_eq_some_iff.1 h).1
    exact Or.inl ⟨rfl, (Option.some.inj ((List.getElem?_set_self hlt).symm.trans h)).symm⟩
  · exact Or.inr (by simpa [List.getElem?_set_ne (Ne.symm hj)] using h)

/-- A screen that is opened was never called back. -/
theorem filed_viewDidLoad {db : Database} {es : List Event} {i : ℕ} (c : ℕ) (uid : String)
    (hnone : ∀ p k, ¬ CalledBack es i p k) : Filed db es i (.viewDidLoad c uid) where
  found p m h := by
    simp [InboxScreen.viewDidLoad, MessageController.viewDidLoad] at h
  called p k h := absurd h (hnone p k)
  sorted := List.Pairwise.nil

/-- An event without a value callback, that keeps the dictionaries, keeps what they hold. -/
theorem Filed.of_controller {db db' : Database} {es : List Event} {e : Event} {i : ℕ}
    {inbox inbox' : InboxScreen} (h : Filed db es i inbox)
    (he : ∀ i p k values, e ≠ .valueMess i p k values)
    (hcontroller : inbox'.controller = inbox.controller)
    (hdb : ∀ p m, inbox.FoundUnder db p m → inbox'.FoundUnder db' p m) :
    Filed db' (es ++ [e]) i inbox' where
  found p m hm := hdb p m (h.found p m (hcontroller ▸ hm))
  called p k hcalled := by
    rw [hcontroller]
    exact h.called p k ((calledBack_concat_iff he).1 hcalled)
  sorted := hcontroller ▸ h.sorted

/-! ## Every run -/

theorem files_init : Files [] .init where
  wired := wired_init
  known i p k h := by
    rcases h with ⟨values, hmem⟩
    cases hmem
  filed i inbox h := by simp [Sessions.init] at h
  seen inbox h := by cases h

/-- An observer that leaves its controller alone keeps what the screens have filed. -/
theorem Files.set {es : List Event} {s : Sessions} {e : Event} (h : Files es s)
    (he : ∀ i p k values, e ≠ .valueMess i p k values) {j : ℕ} {inbox new : InboxScreen}
    (hj : s.inboxes[j]? = some inbox)
    (hwired : Wired { s with inboxes := s.inboxes.set j new })
    (hleft : new.left = inbox.left) (hcontroller : new.controller = inbox.controller)
    (hfound : ∀ p m, inbox.FoundUnder s.world.store.db p m →
      new.FoundUnder s.world.store.db p m)
    (hseen : Seen s.world.store (es ++ [e]) new) :
    Files (es ++ [e]) { s with inboxes := s.inboxes.set j new } where
  wired := hwired
  known i p k hcalled := by
    simpa using h.known i p k ((calledBack_concat_iff he).1 hcalled)
  filed i inbox' hi hleft' := by
    rcases getElem?_set_of_getElem? hi with ⟨rfl, rfl⟩ | hold
    · exact (h.filed _ inbox hj (hleft ▸ hleft')).of_controller he hcontroller hfound
    · exact (h.filed i inbox' hold hleft').of_controller he rfl fun _ _ => id
  seen := seen_set h.seen j hseen

/-- An event of the world leaves the controllers alone, and every record that was found. -/
theorem Files.world {es : List Event} {s : Sessions} {e : Send.Event} {w : Send.World}
    (h : Files es s) (hs : Send.step s.world e = some w)
    (hwired : Wired { world := w, inboxes := s.inboxes.map (InboxScreen.notice w) }) :
    Files (es ++ [.world e]) { world := w, inboxes := s.inboxes.map (InboxScreen.notice w) } where
  wired := hwired
  known i p k hcalled := by
    simpa using h.known i p k ((calledBack_concat_iff (by simp)).1 hcalled)
  filed i inbox' hi hleft := by
    rcases Option.map_eq_some_iff.1 (List.getElem?_map.symm.trans hi) with ⟨inbox, hinbox, rfl⟩
    have hboth : inbox.left = false := by
      simp only [InboxScreen.notice, Bool.or_eq_false_iff] at hleft
      exact hleft.1
    have hold := h.wired.inboxes inbox (List.mem_of_getElem? hinbox)
    exact (h.filed i inbox hinbox hboth).of_controller (by simp) rfl
      fun p m hfound => hfound.notice hold h.wired.sound hs
  seen inbox' hmem := by
    rcases List.mem_map.1 hmem with ⟨inbox, hinbox, rfl⟩
    exact (h.seen inbox hinbox).world hs

/-- A screen that is opened has filed nothing, and was called back for nothing. -/
theorem Files.opens {es : List Event} {s : Sessions} (h : Files es s) {c : ℕ} {uid : String}
    (hwired : Wired { s with inboxes := s.inboxes ++ [.viewDidLoad c uid] }) :
    Files (es ++ [.viewDidLoad c]) { s with inboxes := s.inboxes ++ [.viewDidLoad c uid] } where
  wired := hwired
  known i p k hcalled := by
    have hold := h.known i p k ((calledBack_concat_iff (by simp)).1 hcalled)
    simp only [List.length_append]
    omega
  filed i inbox hi hleft := by
    by_cases hlt : i < s.inboxes.length
    · rw [List.getElem?_append_left hlt] at hi
      exact (h.filed i inbox hi hleft).of_controller (by simp) rfl fun _ _ => id
    · rw [List.getElem?_append_right (by omega)] at hi
      have hmem := List.mem_of_getElem? hi
      obtain rfl : inbox = .viewDidLoad c uid := by simpa using hmem
      -- no event so far was for the new screen
      refine filed_viewDidLoad c uid fun p k hcalled => hlt ?_
      exact h.known i p k ((calledBack_concat_iff (by simp)).1 hcalled)
  seen inbox hmem := by
    rcases List.mem_append.1 hmem with hold | hnew
    · exact (h.seen inbox hold).concat _ rfl rfl fun _ _ => Or.inl
    · obtain rfl : inbox = .viewDidLoad c uid := by simpa using hnew
      intro p k hvalue
      cases hvalue

/-- A value callback files its message with the one screen it is for. -/
theorem Files.valueMess {sort : SortFn Mess} {es : List Event} {s : Sessions} (h : Files es s)
    {j : ℕ} {p k : String} {values : Enumeration String Mess} {inbox : InboxScreen}
    (hj : s.inboxes[j]? = some inbox) (hmem : ⟨p, k⟩ ∈ inbox.values) :
    Files (es ++ [.valueMess j p k values])
      { s with
        inboxes := s.inboxes.set j (inbox.valueMess sort values
          (s.world.clients inbox.client).currentUid (s.world.store.db.mess k)) } where
  wired := h.wired.set j ((h.wired.inboxes inbox (List.mem_of_getElem? hj)).valueMess sort _ _ _)
  known i p' k' hcalled := by
    rcases calledBack_concat hcalled with hold | ⟨values', heq⟩
    · simpa using h.known i p' k' hold
    · cases heq
      simpa using (List.getElem?_eq_some_iff.1 hj).1
  filed i inbox' hi hleft := by
    by_cases hij : i = j
    · subst hij
      have hlt : i < s.inboxes.length := (List.getElem?_eq_some_iff.1 hj).1
      obtain rfl := Option.some.inj ((List.getElem?_set_self hlt).symm.trans hi)
      exact (h.filed i inbox hj hleft).valueMess
        (h.wired.inboxes inbox (List.mem_of_getElem? hj)) hleft hmem values
    · have hold : s.inboxes[i]? = some inbox' := by
        simpa [List.getElem?_set_ne (Ne.symm hij)] using hi
      exact (h.filed i inbox' hold hleft).of_ne hij p k values
  seen := seen_set h.seen j <|
    (h.seen inbox (List.mem_of_getElem? hj)).concat _ rfl rfl fun _ _ => Or.inl

/-- Every event keeps what the screens have filed. -/
theorem Files.step {sort : SortFn Mess} {es : List Event} {s s' : Sessions} {e : Event}
    (h : Files es s) (hs : step sort s e = some s') : Files (es ++ [e]) s' := by
  have hwired' := h.wired.step hs
  cases happens_of_step hs with
  | world e w hstep => exact h.world hstep hwired'
  | opensNothing c =>
      refine ⟨hwired', fun i p k hcalled => ?_, fun i inbox hi hleft => ?_, fun inbox hmem => ?_⟩
      · exact h.known i p k ((calledBack_concat_iff (by simp)).1 hcalled)
      · exact (h.filed i inbox hi hleft).of_controller (by simp) rfl fun _ _ => id
      · exact (h.seen inbox hmem).concat _ rfl rfl fun _ _ => Or.inl
  | opens c uid huid => exact h.opens hwired'
  | childAddedPartner j p inbox hj =>
      refine h.set (by simp) hj hwired' rfl rfl (fun _ _ => id) ?_
      exact (h.seen inbox (List.mem_of_getElem? hj)).concat _ rfl rfl fun _ _ => Or.inl
  | childAddedMess j p k inbox hj hindexed =>
      refine h.set (by simp) hj hwired' rfl rfl ?_ ?_
      · rintro q m ⟨k', hmem, hm⟩
        exact ⟨k', List.mem_cons_of_mem _ hmem, hm⟩
      · refine (h.seen inbox (List.mem_of_getElem? hj)).concat _ rfl rfl ?_
        intro q k' hmem
        rcases List.mem_cons.1 hmem with heq | hold
        · cases heq
          exact Or.inr hindexed
        · exact Or.inl hold
  | valueMess j p k values inbox hj hmem => exact h.valueMess hj hmem

theorem files_of_run {sort : SortFn Mess} {es : List Event} {s : Sessions}
    (hrun : Step.run (step sort) .init es = some s) : Files es s :=
  Step.run_history (P := Files) files_init (fun _ _ _ _ _ h hs => h.step hs) hrun

/-! ## The caught-up inbox -/

/-- Every entry of the index of `uid` has been called back to the `i`-th inbox. -/
def CaughtUp (view : Database) (es : List Event) (i : ℕ) (uid : String) : Prop :=
  ∀ p k, view.indexed uid p k = true → CalledBack es i p k

/-- While its user is signed in, a screen has its messages under their partners. -/
theorem Files.getPartnerId {es : List Event} {s : Sessions} (h : Files es s) {i : ℕ}
    {inbox : InboxScreen} (hi : s.inboxes[i]? = some inbox) (hleft : inbox.left = false)
    {p : String} {m : Mess} (hm : inbox.controller.messageDictionary.lookup p = some m) :
    m.getPartnerId (some inbox.uid) = p := by
  have hwired := h.wired.inboxes inbox (List.mem_of_getElem? hi)
  rcases (h.filed i inbox hi hleft).found p m hm with ⟨k, hmem, rfl⟩
  simpa only [hwired.signedIn hleft] using hwired.getPartnerId hleft hmem

/-- Each row of such a screen shows a message that was found under its partner. -/
theorem Files.row {es : List Event} {s : Sessions} (h : Files es s) {i : ℕ} {inbox : InboxScreen}
    (hi : s.inboxes[i]? = some inbox) (hleft : inbox.left = false) {m : Mess}
    (hm : m ∈ inbox.controller.arrayMessage) :
    inbox.FoundUnder s.world.store.db (m.getPartnerId (some inbox.uid)) m := by
  have hrows := (h.wired.inboxes inbox (List.mem_of_getElem? hi)).rows
  have hmem : m ∈ inbox.controller.messageDictionary.values := by
    simpa only [← hrows] using Multiset.mem_coe.2 hm
  rcases Dict.mem_values.1 hmem with ⟨p, hp⟩
  exact (h.getPartnerId hi hleft hp).symm ▸ (h.filed i inbox hi hleft).found p m hp

/-- The partners of its rows are the keys of its dictionary. -/
theorem Files.partners {es : List Event} {s : Sessions} (h : Files es s) {i : ℕ}
    {inbox : InboxScreen} (hi : s.inboxes[i]? = some inbox) (hleft : inbox.left = false) :
    ((inbox.controller.arrayMessage.map fun m => m.getPartnerId (some inbox.uid) : List String) :
      Multiset String) = inbox.controller.messageDictionary.keys.val := by
  have hkeyed : Dict.KeyedBy (fun m : Mess => m.getPartnerId (some inbox.uid))
      inbox.controller.messageDictionary := by
    intro p m hm
    exact h.getPartnerId hi hleft hm
  exact hkeyed.map_list (h.wired.inboxes inbox (List.mem_of_getElem? hi)).rows

/-- They are all different. -/
theorem Files.partners_nodup {es : List Event} {s : Sessions} (h : Files es s) {i : ℕ}
    {inbox : InboxScreen} (hi : s.inboxes[i]? = some inbox) (hleft : inbox.left = false) :
    (inbox.controller.arrayMessage.map fun m => m.getPartnerId (some inbox.uid)).Nodup := by
  have hkeys := inbox.controller.messageDictionary.keys.nodup
  exact Multiset.coe_nodup.1 (h.partners hi hleft ▸ hkeys)

/-- Whoever the screen was called back for has a row. -/
theorem Files.mem_partners {es : List Event} {s : Sessions} (h : Files es s) {i : ℕ}
    {inbox : InboxScreen} (hi : s.inboxes[i]? = some inbox) (hleft : inbox.left = false)
    {p k : String} (hcalled : CalledBack es i p k) :
    p ∈ inbox.controller.arrayMessage.map fun m => m.getPartnerId (some inbox.uid) := by
  rw [← Multiset.mem_coe, h.partners hi hleft]
  exact Finmap.mem_keys.2 ((h.filed i inbox hi hleft).called p k hcalled)

/-- As long as its user has not been signed out, an inbox that is caught up has exactly one row for
each partner of the index that its client sees, sorted by whole seconds, the newest first.  Each row
shows a message of the index, or one whose entry an index write of the client has made and lost.  If
its client has lost no index write of the user, the rows are those of the index. -/
theorem caughtUp_rows {sort : SortFn Mess} {es : List Event} {s : Sessions}
    (hrun : Step.run (step sort) .init es = some s) {i : ℕ} {inbox : InboxScreen}
    (hi : s.inboxes[i]? = some inbox) (hleft : inbox.left = false)
    (hup : CaughtUp (s.world.store.view inbox.client) es i inbox.uid) :
    (inbox.controller.arrayMessage.map fun m => m.getPartnerId (some inbox.uid)).Nodup ∧
    (∀ p k, (s.world.store.view inbox.client).indexed inbox.uid p k = true →
      p ∈ inbox.controller.arrayMessage.map fun m => m.getPartnerId (some inbox.uid)) ∧
    (inbox.controller.arrayMessage.Pairwise fun m m' => m'.time ≤ m.time) ∧
    (∀ m ∈ inbox.controller.arrayMessage, ∃ k, messOfInboxSnapshot (s.world.store.db.mess k) = m ∧
      ((s.world.store.view inbox.client).indexed inbox.uid (m.getPartnerId (some inbox.uid)) k =
          true ∨
        Send.TakenBack (es.filterMap worldEvent) inbox.client inbox.uid
          (m.getPartnerId (some inbox.uid)) k)) ∧
    ((∀ p k, ¬ Send.TakenBack (es.filterMap worldEvent) inbox.client inbox.uid p k) →
      (inbox.controller.arrayMessage.map fun m => m.getPartnerId (some inbox.uid)).Perm
        (((s.world.store.view inbox.client).indexKeys inbox.uid).map Prod.fst).dedup) := by
  have hfiles := files_of_run hrun
  have hnodup := hfiles.partners_nodup hi hleft
  have hrow : ∀ p k, (s.world.store.view inbox.client).indexed inbox.uid p k = true →
      p ∈ inbox.controller.arrayMessage.map fun m => m.getPartnerId (some inbox.uid) := by
    intro p k hk
    exact hfiles.mem_partners hi hleft (hup p k hk)
  have hseen : ∀ m ∈ inbox.controller.arrayMessage,
      ∃ k, messOfInboxSnapshot (s.world.store.db.mess k) = m ∧
        ((s.world.store.view inbox.client).indexed inbox.uid (m.getPartnerId (some inbox.uid)) k =
            true ∨
          Send.TakenBack (es.filterMap worldEvent) inbox.client inbox.uid
            (m.getPartnerId (some inbox.uid)) k) := by
    intro m hm
    rcases hfiles.row hi hleft hm with ⟨k, hmem, hdecode⟩
    exact ⟨k, hdecode, hfiles.seen inbox (List.mem_of_getElem? hi) _ k hmem⟩
  refine ⟨hnodup, hrow, (hfiles.filed i inbox hi hleft).sorted, hseen, ?_⟩
  intro hnone
  -- both sides list the partners of the index, each once
  refine (List.perm_ext_iff_of_nodup hnodup (List.nodup_dedup _)).2 fun p => ?_
  rw [List.mem_dedup]
  constructor
  · intro hp
    rcases List.mem_map.1 hp with ⟨m, hm, rfl⟩
    rcases hseen m hm with ⟨k, _, hk | hback⟩
    · exact List.mem_map.2 ⟨(_, k), (Database.mem_indexKeys _).2 hk, rfl⟩
    · exact absurd hback (hnone _ k)
  · intro hp
    rcases List.mem_map.1 hp with ⟨⟨q, k⟩, hk, rfl⟩
    exact hrow q k ((Database.mem_indexKeys _).1 hk)

/-- Alice has sent Bob a text, opens her inbox, and is called back for it. -/
def aliceLooks : List Event :=
  (Send.sendHello true).map .world ++ [.viewDidLoad 0, .childAddedPartner 0 "bob",
    .childAddedMess 0 "bob" "k1", .valueMess 0 "bob" "k1" .byKey]

/-- Her inbox after that, in the world `w`. -/
def aliceInbox (w : Send.World) : InboxScreen :=
  { client := 0
    uid := "alice"
    partners := ["bob"]
    values := [⟨"bob", "k1"⟩]
    controller := MessageController.viewDidLoad.valueMess (.merge Mess) .byKey (some "alice")
      (w.store.db.mess "k1")
    left := false
    delivered := [InboxScreen.delivery (some "alice") (w.store.db.mess "k1")] }

/-- Then Bob has the one row of her inbox. -/
theorem aliceLooks_rows : ∃ s inbox, Step.run (step (.merge Mess)) .init aliceLooks = some s ∧
    s.inboxes[0]? = some inbox ∧ inbox.left = false ∧
      ((s.world.store.view 0).indexKeys "alice").map Prod.fst = ["bob"] ∧
        (inbox.controller.arrayMessage.map fun m => m.getPartnerId (some "alice")).Perm
          (((s.world.store.view 0).indexKeys "alice").map Prod.fst).dedup := by
  rcases Send.sendHello_world with
    ⟨w, screen, hrun, hrunning, huid, _, _, hpartners, hkeys, _, hquiet⟩
  have hview : w.store.view 0 = w.store.db := by
    simp [Send.Store.view, Send.addIndexes, hquiet]
  have hpartner : (w.store.view 0).hasPartner "alice" "bob" = true :=
    (Database.mem_partners _).1 (by simp [hview, hpartners])
  have hidx : (w.store.view 0).indexed "alice" "bob" "k1" = true :=
    (Database.mem_indexKeys _).1 (by simp [hview, hkeys])
  have hsent : Step.run (step (.merge Mess)) .init ((Send.sendHello true).map .world) =
      some { world := w, inboxes := [] } := by
    refine Step.run_map (f := fun w => ({ world := w, inboxes := [] } : Sessions)) ?_ hrun
    intro w e w' he
    simp [step, he]
  obtain ⟨s, inbox, hlooks, hworld, hi, hleft, hclient, hinbox⟩ : ∃ s inbox,
      Step.run (step (.merge Mess)) .init aliceLooks = some s ∧ s.world = w ∧
        s.inboxes[0]? = some inbox ∧ inbox.left = false ∧ inbox.client = 0 ∧
          inbox.uid = "alice" := by
    refine ⟨{ world := w, inboxes := [aliceInbox w] }, aliceInbox w, ?_, rfl, rfl, rfl, rfl, rfl⟩
    rw [aliceLooks, Step.run_append, hsent]
    simp [aliceInbox, Step.run, step, Sessions.react, InboxScreen.viewDidLoad,
      InboxScreen.valueMess, hrunning, huid, hpartner, hidx]
  have hup : CaughtUp (s.world.store.view inbox.client) aliceLooks 0 inbox.uid := by
    intro p k hk
    have hmem : (p, k) ∈ w.store.db.indexKeys "alice" :=
      (Database.mem_indexKeys _).2 (by simpa only [hworld, hclient, hview, hinbox] using hk)
    have hpk : p = "bob" ∧ k = "k1" := by simpa [hkeys] using hmem
    rcases hpk with ⟨rfl, rfl⟩
    exact ⟨.byKey, by simp [aliceLooks]⟩
  have hnone : ∀ p k, ¬ Send.TakenBack (aliceLooks.filterMap worldEvent) inbox.client inbox.uid
      p k := by
    rintro p k ⟨e, he, hback⟩
    have hdropped : ∀ e ∈ aliceLooks.filterMap worldEvent, e.droppedIndex = none := by decide
    rw [Send.Event.TakesBack, hdropped e he] at hback
    cases hback
  rcases caughtUp_rows hlooks hi hleft hup with ⟨_, _, _, _, hrows⟩
  have hperm := hrows hnone
  rw [hclient, hinbox] at hperm
  exact ⟨s, inbox, hlooks, hi, hleft, by simp [hworld, hview, hkeys], hperm⟩

end Inbox
end AppChatAgain
