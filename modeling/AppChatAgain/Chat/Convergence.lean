import AppChatAgain.Chat.Windows
import AppChatAgain.Send.Completeness

/-!
# Chat.Convergence — what the chats show once Firebase has told them everything

The callbacks of a chat come in any order, and each adds to what is observed or shown.

1. Nothing is lost: a window that is caught up shows the message of every entry of the index that
   its client sees.  Beyond them, it shows only messages whose entry was an index write of its own
   client that has come to nothing; and without such writes it shows each message once.
2. So all chats of one user agree, and a message indexed for both of its users is shown to both.
3. A window can always catch up: no due call traps, and only finitely many are due as long as the
   database stays as it is.
-/

namespace AppChatAgain
namespace Chat

open Foundation Firebase Records

/-! ## What a caught-up window shows -/

namespace Tracks

variable {s : Send.Store} {gone : String → String → Prop} {uid : String} {win : Window}

/-- A caught-up window was told of every entry of the index. -/
theorem exists_told (h : Tracks s gone uid win) (hup : win.CaughtUp (s.view win.client))
    {p k : String} (hk : (s.view win.client).indexed uid p k = true) :
    ∃ o ∈ win.partners, o.partner = p ∧ k ∈ o.told := by
  -- neither the partner nor the key is due
  have hp : p ∈ win.told := by
    by_contra hp
    refine hup (.partnerAdded p) ⟨hp, ?_⟩
    simpa [Window.hasPartner, h.tableMess] using Database.hasPartner_of_indexed _ hk
  rcases List.mem_map.1 (h.told p hp).2 with ⟨o, ho, rfl⟩
  refine ⟨o, ho, rfl, ?_⟩
  by_contra hnew
  rcases List.mem_iff_getElem?.1 ho with ⟨j, hj⟩
  exact hup (.messAdded j k) ⟨o, hj, hnew, by simpa [Window.indexed, h.tableMess] using hk⟩

/-- Its observers have delivered the records. -/
theorem told_eq (hup : win.CaughtUp (s.view win.client)) {o : MessObserver}
    (ho : o ∈ win.messages) : o.told = some (s.db.mess o.key) := by
  by_contra hnew
  rcases List.mem_iff_getElem?.1 ho with ⟨j, hj⟩
  exact hup (.messValue j) ⟨o, hj, by simpa using hnew⟩

/-- What is on the screen was delivered by one of the observers. -/
theorem mem_arrayMess (h : Tracks s gone uid win) {m : Mess} :
    m ∈ win.chat.arrayMess ↔
      ∃ o ∈ win.messages, o.told.map messOfChatSnapshot = some (.ok m) := by
  have hperm := h.transcript.mem_iff (a := .ok m)
  simp only [List.mem_map, Except.ok.injEq, exists_eq_right, List.mem_filterMap] at hperm
  rw [hperm]
  constructor
  · rintro ⟨v, ⟨o, ho, hv⟩, hm⟩
    exact ⟨o, ho, by simp [hv, hm]⟩
  · rintro ⟨o, ho, hm⟩
    rcases Option.map_eq_some_iff.1 hm with ⟨v, hv, hm⟩
    exact ⟨v, ⟨o, ho, hv⟩, hm⟩

/-- Every entry of the index is shown. -/
theorem shows_indexed (h : Tracks s gone uid win) (hsound : Send.Sound s)
    (hup : win.CaughtUp (s.view win.client)) {p k : String}
    (hk : (s.view win.client).indexed uid p k = true) :
    ∃ m ∈ win.chat.arrayMess, messOfChatSnapshot (s.db.mess k) = .ok m := by
  rcases h.exists_told hup hk with ⟨o, ho, _, htold⟩
  rcases List.mem_map.1 ((h.children o ho).2 k htold).2 with ⟨o', ho', rfl⟩
  rcases (hsound.recordOf_view hk).decodes with ⟨m, hm, _⟩
  exact ⟨m, h.mem_arrayMess.2 ⟨o', ho', by simp [told_eq hup ho', hm]⟩, hm⟩

/-- Whatever is shown has an entry, or has had one that is gone. -/
theorem indexed_or_gone (h : Tracks s gone uid win) {m : Mess} (hm : m ∈ win.chat.arrayMess) :
    ∃ p k, messOfChatSnapshot (s.db.mess k) = .ok m ∧
      ((s.view win.client).indexed uid p k = true ∨ gone p k) := by
  rcases h.mem_arrayMess.1 hm with ⟨o, ho, hdelivered⟩
  rcases Option.map_eq_some_iff.1 hdelivered with ⟨v, hv, hdecodes⟩
  rcases h.found o.key (List.mem_map_of_mem ho) with ⟨p, _, hview⟩
  exact ⟨p, o.key, h.values o ho v hv ▸ hdecodes, hview⟩

/-- If nothing is gone, the keys that are observed are those of the index. -/
theorem keys_perm (h : Tracks s gone uid win) (hup : win.CaughtUp (s.view win.client))
    (hnone : ∀ p k, ¬ gone p k) :
    (win.messages.map MessObserver.key).Perm
      (((s.view win.client).indexKeys uid).map Prod.snd) := by
  rcases h.once hnone with ⟨hnd, htold, hkeys⟩
  have hpartners : (win.partners.map PartnerObserver.partner).Perm
      ((s.view win.client).partners uid) := by
    refine (List.perm_ext_iff_of_nodup hnd (Database.nodup_partners _ uid)).2 fun p => ?_
    rw [Database.mem_partners]
    constructor
    · intro hp
      rcases List.mem_map.1 hp with ⟨o, ho, rfl⟩
      exact (h.told o.partner (htold o ho)).1
    · intro hp
      by_contra hno
      refine hup (.partnerAdded p) ⟨fun hp' => hno (h.told p hp').2, ?_⟩
      simpa [Window.hasPartner, h.tableMess] using hp
  have hchildren : ∀ o ∈ win.partners,
      o.told.Perm ((s.view win.client).keysUnder uid o.partner) := by
    intro o ho
    refine (List.perm_ext_iff_of_nodup (h.children o ho).1
      (Database.nodup_keysUnder _ uid _)).2 fun k => ?_
    rw [Database.mem_keysUnder]
    constructor
    · exact fun hk => ((h.children o ho).2 k hk).1
    · intro hk
      by_contra hnew
      rcases List.mem_iff_getElem?.1 ho with ⟨j, hj⟩
      exact hup (.messAdded j k) ⟨o, hj, hnew, by simpa [Window.indexed, h.tableMess] using hk⟩
  calc
    (win.messages.map MessObserver.key).Perm (win.partners.flatMap PartnerObserver.told) := hkeys
    List.Perm _ (win.partners.flatMap fun o => (s.view win.client).keysUnder uid o.partner) :=
      List.Perm.flatMap_left _ hchildren
    _ = (win.partners.map PartnerObserver.partner).flatMap
        ((s.view win.client).keysUnder uid) := by simp [List.flatMap_map]
    List.Perm _ (((s.view win.client).partners uid).flatMap
        ((s.view win.client).keysUnder uid)) := hpartners.flatMap_right _
    _ = ((s.view win.client).indexKeys uid).map Prod.snd :=
      (Database.map_snd_indexKeys _ uid).symm

/-- Then the window shows the decoded records of the index, each once. -/
theorem transcript_perm (h : Tracks s gone uid win) (hup : win.CaughtUp (s.view win.client))
    (hnone : ∀ p k, ¬ gone p k) :
    (win.chat.arrayMess.map Except.ok).Perm
      (((s.view win.client).indexKeys uid).map fun pk => messOfChatSnapshot (s.db.mess pk.2)) := by
  have hvalues : win.messages.filterMap MessObserver.told =
      (win.messages.map MessObserver.key).map s.db.mess := by
    rw [List.map_map, ← List.filterMap_eq_map]
    exact List.filterMap_congr fun o ho => told_eq hup ho
  have hperm := (h.keys_perm hup hnone).map fun k => messOfChatSnapshot (s.db.mess k)
  refine h.transcript.trans ?_
  simpa [hvalues, Function.comp_def] using hperm

end Tracks

/-! ## Alice reads what she has sent -/

/-- Alice has sent Bob a text, opens the chat, and is called back for it. -/
def aliceReads : List WindowEvent :=
  (Send.sendHello true).map .world ++ [.viewDidLoad 0 0, .call 0 (.partnerAdded "bob"),
    .call 0 (.messAdded 0 "k1"), .call 0 (.messValue 0)]

def aliceWindow (user : Option User) : Window :=
  { client := 0
    chat :=
      { user := user
        tableMess := some "alice"
        tableMessPartner := ["bob"]
        messKeys := ["k1"]
        arrayMess := [Send.helloBob.data.toMess] }
    told := ["bob"]
    partners := [⟨"bob", ["k1"]⟩]
    messages := [⟨"k1", some Send.helloBob.data.record⟩] }

/-- Then she is caught up, with her message on the screen. -/
theorem aliceReads_run : ∃ s win, Step.run windowStep .init aliceReads = some s ∧
    s.windows[0]? = some win ∧ win.client = 0 ∧ win.chat.tableMess = some "alice" ∧
      win.CaughtUp (s.view 0) ∧ win.chat.arrayMess = [Send.helloBob.data.toMess] ∧
        (s.world.clients 0).running = true ∧ Send.Settled s.world "k1" ∧
          s.db.mess "k1" = Send.helloBob.data.record := by
  rcases Send.sendHello_world with
    ⟨w, screen, hrun, hrunning, huid, hscreen, hsettled, hpartners, hkeys, hmess, hindex⟩
  have hview : w.store.view 0 = w.store.db := by simp [Send.Store.view, hindex, Send.addIndexes]
  have hpartner : ∀ p, w.store.db.hasPartner "alice" p = true ↔ p = "bob" := by
    intro p
    simp [← Database.mem_partners, hpartners]
  have hidx : ∀ p k, w.store.db.indexed "alice" p k = true ↔ p = "bob" ∧ k = "k1" := by
    intro p k
    simp [← Database.mem_indexKeys, hkeys]
  have hval : ∀ c : ChatCollect, c.valueMess Send.helloBob.data.record =
      .ok { c with arrayMess := c.arrayMess ++ [Send.helloBob.data.toMess] } := by
    intro c
    exact ChatCollect.valueMess_eq_ok.2 ⟨_, Send.helloBob.data.messOfChatSnapshot_record, rfl⟩
  have hsent : Step.run windowStep .init ((Send.sendHello true).map .world) =
      some { world := w, windows := [] } := by
    refine Step.run_map (f := fun w => ({ world := w, windows := [] } : Windows)) ?_ hrun
    intro w e w' he
    simp [windowStep, he]
  refine ⟨{ world := w, windows := [aliceWindow screen.user] }, _, ?_, rfl, rfl, rfl,
    ?_, rfl, hrunning, hsettled, hmess⟩
  · rw [aliceReads, Step.run_append, hsent]
    simp [aliceWindow, hmess, Step.run, windowStep, hscreen, hrunning, huid, Window.viewDidLoad,
      ChatCollect.viewDidLoad, Window.Due, Window.hasPartner, Window.indexed, Window.callback, step,
      Window.note, Windows.react, Windows.view, hview, hpartner, hidx, hval, Except.toOption]
  · -- no call is due any more
    intro call
    cases call with
    | partnerAdded p =>
        simp [aliceWindow, Window.Due, Window.hasPartner, Windows.view, hview, hpartner]
    | messAdded j k =>
        cases j <;> simp [aliceWindow, Window.Due, Window.indexed, Windows.view, hview, hidx]
    | messValue j => cases j <;> simp [aliceWindow, Window.Due, Windows.view, hview, hmess]

/-! ## All windows of one user -/

/-- The world of a run of the windows is that of a run of the world. -/
theorem run_world {es : List WindowEvent} {s : Windows}
    (hrun : Step.run windowStep .init es = some s) :
    Step.run Send.step .init (es.filterMap worldEvent) = some s.world := by
  refine Step.run_history (P := fun es s =>
    Step.run Send.step .init (es.filterMap worldEvent) = some s.world) rfl ?_ hrun
  intro es e s₁ s₂ _ hworld hstep
  cases windowHappens_of_step hstep with
  | world e w hw =>
      rw [List.filterMap_append]
      exact Step.run_concat_eq_some.2 ⟨s₁.world, hworld, hw⟩
  | viewDidLoad c i user => simpa [List.filterMap_cons, worldEvent] using hworld
  | call n call win win' hn hrunning htable hclient hcalled =>
      simpa [List.filterMap_cons, worldEvent] using hworld
  | userSet n user win hn => simpa [List.filterMap_cons, worldEvent] using hworld

/-- What a window shows, it shows for good. -/
theorem arrayMess_prefix_of_step {s s' : Windows} {e : WindowEvent}
    (hs : windowStep s e = some s') {n : ℕ} {win : Window} (hn : s.windows[n]? = some win)
    {uid : String} (huid : win.chat.tableMess = some uid) :
    ∃ win', s'.windows[n]? = some win' ∧ win'.chat.tableMess = some uid ∧
      win.chat.arrayMess <+: win'.chat.arrayMess := by
  have hlt : n < s.windows.length := (List.getElem?_eq_some_iff.1 hn).1
  cases windowHappens_of_step hs with
  | world e w hw =>
      exact ⟨win.notice (w.store.view win.client), by simp [hn], huid, List.prefix_rfl⟩
  | viewDidLoad c i user =>
      exact ⟨win, (List.getElem?_append_left hlt).trans hn, huid, List.prefix_rfl⟩
  | call n' call win₀ win' hn' hrunning htable hclient hcalled =>
      by_cases heq : n' = n
      · subst heq
        obtain rfl : win₀ = win := Option.some.inj (hn'.symm.trans hn)
        refine ⟨win', List.getElem?_set_self hlt, htable.trans huid, ?_⟩
        cases hcalled uid huid with
        | partnerAdded p hnew hp => exact List.prefix_rfl
        | messAdded j k os₁ o os₂ hsplit hnew hk => exact List.prefix_rfl
        | messValue j os₁ o os₂ m hsplit hnew hm => exact List.prefix_append _ _
      · exact ⟨win, (List.getElem?_set_ne heq).trans hn, huid, List.prefix_rfl⟩
  | userSet n' user win₀ hn' =>
      by_cases heq : n' = n
      · subst heq
        obtain rfl : win₀ = win := Option.some.inj (hn'.symm.trans hn)
        exact ⟨_, List.getElem?_set_self hlt, huid, List.prefix_rfl⟩
      · exact ⟨win, (List.getElem?_set_ne heq).trans hn, huid, List.prefix_rfl⟩

theorem arrayMess_prefix {es : List WindowEvent} {s s' : Windows}
    (hrun : Step.run windowStep s es = some s') {n : ℕ} {win : Window}
    (hn : s.windows[n]? = some win) {uid : String} (huid : win.chat.tableMess = some uid) :
    ∃ win', s'.windows[n]? = some win' ∧ win.chat.arrayMess <+: win'.chat.arrayMess := by
  have hall : ∃ win', s'.windows[n]? = some win' ∧ win'.chat.tableMess = some uid ∧
      win.chat.arrayMess <+: win'.chat.arrayMess := by
    refine Step.run_invariant (P := fun s' => ∃ win', s'.windows[n]? = some win' ∧
      win'.chat.tableMess = some uid ∧ win.chat.arrayMess <+: win'.chat.arrayMess) ?_
      ⟨win, hn, huid, List.prefix_rfl⟩ hrun
    rintro s₁ e s₂ ⟨win₁, hn₁, huid₁, hprefix⟩ hs
    rcases arrayMess_prefix_of_step hs hn₁ huid₁ with ⟨win₂, hn₂, huid₂, hprefix₂⟩
    exact ⟨win₂, hn₂, huid₂, hprefix.trans hprefix₂⟩
  rcases hall with ⟨win', hn', _, hprefix⟩
  exact ⟨win', hn', hprefix⟩

/-- In every run, a caught-up window of `uid` shows the message of every entry of the index that its
client sees, and beyond them only messages whose entry an index write of its own client has made and
lost; what it shows it shows for good.  If its client has lost no index write of `uid`, it shows
exactly the messages of the index, each once. -/
theorem caughtUp_shows_index {es : List WindowEvent} {s : Windows}
    (hrun : Step.run windowStep .init es = some s) {n : ℕ} {win : Window}
    (hn : s.windows[n]? = some win) {uid : String} (huid : win.chat.tableMess = some uid)
    (hup : win.CaughtUp (s.view win.client)) :
    (∀ p k, (s.view win.client).indexed uid p k = true →
      ∃ m ∈ win.chat.arrayMess, messOfChatSnapshot (s.db.mess k) = .ok m) ∧
    (∀ m ∈ win.chat.arrayMess, ∃ p k, messOfChatSnapshot (s.db.mess k) = .ok m ∧
      ((s.view win.client).indexed uid p k = true ∨
        Send.TakenBack (es.filterMap worldEvent) win.client uid p k)) ∧
    (∀ es' s', Step.run windowStep s es' = some s' →
      ∃ win', s'.windows[n]? = some win' ∧ win.chat.arrayMess <+: win'.chat.arrayMess) ∧
    ((∀ p k, ¬ Send.TakenBack (es.filterMap worldEvent) win.client uid p k) →
      (win.chat.arrayMess.map Except.ok).Perm
        (((s.view win.client).indexKeys uid).map fun pk =>
          messOfChatSnapshot (s.db.mess pk.2))) := by
  have hok := ok_of_run hrun
  have htracks := hok.tracks win (List.mem_of_getElem? hn) uid huid
  refine ⟨?_, ?_, ?_, ?_⟩
  · intro p k hk
    exact htracks.shows_indexed hok.sound hup hk
  · intro m hm
    exact htracks.indexed_or_gone hm
  · intro es' s' hrun'
    exact arrayMess_prefix hrun' hn huid
  · intro hnone
    exact htracks.transcript_perm hup hnone

theorem aliceReads_shows_index : ∃ s win, Step.run windowStep .init aliceReads = some s ∧
    s.windows[0]? = some win ∧ win.chat.arrayMess = [Send.helloBob.data.toMess] ∧
      (win.chat.arrayMess.map Except.ok).Perm
        (((s.view 0).indexKeys "alice").map fun pk => messOfChatSnapshot (s.db.mess pk.2)) := by
  rcases aliceReads_run with ⟨s, win, hrun, hn, hclient, huid, hup, harr, _⟩
  rcases caughtUp_shows_index hrun hn huid (hclient ▸ hup) with ⟨_, _, _, hexact⟩
  refine ⟨s, win, hrun, hn, harr, hclient ▸ hexact ?_⟩
  -- no index write of hers was rejected
  rintro p k ⟨e, he, hback⟩
  have hworld : aliceReads.filterMap worldEvent = Send.sendHello true := rfl
  have hnone : ∀ e ∈ Send.sendHello true, e.droppedIndex = none := by decide
  rw [hworld] at he
  rw [Send.Event.TakesBack, hnone e he] at hback
  cases hback

/-- So two caught-up windows of one user, on whatever clients and after whatever callbacks, show the
same messages, if no client has lost an index write of the user and none is on its way. -/
theorem caughtUp_agree {es : List WindowEvent} {s : Windows}
    (hrun : Step.run windowStep .init es = some s) {uid : String}
    (hnone : ∀ c p k, ¬ Send.TakenBack (es.filterMap worldEvent) c uid p k)
    (hquiet : ∀ iw ∈ s.world.store.indexWrites, iw.owner ≠ uid) {win win' : Window}
    (hwin : win ∈ s.windows) (hwin' : win' ∈ s.windows) (huid : win.chat.tableMess = some uid)
    (huid' : win'.chat.tableMess = some uid) (hup : win.CaughtUp (s.view win.client))
    (hup' : win'.CaughtUp (s.view win'.client)) :
    win.chat.arrayMess.Perm win'.chat.arrayMess := by
  have hok := ok_of_run hrun
  have hperm := (hok.tracks win hwin uid huid).transcript_perm hup (hnone win.client)
  have hperm' := (hok.tracks win' hwin' uid huid').transcript_perm hup' (hnone win'.client)
  -- both clients see the index of the database
  have hview : ∀ c c' p k, (s.view c).indexed uid p k = true →
      (s.view c').indexed uid p k = true := by
    intro c c' p k hk
    rcases (s.world.store.indexed_view c).1 hk with hmem | hdb
    · exact absurd rfl (hquiet _ hmem)
    · exact (s.world.store.indexed_view c').2 (Or.inr hdb)
  have hkeys : ((s.view win.client).indexKeys uid).Perm ((s.view win'.client).indexKeys uid) := by
    refine (List.perm_ext_iff_of_nodup (Database.nodup_indexKeys _ uid)
      (Database.nodup_indexKeys _ uid)).2 ?_
    rintro ⟨p, k⟩
    simp only [Database.mem_indexKeys]
    exact ⟨hview _ _ p k, hview _ _ p k⟩
  have hinj : Function.Injective (Except.ok : Mess → Except Trap Mess) := by
    intro m m' h
    exact Except.ok.inj h
  exact (List.map_perm_map_iff hinj).1 ((hperm.trans (hkeys.map _)).trans hperm'.symm)

/-! ## From one participant to the other -/

/-- A send that is not lost and whose record is stored is, once it has settled, on the screen of
every caught-up window of either of its users. -/
theorem delivered_to_both {es : List WindowEvent} {s : Windows}
    (hrun : Step.run windowStep .init es = some s) {k : String}
    (hlost : Step.Along Send.step (fun w e w' => ¬ Send.Loses k w e w') .init
      (es.filterMap worldEvent))
    (hsettled : Send.Settled s.world k) (hstored : (s.db.mess k).isEmpty = false) :
    ∃ m, messOfChatSnapshot (s.db.mess k) = .ok m ∧
      ∀ win ∈ s.windows, win.chat.tableMess = some m.fromid ∨ win.chat.tableMess = some m.toid →
        win.CaughtUp (s.view win.client) → m ∈ win.chat.arrayMess := by
  have hok := ok_of_run hrun
  have hway := Send.onItsWay_of_run (run_world hrun) hlost
  rcases hway.indexedForBoth hsettled hstored with ⟨m, hm, hfrom, hto⟩
  refine ⟨m, hm, ?_⟩
  intro win hwin huid hup
  -- whoever of the two is looking has the key in the index
  have hindex : ∃ uid p, win.chat.tableMess = some uid ∧ s.db.indexed uid p k = true := by
    rcases huid with huid | huid
    · exact ⟨m.fromid, m.toid, huid, hfrom⟩
    · exact ⟨m.toid, m.fromid, huid, hto⟩
  rcases hindex with ⟨uid, p, huid, hidx⟩
  have hview : (s.view win.client).indexed uid p k = true :=
    (s.world.store.indexed_view win.client).2 (Or.inr hidx)
  rcases (hok.tracks win hwin uid huid).shows_indexed hok.sound hup hview with ⟨m', hmem, hm'⟩
  exact Except.ok.inj (hm.symm.trans hm') ▸ hmem

theorem aliceReads_delivered : ∃ s m, Step.run windowStep .init aliceReads = some s ∧
    messOfChatSnapshot (s.db.mess "k1") = .ok m ∧
      ∀ win ∈ s.windows, win.chat.tableMess = some m.fromid ∨ win.chat.tableMess = some m.toid →
        win.CaughtUp (s.view win.client) → m ∈ win.chat.arrayMess := by
  rcases aliceReads_run with ⟨s, win, hrun, _, _, _, _, _, _, hsettled, hmess⟩
  have hstored : (s.db.mess "k1").isEmpty = false := hmess ▸ Send.helloBob.data.isEmpty_record
  have hworld : aliceReads.filterMap worldEvent = Send.sendHello true := rfl
  rcases delivered_to_both hrun (hworld ▸ by decide) hsettled hstored with ⟨m, hm, hall⟩
  exact ⟨s, m, hrun, hm, hall⟩

/-! ## Catching up -/

/-- How many calls Firebase has not made yet, if the database stays as it is: one for each partner
that is not told, and two for each of its keys, one that registers an observer and one with the
record. -/
def remaining (view : Database) (uid : String) (win : Window) : ℕ :=
  (((view.partners uid).filter fun p => p ∉ win.told).map fun p =>
      1 + 2 * (view.keysUnder uid p).length).sum +
    (win.partners.map fun o =>
      2 * ((view.keysUnder uid o.partner).filter fun k => k ∉ o.told).length).sum +
      (win.messages.filter fun o => o.told ≠ some (view.mess o.key)).length

/-- What was not told, and is told now. -/
theorem filter_notMem_perm {α : Type*} [DecidableEq α] {l told : List α} (hnd : l.Nodup) {a : α}
    (ha : a ∈ l) (hnew : a ∉ told) :
    (l.filter fun b => b ∉ told).Perm (a :: l.filter fun b => b ∉ a :: told) := by
  have hnd' : (a :: l.filter fun b => b ∉ a :: told).Nodup :=
    List.nodup_cons.2 ⟨by simp, hnd.filter _⟩
  refine (List.perm_ext_iff_of_nodup (hnd.filter _) hnd').2 fun b => ?_
  by_cases hb : b = a
  · subst hb
    simp [ha, hnew]
  · simp [hb]

/-- Every call is one less to come. -/
theorem Called.remaining {view : Database} {uid : String} {win win' : Window} {call : Call}
    (hc : Called view uid win call win') :
    remaining view uid win' + 1 = remaining view uid win := by
  cases hc with
  | partnerAdded p hnew hp =>
      have hsum := ((filter_notMem_perm (view.nodup_partners uid) (view.mem_partners.2 hp)
        hnew).map fun p => 1 + 2 * (view.keysUnder uid p).length).sum_eq
      simp only [List.map_cons, List.sum_cons] at hsum
      simp only [Chat.remaining, hsum, List.map_cons, List.sum_cons, List.not_mem_nil,
        not_false_eq_true, decide_true, List.filter_true]
      omega
  | messAdded j k os₁ o os₂ hsplit hnew hk =>
      have hlen := (filter_notMem_perm (view.nodup_keysUnder uid o.partner)
        (view.mem_keysUnder.2 hk) hnew).length_eq
      simp only [List.length_cons] at hlen
      simp only [Chat.remaining, hsplit, List.map_append, List.map_cons, List.sum_append,
        List.sum_cons, hlen, List.filter_cons, reduceCtorEq, ne_eq, not_false_eq_true, decide_true,
        if_true, List.length_cons]
      omega
  | messValue j os₁ o os₂ m hsplit hnew hm =>
      simp only [Chat.remaining, hsplit, List.filter_append, List.filter_cons, hnew, ne_eq,
        not_true_eq_false, not_false_eq_true, decide_true, decide_false, if_true,
        Bool.false_eq_true, if_false, List.length_append, List.length_cons]
      omega

/-- A call that Firebase makes to the `n`-th window. -/
def CallsBack (n : ℕ) (e : WindowEvent) : Prop :=
  ∃ call, e = .call n call

/-- The `n`-th window, of a running client, observes the index of `uid` in the world `w`. -/
structure Observes (w : Send.World) (n : ℕ) (uid : String) (win : Window) (s : Windows) :
    Prop where
  ok : ∃ es, s.Ok es
  world : s.world = w
  window : s.windows[n]? = some win
  tableMess : win.chat.tableMess = some uid
  running : (w.clients win.client).running = true

/-- One call leaves the window observing, with one call less to come. -/
theorem Observes.step {w : Send.World} {n : ℕ} {uid : String} {win : Window} {s s' : Windows}
    {e : WindowEvent} (h : Observes w n uid win s) (he : CallsBack n e)
    (hs : windowStep s e = some s') :
    ∃ win', Observes w n uid win' s' ∧ win'.client = win.client ∧
      remaining (w.store.view win.client) uid win' + 1 =
        remaining (w.store.view win.client) uid win := by
  rcases he with ⟨call, rfl⟩
  rcases h.ok with ⟨es, hok⟩
  have hok' := hok.step hs
  cases windowHappens_of_step hs with
  | call n call win₀ win' hn hrunning htable hclient hcalled =>
      obtain rfl : win = win₀ := Option.some.inj (h.window.symm.trans hn)
      have hview : s.view win.client = w.store.view win.client :=
        congrArg (fun w => w.store.view win.client) h.world
      have hlt : n < s.windows.length := (List.getElem?_eq_some_iff.1 hn).1
      refine ⟨win', ⟨⟨_, hok'⟩, h.world, List.getElem?_set_self hlt, htable.trans h.tableMess, ?_⟩,
        hclient, ?_⟩
      · exact hclient ▸ h.running
      · exact hview ▸ (hcalled uid h.tableMess).remaining

end Chat
end AppChatAgain
