import AppChatAgain.Send.Integrity

/-!
# Send.Completeness — when a send reaches both participants

The three writes of a send are separate, and the index writes have no completion handler: if one of
them is rejected, or ends with its client before it was sent, or the client ends before the
completion handler of the record write has run, the message stays indexed for one participant or
for none.  If nothing of this happens to a send, then after it has settled its record is there
exactly if both participants have it in their index.
-/

namespace AppChatAgain
namespace Send

open Foundation Firebase Records

/-- `k` is indexed under both users of its record. -/
def IndexedForBoth (db : Database) (k : String) : Prop :=
  ∃ m, messOfChatSnapshot (db.mess k) = .ok m ∧
    db.indexed m.fromid m.toid k = true ∧ db.indexed m.toid m.fromid k = true

/-- The send of `k` has no write in flight, and no completion handler that can still run. -/
def Settled (w : World) (k : String) : Prop :=
  (∀ mw ∈ w.store.messWrites, mw.key ≠ k) ∧
    (∀ mw ∈ w.store.acked, mw.key = k → (w.clients mw.client).running = false) ∧
      ∀ iw ∈ w.store.indexWrites, iw.key ≠ k

instance (w : World) (k : String) : Decidable (Settled w k) := by
  unfold Settled
  infer_instance

/-- An index write of `k` comes to nothing in the step, or the client of the send of `k` ends, be it
by a trap, before the completion handler has run. -/
def Loses (k : String) (w : World) (e : Event) (w' : World) : Prop :=
  (∃ iw ∈ e.droppedIndex, iw.key = k) ∨
    ∃ mw ∈ w.store.messWrites ++ w.store.acked, mw.key = k ∧
      (w.clients mw.client).running = true ∧ (w'.clients mw.client).running = false

instance (k : String) (w : World) (e : Event) (w' : World) : Decidable (Loses k w e w') := by
  unfold Loses
  infer_instance

/-! ## What is still to come for a record -/

/-- `k` is indexed under `usermess/<a>/<b>`, or the write is in flight. -/
def Reaches (s : Store) (a b k : String) : Prop :=
  s.db.indexed a b k = true ∨ ∃ c, ⟨c, a, b, k⟩ ∈ s.indexWrites

/-- The send of `k` is on its way: its client runs until the handler has run, and a stored record
waits for the handler or has both of its index entries stored or in flight. -/
structure OnItsWay (k : String) (w : World) : Prop where
  running : ∀ mw ∈ w.store.messWrites ++ w.store.acked, mw.key = k →
    (w.clients mw.client).running = true
  reaches : (w.store.db.mess k).isEmpty = false →
    (∃ mw ∈ w.store.acked, mw.key = k) ∨
      ∃ d : MessData, w.store.db.mess k = d.record ∧
        Reaches w.store d.fromId d.toId k ∧ Reaches w.store d.toId d.fromId k

theorem onItsWay_init (k : String) : OnItsWay k .init where
  running mw h := by
    simp [World.init, Store.init] at h
  reaches h := by
    simp [World.init, Store.init, Database.mess, KeyTree.get_empty, KeyTree.isEmpty] at h

theorem Reaches.acceptIndex {s : Store} {a b k : String} (h : Reaches s a b k) (iw : IndexWrite) :
    Reaches (s.acceptIndex iw) a b k := by
  rcases h with hdb | ⟨c, hmem⟩
  · exact Or.inl ((Database.indexed_addIndex _ _ _ _ a b k).2 (Or.inr hdb))
  · by_cases heq : iw = ⟨c, a, b, k⟩
    · subst heq
      exact Or.inl ((Database.indexed_addIndex _ _ _ _ a b k).2 (Or.inl ⟨rfl, rfl, rfl⟩))
    · exact Or.inr ⟨c, (List.mem_erase_of_ne (Ne.symm heq)).2 hmem⟩

theorem Reaches.dropIndex {s : Store} {a b k : String} (h : Reaches s a b k) {iw : IndexWrite}
    (hk : iw.key ≠ k) : Reaches (s.dropIndex iw) a b k := by
  rcases h with hdb | ⟨c, hmem⟩
  · exact Or.inl hdb
  · refine Or.inr ⟨c, (List.mem_erase_of_ne ?_).2 hmem⟩
    rintro rfl
    exact hk rfl

theorem Reaches.of_le {s s' : Store} {a b k : String} (h : Reaches s a b k)
    (hdb : s.db.indexed a b k = true → s'.db.indexed a b k = true)
    (hiw : s.indexWrites ⊆ s'.indexWrites) : Reaches s' a b k := by
  rcases h with hidx | ⟨c, hmem⟩
  · exact Or.inl (hdb hidx)
  · exact Or.inr ⟨c, hiw hmem⟩

/-- What is still to come for a record stays so while the record does, its handler is waited for
and the index writes are not lost. -/
theorem OnItsWay.reaches_of_le {k : String} {w : World} (h : OnItsWay k w) (s : Store)
    (hmess : s.db.mess k = w.store.db.mess k)
    (hacked : ∀ mw ∈ w.store.acked, mw.key = k → mw ∈ s.acked)
    (hreaches : ∀ a b, Reaches w.store a b k → Reaches s a b k)
    (hdb : (s.db.mess k).isEmpty = false) :
    (∃ mw ∈ s.acked, mw.key = k) ∨
      ∃ d : MessData, s.db.mess k = d.record ∧
        Reaches s d.fromId d.toId k ∧ Reaches s d.toId d.fromId k := by
  rcases h.reaches (hmess ▸ hdb) with ⟨mw, hmem, hk⟩ | ⟨d, hd, hft, htf⟩
  · exact Or.inl ⟨mw, hacked mw hmem hk, hk⟩
  · exact Or.inr ⟨d, hmess.trans hd, hreaches _ _ hft, hreaches _ _ htf⟩

/-- Before its own handler has run, a record waits for it; after, both index writes are issued. -/
theorem OnItsWay.reaches_complete {k : String} {w : World} (h : OnItsWay k w)
    (hsound : Sound w.store) {mw : MessWrite} {iws : List IndexWrite} (hmem : mw ∈ w.store.acked)
    (hiws : mw.key = k → mw.indexWrites = .ok iws)
    (hdb : (w.store.db.mess k).isEmpty = false) :
    (∃ mw' ∈ (w.store.complete mw iws).acked, mw'.key = k) ∨
      ∃ d : MessData, w.store.db.mess k = d.record ∧
        Reaches (w.store.complete mw iws) d.fromId d.toId k ∧
          Reaches (w.store.complete mw iws) d.toId d.fromId k := by
  by_cases hkey : mw.key = k
  · -- its own handler ran: the indexes are those of the record that it wrote
    subst hkey
    rcases hsound.acked mw hmem with ⟨hc, hrec⟩
    have heq := MessWrite.indexWrites_eq_ok (hiws rfl) hc
    exact Or.inr ⟨mw.data, hrec, Or.inr ⟨mw.client, by simp [Store.complete, heq]⟩,
      Or.inr ⟨mw.client, by simp [Store.complete, heq]⟩⟩
  · -- the handler of another message only adds index writes
    have hsub : w.store.indexWrites ⊆ (w.store.complete mw iws).indexWrites :=
      List.subset_append_right _ _
    apply h.reaches_of_le (w.store.complete mw iws) rfl _ (fun a b hr => hr.of_le id hsub) hdb
    intro mw' hmw' hk
    apply (List.mem_erase_of_ne _).2 hmw'
    intro heq
    exact hkey (heq ▸ hk)

/-- A step that does not lose the send of `k` keeps it on its way. -/
theorem OnItsWay.effect {k : String} {w w' : World} {e : Event} (h : OnItsWay k w)
    (hsound : Sound w.store) (he : Effect w e w') (hlost : ¬ Loses k w e w') : OnItsWay k w' := by
  have hkeeps : ∀ mw ∈ w.store.messWrites ++ w.store.acked, mw.key = k →
      (w'.clients mw.client).running = true := by
    intro mw hmem hk
    by_contra hstop
    exact hlost (Or.inr ⟨mw, hmem, hk, h.running mw hmem hk, by simpa using hstop⟩)
  refine ⟨?_, ?_⟩
  · intro mw hmem hk
    rcases he.writes hmem with hold | ⟨_, _, hrunning⟩
    · exact hkeeps mw hold hk
    · exact hrunning
  · cases he with
    | client e w' hstore => simpa only [hstore] using h.reaches
    | setUser e w' uid profile hstore hclients =>
        simp only [hstore]
        apply h.reaches_of_le (w.store.setUser uid profile) (Database.mess_setUser _ _ _ k)
          fun _ hmem _ => hmem
        intro a b hr
        exact hr.of_le (by simp [Store.setUser]) (List.Subset.refl _)
    | issue e w' mw hfresh hconsistent hrunning hstore hclients =>
        -- a write that is issued stores nothing yet
        simp only [hstore]
        exact h.reaches
    | acceptMess mw hmem =>
        by_cases hkey : mw.key = k
        · -- from here on the record waits for its handler
          intro _
          exact Or.inl ⟨mw, List.mem_cons_self, hkey⟩
        · apply h.reaches_of_le (w.store.acceptMess mw) (Database.mess_updateMess_of_ne _ hkey _)
          · intro mw' hmem' _
            exact List.mem_cons_of_mem _ hmem'
          · intro a b hr
            exact hr.of_le (by simp [Store.acceptMess]) (List.Subset.refl _)
    | dropMess e mw hmem => exact h.reaches
    | complete mw iws hmem hiws => exact h.reaches_complete hsound hmem fun _ => hiws
    | crash mw t hmem hrunning htrap =>
        -- the trap would lose the send of `k`, so it is the handler of another one
        have hkey : mw.key ≠ k := by
          intro hk
          have hruns := hkeeps mw (List.mem_append_right _ hmem) hk
          simp [World.stopClient, World.setClient] at hruns
        exact h.reaches_complete hsound hmem fun hk => absurd hk hkey
    | acceptIndex iw hmem =>
        exact h.reaches_of_le (w.store.acceptIndex iw) (Database.mess_addIndex _ _ _ _ k)
          (fun _ hmem' _ => hmem') fun a b hr => hr.acceptIndex iw
    | dropIndex e iw hmem hdropped =>
        have hkey : iw.key ≠ k := by
          intro hk
          exact hlost (Or.inl ⟨iw, hdropped, hk⟩)
        exact h.reaches_of_le (w.store.dropIndex iw) rfl (fun _ hmem' _ => hmem')
          fun a b hr => hr.dropIndex hkey

/-- A run that does not lose the send of `k` has it on its way at its end. -/
theorem onItsWay_of_run {k : String} {w : World} {es : List Event}
    (hrun : Step.run step .init es = some w)
    (hlost : Step.Along step (fun w e w' => ¬ Loses k w e w') .init es) : OnItsWay k w := by
  have hinv : Sound w.store ∧ OnItsWay k w := by
    refine Step.run_invariant_of_along (P := fun w => Sound w.store ∧ OnItsWay k w) ?_
      ⟨Sound.init, onItsWay_init k⟩ hlost hrun
    intro w e w' h hs hT
    exact ⟨h.1.step hs, h.2.effect h.1 (effect_of_step hs) hT⟩
  exact hinv.2

/-- Once it has settled, a record that is there is indexed for both of its users. -/
theorem OnItsWay.indexedForBoth {k : String} {w : World} (h : OnItsWay k w) (hq : Settled w k)
    (hdb : (w.store.db.mess k).isEmpty = false) : IndexedForBoth w.store.db k := by
  rcases hq with ⟨_, hacked, hindex⟩
  have harrived : ∀ {a b : String}, Reaches w.store a b k → w.store.db.indexed a b k = true := by
    intro a b hr
    rcases hr with hidx | ⟨c, hmem⟩
    · exact hidx
    · exact absurd rfl (hindex _ hmem)
  rcases h.reaches hdb with ⟨mw, hmem, hk⟩ | ⟨d, hd, hft, htf⟩
  · -- a handler that is still to run has a client that runs
    have hruns := h.running mw (List.mem_append_right _ hmem) hk
    simp [hacked mw hmem hk] at hruns
  · refine ⟨d.toMess, by simpa only [hd] using d.messOfChatSnapshot_record, ?_, ?_⟩
    · simpa using harrived hft
    · simpa using harrived htf

theorem IndexedForBoth.isEmpty_eq_false {db : Database} {k : String} (h : IndexedForBoth db k) :
    (db.mess k).isEmpty = false := by
  rcases h with ⟨m, hm, _⟩
  cases hdb : db.mess k with
  | empty =>
      simp only [hdb] at hm
      cases hm
  | leaf v => rfl
  | node cs => rfl

/-! ## All or nothing -/

/-- An index entry always names the record of a message between its two users, and a send that is
not lost has, once it has settled, a record exactly if both users have it in their index. -/
theorem send_all_or_nothing {es : List Event} {w : World}
    (hrun : Step.run step .init es = some w) :
    (∀ a b k, w.store.db.indexed a b k = true →
      ∃ m, messOfChatSnapshot (w.store.db.mess k) = .ok m ∧ m.Between a b) ∧
    ∀ k, Step.Along step (fun w e w' => ¬ Loses k w e w') .init es → Settled w k →
      ((w.store.db.mess k).isEmpty = false ↔ IndexedForBoth w.store.db k) := by
  refine ⟨?_, ?_⟩
  · intro a b k hk
    exact ((sound_of_run hrun).indexed a b k hk).decodes
  · intro k hlost hq
    constructor
    · exact (onItsWay_of_run hrun hlost).indexedForBoth hq
    · exact IndexedForBoth.isEmpty_eq_false

/-- Alice opens a chat with Bob. -/
def openBob : List Event :=
  [.authChanged 0 (some "alice"), .profileWritten "bob" "Bob" "bob@chat" "secret" none,
    .childAddedUser 0 "bob", .didSelectUser 0 0]

def helloBob : MessWrite :=
  { client := 0
    key := "k1"
    fromid := some "alice"
    toid := some "bob"
    data := .text "alice" "bob" "hello" (NSNumber.ofInt 1)
    upload := none }

/-- She sends him a text; the database answers the second index write with `ok`. -/
def sendHello (ok : Bool) : List Event :=
  openBob ++ [.sendMess 0 0 "k1" "hello" 1, .messAnswered helloBob true, .messCompletion helloBob,
    .indexAnswered ⟨0, "alice", "bob", "k1"⟩ true, .indexAnswered ⟨0, "bob", "alice", "k1"⟩ ok]

/-- If it is accepted, the message is there for both. -/
theorem sendHello_reaches_both :
    ∃ w, Step.run step .init (sendHello true) = some w ∧ IndexedForBoth w.store.db "k1" := by
  obtain ⟨w, hrun⟩ : ∃ w, Step.run step .init (sendHello true) = some w := ⟨_, rfl⟩
  have hboth := (send_all_or_nothing hrun).2 "k1" (by decide)
  refine ⟨w, hrun, ?_⟩
  cases hrun
  exact (hboth (by decide)).1 (by decide)

/-- Where the accepted send leaves the world. -/
theorem sendHello_world : ∃ w screen, Step.run step .init (sendHello true) = some w ∧
    (w.clients 0).running = true ∧ (w.clients 0).currentUid = some "alice" ∧
      (w.clients 0).screens[0]? = some screen ∧ Settled w "k1" ∧
        w.store.db.partners "alice" = ["bob"] ∧
        w.store.db.indexKeys "alice" = [("bob", "k1")] ∧
          w.store.db.mess "k1" = helloBob.data.record ∧ w.store.indexWrites = [] :=
  ⟨_, _, rfl, by decide, by decide, rfl, by decide, by decide, by decide, rfl, rfl⟩

/-- If it is rejected, only Alice has it, with no write left in flight. -/
theorem sendHello_reaches_one :
    ¬ ∀ (es : List Event) (w : World), Step.run step .init es = some w → (∀ k, Settled w k) →
      ∀ k, (w.store.db.mess k).isEmpty = false ↔ IndexedForBoth w.store.db k := by
  intro h
  obtain ⟨w, hrun, hmess, hacked, hindex⟩ :
      ∃ w, Step.run step .init (sendHello false) = some w ∧ w.store.messWrites = [] ∧
        w.store.acked = [] ∧ w.store.indexWrites = [] := ⟨_, rfl, rfl, rfl, rfl⟩
  have hsettled : ∀ k, Settled w k := by
    intro k
    simp [Settled, hmess, hacked, hindex]
  have hiff := h _ w hrun hsettled "k1"
  cases hrun
  rcases hiff.1 (by decide) with ⟨m, hm, _, hbob⟩
  cases hm
  exact absurd hbob (by decide)

end Send
end AppChatAgain
