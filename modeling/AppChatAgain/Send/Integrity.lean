import AppChatAgain.Chat.Observers
import AppChatAgain.Send.World

/-!
# Send.Integrity — what the index of a user names

Whatever the clients do and whichever writes fail, a key found at `usermess/<a>/<b>` names a
record between `a` and `b` that the chat decodes without a trap.
-/

namespace AppChatAgain
namespace Send

open Foundation Firebase Records

/-- Every event keeps the store sound. -/
theorem Sound.effect {w w' : World} {e : Event} (h : Sound w.store) (he : Effect w e w') :
    Sound w'.store := by
  cases he with
  | client e w' hstore => simpa [hstore] using h
  | setUser e w' uid profile hstore hclients => simpa [hstore] using h.setUser uid profile
  | issue e w' mw hfresh hconsistent hrunning hstore hclients =>
      simpa [hstore] using h.issue hfresh hconsistent
  | acceptMess mw hmem => exact h.acceptMess hmem
  | dropMess e mw hmem => exact h.dropMess mw
  | complete mw iws hmem hiws => exact h.complete mw (h.recordOf_indexWrites hmem hiws)
  | crash mw t hmem hrunning htrap =>
      -- a trapping handler issues no index write
      exact h.complete mw (fun iw hiw => by cases hiw)
  | acceptIndex iw hmem => exact h.acceptIndex hmem
  | dropIndex e iw hmem hdropped => exact h.dropIndex iw

theorem Sound.step {w w' : World} {e : Event} (h : Sound w.store) (hs : step w e = some w') :
    Sound w'.store :=
  h.effect (effect_of_step hs)

/-- What is indexed stays indexed. -/
theorem Effect.indexed {w w' : World} {e : Event} (he : Effect w e w') {a b k : String}
    (hk : w.store.db.indexed a b k = true) : w'.store.db.indexed a b k = true := by
  cases he with
  | client e w' hstore => simpa [hstore] using hk
  | setUser e w' uid profile hstore hclients => simpa [hstore, Store.setUser] using hk
  | issue e w' mw hfresh hconsistent hrunning hstore hclients =>
      simpa [hstore, Store.issue] using hk
  | acceptMess mw hmem => simpa [Store.acceptMess] using hk
  | dropMess e mw hmem => exact hk
  | complete mw iws hmem hiws => exact hk
  | crash mw t hmem hrunning htrap => exact hk
  | acceptIndex iw hmem => exact (Database.indexed_addIndex _ _ _ _ a b k).2 (Or.inr hk)
  | dropIndex e iw hmem hdropped => exact hk

/-- No event takes a partner off the index. -/
theorem Effect.hasPartner {w w' : World} {e : Event} (he : Effect w e w') {a b : String}
    (h : w.store.db.hasPartner a b = true) : w'.store.db.hasPartner a b = true := by
  cases he with
  | client e w' hstore => simpa [hstore] using h
  | setUser e w' uid profile hstore hclients => simpa [hstore, Store.setUser] using h
  | issue e w' mw hfresh hconsistent hrunning hstore hclients =>
      simpa [hstore, Store.issue] using h
  | acceptMess mw hmem => simpa [Store.acceptMess] using h
  | acceptIndex iw hmem => exact (Database.hasPartner_addIndex _ _ _ _ a b).2 (Or.inr h)
  | dropMess e mw hmem => exact h
  | complete mw iws hmem hiws => exact h
  | crash mw t hmem hrunning htrap => exact h
  | dropIndex e iw hmem hdropped => exact h

/-- A write that is on its way was so before, or is issued now, by a client that runs. -/
theorem Effect.writes {w w' : World} {e : Event} (he : Effect w e w') {mw : MessWrite}
    (hmem : mw ∈ w'.store.messWrites ++ w'.store.acked) :
    mw ∈ w.store.messWrites ++ w.store.acked ∨
      mw.key ∉ w.store.issued ∧ mw.key ∈ w'.store.issued ∧
        (w'.clients mw.client).running = true := by
  cases he with
  | client e w' hstore => exact Or.inl (by simpa [hstore] using hmem)
  | setUser e w' uid profile hstore hclients =>
      exact Or.inl (by simpa [hstore, Store.setUser] using hmem)
  | issue e w' mw' hfresh hconsistent hrunning hstore hclients =>
      have hcons : mw ∈ mw' :: (w.store.messWrites ++ w.store.acked) := by
        simpa [hstore, Store.issue, or_assoc] using hmem
      rcases List.mem_cons.1 hcons with heq | hold
      · subst heq
        have hissued : mw.key ∈ w'.store.issued := by simp [hstore, Store.issue]
        exact Or.inr ⟨hfresh, hissued, by simpa [hclients] using hrunning⟩
      · exact Or.inl hold
  | acceptMess mw' hmem' => exact Or.inl (Store.writes_acceptMess_subset hmem' hmem)
  | dropMess e mw' hmem' => exact Or.inl (w.store.writes_dropMess_subset mw' hmem)
  | complete mw' iws hmem' hiws => exact Or.inl (w.store.writes_complete_subset mw' iws hmem)
  | crash mw' t hmem' hrunning htrap => exact Or.inl (w.store.writes_complete_subset mw' [] hmem)
  | acceptIndex iw hmem' => exact Or.inl hmem
  | dropIndex e iw hmem' hdropped => exact Or.inl hmem

/-- Keys are issued once and for all. -/
theorem Effect.issued_subset {w w' : World} {e : Event} (he : Effect w e w') :
    w.store.issued ⊆ w'.store.issued := by
  cases he with
  | client e w' hstore => simp [hstore]
  | setUser e w' uid profile hstore hclients => simp [hstore, Store.setUser]
  | issue e w' mw hfresh hconsistent hrunning hstore hclients =>
      simp [hstore, Store.issue]
  | _ => exact List.Subset.refl _

/-- The record of a key stays as it is, or becomes that of a write without an answer. -/
theorem Sound.mess_effect {w w' : World} {e : Event} (h : Sound w.store) (he : Effect w e w')
    (k : String) :
    w'.store.db.mess k = w.store.db.mess k ∨
      ∃ mw ∈ w.store.messWrites, mw.key = k ∧ w'.store.db.mess k = mw.data.record := by
  cases he with
  | client e w' hstore => exact Or.inl (by simp [hstore])
  | setUser e w' uid profile hstore hclients => exact Or.inl (by simp [hstore, Store.setUser])
  | issue e w' mw hfresh hconsistent hrunning hstore hclients =>
      exact Or.inl (by simp [hstore, Store.issue])
  | acceptMess mw hmem =>
      by_cases hkey : mw.key = k
      · subst hkey
        exact Or.inr ⟨mw, hmem, rfl, h.mess_acceptMess hmem⟩
      · exact Or.inl (Database.mess_updateMess_of_ne _ hkey _)
  | dropMess e mw hmem => exact Or.inl rfl
  | complete mw iws hmem hiws => exact Or.inl rfl
  | crash mw t hmem hrunning htrap => exact Or.inl rfl
  | acceptIndex iw hmem => exact Or.inl (Database.mess_addIndex _ _ _ _ k)
  | dropIndex e iw hmem hdropped => exact Or.inl rfl

/-- A record that is there stays as it is. -/
theorem Sound.mess_effect_of_recordOf {w w' : World} {e : Event} (h : Sound w.store)
    (he : Effect w e w') {a b k : String} (hrec : RecordOf w.store.db a b k) :
    w'.store.db.mess k = w.store.db.mess k := by
  rcases h.mess_effect he k with hsame | ⟨mw, hmem, rfl, _⟩
  · exact hsame
  · -- the key of a write without an answer names no record yet
    rcases hrec with ⟨d, hd, _⟩
    have hne := d.isEmpty_record
    rw [← hd, h.unwritten mw hmem] at hne
    cases hne

/-- The store is sound in every reachable state. -/
theorem sound_of_run {w : World} {es : List Event} (hrun : Step.run step .init es = some w) :
    Sound w.store :=
  Step.run_invariant (P := fun w => Sound w.store) (fun _ _ _ h hs => h.step hs) Sound.init hrun

/-- What a reader of `usermess/<a>/<b>` relies on: each key names a record with the fields that the
chat forces, exchanged between `a` and `b`; for `a`, the partner of the message is `b`, and the
chat's value callback appends it. -/
def IndexIntegrity (db : Database) : Prop :=
  ∀ a b k, db.indexed a b k = true →
    WellFormedMess (db.mess k) ∧
      ∃ m, messOfChatSnapshot (db.mess k) = .ok m ∧ m.Between a b ∧
        m.getPartnerId (some a) = b ∧
          ∀ c : Chat.ChatCollect,
            c.valueMess (db.mess k) = .ok { c with arrayMess := c.arrayMess ++ [m] }

theorem Sound.indexIntegrity {s : Store} (h : Sound s) : IndexIntegrity s.db := by
  intro a b k hk
  rcases (h.indexed a b k hk).decodes with ⟨m, hm, hbetween⟩
  refine ⟨exists_messOfChatSnapshot_iff.1 ⟨m, hm⟩, m, hm, hbetween, hbetween.getPartnerId, ?_⟩
  intro c
  exact Chat.ChatCollect.valueMess_eq_ok.2 ⟨m, hm, rfl⟩

/-- In every run of any number of clients, the index keeps its integrity throughout. -/
theorem index_integrity (es : List Event) :
    Step.Throughout step (fun w => IndexIntegrity w.store.db) .init es := by
  intro es₁ es₂ w _ hrun
  exact (sound_of_run hrun).indexIntegrity

end Send
end AppChatAgain
