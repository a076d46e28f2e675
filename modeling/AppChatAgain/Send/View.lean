import AppChatAgain.Send.Integrity

/-!
# Send.View — what a client sees of the index

The SDK shows a client its own writes before the server has answered, and takes them back when they
are rejected: `FRepo` raises the events of both.  Of the writes of a send, this matters for those of
the index.  A record is observed only once some entry of the index names it, and then it is stored.

* `Store.view`      : the database with the client's own index writes;
* `Event.TakesBack` : what the view of a client loses.
-/

namespace AppChatAgain
namespace Send

open Foundation Firebase Records

/-! ## The view -/

/-- The database with the index writes on their way. -/
def addIndexes (db : Database) (iws : List IndexWrite) : Database :=
  iws.foldl (fun db iw => db.addIndex iw.owner iw.partner iw.key) db

/-- What `c` sees: its own index writes are there at once. -/
def Store.view (s : Store) (c : ℕ) : Database :=
  addIndexes s.db (s.indexWrites.filter fun iw => iw.client = c)

theorem mess_addIndexes (db : Database) (iws : List IndexWrite) (k : String) :
    (addIndexes db iws).mess k = db.mess k := by
  induction iws generalizing db with
  | nil => rfl
  | cons iw iws ih => exact (ih _).trans (db.mess_addIndex _ _ _ k)

theorem indexed_addIndexes (db : Database) (iws : List IndexWrite) (a b k : String) :
    (addIndexes db iws).indexed a b k = true ↔
      (∃ iw ∈ iws, a = iw.owner ∧ b = iw.partner ∧ k = iw.key) ∨ db.indexed a b k = true := by
  induction iws generalizing db with
  | nil => simp [addIndexes]
  | cons iw iws ih =>
      refine (ih _).trans ?_
      simp only [db.indexed_addIndex, List.mem_cons, exists_eq_or_imp]
      exact or_left_comm.trans or_assoc.symm

theorem hasPartner_addIndexes (db : Database) (iws : List IndexWrite) (a b : String) :
    (addIndexes db iws).hasPartner a b = true ↔
      (∃ iw ∈ iws, a = iw.owner ∧ b = iw.partner) ∨ db.hasPartner a b = true := by
  induction iws generalizing db with
  | nil => simp [addIndexes]
  | cons iw iws ih =>
      refine (ih _).trans ?_
      simp only [db.hasPartner_addIndex, List.mem_cons, exists_eq_or_imp]
      exact or_left_comm.trans or_assoc.symm

namespace Store

variable (s : Store) (c : ℕ)

@[simp] theorem mess_view (k : String) : (s.view c).mess k = s.db.mess k :=
  mess_addIndexes _ _ k

theorem indexed_view {a b k : String} :
    (s.view c).indexed a b k = true ↔
      ⟨c, a, b, k⟩ ∈ s.indexWrites ∨ s.db.indexed a b k = true := by
  simp only [view, indexed_addIndexes, List.mem_filter, decide_eq_true_eq]
  apply or_congr_left
  constructor
  · rintro ⟨iw, ⟨hmem, rfl⟩, rfl, rfl, rfl⟩
    exact hmem
  · intro hmem
    exact ⟨_, ⟨hmem, rfl⟩, rfl, rfl, rfl⟩

theorem hasPartner_view {a b : String} :
    (s.view c).hasPartner a b = true ↔
      (∃ k, ⟨c, a, b, k⟩ ∈ s.indexWrites) ∨ s.db.hasPartner a b = true := by
  simp only [view, hasPartner_addIndexes, List.mem_filter, decide_eq_true_eq]
  apply or_congr_left
  constructor
  · rintro ⟨iw, ⟨hmem, rfl⟩, rfl, rfl⟩
    exact ⟨iw.key, hmem⟩
  · rintro ⟨k, hmem⟩
    exact ⟨_, ⟨hmem, rfl⟩, rfl, rfl⟩

end Store

/-- What a client sees in the index names a record. -/
theorem Sound.recordOf_view {s : Store} (h : Sound s) {c : ℕ} {a b k : String}
    (hk : (s.view c).indexed a b k = true) : RecordOf s.db a b k := by
  rcases (s.indexed_view c).1 hk with hmem | hidx
  · exact h.indexWrites _ hmem
  · exact h.indexed a b k hidx

/-! ## What an event does to the view -/

/-- The event takes the entry of `usermess/<a>/<b>` back from the view of `c`. -/
def Event.TakesBack (e : Event) (c : ℕ) (a b k : String) : Prop :=
  e.droppedIndex = some ⟨c, a, b, k⟩

/-- An index write stays on its way, or arrives, or comes to nothing. -/
theorem Effect.indexWrite {w w' : World} {e : Event} (he : Effect w e w') {iw : IndexWrite}
    (hmem : iw ∈ w.store.indexWrites) :
    iw ∈ w'.store.indexWrites ∨ w'.store.db.indexed iw.owner iw.partner iw.key = true ∨
      e.droppedIndex = some iw := by
  cases he with
  | client e w' hstore => exact Or.inl (by simpa [hstore] using hmem)
  | setUser e w' uid profile hstore hclients =>
      exact Or.inl (by simpa [hstore, Store.setUser] using hmem)
  | issue e w' mw hfresh hconsistent hrunning hstore hclients =>
      exact Or.inl (by simpa [hstore, Store.issue] using hmem)
  | acceptMess mw hmem' => exact Or.inl hmem
  | dropMess e mw hmem' => exact Or.inl hmem
  | complete mw iws hmem' hiws => exact Or.inl (List.mem_append_right _ hmem)
  | crash mw t hmem' hrunning htrap => exact Or.inl hmem
  | acceptIndex iw' hmem' =>
      by_cases heq : iw = iw'
      · subst heq
        exact Or.inr (Or.inl ((Database.indexed_addIndex _ _ _ _ _ _ _).2 (Or.inl ⟨rfl, rfl, rfl⟩)))
      · exact Or.inl ((List.mem_erase_of_ne heq).2 hmem)
  | dropIndex e iw' hmem' hdropped =>
      by_cases heq : iw = iw'
      · exact Or.inr (Or.inr (heq ▸ hdropped))
      · exact Or.inl ((List.mem_erase_of_ne heq).2 hmem)

/-- An entry stays in the view of a client unless it is taken back. -/
theorem Effect.indexed_view {w w' : World} {e : Event} (he : Effect w e w') {c : ℕ}
    {a b k : String} (hk : (w.store.view c).indexed a b k = true) :
    (w'.store.view c).indexed a b k = true ∨ e.TakesBack c a b k := by
  rcases (w.store.indexed_view c).1 hk with hmem | hidx
  · rcases he.indexWrite hmem with hold | harrived | hdropped
    · exact Or.inl ((w'.store.indexed_view c).2 (Or.inl hold))
    · exact Or.inl ((w'.store.indexed_view c).2 (Or.inr harrived))
    · exact Or.inr hdropped
  · exact Or.inl ((w'.store.indexed_view c).2 (Or.inr (he.indexed hidx)))

/-- So does a partner unless one of its entries is. -/
theorem Effect.hasPartner_view {w w' : World} {e : Event} (he : Effect w e w') {c : ℕ}
    {a b : String} (h : (w.store.view c).hasPartner a b = true) :
    (w'.store.view c).hasPartner a b = true ∨ ∃ k, e.TakesBack c a b k := by
  rcases (w.store.hasPartner_view c).1 h with ⟨k, hmem⟩ | hdb
  · rcases he.indexed_view ((w.store.indexed_view c).2 (Or.inl hmem)) with hidx | hback
    · exact Or.inl ((w'.store.view c).hasPartner_of_indexed hidx)
    · exact Or.inr ⟨k, hback⟩
  · exact Or.inl ((w'.store.hasPartner_view c).2 (Or.inr (he.hasPartner hdb)))

/-- Some event of the run has taken the entry back. -/
def TakenBack (es : List Event) (c : ℕ) (a b k : String) : Prop :=
  ∃ e ∈ es, e.TakesBack c a b k

theorem TakenBack.append_left {es : List Event} {c : ℕ} {a b k : String}
    (h : TakenBack es c a b k) (es' : List Event) : TakenBack (es ++ es') c a b k := by
  rcases h with ⟨e, he, hback⟩
  exact ⟨e, List.mem_append_left _ he, hback⟩

end Send
end AppChatAgain
