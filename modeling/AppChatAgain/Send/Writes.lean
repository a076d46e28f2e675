import AppChatAgain.Foundation.KeyedLog
import AppChatAgain.Records.Mess

/-!
# Send.Writes — the writes of a send, and the database they reach

A send, of a text or of an image, makes three writes: the record `mess/<key>` and, from the
completion handler of that write, the index entries `usermess/<from>/<to>/<key>` and
`usermess/<to>/<from>/<key>`.  The index writes have no completion handler.

`Store` is the database together with the writes that the clients have issued and that have not
been answered.  Its invariant `Sound` says that no index entry and no index write precedes the
record it names.
-/

namespace AppChatAgain
namespace Send

open Foundation Firebase Records

/-- `UIImage`, as far as an image send reads it. -/
structure UIImage where
  pngData : Option (List UInt8)
  width : NSNumber
  height : NSNumber
  deriving DecidableEq, Repr

/-- A call of `upload_image_to_firebase`.  The code does not keep `pickedBy` and `pickedFor`, the
signed-in user and the partner of the chat at the time of the call. -/
structure Upload where
  client : ℕ
  screen : ℕ
  image : UIImage
  randomImage : Fin 10001
  pickedBy : Option String
  pickedFor : Option String
  deriving DecidableEq, Repr

/-- `table_mess.updateChildValues(data)`, with the ids that its completion handler captures. -/
structure MessWrite where
  client : ℕ
  key : String
  fromid : Option String
  toid : Option String
  data : MessData
  upload : Option Upload
  deriving DecidableEq, Repr

/-- `updateChildValues([key: 1])` at `usermess/<owner>/<partner>`. -/
structure IndexWrite where
  client : ℕ
  owner : String
  partner : String
  key : String
  deriving DecidableEq, Repr

namespace MessWrite

/-- The body of the completion handler: the paths force both ids. -/
def indexWrites (mw : MessWrite) : Except Trap (List IndexWrite) := do
  let fromid ← child (← forceUnwrap mw.fromid)
  let toid ← child (← forceUnwrap mw.toid)
  return [⟨mw.client, fromid, toid, mw.key⟩, ⟨mw.client, toid, fromid, mw.key⟩]

/-- The record holds the captured ids, with the empty string for a missing one. -/
def Consistent (mw : MessWrite) : Prop :=
  mw.data.fromId = mw.fromid.getD "" ∧ mw.data.toId = mw.toid.getD ""

/-- A handler that does not trap indexes the message for both users of its record. -/
theorem indexWrites_eq_ok {mw : MessWrite} {iws : List IndexWrite} (h : mw.indexWrites = .ok iws)
    (hc : mw.Consistent) :
    iws = [⟨mw.client, mw.data.fromId, mw.data.toId, mw.key⟩,
      ⟨mw.client, mw.data.toId, mw.data.fromId, mw.key⟩] := by
  -- the steps of the handler, in order: `fromid!`, its path, `toid!`, its path
  rcases bind_eq_ok.1 h with ⟨f, hf, h⟩
  rcases bind_eq_ok.1 h with ⟨f', hf', h⟩
  rcases bind_eq_ok.1 h with ⟨t, ht, h⟩
  rcases bind_eq_ok.1 h with ⟨t', ht', h⟩
  have hfrom : mw.data.fromId = f' := by
    calc
      mw.data.fromId = mw.fromid.getD "" := hc.1
      _ = f := by simp [forceUnwrap_eq_ok.1 hf]
      _ = f' := (child_eq_ok.1 hf').2
  have hto : mw.data.toId = t' := by
    calc
      mw.data.toId = mw.toid.getD "" := hc.2
      _ = t := by simp [forceUnwrap_eq_ok.1 ht]
      _ = t' := (child_eq_ok.1 ht').2
  cases h
  simp [hfrom, hto]

end MessWrite

/-! ## The store -/

/-- The database and the writes on their way to it or back. -/
structure Store where
  db : Database
  /-- the keys that `childByAutoId` has returned -/
  issued : List String
  /-- record writes without an answer -/
  messWrites : List MessWrite
  /-- accepted record writes whose completion handler has not run -/
  acked : List MessWrite
  /-- index writes without an answer -/
  indexWrites : List IndexWrite

namespace Store

def init : Store :=
  { db := .empty
    issued := []
    messWrites := []
    acked := []
    indexWrites := [] }

variable (s : Store)

/-- A client writes a record at a key that is new. -/
def issue (mw : MessWrite) : Store :=
  { s with issued := mw.key :: s.issued, messWrites := mw :: s.messWrites }

/-- The database accepts a record write. -/
def acceptMess (mw : MessWrite) : Store :=
  { s with
    db := s.db.updateMess mw.key mw.data.fields
    messWrites := s.messWrites.erase mw
    acked := mw :: s.acked }

/-- A record write comes to nothing.  If it was rejected, the handler only prints the error. -/
def dropMess (mw : MessWrite) : Store :=
  { s with messWrites := s.messWrites.erase mw }

/-- The completion handler of an accepted record write issues index writes. -/
def complete (mw : MessWrite) (iws : List IndexWrite) : Store :=
  { s with acked := s.acked.erase mw, indexWrites := iws ++ s.indexWrites }

/-- The database accepts an index write. -/
def acceptIndex (iw : IndexWrite) : Store :=
  { s with
    db := s.db.addIndex iw.owner iw.partner iw.key
    indexWrites := s.indexWrites.erase iw }

/-- An index write comes to nothing. -/
def dropIndex (iw : IndexWrite) : Store :=
  { s with indexWrites := s.indexWrites.erase iw }

/-- A profile is written. -/
def setUser (uid : String) (profile : Json) : Store :=
  { s with db := s.db.setUser uid profile }

/-! ### Answers add no record writes -/

theorem writes_acceptMess_subset {s : Store} {mw : MessWrite} (hmem : mw ∈ s.messWrites) :
    (s.acceptMess mw).messWrites ++ (s.acceptMess mw).acked ⊆ s.messWrites ++ s.acked := by
  intro mw' hmem'
  rcases List.mem_append.1 hmem' with hw | ha
  · exact List.mem_append_left _ (List.mem_of_mem_erase hw)
  · rcases List.mem_cons.1 ha with rfl | ha
    · exact List.mem_append_left _ hmem
    · exact List.mem_append_right _ ha

theorem writes_dropMess_subset (s : Store) (mw : MessWrite) :
    (s.dropMess mw).messWrites ++ (s.dropMess mw).acked ⊆ s.messWrites ++ s.acked := by
  intro mw' hmem'
  rcases List.mem_append.1 hmem' with hw | ha
  · exact List.mem_append_left _ (List.mem_of_mem_erase hw)
  · exact List.mem_append_right _ ha

theorem writes_complete_subset (s : Store) (mw : MessWrite) (iws : List IndexWrite) :
    (s.complete mw iws).messWrites ++ (s.complete mw iws).acked ⊆ s.messWrites ++ s.acked := by
  intro mw' hmem'
  rcases List.mem_append.1 hmem' with hw | ha
  · exact List.mem_append_left _ hw
  · exact List.mem_append_right _ (List.mem_of_mem_erase ha)

end Store

/-! ## Soundness of the index -/

/-- `mess/<k>` holds a record of the app between `a` and `b`. -/
def RecordOf (db : Database) (a b k : String) : Prop :=
  ∃ d : MessData, db.mess k = d.record ∧ d.toMess.Between a b

theorem RecordOf.congr {db db' : Database} {a b k : String} (h : RecordOf db a b k)
    (hdb : db'.mess k = db.mess k) : RecordOf db' a b k := by
  rcases h with ⟨d, hd, hbetween⟩
  exact ⟨d, hdb.trans hd, hbetween⟩

/-- The chat decodes such a record to a message between `a` and `b`. -/
theorem RecordOf.decodes {db : Database} {a b k : String} (h : RecordOf db a b k) :
    ∃ m, messOfChatSnapshot (db.mess k) = .ok m ∧ m.Between a b := by
  rcases h with ⟨d, hd, hbetween⟩
  exact ⟨d.toMess, by simpa only [hd] using d.messOfChatSnapshot_record, hbetween⟩

/-- A record is written to its own new key, once, and nothing names it before it is there. -/
structure Sound (s : Store) : Prop where
  unissued : ∀ k, k ∉ s.issued → s.db.mess k = .empty
  issued : ∀ mw ∈ s.messWrites, mw.key ∈ s.issued
  distinct : (s.messWrites.map MessWrite.key).Nodup
  unwritten : ∀ mw ∈ s.messWrites, s.db.mess mw.key = .empty
  consistent : ∀ mw ∈ s.messWrites, mw.Consistent
  acked : ∀ mw ∈ s.acked, mw.Consistent ∧ s.db.mess mw.key = mw.data.record
  indexWrites : ∀ iw ∈ s.indexWrites, RecordOf s.db iw.owner iw.partner iw.key
  indexed : ∀ a b k, s.db.indexed a b k = true → RecordOf s.db a b k

namespace Sound

theorem init : Sound .init where
  unissued k _ := KeyTree.get_empty _
  issued mw h := by cases h
  distinct := List.nodup_nil
  unwritten mw h := by cases h
  consistent mw h := by cases h
  acked mw h := by cases h
  indexWrites iw h := by cases h
  indexed a b k h := by
    simp [Store.init, Database.indexed, KeyTree.get_empty, KeyTree.isEmpty] at h

variable {s : Store}

theorem issue (h : Sound s) {mw : MessWrite} (hfresh : mw.key ∉ s.issued) (hc : mw.Consistent) :
    Sound (s.issue mw) where
  unissued k hk := h.unissued k fun hmem => hk (List.mem_cons_of_mem _ hmem)
  issued mw' hmem := by
    rcases List.mem_cons.1 hmem with rfl | hold
    · exact List.mem_cons_self
    · exact List.mem_cons_of_mem _ (h.issued mw' hold)
  distinct := by
    -- the keys of the writes in flight are issued, and this one was not
    refine List.nodup_cons.2 ⟨?_, h.distinct⟩
    intro hmem
    rcases List.mem_map.1 hmem with ⟨mw', hmw', hkey⟩
    exact hfresh (hkey ▸ h.issued mw' hmw')
  unwritten mw' hmem := by
    rcases List.mem_cons.1 hmem with rfl | hold
    · exact h.unissued mw'.key hfresh
    · exact h.unwritten mw' hold
  consistent mw' hmem := by
    rcases List.mem_cons.1 hmem with rfl | hold
    · exact hc
    · exact h.consistent mw' hold
  acked := h.acked
  indexWrites := h.indexWrites
  indexed := h.indexed

/-- The record of an accepted write is complete: its key was not written before. -/
theorem mess_acceptMess (h : Sound s) {mw : MessWrite} (hmem : mw ∈ s.messWrites) :
    (s.acceptMess mw).db.mess mw.key = mw.data.record := by
  have hempty := h.unwritten mw hmem
  simp only [Store.acceptMess, Database.mess_updateMess_self, hempty, MessData.record]

/-- Records that are there stay as they are. -/
theorem mess_acceptMess_of_record (h : Sound s) {mw : MessWrite} (hmem : mw ∈ s.messWrites)
    {k : String} {d : MessData} (hk : s.db.mess k = d.record) :
    (s.acceptMess mw).db.mess k = s.db.mess k := by
  refine Database.mess_updateMess_of_ne _ ?_ _
  -- the key of a write in flight holds no record yet
  rintro rfl
  have hempty : s.db.mess mw.key = .empty := h.unwritten mw hmem
  have hrecord : d.record = .empty := hk.symm.trans hempty
  have hne : d.record.isEmpty = false := d.isEmpty_record
  simp [hrecord, KeyTree.isEmpty] at hne

theorem recordOf_acceptMess (h : Sound s) {mw : MessWrite} (hmem : mw ∈ s.messWrites)
    {a b k : String} (hrec : RecordOf s.db a b k) : RecordOf (s.acceptMess mw).db a b k := by
  rcases hrec with ⟨d, hd, hbetween⟩
  exact ⟨d, (h.mess_acceptMess_of_record hmem hd).trans hd, hbetween⟩

theorem acceptMess (h : Sound s) {mw : MessWrite} (hmem : mw ∈ s.messWrites) :
    Sound (s.acceptMess mw) where
  unissued k hk := by
    have hne : mw.key ≠ k := by
      rintro rfl
      exact hk (h.issued mw hmem)
    exact (Database.mess_updateMess_of_ne _ hne _).trans (h.unissued k hk)
  issued mw' hmem' := h.issued mw' (List.mem_of_mem_erase hmem')
  distinct := h.distinct.sublist (List.erase_sublist.map _)
  unwritten mw' hmem' := by
    -- no other write in flight has the key of the accepted one
    have hne : mw.key ≠ mw'.key := (key_ne_of_mem_erase h.distinct hmem hmem').symm
    exact (Database.mess_updateMess_of_ne _ hne _).trans
      (h.unwritten mw' (List.mem_of_mem_erase hmem'))
  consistent mw' hmem' := h.consistent mw' (List.mem_of_mem_erase hmem')
  acked mw' hmem' := by
    rcases List.mem_cons.1 hmem' with rfl | hold
    · exact ⟨h.consistent mw' hmem, h.mess_acceptMess hmem⟩
    · rcases h.acked mw' hold with ⟨hc, hrec⟩
      exact ⟨hc, (h.mess_acceptMess_of_record hmem hrec).trans hrec⟩
  indexWrites iw hiw := h.recordOf_acceptMess hmem (h.indexWrites iw hiw)
  indexed a b k hk :=
    h.recordOf_acceptMess hmem (h.indexed a b k (by simpa [Store.acceptMess] using hk))

theorem dropMess (h : Sound s) (mw : MessWrite) : Sound (s.dropMess mw) where
  unissued := h.unissued
  issued mw' hmem := h.issued mw' (List.mem_of_mem_erase hmem)
  distinct := h.distinct.sublist (List.erase_sublist.map _)
  unwritten mw' hmem := h.unwritten mw' (List.mem_of_mem_erase hmem)
  consistent mw' hmem := h.consistent mw' (List.mem_of_mem_erase hmem)
  acked := h.acked
  indexWrites := h.indexWrites
  indexed := h.indexed

/-- Whatever a handler writes, its index entries must name its record. -/
theorem complete (h : Sound s) (mw : MessWrite) {iws : List IndexWrite}
    (hiws : ∀ iw ∈ iws, RecordOf s.db iw.owner iw.partner iw.key) :
    Sound (s.complete mw iws) where
  unissued := h.unissued
  issued := h.issued
  distinct := h.distinct
  unwritten := h.unwritten
  consistent := h.consistent
  acked mw' hmem := h.acked mw' (List.mem_of_mem_erase hmem)
  indexWrites iw hiw := by
    rcases List.mem_append.1 hiw with hnew | hold
    · exact hiws iw hnew
    · exact h.indexWrites iw hold
  indexed := h.indexed

/-- A handler that does not trap names its own record, from both sides. -/
theorem recordOf_indexWrites (h : Sound s) {mw : MessWrite} (hmem : mw ∈ s.acked)
    {iws : List IndexWrite} (hiws : mw.indexWrites = .ok iws) :
    ∀ iw ∈ iws, RecordOf s.db iw.owner iw.partner iw.key := by
  rcases h.acked mw hmem with ⟨hc, hrec⟩
  have heq := MessWrite.indexWrites_eq_ok hiws hc
  intro iw hiw
  simp only [heq, List.mem_cons, List.not_mem_nil, or_false] at hiw
  rcases hiw with rfl | rfl
  · exact ⟨mw.data, hrec, by simp [Mess.Between]⟩
  · exact ⟨mw.data, hrec, by simp [Mess.Between]⟩

theorem acceptIndex (h : Sound s) {iw : IndexWrite} (hmem : iw ∈ s.indexWrites) :
    Sound (s.acceptIndex iw) where
  unissued k hk := (Database.mess_addIndex _ _ _ _ k).trans (h.unissued k hk)
  issued := h.issued
  distinct := h.distinct
  unwritten mw hmw := (Database.mess_addIndex _ _ _ _ _).trans (h.unwritten mw hmw)
  consistent := h.consistent
  acked mw hmw := by
    rcases h.acked mw hmw with ⟨hc, hrec⟩
    exact ⟨hc, (Database.mess_addIndex _ _ _ _ _).trans hrec⟩
  indexWrites iw' hiw' :=
    (h.indexWrites iw' (List.mem_of_mem_erase hiw')).congr (Database.mess_addIndex _ _ _ _ _)
  indexed a b k hk := by
    -- the accepted index write named a record already when it was issued
    rcases (Database.indexed_addIndex _ _ _ _ a b k).1 hk with ⟨rfl, rfl, rfl⟩ | hold
    · exact (h.indexWrites iw hmem).congr (Database.mess_addIndex _ _ _ _ _)
    · exact (h.indexed a b k hold).congr (Database.mess_addIndex _ _ _ _ _)

theorem dropIndex (h : Sound s) (iw : IndexWrite) : Sound (s.dropIndex iw) where
  unissued := h.unissued
  issued := h.issued
  distinct := h.distinct
  unwritten := h.unwritten
  consistent := h.consistent
  acked := h.acked
  indexWrites iw' hmem := h.indexWrites iw' (List.mem_of_mem_erase hmem)
  indexed := h.indexed

theorem setUser (h : Sound s) (uid : String) (profile : Json) :
    Sound (s.setUser uid profile) where
  unissued k hk := (Database.mess_setUser _ _ _ k).trans (h.unissued k hk)
  issued := h.issued
  distinct := h.distinct
  unwritten mw hmw := (Database.mess_setUser _ _ _ _).trans (h.unwritten mw hmw)
  consistent := h.consistent
  acked mw hmw := by
    rcases h.acked mw hmw with ⟨hc, hrec⟩
    exact ⟨hc, (Database.mess_setUser _ _ _ _).trans hrec⟩
  indexWrites iw hiw := (h.indexWrites iw hiw).congr (Database.mess_setUser _ _ _ _)
  indexed a b k hk := by
    have hold : s.db.indexed a b k = true := by simpa [Store.setUser] using hk
    exact (h.indexed a b k hold).congr (Database.mess_setUser _ _ _ _)

end Sound

end Send
end AppChatAgain
