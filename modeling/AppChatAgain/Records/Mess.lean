import AppChatAgain.Firebase.Database

/-!
# Records.Mess — message records, their encoders and decoders

`Mess` with the two decoders of a snapshot of `mess/<key>`, which differ in what they force:

* `messOfChatSnapshot`  : the value callback of `chat_collect.get_mess_from_firebase`;
* `messOfInboxSnapshot` : the value callback of
  `message_controller.get_data_table_user_mess_from_firebase`;

and `MessData`, the records that `send_mess_to_firebase` and `upload_image_to_firebase` write.
-/

namespace AppChatAgain
namespace Records

open Foundation Firebase

/-! ## Messages -/

/-- `class Mess`.  The class declares its fields optional, but both of its initialisers set all
of them and nothing clears one later. -/
structure Mess where
  fromid : String
  mess : String
  timestamp : NSNumber
  toid : String
  imageUrl : String
  widthImage : NSNumber
  heightImage : NSNumber
  deriving DecidableEq, Repr

namespace Mess

/-- `get_partner_id`, for the uid of `Auth.auth().currentUser` at the time of the call. -/
def getPartnerId (m : Mess) (currentUid : Option String) : String :=
  if currentUid = some m.fromid then m.toid else m.fromid

/-- The time the lists are ordered by, `timestamp!.intValue`. -/
def time (m : Mess) : ℤ :=
  m.timestamp.intValue

/-- The message was exchanged between `a` and `b`: `{fromid, toid} = {a, b}`. -/
def Between (a b : String) (m : Mess) : Prop :=
  (m.fromid = a ∧ m.toid = b) ∨ (m.fromid = b ∧ m.toid = a)

instance (a b : String) (m : Mess) : Decidable (m.Between a b) := by
  unfold Between
  infer_instance

/-- For one of its two users, the partner of a message is the other one. -/
theorem Between.getPartnerId {a b : String} {m : Mess} (h : m.Between a b) :
    m.getPartnerId (some a) = b := by
  rcases h with ⟨hfrom, hto⟩ | ⟨hfrom, hto⟩
  · simp [Mess.getPartnerId, hfrom, hto]
  · -- a message that `a` has received; to itself, if `a = b`
    by_cases hab : a = b
    · simp [Mess.getPartnerId, hfrom, hto, hab]
    · simp [Mess.getPartnerId, hfrom, hab]

end Mess

/-! ## Decoders -/

/-- The decoding in the chat's value callback: `from_id`, `timestamp` and `to_id` are forced. -/
def messOfChatSnapshot (snap : Json) : Except Trap Mess := do
  let mangtemp ← forceUnwrap snap.asNSDictionary
  let fromId ← forceCast (mangtemp.field "from_id").asString
  let mess := (mangtemp.field "mess").asString
  let timestamp ← forceCast (mangtemp.field "timestamp").asNSNumber
  let toId ← forceCast (mangtemp.field "to_id").asString
  let imageUrl := (mangtemp.field "image_url").asString
  let widthImage := (mangtemp.field "width_image").asNSNumber
  let heightImage := (mangtemp.field "height_image").asNSNumber
  return {
    fromid := fromId
    mess := mess.getD ""
    timestamp := timestamp
    toid := toId
    imageUrl := imageUrl.getD ""
    widthImage := widthImage.getD 0
    heightImage := heightImage.getD 0 }

/-- The decoding in the inbox's value callback: every missing field has a default. -/
def messOfInboxSnapshot (snap : Json) : Mess :=
  let mangtemp := snap.asNSDictionary
  let fromId := mangtemp.bind fun d => (d.field "from_id").asString
  let mess := mangtemp.bind fun d => (d.field "mess").asString
  let timestamp := mangtemp.bind fun d => (d.field "timestamp").asNSNumber
  let toid := mangtemp.bind fun d => (d.field "to_id").asString
  let imageUrl := mangtemp.bind fun d => (d.field "image_url").asString
  let widthImage := mangtemp.bind fun d => (d.field "width_image").asNSNumber
  let heightImage := mangtemp.bind fun d => (d.field "height_image").asNSNumber
  { fromid := fromId.getD ""
    mess := mess.getD ""
    timestamp := timestamp.getD 0
    toid := toid.getD ""
    imageUrl := imageUrl.getD ""
    widthImage := widthImage.getD 0
    heightImage := heightImage.getD 0 }

/-- What the chat decoder needs: a dictionary with string ids and a number as timestamp. -/
def WellFormedMess (snap : Json) : Prop :=
  snap.asNSDictionary.isSome ∧ (snap.field "from_id").asString.isSome ∧
    (snap.field "timestamp").asNSNumber.isSome ∧ (snap.field "to_id").asString.isSome

/-- Where the chat decoder succeeds, its result is that of the inbox decoder. -/
theorem messOfChatSnapshot_eq_ok {snap : Json} {m : Mess} :
    messOfChatSnapshot snap = .ok m ↔ WellFormedMess snap ∧ m = messOfInboxSnapshot snap := by
  unfold messOfChatSnapshot WellFormedMess messOfInboxSnapshot
  -- the cases follow the order in which the chat forces the parts of the snapshot
  cases hd : snap.asNSDictionary with
  | none => simp [forceUnwrap, bind, Except.bind]
  | some d =>
      -- the cast returns the snapshot, so both decoders read the same fields
      have hds : d = snap := Json.eq_of_asNSDictionary hd
      subst hds
      cases hf : (d.field "from_id").asString with
      | none => simp [hf, forceCast, bind, Except.bind]
      | some f =>
          cases ht : (d.field "timestamp").asNSNumber with
          | none => simp [hf, ht, forceCast, bind, Except.bind]
          | some t =>
              cases hto : (d.field "to_id").asString with
              | none => simp [hf, ht, hto, forceCast, bind, Except.bind]
              | some toId =>
                  simp [hf, ht, hto, bind, Except.bind, pure, Except.pure, eq_comm]

theorem exists_messOfChatSnapshot_iff {snap : Json} :
    (∃ m, messOfChatSnapshot snap = .ok m) ↔ WellFormedMess snap := by
  simp [messOfChatSnapshot_eq_ok]

/-! ## Encoders -/

/-- The two kinds of records that are written to `mess/<key>`. -/
inductive MessData where
  | text (fromId toId mess : String) (timestamp : NSNumber)
  | image (fromId toId imageUrl : String) (timestamp widthImage heightImage : NSNumber)
  deriving DecidableEq, Repr

namespace MessData

def fromId : MessData → String
  | .text f _ _ _ => f
  | .image f _ _ _ _ _ => f

def toId : MessData → String
  | .text _ t _ _ => t
  | .image _ t _ _ _ _ => t

/-- The dictionary `data` of the two send functions. -/
def fields : MessData → List (String × Json)
  | .text f t mess ts =>
      [("from_id", Json.string f), ("to_id", Json.string t), ("mess", Json.string mess),
        ("timestamp", Json.number ts)]
  | .image f t url ts w h =>
      [("from_id", Json.string f), ("to_id", Json.string t), ("image_url", Json.string url),
        ("timestamp", Json.number ts), ("width_image", Json.number w),
        ("height_image", Json.number h)]

/-- The record that `updateChildValues(data)` leaves at a fresh key. -/
def record (d : MessData) : Json :=
  KeyTree.update .empty [] d.fields

/-- The message that a record stands for. -/
def toMess : MessData → Mess
  | .text f t mess ts =>
      { fromid := f, mess := mess, timestamp := ts, toid := t, imageUrl := "", widthImage := 0,
        heightImage := 0 }
  | .image f t url ts w h =>
      { fromid := f, mess := "", timestamp := ts, toid := t, imageUrl := url, widthImage := w,
        heightImage := h }

theorem isEmpty_record (d : MessData) : d.record.isEmpty = false := by
  cases d <;> exact KeyTree.isEmpty_update_cons _ _ _

@[simp] theorem asNSDictionary_record (d : MessData) : d.record.asNSDictionary = some d.record := by
  cases d <;> rfl

/-- The chat decoder inverts both encoders. -/
theorem messOfChatSnapshot_record (d : MessData) : messOfChatSnapshot d.record = .ok d.toMess := by
  cases d <;> rfl

theorem wellFormedMess_record (d : MessData) : WellFormedMess d.record :=
  exists_messOfChatSnapshot_iff.1 ⟨_, d.messOfChatSnapshot_record⟩

/-- So does the inbox decoder. -/
theorem messOfInboxSnapshot_record (d : MessData) : messOfInboxSnapshot d.record = d.toMess :=
  (messOfChatSnapshot_eq_ok.1 d.messOfChatSnapshot_record).2.symm

@[simp] theorem fromid_toMess (d : MessData) : d.toMess.fromid = d.fromId := by
  cases d <;> rfl

@[simp] theorem toid_toMess (d : MessData) : d.toMess.toid = d.toId := by
  cases d <;> rfl

end MessData

/-! ## Encoders and decoders agree -/

/-- The chat decoder traps exactly on what is not well-formed. -/
theorem messOfChatSnapshot_eq_error_iff {snap : Json} :
    (∃ t, messOfChatSnapshot snap = .error t) ↔ ¬ WellFormedMess snap := by
  simp only [← exists_messOfChatSnapshot_iff]
  cases messOfChatSnapshot snap with
  | ok m => simp
  | error t => simp

theorem not_wellFormedMess_iff {snap : Json} :
    ¬ WellFormedMess snap ↔
      snap.asNSDictionary = none ∨ (∀ s, snap.field "from_id" ≠ Json.string s) ∨
        (∀ s, snap.field "to_id" ≠ Json.string s) ∨
          ((∀ n, snap.field "timestamp" ≠ Json.number n) ∧
            ∀ b, snap.field "timestamp" ≠ Json.bool b) := by
  simp only [← Json.asString_eq_none_iff, ← Json.asNSNumber_eq_none_iff, WellFormedMess,
    Option.isSome_iff_ne_none]
  tauto

/-- A record that either send function writes is read back by both decoders as the message that
was sent.  Whatever is stored, the chat decoder traps exactly if it is no dictionary, an id is no
string or the timestamp is neither a number nor a boolean; otherwise both decoders agree. -/
theorem encoders_decoders_agree :
    (∀ (db : Database) (k : String) (d : MessData), db.mess k = .empty →
      messOfChatSnapshot ((db.updateMess k d.fields).mess k) = .ok d.toMess ∧
        messOfInboxSnapshot ((db.updateMess k d.fields).mess k) = d.toMess) ∧
    (∀ snap : Json, (∃ t, messOfChatSnapshot snap = .error t) ↔
      snap.asNSDictionary = none ∨ (∀ s, snap.field "from_id" ≠ Json.string s) ∨
        (∀ s, snap.field "to_id" ≠ Json.string s) ∨
          ((∀ n, snap.field "timestamp" ≠ Json.number n) ∧
            ∀ b, snap.field "timestamp" ≠ Json.bool b)) ∧
    ∀ (snap : Json) (m : Mess), messOfChatSnapshot snap = .ok m → messOfInboxSnapshot snap = m := by
  refine ⟨?_, ?_, ?_⟩
  · intro db k d hk
    have hrecord : (db.updateMess k d.fields).mess k = d.record := by
      simp [Database.mess_updateMess_self, hk, MessData.record]
    simpa only [hrecord] using And.intro d.messOfChatSnapshot_record d.messOfInboxSnapshot_record
  · intro snap
    exact messOfChatSnapshot_eq_error_iff.trans not_wellFormedMess_iff
  · intro snap m hm
    exact (messOfChatSnapshot_eq_ok.1 hm).2.symm

/-- A record with a boolean for its timestamp. -/
def boolTimestamp : Json :=
  KeyTree.update .empty []
    [("from_id", Json.string "alice"), ("to_id", Json.string "bob"),
      ("timestamp", Json.bool true)]

/-- It is no number, but it is an `NSNumber`, and the forced cast accepts it. -/
theorem boolTimestamp_decodes :
    ¬ ∀ snap : Json, (∃ t, messOfChatSnapshot snap = .error t) ↔
      snap.asNSDictionary = none ∨ (∀ s, snap.field "from_id" ≠ Json.string s) ∨
        (∀ s, snap.field "to_id" ≠ Json.string s) ∨
          ∀ n, snap.field "timestamp" ≠ Json.number n := by
  intro h
  have hnumber : ∀ n, boolTimestamp.field "timestamp" ≠ Json.number n := by
    intro n hn
    cases hn
  rcases (h boolTimestamp).2 (Or.inr (Or.inr (Or.inr hnumber))) with ⟨t, ht⟩
  cases ht

end Records
end AppChatAgain
