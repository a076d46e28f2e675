import Mathlib.Data.String.Basic
import AppChatAgain.Foundation.SortedView
import AppChatAgain.Records.Mess

/-!
# Inbox.Callback — the value callback of the inbox

`message_controller` keeps one message for each partner in `message_dictionary` and shows the
values of the dictionary, newest first, in `array_message`.  Newest is meant by the `intValue` of
the timestamps, which drops fractions.  Two services are unspecified: the order in which
`Dictionary.values` lists the values, which may differ from call to call, and what `sort` does with
equal timestamps.

The main result is the representation invariant `Wf`, which every delivery preserves.
-/

namespace AppChatAgain
namespace Inbox

open Foundation Firebase Records

/-- The part of `message_controller` that the inbox observers write. -/
@[ext]
structure MessageController where
  messageDictionary : Dict String Mess
  arrayMessage : List Mess

namespace MessageController

def viewDidLoad : MessageController :=
  { messageDictionary := ∅
    arrayMessage := [] }

/-- The callback of the value observer at `mess/<key>` in
`get_data_table_user_mess_from_firebase`, with `currentUid` signed in. -/
def valueMess (sort : SortFn Mess) (values : Enumeration String Mess) (currentUid : Option String)
    (snap : Json) (s : MessageController) : MessageController :=
  let messUser := messOfInboxSnapshot snap
  -- what is appended here is overwritten two lines below
  let s := { s with arrayMessage := s.arrayMessage ++ [messUser] }
  let keyToId := messUser.getPartnerId currentUid
  let s := { s with messageDictionary := s.messageDictionary.insert keyToId messUser }
  let s := { s with arrayMessage := values.order s.messageDictionary }
  let newer := fun mess1 mess2 : Mess =>
    decide (mess1.timestamp.intValue > mess2.timestamp.intValue)
  { s with arrayMessage := sort.sort newer s.arrayMessage }

variable (sort : SortFn Mess) (values : Enumeration String Mess) (currentUid : Option String)
  (snap : Json) (s : MessageController)

/-- The message takes the place of the partner's previous one. -/
@[simp] theorem messageDictionary_valueMess :
    (s.valueMess sort values currentUid snap).messageDictionary =
      s.messageDictionary.insert ((messOfInboxSnapshot snap).getPartnerId currentUid)
        (messOfInboxSnapshot snap) :=
  rfl

theorem lookup_valueMess (p : String) :
    (s.valueMess sort values currentUid snap).messageDictionary.lookup p =
      if p = (messOfInboxSnapshot snap).getPartnerId currentUid then
        some (messOfInboxSnapshot snap)
      else s.messageDictionary.lookup p := by
  by_cases h : p = (messOfInboxSnapshot snap).getPartnerId currentUid
  · subst h
    simp
  · simp [h, Finmap.lookup_insert_of_ne _ h]

theorem arrayMessage_valueMess_perm :
    (s.valueMess sort values currentUid snap).arrayMessage.Perm
      (values.order (s.valueMess sort values currentUid snap).messageDictionary) :=
  sort.perm _ _

theorem arrayMessage_valueMess_sorted :
    (s.valueMess sort values currentUid snap).arrayMessage.Pairwise
      fun m m' => m'.time ≤ m.time :=
  sort.sorted_decreasing Mess.time _

/-- With a stable sort, two messages of one time may come in either order, since the dictionary may
be listed in either order. -/
theorem exists_pair_sublist_arrayMessage {sort : SortFn Mess} (hsort : sort.Stable)
    {q r : String} {m m' : Mess}
    (hm : (s.messageDictionary.insert ((messOfInboxSnapshot snap).getPartnerId currentUid)
      (messOfInboxSnapshot snap)).lookup q = some m)
    (hm' : (s.messageDictionary.insert ((messOfInboxSnapshot snap).getPartnerId currentUid)
      (messOfInboxSnapshot snap)).lookup r = some m')
    (hne : m ≠ m') (htime : m.time = m'.time) :
    ∃ values, [m, m'].Sublist (s.valueMess sort values currentUid snap).arrayMessage := by
  rcases Enumeration.exists_pair_sublist (Dict.mem_values.2 ⟨q, hm⟩) (Dict.mem_values.2 ⟨r, hm'⟩)
    hne with ⟨values, hvalues⟩
  exact ⟨values, hsort.pair_sublist htime hvalues⟩

end MessageController

/-! ## Deliveries -/

/-- A value callback for a key, and the order in which the dictionary is listed in it. -/
structure Delivery where
  key : String
  snap : Json
  values : Enumeration String Mess

/-- The message that the callback decodes. -/
def Delivery.mess (d : Delivery) : Mess :=
  messOfInboxSnapshot d.snap

/-- The value callbacks for the deliveries, in order, with `uid` signed in. -/
def deliver (sort : SortFn Mess) (uid : String) (ds : List Delivery) : MessageController :=
  ds.foldl (fun s d => s.valueMess sort d.values (some uid) d.snap) .viewDidLoad

@[simp] theorem deliver_nil (sort : SortFn Mess) (uid : String) :
    deliver sort uid [] = .viewDidLoad :=
  rfl

theorem deliver_concat (sort : SortFn Mess) (uid : String) (ds : List Delivery) (d : Delivery) :
    deliver sort uid (ds ++ [d]) =
      (deliver sort uid ds).valueMess sort d.values (some uid) d.snap := by
  simp [deliver]

/-! ## The representation invariant -/

/-- The rows are the dictionary's values, newest first, one for each partner, and the dictionary
has exactly the partners of the messages delivered. -/
structure Wf (uid : String) (delivered : List Mess) (s : MessageController) : Prop where
  rows : (s.arrayMessage : Multiset Mess) = s.messageDictionary.values
  sorted : s.arrayMessage.Pairwise fun m m' => m'.time ≤ m.time
  partners : (s.arrayMessage.map fun m => m.getPartnerId (some uid)).Nodup
  keyed : s.messageDictionary.KeyedBy fun m => m.getPartnerId (some uid)
  keys : ∀ p, p ∈ s.messageDictionary ↔ ∃ m ∈ delivered, m.getPartnerId (some uid) = p

theorem wf_viewDidLoad (uid : String) : Wf uid [] .viewDidLoad where
  rows := rfl
  sorted := List.Pairwise.nil
  partners := List.nodup_nil
  keyed := Dict.keyedBy_empty _
  keys p := by
    constructor
    · intro h
      exact absurd h Finmap.notMem_empty
    · rintro ⟨m, hm, _⟩
      cases hm

/-- One delivery keeps the invariant. -/
theorem Wf.valueMess {uid : String} {delivered : List Mess} {s : MessageController}
    (h : Wf uid delivered s) (sort : SortFn Mess) (values : Enumeration String Mess)
    (snap : Json) :
    Wf uid (delivered ++ [messOfInboxSnapshot snap])
      (s.valueMess sort values (some uid) snap) := by
  have hperm := s.arrayMessage_valueMess_perm sort values (some uid) snap
  have hkeyed : Dict.KeyedBy (fun m : Mess => m.getPartnerId (some uid))
      (s.valueMess sort values (some uid) snap).messageDictionary :=
    h.keyed.insert (messOfInboxSnapshot snap)
  refine ⟨?_, s.arrayMessage_valueMess_sorted sort values (some uid) snap, ?_, hkeyed, ?_⟩
  · -- the rows are some listing of the dictionary, sorted
    calc
      ((s.valueMess sort values (some uid) snap).arrayMessage : Multiset Mess)
          = (values.order (s.valueMess sort values (some uid) snap).messageDictionary :
              Multiset Mess) := Multiset.coe_eq_coe.2 hperm
      _ = (s.valueMess sort values (some uid) snap).messageDictionary.values :=
          values.values_eq _
  -- a listing of a keyed dictionary lists no key twice
  · exact (hperm.map _).nodup_iff.2 (values.nodup_map_order hkeyed)
  · intro p
    -- a partner has a row from its first delivery on
    simp only [MessageController.messageDictionary_valueMess, Finmap.mem_insert, h.keys]
    constructor
    · rintro (rfl | ⟨m, hm, hp⟩)
      · exact ⟨messOfInboxSnapshot snap, by simp, rfl⟩
      · exact ⟨m, List.mem_append_left _ hm, hp⟩
    · rintro ⟨m, hm, hp⟩
      rcases List.mem_append.1 hm with hold | hnew
      · exact Or.inr ⟨m, hold, hp⟩
      · obtain rfl : m = messOfInboxSnapshot snap := by simpa using hnew
        exact Or.inl hp.symm

/-- Every sequence of deliveries leaves a well-formed inbox. -/
theorem wf_deliver (sort : SortFn Mess) (uid : String) (ds : List Delivery) :
    Wf uid (ds.map Delivery.mess) (deliver sort uid ds) := by
  -- from the last delivery backwards, so that the state is the one before it
  induction ds using List.reverseRecOn with
  | nil => exact wf_viewDidLoad uid
  | append_singleton ds d ih =>
      have hstep := ih.valueMess sort d.values d.snap
      simpa [deliver_concat, Delivery.mess] using hstep

/-- The row of a partner is the dictionary's message. -/
theorem Wf.mem_arrayMessage {uid : String} {delivered : List Mess} {s : MessageController}
    (h : Wf uid delivered s) {m : Mess} :
    m ∈ s.arrayMessage ↔
      s.messageDictionary.lookup (m.getPartnerId (some uid)) = some m := by
  have hrows : m ∈ s.arrayMessage ↔ ∃ p, s.messageDictionary.lookup p = some m := by
    simpa only [← Multiset.mem_coe, h.rows] using Dict.mem_values
  constructor
  · intro hm
    rcases hrows.1 hm with ⟨p, hp⟩
    have hkey : m.getPartnerId (some uid) = p := h.keyed p m hp
    subst hkey
    exact hp
  · intro hm
    exact hrows.2 ⟨_, hm⟩

/-- After every callback, the rows are the values of the dictionary, by non-increasing `intValue` of
their timestamps, with no partner twice; every key of the dictionary is the partner of its message;
and the keys are the partners of the messages delivered so far. -/
theorem inbox_representation (sort : SortFn Mess) (uid : String) (ds : List Delivery) (n : ℕ) :
    ((deliver sort uid (ds.take n)).arrayMessage : Multiset Mess) =
      (deliver sort uid (ds.take n)).messageDictionary.values ∧
    ((deliver sort uid (ds.take n)).arrayMessage.Pairwise fun m m' => m'.time ≤ m.time) ∧
    ((deliver sort uid (ds.take n)).arrayMessage.map fun m => m.getPartnerId (some uid)).Nodup ∧
    (∀ p m, (deliver sort uid (ds.take n)).messageDictionary.lookup p = some m →
      m.getPartnerId (some uid) = p) ∧
    ∀ p, p ∈ (deliver sort uid (ds.take n)).messageDictionary ↔
      ∃ d ∈ ds.take n, d.mess.getPartnerId (some uid) = p := by
  have hwf := wf_deliver sort uid (ds.take n)
  refine ⟨hwf.rows, hwf.sorted, hwf.partners, hwf.keyed, ?_⟩
  intro p
  apply (hwf.keys p).trans
  simp only [List.mem_map, exists_exists_and_eq_and]

/-- Two messages to Alice within one second. -/
def fromBob : MessData :=
  .text "bob" "alice" "hi" ⟨12 / 10⟩

def fromCarol : MessData :=
  .text "carol" "alice" "hello" ⟨19 / 10⟩

/-- The older one may stand above the newer one, so the timestamps themselves are not sorted. -/
theorem sameSecond_not_sorted :
    ¬ ∀ (sort : SortFn Mess) (uid : String) (ds : List Delivery) (n : ℕ),
      (deliver sort uid (ds.take n)).arrayMessage.Pairwise
        fun m m' => m'.timestamp.value ≤ m.timestamp.value := by
  intro h
  let bob : Delivery := { key := "k1", snap := fromBob.record, values := .byKey }
  let before := deliver (.merge Mess) "alice" [bob]
  have hbob : (before.messageDictionary.insert
      ((messOfInboxSnapshot fromCarol.record).getPartnerId (some "alice"))
      (messOfInboxSnapshot fromCarol.record)).lookup "bob" = some fromBob.toMess := rfl
  have hcarol : (before.messageDictionary.insert
      ((messOfInboxSnapshot fromCarol.record).getPartnerId (some "alice"))
      (messOfInboxSnapshot fromCarol.record)).lookup "carol" = some fromCarol.toMess := rfl
  rcases before.exists_pair_sublist_arrayMessage (some "alice") fromCarol.record
    (SortFn.merge_stable Mess) hbob hcarol (by decide) (by decide +kernel) with ⟨values, hpair⟩
  have hsorted := h (.merge Mess) "alice" [bob, ⟨"k2", fromCarol.record, values⟩] 2
  have hle := List.rel_of_pairwise_cons (hsorted.sublist hpair) (List.mem_singleton_self _)
  exact absurd hle (by decide +kernel)

end Inbox
end AppChatAgain
