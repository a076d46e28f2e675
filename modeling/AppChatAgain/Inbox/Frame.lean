import AppChatAgain.Inbox.Preview

/-!
# Inbox.Frame — what a message does to the other rows

Every value callback rebuilds `array_message` from the values of the dictionary, which come in any
order, and sorts them by `timestamp` alone, in whole seconds.  The rows of the other partners keep
their messages; those with one timestamp may change places.

* `rowsBut`     : the rows of all partners but one;
* `Undisturbed` : the callback leaves them as they were, however the dictionary is listed;
* `NoTies`      : their messages have different timestamps.

With a stable sort, the one holds exactly where the other does.
-/

namespace AppChatAgain
namespace Inbox

open Foundation Firebase Records

/-! ## The rows of the others -/

/-- The rows of the partners other than `p`. -/
def rowsBut (uid p : String) (rows : List Mess) : List Mess :=
  rows.filter fun m => m.getPartnerId (some uid) ≠ p

/-- The partner under whom the callback files a record. -/
def partnerOf (uid : String) (snap : Json) : String :=
  (messOfInboxSnapshot snap).getPartnerId (some uid)

/-- The messages that were delivered, by partner. -/
def byPartner (uid : String) (snaps : List Json) : List (String × Mess) :=
  snaps.map fun snap => (partnerOf uid snap, messOfInboxSnapshot snap)

/-- After callbacks for `snaps`, one for `snap` leaves the rows of the other partners as they were,
in whatever orders the dictionary is and has been listed. -/
def Undisturbed (sort : SortFn Mess) (uid : String) (snaps : List Json) (snap : Json) : Prop :=
  ∀ (ds : List Delivery) (values : Enumeration String Mess), ds.map Delivery.snap = snaps →
    rowsBut uid (partnerOf uid snap)
        ((deliver sort uid ds).valueMess sort values (some uid) snap).arrayMessage =
      rowsBut uid (partnerOf uid snap) (deliver sort uid ds).arrayMessage

/-- No two other partners have last messages with one timestamp. -/
def NoTies (uid : String) (snaps : List Json) (snap : Json) : Prop :=
  ∀ q r m m', q ≠ partnerOf uid snap → r ≠ partnerOf uid snap → q ≠ r →
    KeyedLog.latest (byPartner uid snaps) q = some m →
    KeyedLog.latest (byPartner uid snaps) r = some m' → m.time ≠ m'.time

@[simp] theorem mem_rowsBut {uid p : String} {rows : List Mess} {m : Mess} :
    m ∈ rowsBut uid p rows ↔ m ∈ rows ∧ m.getPartnerId (some uid) ≠ p := by
  simp [rowsBut]

/-- The dictionary has the last message delivered for each partner, in whatever orders it has been
listed. -/
theorem lookup_deliver (sort : SortFn Mess) (uid : String) (ds : List Delivery) (q : String) :
    (deliver sort uid ds).messageDictionary.lookup q =
      KeyedLog.latest (byPartner uid (ds.map Delivery.snap)) q := by
  induction ds using List.reverseRecOn with
  | nil => simp [MessageController.viewDidLoad, byPartner]
  | append_singleton ds d ih =>
      have hsplit : byPartner uid ((ds ++ [d]).map Delivery.snap) =
          byPartner uid (ds.map Delivery.snap) ++ [(d.partner uid, d.mess)] := by
        simp [byPartner, partnerOf, Delivery.partner, Delivery.mess]
      simp only [lookup_deliver_concat, hsplit, KeyedLog.latest_concat, ih]

/-- Deliveries of the records, with the dictionary listed by key in each. -/
def listed (snaps : List Json) : List Delivery :=
  snaps.map fun snap => { key := "", snap := snap, values := .byKey }

@[simp] theorem map_snap_listed (snaps : List Json) :
    (listed snaps).map Delivery.snap = snaps := by
  simp [listed, Function.comp_def]

/-- The last message of a partner has this partner. -/
theorem getPartnerId_of_latest {uid q : String} {snaps : List Json} {m : Mess}
    (h : KeyedLog.latest (byPartner uid snaps) q = some m) : m.getPartnerId (some uid) = q := by
  have hlookup := lookup_deliver (SortFn.merge Mess) uid (listed snaps) q
  exact (wf_deliver _ uid (listed snaps)).keyed q m (by simpa [h] using hlookup)

section Rows

variable {uid p : String} {delivered : List Mess} {s : MessageController}

theorem Wf.nodup_rowsBut (h : Wf uid delivered s) : (rowsBut uid p s.arrayMessage).Nodup :=
  (List.Nodup.of_map _ h.partners).filter _

theorem Wf.sorted_rowsBut (h : Wf uid delivered s) :
    (rowsBut uid p s.arrayMessage).Pairwise fun m m' => m'.time ≤ m.time :=
  h.sorted.filter _

/-- A callback changes no message of the other partners. -/
theorem Wf.rowsBut_valueMess_perm (h : Wf uid delivered s) (sort : SortFn Mess)
    (values : Enumeration String Mess) (snap : Json) :
    (rowsBut uid (partnerOf uid snap)
        (s.valueMess sort values (some uid) snap).arrayMessage).Perm
      (rowsBut uid (partnerOf uid snap) s.arrayMessage) := by
  have h' := h.valueMess sort values snap
  apply (List.perm_ext_iff_of_nodup h'.nodup_rowsBut h.nodup_rowsBut).2
  intro m
  simp only [mem_rowsBut, h'.mem_arrayMessage, h.mem_arrayMessage]
  -- the dictionary changes under the message's own partner only
  apply and_congr_left
  intro hp
  have hother : ¬ m.getPartnerId (some uid) = (messOfInboxSnapshot snap).getPartnerId (some uid) :=
    hp
  simp [hother]

end Rows

/-! ## Without ties -/

/-- Rows of other partners with different timestamps stay as they were, whatever the sort does with
equal ones. -/
theorem undisturbed_of_noTies (sort : SortFn Mess) {uid : String} {snaps : List Json} {snap : Json}
    (h : NoTies uid snaps snap) : Undisturbed sort uid snaps snap := by
  intro ds values hds
  subst hds
  have hwf := wf_deliver sort uid ds
  have hwf' := hwf.valueMess sort values snap
  refine eq_of_perm_of_decreasing (hwf.rowsBut_valueMess_perm sort values snap)
    hwf'.sorted_rowsBut hwf.sorted_rowsBut ?_
  intro m hm m' hm' htime
  have hold : ∀ m₀ ∈ rowsBut uid (partnerOf uid snap)
      ((deliver sort uid ds).valueMess sort values (some uid) snap).arrayMessage,
      m₀.getPartnerId (some uid) ≠ partnerOf uid snap ∧
        KeyedLog.latest (byPartner uid (ds.map Delivery.snap)) (m₀.getPartnerId (some uid)) =
          some m₀ := by
    intro m₀ hm₀
    rcases mem_rowsBut.1 ((hwf.rowsBut_valueMess_perm sort values snap).mem_iff.1 hm₀) with
      ⟨hrow, hp⟩
    exact ⟨hp, (lookup_deliver sort uid ds _).symm.trans (hwf.mem_arrayMessage.1 hrow)⟩
  rcases hold m hm with ⟨hp, hlatest⟩
  rcases hold m' hm' with ⟨hp', hlatest'⟩
  by_cases hqr : m.getPartnerId (some uid) = m'.getPartnerId (some uid)
  · -- one partner has one last message
    have hlatest₀ := hqr ▸ hlatest
    exact Option.some.inj (hlatest₀.symm.trans hlatest')
  · exact absurd htime (h _ _ m m' hp hp' hqr hlatest hlatest')

/-! ## With a tie -/

theorem pair_sublist_rowsBut {uid p : String} {rows : List Mess} {m m' : Mess}
    (h : [m, m'].Sublist rows) (hm : m.getPartnerId (some uid) ≠ p)
    (hm' : m'.getPartnerId (some uid) ≠ p) : [m, m'].Sublist (rowsBut uid p rows) := by
  have hfilter := h.filter fun m => decide (m.getPartnerId (some uid) ≠ p)
  simpa [rowsBut, hm, hm'] using hfilter

section Ties

variable {sort : SortFn Mess} {uid p q r : String} {m m' : Mess}

/-- With a stable sort, two rows with one timestamp come in either order after a callback, since the
dictionary may be listed in either order in it. -/
theorem exists_pair_sublist_valueMess (hsort : sort.Stable) (s : MessageController) (snap : Json)
    (hm : (s.messageDictionary.insert (partnerOf uid snap)
      (messOfInboxSnapshot snap)).lookup q = some m)
    (hm' : (s.messageDictionary.insert (partnerOf uid snap)
      (messOfInboxSnapshot snap)).lookup r = some m')
    (hp : m.getPartnerId (some uid) ≠ p) (hp' : m'.getPartnerId (some uid) ≠ p) (hne : m ≠ m')
    (htime : m.time = m'.time) :
    ∃ values, [m, m'].Sublist
      (rowsBut uid p (s.valueMess sort values (some uid) snap).arrayMessage) := by
  rcases s.exists_pair_sublist_arrayMessage (some uid) snap hsort hm hm' hne htime with
    ⟨values, hvalues⟩
  exact ⟨values, pair_sublist_rowsBut hvalues hp hp'⟩

/-- So they come in either order after callbacks for the records. -/
theorem exists_pair_sublist_deliver (hsort : sort.Stable) {snaps : List Json}
    (hm : KeyedLog.latest (byPartner uid snaps) q = some m)
    (hm' : KeyedLog.latest (byPartner uid snaps) r = some m')
    (hp : m.getPartnerId (some uid) ≠ p) (hp' : m'.getPartnerId (some uid) ≠ p) (hne : m ≠ m')
    (htime : m.time = m'.time) :
    ∃ ds : List Delivery, ds.map Delivery.snap = snaps ∧
      [m, m'].Sublist (rowsBut uid p (deliver sort uid ds).arrayMessage) := by
  -- only the order in the last callback matters
  rcases List.eq_nil_or_concat snaps with rfl | ⟨snaps, snap, rfl⟩
  · simp [byPartner] at hm
  · have hlookup : ∀ t, ((deliver sort uid (listed snaps)).messageDictionary.insert
        (partnerOf uid snap) (messOfInboxSnapshot snap)).lookup t =
          KeyedLog.latest (byPartner uid (snaps.concat snap)) t := by
      intro t
      have hdeliver := lookup_deliver sort uid (listed snaps ++ [⟨"", snap, .byKey⟩]) t
      simpa [deliver_concat, partnerOf] using hdeliver
    rcases exists_pair_sublist_valueMess hsort (deliver sort uid (listed snaps)) snap
      ((hlookup q).trans hm) ((hlookup r).trans hm') hp hp' hne htime with ⟨values, hvalues⟩
    refine ⟨listed snaps ++ [⟨"", snap, values⟩], by simp, ?_⟩
    simpa only [deliver_concat] using hvalues

end Ties

/-- So a tie of two other partners is not preserved. -/
theorem noTies_of_undisturbed {sort : SortFn Mess} (hsort : sort.Stable) {uid : String}
    {snaps : List Json} {snap : Json} (h : Undisturbed sort uid snaps snap) :
    NoTies uid snaps snap := by
  intro q r m m' hq hr hqr hm hm' htime
  have hq' : m.getPartnerId (some uid) = q := getPartnerId_of_latest hm
  have hr' : m'.getPartnerId (some uid) = r := getPartnerId_of_latest hm'
  have hp : m.getPartnerId (some uid) ≠ partnerOf uid snap := hq' ▸ hq
  have hp' : m'.getPartnerId (some uid) ≠ partnerOf uid snap := hr' ▸ hr
  have hne : m ≠ m' := by
    intro heq
    exact hqr (hq'.symm.trans (heq ▸ hr'))
  -- one order before the callback
  rcases exists_pair_sublist_deliver hsort hm hm' hp hp' hne htime with ⟨ds, hds, hbefore⟩
  have hlookup : ∀ t m₀, t ≠ partnerOf uid snap →
      KeyedLog.latest (byPartner uid snaps) t = some m₀ →
      ((deliver sort uid ds).messageDictionary.insert (partnerOf uid snap)
        (messOfInboxSnapshot snap)).lookup t = some m₀ := by
    intro t m₀ ht hlatest
    simpa [ht, lookup_deliver, hds] using hlatest
  -- the other one after it
  rcases exists_pair_sublist_valueMess hsort (deliver sort uid ds) snap (hlookup r m' hr hm')
    (hlookup q m hq hm) hp' hp hne.symm htime.symm with ⟨values, hafter⟩
  have hnd := (wf_deliver sort uid ds).nodup_rowsBut (p := partnerOf uid snap)
  apply not_pair_sublist_swap hnd hbefore
  simpa only [h ds values hds] using hafter

/-! ## The frame law -/

/-- A message leaves the rows of the other partners as they were, whatever the sort does with ties,
exactly if no two of them have last messages with one timestamp; and with any stable sort, exactly
then. -/
theorem undisturbed_iff_noTies (uid : String) (snaps : List Json) (snap : Json) :
    ((∀ sort, Undisturbed sort uid snaps snap) ↔ NoTies uid snaps snap) ∧
      ∀ sort : SortFn Mess, sort.Stable →
        (Undisturbed sort uid snaps snap ↔ NoTies uid snaps snap) := by
  have hstable : ∀ sort : SortFn Mess, sort.Stable →
      (Undisturbed sort uid snaps snap ↔ NoTies uid snaps snap) := by
    intro sort hsort
    exact ⟨noTies_of_undisturbed hsort, undisturbed_of_noTies sort⟩
  refine ⟨⟨?_, ?_⟩, hstable⟩
  · intro h
    exact (hstable _ (SortFn.merge_stable Mess)).1 (h _)
  · intro h sort
    exact undisturbed_of_noTies sort h

/-- Bob and Carol have written in one second. -/
def sameSecond : List Json :=
  [(MessData.text "bob" "alice" "hi" (NSNumber.ofInt 1)).record,
    (MessData.text "carol" "alice" "hello" (NSNumber.ofInt 1)).record]

/-- When Dave writes, their rows may change places. -/
theorem sameSecond_not_undisturbed :
    ¬ ∀ (sort : SortFn Mess) (uid : String) (snaps : List Json) (snap : Json),
      (∀ r ∈ snap :: snaps, WellFormedMess r) → Undisturbed sort uid snaps snap := by
  intro h
  have hwf : ∀ r ∈ (MessData.text "dave" "alice" "hey" (NSNumber.ofInt 2)).record :: sameSecond,
      WellFormedMess r := by
    intro r hr
    simp only [sameSecond, List.mem_cons, List.not_mem_nil, or_false] at hr
    rcases hr with rfl | rfl | rfl
    · exact MessData.wellFormedMess_record _
    · exact MessData.wellFormedMess_record _
    · exact MessData.wellFormedMess_record _
  have hties := noTies_of_undisturbed (SortFn.merge_stable Mess) (h _ "alice" _ _ hwf)
  exact hties "bob" "carol" _ _ (by decide) (by decide) (by decide) rfl rfl (by decide)

end Inbox
end AppChatAgain
