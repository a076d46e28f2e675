import AppChatAgain.Foundation.KeyedLog
import AppChatAgain.Inbox.Callback

/-!
# Inbox.Preview — which message a row shows

The callback stores every delivered message as its partner's preview without comparing
timestamps, so a row shows the partner's last *delivered* message.  It is the latest one after
every callback exactly when no delivery is older than another message of the same partner that
was delivered before it.

Messages are older or newer by their timestamps here.  The rows are sorted by whole seconds only,
so where two partners wrote within one second, the order of their rows is not determined.
-/

namespace AppChatAgain
namespace Inbox

open Foundation Firebase Records

/-- The versions of the messages that were delivered, by key. -/
def versions (ds : List Delivery) : List (String × Mess) :=
  ds.map fun d => (d.key, d.mess)

/-- The partner under whom a delivery is filed. -/
def Delivery.partner (d : Delivery) (uid : String) : String :=
  d.mess.getPartnerId (some uid)

/-- Every partner with a delivered message has a row, and its message is at least as new as the
current version of each of the partner's delivered messages. -/
def PreviewIsLatest (uid : String) (ds : List Delivery) (s : MessageController) : Prop :=
  ∀ p, (∃ d ∈ ds, d.partner uid = p) →
    ∃ m, s.messageDictionary.lookup p = some m ∧ m ∈ s.arrayMessage ∧
      ∀ k m', KeyedLog.latest (versions ds) k = some m' → m'.getPartnerId (some uid) = p →
        m'.timestamp.value ≤ m.timestamp.value

/-- No delivery is older than the current version of another message of the same partner. -/
def InOrder (uid : String) (ds : List Delivery) : Prop :=
  ∀ ds₁ d ds₂, ds = ds₁ ++ d :: ds₂ → ∀ k m, k ≠ d.key →
    KeyedLog.latest (versions ds₁) k = some m → m.getPartnerId (some uid) = d.partner uid →
      m.timestamp.value ≤ d.mess.timestamp.value

/-! ## The last delivery of a partner -/

theorem latest_versions_concat (ds : List Delivery) (d : Delivery) (k : String) :
    KeyedLog.latest (versions (ds ++ [d])) k =
      if k = d.key then some d.mess else KeyedLog.latest (versions ds) k := by
  have hsplit : versions (ds ++ [d]) = versions ds ++ [(d.key, d.mess)] := by
    simp [versions]
  simpa [hsplit] using KeyedLog.latest_concat (versions ds) d.key k d.mess

theorem lookup_deliver_concat (sort : SortFn Mess) (uid : String) (ds : List Delivery)
    (d : Delivery) (p : String) :
    (deliver sort uid (ds ++ [d])).messageDictionary.lookup p =
      if p = d.partner uid then some d.mess
      else (deliver sort uid ds).messageDictionary.lookup p := by
  have hvalue := (deliver sort uid ds).lookup_valueMess sort d.values (some uid) d.snap p
  rw [deliver_concat]
  exact hvalue

/-- The message in a partner's row was delivered, with that partner. -/
theorem exists_delivery_of_lookup {sort : SortFn Mess} {uid : String} {ds : List Delivery}
    {p : String} {m : Mess} (h : (deliver sort uid ds).messageDictionary.lookup p = some m) :
    ∃ d ∈ ds, d.mess = m ∧ d.partner uid = p := by
  induction ds using List.reverseRecOn with
  | nil => simp [MessageController.viewDidLoad] at h
  | append_singleton ds d ih =>
      by_cases hp : p = d.partner uid
      · have hm : d.mess = m := by simpa [lookup_deliver_concat, hp] using h
        exact ⟨d, by simp, hm, hp.symm⟩
      · have hold : (deliver sort uid ds).messageDictionary.lookup p = some m := by
          simpa [lookup_deliver_concat, hp] using h
        rcases ih hold with ⟨d', hd', hm, hpd'⟩
        exact ⟨d', List.mem_append_left _ hd', hm, hpd'⟩

/-- A partner with a delivered message has a row. -/
theorem exists_lookup_of_delivery (sort : SortFn Mess) (uid : String) {ds : List Delivery}
    {d : Delivery} (hd : d ∈ ds) :
    ∃ m, (deliver sort uid ds).messageDictionary.lookup (d.partner uid) = some m ∧
      m ∈ (deliver sort uid ds).arrayMessage := by
  have hwf := wf_deliver sort uid ds
  have hmem : d.partner uid ∈ (deliver sort uid ds).messageDictionary :=
    (hwf.keys _).2 ⟨d.mess, List.mem_map.2 ⟨d, hd, rfl⟩, rfl⟩
  rcases Finmap.mem_iff.1 hmem with ⟨m, hm⟩
  have hpartner : m.getPartnerId (some uid) = d.partner uid := hwf.keyed _ m hm
  have hrow : m ∈ (deliver sort uid ds).arrayMessage := by
    apply hwf.mem_arrayMessage.2
    exact hpartner ▸ hm
  exact ⟨m, hm, hrow⟩

/-! ## One delivery -/

/-- A delivery in order keeps the previews the latest. -/
theorem PreviewIsLatest.concat {sort : SortFn Mess} {uid : String} {ds : List Delivery}
    {d : Delivery} (h : PreviewIsLatest uid ds (deliver sort uid ds))
    (hd : ∀ k m, k ≠ d.key → KeyedLog.latest (versions ds) k = some m →
      m.getPartnerId (some uid) = d.partner uid →
        m.timestamp.value ≤ d.mess.timestamp.value) :
    PreviewIsLatest uid (ds ++ [d]) (deliver sort uid (ds ++ [d])) := by
  intro p hp₀
  rcases hp₀ with ⟨d₀, hd₀, rfl⟩
  rcases exists_lookup_of_delivery sort uid hd₀ with ⟨m, hm, hrow⟩
  refine ⟨m, hm, hrow, ?_⟩
  intro k m' hk hp'
  by_cases hp : d₀.partner uid = d.partner uid
  · -- the row shows the new delivery
    have hnew : d.mess = m := by simpa [lookup_deliver_concat, hp] using hm
    by_cases hkey : k = d.key
    · have hself : d.mess = m' := by simpa [latest_versions_concat, hkey] using hk
      have heq : m' = m := hself.symm.trans hnew
      exact le_of_eq (congrArg (fun m => m.timestamp.value) heq)
    · have hold : KeyedLog.latest (versions ds) k = some m' := by
        simpa [latest_versions_concat, hkey] using hk
      -- an older version under another key is what `hd` is about
      have hle : m'.timestamp.value ≤ d.mess.timestamp.value :=
        hd k m' hkey hold (hp'.trans hp)
      simpa [hnew] using hle
  · -- the row and the partner's current versions are those of before
    have hsame : (deliver sort uid ds).messageDictionary.lookup (d₀.partner uid) = some m := by
      simpa [lookup_deliver_concat, hp] using hm
    by_cases hkey : k = d.key
    · have hself : d.mess = m' := by simpa [latest_versions_concat, hkey] using hk
      subst hself
      exact absurd hp'.symm hp
    · have hcurrent : KeyedLog.latest (versions ds) k = some m' := by
        simpa [latest_versions_concat, hkey] using hk
      -- the delivery that gave the partner its row is not the new one
      have hold : d₀ ∈ ds := by
        rcases List.mem_append.1 hd₀ with hmem | hmem
        · exact hmem
        · have heq : d₀ = d := List.mem_singleton.1 hmem
          exact absurd (congrArg (fun e => e.partner uid) heq) hp
      rcases h _ ⟨d₀, hold, rfl⟩ with ⟨m₀, hm₀, _, hle⟩
      have heq : m = m₀ := Option.some.inj (hsame.symm.trans hm₀)
      subst heq
      exact hle k m' hcurrent hp'

/-- What the last delivery must satisfy for the previews to be the latest after it. -/
theorem PreviewIsLatest.last {sort : SortFn Mess} {uid : String} {ds : List Delivery}
    {d : Delivery} (h : PreviewIsLatest uid (ds ++ [d]) (deliver sort uid (ds ++ [d])))
    {k : String} {m : Mess} (hkey : k ≠ d.key) (hk : KeyedLog.latest (versions ds) k = some m)
    (hp : m.getPartnerId (some uid) = d.partner uid) :
    m.timestamp.value ≤ d.mess.timestamp.value := by
  rcases h (d.partner uid) ⟨d, by simp, rfl⟩ with ⟨m₀, hm₀, _, hle⟩
  have hnew : d.mess = m₀ := by simpa [lookup_deliver_concat] using hm₀
  have hcurrent : KeyedLog.latest (versions (ds ++ [d])) k = some m := by
    simpa [latest_versions_concat, hkey] using hk
  have htime : m.timestamp.value ≤ m₀.timestamp.value := hle k m hcurrent hp
  simpa [hnew] using htime

/-! ## All deliveries -/

theorem InOrder.of_append {uid : String} {ds ds' : List Delivery} (h : InOrder uid (ds ++ ds')) :
    InOrder uid ds := by
  intro ds₁ d ds₂ hds
  exact h ds₁ d (ds₂ ++ ds') (by simp [hds])

theorem previewIsLatest_of_inOrder (sort : SortFn Mess) {uid : String} {ds : List Delivery}
    (h : InOrder uid ds) : PreviewIsLatest uid ds (deliver sort uid ds) := by
  induction ds using List.reverseRecOn with
  | nil =>
      rintro p ⟨d, hd, _⟩
      cases hd
  | append_singleton ds d ih => exact (ih h.of_append).concat (h ds d [] rfl)

theorem previewIsLatest_iff (sort : SortFn Mess) (uid : String) (ds : List Delivery) :
    (∀ n, PreviewIsLatest uid (ds.take n) (deliver sort uid (ds.take n))) ↔ InOrder uid ds := by
  constructor
  · intro h ds₁ d ds₂ hds k m hkey hk hp
    -- look at the inbox right after the delivery in question
    have htake : ds.take (ds₁.length + 1) = ds₁ ++ [d] := by
      simp [hds, List.take_length_add_append]
    have hupto : PreviewIsLatest uid (ds₁ ++ [d]) (deliver sort uid (ds₁ ++ [d])) := by
      simpa only [htake] using h (ds₁.length + 1)
    exact hupto.last hkey hk hp
  · intro h n
    have hsplit : InOrder uid (ds.take n ++ ds.drop n) := by
      simpa only [List.take_append_drop] using h
    exact previewIsLatest_of_inOrder sort hsplit.of_append

/-! ## Two orders of delivery -/

/-- Messages with the same timestamp are the same message. -/
def DistinctTimes (ds : List Delivery) : Prop :=
  ∀ d ∈ ds, ∀ d' ∈ ds, d.mess.timestamp.value = d'.mess.timestamp.value → d.mess = d'.mess

/-- So are messages with the same timestamp in whole seconds. -/
def DistinctSeconds (ds : List Delivery) : Prop :=
  ∀ d ∈ ds, ∀ d' ∈ ds, d.mess.time = d'.mess.time → d.mess = d'.mess

/-- A message that is delivered again is delivered unchanged. -/
def OneVersion (ds : List Delivery) : Prop :=
  ∀ d ∈ ds, ∀ d' ∈ ds, d.key = d'.key → d.mess = d'.mess

/-- What is delivered, without the order in which the dictionary is listed meanwhile. -/
def records (ds : List Delivery) : List (String × Json) :=
  ds.map fun d => (d.key, d.snap)

/-- The same records are delivered, in any order and each any number of times. -/
def SameRecords (ds ds' : List Delivery) : Prop :=
  ∀ r, r ∈ records ds ↔ r ∈ records ds'

section TwoOrders

variable {sort : SortFn Mess} {uid : String} {ds ds' : List Delivery}

theorem SameRecords.symm (hs : SameRecords ds ds') : SameRecords ds' ds :=
  fun r => (hs r).symm

theorem SameRecords.exists_mem (hs : SameRecords ds ds') {d : Delivery} (hd : d ∈ ds) :
    ∃ d' ∈ ds', d'.key = d.key ∧ d'.mess = d.mess := by
  have hmem : (d.key, d.snap) ∈ records ds' := (hs _).1 (List.mem_map.2 ⟨d, hd, rfl⟩)
  rcases List.mem_map.1 hmem with ⟨d', hd', heq⟩
  rcases Prod.mk.inj heq with ⟨hkey, hsnap⟩
  exact ⟨d', hd', hkey, congrArg messOfInboxSnapshot hsnap⟩

theorem SameRecords.oneVersion (hs : SameRecords ds ds') (hv : OneVersion ds) :
    OneVersion ds' := by
  intro d hd d' hd' hkey
  rcases hs.symm.exists_mem hd with ⟨e, he, hek, hem⟩
  rcases hs.symm.exists_mem hd' with ⟨e', he', hek', hem'⟩
  have hmess : e.mess = e'.mess := hv e he e' he' (hek.trans (hkey.trans hek'.symm))
  calc
    d.mess = e.mess := hem.symm
    _ = e'.mess := hmess
    _ = d'.mess := hem'

/-- With one version of every message, an in-order preview is a newest message of its partner. -/
theorem le_of_lookup_of_inOrder (hv : OneVersion ds) (h : InOrder uid ds) {d : Delivery}
    (hd : d ∈ ds) {m : Mess}
    (hm : (deliver sort uid ds).messageDictionary.lookup (d.partner uid) = some m) :
    d.mess.timestamp.value ≤ m.timestamp.value := by
  rcases previewIsLatest_of_inOrder sort h _ ⟨d, hd, rfl⟩ with ⟨m₀, hm₀, _, hle⟩
  have heq : m = m₀ := Option.some.inj (hm.symm.trans hm₀)
  subst heq
  have hcurrent : KeyedLog.latest (versions ds) d.key = some d.mess := by
    refine KeyedLog.latest_of_forall_eq (List.mem_map.2 ⟨d, hd, rfl⟩) ?_
    intro m' hm'
    rcases List.mem_map.1 hm' with ⟨d', hd', heq⟩
    rcases Prod.mk.inj heq with ⟨hkey, rfl⟩
    exact hv d' hd' d hd hkey
  exact hle d.key d.mess hcurrent rfl

theorem lookup_le_lookup (hs : SameRecords ds ds') (hv' : OneVersion ds')
    (h' : InOrder uid ds') {p : String} {m m' : Mess}
    (hm : (deliver sort uid ds).messageDictionary.lookup p = some m)
    (hm' : (deliver sort uid ds').messageDictionary.lookup p = some m') :
    m.timestamp.value ≤ m'.timestamp.value := by
  rcases exists_delivery_of_lookup hm with ⟨d, hd, rfl, rfl⟩
  rcases hs.exists_mem hd with ⟨d', hd', _, hmess⟩
  have hpartner : d'.partner uid = d.partner uid := by simp only [Delivery.partner, hmess]
  have hlookup : (deliver sort uid ds').messageDictionary.lookup (d'.partner uid) = some m' :=
    hpartner ▸ hm'
  have hle : d'.mess.timestamp.value ≤ m'.timestamp.value :=
    le_of_lookup_of_inOrder hv' h' hd' hlookup
  simpa [hmess] using hle

/-- Both orders end with the same message for a partner: neither is older than the other. -/
theorem lookup_eq_of_inOrder (hs : SameRecords ds ds') (hv : OneVersion ds)
    (hd : DistinctTimes ds) (h : InOrder uid ds) (h' : InOrder uid ds') {p : String} {m m' : Mess}
    (hm : (deliver sort uid ds).messageDictionary.lookup p = some m)
    (hm' : (deliver sort uid ds').messageDictionary.lookup p = some m') : m = m' := by
  have htime : m.timestamp.value = m'.timestamp.value :=
    le_antisymm (lookup_le_lookup hs (hs.oneVersion hv) h' hm hm')
      (lookup_le_lookup hs.symm hv h hm' hm)
  rcases exists_delivery_of_lookup hm with ⟨d, hmem, rfl, _⟩
  rcases exists_delivery_of_lookup hm' with ⟨d', hmem', rfl, _⟩
  -- `d'` was delivered in the first order too
  rcases hs.symm.exists_mem hmem' with ⟨d'', hmem'', _, hmess⟩
  have heq : d.mess = d''.mess := hd d hmem d'' hmem'' (by simp only [htime, hmess])
  exact heq.trans hmess

theorem exists_lookup_of_sameRecords (hs : SameRecords ds ds') {p : String} {m : Mess}
    (hm : (deliver sort uid ds).messageDictionary.lookup p = some m) :
    ∃ m', (deliver sort uid ds').messageDictionary.lookup p = some m' := by
  rcases exists_delivery_of_lookup hm with ⟨d, hd, _, rfl⟩
  rcases hs.exists_mem hd with ⟨d', hd', _, hmess⟩
  rcases exists_lookup_of_delivery sort uid hd' with ⟨m', hm', _⟩
  have hpartner : d'.partner uid = d.partner uid := by simp only [Delivery.partner, hmess]
  exact ⟨m', hpartner ▸ hm'⟩

theorem messageDictionary_eq_of_inOrder (hs : SameRecords ds ds') (hv : OneVersion ds)
    (hd : DistinctTimes ds) (h : InOrder uid ds) (h' : InOrder uid ds') :
    (deliver sort uid ds).messageDictionary = (deliver sort uid ds').messageDictionary := by
  refine Finmap.ext_lookup fun p => ?_
  cases hm : (deliver sort uid ds).messageDictionary.lookup p with
  | some m =>
      rcases exists_lookup_of_sameRecords hs hm with ⟨m', hm'⟩
      have heq : m = m' := lookup_eq_of_inOrder hs hv hd h h' hm hm'
      simp only [hm', heq]
  | none =>
      cases hm' : (deliver sort uid ds').messageDictionary.lookup p with
      | none => rfl
      | some m' =>
          rcases exists_lookup_of_sameRecords hs.symm hm' with ⟨m, hsome⟩
          cases hm.symm.trans hsome

/-- Inboxes with one dictionary have the same rows. -/
theorem arrayMessage_perm_of_messageDictionary_eq
    (hdict : (deliver sort uid ds).messageDictionary = (deliver sort uid ds').messageDictionary) :
    (deliver sort uid ds).arrayMessage.Perm (deliver sort uid ds').arrayMessage := by
  apply Multiset.coe_eq_coe.1
  simp only [(wf_deliver sort uid ds).rows, (wf_deliver sort uid ds').rows, hdict]

/-- They have them in the same order if no two messages fall into one second. -/
theorem deliver_eq_of_distinctSeconds (hd : DistinctSeconds ds)
    (hdict : (deliver sort uid ds).messageDictionary = (deliver sort uid ds').messageDictionary) :
    deliver sort uid ds = deliver sort uid ds' := by
  have hwf := wf_deliver sort uid ds
  have hwf' := wf_deliver sort uid ds'
  have hperm := arrayMessage_perm_of_messageDictionary_eq hdict
  refine MessageController.ext hdict (eq_of_perm_of_decreasing hperm hwf.sorted hwf'.sorted ?_)
  -- rows with one timestamp are one message
  intro m hm m' hm' htime
  rcases exists_delivery_of_lookup (hwf.mem_arrayMessage.1 hm) with ⟨d, hmem, rfl, _⟩
  rcases exists_delivery_of_lookup (hwf.mem_arrayMessage.1 hm') with ⟨d', hmem', rfl, _⟩
  exact hd d hmem d' hmem' htime

end TwoOrders

/-! ## The preview law -/

/-- The previews are the latest after every callback exactly when the deliveries come in order.
In-order deliveries of the same records, with distinct timestamps, end with the same message for
every partner and the same rows, which stand in the same order if no two messages fall into one
second. -/
theorem previewIsLatest_iff_inOrder (sort : SortFn Mess) (uid : String) (ds : List Delivery) :
    ((∀ n, PreviewIsLatest uid (ds.take n) (deliver sort uid (ds.take n))) ↔ InOrder uid ds) ∧
      ∀ ds' : List Delivery, SameRecords ds ds' → OneVersion ds → DistinctTimes ds →
        InOrder uid ds → InOrder uid ds' →
          (deliver sort uid ds).messageDictionary = (deliver sort uid ds').messageDictionary ∧
            (deliver sort uid ds).arrayMessage.Perm (deliver sort uid ds').arrayMessage ∧
              (DistinctSeconds ds → deliver sort uid ds = deliver sort uid ds') := by
  refine ⟨previewIsLatest_iff sort uid ds, ?_⟩
  intro ds' hs hv hd h h'
  have hdict : (deliver sort uid ds).messageDictionary = (deliver sort uid ds').messageDictionary :=
    messageDictionary_eq_of_inOrder hs hv hd h h'
  exact ⟨hdict, arrayMessage_perm_of_messageDictionary_eq hdict,
    fun hseconds => deliver_eq_of_distinctSeconds hseconds hdict⟩

/-- The delivery of a record that the app wrote. -/
def Delivery.ofData (key : String) (d : MessData) : Delivery :=
  { key := key
    snap := d.record
    values := .byKey }

/-- Two messages with Bob, the older one delivered last. -/
def olderLast : List Delivery :=
  [.ofData "k2" (.text "bob" "alice" "second" (NSNumber.ofInt 2)),
    .ofData "k1" (.text "alice" "bob" "first" (NSNumber.ofInt 1))]

/-- Bob's row then shows the older one. -/
theorem olderLast_not_previewIsLatest :
    ¬ ∀ (sort : SortFn Mess) (uid : String) (ds : List Delivery),
      (∀ d ∈ ds, WellFormedMess d.snap) → ∀ n,
        PreviewIsLatest uid (ds.take n) (deliver sort uid (ds.take n)) := by
  intro h
  have hwf : ∀ d ∈ olderLast, WellFormedMess d.snap := by
    intro d hd
    simp only [olderLast, List.mem_cons, List.not_mem_nil, or_false] at hd
    rcases hd with rfl | rfl
    · exact MessData.wellFormedMess_record _
    · exact MessData.wellFormedMess_record _
  have hall := (previewIsLatest_iff (SortFn.merge Mess) "alice" olderLast).1
    (h (SortFn.merge Mess) "alice" olderLast hwf)
  have hle := hall [.ofData "k2" (.text "bob" "alice" "second" (NSNumber.ofInt 2))]
    (.ofData "k1" (.text "alice" "bob" "first" (NSNumber.ofInt 1))) [] rfl "k2" _ (by decide) rfl
    rfl
  exact absurd hle (by decide)

end Inbox
end AppChatAgain
