import AppChatAgain.Foundation.KeyedLog
import AppChatAgain.Chat.Observers

/-!
# Chat.Transcript — what the value callbacks leave in `array_mess`

Every value callback appends, whatever key it is for and whatever its timestamp.  The transcript
is therefore the list of deliveries itself:

* it has one entry for each message exactly when no key is delivered twice;
* it is chronological exactly when the deliveries are.
-/

namespace AppChatAgain
namespace Chat

open Foundation Firebase Records

/-! ## Deliveries -/

/-- A value callback for a key with a record that the chat decodes. -/
structure Delivery where
  key : String
  snap : Json
  mess : Mess
  decodes : messOfChatSnapshot snap = .ok mess

namespace Delivery

/-- The delivery of a record that the app wrote. -/
def ofData (key : String) (d : MessData) : Delivery :=
  { key := key
    snap := d.record
    mess := d.toMess
    decodes := d.messOfChatSnapshot_record }

/-- Exactly the well-formed records can be delivered. -/
theorem exists_snap_iff {key : String} {snap : Json} :
    (∃ d : Delivery, d.key = key ∧ d.snap = snap) ↔ WellFormedMess snap := by
  constructor
  · rintro ⟨d, _, rfl⟩
    exact exists_messOfChatSnapshot_iff.1 ⟨d.mess, d.decodes⟩
  · intro h
    rcases exists_messOfChatSnapshot_iff.2 h with ⟨m, hm⟩
    exact ⟨⟨key, snap, m, hm⟩, rfl, rfl⟩

end Delivery

/-- The value callbacks for the deliveries, in order. -/
def deliver (c : ChatCollect) (ds : List Delivery) : Except Trap ChatCollect :=
  ds.foldlM (fun c d => c.valueMess d.snap) c

/-- The versions of the messages that were delivered, by key. -/
def versions (ds : List Delivery) : List (String × Mess) :=
  ds.map fun d => (d.key, d.mess)

@[simp] theorem map_fst_versions (ds : List Delivery) :
    (versions ds).map Prod.fst = ds.map Delivery.key := by
  simp [versions, Function.comp_def]

@[simp] theorem map_snd_versions (ds : List Delivery) :
    (versions ds).map Prod.snd = ds.map Delivery.mess := by
  simp [versions, Function.comp_def]

/-- Deliveries never trap, and append their messages. -/
theorem deliver_eq (c : ChatCollect) (ds : List Delivery) :
    deliver c ds = .ok { c with arrayMess := c.arrayMess ++ ds.map Delivery.mess } := by
  induction ds generalizing c with
  | nil => simp [deliver, pure, Except.pure]
  | cons d ds ih =>
      have hval : c.valueMess d.snap = .ok { c with arrayMess := c.arrayMess ++ [d.mess] } :=
        ChatCollect.valueMess_eq_ok.2 ⟨d.mess, d.decodes, rfl⟩
      have hrest := ih { c with arrayMess := c.arrayMess ++ [d.mess] }
      have hfirst : deliver c (d :: ds) =
          deliver { c with arrayMess := c.arrayMess ++ [d.mess] } ds := by
        simp [deliver, hval, bind, Except.bind]
      simpa [hfirst, List.append_assoc] using hrest

/-- A screen that has just been opened shows the deliveries. -/
theorem deliver_viewDidLoad (user : Option User) (uid : Option String) (ds : List Delivery) :
    deliver (.viewDidLoad user uid) ds =
      .ok { ChatCollect.viewDidLoad user uid with arrayMess := ds.map Delivery.mess } := by
  simp [deliver_eq, ChatCollect.viewDidLoad]

/-! ## Runs of the observers are deliveries -/

/-- The snapshot that an event hands to the value callback of a key. -/
def valueSnapshot : Database × Callback → Option (String × Json)
  | (db, .messValue k) => some (k, db.mess k)
  | _ => none

/-- In every run of the three observers, the screen shows the deliveries of the run. -/
theorem run_transcript {user : Option User} {uid : Option String} {c : ChatCollect}
    {es : List (Database × Callback)}
    (hrun : Step.run step (.viewDidLoad user uid) es = some c) :
    ∃ ds : List Delivery, ds.map (fun d => (d.key, d.snap)) = es.filterMap valueSnapshot ∧
      c.arrayMess = ds.map Delivery.mess := by
  refine Step.run_history (P := fun es c => ∃ ds : List Delivery,
    ds.map (fun d => (d.key, d.snap)) = es.filterMap valueSnapshot ∧
      c.arrayMess = ds.map Delivery.mess) ⟨[], rfl, rfl⟩ ?_ hrun
  intro es e c₁ c₂ _ h hstep
  rcases e with ⟨db, cb⟩
  rcases h with ⟨ds, hds, harr⟩
  rcases step_cases hstep with ⟨uid, p, rfl, _, _, rfl⟩ | ⟨uid, p, k, rfl, _, _, _, rfl⟩ |
    ⟨k, m, rfl, _, hm, rfl⟩ | ⟨user, rfl, rfl⟩
  · exact ⟨ds, by simp [hds, valueSnapshot], harr⟩
  · exact ⟨ds, by simp [hds, valueSnapshot], harr⟩
  · exact ⟨ds ++ [⟨k, db.mess k, m, hm⟩], by simp [hds, valueSnapshot], by simp [harr]⟩
  · exact ⟨ds, by simp [hds, valueSnapshot], harr⟩

/-! ## One entry for each message -/

/-- The screen shows the latest version of every message delivered, each message once. -/
def OneEach (ds : List Delivery) (c : ChatCollect) : Prop :=
  c.arrayMess.Perm (KeyedLog.current (versions ds))

/-- After every callback each message is on the screen once, in its latest version, exactly when
no key is ever delivered again. -/
theorem oneEach_iff_nodup (user : Option User) (uid : Option String) (ds : List Delivery) :
    (∀ n, ∃ c, deliver (.viewDidLoad user uid) (ds.take n) = .ok c ∧ OneEach (ds.take n) c) ↔
      (ds.map Delivery.key).Nodup := by
  -- for one list of deliveries, it is a fact about keyed logs
  have hone : ∀ ds' : List Delivery,
      (∃ c, deliver (.viewDidLoad user uid) ds' = .ok c ∧ OneEach ds' c) ↔
        (ds'.map Delivery.key).Nodup := by
    intro ds'
    have hperm : (ds'.map Delivery.mess).Perm (KeyedLog.current (versions ds')) ↔
        (ds'.map Delivery.key).Nodup := by
      simpa using KeyedLog.perm_current_iff (versions ds')
    simpa [deliver_viewDidLoad, OneEach] using hperm
  constructor
  · intro h
    have hall := (hone _).1 (h ds.length)
    simpa using hall
  · intro hnd n
    refine (hone _).2 (hnd.sublist ?_)
    exact (List.take_sublist n ds).map _

/-- One message, whose observer is called back a second time. -/
def redelivered : List Delivery :=
  [.ofData "k1" (.text "alice" "bob" "hi bob" (NSNumber.ofInt 1)),
    .ofData "k1" (.text "alice" "bob" "hi bob" (NSNumber.ofInt 1))]

/-- The chat then shows it twice. -/
theorem redelivered_not_oneEach :
    ¬ ∀ (user : Option User) (uid : Option String) (ds : List Delivery) (n : ℕ),
      ∃ c, deliver (.viewDidLoad user uid) (ds.take n) = .ok c ∧ OneEach (ds.take n) c := by
  intro h
  rcases h none (some "alice") redelivered 2 with ⟨c, hc, hone⟩
  have hlen := hone.length_eq
  simp only [deliver_viewDidLoad] at hc
  cases hc
  exact absurd hlen (by decide)

/-! ## Chronological order -/

/-- Earlier entries are not newer than later ones. -/
def Chronological (c : ChatCollect) : Prop :=
  c.arrayMess.Pairwise fun m m' => m.timestamp.value ≤ m'.timestamp.value

/-- The item the screen scrolls to, at index `array_mess.count - 1`, is a newest message. -/
def ScrollsToNewest (c : ChatCollect) : Prop :=
  ∀ l, c.arrayMess[c.arrayMess.length - 1]? = some l →
    ∀ m ∈ c.arrayMess, m.timestamp.value ≤ l.timestamp.value

/-- No delivery is older than one before it. -/
def InOrder (ds : List Delivery) : Prop :=
  ds.Pairwise fun d d' => d.mess.timestamp.value ≤ d'.mess.timestamp.value

/-- No two deliveries have the same timestamp. -/
def DistinctTimes (ds : List Delivery) : Prop :=
  ∀ d ∈ ds, ∀ d' ∈ ds, d.mess.timestamp.value = d'.mess.timestamp.value → d = d'

theorem Chronological.scrollsToNewest {c : ChatCollect} (h : Chronological c) :
    ScrollsToNewest c := by
  intro l hl m hm
  have hne : c.arrayMess ≠ [] := List.ne_nil_of_mem hm
  have hlast : c.arrayMess.getLast hne = l := by
    have hget : c.arrayMess.getLast? = some l := List.getLast?_eq_getElem?.trans hl
    simpa [List.getLast?_eq_getLast_of_ne_nil hne] using hget
  -- the list is its initial part and its last element
  have hsplit : c.arrayMess = c.arrayMess.dropLast ++ [l] := by
    simpa [hlast] using (List.dropLast_append_getLast hne).symm
  have hpw : (c.arrayMess.dropLast ++ [l]).Pairwise
      fun m m' => m.timestamp.value ≤ m'.timestamp.value := by
    simpa only [← hsplit, Chronological] using h
  have hm' : m ∈ c.arrayMess.dropLast ++ [l] := by
    simpa only [← hsplit] using hm
  rcases List.mem_append.1 hm' with hinit | hend
  · exact (List.pairwise_append.1 hpw).2.2 m hinit l (by simp)
  · exact le_of_eq (congrArg (fun m => m.timestamp.value) (List.mem_singleton.1 hend))

theorem chronological_deliver_iff (user : Option User) (uid : Option String)
    (ds : List Delivery) :
    (∃ c, deliver (.viewDidLoad user uid) ds = .ok c ∧ Chronological c ∧ ScrollsToNewest c) ↔
      InOrder ds := by
  simp only [deliver_viewDidLoad]
  constructor
  · rintro ⟨c, hc, hchron, _⟩
    cases hc
    have hpw : (ds.map Delivery.mess).Pairwise
        fun m m' => m.timestamp.value ≤ m'.timestamp.value := hchron
    simpa only [InOrder, List.pairwise_map] using hpw
  · intro h
    have hchron : Chronological
        { ChatCollect.viewDidLoad user uid with arrayMess := ds.map Delivery.mess } :=
      List.pairwise_map.2 h
    exact ⟨_, rfl, hchron, hchron.scrollsToNewest⟩

/-- Deliveries in order of distinct timestamps are determined by what is delivered. -/
theorem eq_of_inOrder {ds ds' : List Delivery} (hp : ds.Perm ds') (hd : DistinctTimes ds)
    (h : InOrder ds) (h' : InOrder ds') : ds = ds' := by
  apply List.Perm.eq_of_pairwise _ h h' hp
  intro d d' hmem hmem' hle hge
  exact hd d hmem d' (hp.mem_iff.2 hmem') (le_antisymm hle hge)

/-- The transcript is chronological after every callback exactly when the deliveries come in
order; orders of delivery that do, of records with distinct timestamps, give one transcript. -/
theorem transcript_chronological_iff (user : Option User) (uid : Option String)
    (ds : List Delivery) :
    ((∀ n, ∃ c, deliver (.viewDidLoad user uid) (ds.take n) = .ok c ∧
        Chronological c ∧ ScrollsToNewest c) ↔ InOrder ds) ∧
      ∀ ds' : List Delivery, ds.Perm ds' → DistinctTimes ds → InOrder ds → InOrder ds' →
        deliver (.viewDidLoad user uid) ds = deliver (.viewDidLoad user uid) ds' := by
  refine ⟨⟨?_, ?_⟩, ?_⟩
  · intro h
    have hall := (chronological_deliver_iff user uid _).1 (h ds.length)
    simpa using hall
  · intro h n
    exact (chronological_deliver_iff user uid _).2 (h.sublist (List.take_sublist n ds))
  · intro ds' hp hd h h'
    rw [eq_of_inOrder hp hd h h']

/-- Two messages, the newer one delivered first. -/
def newestFirst : List Delivery :=
  [.ofData "k2" (.text "bob" "alice" "second" (NSNumber.ofInt 2)),
    .ofData "k1" (.text "alice" "bob" "first" (NSNumber.ofInt 1))]

/-- The chat then shows the newer message above the older one. -/
theorem newestFirst_not_chronological :
    ¬ ∀ (user : Option User) (uid : Option String) (ds : List Delivery),
      (ds.map Delivery.key).Nodup → ∀ n, ∃ c,
        deliver (.viewDidLoad user uid) (ds.take n) = .ok c ∧
          Chronological c ∧ ScrollsToNewest c := by
  intro h
  have hlate := (chronological_deliver_iff none (some "alice") _).1
    (h none (some "alice") newestFirst (by decide) 2)
  have htimes := List.rel_of_pairwise_cons hlate (List.mem_singleton_self _)
  exact absurd htimes (by decide)

end Chat
end AppChatAgain
