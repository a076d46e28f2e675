import AppChatAgain.Chat.Observers

/-!
# Chat.Isolation — which messages a chat shows

A chat is opened for one partner (`screen.user`), but `get_mess_from_firebase` observes every
partner of the signed-in user and appends whatever is delivered.  So the chat of `P` shows
messages between the user and `P` only if the user's index holds no others.
-/

namespace AppChatAgain
namespace Chat

open Foundation Firebase Records

/-- Every message on the screen was exchanged between `u` and `p`. -/
def Isolated (u p : String) (c : ChatCollect) : Prop :=
  ∀ m ∈ c.arrayMess, m.Between u p

/-- A callback of a screen that is only ever given the partner `p`, over one of the contents. -/
def Admissible (contents : Set Database) (p : String) (e : Database × Callback) : Prop :=
  e.1 ∈ contents ∧ ∀ user, e.2 = .userSet user → user.id = p

/-- Every record that a key of `u`'s index names, under whichever partner, is between `u` and
`p`. -/
def OnlyPartner (contents : Set Database) (u p : String) : Prop :=
  ∀ db ∈ contents, ∀ db' ∈ contents, ∀ q k m,
    db.indexed u q k = true → messOfChatSnapshot (db'.mess k) = .ok m → m.Between u p

/-! ## The invariant of the observers -/

/-- The screen observes messages of `u`'s index, and shows the ones delivered. -/
structure Watching (contents : Set Database) (u : String) (c : ChatCollect) : Prop where
  tableMess : c.tableMess = some u
  messKeys : ∀ k ∈ c.messKeys, ∃ db ∈ contents, ∃ q, db.indexed u q k = true
  arrayMess : ∀ m ∈ c.arrayMess, ∃ db ∈ contents, ∃ db' ∈ contents, ∃ q k,
    db.indexed u q k = true ∧ messOfChatSnapshot (db'.mess k) = .ok m

theorem watching_viewDidLoad (contents : Set Database) (u : String) (user : Option User) :
    Watching contents u (.viewDidLoad user (some u)) where
  tableMess := rfl
  messKeys := by
    intro k hk
    simp [ChatCollect.viewDidLoad] at hk
  arrayMess := by
    intro m hm
    simp [ChatCollect.viewDidLoad] at hm

theorem Watching.step {contents : Set Database} {u : String} {c c' : ChatCollect}
    {e : Database × Callback} (h : Watching contents u c) (hs : step c e = some c')
    (he : e.1 ∈ contents) : Watching contents u c' := by
  rcases e with ⟨db, cb⟩
  rcases step_cases hs with ⟨uid, p, rfl, hu, hp, rfl⟩ | ⟨uid, p, k, rfl, hu, hp, hk, rfl⟩ |
    ⟨k, m, rfl, hk, hm, rfl⟩ | ⟨user, rfl, rfl⟩
  · exact ⟨h.tableMess, h.messKeys, h.arrayMess⟩
  · -- the new key is one of `u`'s index, whoever the partner is
    have huid : uid = u := Option.some.inj (hu.symm.trans h.tableMess)
    subst huid
    refine ⟨h.tableMess, ?_, h.arrayMess⟩
    intro j hj
    rcases List.mem_cons.1 hj with rfl | hj
    · exact ⟨db, he, p, hk⟩
    · exact h.messKeys j hj
  · -- the message that is appended is decoded from the record of an observed key
    rcases h.messKeys k hk with ⟨db₀, hdb₀, q, hidx⟩
    refine ⟨h.tableMess, h.messKeys, ?_⟩
    intro m' hm'
    rcases List.mem_append.1 hm' with hold | hnew
    · exact h.arrayMess m' hold
    · have heq : m' = m := by simpa using hnew
      subst heq
      exact ⟨db₀, hdb₀, db, he, q, k, hidx, hm⟩
  · exact ⟨h.tableMess, h.messKeys, h.arrayMess⟩

/-- The shortest way to a message: its partner, its key and its value are called back. -/
theorem run_show {db db' : Database} {u q k : String} {m : Mess} (hidx : db.indexed u q k = true)
    (hm : messOfChatSnapshot (db'.mess k) = .ok m) (user : Option User) :
    ∃ c, Step.run step (.viewDidLoad user (some u))
      [(db, .partnerAdded q), (db, .messAdded q k), (db', .messValue k)] = some c ∧
        c.arrayMess = [m] := by
  have hval : ∀ c : ChatCollect,
      c.valueMess (db'.mess k) = .ok { c with arrayMess := c.arrayMess ++ [m] } := by
    intro c
    exact ChatCollect.valueMess_eq_ok.2 ⟨m, hm, rfl⟩
  simp [Step.run, step, ChatCollect.viewDidLoad, db.hasPartner_of_indexed hidx, hidx, hval,
    Except.toOption]

/-! ## Isolation -/

/-- The chat opened for the partner `p` is isolated in every run over the given database contents
exactly when the user's index holds messages with that partner only, whether the screen has been
given its partner before it is loaded, or is only given it then. -/
theorem isolated_iff_onlyPartner (contents : Set Database) (u p : String) (user : Option User) :
    (∀ es c, (∀ e ∈ es, Admissible contents p e) →
      Step.run step (.viewDidLoad user (some u)) es = some c → Isolated u p c) ↔
        OnlyPartner contents u p := by
  constructor
  · -- any such record can be brought to the screen
    intro h db hdb db' hdb' q k m hidx hm
    rcases run_show hidx hm user with ⟨c, hrun, harr⟩
    have hadm : ∀ e ∈ [(db, Callback.partnerAdded q), (db, .messAdded q k), (db', .messValue k)],
        Admissible contents p e := by
      intro e he
      simp only [List.mem_cons, List.not_mem_nil, or_false] at he
      rcases he with rfl | rfl | rfl
      · exact ⟨hdb, fun _ hcb => by cases hcb⟩
      · exact ⟨hdb, fun _ hcb => by cases hcb⟩
      · exact ⟨hdb', fun _ hcb => by cases hcb⟩
    exact h _ c hadm hrun m (by simp [harr])
  · -- and nothing else can be
    intro h es c hadm hrun m hm
    have hwatch : Watching contents u c :=
      Step.run_invariant_of_along (T := fun _ e _ => Admissible contents p e)
        (fun _ _ _ hw hs he => hw.step hs he.1) (watching_viewDidLoad contents u user)
        (Step.along_of_forall_mem hadm _) hrun
    rcases hwatch.arrayMess m hm with ⟨db, hdb, db', hdb', q, k, hidx, hdec⟩
    exact h db hdb db' hdb' q k m hidx hdec

/-- Over an index whose entries name messages with the partner they stand under, the condition
says that the user has no other partner. -/
theorem onlyPartner_iff_of_sound {db : Database} {u p : String}
    (hsound : ∀ q k, db.indexed u q k = true →
      ∃ m, messOfChatSnapshot (db.mess k) = .ok m ∧ m.Between u q) :
    OnlyPartner {db} u p ↔ ∀ q k, db.indexed u q k = true → q = p := by
  constructor
  · intro h q k hidx
    rcases hsound q k hidx with ⟨m, hm, hbetween⟩
    have hp : m.Between u p := h db rfl db rfl q k m hidx hm
    calc
      q = m.getPartnerId (some u) := hbetween.getPartnerId.symm
      _ = p := hp.getPartnerId
  · rintro h db₁ rfl db₂ rfl q k m hidx hm
    rcases hsound q k hidx with ⟨m', hm', hbetween⟩
    have heq : m = m' := Except.ok.inj (hm.symm.trans hm')
    have hq : q = p := h q k hidx
    subst heq
    subst hq
    exact hbetween

/-! ## Two conversations in one chat -/

/-- Alice has one message to Bob and one from Carol. -/
def twoPartners : Database :=
  let db : Database := .empty
  let db := db.updateMess "k1" (MessData.text "alice" "bob" "hi bob" (NSNumber.ofInt 1)).fields
  let db := (db.addIndex "alice" "bob" "k1").addIndex "bob" "alice" "k1"
  let db := db.updateMess "k2" (MessData.text "carol" "alice" "hi alice" (NSNumber.ofInt 2)).fields
  (db.addIndex "carol" "alice" "k2").addIndex "alice" "carol" "k2"

def bob : User :=
  { id := "bob", name := "Bob", email := "bob@chat", pass := "secret", avatarUrl := "" }

/-- Bob's chat shows Carol's message. -/
theorem chat_not_isolated :
    ¬ ∀ (db : Database) (u : String) (user : User) (es : List Callback) (c : ChatCollect),
      Step.run step (.viewDidLoad (some user) (some u)) (es.map fun cb => (db, cb)) = some c →
        (∀ usr, .userSet usr ∈ es → usr.id = user.id) → Isolated u user.id c := by
  intro h
  have hidx : twoPartners.indexed "alice" "carol" "k2" = true := by decide
  have hm : messOfChatSnapshot (twoPartners.mess "k2") =
      .ok (MessData.text "carol" "alice" "hi alice" (NSNumber.ofInt 2)).toMess := rfl
  rcases run_show hidx hm (some bob) with ⟨c, hrun, harr⟩
  have hiso := h twoPartners "alice" bob
    [.partnerAdded "carol", .messAdded "carol" "k2", .messValue "k2"] c hrun (by simp)
  exact absurd (hiso _ (harr ▸ List.mem_singleton_self _)) (by decide)

end Chat
end AppChatAgain
