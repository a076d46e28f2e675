import AppChatAgain.Chat.Observers
import AppChatAgain.Send.View

/-!
# Chat.Windows — the chats of every client over one database

A *window* is a `chat_collect` screen together with its observers.  Firebase calls a `childAdded`
observer once for each child, and once more if the child was taken back and has come again, and a
`value` observer once when it is registered and again whenever the value changes.  What is there is
what the client of the window sees.  A call is *due* if it is one of these and has not been made.

* `Window`     : a screen and its observers;
* `windowStep` : the world, with the due calls of every chat opened so far;
* `Tracks`     : the invariant, which says what a window holds of the database.
-/

namespace AppChatAgain
namespace Chat

open Foundation Firebase Records

/-! ## Windows -/

/-- An observer of `usermess/<uid>/<partner>`, with the children that it was called for. -/
structure PartnerObserver where
  partner : String
  told : List String

/-- An observer of `mess/<key>`, with the value that it was called with last. -/
structure MessObserver where
  key : String
  told : Option Json

structure Window where
  client : ℕ
  chat : ChatCollect
  /-- the children of `usermess/<uid>` that its observer was called for -/
  told : List String
  /-- the observers that its callbacks have registered, the newest first -/
  partners : List PartnerObserver
  messages : List MessObserver

/-- A call of Firebase, to the observer of `usermess/<uid>` or to the `j`-th one of the others. -/
inductive Call where
  | partnerAdded (keyPartner : String)
  | messAdded (j : ℕ) (keyMess : String)
  | messValue (j : ℕ)

namespace Window

/-- The screen when it is loaded. -/
def viewDidLoad (client : ℕ) (user : Option User) (currentUid : Option String) : Window :=
  { client := client
    chat := .viewDidLoad user currentUid
    told := []
    partners := []
    messages := [] }

variable (view : Database) (win : Window)

def hasPartner (p : String) : Bool :=
  win.chat.tableMess.any (view.hasPartner · p)

def indexed (p k : String) : Bool :=
  win.chat.tableMess.any (view.indexed · p k)

/-- Firebase still has to make the call. -/
def Due : Call → Prop
  | .partnerAdded p => p ∉ win.told ∧ win.hasPartner view p = true
  | .messAdded j k => ∃ o ∈ win.partners[j]?, k ∉ o.told ∧ win.indexed view o.partner k = true
  | .messValue j => ∃ o ∈ win.messages[j]?, o.told ≠ some (view.mess o.key)

instance : ∀ call, Decidable (win.Due view call)
  | .partnerAdded _ => inferInstanceAs (Decidable (_ ∧ _))
  | .messAdded _ _ => inferInstanceAs (Decidable (∃ o ∈ _, _))
  | .messValue _ => inferInstanceAs (Decidable (∃ o ∈ _, _))

/-- The callback that is called. -/
def callback : Call → Option Callback
  | .partnerAdded p => some (.partnerAdded p)
  | .messAdded j k => win.partners[j]?.map fun o => .messAdded o.partner k
  | .messValue j => win.messages[j]?.map fun o => .messValue o.key

/-- The call has been made, and its callback has registered its observer. -/
def note : Call → Window
  | .partnerAdded p => { win with told := p :: win.told, partners := ⟨p, []⟩ :: win.partners }
  | .messAdded j k =>
      { win with
        partners := win.partners.modify j fun o => { o with told := k :: o.told }
        messages := ⟨k, none⟩ :: win.messages }
  | .messValue j =>
      { win with
        messages := win.messages.modify j fun o => { o with told := some (view.mess o.key) } }

/-- The window after its client has come to see `view`.  The app is not told what was taken back: it
has no `childRemoved` observer. -/
def notice : Window :=
  { win with
    told := win.told.filter (win.hasPartner view)
    partners := win.partners.map fun o =>
      { o with told := o.told.filter (win.indexed view o.partner) } }

/-- Nothing that Firebase has to tell the window is left. -/
def CaughtUp : Prop :=
  ∀ call, ¬ win.Due view call

end Window

/-! ## The system -/

structure Windows where
  world : Send.World
  /-- every chat opened so far: the observers keep a chat alive after the screen has left -/
  windows : List Window

namespace Windows

def init : Windows :=
  { world := .init
    windows := [] }

variable (s : Windows)

/-- The realtime database. -/
def db : Database :=
  s.world.store.db

/-- What the client sees of it. -/
def view (c : ℕ) : Database :=
  s.world.store.view c

/-- A callback of the `n`-th window, if its client still runs. -/
def react (n : ℕ) (f : Window → Option Window) : Option Windows :=
  match s.windows[n]? with
  | none => none
  | some win =>
      if (s.world.clients win.client).running then
        (f win).map fun win' => { s with windows := s.windows.set n win' }
      else none

end Windows

/-- What happens to the chats; the world takes its own steps. -/
inductive WindowEvent where
  | world (e : Send.Event)
  /-- the `i`-th chat that client `c` has opened is loaded -/
  | viewDidLoad (c i : ℕ)
  | call (n : ℕ) (call : Call)
  /-- `screen.user = user`, from the screen that opened the chat -/
  | userSet (n : ℕ) (user : User)

/-- One event.  A callback that traps is no step; `progress` shows that there is none. -/
def windowStep : Step Windows WindowEvent
  | s, .world e =>
      (Send.step s.world e).map fun w =>
        { world := w
          windows := s.windows.map fun win => win.notice (w.store.view win.client) }
  | s, .viewDidLoad c i =>
      match (s.world.clients c).screens[i]? with
      | none => none
      | some screen =>
          if (s.world.clients c).running then
            some { s with windows := s.windows ++
              [.viewDidLoad c screen.user (s.world.clients c).currentUid] }
          else none
  | s, .call n call =>
      s.react n fun win =>
        if win.Due (s.view win.client) call then
          (win.callback call).bind fun cb =>
            (step win.chat (s.view win.client, cb)).map fun chat =>
              { win.note (s.view win.client) call with chat := chat }
        else none
  | s, .userSet n user =>
      s.react n fun win =>
        (step win.chat (s.db, .userSet user)).map fun chat => { win with chat := chat }

/-! ## What an event does -/

/-- An element of a list, and the list with it modified. -/
theorem exists_modify_eq {α : Type*} {l : List α} {j : ℕ} {a : α} (h : l[j]? = some a)
    (f : α → α) : ∃ l₁ l₂, l = l₁ ++ a :: l₂ ∧ l.modify j f = l₁ ++ f a :: l₂ := by
  induction l generalizing j with
  | nil => simp at h
  | cons b l ih =>
      cases j with
      | zero =>
          obtain rfl : b = a := by simpa using h
          exact ⟨[], l, rfl, by simp⟩
      | succ j =>
          rcases ih (by simpa using h) with ⟨l₁, l₂, hl, hmodify⟩
          exact ⟨b :: l₁, l₂, by simp [hl], by simp [hmodify]⟩

/-- What a call does to a window of `uid`. -/
inductive Called (view : Database) (uid : String) (win : Window) : Call → Window → Prop
  | partnerAdded (p : String) (hnew : p ∉ win.told) (hp : view.hasPartner uid p = true) :
      Called view uid win (.partnerAdded p)
        { win with
          chat := { win.chat with tableMessPartner := p :: win.chat.tableMessPartner }
          told := p :: win.told
          partners := ⟨p, []⟩ :: win.partners }
  | messAdded (j : ℕ) (k : String) (os₁ : List PartnerObserver) (o : PartnerObserver)
      (os₂ : List PartnerObserver) (hsplit : win.partners = os₁ ++ o :: os₂) (hnew : k ∉ o.told)
      (hk : view.indexed uid o.partner k = true) :
      Called view uid win (.messAdded j k)
        { win with
          chat := { win.chat with messKeys := k :: win.chat.messKeys }
          partners := os₁ ++ { o with told := k :: o.told } :: os₂
          messages := ⟨k, none⟩ :: win.messages }
  | messValue (j : ℕ) (os₁ : List MessObserver) (o : MessObserver) (os₂ : List MessObserver)
      (m : Mess) (hsplit : win.messages = os₁ ++ o :: os₂)
      (hnew : o.told ≠ some (view.mess o.key))
      (hm : messOfChatSnapshot (view.mess o.key) = .ok m) :
      Called view uid win (.messValue j)
        { win with
          chat := { win.chat with arrayMess := win.chat.arrayMess ++ [m] }
          messages := os₁ ++ { o with told := some (view.mess o.key) } :: os₂ }

/-- Every due call is one of these. -/
theorem called_of_step {view : Database} {uid : String} {win : Window} {call : Call}
    {cb : Callback} {chat : ChatCollect} (huid : win.chat.tableMess = some uid)
    (hdue : win.Due view call) (hcb : win.callback call = some cb)
    (hs : step win.chat (view, cb) = some chat) :
    Called view uid win call { win.note view call with chat := chat } := by
  cases call with
  | partnerAdded p =>
      cases hcb
      rcases step_cases hs with ⟨uid', p', heq, _, hp, rfl⟩ | ⟨_, _, _, heq, _⟩ | ⟨_, _, heq, _⟩ |
        ⟨_, heq, _⟩ <;> cases heq
      exact .partnerAdded p hdue.1 (by simpa [Window.hasPartner, huid] using hdue.2)
  | messAdded j k =>
      rcases hdue with ⟨o, ho, hnew, hk⟩
      simp only [Window.callback, Option.mem_def.1 ho, Option.map_some, Option.some.injEq] at hcb
      subst hcb
      rcases step_cases hs with ⟨_, _, heq, _⟩ | ⟨uid', p', k', heq, _, _, _, rfl⟩ |
        ⟨_, _, heq, _⟩ | ⟨_, heq, _⟩ <;> cases heq
      rcases exists_modify_eq ho fun o => { o with told := k :: o.told } with
        ⟨os₁, os₂, hsplit, hmodify⟩
      simp only [Window.note, hmodify]
      exact .messAdded j k os₁ o os₂ hsplit hnew (by simpa [Window.indexed, huid] using hk)
  | messValue j =>
      rcases hdue with ⟨o, ho, hnew⟩
      simp only [Window.callback, Option.mem_def.1 ho, Option.map_some, Option.some.injEq] at hcb
      subst hcb
      rcases step_cases hs with ⟨_, _, heq, _⟩ | ⟨_, _, _, heq, _⟩ | ⟨k, m, heq, _, hm, rfl⟩ |
        ⟨_, heq, _⟩ <;> cases heq
      rcases exists_modify_eq ho fun o => { o with told := some (view.mess o.key) } with
        ⟨os₁, os₂, hsplit, hmodify⟩
      simp only [Window.note, hmodify]
      exact .messValue j os₁ o os₂ m hsplit hnew hm

/-- Everything an event can do. -/
inductive WindowHappens (s : Windows) : WindowEvent → Windows → Prop
  | world (e : Send.Event) (w : Send.World) (hstep : Send.step s.world e = some w) :
      WindowHappens s (.world e)
        { world := w
          windows := s.windows.map fun win => win.notice (w.store.view win.client) }
  | viewDidLoad (c i : ℕ) (user : Option User) :
      WindowHappens s (.viewDidLoad c i)
        { s with windows := s.windows ++
          [.viewDidLoad c user (s.world.clients c).currentUid] }
  | call (n : ℕ) (call : Call) (win win' : Window) (hn : s.windows[n]? = some win)
      (hrunning : (s.world.clients win.client).running = true)
      (htable : win'.chat.tableMess = win.chat.tableMess) (hclient : win'.client = win.client)
      (hcalled : ∀ uid, win.chat.tableMess = some uid →
        Called (s.view win.client) uid win call win') :
      WindowHappens s (.call n call) { s with windows := s.windows.set n win' }
  | userSet (n : ℕ) (user : User) (win : Window) (hn : s.windows[n]? = some win) :
      WindowHappens s (.userSet n user)
        { s with
          windows := s.windows.set n { win with chat := { win.chat with user := some user } } }

theorem react_eq_some {s s' : Windows} {n : ℕ} {f : Window → Option Window}
    (h : s.react n f = some s') :
    ∃ win win', s.windows[n]? = some win ∧ (s.world.clients win.client).running = true ∧
      f win = some win' ∧ s' = { s with windows := s.windows.set n win' } := by
  cases hn : s.windows[n]? with
  | none => simp [Windows.react, hn] at h
  | some win =>
      simp only [Windows.react, hn, Option.ite_none_right_eq_some, Option.map_eq_some_iff] at h
      rcases h with ⟨hrunning, win', hf, rfl⟩
      exact ⟨win, win', rfl, hrunning, hf, rfl⟩

/-- A screen observes one user's index from its loading on. -/
theorem tableMess_step {c c' : ChatCollect} {e : Database × Callback} (h : step c e = some c') :
    c'.tableMess = c.tableMess := by
  rcases e with ⟨db, cb⟩
  rcases step_cases h with ⟨uid, p, _, _, _, rfl⟩ | ⟨uid, p, k, _, _, _, _, rfl⟩ |
    ⟨k, m, _, _, _, rfl⟩ | ⟨user, _, rfl⟩ <;> rfl

theorem windowHappens_of_step {s s' : Windows} {e : WindowEvent} (h : windowStep s e = some s') :
    WindowHappens s e s' := by
  cases e with
  | world e =>
      rcases Option.map_eq_some_iff.1 h with ⟨w, hstep, rfl⟩
      exact .world e w hstep
  | viewDidLoad c i =>
      cases hi : (s.world.clients c).screens[i]? with
      | none => simp [windowStep, hi] at h
      | some screen =>
          simp only [windowStep, hi, Option.ite_none_right_eq_some, Option.some.injEq] at h
          rcases h with ⟨_, rfl⟩
          exact .viewDidLoad c i screen.user
  | call n call =>
      rcases react_eq_some h with ⟨win, win', hn, hrunning, hf, rfl⟩
      simp only [Option.ite_none_right_eq_some, Option.bind_eq_some_iff,
        Option.map_eq_some_iff] at hf
      rcases hf with ⟨hdue, cb, hcb, chat, hstep, rfl⟩
      refine .call n call win _ hn hrunning (tableMess_step hstep) ?_ fun uid huid =>
        called_of_step huid hdue hcb hstep
      cases call <;> rfl
  | userSet n user =>
      rcases react_eq_some h with ⟨win, win', hn, _, hf, rfl⟩
      rcases Option.map_eq_some_iff.1 hf with ⟨chat, hstep, rfl⟩
      cases hstep
      exact .userSet n user win hn

/-! ## What a window holds of the database -/

/-- The observers of a window are those that its index asks for, and its transcript is what their
value callbacks have delivered, which is what the database still holds.  An observer may outlive its
entry if that is `gone`; if nothing is, every entry has one observer. -/
structure Tracks (s : Send.Store) (gone : String → String → Prop) (uid : String) (win : Window) :
    Prop where
  tableMess : win.chat.tableMess = some uid
  tableMessPartner : win.chat.tableMessPartner = win.partners.map PartnerObserver.partner
  messKeys : win.chat.messKeys = win.messages.map MessObserver.key
  told : ∀ p ∈ win.told, (s.view win.client).hasPartner uid p = true ∧
    p ∈ win.partners.map PartnerObserver.partner
  children : ∀ o ∈ win.partners, o.told.Nodup ∧ ∀ k ∈ o.told,
    (s.view win.client).indexed uid o.partner k = true ∧ k ∈ win.messages.map MessObserver.key
  found : ∀ k ∈ win.messages.map MessObserver.key, ∃ p, Send.RecordOf s.db uid p k ∧
    ((s.view win.client).indexed uid p k = true ∨ gone p k)
  values : ∀ o ∈ win.messages, ∀ v ∈ o.told, v = s.db.mess o.key
  transcript : (win.chat.arrayMess.map Except.ok).Perm
    ((win.messages.filterMap MessObserver.told).map messOfChatSnapshot)
  once : (∀ p k, ¬ gone p k) →
    (win.partners.map PartnerObserver.partner).Nodup ∧ (∀ o ∈ win.partners, o.partner ∈ win.told) ∧
      (win.messages.map MessObserver.key).Perm (win.partners.flatMap PartnerObserver.told)

theorem tracks_viewDidLoad (s : Send.Store) (gone : String → String → Prop) (uid : String) (c : ℕ)
    (user : Option User) : Tracks s gone uid (.viewDidLoad c user (some uid)) where
  tableMess := rfl
  tableMessPartner := rfl
  messKeys := rfl
  told := by simp [Window.viewDidLoad]
  children := by simp [Window.viewDidLoad]
  found := by simp [Window.viewDidLoad]
  values := by simp [Window.viewDidLoad]
  transcript := by simp [Window.viewDidLoad, ChatCollect.viewDidLoad]
  once := by simp [Window.viewDidLoad]

namespace Tracks

variable {s : Send.Store} {gone : String → String → Prop} {uid : String} {win : Window}

/-- What is gone by now was there or gone before. -/
theorem mono {gone' : String → String → Prop} (h : Tracks s gone uid win)
    (hgone : ∀ p k, gone p k → gone' p k) : Tracks s gone' uid win where
  tableMess := h.tableMess
  tableMessPartner := h.tableMessPartner
  messKeys := h.messKeys
  told := h.told
  children := h.children
  found k hk := by
    rcases h.found k hk with ⟨p, hrec, hview⟩
    exact ⟨p, hrec, hview.imp_right (hgone p k)⟩
  values := h.values
  transcript := h.transcript
  once hnone := h.once fun p k hp => hnone p k (hgone p k hp)

/-- Where nothing is taken back, nothing is forgotten. -/
theorem notice_eq_self {w w' : Send.World} {e : Send.Event} (h : Tracks w.store gone uid win)
    (he : Send.Effect w e w') (hback : ∀ p k, ¬ e.TakesBack win.client uid p k) :
    win.notice (w'.store.view win.client) = win := by
  have htold : win.told.filter (win.hasPartner (w'.store.view win.client)) = win.told := by
    refine List.filter_eq_self.2 fun p hp => ?_
    rcases he.hasPartner_view (h.told p hp).1 with hview | ⟨k, hk⟩
    · simpa [Window.hasPartner, h.tableMess] using hview
    · exact absurd hk (hback p k)
  have hpartners : win.partners.map (fun o =>
      { o with told := o.told.filter (win.indexed (w'.store.view win.client) o.partner) }) =
        win.partners := by
    refine (List.map_congr_left fun o ho => ?_).trans (List.map_id _)
    have hfilter : o.told.filter (win.indexed (w'.store.view win.client) o.partner) = o.told := by
      refine List.filter_eq_self.2 fun k hk => ?_
      rcases he.indexed_view ((h.children o ho).2 k hk).1 with hview | hk
      · simpa [Window.indexed, h.tableMess] using hview
      · exact absurd hk (hback o.partner k)
    simp [hfilter]
  simp only [Window.notice, htold, hpartners]

/-- In a step of the world, a window forgets what is taken back, and keeps everything else. -/
theorem world {w w' : Send.World} {e : Send.Event} {gone' : String → String → Prop}
    (h : Tracks w.store gone uid win) (hsound : Send.Sound w.store)
    (hs : Send.step w e = some w') (hgone : ∀ p k, gone p k → gone' p k)
    (hback : ∀ p k, e.TakesBack win.client uid p k → gone' p k) :
    Tracks w'.store gone' uid (win.notice (w'.store.view win.client)) := by
  have he := Send.effect_of_step hs
  have hmess : ∀ k ∈ win.messages.map MessObserver.key,
      w'.store.db.mess k = w.store.db.mess k := by
    intro k hk
    rcases h.found k hk with ⟨p, hrec, _⟩
    exact hsound.mess_effect_of_recordOf he hrec
  refine ⟨h.tableMess, ?_, h.messKeys, ?_, ?_, ?_, ?_, h.transcript, ?_⟩
  · simp [Window.notice, h.tableMessPartner, Function.comp_def]
  · intro p hp
    rcases List.mem_filter.1 hp with ⟨hold, hview⟩
    have hp' : (w'.store.view win.client).hasPartner uid p = true := by
      simpa [Window.hasPartner, h.tableMess] using hview
    exact ⟨hp', by simpa [Window.notice] using (h.told p hold).2⟩
  · intro o ho
    rcases List.mem_map.1 ho with ⟨o, hold, rfl⟩
    refine ⟨(h.children o hold).1.filter _, fun k hk => ?_⟩
    rcases List.mem_filter.1 hk with ⟨hk, hview⟩
    have hk' : (w'.store.view win.client).indexed uid o.partner k = true := by
      simpa [Window.indexed, h.tableMess] using hview
    exact ⟨hk', ((h.children o hold).2 k hk).2⟩
  · intro k hk
    rcases h.found k hk with ⟨p, ⟨d, hd, hbetween⟩, hview⟩
    refine ⟨p, ⟨d, (hmess k hk).trans hd, hbetween⟩, ?_⟩
    rcases hview with hview | hp
    · exact (he.indexed_view hview).imp_right (hback p k)
    · exact Or.inr (hgone p k hp)
  · intro o ho v hv
    exact (h.values o ho v hv).trans (hmess o.key (List.mem_map_of_mem ho)).symm
  · intro hnone
    rw [h.notice_eq_self he fun p k hk => hnone p k (hback p k hk)]
    exact h.once fun p k hp => hnone p k (hgone p k hp)

/-- A partner that the window was not told of gets its observer. -/
theorem partnerAdded (h : Tracks s gone uid win) {p : String} (hnew : p ∉ win.told)
    (hp : (s.view win.client).hasPartner uid p = true) :
    Tracks s gone uid
      { win with
        chat := { win.chat with tableMessPartner := p :: win.chat.tableMessPartner }
        told := p :: win.told
        partners := ⟨p, []⟩ :: win.partners } := by
  refine ⟨h.tableMess, by simp [h.tableMessPartner], h.messKeys, ?_, ?_, h.found, h.values,
    h.transcript, ?_⟩
  · intro q hq
    rcases List.mem_cons.1 hq with rfl | hold
    · exact ⟨hp, List.mem_cons_self⟩
    · exact ⟨(h.told q hold).1, List.mem_cons_of_mem _ (h.told q hold).2⟩
  · intro o ho
    rcases List.mem_cons.1 ho with rfl | hold
    · simp
    · exact h.children o hold
  · intro hnone
    rcases h.once hnone with ⟨hnd, hpartners, hkeys⟩
    refine ⟨List.nodup_cons.2 ⟨?_, hnd⟩, ?_, by simpa using hkeys⟩
    · -- an observer of `p` would have been told of `p`
      intro hmem
      rcases List.mem_map.1 hmem with ⟨o, ho, rfl⟩
      exact hnew (hpartners o ho)
    · intro o ho
      rcases List.mem_cons.1 ho with rfl | hold
      · exact List.mem_cons_self
      · exact List.mem_cons_of_mem _ (hpartners o hold)

/-- A key that its partner's observer was not told of gets an observer of its record. -/
theorem messAdded (h : Tracks s gone uid win) (hsound : Send.Sound s) {k : String}
    {os₁ os₂ : List PartnerObserver} {o : PartnerObserver}
    (hsplit : win.partners = os₁ ++ o :: os₂) (hnew : k ∉ o.told)
    (hk : (s.view win.client).indexed uid o.partner k = true) :
    Tracks s gone uid
      { win with
        chat := { win.chat with messKeys := k :: win.chat.messKeys }
        partners := os₁ ++ { o with told := k :: o.told } :: os₂
        messages := ⟨k, none⟩ :: win.messages } := by
  have hpartners : (os₁ ++ { o with told := k :: o.told } :: os₂).map PartnerObserver.partner =
      win.partners.map PartnerObserver.partner := by simp [hsplit]
  have hold : ∀ o' ∈ win.partners, o'.told.Nodup ∧ ∀ k' ∈ o'.told,
      (s.view win.client).indexed uid o'.partner k' = true ∧
        k' ∈ (⟨k, none⟩ :: win.messages).map MessObserver.key := by
    intro o' ho'
    refine ⟨(h.children o' ho').1, fun k' hk' => ?_⟩
    exact ⟨((h.children o' ho').2 k' hk').1,
      List.mem_cons_of_mem _ ((h.children o' ho').2 k' hk').2⟩
  refine ⟨h.tableMess, by simp [h.tableMessPartner, hsplit], by simp [h.messKeys], ?_, ?_, ?_,
    ?_, ?_, ?_⟩
  · intro p hp
    exact ⟨(h.told p hp).1, hpartners ▸ (h.told p hp).2⟩
  · intro o' ho'
    rcases List.mem_append.1 ho' with hmem | hmem
    · exact hold o' (by simp [hsplit, hmem])
    rcases List.mem_cons.1 hmem with rfl | hmem
    · have ho := hold o (by simp [hsplit])
      refine ⟨List.nodup_cons.2 ⟨hnew, ho.1⟩, fun k' hk' => ?_⟩
      rcases List.mem_cons.1 hk' with rfl | hk'
      · exact ⟨hk, List.mem_cons_self⟩
      · exact ho.2 k' hk'
    · exact hold o' (by simp [hsplit, hmem])
  · intro k' hk'
    rcases List.mem_cons.1 hk' with rfl | hold
    · exact ⟨o.partner, hsound.recordOf_view hk, Or.inl hk⟩
    · exact h.found k' hold
  · intro o' ho' v hv
    rcases List.mem_cons.1 ho' with rfl | hold
    · cases hv
    · exact h.values o' hold v hv
  · simpa using h.transcript
  · intro hnone
    rcases h.once hnone with ⟨hnd, htold, hkeys⟩
    refine ⟨hpartners ▸ hnd, ?_, ?_⟩
    · intro o' ho'
      have hmem : o'.partner ∈ win.partners.map PartnerObserver.partner :=
        hpartners ▸ List.mem_map_of_mem ho'
      rcases List.mem_map.1 hmem with ⟨o₀, ho₀, heq⟩
      exact heq ▸ htold o₀ ho₀
    · rw [hsplit] at hkeys
      simp only [List.flatMap_append, List.flatMap_cons] at hkeys ⊢
      exact (hkeys.cons k).trans List.perm_middle.symm

/-- A record that was not delivered yet comes to the end of the transcript. -/
theorem messValue (h : Tracks s gone uid win) {os₁ os₂ : List MessObserver} {o : MessObserver}
    {m : Mess} (hsplit : win.messages = os₁ ++ o :: os₂)
    (hnew : o.told ≠ some ((s.view win.client).mess o.key))
    (hm : messOfChatSnapshot ((s.view win.client).mess o.key) = .ok m) :
    Tracks s gone uid
      { win with
        chat := { win.chat with arrayMess := win.chat.arrayMess ++ [m] }
        messages := os₁ ++ { o with told := some ((s.view win.client).mess o.key) } :: os₂ } := by
  have hmem : o ∈ win.messages := by simp [hsplit]
  -- what was delivered before is what the key still holds, so nothing was
  have hnone : o.told = none := by
    cases hv : o.told with
    | none => rfl
    | some v =>
        have hsame := h.values o hmem v hv
        simp [hv, hsame] at hnew
  have hkeys : (os₁ ++ { o with told := some ((s.view win.client).mess o.key) } :: os₂).map
      MessObserver.key = win.messages.map MessObserver.key := by simp [hsplit]
  refine ⟨h.tableMess, h.tableMessPartner, by simp [h.messKeys, hsplit], h.told, ?_, ?_, ?_, ?_,
    ?_⟩
  · intro o' ho'
    refine ⟨(h.children o' ho').1, fun k hk => ?_⟩
    exact ⟨((h.children o' ho').2 k hk).1, hkeys ▸ ((h.children o' ho').2 k hk).2⟩
  · intro k hk
    exact h.found k (hkeys ▸ hk)
  · intro o' ho' v hv
    rcases List.mem_append.1 ho' with hold | hold
    · exact h.values o' (by simp [hsplit, hold]) v hv
    rcases List.mem_cons.1 hold with rfl | hold
    · simpa using hv.symm
    · exact h.values o' (by simp [hsplit, hold]) v hv
  · have hold := h.transcript
    simp only [hsplit, List.filterMap_append, List.filterMap_cons, hnone, List.map_append] at hold
    simp only [List.filterMap_append, List.filterMap_cons, List.map_append, List.map_cons,
      List.map_nil, hm]
    exact (List.perm_append_singleton _ _).trans ((hold.cons _).trans List.perm_middle.symm)
  · intro hnone
    rcases h.once hnone with ⟨hnd, htold, hperm⟩
    exact ⟨hnd, htold, hkeys ▸ hperm⟩

/-- So a due call keeps what a window holds. -/
theorem called (h : Tracks s gone uid win) (hsound : Send.Sound s) {call : Call} {win' : Window}
    (hc : Called (s.view win.client) uid win call win') : Tracks s gone uid win' := by
  cases hc with
  | partnerAdded p hnew hp => exact h.partnerAdded hnew hp
  | messAdded j k os₁ o os₂ hsplit hnew hk => exact h.messAdded hsound hsplit hnew hk
  | messValue j os₁ o os₂ m hsplit hnew hm => exact h.messValue hsplit hnew hm

end Tracks

/-! ## Every window, in every run -/

/-- The events of the world in a run of the windows. -/
def worldEvent : WindowEvent → Option Send.Event
  | .world e => some e
  | _ => none

/-- The store is sound, and every window of a signed-in user holds what it should. -/
structure Windows.Ok (es : List WindowEvent) (s : Windows) : Prop where
  sound : Send.Sound s.world.store
  tracks : ∀ win ∈ s.windows, ∀ uid, win.chat.tableMess = some uid →
    Tracks s.world.store (Send.TakenBack (es.filterMap worldEvent) win.client uid) uid win

theorem ok_init : Windows.init.Ok [] where
  sound := Send.Sound.init
  tracks win h := by cases h

theorem Windows.Ok.step {es : List WindowEvent} {s s' : Windows} {e : WindowEvent} (h : s.Ok es)
    (hs : windowStep s e = some s') : s'.Ok (es ++ [e]) := by
  have hgone : ∀ (win : Window) (uid p k : String),
      Send.TakenBack (es.filterMap worldEvent) win.client uid p k →
        Send.TakenBack ((es ++ [e]).filterMap worldEvent) win.client uid p k := by
    intro win uid p k hback
    rw [List.filterMap_append]
    exact hback.append_left _
  have hkeeps : ∀ win ∈ s.windows, ∀ uid, win.chat.tableMess = some uid →
      Tracks s.world.store (Send.TakenBack ((es ++ [e]).filterMap worldEvent) win.client uid) uid
        win := by
    intro win hwin uid huid
    exact (h.tracks win hwin uid huid).mono (hgone win uid)
  cases windowHappens_of_step hs with
  | world e w hstep =>
      refine ⟨h.sound.step hstep, ?_⟩
      intro win' hwin' uid huid
      rcases List.mem_map.1 hwin' with ⟨win, hwin, rfl⟩
      refine (h.tracks win hwin uid huid).world h.sound hstep (hgone win uid) ?_
      intro p k hback
      exact ⟨e, by simp [worldEvent], hback⟩
  | viewDidLoad c i user =>
      refine ⟨h.sound, ?_⟩
      intro win hwin uid huid
      rcases List.mem_append.1 hwin with hold | hnew
      · exact hkeeps win hold uid huid
      · obtain rfl := List.mem_singleton.1 hnew
        have hsigned : (s.world.clients c).currentUid = some uid := huid
        rw [hsigned]
        exact tracks_viewDidLoad _ _ uid c user
  | call n call win win' hn hrunning htable hclient hcalled =>
      refine ⟨h.sound, ?_⟩
      intro win₀ hwin₀ uid huid
      rcases List.mem_or_eq_of_mem_set hwin₀ with hold | rfl
      · exact hkeeps win₀ hold uid huid
      · -- no callback changes the uid that is observed
        have hsame : win.chat.tableMess = some uid := htable.symm.trans huid
        rw [hclient]
        exact (hkeeps win (List.mem_of_getElem? hn) uid hsame).called h.sound (hcalled uid hsame)
  | userSet n user win hn =>
      refine ⟨h.sound, ?_⟩
      intro win₀ hwin₀ uid huid
      rcases List.mem_or_eq_of_mem_set hwin₀ with hold | rfl
      · exact hkeeps win₀ hold uid huid
      · have hold := hkeeps win (List.mem_of_getElem? hn) uid huid
        exact ⟨hold.tableMess, hold.tableMessPartner, hold.messKeys, hold.told, hold.children,
          hold.found, hold.values, hold.transcript, hold.once⟩

theorem ok_of_run {es : List WindowEvent} {s : Windows}
    (hrun : Step.run windowStep .init es = some s) : s.Ok es :=
  Step.run_history (P := fun es s => Windows.Ok es s) ok_init
    (fun _ _ _ _ _ h hs => h.step hs) hrun

end Chat
end AppChatAgain
