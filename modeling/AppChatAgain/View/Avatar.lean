import AppChatAgain.Records.User
import AppChatAgain.View.ImageLoader

/-!
# View.Avatar — showing the profiles that registration writes

`register_to_firebase` prints an error of `downloadURL` and goes on without a URL.  `setValue` drops
the entry, every decoder reads the missing URL as the empty string, and `new_message` and the inbox
cell hand it to `load_image`, which forces `URL(string:)`.
-/

namespace AppChatAgain
namespace View

open Foundation Firebase Records

variable {Url Data Image : Type}

/-! ## Loading a text -/

/-- No block that a call with `text` leaves traps, whenever it runs. -/
def Loads (svc : ImageServices Url Data Image) (l : Loader Image) (text : String)
    (data : Option Data) : Prop :=
  ∀ view d, (l.loadImage view text).2 = some d → ∀ l₁, ∃ l₂, block svc d data l₁ = .ok l₂

theorem loads_iff {svc : ImageServices Url Data Image} {l : Loader Image} {text : String}
    {data : Option Data} :
    Loads svc l text data ↔ (l.iamgeCache text).isSome = true ∨
      ((svc.url text).isSome = true ∧ (data.isSome = true ∨
        ∃ placeholder, svc.loading = some placeholder ∧ svc.image placeholder = none)) := by
  cases hcache : l.iamgeCache text with
  | some picture =>
      -- a cached picture leaves no block
      refine iff_of_true ?_ (Or.inl rfl)
      intro view d hd
      simp [Loader.loadImage, hcache] at hd
  | none =>
      have hblock : ∀ view, (l.loadImage view text).2 =
          some { view := view, text := text, call := l.calls } := by
        intro view
        simp [Loader.loadImage, hcache]
      constructor
      · intro h
        exact Or.inr ((exists_block_eq_ok_iff l).1 (h 0 _ (hblock 0) l))
      · rintro (hsome | hok) view d hd l₁
        · cases hsome
        · have heq := Option.some.inj ((hblock view).symm.trans hd)
          subst heq
          exact (exists_block_eq_ok_iff l₁).2 hok

/-! ## What is cached -/

/-- Only pictures of URLs are cached. -/
def CachesUrls (svc : ImageServices Url Data Image) (l : Loader Image) : Prop :=
  ∀ text, (l.iamgeCache text).isSome = true → (svc.url text).isSome = true

theorem CachesUrls.step {svc : ImageServices Url Data Image} {l l' : Loader Image}
    {e : Event Data} (h : CachesUrls svc l) (hs : step svc l e = some l') :
    CachesUrls svc l' := by
  cases happens_of_step hs with
  | hit view text picture hcached => exact h
  | miss view text hmiss => exact h
  | shows d bytes picture hmem hurl himage =>
      intro text htext
      by_cases heq : text = d.text
      · simpa only [heq] using hurl
      · exact h text (by simpa [heq] using htext)
  | noPicture d data bytes hmem hbytes himage => exact h
  | traps d data hmem htrap => exact h
  | evict text =>
      intro text' htext
      by_cases heq : text' = text
      · simp [heq] at htext
      · exact h text' (by simpa [heq] using htext)

theorem cachesUrls_of_run {svc : ImageServices Url Data Image} {image : ℕ → Option Image}
    {es : List (Event Data)} {l : Loader Image}
    (hrun : Step.run (step svc) (.launch image) es = some l) : CachesUrls svc l := by
  refine Step.run_invariant (P := CachesUrls svc) (fun l e l' h hs => h.step hs) ?_ hrun
  intro text h
  cases h

/-! ## Profiles -/

/-- `user/<uid>` after a registration for which `downloadURL` has answered `url`. -/
def registered (svc : ImageServices Url Data Image) (db : Database)
    (name email pass uid : String) (url : Option Url) : Database :=
  db.setUser uid (profileRecord name email pass (url.map svc.absoluteString) uid)

/-- All readers of the profile get the same user, and its picture loads without a trap if the
download ends with `data`. -/
structure Displayed (svc : ImageServices Url Data Image) (l : Loader Image) (snap : Json)
    (user : User) (data : Option Data) : Prop where
  newMessage : userForcingAll snap = .ok user
  /-- the inbox cell, the title of the inbox, and the selection of a row -/
  inbox : userForcingName snap = .ok user
  title : userDefaulting snap = user
  avatar : Loads svc l user.avatarUrl data

/-- The profile of a registration is displayed, in any state of the reader's image cache, exactly if
`downloadURL` has returned a URL, and its picture is cached, or arrives, or the placeholder is no
picture. -/
theorem displayed_iff_url {svc : ImageServices Url Data Image} {image : ℕ → Option Image}
    {es : List (Event Data)} {l : Loader Image}
    (hrun : Step.run (step svc) (.launch image) es = some l) (db : Database)
    (name email pass uid : String) (url : Option Url) (data : Option Data) :
    Displayed svc l ((registered svc db name email pass uid url).user uid)
        (profileUser name email pass (url.map svc.absoluteString) uid) data ↔
      ∃ u, url = some u ∧ ((l.iamgeCache (svc.absoluteString u)).isSome = true ∨
        data.isSome = true ∨
          ∃ placeholder, svc.loading = some placeholder ∧ svc.image placeholder = none) := by
  have hsnap : (registered svc db name email pass uid url).user uid =
      profileRecord name email pass (url.map svc.absoluteString) uid := by
    simp [registered, Database.user_setUser]
  constructor
  · intro h
    have hloads := loads_iff.1 h.avatar
    cases url with
    | none =>
        -- the decoders give the empty string, which is no URL and never cached
        have hempty : (svc.url "").isSome = true := by
          rcases hloads with hcached | hok
          · exact cachesUrls_of_run hrun "" hcached
          · exact hok.1
        simp [svc.url_empty] at hempty
    | some u => exact ⟨u, rfl, hloads.imp id And.right⟩
  · rintro ⟨u, rfl, hok⟩
    refine ⟨?_, ?_, ?_, ?_⟩
    · simpa only [hsnap] using userForcingAll_profileRecord _ _ _ _ _
    · simpa only [hsnap] using userForcingName_profileRecord _ _ _ _ _
    · simpa only [hsnap] using userDefaulting_profileRecord _ _ _ _ _
    · have hurl : (svc.url (svc.absoluteString u)).isSome = true := by
        simp [svc.url_absoluteString u]
      exact loads_iff.2 (hok.imp id fun h => ⟨hurl, h⟩)

/-- A profile with a URL whose picture arrives. -/
theorem carol_displayed :
    Displayed plainServices (.launch fun _ => none)
      ((registered plainServices .empty "Carol" "carol@chat" "secret" "carol"
        (some ⟨"url/carol", by decide⟩)).user "carol")
      (profileUser "Carol" "carol@chat" "secret" (some "url/carol") "carol") (some "picture") := by
  have hrun : Step.run (step plainServices) (.launch fun _ => none) [] =
      some (.launch fun _ => none) := rfl
  exact (displayed_iff_url hrun .empty "Carol" "carol@chat" "secret" "carol" _ _).2
    ⟨_, rfl, Or.inr (Or.inl rfl)⟩

/-- When `downloadURL` has failed, the block of `load_image` traps, even if anything arrived. -/
theorem carol_not_displayed :
    ¬ ∀ (svc : ImageServices { s : String // s ≠ "" } String String)
        (image : ℕ → Option String) (es : List (Event String)) (l : Loader String),
      Step.run (step svc) (.launch image) es = some l →
        ∀ (db : Database) (name email pass uid : String) (url : Option { s : String // s ≠ "" })
            (data : String),
          Displayed svc l ((registered svc db name email pass uid url).user uid)
            (profileUser name email pass (url.map svc.absoluteString) uid) (some data) := by
  intro h
  have hdisplayed := h plainServices (fun _ => none) [] _ rfl .empty "Carol" "carol@chat" "secret"
    "carol" none "picture"
  rcases hdisplayed.avatar 0 ⟨0, "", 0⟩ rfl (.launch fun _ => none) with ⟨l₂, hl₂⟩
  cases hl₂

end View
end AppChatAgain
