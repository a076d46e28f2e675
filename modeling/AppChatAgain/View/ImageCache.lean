import AppChatAgain.View.ImageLoader

/-!
# View.ImageCache — what failures leave in the cache

`ImageLoader.step` forgets what a block wrote before it trapped.  Here the writes stay: in
`load_image` the placeholder stands in for data that did not arrive, and what is decoded from it is
cached before `data!` is forced.

* `block`        : the block of `load_image`, with the state it leaves where it traps;
* `run_agrees`   : it differs from `ImageLoader` in nothing but the writes before a trap;
* `CoherentRun`  : only fetched pictures are cached, a failure changes nothing, no block traps.

The main result says which failures are harmless.
-/

namespace AppChatAgain
namespace View
namespace ImageCache

open Foundation Firebase

section Blocks

variable {Url Data Image : Type} (svc : ImageServices Url Data Image)

/-- The block of `load_image`.  A trap ends it, and keeps what it has written. -/
def block (d : Download) (data : Option Data) : EStateM Trap (Loader Image) Unit := do
  let _url ← ofExcept (forceUnwrap (svc.url d.text))
  let imageData := svc.loading
  match svc.image (← ofExcept (dataOr data imageData)) with
  | some imageDownload =>
      modify fun l => { l with
        iamgeCache := Function.update l.iamgeCache d.text (some imageDownload) }
      let data ← ofExcept (forceUnwrap data)
      modify fun l => { l with image := Function.update l.image d.view (svc.image data) }
  | none => return

/-- One event, until a block traps. -/
def step : Step (Loader Image) (Event Data)
  | l, .downloaded d data =>
      if l.stopped then none
      else if d ∈ l.downloads then
        match block svc d data { l with downloads := l.downloads.erase d } with
        | .ok _ l' => some l'
        | .error _ l' => some { l' with stopped := true }
      else none
  | l, e => View.step svc l e

/-! ## Agreement with `ImageLoader` -/

variable {svc}

/-- Without the writes of a block that traps, this is the block of `ImageLoader`. -/
theorem block_eq (d : Download) (data : Option Data) (l : Loader Image) :
    View.block svc d data l =
      match block svc d data l with
      | .ok _ l' => .ok l'
      | .error t _ => .error t := by
  simp only [View.block, block, ofExcept_bind]
  cases hurl : forceUnwrap (svc.url d.text) with
  | error t => rfl
  | ok url =>
      simp only
      cases hbytes : dataOr data svc.loading with
      | error t => rfl
      | ok bytes =>
          simp only [bind, Except.bind]
          cases himage : svc.image bytes with
          | none => rfl
          | some picture =>
              cases data with
              | none => rfl
              | some bytes => rfl

/-- The same state as in `ImageLoader`, or a block has trapped in both. -/
def Agrees (l₁ l₂ : Loader Image) : Prop :=
  l₁ = l₂ ∨ l₁.stopped = true ∧ l₂.stopped = true

theorem step_agrees {l₁ l₂ : Loader Image} (h : Agrees l₁ l₂) (e : Event Data) :
    Option.Rel Agrees (View.step svc l₁ e) (step svc l₂ e) := by
  rcases h with rfl | ⟨h₁, h₂⟩
  · have hrefl : ∀ o : Option (Loader Image), Option.Rel Agrees o o := by
      intro o
      cases o with
      | none => exact .none
      | some l => exact .some (Or.inl rfl)
    cases e with
    | load view text => exact hrefl _
    | evict text => exact hrefl _
    | downloaded d data =>
        simp only [View.step, step]
        split_ifs with hstopped hmem
        · exact .none
        · cases h : block svc d data { l₁ with downloads := l₁.downloads.erase d } with
          | ok u l' => simpa [block_eq, h] using hrefl (some l')
          | error t l' =>
              -- only here may the caches differ
              simp only [block_eq, h]
              exact .some (Or.inr ⟨rfl, rfl⟩)
        · exact .none
  · -- nothing happens after a trap
    cases e with
    | load view text => simp [View.step, step, h₁, h₂]
    | evict text => simp [View.step, step, h₁, h₂]
    | downloaded d data => simp [View.step, step, h₁, h₂]

/-- The same events lead to the same state, until a block traps. -/
theorem run_agrees (l : Loader Image) (es : List (Event Data)) :
    Option.Rel Agrees (Step.run (View.step svc) l es) (Step.run (step svc) l es) := by
  refine Step.run_rel (E := Eq) ?_ (List.forall₂_same.2 fun _ _ => rfl) (Or.inl rfl)
  intro l₁ l₂ e e' h he
  subst he
  exact step_agrees h e

theorem exists_view_step {l l' : Loader Image} {e : Event Data} (h : step svc l e = some l') :
    ∃ l₁, View.step svc l e = some l₁ ∧ Agrees l₁ l' := by
  have hrel : Option.Rel Agrees (View.step svc l e) (some l') :=
    h ▸ step_agrees (Or.inl rfl) e
  cases hview : View.step svc l e with
  | none => simp [hview] at hrel
  | some l₁ => exact ⟨l₁, rfl, by simpa [hview] using hrel⟩

/-- While no block has trapped, an event does what it does in `ImageLoader`. -/
theorem happens_of_step {l l' : Loader Image} {e : Event Data} (h : step svc l e = some l')
    (hgo : l'.stopped = false) : Happens svc l e l' := by
  rcases exists_view_step h with ⟨l₁, hview, rfl | ⟨_, hstopped⟩⟩
  · exact View.happens_of_step hview
  · simp [hgo] at hstopped

theorem not_stopped_of_step {l l' : Loader Image} {e : Event Data} (h : step svc l e = some l') :
    l.stopped = false := by
  cases hstopped : l.stopped with
  | false => rfl
  | true =>
      cases e with
      | load view text => simp [step, View.step, hstopped] at h
      | evict text => simp [step, View.step, hstopped] at h
      | downloaded d data => simp [step, hstopped] at h

/-! ## What a failure does -/

/-- Where nothing arrives and the placeholder is a picture, this picture is cached for the URL, and
the block traps. -/
theorem block_placeholder {d : Download} {placeholder : Data} {picture : Image}
    (hurl : (svc.url d.text).isSome = true) (hloading : svc.loading = some placeholder)
    (himage : svc.image placeholder = some picture) (l : Loader Image) :
    block svc d none l = .error .nilUnwrap { l with
      iamgeCache := Function.update l.iamgeCache d.text (some picture) } := by
  rcases Option.isSome_iff_exists.1 hurl with ⟨url, hurl⟩
  simp only [block, ofExcept_bind, hurl, forceUnwrap_some, dataOr, hloading, himage, modify_bind]
  rfl

/-- So a failed download leaves the placeholder in the cache, and no view shows it. -/
theorem step_placeholder {l : Loader Image} {d : Download} {placeholder : Data} {picture : Image}
    (hgo : l.stopped = false) (hmem : d ∈ l.downloads)
    (hurl : (svc.url d.text).isSome = true) (hloading : svc.loading = some placeholder)
    (himage : svc.image placeholder = some picture) :
    step svc l (.downloaded d none) = some { l with
      downloads := l.downloads.erase d
      iamgeCache := Function.update l.iamgeCache d.text (some picture)
      stopped := true } := by
  simp [step, hgo, hmem, block_placeholder hurl hloading himage]

end Blocks

/-! ## Coherence -/

section Coherence

variable {Url Data Image : Type} (svc : ImageServices Url Data Image)

/-- The bytes were downloaded for the text. -/
def Fetched (es : List (Event Data)) (text : String) (bytes : Data) : Prop :=
  ∃ d : Download, d.text = text ∧ Event.downloaded d (some bytes) ∈ es

/-- What is cached is under a URL, and was decoded from bytes that were downloaded for it. -/
def Genuine (es : List (Event Data)) (l : Loader Image) : Prop :=
  ∀ text picture, l.iamgeCache text = some picture →
    (svc.url text).isSome = true ∧
      ∃ bytes, Fetched es text bytes ∧ svc.image bytes = some picture

/-- A download that brings no picture changes neither the cache nor any view, and unless the picture
is cached anyway, a later call downloads it again. -/
def LeavesAlone (l : Loader Image) : Event Data → Loader Image → Prop
  | .downloaded d data, l' => data.bind svc.image = none →
      l'.iamgeCache = l.iamgeCache ∧ l'.image = l.image ∧
        (l.iamgeCache d.text = none → ∀ view, (l'.loadImage view d.text).2.isSome = true)
  | _, _ => True

/-- The cache is coherent throughout the run, failures leave everything alone, and no block
traps. -/
structure CoherentRun (image : ℕ → Option Image) (es : List (Event Data)) : Prop where
  genuine : ∀ es₁ es₂ l, es = es₁ ++ es₂ →
    Step.run (step svc) (.launch image) es₁ = some l → Genuine svc es₁ l
  leavesAlone : Step.Along (step svc) (LeavesAlone svc) (.launch image) es
  goesOn : Step.Throughout (step svc) (fun l => l.stopped = false) (.launch image) es

/-- Bytes arrive, picture or not; or else there is a placeholder, and it is not a picture. -/
def Arrives : Event Data → Prop
  | .downloaded _ none => ∃ placeholder, svc.loading = some placeholder ∧
      svc.image placeholder = none
  | _ => True

/-- Until a block traps, the pending blocks have URLs. -/
def PendingUrls (l : Loader Image) : Prop :=
  l.stopped = false → ∀ d ∈ l.downloads, (svc.url d.text).isSome = true

/-- The call is for a URL. -/
def LoadsUrl : Event Data → Prop
  | .load _ text => (svc.url text).isSome = true
  | _ => True

variable {svc}

theorem PendingUrls.step {l l' : Loader Image} {e : Event Data} (h : PendingUrls svc l)
    (hurl : LoadsUrl svc e) (hs : step svc l e = some l') : PendingUrls svc l' := by
  intro hgo
  have hpending := h (not_stopped_of_step hs)
  cases happens_of_step hs hgo with
  | hit view text picture hcached => exact hpending
  | miss view text hmiss =>
      intro d hd
      rcases List.mem_cons.1 hd with rfl | hold
      · exact hurl
      · exact hpending d hold
  | shows d bytes picture hmem hurl himage =>
      intro d' hd'
      exact hpending d' (List.mem_of_mem_erase hd')
  | noPicture d data bytes hmem hbytes himage =>
      intro d' hd'
      exact hpending d' (List.mem_of_mem_erase hd')
  | traps d data hmem htrap => simp at hgo
  | evict text => exact hpending

/-- An event keeps the app running exactly if it is not a failure that reaches `data!`. -/
theorem goesOn_step_iff {l l' : Loader Image} {e : Event Data} (h : PendingUrls svc l)
    (hs : step svc l e = some l') : l'.stopped = false ↔ Arrives svc e := by
  constructor
  · intro hgo
    cases happens_of_step hs hgo with
    | noPicture d data bytes hmem hbytes himage =>
        cases data with
        | none => exact ⟨bytes, by simpa using hbytes, himage⟩
        | some data => trivial
    | traps d data hmem htrap => simp at hgo
    | _ => trivial
  · intro harrives
    have hgo := not_stopped_of_step hs
    rcases exists_view_step hs with ⟨l₁, hview, hagrees⟩
    have hgo₁ : l₁.stopped = false := by
      cases View.happens_of_step hview with
      | traps d data hmem htrap =>
          -- the block has a URL, and data to decode
          refine absurd ⟨h hgo d hmem, ?_⟩ htrap
          cases data with
          | none => exact Or.inr harrives
          | some data => exact Or.inl rfl
      | _ => exact hgo
    rcases hagrees with rfl | ⟨hstopped, _⟩
    · exact hgo₁
    · simp [hgo₁] at hstopped

/-- What an event caches was downloaded in it. -/
theorem Genuine.step {es : List (Event Data)} {l l' : Loader Image} {e : Event Data}
    (h : Genuine svc es l) (hs : step svc l e = some l') (hgo : l'.stopped = false) :
    Genuine svc (es ++ [e]) l' := by
  have hold : ∀ text picture, l.iamgeCache text = some picture →
      (svc.url text).isSome = true ∧
        ∃ bytes, Fetched (es ++ [e]) text bytes ∧ svc.image bytes = some picture := by
    intro text picture hcached
    rcases h text picture hcached with ⟨hurl, bytes, ⟨d, hd, hmem⟩, himage⟩
    exact ⟨hurl, bytes, ⟨d, hd, List.mem_append_left _ hmem⟩, himage⟩
  cases happens_of_step hs hgo with
  | hit view text picture hcached => exact hold
  | miss view text hmiss => exact hold
  | shows d bytes picture hmem hurl himage =>
      intro text picture' hcached
      by_cases htext : text = d.text
      · subst htext
        have heq : picture = picture' := by simpa using hcached
        subst heq
        exact ⟨hurl, bytes, ⟨d, rfl, by simp⟩, himage⟩
      · exact hold text picture' (by simpa [htext] using hcached)
  | noPicture d data bytes hmem hbytes himage => exact hold
  | traps d data hmem htrap => simp at hgo
  | evict text =>
      intro text' picture hcached
      by_cases htext : text' = text
      · simp [htext] at hcached
      · exact hold text' picture (by simpa [htext] using hcached)

theorem leavesAlone_of_step {l l' : Loader Image} {e : Event Data} (hs : step svc l e = some l')
    (hgo : l'.stopped = false) : LeavesAlone svc l e l' := by
  cases happens_of_step hs hgo with
  | hit view text picture hcached => trivial
  | miss view text hmiss => trivial
  | shows d bytes picture hmem hurl himage =>
      intro hnone
      simp [himage] at hnone
  | noPicture d data bytes hmem hbytes himage =>
      intro hnone
      refine ⟨rfl, rfl, ?_⟩
      intro hmiss view
      simp [Loader.loadImage, hmiss]
  | traps d data hmem htrap => simp at hgo
  | evict text => trivial

/-- Without traps, the cache holds only pictures that were downloaded. -/
theorem genuine_of_goesOn {image : ℕ → Option Image} {es : List (Event Data)} {l : Loader Image}
    (hrun : Step.run (step svc) (.launch image) es = some l) (hgo : l.stopped = false) :
    Genuine svc es l := by
  refine Step.run_history (P := fun es l => l.stopped = false → Genuine svc es l) ?_ ?_ hrun hgo
  · intro _ text picture hcached
    cases hcached
  · -- no trap in the end means none before
    intro es e l₁ l₂ _ h hs hgo
    exact (h (not_stopped_of_step hs)).step hs hgo

/-- For calls with URLs: only downloaded pictures are ever cached, failures change nothing and no
block traps, exactly as long as every block gets bytes or a placeholder that is not a picture. -/
theorem coherentRun_iff_arrives (image : ℕ → Option Image) {es : List (Event Data)}
    (hurl : ∀ e ∈ es, LoadsUrl svc e) :
    CoherentRun svc image es ↔
      Step.Along (step svc) (fun _ e _ => Arrives svc e) (.launch image) es := by
  have hexact : Step.Throughout (step svc) (fun l => l.stopped = false) (.launch image) es ↔
      Step.Along (step svc) (fun _ e _ => Arrives svc e) (.launch image) es :=
    Step.throughout_iff_along_of_mem (I := PendingUrls svc) (Q := LoadsUrl svc)
      (fun l e l' hok h hs => h.step hok hs)
      (fun l e l' _ h _ hs => goesOn_step_iff h hs) hurl (by simp [PendingUrls, Loader.launch]) rfl
  constructor
  · intro h
    exact hexact.1 h.goesOn
  · intro h
    have hgoesOn := hexact.2 h
    refine ⟨?_, ?_, hgoesOn⟩
    · intro es₁ es₂ l hes hrun
      exact genuine_of_goesOn hrun (hgoesOn es₁ es₂ l hes hrun)
    · intro es₁ e es₂ l l' hes hrun hs
      refine leavesAlone_of_step hs (hgoesOn (es₁ ++ [e]) es₂ l' (by simp [hes]) ?_)
      exact Step.run_concat_eq_some.2 ⟨l, hrun, hs⟩

end Coherence

/-- One call, and its block. -/
def oneCall (data : Option String) : List (Event String) :=
  [.load 0 "a", .downloaded { view := 0, text := "a", call := 0 } data]

theorem loadsUrl_oneCall (data : Option String) :
    ∀ e ∈ oneCall data, LoadsUrl plainServices e := by
  intro e he
  simp only [oneCall, List.mem_cons, List.not_mem_nil, or_false] at he
  rcases he with rfl | rfl
  · rfl
  · trivial

/-- Bytes arrive, but no picture. -/
theorem undecodable_coherentRun :
    CoherentRun plainServices (fun _ => none) (oneCall (some "")) := by
  apply (coherentRun_iff_arrives _ (loadsUrl_oneCall _)).2
  exact Step.along_of_forall_mem (by simp [oneCall, Arrives]) _

/-- Nothing arrives: the placeholder is cached for the URL, and the block traps. -/
theorem failed_not_coherentRun :
    ¬ ∀ (svc : ImageServices { s : String // s ≠ "" } String String)
        (image : ℕ → Option String) (es : List (Event String)),
      (∀ e ∈ es, LoadsUrl svc e) → CoherentRun svc image es := by
  intro h
  have hrun := h plainServices (fun _ => none) (oneCall none) (loadsUrl_oneCall none)
  obtain ⟨l, hl, hcached⟩ : ∃ l,
      Step.run (step plainServices) (.launch fun _ => none) (oneCall none) = some l ∧
        l.iamgeCache "a" = some "loading" :=
    ⟨_, rfl, rfl⟩
  -- the picture in the cache was never downloaded
  rcases hrun.genuine (oneCall none) [] l (by simp) hl "a" "loading" hcached with
    ⟨_, bytes, ⟨d, _, hmem⟩, _⟩
  simp [oneCall] at hmem

end ImageCache
end View
end AppChatAgain
