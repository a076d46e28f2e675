import Mathlib.Logic.Function.Basic
import AppChatAgain.Firebase.Value
import AppChatAgain.Foundation.Run

/-!
# View.ImageLoader — pictures that arrive later

`UIImageView.load_image` shows a cached picture at once; otherwise it leaves a block on a queue
that downloads the picture, caches it and shows it.  The block does not look at what the view has
been asked for since.  Views are numbered, and so are the calls.

* `Loader.loadImage` : the call itself;
* `block`            : the block, for what `try? Data(contentsOf:)` returns in it;
* `step`             : calls, blocks in any order, and evictions from the cache.

The main result says when reused views end with the right picture.
-/

namespace AppChatAgain
namespace View

open Foundation Firebase

/-! ## Calls and blocks -/

/-- What `load_image` uses of the system's URLs, data and images. -/
structure ImageServices (Url Data Image : Type) where
  /-- `URL(string:)` -/
  url : String → Option Url
  absoluteString : Url → String
  /-- `UIImage(data:)` -/
  image : Data → Option Image
  /-- `UIImage(named: "loading")?.pngData()` -/
  loading : Option Data
  url_empty : url "" = none
  url_absoluteString : ∀ u, url (absoluteString u) = some u

/-- A block that waits on its queue, left by the `call`-th call. -/
structure Download where
  view : ℕ
  text : String
  call : ℕ
  deriving DecidableEq, Repr

structure Loader (Image : Type) where
  /-- `iamge_cache`, which all views share -/
  iamgeCache : String → Option Image
  /-- the picture in each view -/
  image : ℕ → Option Image
  /-- the blocks that have not run -/
  downloads : List Download
  /-- a block has trapped -/
  stopped : Bool
  /-- the number of calls so far; the code does not count them -/
  calls : ℕ
  /-- the text and the number of the last call on each view -/
  last : ℕ → Option (String × ℕ)

namespace Loader

variable {Image : Type}

/-- Nothing is cached, and the views show what they were made with. -/
def launch (image : ℕ → Option Image) : Loader Image :=
  { iamgeCache := fun _ => none
    image := image
    downloads := []
    stopped := false
    calls := 0
    last := fun _ => none }

/-- `load_image(text:)` on a view, with the block that it leaves. -/
def loadImage (view : ℕ) (text : String) (l : Loader Image) : Loader Image × Option Download :=
  let l' := { l with
    calls := l.calls + 1
    last := Function.update l.last view (some (text, l.calls)) }
  match l.iamgeCache text with
  | some imageObject =>
      ({ l' with image := Function.update l.image view (some imageObject) }, none)
  | none => (l', some { view := view, text := text, call := l.calls })

end Loader

section Blocks

variable {Url Data Image : Type} (svc : ImageServices Url Data Image)

/-- `data ?? image_data!`, which forces the placeholder only where there is no data. -/
def dataOr (data imageData : Option Data) : Except Trap Data :=
  match data with
  | some data => .ok data
  | none => forceUnwrap imageData

omit svc in
theorem dataOr_eq_ok {data imageData : Option Data} {bytes : Data} :
    dataOr data imageData = .ok bytes ↔ data.or imageData = some bytes := by
  cases data with
  | some data => simp [dataOr]
  | none => simpa [dataOr] using forceUnwrap_eq_ok

/-- The block of `load_image`.  `data` is the result of `try? Data(contentsOf: url!)`. -/
def block (d : Download) (data : Option Data) (l : Loader Image) : Except Trap (Loader Image) := do
  let _url ← forceUnwrap (svc.url d.text)
  let imageData := svc.loading
  match svc.image (← dataOr data imageData) with
  | some imageDownload =>
      let l := { l with
        iamgeCache := Function.update l.iamgeCache d.text (some imageDownload) }
      let data ← forceUnwrap data
      return { l with image := Function.update l.image d.view (svc.image data) }
  | none => return l

inductive Event (Data : Type) where
  | load (view : ℕ) (text : String)
  | downloaded (d : Download) (data : Option Data)
  /-- an `NSCache` may drop any entry -/
  | evict (text : String)

/-- One event, until a block traps. -/
def step : Step (Loader Image) (Event Data)
  | l, .load view text =>
      if l.stopped then none
      else
        let (l', d) := l.loadImage view text
        some { l' with downloads := d.toList ++ l'.downloads }
  | l, .downloaded d data =>
      if l.stopped then none
      else if d ∈ l.downloads then
        match block svc d data { l with downloads := l.downloads.erase d } with
        | .ok l' => some l'
        | .error _ => some { l with stopped := true }
      else none
  | l, .evict text =>
      if l.stopped then none
      else some { l with iamgeCache := Function.update l.iamgeCache text none }

/-! ## What an event does -/

variable {svc}

/-- Where the block ends well, it shows the picture that has arrived, or there is none to show. -/
theorem block_eq_ok {d : Download} {data : Option Data} {l l' : Loader Image}
    (h : block svc d data l = .ok l') :
    (svc.url d.text).isSome = true ∧
      ((∃ bytes picture, data = some bytes ∧ svc.image bytes = some picture ∧
          l' = { l with
            iamgeCache := Function.update l.iamgeCache d.text (some picture)
            image := Function.update l.image d.view (some picture) }) ∨
        ∃ bytes, data.or svc.loading = some bytes ∧ svc.image bytes = none ∧ l' = l) := by
  -- `url!` first, then the data or the placeholder
  rcases bind_eq_ok.1 h with ⟨url, hurl, h⟩
  refine ⟨by simp [forceUnwrap_eq_ok.1 hurl], ?_⟩
  rcases bind_eq_ok.1 h with ⟨bytes, hbytes, h⟩
  cases himage : svc.image bytes with
  | none =>
      simp only [himage] at h
      cases h
      exact Or.inr ⟨bytes, dataOr_eq_ok.1 hbytes, himage, rfl⟩
  | some picture =>
      simp only [himage] at h
      -- `data!` is forced only when there is a picture
      rcases bind_eq_ok.1 h with ⟨data', hdata, h⟩
      have hsome : data = some data' := forceUnwrap_eq_ok.1 hdata
      subst hsome
      cases hbytes
      cases h
      exact Or.inl ⟨bytes, picture, rfl, himage, by simp [himage]⟩

/-- The block ends well exactly if the text is a URL and, should nothing arrive, the placeholder is
there but is no picture. -/
theorem exists_block_eq_ok_iff {d : Download} {data : Option Data} (l : Loader Image) :
    (∃ l', block svc d data l = .ok l') ↔
      (svc.url d.text).isSome = true ∧
        (data.isSome = true ∨
          ∃ placeholder, svc.loading = some placeholder ∧ svc.image placeholder = none) := by
  constructor
  · rintro ⟨l', h⟩
    rcases block_eq_ok h with ⟨hurl, ⟨bytes, picture, rfl, _⟩ | ⟨bytes, hbytes, himage, _⟩⟩
    · exact ⟨hurl, Or.inl rfl⟩
    · refine ⟨hurl, ?_⟩
      cases data with
      | none => exact Or.inr ⟨bytes, by simpa using hbytes, himage⟩
      | some data => exact Or.inl rfl
  · rintro ⟨hurl, hdata⟩
    rcases Option.isSome_iff_exists.1 hurl with ⟨url, hurl⟩
    have hurl' : forceUnwrap (svc.url d.text) = .ok url := forceUnwrap_eq_ok.2 hurl
    cases data with
    | some data =>
        -- what arrives need not be a picture
        cases himage : svc.image data with
        | none =>
            refine ⟨l, bind_eq_ok.2 ⟨url, hurl', bind_eq_ok.2 ⟨data, rfl, ?_⟩⟩⟩
            simp only [himage]
            rfl
        | some picture =>
            refine ⟨{ l with
              iamgeCache := Function.update l.iamgeCache d.text (some picture)
              image := Function.update l.image d.view (some picture) },
              bind_eq_ok.2 ⟨url, hurl', bind_eq_ok.2 ⟨data, rfl, ?_⟩⟩⟩
            simp [himage, bind, Except.bind, pure, Except.pure]
    | none =>
        rcases hdata with hsome | ⟨placeholder, hloading, himage⟩
        · cases hsome
        · have hbytes : dataOr none svc.loading = .ok placeholder :=
            dataOr_eq_ok.2 (by simpa using hloading)
          refine ⟨l, bind_eq_ok.2 ⟨url, hurl', bind_eq_ok.2 ⟨placeholder, hbytes, ?_⟩⟩⟩
          simp only [himage]
          rfl

/-- Exactly what an event does, with what must hold for it to occur. -/
inductive Happens (svc : ImageServices Url Data Image) (l : Loader Image) :
    Event Data → Loader Image → Prop
  | hit (view : ℕ) (text : String) (picture : Image) (hcached : l.iamgeCache text = some picture) :
      Happens svc l (.load view text)
        { l with
          calls := l.calls + 1
          last := Function.update l.last view (some (text, l.calls))
          image := Function.update l.image view (some picture) }
  | miss (view : ℕ) (text : String) (hmiss : l.iamgeCache text = none) :
      Happens svc l (.load view text)
        { l with
          calls := l.calls + 1
          last := Function.update l.last view (some (text, l.calls))
          downloads := { view := view, text := text, call := l.calls } :: l.downloads }
  | shows (d : Download) (bytes : Data) (picture : Image) (hmem : d ∈ l.downloads)
      (hurl : (svc.url d.text).isSome = true) (himage : svc.image bytes = some picture) :
      Happens svc l (.downloaded d (some bytes))
        { l with
          downloads := l.downloads.erase d
          iamgeCache := Function.update l.iamgeCache d.text (some picture)
          image := Function.update l.image d.view (some picture) }
  | noPicture (d : Download) (data : Option Data) (bytes : Data) (hmem : d ∈ l.downloads)
      (hbytes : data.or svc.loading = some bytes) (himage : svc.image bytes = none) :
      Happens svc l (.downloaded d data) { l with downloads := l.downloads.erase d }
  | traps (d : Download) (data : Option Data) (hmem : d ∈ l.downloads)
      (htrap : ¬ ((svc.url d.text).isSome = true ∧ (data.isSome = true ∨
        ∃ placeholder, svc.loading = some placeholder ∧ svc.image placeholder = none))) :
      Happens svc l (.downloaded d data) { l with stopped := true }
  | evict (text : String) :
      Happens svc l (.evict text) { l with iamgeCache := Function.update l.iamgeCache text none }

/-- Every event is one of these. -/
theorem happens_of_step {l l' : Loader Image} {e : Event Data} (h : step svc l e = some l') :
    Happens svc l e l' := by
  cases e with
  | load view text =>
      simp only [step, Option.ite_none_left_eq_some, Option.some.injEq] at h
      rcases h with ⟨_, rfl⟩
      cases hcache : l.iamgeCache text with
      | some picture => simpa [Loader.loadImage, hcache] using Happens.hit view text picture hcache
      | none => simpa [Loader.loadImage, hcache] using Happens.miss view text hcache
  | downloaded d data =>
      simp only [step, Option.ite_none_left_eq_some, Option.ite_none_right_eq_some] at h
      rcases h with ⟨_, hmem, h⟩
      cases hblock : block svc d data { l with downloads := l.downloads.erase d } with
      | ok l₁ =>
          simp only [hblock, Option.some.injEq] at h
          subst h
          rcases block_eq_ok hblock with
            ⟨hurl, ⟨bytes, picture, rfl, himage, rfl⟩ | ⟨bytes, hbytes, himage, rfl⟩⟩
          · exact .shows d bytes picture hmem hurl himage
          · exact .noPicture d data bytes hmem hbytes himage
      | error t =>
          simp only [hblock, Option.some.injEq] at h
          subst h
          refine .traps d data hmem ?_
          intro hok
          rcases (exists_block_eq_ok_iff _).2 hok with ⟨l₂, hl₂⟩
          cases hblock.symm.trans hl₂
  | evict text =>
      simp only [step, Option.ite_none_left_eq_some, Option.some.injEq] at h
      rcases h with ⟨_, rfl⟩
      exact .evict text

end Blocks

/-! ## Which picture a view shows -/

section Pictures

variable {Url Data Image : Type} (svc : ImageServices Url Data Image) (picture : String → Image)

/-- A download that succeeds brings the picture of its URL. -/
def Successful : Event Data → Prop
  | .downloaded d data =>
      (svc.url d.text).isSome = true ∧
        ∃ bytes, data = some bytes ∧ svc.image bytes = some (picture d.text)
  | _ => True

/-- While no download is pending, each view shows the picture of the last call on it. -/
def ShowsLast (l : Loader Image) : Prop :=
  l.downloads = [] → ∀ view text call, l.last view = some (text, call) →
    l.image view = some (picture text)

/-- At any time, each view whose last call has been answered shows the picture of that call. -/
def ShowsAnswered (l : Loader Image) : Prop :=
  ∀ view text call, l.last view = some (text, call) →
    { view := view, text := text, call := call } ∉ l.downloads →
      l.image view = some (picture text)

/-- The download does not end after the last call on its view has been answered, unless this was
for the same picture. -/
def NotOvertaken (l : Loader Image) : Event Data → Prop
  | .downloaded d _ => ∀ text call, l.last d.view = some (text, call) →
      { view := d.view, text := text, call := call } ∈ l.downloads ∨ picture text = picture d.text
  | _ => True

theorem ShowsAnswered.showsLast {l : Loader Image} (h : ShowsAnswered picture l) :
    ShowsLast picture l := by
  intro hnone view text call hlast
  exact h view text call hlast (by simp [hnone])

/-- The cache holds the right pictures, and no two pending blocks are of one call. -/
structure Coherent (l : Loader Image) : Prop where
  cached : ∀ text p, l.iamgeCache text = some p → p = picture text
  numbered : ∀ d ∈ l.downloads, d.call < l.calls
  nodup : l.downloads.Nodup

theorem coherent_launch (image : ℕ → Option Image) : Coherent picture (.launch image) where
  cached text p h := by cases h
  numbered d h := by cases h
  nodup := List.nodup_nil

theorem showsAnswered_launch (image : ℕ → Option Image) :
    ShowsAnswered picture (.launch image) := by
  intro view text call hlast
  cases hlast

variable {svc picture}

theorem Coherent.step {l l' : Loader Image} {e : Event Data} (h : Coherent picture l)
    (hok : Successful svc picture e) (hs : step svc l e = some l') : Coherent picture l' := by
  cases happens_of_step hs with
  | hit view text p hcached =>
      exact ⟨h.cached, fun d hd => (h.numbered d hd).trans (Nat.lt_succ_self _), h.nodup⟩
  | miss view text hmiss =>
      refine ⟨h.cached, ?_, List.nodup_cons.2 ⟨?_, h.nodup⟩⟩
      · intro d hd
        rcases List.mem_cons.1 hd with rfl | hold
        · exact Nat.lt_succ_self _
        · exact (h.numbered d hold).trans (Nat.lt_succ_self _)
      · -- the number of a new call is new
        intro hmem
        exact lt_irrefl _ (h.numbered _ hmem)
  | shows d bytes p hmem hurl himage =>
      refine ⟨?_, fun d' hd' => h.numbered d' (List.mem_of_mem_erase hd'), h.nodup.erase d⟩
      intro text p' hp'
      -- the text that was just cached has the picture of its download
      by_cases htext : text = d.text
      · subst htext
        rcases hok with ⟨_, bytes', hbytes, himage'⟩
        cases hbytes
        have hp : p = picture d.text := Option.some.inj (himage.symm.trans himage')
        have hsame : p = p' := by simpa using hp'
        exact hsame.symm.trans hp
      · exact h.cached text p' (by simpa [htext] using hp')
  | noPicture d data bytes hmem hbytes himage =>
      exact ⟨h.cached, fun d' hd' => h.numbered d' (List.mem_of_mem_erase hd'), h.nodup.erase d⟩
  | traps d data hmem htrap => exact ⟨h.cached, h.numbered, h.nodup⟩
  | evict text =>
      refine ⟨?_, h.numbered, h.nodup⟩
      intro text' p hp
      by_cases htext : text' = text
      · simp [htext] at hp
      · exact h.cached text' p (by simpa [htext] using hp)

/-- What a call does to the pictures of the other views, and to the calls on them. -/
theorem last_update_cases {l : Loader Image} {view view' : ℕ} {text text' : String} {call : ℕ}
    (h : Function.update l.last view (some (text, l.calls)) view' = some (text', call)) :
    (view' = view ∧ text' = text ∧ call = l.calls) ∨
      (view' ≠ view ∧ l.last view' = some (text', call)) := by
  by_cases hview : view' = view
  · subst hview
    have heq : text = text' ∧ l.calls = call := by simpa using h
    exact Or.inl ⟨rfl, heq.1.symm, heq.2.symm⟩
  · exact Or.inr ⟨hview, by simpa [hview] using h⟩

/-- With successful downloads, an event keeps the pictures right exactly if it was not overtaken. -/
theorem ShowsAnswered.step_iff {l l' : Loader Image} {e : Event Data} (hc : Coherent picture l)
    (h : ShowsAnswered picture l) (hok : Successful svc picture e) (hs : step svc l e = some l') :
    ShowsAnswered picture l' ↔ NotOvertaken picture l e := by
  cases happens_of_step hs with
  | hit view text p hcached =>
      refine iff_of_true ?_ trivial
      intro view' text' call hlast hnone
      rcases last_update_cases hlast with ⟨rfl, rfl, rfl⟩ | ⟨hview, hlast⟩
      · -- a cached picture is the right one
        simp [hc.cached text' p hcached]
      · simpa [hview] using h view' text' call hlast hnone
  | miss view text hmiss =>
      refine iff_of_true ?_ trivial
      intro view' text' call hlast hnone
      rcases last_update_cases hlast with ⟨rfl, rfl, rfl⟩ | ⟨hview, hlast⟩
      · -- the new block is pending
        exact absurd List.mem_cons_self hnone
      · exact h view' text' call hlast fun hmem => hnone (List.mem_cons_of_mem _ hmem)
  | shows d bytes p hmem hurl himage =>
      rcases hok with ⟨_, bytes', hbytes, himage'⟩
      cases hbytes
      have hp : p = picture d.text := Option.some.inj (himage.symm.trans himage')
      subst hp
      constructor
      · intro h' text call hlast
        by_cases hpending : { view := d.view, text := text, call := call } ∈ l.downloads
        · exact Or.inl hpending
        · -- the view's last call was answered before, so the view must still show its picture
          have hshown := h' d.view text call hlast
            fun hmem' => hpending (List.mem_of_mem_erase hmem')
          have heq : picture d.text = picture text := by simpa using hshown
          exact Or.inr heq.symm
      · intro hover view text call hlast hnone
        by_cases hview : view = d.view
        · subst hview
          have heq : picture text = picture d.text := by
            rcases hover text call hlast with hpending | heq
            · -- the block that ends is the one of the last call
              have hself : (⟨d.view, text, call⟩ : Download) = d := by
                by_contra hne
                exact hnone ((List.mem_erase_of_ne hne).2 hpending)
              exact congrArg picture (congrArg Download.text hself)
            · exact heq
          simp [heq]
        · -- the block is of another view
          have hother : (⟨view, text, call⟩ : Download) ≠ d := by
            intro heq
            exact hview (congrArg Download.view heq)
          have hold := h view text call hlast
            fun hmem' => hnone ((List.mem_erase_of_ne hother).2 hmem')
          simpa [hview] using hold
  | noPicture d data bytes hmem hbytes himage =>
      -- a successful download brings a picture
      rcases hok with ⟨_, bytes', rfl, himage'⟩
      have heq : bytes' = bytes := by simpa using hbytes
      simp [heq, himage] at himage'
  | traps d data hmem htrap =>
      rcases hok with ⟨hurl, bytes', rfl, _⟩
      exact absurd ⟨hurl, Or.inl rfl⟩ htrap
  | evict text => exact iff_of_true h trivial

/-- If all downloads succeed, in any order: at any time each view whose last call has been answered
shows the picture of that call, exactly as long as no download is overtaken; and then each view ends
with the picture of its last call. -/
theorem showsAnswered_iff_notOvertaken (image : ℕ → Option Image) {es : List (Event Data)}
    (hok : ∀ e ∈ es, Successful svc picture e) :
    (Step.Throughout (step svc) (ShowsAnswered picture) (.launch image) es ↔
      Step.Along (step svc) (fun l e _ => NotOvertaken picture l e) (.launch image) es) ∧
    (Step.Along (step svc) (fun l e _ => NotOvertaken picture l e) (.launch image) es →
      Step.Throughout (step svc) (ShowsLast picture) (.launch image) es) := by
  have hexact : Step.Throughout (step svc) (ShowsAnswered picture) (.launch image) es ↔
      Step.Along (step svc) (fun l e _ => NotOvertaken picture l e) (.launch image) es :=
    Step.throughout_iff_along_of_mem (I := Coherent picture) (Q := Successful svc picture)
      (fun l e l' hok hc hs => hc.step hok hs)
      (fun l e l' hok hc h hs => h.step_iff hc hok hs) hok
      (coherent_launch picture image) (showsAnswered_launch picture image)
  refine ⟨hexact, ?_⟩
  intro hover es₁ es₂ l hes hrun
  exact (hexact.2 hover es₁ es₂ l hes hrun).showsLast

end Pictures

/-- Texts as their own URLs, with themselves as pictures. -/
def plainServices : ImageServices { s : String // s ≠ "" } String String where
  url s := if h : s = "" then none else some ⟨s, h⟩
  absoluteString := Subtype.val
  image data := if data = "" then none else some data
  loading := some "loading"
  url_empty := rfl
  url_absoluteString u := by simp [u.property]

/-- Two calls on one view; the blocks run in the order given. -/
def twoCalls (first second : String × ℕ) : List (Event String) :=
  [.load 0 "a", .load 0 "b",
    .downloaded { view := 0, text := first.1, call := first.2 } (some first.1),
    .downloaded { view := 0, text := second.1, call := second.2 } (some second.1)]

theorem successful_twoCalls {first second : String × ℕ} (h₁ : first.1 ≠ "") (h₂ : second.1 ≠ "") :
    ∀ e ∈ twoCalls first second, Successful plainServices id e := by
  intro e he
  simp only [twoCalls, List.mem_cons, List.not_mem_nil, or_false] at he
  rcases he with rfl | rfl | rfl | rfl
  · trivial
  · trivial
  · simp [Successful, plainServices, h₁]
  · simp [Successful, plainServices, h₂]

/-- In the order of the calls, the view ends with the picture of the second one. -/
theorem inTurn_showsLast :
    Step.Throughout (step plainServices) (ShowsLast id) (.launch fun _ => none)
      (twoCalls ("a", 0) ("b", 1)) := by
  refine (showsAnswered_iff_notOvertaken _ (successful_twoCalls (by simp) (by simp))).2 ?_
  refine Step.along_cons.2 fun l₁ h₁ => ⟨trivial, Step.along_cons.2 fun l₂ h₂ => ⟨trivial, ?_⟩⟩
  cases h₁
  cases h₂
  refine Step.along_cons.2 fun l₃ h₃ => ⟨?_, Step.along_cons.2 fun l₄ h₄ => ⟨?_, Step.along_nil⟩⟩
  · rintro text call ⟨⟩
    exact Or.inl (by decide)
  · cases h₃
    rintro text call ⟨⟩
    exact Or.inl (by decide)

/-- In the other order it ends with the picture of the first one. -/
theorem overtaken_not_showsLast :
    ¬ ∀ (svc : ImageServices { s : String // s ≠ "" } String String) (picture : String → String)
        (image : ℕ → Option String) (es : List (Event String)),
      (∀ e ∈ es, Successful svc picture e) →
        Step.Throughout (step svc) (ShowsLast picture) (.launch image) es := by
  intro h
  obtain ⟨l, hrun, hnone, hlast, himage⟩ : ∃ l,
      Step.run (step plainServices) (.launch fun _ => none) (twoCalls ("b", 1) ("a", 0)) = some l ∧
      l.downloads = [] ∧ l.last 0 = some ("b", 1) ∧ l.image 0 = some "a" :=
    ⟨_, rfl, rfl, rfl, rfl⟩
  have hshows := h plainServices id (fun _ => none) (twoCalls ("b", 1) ("a", 0))
    (successful_twoCalls (by simp) (by simp)) _ [] l (by simp) hrun hnone 0 "b" 1 hlast
  exact absurd (himage.symm.trans hshows) (by decide)

end View
end AppChatAgain
