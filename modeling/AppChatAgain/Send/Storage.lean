import Mathlib.Data.Fintype.Card
import AppChatAgain.Send.World

/-!
# Send.Storage — the images behind the image messages

`upload_image_to_firebase` names the object of an image by a random number between 0 and 10000.
All clients upload to one bucket, and an object at a path that is taken is replaced.  So the images
stay what they were exactly as long as the uploads that succeed have drawn different numbers.
-/

namespace AppChatAgain
namespace Send

open Foundation Firebase Records

/-! ## Uploads and image messages of a run -/

/-- The uploads whose `putData` has succeeded, in order. -/
def uploaded (es : List Event) : List Upload :=
  es.filterMap fun
    | .putDataAnswered u true => some u
    | _ => none

/-- The image messages that were sent, with the upload of each. -/
def imageMessages (es : List Event) : List (String × Upload) :=
  es.filterMap fun
    | .downloadUrlDone u _ key _ => some (key, u)
    | _ => none

/-- No two successful uploads have one path, and behind every image message there is the image that
was uploaded with it. -/
structure NoOverwrite (es : List Event) (w : World) : Prop where
  paths : (uploaded es).Pairwise fun u v => u.folderChat ≠ v.folderChat
  objects : ∀ key u, (key, u) ∈ imageMessages es → w.storage u.folderChat = some u.image

/-! ## Paths -/

/-- A numeral determines its number, which its digits spell. -/
theorem eq_of_toString_eq {m n : ℕ} (h : toString m = toString n) : m = n := by
  have hlist : (toString m).toList = (toString n).toList := congrArg String.toList h
  have hdigits : Nat.toDigits 10 m = Nat.toDigits 10 n := by simpa using hlist
  simpa using congrArg (fun ds => Nat.ofDigitChars 10 ds 0) hdigits

/-- Paths are the same only for the same number. -/
theorem Upload.folderChat_eq_iff {u v : Upload} :
    u.folderChat = v.folderChat ↔ u.randomImage = v.randomImage := by
  constructor
  · intro h
    have hname : toString u.randomImage.val = toString v.randomImage.val := by
      have hprefix := (String.append_left_inj ".jpg").1 h
      exact (String.append_right_inj "Chat:/").1 hprefix
    exact Fin.val_injective (eq_of_toString_eq hname)
  · intro h
    simp [Upload.folderChat, h]

theorem paths_iff_nodup (us : List Upload) :
    us.Pairwise (fun u v => u.folderChat ≠ v.folderChat) ↔ (us.map Upload.randomImage).Nodup := by
  simp only [List.nodup_iff_pairwise_ne, List.pairwise_map, ne_eq, Upload.folderChat_eq_iff]

/-- There are 10001 numbers to draw, so no run with more uploads than that keeps its images. -/
theorem NoOverwrite.length_uploaded_le {es : List Event} {w : World} (h : NoOverwrite es w) :
    (uploaded es).length ≤ 10001 := by
  have hnd : ((uploaded es).map Upload.randomImage).Nodup := (paths_iff_nodup _).1 h.paths
  simpa using hnd.length_le_card

/-! ## Runs -/

theorem uploaded_concat (es : List Event) (e : Event) :
    uploaded (es ++ [e]) = uploaded es ++ uploaded [e] := by
  simp [uploaded]

theorem imageMessages_concat (es : List Event) (e : Event) :
    imageMessages (es ++ [e]) = imageMessages es ++ imageMessages [e] := by
  simp [imageMessages]

/-- What a run has uploaded: whatever waits for its URL, and every image message, is among it. -/
structure Uploads (es : List Event) (w : World) : Prop where
  downloadUrls : ∀ u ∈ w.downloadUrls, u ∈ uploaded es
  imageMessages : ∀ key u, (key, u) ∈ imageMessages es → u ∈ uploaded es
  objects : ((uploaded es).map Upload.randomImage).Nodup →
    ∀ u ∈ uploaded es, w.storage u.folderChat = some u.image

theorem uploads_init : Uploads [] .init where
  downloadUrls u h := by simp [World.init] at h
  imageMessages key u h := by simp [Send.imageMessages] at h
  objects _ u h := by simp [uploaded] at h

/-- An event that uploads nothing, sends nothing and leaves the bucket alone. -/
theorem Uploads.concat_of_nil {es : List Event} {w w' : World} {e : Event} (h : Uploads es w)
    (hup : uploaded [e] = []) (himg : Send.imageMessages [e] = [])
    (hurls : w'.downloadUrls ⊆ w.downloadUrls) (hstorage : w'.storage = w.storage) :
    Uploads (es ++ [e]) w' where
  downloadUrls u hu := by
    simpa [uploaded_concat, hup] using h.downloadUrls u (hurls hu)
  imageMessages key u hu := by
    have hold : (key, u) ∈ Send.imageMessages es := by
      simpa [imageMessages_concat, himg] using hu
    simpa [uploaded_concat, hup] using h.imageMessages key u hold
  objects := by
    simpa [uploaded_concat, hup, hstorage] using h.objects

/-- A successful upload puts its image at its path, and leaves the paths of the others alone. -/
theorem Uploads.concat_putData {es : List Event} {w w' : World} {u : Upload} (h : Uploads es w)
    (hurls : w'.downloadUrls = u :: w.downloadUrls)
    (hstorage : w'.storage = Function.update w.storage u.folderChat (some u.image)) :
    Uploads (es ++ [.putDataAnswered u true]) w' := by
  have hup : uploaded (es ++ [.putDataAnswered u true]) = uploaded es ++ [u] :=
    uploaded_concat es _
  have himg : Send.imageMessages (es ++ [.putDataAnswered u true]) = Send.imageMessages es := by
    simp [Send.imageMessages]
  refine ⟨?_, ?_, ?_⟩
  · intro v hv
    have hmem : v = u ∨ v ∈ w.downloadUrls := by simpa [hurls] using hv
    rcases hmem with heq | hold
    · simp [hup, heq]
    · simp [hup, h.downloadUrls v hold]
  · intro key v hv
    have hold : (key, v) ∈ Send.imageMessages es := by simpa only [himg] using hv
    simp [hup, h.imageMessages key v hold]
  · intro hnd v hv
    -- the number that was drawn is a new one, so no object is replaced
    have hsplit : ((uploaded es).map Upload.randomImage).Nodup ∧
        ∀ v ∈ uploaded es, v.randomImage ≠ u.randomImage := by
      have hnd' := List.nodup_append.1 (by simpa [hup] using hnd)
      refine ⟨hnd'.1, ?_⟩
      intro v hv
      exact hnd'.2.2 _ (List.mem_map_of_mem hv) _ (by simp)
    have hmem : v ∈ uploaded es ∨ v = u := by simpa [hup] using hv
    rcases hmem with hold | heq
    · have hne : v.folderChat ≠ u.folderChat := fun hpath =>
        hsplit.2 v hold (Upload.folderChat_eq_iff.1 hpath)
      simpa [hstorage, Function.update_of_ne hne] using h.objects hsplit.1 v hold
    · simp [hstorage, heq]

/-- The message of an upload whose URL is there; the bucket stays as it is. -/
theorem Uploads.concat_downloadUrl {es : List Event} {w w' : World} {u : Upload}
    (h : Uploads es w) (hmem : u ∈ w.downloadUrls) (imageUrl : Option String) (key : String)
    (now : ℤ) (hurls : w'.downloadUrls ⊆ w.downloadUrls) (hstorage : w'.storage = w.storage) :
    Uploads (es ++ [.downloadUrlDone u imageUrl key now]) w' := by
  have hup : uploaded (es ++ [.downloadUrlDone u imageUrl key now]) = uploaded es := by
    simp [uploaded]
  refine ⟨?_, ?_, ?_⟩
  · intro v hv
    simpa only [hup] using h.downloadUrls v (hurls hv)
  · intro key' v hv
    have himg : (key', v) ∈ Send.imageMessages es ∨ key' = key ∧ v = u := by
      simpa [Send.imageMessages] using hv
    rcases himg with hold | ⟨_, heq⟩
    · simpa only [hup] using h.imageMessages key' v hold
    · simpa only [hup, heq] using h.downloadUrls u hmem
  · simpa only [hup, hstorage] using h.objects

/-- What every event does to the uploads of a run. -/
theorem Uploads.happens {es : List Event} {w w' : World} {e : Event} (h : Uploads es w)
    (he : Happens w e w') : Uploads (es ++ [e]) w' := by
  cases he with
  | putDataStored u hmem => exact h.concat_putData rfl rfl
  | downloadUrlDone u imageUrl key now screen hmem hscreen hrun hfresh =>
      exact h.concat_downloadUrl hmem imageUrl key now (fun v hv => List.mem_of_mem_erase hv) rfl
  | downloadUrlFailed u hmem =>
      exact h.concat_of_nil rfl rfl (fun v hv => List.mem_of_mem_erase hv) rfl
  | traps e c hmay =>
      -- the callbacks that can trap upload nothing and send nothing
      cases e <;> first
        | (cases hmay; done)
        | exact h.concat_of_nil rfl rfl (List.Subset.refl _) rfl
  | _ => exact h.concat_of_nil rfl rfl (List.Subset.refl _) rfl

theorem uploads_of_run {es : List Event} {w : World} (hrun : Step.run step .init es = some w) :
    Uploads es w := by
  refine Step.run_history uploads_init ?_ hrun
  intro es e w₁ w₂ _ h hstep
  exact h.happens (happens_of_step hstep)

/-- In every run of any number of clients, no image is overwritten exactly when no two of the
uploads that succeeded drew the same number. -/
theorem noOverwrite_iff_nodup {es : List Event} {w : World}
    (hrun : Step.run step .init es = some w) :
    NoOverwrite es w ↔ ((uploaded es).map Upload.randomImage).Nodup := by
  have huploads := uploads_of_run hrun
  constructor
  · intro h
    exact (paths_iff_nodup _).1 h.paths
  · intro hnd
    refine ⟨(paths_iff_nodup _).2 hnd, ?_⟩
    intro key u hu
    exact huploads.objects hnd u (huploads.imageMessages key u hu)

def pixel (data : List UInt8) : UIImage :=
  { pngData := some data
    width := NSNumber.ofInt 1
    height := NSNumber.ofInt 1 }

/-- A picture that `sender` picks in the chat with Bob. -/
def picture (client : ℕ) (data : List UInt8) (randomImage : Fin 10001) (sender : String) : Upload :=
  { client := client
    screen := 0
    image := pixel data
    randomImage := randomImage
    pickedBy := some sender
    pickedFor := some "bob" }

/-- Alice and Carol send Bob a picture each, from two clients; they draw `n` and `m`. -/
def twoPictures (n m : Fin 10001) : List Event :=
  [.profileWritten "bob" "Bob" "bob@chat" "secret" none,
    .authChanged 0 (some "alice"), .childAddedUser 0 "bob", .didSelectUser 0 0,
    .authChanged 1 (some "carol"), .childAddedUser 1 "bob", .didSelectUser 1 0,
    .pickImage 0 0 (pixel [1]) n, .putDataAnswered (picture 0 [1] n "alice") true,
    .downloadUrlDone (picture 0 [1] n "alice") (some "url/1") "k1" 1,
    .pickImage 1 0 (pixel [2]) m, .putDataAnswered (picture 1 [2] m "carol") true,
    .downloadUrlDone (picture 1 [2] m "carol") (some "url/2") "k2" 2]

/-- If they draw 6 and 7, both pictures stay. -/
theorem twoPictures_noOverwrite :
    ∃ w, Step.run step .init (twoPictures 6 7) = some w ∧ NoOverwrite (twoPictures 6 7) w := by
  obtain ⟨w, hrun⟩ : ∃ w, Step.run step .init (twoPictures 6 7) = some w := ⟨_, rfl⟩
  exact ⟨w, hrun, (noOverwrite_iff_nodup hrun).2 (by decide)⟩

/-- If they both draw 7, Alice's picture is replaced by Carol's. -/
theorem twoPictures_overwrite :
    ¬ ∀ (es : List Event) (w : World), Step.run step .init es = some w → NoOverwrite es w := by
  intro h
  obtain ⟨w, hrun, hstored⟩ : ∃ w, Step.run step .init (twoPictures 7 7) = some w ∧
      w.storage "Chat:/7.jpg" = some (pixel [2]) := ⟨_, rfl, rfl⟩
  have hobject := (h _ w hrun).objects "k1" (picture 0 [1] 7 "alice") (by decide)
  have hsame : some (pixel [2]) = some (pixel [1]) := hstored.symm.trans hobject
  exact absurd hsame (by decide)

end Send
end AppChatAgain
