import Mathlib.Data.List.Range
import AppChatAgain.Firebase.Value
import AppChatAgain.Foundation.Run

/-!
# View.Zoom — a picture of the chat in full screen

`image_chat_zoom` puts a black background and a copy of the picture into the key window, and
`handle_zoom_out` takes the copy away again when its animation has ended.  Zooms are numbered, and
their two views with them; the code keeps only the last ones in `background` and `zoom_view`.

* `imageChatZoom`, `handleZoomOut` : the two functions, with what `UIView.animate` does at once;
* `completion`                     : the block that the second one leaves to `UIView.animate`;
* `step`                           : zooms, taps and blocks, in any order;
* `Settled`                        : all zooms are closed, and all blocks have run.

The main result says what of the window is then as it was before the first zoom.
-/

namespace AppChatAgain
namespace View
namespace Zoom

open Foundation Firebase

/-! ## The window and the screen -/

/-- A view that `image_chat_zoom` adds to the window. -/
inductive Overlay where
  | background (n : ℕ)
  | zoomView (n : ℕ)
  deriving DecidableEq, Repr

inductive Subview (V : Type) where
  /-- a view that was in the window before -/
  | own (v : V)
  | overlay (o : Overlay)
  deriving DecidableEq, Repr

namespace Subview

variable {V : Type}

def isZoomView : Subview V → Bool
  | .overlay (.zoomView _) => true
  | _ => false

@[simp] theorem isZoomView_own (v : V) : (own v).isZoomView = false :=
  rfl

@[simp] theorem isZoomView_background (n : ℕ) :
    (overlay (.background n) : Subview V).isZoomView = false :=
  rfl

@[simp] theorem isZoomView_zoomView (n : ℕ) :
    (overlay (.zoomView n) : Subview V).isZoomView = true :=
  rfl

end Subview

structure Window (V Color : Type) where
  /-- back to front -/
  subviews : List (Subview V)
  backgroundColor : Option Color

namespace Window

variable {V Color : Type}

/-- `addSubview`, of a new view. -/
def addSubview (w : Window V Color) (o : Overlay) : Window V Color :=
  { w with subviews := w.subviews ++ [.overlay o] }

/-- `removeFromSuperview`, which does nothing to a view that is not in the window. -/
def removeSubview [DecidableEq V] (w : Window V Color) (o : Overlay) : Window V Color :=
  { w with subviews := w.subviews.filter fun v => v ≠ .overlay o }

/-- Removing the picture of a zoom removes no other view. -/
theorem filter_removeSubview [DecidableEq V] (w : Window V Color) (n : ℕ) :
    (w.removeSubview (.zoomView n)).subviews.filter (fun v => !v.isZoomView) =
      w.subviews.filter fun v => !v.isZoomView := by
  simp only [removeSubview, List.filter_filter]
  refine List.filter_congr ?_
  intro v _
  cases hzoom : v.isZoomView with
  | true => simp
  | false =>
      have hne : v ≠ .overlay (.zoomView n) := by
        intro heq
        simp [heq] at hzoom
      simp [hne]

end Window

/-- The part of `chat_collect` that zooming reads and writes. -/
structure ChatCollect (V Rect Color : Type) where
  /-- `UIApplication.shared.keyWindow` -/
  keyWindow : Option (Window V Color)
  collectIsHidden : Bool
  viewChatIsHidden : Bool
  viewChatAlpha : ℚ
  startingViewFrame : Option Rect
  /-- `background`, by the number of the zoom that made it -/
  background : Option ℕ
  /-- `zoom_view`, likewise -/
  zoomView : Option ℕ
  backgroundAlpha : ℕ → ℚ
  /-- the number of zooms so far; the code does not count them -/
  zooms : ℕ
  /-- the completion blocks of `handle_zoom_out` that have not run -/
  completions : ℕ
  /-- a function has trapped -/
  stopped : Bool

namespace ChatCollect

variable {V Rect Color : Type}

/-- Nothing has been zoomed. -/
def start (window : Option (List V × Option Color)) (collectIsHidden viewChatIsHidden : Bool)
    (viewChatAlpha : ℚ) : ChatCollect V Rect Color where
  keyWindow := window.map fun w =>
    { subviews := w.1.map .own
      backgroundColor := w.2 }
  collectIsHidden := collectIsHidden
  viewChatIsHidden := viewChatIsHidden
  viewChatAlpha := viewChatAlpha
  startingViewFrame := none
  background := none
  zoomView := none
  backgroundAlpha := fun _ => 0
  zooms := 0
  completions := 0
  stopped := false

def subviews (s : ChatCollect V Rect Color) : List (Subview V) :=
  (s.keyWindow.map Window.subviews).getD []

/-- The view is an overlay that can be seen. -/
def covers (s : ChatCollect V Rect Color) : Subview V → Bool
  | .own _ => false
  | .overlay (.background n) => s.backgroundAlpha n != 0
  | .overlay (.zoomView _) => true

/-- A picture is in full screen, or at least its black background. -/
def isZoomed (s : ChatCollect V Rect Color) : Bool :=
  s.subviews.any s.covers

end ChatCollect

/-! ## Zooming in and out -/

section Functions

variable {V Rect Color : Type} (black : Color)

/-- `image_chat_zoom`.  `frame` is what `superview?.convert` returns. -/
def imageChatZoom (frame : Option Rect) : EStateM Trap (ChatCollect V Rect Color) Unit := do
  modify fun s => { s with startingViewFrame := frame }
  let _frame ← ofExcept (forceUnwrap (← get).startingViewFrame)
  let n := (← get).zooms
  modify fun s => { s with
    zoomView := some n
    zooms := n + 1 }
  match (← get).keyWindow with
  | none => return
  | some keyWindow =>
      -- the plain view that `background` is set to first is replaced at once
      modify fun s => { s with
        background := some n
        backgroundAlpha := Function.update s.backgroundAlpha n 0 }
      modify fun s => { s with
        keyWindow := some ((keyWindow.addSubview (.background n)).addSubview (.zoomView n)) }
      -- `animate` makes the changes now, and shows them over time
      let _zoomView ← ofExcept (forceUnwrap (← get).zoomView)
      let background ← ofExcept (forceUnwrap (← get).background)
      modify fun s => { s with
        backgroundAlpha := Function.update s.backgroundAlpha background 1
        keyWindow := s.keyWindow.map fun w => { w with backgroundColor := some black }
        collectIsHidden := true
        viewChatIsHidden := true }

/-- `handle_zoom_out`.  Both views that can be tapped are `UIImageView`s. -/
def handleZoomOut : EStateM Trap (ChatCollect V Rect Color) Unit := do
  let _frame ← ofExcept (forceUnwrap (← get).startingViewFrame)
  let background ← ofExcept (forceUnwrap (← get).background)
  modify fun s => { s with
    backgroundAlpha := Function.update s.backgroundAlpha background 0
    viewChatAlpha := 1
    completions := s.completions + 1 }

/-- The completion block of `handle_zoom_out`.  It reads `zoom_view` only now. -/
def completion [DecidableEq V] (s : ChatCollect V Rect Color) : ChatCollect V Rect Color :=
  { s with
    keyWindow := match s.zoomView with
      | some n => s.keyWindow.map fun w => w.removeSubview (.zoomView n)
      | none => s.keyWindow
    collectIsHidden := false
    viewChatIsHidden := false
    completions := s.completions - 1 }

inductive Event (Rect : Type) where
  /-- `chat_zoom` of a cell, with its picture -/
  | imageChatZoom (frame : Option Rect)
  | tap (o : Overlay)
  | completion
  deriving DecidableEq, Repr

/-- The call finds the frame of the picture. -/
def Event.zooms {Rect : Type} : Event Rect → Bool
  | .imageChatZoom (some _) => true
  | _ => false

/-- What a function leaves; a trap keeps what it has written, and stops everything. -/
def leaves (f : EStateM Trap (ChatCollect V Rect Color) Unit) (s : ChatCollect V Rect Color) :
    ChatCollect V Rect Color :=
  match f s with
  | .ok _ s' => s'
  | .error _ s' => { s' with stopped := true }

/-- One event.  A picture is zoomed only while none is, and only views in the window are tapped. -/
def step [DecidableEq V] : Step (ChatCollect V Rect Color) (Event Rect)
  | s, .imageChatZoom frame =>
      if s.stopped || s.isZoomed then none
      else some (leaves (imageChatZoom black frame) s)
  | s, .tap o =>
      if s.stopped then none
      else if Subview.overlay o ∈ s.subviews then some (leaves handleZoomOut s)
      else none
  | s, .completion =>
      if s.stopped || s.completions == 0 then none
      else some (completion s)

/-! ## What an event does -/

variable {black}

theorem leaves_imageChatZoom_window {s : ChatCollect V Rect Color} {w : Window V Color}
    (frame : Rect) (hwindow : s.keyWindow = some w) :
    leaves (imageChatZoom black (some frame)) s =
      { s with
        startingViewFrame := some frame
        zoomView := some s.zooms
        zooms := s.zooms + 1
        background := some s.zooms
        backgroundAlpha := Function.update s.backgroundAlpha s.zooms 1
        keyWindow := some
          { subviews := w.subviews ++
              [.overlay (.background s.zooms), .overlay (.zoomView s.zooms)]
            backgroundColor := some black }
        collectIsHidden := true
        viewChatIsHidden := true } := by
  cases s
  cases hwindow
  -- the background is transparent only until `animate` is called
  simp [leaves, imageChatZoom, modify_bind, modify_run, get_bind, ofExcept_bind, Window.addSubview]

theorem leaves_imageChatZoom_noWindow {s : ChatCollect V Rect Color} (frame : Rect)
    (hwindow : s.keyWindow = none) :
    leaves (imageChatZoom black (some frame)) s =
      { s with
        startingViewFrame := some frame
        zoomView := some s.zooms
        zooms := s.zooms + 1 } := by
  cases s
  cases hwindow
  rfl

theorem leaves_handleZoomOut {s : ChatCollect V Rect Color} {frame : Rect} {n : ℕ}
    (hframe : s.startingViewFrame = some frame) (hbackground : s.background = some n) :
    leaves handleZoomOut s =
      { s with
        backgroundAlpha := Function.update s.backgroundAlpha n 0
        viewChatAlpha := 1
        completions := s.completions + 1 } := by
  cases s
  cases hframe
  cases hbackground
  rfl

/-- Until a trap, `handle_zoom_out` finds a frame and a background when an overlay is tapped. -/
def Equipped (s : ChatCollect V Rect Color) : Prop :=
  s.stopped = false → ∀ o, Subview.overlay o ∈ s.subviews →
    s.startingViewFrame.isSome = true ∧ s.background.isSome = true

variable [DecidableEq V]

/-- Exactly what an event does. -/
inductive Happens (black : Color) (s : ChatCollect V Rect Color) :
    Event Rect → ChatCollect V Rect Color → Prop
  | noFrame :
      Happens black s (.imageChatZoom none) { s with
        startingViewFrame := none
        stopped := true }
  | noWindow (frame : Rect) (hwindow : s.keyWindow = none) :
      Happens black s (.imageChatZoom (some frame)) { s with
        startingViewFrame := some frame
        zoomView := some s.zooms
        zooms := s.zooms + 1 }
  | zooms (frame : Rect) (w : Window V Color) (hwindow : s.keyWindow = some w) :
      Happens black s (.imageChatZoom (some frame)) { s with
        startingViewFrame := some frame
        zoomView := some s.zooms
        zooms := s.zooms + 1
        background := some s.zooms
        backgroundAlpha := Function.update s.backgroundAlpha s.zooms 1
        keyWindow := some
          { subviews := w.subviews ++
              [.overlay (.background s.zooms), .overlay (.zoomView s.zooms)]
            backgroundColor := some black }
        collectIsHidden := true
        viewChatIsHidden := true }
  | taps (o : Overlay) (n : ℕ) (hmem : Subview.overlay o ∈ s.subviews) :
      Happens black s (.tap o) { s with
        backgroundAlpha := Function.update s.backgroundAlpha n 0
        viewChatAlpha := 1
        completions := s.completions + 1 }
  | completes (hpending : s.completions ≠ 0) : Happens black s .completion (completion s)

theorem happens_of_step {s s' : ChatCollect V Rect Color} {e : Event Rect} (h : Equipped s)
    (hs : step black s e = some s') : Happens black s e s' := by
  cases e with
  | imageChatZoom frame =>
      simp only [step, Option.ite_none_left_eq_some, Option.some.injEq] at hs
      rcases hs with ⟨_, rfl⟩
      cases frame with
      | none => exact .noFrame
      | some frame =>
          cases hwindow : s.keyWindow with
          | none =>
              simpa only [leaves_imageChatZoom_noWindow frame hwindow] using
                Happens.noWindow frame hwindow
          | some w =>
              simpa only [leaves_imageChatZoom_window frame hwindow] using
                Happens.zooms frame w hwindow
  | tap o =>
      simp only [step, Option.ite_none_left_eq_some, Option.ite_none_right_eq_some,
        Option.some.injEq] at hs
      rcases hs with ⟨hgo, hmem, rfl⟩
      rcases h (by simpa using hgo) o hmem with ⟨hframe, hbackground⟩
      rcases Option.isSome_iff_exists.1 hframe with ⟨frame, hframe⟩
      rcases Option.isSome_iff_exists.1 hbackground with ⟨n, hbackground⟩
      simpa only [leaves_handleZoomOut hframe hbackground] using Happens.taps o n hmem
  | completion =>
      simp only [step, Option.ite_none_left_eq_some, Option.some.injEq] at hs
      rcases hs with ⟨hpending, rfl⟩
      apply Happens.completes
      intro hnone
      simp [hnone] at hpending

/-- The completion block adds no view to the window. -/
theorem mem_subviews_of_completion {s : ChatCollect V Rect Color} {v : Subview V}
    (h : v ∈ (completion s).subviews) : v ∈ s.subviews := by
  cases hzoom : s.zoomView with
  | none => simpa [ChatCollect.subviews, completion, hzoom] using h
  | some n =>
      cases hwindow : s.keyWindow with
      | none => simp [ChatCollect.subviews, completion, hwindow, hzoom] at h
      | some w =>
          have hmem : v ∈ w.subviews ∧ v ≠ .overlay (.zoomView n) := by
            simpa [ChatCollect.subviews, completion, hwindow, hzoom, Window.removeSubview] using h
          simpa [ChatCollect.subviews, hwindow] using hmem.1

theorem Equipped.step {s s' : ChatCollect V Rect Color} {e : Event Rect} (h : Equipped s)
    (hs : step black s e = some s') : Equipped s' := by
  intro hgo o hmem
  cases happens_of_step h hs with
  | noFrame => simp at hgo
  | noWindow frame hwindow => simp [ChatCollect.subviews, hwindow] at hmem
  | zooms frame w hwindow => exact ⟨rfl, rfl⟩
  | taps o' n hmem' => exact h hgo o hmem
  | completes hpending => exact h hgo o (mem_subviews_of_completion hmem)

end Functions

/-! ## What stays in the window -/

section Leftovers

variable {V Rect Color : Type} [DecidableEq V]

/-- All zooms are closed, and their animations have ended. -/
def Settled (s : ChatCollect V Rect Color) : Prop :=
  s.isZoomed = false ∧ s.completions = 0

/-- The window and the visibility of the two views are as they were. -/
structure Restored (s₀ s : ChatCollect V Rect Color) : Prop where
  keyWindow : s.keyWindow = s₀.keyWindow
  collectIsHidden : s.collectIsHidden = s₀.collectIsHidden
  viewChatIsHidden : s.viewChatIsHidden = s₀.viewChatIsHidden
  viewChatAlpha : s.viewChatAlpha = s₀.viewChatAlpha

/-- The backgrounds of the first `n` zooms, back to front. -/
def backgrounds (V : Type) (n : ℕ) : List (Subview V) :=
  (List.range n).map fun i => .overlay (.background i)

/-- What the zooms so far have done to a window that was `w₀`. -/
structure Ledger (black : Color) (w₀ : Window V Color) (s : ChatCollect V Rect Color)
    (w : Window V Color) : Prop where
  window : s.keyWindow = some w
  subviews : w.subviews.filter (fun v => !v.isZoomView) = w₀.subviews ++ backgrounds V s.zooms
  backgroundColor : w.backgroundColor = if s.zooms = 0 then w₀.backgroundColor else some black
  hidden : 0 < s.zooms → s.collectIsHidden = true ∨ s.viewChatIsHidden = true →
    ∃ n, Subview.overlay (.zoomView n) ∈ w.subviews

theorem backgrounds_succ (V : Type) (n : ℕ) :
    backgrounds V (n + 1) = backgrounds V n ++ [.overlay (.background n)] := by
  simp [backgrounds, List.range_succ]

variable {black : Color} {w₀ w : Window V Color} {s₀ s s' : ChatCollect V Rect Color}
  {e : Event Rect}

/-- Every event keeps the ledger. -/
theorem Ledger.step (h : Ledger black w₀ s w) (hequipped : Equipped s)
    (hs : step black s e = some s') : ∃ w', Ledger black w₀ s' w' := by
  cases happens_of_step hequipped hs with
  | noFrame => exact ⟨w, h.window, h.subviews, h.backgroundColor, h.hidden⟩
  | noWindow frame hwindow =>
      cases hwindow.symm.trans h.window
  | zooms frame w₁ hwindow =>
      have hw : w₁ = w := Option.some.inj (hwindow.symm.trans h.window)
      subst hw
      refine ⟨_, rfl, ?_, by simp, ?_⟩
      · -- the new background comes after those that were left
        simp [h.subviews, backgrounds_succ]
      · intro _ _
        exact ⟨s.zooms, by simp⟩
  | taps o n hmem => exact ⟨w, h.window, h.subviews, h.backgroundColor, h.hidden⟩
  | completes hpending =>
      cases hzoom : s.zoomView with
      | none =>
          refine ⟨w, ?_, h.subviews, h.backgroundColor, ?_⟩
          · simp [completion, hzoom, h.window]
          · simp [completion]
      | some n =>
          refine ⟨w.removeSubview (.zoomView n), ?_, ?_, h.backgroundColor, ?_⟩
          · simp [completion, hzoom, h.window]
          · exact (w.filter_removeSubview n).trans h.subviews
          · simp [completion]

/-- Without a window, and before the first zoom, nothing has changed. -/
def Untouched (s₀ s : ChatCollect V Rect Color) : Prop :=
  s.zooms = 0 ∨ s₀.keyWindow = none → Restored s₀ s ∧ s.completions = 0

theorem Untouched.step (h : Untouched s₀ s) (hequipped : Equipped s)
    (hown : ∀ o, Subview.overlay o ∉ s₀.subviews) (hs : step black s e = some s') :
    Untouched s₀ s' := by
  intro hzero
  cases happens_of_step hequipped hs with
  | noFrame =>
      rcases h hzero with ⟨hr, hnone⟩
      exact ⟨⟨hr.keyWindow, hr.collectIsHidden, hr.viewChatIsHidden, hr.viewChatAlpha⟩, hnone⟩
  | noWindow frame hwindow =>
      have hnone₀ : s₀.keyWindow = none := by simpa using hzero
      rcases h (Or.inr hnone₀) with ⟨hr, hnone⟩
      exact ⟨⟨hr.keyWindow, hr.collectIsHidden, hr.viewChatIsHidden, hr.viewChatAlpha⟩, hnone⟩
  | zooms frame w hwindow =>
      have hnone₀ : s₀.keyWindow = none := by simpa using hzero
      have heq := (h (Or.inr hnone₀)).1.keyWindow
      simp [hwindow, hnone₀] at heq
  | taps o n hmem =>
      -- there is no overlay to tap
      have heq := (h hzero).1.keyWindow
      refine absurd ?_ (hown o)
      simpa [ChatCollect.subviews, heq] using hmem
  | completes hpending => exact absurd (h hzero).2 hpending

/-- What holds of every state that is reached from `s₀`. -/
structure Reached (black : Color) (s₀ s : ChatCollect V Rect Color) : Prop where
  equipped : Equipped s
  untouched : Untouched s₀ s
  ledger : ∀ w₀, s₀.keyWindow = some w₀ → ∃ w, Ledger black w₀ s w

variable {window : Option (List V × Option Color)} {collectIsHidden viewChatIsHidden : Bool}
  {viewChatAlpha : ℚ} {es : List (Event Rect)}

omit [DecidableEq V] in
theorem overlay_notMem_start (o : Overlay) :
    Subview.overlay o ∉ (ChatCollect.start window collectIsHidden viewChatIsHidden
      viewChatAlpha : ChatCollect V Rect Color).subviews := by
  cases window with
  | none => simp [ChatCollect.start, ChatCollect.subviews]
  | some w => simp [ChatCollect.start, ChatCollect.subviews]

theorem reached_of_run
    (hrun : Step.run (step black)
      (.start window collectIsHidden viewChatIsHidden viewChatAlpha) es = some s) :
    Reached black (.start window collectIsHidden viewChatIsHidden viewChatAlpha) s := by
  refine Step.run_invariant ?_ ?_ hrun
  · intro s e s' h hs
    refine ⟨h.equipped.step hs, h.untouched.step h.equipped overlay_notMem_start hs, ?_⟩
    intro w₀ hw₀
    rcases h.ledger w₀ hw₀ with ⟨w, hw⟩
    exact hw.step h.equipped hs
  · refine ⟨?_, ?_, ?_⟩
    · intro _ o hmem
      exact absurd hmem (overlay_notMem_start o)
    · intro _
      exact ⟨⟨rfl, rfl, rfl, rfl⟩, rfl⟩
    · intro w₀ hw₀
      refine ⟨w₀, hw₀, ?_, rfl, ?_⟩
      · -- the window has only its own views
        cases window with
        | none => cases hw₀
        | some views =>
            cases hw₀
            simp [ChatCollect.start, backgrounds, List.filter_map, Function.comp_def]
      · simp [ChatCollect.start]

/-- The zooms are counted. -/
theorem zooms_of_run
    (hrun : Step.run (step black)
      (.start window collectIsHidden viewChatIsHidden viewChatAlpha) es = some s) :
    s.zooms = es.countP Event.zooms := by
  refine Step.run_history (P := fun es s => s.zooms = es.countP Event.zooms) rfl ?_ hrun
  intro es e s₁ s₂ hrun₁ h hs
  cases happens_of_step (reached_of_run hrun₁).equipped hs with
  | noFrame => simpa [Event.zooms] using h
  | noWindow frame hwindow => simp [Event.zooms, h]
  | zooms frame w hwindow => simp [Event.zooms, h]
  | taps o n hmem => simpa [Event.zooms] using h
  | completes hpending => simpa [Event.zooms, completion] using h

omit [DecidableEq V] in
/-- When all zooms are closed, no picture is left in the window. -/
theorem Settled.notMem_zoomView (hs : Settled s) (hwindow : s.keyWindow = some w) {v : Subview V}
    (hv : v ∈ w.subviews) : v.isZoomView = false := by
  have hnot : ∀ v ∈ w.subviews, s.covers v = false := by
    simpa [ChatCollect.isZoomed, ChatCollect.subviews, hwindow] using hs.1
  have hcovers := hnot v hv
  cases v with
  | own v => rfl
  | overlay o =>
      cases o with
      | background n => rfl
      | zoomView n => simp [ChatCollect.covers] at hcovers

/-- When all zooms are closed, the window has one background more for each of them, and is black;
the two views are visible. -/
theorem leftovers_of_settled {views : List V} {backgroundColor : Option Color}
    (hrun : Step.run (step black) (.start (some (views, backgroundColor)) collectIsHidden
      viewChatIsHidden viewChatAlpha) es = some s) (hs : Settled s) :
    ∃ w, s.keyWindow = some w ∧
      w.subviews = views.map .own ++ backgrounds V (es.countP Event.zooms) ∧
      (0 < es.countP Event.zooms →
        w.backgroundColor = some black ∧ s.collectIsHidden = false ∧
          s.viewChatIsHidden = false) := by
  have hzooms := zooms_of_run hrun
  rcases (reached_of_run hrun).ledger _ rfl with ⟨w, h⟩
  refine ⟨w, h.window, ?_, ?_⟩
  · have hfilter : w.subviews.filter (fun v => !v.isZoomView) = w.subviews := by
      apply List.filter_eq_self.2
      intro v hv
      simp [hs.notMem_zoomView h.window hv]
    calc
      w.subviews = w.subviews.filter fun v => !v.isZoomView := hfilter.symm
      _ = views.map .own ++ backgrounds V s.zooms := h.subviews
      _ = views.map .own ++ backgrounds V (es.countP Event.zooms) := by rw [hzooms]
  · intro hpos
    have hpos' : 0 < s.zooms := hzooms ▸ hpos
    have hvisible : ¬ (s.collectIsHidden = true ∨ s.viewChatIsHidden = true) := by
      intro hhidden
      rcases h.hidden hpos' hhidden with ⟨n, hn⟩
      simpa using hs.notMem_zoomView h.window hn
    refine ⟨?_, ?_, ?_⟩
    · simpa [hpos'.ne'] using h.backgroundColor
    · simpa using fun hcollect => hvisible (Or.inl hcollect)
    · simpa using fun hview => hvisible (Or.inr hview)

theorem countP_zooms_eq_zero {Rect : Type} {es : List (Event Rect)} :
    es.countP Event.zooms = 0 ↔ ∀ frame, Event.imageChatZoom (some frame) ∉ es := by
  rw [List.countP_eq_zero]
  constructor
  · intro h frame hmem
    exact h _ hmem rfl
  · intro h e he hzooms
    cases e with
    | imageChatZoom frame =>
        cases frame with
        | none => simp [Event.zooms] at hzooms
        | some frame => exact h frame he
    | tap o => simp [Event.zooms] at hzooms
    | completion => simp [Event.zooms] at hzooms

/-- When all zooms are closed and their animations have ended, the window and the two views are as
they were exactly if there is no window, or no picture has been zoomed. -/
theorem restored_iff_not_zoomed
    (hrun : Step.run (step black)
      (.start window collectIsHidden viewChatIsHidden viewChatAlpha) es = some s) (hs : Settled s) :
    Restored (.start window collectIsHidden viewChatIsHidden viewChatAlpha) s ↔
      window = none ∨ ∀ frame, Event.imageChatZoom (some frame) ∉ es := by
  constructor
  · intro h
    cases window with
    | none => exact Or.inl rfl
    | some w₀ =>
        rcases w₀ with ⟨views, backgroundColor⟩
        rcases leftovers_of_settled hrun hs with ⟨w, hw, hsubviews, _⟩
        have hsame : w.subviews = views.map .own := by
          have heq := hw.symm.trans h.keyWindow
          cases heq
          rfl
        -- every zoom would have left a background
        have hnone : backgrounds V (es.countP Event.zooms) = [] := by
          simpa [hsame] using hsubviews
        have hzero : es.countP Event.zooms = 0 := by
          simpa [backgrounds] using hnone
        exact Or.inr (countP_zooms_eq_zero.1 hzero)
  · intro h
    refine ((reached_of_run hrun).untouched ?_).1
    rcases h with rfl | hnone
    · exact Or.inr rfl
    · exact Or.inl ((zooms_of_run hrun).trans (countP_zooms_eq_zero.2 hnone))

end Leftovers

/-- One picture is zoomed, and closed with one tap. -/
def zoomOnce : List (Event Unit) :=
  [.imageChatZoom (some ()), .tap (.zoomView 0), .completion]

/-- In a key window this leaves something behind; without one, zooming shows nothing. -/
theorem zoomOnce_restored_without_window :
    (∃ s : ChatCollect String Unit String,
      Step.run (step "black") (.start (some (["chat"], some "white")) false false 1) zoomOnce =
          some s ∧ Settled s ∧
        ¬ Restored (.start (some (["chat"], some "white")) false false 1) s) ∧
    ∃ s : ChatCollect String Unit String,
      Step.run (step "black") (.start none false false 1) [.imageChatZoom (some ())] = some s ∧
        Restored (.start none false false 1) s := by
  constructor
  · obtain ⟨s, hrun, hs⟩ : ∃ s : ChatCollect String Unit String,
        Step.run (step "black") (.start (some (["chat"], some "white")) false false 1) zoomOnce =
            some s ∧ Settled s :=
      ⟨_, rfl, rfl, rfl⟩
    refine ⟨s, hrun, hs, ?_⟩
    rw [restored_iff_not_zoomed hrun hs]
    simp [zoomOnce]
  · obtain ⟨s, hrun, hs⟩ : ∃ s : ChatCollect String Unit String,
        Step.run (step "black") (.start none false false 1) [.imageChatZoom (some ())] = some s ∧
          Settled s :=
      ⟨_, rfl, rfl, rfl⟩
    exact ⟨s, hrun, (restored_iff_not_zoomed hrun hs).2 (Or.inl rfl)⟩

/-- The background stays in the window. -/
theorem zoomOnce_not_restored :
    ¬ ∀ (window : Option (List String × Option String)) (viewChatAlpha : ℚ)
        (es : List (Event Unit)) (s : ChatCollect String Unit String),
      Step.run (step "black") (.start window false false viewChatAlpha) es = some s →
        Settled s → Restored (.start window false false viewChatAlpha) s := by
  intro h
  obtain ⟨s, hrun, hs, hwindow⟩ : ∃ s : ChatCollect String Unit String,
      Step.run (step "black") (.start (some (["chat"], some "white")) false false 1) zoomOnce =
          some s ∧ Settled s ∧ s.keyWindow = some
        { subviews := [.own "chat", .overlay (.background 0)]
          backgroundColor := some "black" } :=
    ⟨_, rfl, ⟨rfl, rfl⟩, rfl⟩
  have hsame := (h _ 1 zoomOnce s hrun hs).keyWindow
  cases hwindow.symm.trans hsame

end Zoom
end View
end AppChatAgain
