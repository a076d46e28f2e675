import Mathlib.Data.Rat.Defs
import AppChatAgain.Records.Mess

/-!
# View.ChatCell — reused cells of the chat

`chat_collect.tableView(_:cellForItemAt:)` configures a cell that has shown other messages before.
It sets all attributes of the cell on every path but one: a message that has neither a text nor an
image keeps the width and the hidden views of the message before it.
-/

namespace AppChatAgain
namespace View

open Firebase Records

/-! ## Cells -/

inductive UIColor where
  | rgb (red green blue : ℕ)
  | white
  | black
  | clear
  deriving DecidableEq, Repr

/-- What `cellForItemAt` sets of a `cell_chat_message`. -/
structure CellLook where
  /-- `text_label` -/
  text : String
  textColor : UIColor
  textIsHidden : Bool
  /-- `buble_view.backgroundColor` -/
  bubleColor : UIColor
  /-- `width_buble.constant` -/
  widthBuble : ℚ
  imageChatIsHidden : Bool
  imageProfilePartnerIsHidden : Bool
  leftBubleIsActive : Bool
  rightBubleIsActive : Bool
  deriving DecidableEq, Repr

structure ChatCell extends CellLook where
  /-- the text of the last `load_image` call on `image_chat`, which sets its bitmap later -/
  imageChat : Option String
  deriving DecidableEq, Repr

namespace ChatCell

/-- `init(frame:)`. -/
def initFrame : ChatCell :=
  { text := ""
    textColor := .white
    textIsHidden := false
    bubleColor := .rgb 61 91 151
    widthBuble := 200
    imageChatIsHidden := false
    imageProfilePartnerIsHidden := false
    leftBubleIsActive := false
    rightBubleIsActive := false
    imageChat := none }

/-- `cellForItemAt` for a message, with `currentUid` signed in.  `estimateWidth` is the width that
`estimate_frame_for_text` finds. -/
def cellForItemAt (estimateWidth : String → ℚ) (currentUid : Option String) (message : Mess)
    (cell : ChatCell) : ChatCell :=
  let cell := { cell with text := message.mess }
  let cell :=
    if currentUid = some message.fromid then
      { cell with
        bubleColor := .rgb 61 91 151
        textColor := .white
        imageProfilePartnerIsHidden := true
        leftBubleIsActive := false
        rightBubleIsActive := true }
    else
      let cell := { cell with
        bubleColor := .rgb 240 240 240
        imageProfilePartnerIsHidden := false
        textColor := .black }
      -- the grey is cleared at once
      { cell with
        bubleColor := .clear
        leftBubleIsActive := true
        rightBubleIsActive := false }
  if message.mess ≠ "" then
    { cell with
      widthBuble := estimateWidth message.mess + 32
      textIsHidden := false
      imageChatIsHidden := true }
  else if message.imageUrl ≠ "" then
    { cell with
      imageChat := some message.imageUrl
      bubleColor := .clear
      widthBuble := 300
      imageChatIsHidden := false
      textIsHidden := true }
  else cell

/-- A cell after the configurations of its history, from the first to the last. -/
def reused (estimateWidth : String → ℚ) (history : List (Option String × Mess)) : ChatCell :=
  history.foldl (fun cell shown => cell.cellForItemAt estimateWidth shown.1 shown.2) initFrame

variable (estimateWidth : String → ℚ) (currentUid : Option String) (message : Mess)

/-! ## What a cell keeps -/

/-- A message with a text or an image determines the whole look of its cell. -/
theorem look_cellForItemAt (h : message.mess ≠ "" ∨ message.imageUrl ≠ "") (cell cell' : ChatCell) :
    (cell.cellForItemAt estimateWidth currentUid message).toCellLook =
      (cell'.cellForItemAt estimateWidth currentUid message).toCellLook := by
  by_cases htext : message.mess = ""
  · have himage : message.imageUrl ≠ "" := h.resolve_left fun hne => hne htext
    by_cases hsender : currentUid = some message.fromid
    · simp [cellForItemAt, htext, himage, hsender]
    · simp [cellForItemAt, htext, himage, hsender]
  · by_cases hsender : currentUid = some message.fromid
    · simp [cellForItemAt, htext, hsender]
    · simp [cellForItemAt, htext, hsender]

/-- Any other message leaves the text view as hidden as it was. -/
theorem textIsHidden_cellForItemAt (htext : message.mess = "") (himage : message.imageUrl = "")
    (cell : ChatCell) :
    (cell.cellForItemAt estimateWidth currentUid message).textIsHidden = cell.textIsHidden := by
  by_cases hsender : currentUid = some message.fromid
  · simp [cellForItemAt, htext, himage, hsender]
  · simp [cellForItemAt, htext, himage, hsender]

/-- A picture from Bob. -/
def picture : Mess :=
  (MessData.image "bob" "alice" "url/1" (NSNumber.ofInt 1) (NSNumber.ofInt 1)
    (NSNumber.ofInt 1)).toMess

theorem textIsHidden_reused_picture :
    (reused estimateWidth [(some "alice", picture)]).textIsHidden = true :=
  rfl

/-! ## The law -/

/-- Any two cells, whatever they have shown, look the same once they are configured for a message,
exactly if the message has a text or an image. -/
theorem looksSame_iff_content :
    (∀ history history' : List (Option String × Mess),
      ((reused estimateWidth history).cellForItemAt estimateWidth currentUid message).toCellLook =
        ((reused estimateWidth history').cellForItemAt estimateWidth currentUid
          message).toCellLook) ↔
      message.mess ≠ "" ∨ message.imageUrl ≠ "" := by
  constructor
  · intro h
    by_contra hnone
    have hempty : message.mess = "" ∧ message.imageUrl = "" := by
      simpa [not_or] using hnone
    -- a new cell, and one that has just shown a picture
    have hsame : (initFrame.cellForItemAt estimateWidth currentUid message).textIsHidden =
        ((reused estimateWidth [(some "alice", picture)]).cellForItemAt estimateWidth currentUid
          message).textIsHidden :=
      congrArg CellLook.textIsHidden (h [] [(some "alice", picture)])
    -- an empty text leaves the label as the picture has left it
    simp only [textIsHidden_cellForItemAt _ _ _ hempty.1 hempty.2,
      textIsHidden_reused_picture] at hsame
    cases hsame
  · intro h history history'
    exact look_cellForItemAt estimateWidth currentUid message h _ _

/-- What Bob sends with an empty text field. -/
def emptyText : Mess :=
  (MessData.text "bob" "alice" "" (NSNumber.ofInt 2)).toMess

/-- A new cell shows it 200 points wide, and a cell that has shown a picture 300 points wide. -/
theorem emptyText_not_looksSame :
    ¬ ∀ (estimateWidth : String → ℚ) (currentUid : Option String) (message : Mess)
        (history history' : List (Option String × Mess)),
      ((reused estimateWidth history).cellForItemAt estimateWidth currentUid message).toCellLook =
        ((reused estimateWidth history').cellForItemAt estimateWidth currentUid
          message).toCellLook := by
  intro h
  have hsame := h (fun _ => 0) (some "alice") emptyText [] [(some "alice", picture)]
  have hwidth : (200 : ℚ) = 300 := congrArg CellLook.widthBuble hsame
  norm_num at hwidth

end ChatCell

end View
end AppChatAgain
