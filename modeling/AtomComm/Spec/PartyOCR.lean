import AtomComm.Lib.Rounding

/-! `PartyOCR`, the same class in both bots: from a screenshot to the texts of the twenty cells
of a party list. The place of the cells follows from the box of a heading that Tesseract finds.
OpenCV and Tesseract are parameters, with what the code relies on: a crop that is empty or not
inside the image throws, and a frame that is drawn changes no pixel outside of it. -/

namespace AtomComm

namespace PartyOCR

open Rounding

structure Rect where
  x : ℤ
  y : ℤ
  width : ℤ
  height : ℤ
  deriving DecidableEq

/-- A pixel of the rectangle. -/
def Rect.Mem (r : Rect) (p : ℤ × ℤ) : Prop :=
  (r.x ≤ p.1 ∧ p.1 < r.x + r.width) ∧ r.y ≤ p.2 ∧ p.2 < r.y + r.height

def Rect.Apart (r r' : Rect) : Prop := ∀ p, ¬(r.Mem p ∧ r'.Mem p)

/-- Some pixels of a screenshot, which is resized to 720 by 840. -/
def Rect.Inside (r : Rect) : Prop :=
  (0 ≤ r.x ∧ 0 < r.width ∧ r.x + r.width ≤ 720) ∧ 0 ≤ r.y ∧ 0 < r.height ∧ r.y + r.height ≤ 840

instance (r : Rect) : Decidable r.Inside := inferInstanceAs (Decidable (_ ∧ _))

/-- The box around a word, which lies in the screenshot. -/
structure Box where
  x : ℕ
  y : ℕ
  width : ℕ
  height : ℕ
  right : x + width ≤ 720
  bottom : y + height ≤ 840
  deriving DecidableEq

def Box.rect (b : Box) : Rect := ⟨b.x, b.y, b.width, b.height⟩

structure Word where
  text : String
  boundingBox : Box
  deriving DecidableEq

/-- OpenCV, Tesseract and `equalsIgnoreCase`; `none` where they throw. -/
structure Vision (Img Mat : Type) where
  equalsIgnoreCase : String → String → Bool
  loadAndPreprocessImage : Img → Option Mat
  getWords : Mat → Option (List Word)
  rectangle : Mat → Rect → Mat
  /-- The text of a crop, stripped. -/
  doOCR : Mat → Rect → Option String
  doOCR_rectangle : ∀ m r r', r.Apart r' → doOCR (rectangle m r) r' = doOCR m r'
  inside_of_doOCR : ∀ m r text, doOCR m r = some text → r.Inside

variable {Img Mat : Type} (v : Vision Img Mat)

def keywords : List String := ["cluster", "prioridad"]

/-- The word at `findKeywordIndex`. -/
def findKeyword (words : List Word) : Option Word :=
  words.find? fun word => keywords.any fun keyword => v.equalsIgnoreCase word.text keyword

/-- `calculateAndDrawROIs` before it draws. -/
def calculateROIs (rect : Box) (isCluster : Bool) : Rect × Rect :=
  if isCluster then
    (⟨rect.x - truncTimes 97 100 rect.width, rect.y + 10 * rect.height,
        rect.x + truncTimes 36 100 rect.width, rect.y + truncTimes 302 10 rect.height⟩,
      ⟨rect.x + truncTimes 198 100 rect.width, rect.y + 10 * rect.height,
        rect.x + truncTimes 265 100 rect.width, rect.y + truncTimes 302 10 rect.height⟩)
  else
    (⟨rect.x - truncTimes 80 100 rect.width, rect.y + truncTimes 103 10 rect.height,
        truncTimes 29 100 rect.width, 31 * rect.height⟩,
      ⟨rect.x + truncTimes 161 100 rect.width, rect.y + truncTimes 103 10 rect.height,
        truncTimes 265 100 rect.width, 31 * rect.height⟩)

def calculateAndDrawROIs (image : Mat) (rect : Box) (isCluster : Bool) : Rect × Rect × Mat :=
  let (leftROI, rightROI) := calculateROIs rect isCluster
  (leftROI, rightROI, v.rectangle (v.rectangle image leftROI) rightROI)

/-- The crop of row `i` in the column of `roi`. -/
def cell (roi : Rect) (keywordROI : Box) (i : ℕ) : Rect :=
  ⟨roi.x, roi.y + i * truncTimes 205 100 keywordROI.height,
    truncTimes 133 100 keywordROI.width, truncTimes 205 100 keywordROI.height⟩

def orUnknown (text : String) : String := if text = "" then "Unknown" else text

/-- The rows from one on. Frames are drawn around the crops of a row once it is read. -/
def detectRows (left right : ℕ → Rect) : List ℕ → Mat → Option (List String)
  | [], _ => some []
  | i :: rows, image => do
    let leftText ← v.doOCR image (left i)
    let rightText ← v.doOCR image (right i)
    let players ← detectRows left right rows
      (v.rectangle (v.rectangle image (left i)) (right i))
    return orUnknown leftText :: orUnknown rightText :: players

def detectNamesInColumns (image : Mat) (leftROI rightROI : Rect) (keywordROI : Box) :
    Option (List String) :=
  detectRows v (cell leftROI keywordROI) (cell rightROI keywordROI) (List.range 10) image

def isCluster (word : Word) : Bool := v.equalsIgnoreCase word.text "cluster"

/-- What throws inside is thrown on as a `RuntimeException`. -/
def extractNamesFromPartyImage (partyScreenshot : Img) : Option (List String) := do
  let screenshot ← v.loadAndPreprocessImage partyScreenshot
  let ocrResult ← v.getWords screenshot
  match findKeyword v ocrResult with
  | none => return []
  | some keywordWord =>
    let keywordRect := keywordWord.boundingBox
    let (leftROI, rightROI, screenshot) :=
      calculateAndDrawROIs v (v.rectangle screenshot keywordRect.rect) keywordRect
        (isCluster v keywordWord)
    detectNamesInColumns v screenshot leftROI rightROI keywordRect

end PartyOCR

end AtomComm
