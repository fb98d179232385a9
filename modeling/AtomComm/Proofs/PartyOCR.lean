import AtomComm.Sanity.Embeds
import AtomComm.Spec.PartyOCR

/-! The cells that `PartyOCR` reads. No two of them share a pixel, whatever the size of the
heading, so no frame that is drawn around a row gets into a crop that is read later: all texts
are those of one image. A screenshot can be read exactly if its heading leaves the cells room. -/

namespace AtomComm

namespace PartyOCR

open Rounding

/-- The corners from which the columns go down. -/
def leftColumn (b : Box) (cluster : Bool) (i : ℕ) : Rect := cell (calculateROIs b cluster).1 b i

def rightColumn (b : Box) (cluster : Bool) (i : ℕ) : Rect := cell (calculateROIs b cluster).2 b i

section Cells
variable (b : Box) (cluster : Bool) (i j : ℕ)

theorem width_le : b.width ≤ 2 ^ 20 := by
  have := b.right
  omega

theorem height_le : b.height ≤ 2 ^ 20 := by
  have := b.bottom
  omega

/-- A cell of one column ends before the other column begins. -/
theorem columns_apart : (calculateROIs b cluster).1.x + truncTimes 133 100 b.width ≤
    (calculateROIs b cluster).2.x := by
  have hwidth := truncTimes_bounds (p := 133) (q := 100) (by decide) (by decide) (by decide)
    (width_le b)
  cases cluster with
  | true =>
    have hleft := truncTimes_bounds (p := 97) (q := 100) (by decide) (by decide) (by decide)
      (width_le b)
    have hright := truncTimes_bounds (p := 198) (q := 100) (by decide) (by decide) (by decide)
      (width_le b)
    simp only [calculateROIs, if_true]
    omega
  | false =>
    have hleft := truncTimes_bounds (p := 80) (q := 100) (by decide) (by decide) (by decide)
      (width_le b)
    have hright := truncTimes_bounds (p := 161) (q := 100) (by decide) (by decide) (by decide)
      (width_le b)
    simp only [calculateROIs, Bool.false_eq_true, if_false]
    omega

theorem left_apart_right : (leftColumn b cluster i).Apart (rightColumn b cluster j) := by
  have h := columns_apart b cluster
  rintro p ⟨⟨⟨hx, hx'⟩, -⟩, ⟨hy, -⟩, -⟩
  simp only [leftColumn, rightColumn, cell] at *
  omega

/-- Rows follow each other without overlapping. -/
theorem rows_apart {roi : Rect} (hij : i ≠ j) : (cell roi b i).Apart (cell roi b j) := by
  rintro p ⟨⟨-, hy, hy'⟩, -, hz, hz'⟩
  simp only [cell] at *
  generalize truncTimes 205 100 b.height = h at *
  rcases Nat.lt_or_gt_of_ne hij with hlt | hlt
  · have hstep : (i + 1) * h ≤ j * h := Nat.mul_le_mul_right h hlt
    rw [Nat.add_mul, Nat.one_mul] at hstep
    have : (i * h + h : ℤ) ≤ j * h := by exact_mod_cast hstep
    omega
  · have hstep : (j + 1) * h ≤ i * h := Nat.mul_le_mul_right h hlt
    rw [Nat.add_mul, Nat.one_mul] at hstep
    have : (j * h + h : ℤ) ≤ i * h := by exact_mod_cast hstep
    omega

end Cells

theorem Rect.Apart.symm {r r' : Rect} (h : r.Apart r') : r'.Apart r :=
  fun p hp => h p hp.symm

/-! ### Reading -/

section Reading
variable {Img Mat : Type} {v : Vision Img Mat}

/-- Two columns no two cells of which share a pixel. -/
structure Columns (left right : ℕ → Rect) : Prop where
  across : ∀ i j, (left i).Apart (right j)
  left : ∀ i j, i ≠ j → (left i).Apart (left j)
  right : ∀ i j, i ≠ j → (right i).Apart (right j)

theorem columns (b : Box) (cluster : Bool) :
    Columns (leftColumn b cluster) (rightColumn b cluster) :=
  ⟨left_apart_right b cluster, fun i j => rows_apart b i j, fun i j => rows_apart b i j⟩

variable (v) in
/-- The texts of two columns of one image. -/
def Texts (image : Mat) (left right : ℕ → Rect) (rows : List ℕ) (ls rs : List String) : Prop :=
  rows.map (fun i => v.doOCR image (left i)) = ls.map some ∧
    rows.map (fun i => v.doOCR image (right i)) = rs.map some

/-- The frames around one row are not seen in another. -/
theorem doOCR_drawn {left right : ℕ → Rect} (h : Columns left right) {i j : ℕ} (hij : i ≠ j)
    (image : Mat) :
    let drawn := v.rectangle (v.rectangle image (left i)) (right i)
    v.doOCR drawn (left j) = v.doOCR image (left j) ∧
      v.doOCR drawn (right j) = v.doOCR image (right j) := by
  constructor
  · rw [v.doOCR_rectangle _ _ _ (h.across j i).symm, v.doOCR_rectangle _ _ _ (h.left i j hij)]
  · rw [v.doOCR_rectangle _ _ _ (h.right i j hij), v.doOCR_rectangle _ _ _ (h.across i j)]

/-- All rows are read as the image was before the first one. -/
theorem detectRows_texts {left right : ℕ → Rect} (h : Columns left right) {rows : List ℕ}
    (hrows : rows.Nodup) {image : Mat} {names : List String}
    (hd : detectRows v left right rows image = some names) :
    ∃ ls rs, Texts v image left right rows ls rs ∧
      leftAndRight names = (ls.map orUnknown, rs.map orUnknown) := by
  induction rows generalizing image names with
  | nil =>
    cases hd
    exact ⟨[], [], ⟨rfl, rfl⟩, rfl⟩
  | cons i rows ih =>
    obtain ⟨hi, hrows⟩ := List.nodup_cons.1 hrows
    simp only [detectRows, Option.bind_eq_bind, Option.bind_eq_some_iff, Option.pure_def,
      Option.some.injEq] at hd
    obtain ⟨l, hl, r, hr, players, hplayers, rfl⟩ := hd
    obtain ⟨ls, rs, ⟨hls, hrs⟩, hcolumns⟩ := ih hrows hplayers
    have hsame : ∀ j ∈ rows, i ≠ j := fun j hj hij => hi (hij ▸ hj)
    refine ⟨l :: ls, r :: rs, ⟨?_, ?_⟩, by simp [leftAndRight, hcolumns]⟩
    · rw [List.map_cons, List.map_cons, hl, ← hls]
      exact congrArg _ (List.map_congr_left fun j hj => (doOCR_drawn h (hsame j hj) image).1.symm)
    · rw [List.map_cons, List.map_cons, hr, ← hrs]
      exact congrArg _ (List.map_congr_left fun j hj => (doOCR_drawn h (hsame j hj) image).2.symm)

/-- If nothing throws, there are texts. -/
theorem detectRows_isSome {left right : ℕ → Rect} {rows : List ℕ}
    (h : ∀ i ∈ rows, ∀ m, (v.doOCR m (left i)).isSome ∧ (v.doOCR m (right i)).isSome)
    (image : Mat) : (detectRows v left right rows image).isSome := by
  induction rows generalizing image with
  | nil => rfl
  | cons i rows ih =>
    obtain ⟨hl, hr⟩ := h i (by simp) image
    obtain ⟨l, hl⟩ := Option.isSome_iff_exists.1 hl
    obtain ⟨r, hr⟩ := Option.isSome_iff_exists.1 hr
    obtain ⟨players, hplayers⟩ := Option.isSome_iff_exists.1
      (ih (fun j hj => h j (by simp [hj])) (v.rectangle (v.rectangle image (left i)) (right i)))
    simp [detectRows, hl, hr, hplayers]

end Reading

/-! ### A screenshot -/

/-- Two rectangles share a pixel. -/
def Rect.meets (r r' : Rect) : Bool :=
  max r.x r'.x < min (r.x + r.width) (r'.x + r'.width) &&
    max r.y r'.y < min (r.y + r.height) (r'.y + r'.height)

theorem Rect.Apart.meets {r r' : Rect} (h : r.Apart r') : r.meets r' = false := by
  have hcorner := h (max r.x r'.x, max r.y r'.y)
  simp only [Rect.Mem] at hcorner
  rw [Rect.meets, Bool.eq_false_iff, ne_eq, Bool.and_eq_true, decide_eq_true_iff,
    decide_eq_true_iff]
  omega

def heading : Word := ⟨"Cluster", 100, 40, 60, 12, by decide, by decide⟩

/-- A heading over a list of one name. An image is the frames that are drawn in it; a text with
frames other than that of its column in it is blurred. -/
def sketch : Vision Unit (List Rect) where
  equalsIgnoreCase a b := a.map Char.toLower = b.map Char.toLower
  loadAndPreprocessImage _ := some []
  getWords _ := some [⟨"Priority", 60, 10, 90, 12, by decide, by decide⟩,
    heading]
  rectangle m r := r :: m
  doOCR m r :=
    if r.Inside then some (if 1 < m.countP r.meets then "blurred" else "Alice") else none
  doOCR_rectangle m r r' h := by
    have hno : r'.meets r = false := h.symm.meets
    simp [hno]
  inside_of_doOCR m r text h := by
    by_contra hno
    simp [hno] at h

theorem extract_sketch :
    extractNamesFromPartyImage sketch () = some (List.replicate 20 "Alice") := by
  decide +kernel

/-! ### Screenshots -/

section Screenshots
variable {Img Mat : Type} {v : Vision Img Mat} {img : Img} {screenshot : Mat} {word : Word}
  {names : List String}

variable (v) in
/-- The heading that is found on a screenshot. -/
def Heading (img : Img) (screenshot : Mat) (word : Word) : Prop :=
  v.loadAndPreprocessImage img = some screenshot ∧
    ∃ words, v.getWords screenshot = some words ∧ findKeyword v words = some word

variable (v) in
/-- The image that the cells are read off, with the frames around the heading and the columns. -/
def marked (screenshot : Mat) (word : Word) : Mat :=
  (calculateAndDrawROIs v (v.rectangle screenshot word.boundingBox.rect) word.boundingBox
    (isCluster v word)).2.2

variable (v) in
/-- What is read: the texts of the ten left and the ten right cells of one image. -/
structure Reads (screenshot : Mat) (word : Word) (ls rs names : List String) : Prop where
  texts : Texts v (marked v screenshot word) (leftColumn word.boundingBox (isCluster v word))
    (rightColumn word.boundingBox (isCluster v word)) (List.range 10) ls rs
  names : leftAndRight names = (ls.map orUnknown, rs.map orUnknown)

theorem length_leftAndRight {α : Type} (xs : List α) :
    (leftAndRight xs).1.length + (leftAndRight xs).2.length = xs.length := by
  induction xs with
  | nil => rfl
  | cons x xs ih => simp only [leftAndRight, List.length_cons, ← ih]; omega

theorem Reads.lengths {ls rs : List String} (h : Reads v screenshot word ls rs names) :
    ls.length = 10 ∧ rs.length = 10 ∧ names.length = 20 := by
  have hl := congrArg List.length h.texts.1
  have hr := congrArg List.length h.texts.2
  simp only [List.length_map, List.length_range] at hl hr
  have hn := length_leftAndRight names
  rw [h.names] at hn
  simp only [List.length_map] at hn
  omega

theorem extract_heading (h : Heading v img screenshot word) :
    extractNamesFromPartyImage v img =
      detectRows v (leftColumn word.boundingBox (isCluster v word))
        (rightColumn word.boundingBox (isCluster v word)) (List.range 10)
        (marked v screenshot word) := by
  obtain ⟨hload, words, hwords, hfind⟩ := h
  simp only [extractNamesFromPartyImage, hload, hwords, hfind, Option.bind_eq_bind,
    Option.bind_some]
  rfl

variable (v) in
/-- No heading is found. -/
def Headless (img : Img) : Prop :=
  ∃ screenshot words, v.loadAndPreprocessImage img = some screenshot ∧
    v.getWords screenshot = some words ∧ findKeyword v words = none

theorem reads_of_extract (h : extractNamesFromPartyImage v img = some names) :
    names = [] ∧ Headless v img ∨ ∃ screenshot word ls rs,
      Heading v img screenshot word ∧ Reads v screenshot word ls rs names := by
  have hsome := h
  simp only [extractNamesFromPartyImage, Option.bind_eq_bind, Option.bind_eq_some_iff] at hsome
  obtain ⟨screenshot, hload, words, hwords, hmatch⟩ := hsome
  cases hfind : findKeyword v words with
  | none =>
    rw [hfind] at hmatch
    exact .inl ⟨(Option.some.inj hmatch).symm, screenshot, words, hload, hwords, hfind⟩
  | some word =>
    have hheading : Heading v img screenshot word := ⟨hload, words, hwords, hfind⟩
    rw [extract_heading hheading] at h
    obtain ⟨ls, rs, htexts, hnames⟩ := detectRows_texts (columns _ _) List.nodup_range h
    exact .inr ⟨screenshot, word, ls, rs, hheading, htexts, hnames⟩

/-- The columns stay inside the screenshot. -/
structure Fits (b : Box) (cluster : Bool) : Prop where
  width : 0 < b.width
  height : 0 < b.height
  left : 0 ≤ (calculateROIs b cluster).1.x
  right : (calculateROIs b cluster).2.x + truncTimes 133 100 b.width ≤ 720
  bottom : (calculateROIs b cluster).1.y + 10 * truncTimes 205 100 b.height ≤ 840

theorem columns_y (b : Box) (cluster : Bool) : 0 ≤ (calculateROIs b cluster).1.y ∧
    (calculateROIs b cluster).1.y = (calculateROIs b cluster).2.y := by
  unfold calculateROIs
  split
  · exact ⟨by positivity, rfl⟩
  · exact ⟨by positivity, rfl⟩

theorem fits_iff_inside {b : Box} {cluster : Bool} : Fits b cluster ↔
    ∀ i ∈ List.range 10, (leftColumn b cluster i).Inside ∧ (rightColumn b cluster i).Inside := by
  obtain ⟨hy, hy'⟩ := columns_y b cluster
  have hx := columns_apart b cluster
  have hwidth := truncTimes_bounds (p := 133) (q := 100) (by decide) (by decide) (by decide)
    (width_le b)
  have hheight := truncTimes_bounds (p := 205) (q := 100) (by decide) (by decide) (by decide)
    (height_le b)
  simp only [leftColumn, rightColumn, cell, Rect.Inside, List.mem_range, ← hy']
  constructor
  · rintro ⟨hw, hh, hleft, hright, hbottom⟩ i hi
    generalize truncTimes 205 100 b.height = h at *
    have hrow : (i + 1) * h ≤ 10 * h := Nat.mul_le_mul_right h hi
    rw [Nat.add_mul, Nat.one_mul] at hrow
    have hrow : (i * h + h : ℤ) ≤ 10 * h := by exact_mod_cast hrow
    have htop : (0 : ℤ) ≤ i * h := by positivity
    omega
  · intro hall
    obtain ⟨⟨⟨hleft, hw, -⟩, -, hh, -⟩, ⟨-, -, hright⟩, -⟩ := hall 0 (by decide)
    obtain ⟨⟨-, -, -, hbottom⟩, -⟩ := hall 9 (by decide)
    push_cast at hbottom
    exact ⟨by omega, by omega, hleft, hright, by omega⟩

/-- Whatever frames are drawn on the way, the names are the texts of the cells of one image, in
the order that the page of the party takes them. -/
theorem party_cells_read (h : extractNamesFromPartyImage v img = some names) :
    names = [] ∧ Headless v img ∨ ∃ screenshot word ls rs, Heading v img screenshot word ∧
      Reads v screenshot word ls rs names ∧ names.length = 20 ∧
      Columns (leftColumn word.boundingBox (isCluster v word))
        (rightColumn word.boundingBox (isCluster v word)) := by
  rcases reads_of_extract h with hnone | ⟨screenshot, word, ls, rs, hheading, hreads⟩
  · exact .inl hnone
  · exact .inr ⟨screenshot, word, ls, rs, hheading, hreads, hreads.lengths.2.2, columns _ _⟩

theorem party_cells_read_sketch : List.replicate 20 "Alice" = [] ∧ Headless sketch () ∨
    ∃ screenshot word ls rs, Heading sketch () screenshot word ∧
      Reads sketch screenshot word ls rs (List.replicate 20 "Alice") ∧
      (List.replicate 20 "Alice").length = 20 ∧
      Columns (leftColumn word.boundingBox (isCluster sketch word))
        (rightColumn word.boundingBox (isCluster sketch word)) :=
  party_cells_read extract_sketch

/-- If Tesseract can read what is inside, a screenshot is read exactly if the place of its
heading leaves the columns room. -/
theorem party_image_readable_iff (hocr : ∀ m r, r.Inside → (v.doOCR m r).isSome)
    (h : Heading v img screenshot word) :
    (∃ names, extractNamesFromPartyImage v img = some names ∧ names.length = 20) ↔
      Fits word.boundingBox (isCluster v word) := by
  rw [extract_heading h]
  constructor
  · rintro ⟨names, hread, -⟩
    obtain ⟨ls, rs, ⟨hls, hrs⟩, -⟩ := detectRows_texts (columns _ _) List.nodup_range hread
    have hinside : ∀ {r : Rect} {texts : List String},
        v.doOCR (marked v screenshot word) r ∈ texts.map some → r.Inside := by
      intro r texts hmem
      obtain ⟨text, -, htext⟩ := List.mem_map.1 hmem
      exact v.inside_of_doOCR _ _ _ htext.symm
    exact fits_iff_inside.2 fun i hi => ⟨hinside (hls ▸ List.mem_map.2 ⟨i, hi, rfl⟩),
      hinside (hrs ▸ List.mem_map.2 ⟨i, hi, rfl⟩)⟩
  · intro hfits
    have hinside := fits_iff_inside.1 hfits
    have hsome := detectRows_isSome (v := v) (fun i hi m =>
      ⟨hocr m _ (hinside i hi).1, hocr m _ (hinside i hi).2⟩) (marked v screenshot word)
    obtain ⟨names, hnames⟩ := Option.isSome_iff_exists.1 hsome
    obtain ⟨ls, rs, htexts, hcolumns⟩ := detectRows_texts (columns _ _) List.nodup_range hnames
    exact ⟨names, hnames, Reads.lengths (v := v) ⟨htexts, hcolumns⟩ |>.2.2⟩

theorem party_image_readable_iff_sketch :
    (∃ names, extractNamesFromPartyImage sketch () = some names ∧ names.length = 20) ↔
      Fits heading.boundingBox (isCluster sketch heading) :=
  party_image_readable_iff (fun m r h => by simp [sketch, h]) ⟨rfl, _, rfl, by decide +kernel⟩

end Screenshots

end PartyOCR

end AtomComm
