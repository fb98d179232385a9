import AtomComm.Spec.ParseText

/-! A roster comes back from its text. In a file a line is the cells joined by a delimiter
that eats their quotes. In a pasted text the delimiter of the records eats the last quote of
one record and the first of the next, so a record stands there without them, the last one
with its last quote; taking quotes and blanks off the ends then changes what follows
`lastSeen`, and nothing before. -/

namespace AtomComm.GuildBot

open Text

/-- A row of a roster. -/
structure Record where
  charName : String
  lastSeen : String
  roles : String
  deriving DecidableEq

namespace Record

def cells (r : Record) : List (List Char) :=
  [r.charName.toList, r.lastSeen.toList, r.roles.toList]

/-- The cells in quotes, with `separator` between them. -/
def line (separator : List Char) (r : Record) : List Char :=
  separator.intercalate (r.cells.map fun cell => '"' :: (cell ++ ['"']))

def isOnline (env : Env) (r : Record) : Bool := env.toLowerCaseROOT r.lastSeen = "online"

end Record

def blanks : List Char := [' ', ' ', ' ', ' ']

def fileText (header : Record) (records : List Record) : String :=
  String.ofList (['\n'].intercalate ((header :: records).map (Record.line ['\t'])))

def pastedText (header : Record) (records : List Record) : String :=
  String.ofList ([' '].intercalate ((header :: records).map (Record.line blanks)))

/-- What is to be read, row `i` being the first. -/
def rosterFrom (env : Env) (now : ℕ → String) (i : ℕ) (records : List Record) : Roster where
  charNames := records.map Record.charName
  lastSeen := (records.zipIdx i).map fun (r, k) => if r.isOnline env then now k else r.lastSeen
  onlineUsers := (records.filter (·.isOnline env)).map Record.charName

/-- A cell of the header. -/
structure Cell (s : List Char) : Prop where
  quote : '"' ∉ s
  newline : '\n' ∉ s
  blank : s ≠ [' ']

/-- A field of a record. -/
structure Field (s : List Char) : Prop where
  quote : '"' ∉ s
  newline : '\n' ∉ s
  run : ¬blanks <:+: s
  head : ∀ c ∈ s.head?, ¬c ≤ ' '
  last : ∀ c ∈ s.getLast?, ¬c ≤ ' '

/-- A record whose name and `lastSeen` are there. -/
structure Record.Valid (r : Record) : Prop where
  fields : ∀ s ∈ r.cells, Field s
  charName : r.charName ≠ ""
  lastSeen : r.lastSeen ≠ ""

theorem visible_iff {x : Option Char} :
    (x.all fun c => !decide (c ≤ ' ')) = true ↔ ∀ c ∈ x, ¬c ≤ ' ' := by
  cases x <;> simp

instance (s : List Char) : Decidable (Cell s) :=
  decidable_of_iff ('"' ∉ s ∧ '\n' ∉ s ∧ s ≠ [' '])
    ⟨fun ⟨h1, h2, h3⟩ => ⟨h1, h2, h3⟩, fun h => ⟨h.quote, h.newline, h.blank⟩⟩

instance (s : List Char) : Decidable (Field s) :=
  decidable_of_iff ('"' ∉ s ∧ '\n' ∉ s ∧ ¬blanks <:+: s ∧
      (s.head?.all fun c => !decide (c ≤ ' ')) = true ∧
      (s.getLast?.all fun c => !decide (c ≤ ' ')) = true)
    ⟨fun ⟨h1, h2, h3, h4, h5⟩ => ⟨h1, h2, h3, visible_iff.1 h4, visible_iff.1 h5⟩,
      fun h => ⟨h.quote, h.newline, h.run, visible_iff.2 h.head, visible_iff.2 h.last⟩⟩

instance (r : Record) : Decidable r.Valid :=
  decidable_of_iff ((∀ s ∈ r.cells, Field s) ∧ r.charName ≠ "" ∧ r.lastSeen ≠ "")
    ⟨fun ⟨h1, h2, h3⟩ => ⟨h1, h2, h3⟩, fun h => ⟨h.fields, h.charName, h.lastSeen⟩⟩

theorem Field.cell {s : List Char} (h : Field s) : Cell s :=
  ⟨h.quote, h.newline, by rintro rfl; exact h.head ' ' rfl le_rfl⟩

/-! ### Reading the rows -/

section Rows
variable {env : Env} {now : ℕ → String}

/-- A row that begins with the record's name and `lastSeen`. -/
def Reads (r : Record) (row : List (List Char)) : Prop :=
  ∃ rest, row = r.charName.toList :: r.lastSeen.toList :: rest

/-- The roster with the record of row `i` at its end. -/
def Roster.with (env : Env) (now : ℕ → String) (i : ℕ) (r : Record) (roster : Roster) : Roster where
  charNames := roster.charNames ++ [r.charName]
  lastSeen := roster.lastSeen ++ [if r.isOnline env then now i else r.lastSeen]
  onlineUsers := roster.onlineUsers ++ if r.isOnline env then [r.charName] else []

theorem sweep_row {r : Record} {row : List (List Char)} (h : Reads r row) (hr : r.Valid) (i n : ℕ)
    (roster : Roster) :
    sweep (readCell env now) ((List.range (n + 2)).map fun j => ⟨row, i, j⟩) roster =
      (roster.with env now i r, true) := by
  obtain ⟨rest, rfl⟩ := h
  have hseen : Field r.lastSeen.toList := hr.fields _ (by simp [Record.cells])
  -- the cells from the third on are skipped
  have hskip : ∀ roster : Roster, sweep (readCell env now) ((List.range n).map fun j =>
      ⟨r.charName.toList :: r.lastSeen.toList :: rest, i, j + 1 + 1⟩) roster = (roster, true) := by
    intro roster
    apply sweep_skip
    intro p hp
    obtain ⟨j, -, rfl⟩ := List.mem_map.1 hp
    rfl
  rw [List.range_succ_eq_map, List.range_succ_eq_map]
  simp only [List.map_cons, List.map_map, sweep, readCell, Place.add, List.getElem?_cons_zero,
    List.getElem?_cons_succ, Option.map_some, Option.bind_some, String.ofList_toList,
    trim_self hseen.head hseen.last]
  by_cases hon : env.toLowerCaseROOT r.lastSeen = "online"
  · have honline : r.isOnline env = true := decide_eq_true hon
    rw [if_pos hon]
    refine (hskip _).trans ?_
    simp [Roster.with, honline]
  · have honline : r.isOnline env = false := decide_eq_false hon
    rw [if_neg hon]
    refine (hskip _).trans ?_
    simp [Roster.with, honline]

theorem sweep_rows {records : List Record} {rows : List (List (List Char))} {n : ℕ}
    (h : List.Forall₂ Reads records rows) (hr : ∀ r ∈ records, r.Valid) (i : ℕ) (roster : Roster) :
    (sweep (readCell env now) ((rows.zipIdx i).flatMap fun (row, k) =>
      (List.range (n + 2)).map fun j => ⟨row, k, j⟩) roster).1 =
      { charNames := roster.charNames ++ (rosterFrom env now i records).charNames
        lastSeen := roster.lastSeen ++ (rosterFrom env now i records).lastSeen
        onlineUsers := roster.onlineUsers ++ (rosterFrom env now i records).onlineUsers } := by
  induction h generalizing i roster with
  | nil => simp [sweep, rosterFrom]
  | @cons r row records rows hrow hrows ih =>
    rw [List.zipIdx_cons, List.flatMap_cons, sweep_append (sweep_row hrow (hr r (by simp)) i n roster),
      ih fun r' hr' => hr r' (by simp [hr'])]
    cases hon : r.isOnline env <;> simp [Roster.with, rosterFrom, hon]

/-- Rows that begin as the records do, under a header. -/
theorem places_read {records : List Record} {header : List (List Char)}
    {rows : List (List (List Char))} (h : List.Forall₂ Reads records rows)
    (hr : ∀ r ∈ records, r.Valid) :
    (sweep (readCell env now) (places (header :: rows)) ⟨[], [], []⟩).1 =
      rosterFrom env now 1 records := by
  cases h with
  | nil => rfl
  | @cons r row records rows hrow hrows =>
    obtain ⟨rest, rfl⟩ := hrow
    have hplaces := @sweep_rows env now _ _ rest.length
      (List.Forall₂.cons ⟨rest, rfl⟩ hrows) hr 1 ⟨[], [], []⟩
    simpa [places] using hplaces

end Rows

/-! ### A line of a file -/

section File
variable {r : Record}

theorem line_eq (separator : List Char) (r : Record) :
    r.line separator = '"' :: (r.charName.toList ++ '"' :: (separator ++ '"' :: (r.lastSeen.toList ++
      '"' :: (separator ++ '"' :: (r.roles.toList ++ ['"']))))) := by
  simp [Record.line, Record.cells, List.intercalate_cons_cons]

theorem skips_line {separator : List Char} (hs : '\n' ∉ separator)
    (hr : ∀ s ∈ r.cells, Cell s) (t : List Char) : Skips ['\n'] (r.line separator) t := by
  have h := fun s hs => (hr s hs).newline
  apply skips_of_not_mem
  rw [line_eq]
  simp_all [Record.cells]

/-- The name and `lastSeen` are the first two pieces of a line. -/
theorem reads_file (hr : r.Valid) :
    Reads r (split ['"', '\t', '"'] (replaceOuter '"' (r.line ['\t']))) := by
  have hq : ∀ s ∈ r.cells, '"' ∉ s := fun s hs => (hr.fields s hs).quote
  have hname : '"' ∉ r.charName.toList := hq _ (by simp [Record.cells])
  have hseen : '"' ∉ r.lastSeen.toList := hq _ (by simp [Record.cells])
  have hne : r.lastSeen.toList ≠ [] := by simpa using hr.lastSeen
  have hline : replaceOuter '"' (r.line ['\t']) =
      r.charName.toList ++ (['"', '\t', '"'] ++ (r.lastSeen.toList ++ (['"', '\t', '"'] ++
        removeLast '"' (r.roles.toList ++ ['"'])))) := by
    have hlast := removeLast_append (q := '"') (b := r.roles.toList ++ ['"'])
      (a := r.charName.toList ++ (['"', '\t', '"'] ++ (r.lastSeen.toList ++ ['"', '\t', '"'])))
      (by decide) (by simp)
    rw [line_eq, replaceOuter, if_pos rfl]
    simpa using hlast
  rw [hline]
  exact split_front (by simp) (fun _ => skips_of_not_mem hname) (fun _ => skips_of_not_mem hseen)
    (skips_of_not_mem hseen) hne (.inr ⟨_, rfl⟩)

/-- The lines of a file under its first one. -/
theorem result_file {header : Record} {records : List Record}
    (hh : ∀ s ∈ header.cells, Cell s) (hr : ∀ r ∈ records, r.Valid) :
    ∃ row rows, result ['"', '\t', '"'] true (fileText header records).toList = row :: rows ∧
      List.Forall₂ Reads records rows := by
  have hcells : ∀ r ∈ header :: records, ∀ s ∈ r.cells, Cell s := by
    intro r hmem s hs
    rcases List.mem_cons.1 hmem with rfl | hmem
    · exact hh s hs
    · exact ((hr r hmem).fields s hs).cell
  have hpieces : pieces ['\n'] 0 (['\n'].intercalate ((header :: records).map (Record.line ['\t']))) =
      (header :: records).map (Record.line ['\t']) := by
    apply pieces_intercalate (by simp)
    · exact skips_line (by decide) (hcells header (by simp))
    · intro l hl
      obtain ⟨r, hmem, rfl⟩ := List.mem_map.1 hl
      exact skips_line (by decide) (hcells r (by simp [hmem]))
  have hsplit : split ['\n'] (fileText header records).toList =
      (header :: records).map (Record.line ['\t']) := by
    rw [fileText, String.toList_ofList, split_eq_pieces, hpieces]
    rw [hpieces]
    intro l hl
    obtain ⟨r, -, rfl⟩ := List.mem_map.1 hl
    rw [line_eq]
    exact List.cons_ne_nil _ _
  refine ⟨_, _, by rw [result, if_pos rfl, hsplit, List.map_map, List.map_cons], ?_⟩
  rw [List.forall₂_map_right_iff, List.forall₂_same]
  exact fun r hmem => reads_file (hr r hmem)

theorem parse_file {env : Env} {now : ℕ → String} {header : Record} {records : List Record}
    (hh : ∀ s ∈ header.cells, Cell s) (hr : ∀ r ∈ records, r.Valid) :
    parseText env now true (fileText header records) = rosterFrom env now 1 records := by
  obtain ⟨row, rows, hresult, hreads⟩ := result_file hh hr
  rw [parseText, hresult]
  exact places_read hreads hr

end File

/-! ### A record of a pasted text -/

section Pasted
variable {r header : Record} {records : List Record} {t : List Char}

/-- What is left of a record between two delimiters. -/
def Record.body (r : Record) : List Char :=
  r.charName.toList ++ '"' :: (blanks ++ '"' :: (r.lastSeen.toList ++ '"' :: (blanks ++
    '"' :: r.roles.toList)))

/-- The text after the body of a record. -/
def after : List Record → List Char
  | [] => ['"']
  | r :: records => ['"', ' ', '"'] ++ (r.body ++ after records)

theorem pasted_eq (header : Record) (records : List Record) :
    [' '].intercalate ((header :: records).map (Record.line blanks)) =
      '"' :: (header.body ++ after records) := by
  have hline : ∀ r : Record, r.line blanks = '"' :: (r.body ++ ['"']) := by
    intro r
    simp [line_eq, Record.body]
  induction records generalizing header with
  | nil => rw [List.map_singleton, List.intercalate_singleton, hline, after]
  | cons r records ih =>
    have hrest := ih r
    rw [List.map_cons] at hrest
    rw [List.map_cons, List.map_cons, List.intercalate_cons_cons, hrest, hline, after]
    simp

/-- A quote opens no delimiter before a cell that is not a single blank. -/
theorem cell_opens {s : List Char} (h : Cell s) : ¬['"', ' ', '"'] <+: '"' :: (s ++ '"' :: t) := by
  have hq := h.quote
  have hb := h.blank
  rcases s with _ | ⟨c, _ | ⟨c', s⟩⟩
  · simp
  · have hc : ' ' ≠ c := fun hc => hb (by rw [hc])
    simp [hc]
  · have hc' : '"' ≠ c' := by
      rintro rfl
      simp at hq
    simp [hc']

theorem skips_body (hr : ∀ s ∈ r.cells, Cell s) : Skips ['"', ' ', '"'] r.body ('"' :: t) := by
  have hname := hr r.charName.toList (by simp [Record.cells])
  have hseen := hr r.lastSeen.toList (by simp [Record.cells])
  have hroles := hr r.roles.toList (by simp [Record.cells])
  have hopen : ∀ s, ¬['"', ' ', '"'] <+: '"' :: (blanks ++ s) := by simp [blanks]
  have hblanks : ∀ s, Skips ['"', ' ', '"'] blanks s := fun _ => skips_of_not_mem (by decide)
  refine skips_append.2 ⟨skips_of_not_mem hname.quote, ?_, skips_append.2 ⟨hblanks _, ?_, ?_⟩⟩
  · simpa using hopen _
  · simpa using cell_opens hseen
  refine skips_append.2 ⟨skips_of_not_mem hseen.quote, ?_, skips_append.2 ⟨hblanks _, ?_, ?_⟩⟩
  · simpa using hopen _
  · simpa using cell_opens hroles
  · exact skips_of_not_mem hroles.quote

/-- A record as the delimiters leave it, the last one with its quote. -/
def Cut (r : Record) (row : List Char) : Prop := row = r.body ∨ row = r.body ++ ['"']

theorem cut_after (hr : ∀ s ∈ r.cells, Cell s)
    (hrs : ∀ r ∈ records, ∀ s ∈ r.cells, Cell s) :
    List.Forall₂ Cut (r :: records) (pieces ['"', ' ', '"'] 0 (r.body ++ after records)) := by
  induction records generalizing r with
  | nil =>
    have hself : Skips ['"', ' ', '"'] (r.body ++ ['"']) [] :=
      skips_append.2 ⟨skips_body hr, by simp [Skips]⟩
    rw [after, pieces_self hself]
    exact .cons (.inr rfl) .nil
  | cons q records ih =>
    rw [after, pieces_append (by simp) (skips_body hr)]
    exact .cons (.inl rfl) (ih (hrs q (by simp)) fun q' hq' => hrs q' (by simp [hq']))

theorem cut_ne_nil {rows : List (List Char)} (h : List.Forall₂ Cut records rows) :
    ∀ row ∈ rows, row ≠ [] := by
  induction h with
  | nil => simp
  | cons hrow _ ih =>
    rw [List.forall_mem_cons]
    refine ⟨?_, ih⟩
    rcases hrow with rfl | rfl <;> simp [Record.body]

/-- The rows of a pasted text: one for the header, and the records. -/
theorem split_pasted (hh : ∀ s ∈ header.cells, Cell s)
    (hrs : ∀ r ∈ records, ∀ s ∈ r.cells, Cell s) :
    ∃ row rows, split ['"', ' ', '"'] (pastedText header records).toList = row :: rows ∧
      List.Forall₂ Cut records rows := by
  have hheader : ∀ t, Skips ['"', ' ', '"'] ('"' :: header.body) ('"' :: t) := by
    intro t
    refine ⟨?_, skips_body hh⟩
    have hopen := cell_opens (t := blanks ++ '"' :: (header.lastSeen.toList ++ '"' :: (blanks ++
      '"' :: (header.roles.toList ++ '"' :: t)))) (hh header.charName.toList (by simp [Record.cells]))
    simpa [Record.body] using hopen
  have hpieces : ∃ row rows, pieces ['"', ' ', '"'] 0 ('"' :: (header.body ++ after records)) =
      row :: rows ∧ row ≠ [] ∧ List.Forall₂ Cut records rows := by
    cases records with
    | nil =>
      have hself : Skips ['"', ' ', '"'] ('"' :: header.body ++ ['"']) [] :=
        skips_append.2 ⟨hheader [], by simp [Skips]⟩
      exact ⟨_, [], pieces_self hself, by simp, .nil⟩
    | cons r records =>
      refine ⟨_, _, pieces_append (p := '"' :: header.body) (by simp) (hheader _), by simp, ?_⟩
      exact cut_after (hrs r (by simp)) fun r' hr' => hrs r' (by simp [hr'])
  obtain ⟨row, rows, heq, hne, hcut⟩ := hpieces
  refine ⟨row, rows, ?_, hcut⟩
  rw [pastedText, String.toList_ofList, pasted_eq, split_eq_pieces, heq]
  intro q hq
  rw [heq] at hq
  rcases List.mem_cons.1 hq with rfl | hq
  · exact hne
  · exact cut_ne_nil hcut q hq

/-- Up to `lastSeen`, with the quotes that end the name and enclose `lastSeen`. -/
def Record.front (r : Record) : List Char :=
  (r.charName.toList ++ ['"']) ++ (blanks ++ ('"' :: (r.lastSeen.toList ++ ['"'])))

theorem front_eq_cons (hr : r.Valid) : ∃ c u, r.front = c :: u ∧ ¬c ≤ ' ' ∧ c ≠ '"' := by
  have hname : Field r.charName.toList := hr.fields _ (by simp [Record.cells])
  obtain ⟨c, name, hc⟩ := List.exists_cons_of_ne_nil (show r.charName.toList ≠ [] by
    simpa using hr.charName)
  refine ⟨c, _, by rw [Record.front, hc]; rfl, hname.head c (by simp [hc]), ?_⟩
  rintro rfl
  exact hname.quote (by simp [hc])

theorem trim_front (hr : r.Valid) (s : List Char) :
    trim (r.front ++ s) = r.front ++ s.rdropWhile (· ≤ ' ') := by
  obtain ⟨c, u, hfront, hblank, -⟩ := front_eq_cons hr
  have hlast : ∀ x ∈ r.front.getLast?, ¬x ≤ ' ' := by
    intro x hx
    have hquote : r.front = (r.charName.toList ++ '"' :: (blanks ++ '"' :: r.lastSeen.toList)) ++
        ['"'] := by simp [Record.front]
    rw [hquote, List.getLast?_concat, Option.mem_some_iff] at hx
    rw [← hx]
    decide
  refine trim_append (fun x hx => ?_) hlast (by simp [Record.front])
  rw [hfront, List.head?_cons, Option.mem_some_iff] at hx
  rwa [← hx]

theorem replaceOuter_front (hr : r.Valid) (s : List Char) :
    replaceOuter '"' (r.front ++ (blanks ++ '"' :: s)) =
      r.front ++ (blanks ++ removeLast '"' ('"' :: s)) := by
  obtain ⟨c, u, hfront, -, hquote⟩ := front_eq_cons hr
  have hkeep := removeLast_append (q := '"') (a := r.front ++ blanks) (b := '"' :: s)
    (by decide) (by simp)
  rw [List.append_assoc, List.append_assoc] at hkeep
  rw [← hkeep, hfront, List.cons_append, replaceOuter, if_neg hquote]

theorem rdropWhile_quote (s : List Char) : (blanks ++ '"' :: s).rdropWhile (· ≤ ' ') =
    blanks ++ '"' :: s.rdropWhile (· ≤ ' ') := by
  have hlast : ∀ x ∈ (blanks ++ ['"']).getLast?, ¬decide (x ≤ ' ') = true := by
    intro x hx
    rw [List.getLast?_concat, Option.mem_some_iff] at hx
    rw [← hx]
    decide
  simpa using rdropWhile_append_of_last (b := s) hlast

/-- Taking blanks and quotes off the ends of a record takes them off what follows
`lastSeen`. -/
theorem stripped (hr : r.Valid) {row : List Char} (h : Cut r row) :
    ∃ s, trim (replaceOuter '"' (trim row)) = r.front ++ s ∧ (s = [] ∨ ∃ s', s = blanks ++ s') := by
  obtain ⟨y, hy⟩ : ∃ y, row = r.front ++ (blanks ++ '"' :: y) := by
    rcases h with rfl | rfl
    · exact ⟨r.roles.toList, by simp [Record.body, Record.front]⟩
    · exact ⟨r.roles.toList ++ ['"'], by simp [Record.body, Record.front]⟩
  rw [hy, trim_front hr, rdropWhile_quote, replaceOuter_front hr, trim_front hr]
  refine ⟨_, rfl, ?_⟩
  generalize removeLast '"' _ = z
  by_cases hz : ∀ x ∈ z, decide (x ≤ ' ') = true
  · left
    rw [List.rdropWhile_eq_nil_iff]
    intro x hx
    rcases List.mem_append.1 hx with hb | hx
    · have hblank : x = ' ' := by simpa [blanks] using hb
      rw [hblank]
      decide
    · exact hz x hx
  · exact .inr ⟨_, rdropWhile_append_of_exists hz⟩

theorem reads_pasted (hr : r.Valid) {row : List Char} (h : Cut r row) :
    Reads r ((split blanks (trim (replaceOuter '"' (trim row)))).map (remove '"')) := by
  have hname : Field r.charName.toList := hr.fields _ (by simp [Record.cells])
  have hseen : Field r.lastSeen.toList := hr.fields _ (by simp [Record.cells])
  obtain ⟨s, hs, hend⟩ := stripped hr h
  have hcell : ∀ {f : List Char}, Field f → ∀ t, Skips blanks (f ++ ['"']) t := by
    intro f hf t
    refine skips_append.2 ⟨skips_of_absent hf.run (by decide), ?_⟩
    simp [Skips, blanks]
  have hquoted : ∀ t, Skips blanks ('"' :: (r.lastSeen.toList ++ ['"'])) t :=
    fun t => ⟨by simp [blanks], hcell hseen t⟩
  obtain ⟨rest, hsplit⟩ := split_front (d := blanks) (by decide) (fun _ => hcell hname _)
    (fun _ => hquoted _) (hquoted []) (by simp) hend
  have hfront : trim (replaceOuter '"' (trim row)) = (r.charName.toList ++ ['"']) ++ (blanks ++
      ('"' :: (r.lastSeen.toList ++ ['"']) ++ s)) := by
    rw [hs, Record.front]
    simp
  refine ⟨rest.map (remove '"'), ?_⟩
  rw [hfront, hsplit]
  have hnone : remove '"' [] = [] := rfl
  simp [remove_self hname.quote, remove_self hseen.quote, hnone]

theorem reads_rows {rows : List (List Char)} (h : List.Forall₂ Cut records rows)
    (hr : ∀ r ∈ records, r.Valid) :
    List.Forall₂ Reads records (rows.map fun line =>
      (split blanks (trim (replaceOuter '"' (trim line)))).map (remove '"')) := by
  induction h with
  | nil => exact .nil
  | cons hrow _ ih =>
    exact .cons (reads_pasted (hr _ (by simp)) hrow) (ih fun r' hr' => hr r' (by simp [hr']))

theorem result_pasted (hh : ∀ s ∈ header.cells, Cell s) (hr : ∀ r ∈ records, r.Valid) :
    ∃ row rows, (∀ delimiter, result delimiter false (pastedText header records).toList =
      row :: rows) ∧ List.Forall₂ Reads records rows := by
  have hcells : ∀ r ∈ records, ∀ s ∈ r.cells, Cell s :=
    fun r hmem s hs => ((hr r hmem).fields s hs).cell
  obtain ⟨row, rows, hsplit, hcut⟩ := split_pasted hh hcells
  have hresult : ∀ delimiter, result delimiter false (pastedText header records).toList =
      (row :: rows).map fun line =>
        (split blanks (trim (replaceOuter '"' (trim line)))).map (remove '"') := by
    intro delimiter
    rw [result, if_neg Bool.false_ne_true, hsplit]
    rfl
  exact ⟨_, _, hresult, reads_rows hcut hr⟩

theorem parse_pasted {env : Env} {now : ℕ → String} (hh : ∀ s ∈ header.cells, Cell s)
    (hr : ∀ r ∈ records, r.Valid) :
    parseText env now false (pastedText header records) = rosterFrom env now 1 records := by
  obtain ⟨row, rows, hresult, hreads⟩ := result_pasted hh hr
  rw [parseText, hresult]
  exact places_read hreads hr

end Pasted

/-- In either mode a list of records comes back as the lists of its names, of the last seen
dates, with the clock's string for who is online, and of the names of who is. -/
theorem roster_round_trip {env : Env} {now : ℕ → String} {header : Record} {records : List Record}
    (hh : ∀ s ∈ header.cells, Cell s) (hr : ∀ r ∈ records, r.Valid) :
    parseText env now true (fileText header records) = rosterFrom env now 1 records ∧
      parseText env now false (pastedText header records) = rosterFrom env now 1 records :=
  ⟨parse_file hh hr, parse_pasted hh hr⟩

def exportHeader : Record := ⟨"Character Name", "Last Seen", "Roles"⟩

/-- A member without roles, one who is online, and another without roles at the end. -/
def exported : List Record :=
  [⟨"868PABLOW", "08/14/2024 15:19:43", ""⟩, ⟨"Bob Two", "Online", "Member;Officer"⟩,
    ⟨"ADESUWU", "ONLINE", ""⟩]

theorem roster_round_trip_exported :
    let roster := rosterFrom Env.ascii (fun _ => "08/14/2024 16:00:00") 1 exported
    roster.onlineUsers = ["Bob Two", "ADESUWU"] ∧
      parseText Env.ascii (fun _ => "08/14/2024 16:00:00") true (fileText exportHeader exported) =
        roster ∧
      parseText Env.ascii (fun _ => "08/14/2024 16:00:00") false
        (pastedText exportHeader exported) = roster :=
  ⟨by decide +kernel, roster_round_trip (by decide +kernel) (by decide +kernel)⟩

end AtomComm.GuildBot
