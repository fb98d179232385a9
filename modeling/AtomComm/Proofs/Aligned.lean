import AtomComm.Proofs.RosterText

/-! The two lists of a parsed roster. The loops append to `charNames` in the first column and
to `lastSeen` in the second, and an exception may end them in between: the lists stay aligned
unless the first row that has not both cells has the first of them. -/

namespace AtomComm.GuildBot

/-- The rows that the entries of the lists were read from. -/
structure Origins where
  charNames : List ℕ
  lastSeen : List ℕ
  deriving DecidableEq

/-- The `switch` of the loops, which also notes the row of each entry that is new. -/
def readCellFrom (env : Env) (now : ℕ → String) (p : Place) (s : Roster × Origins) :
    Option (Roster × Origins) :=
  (readCell env now p s.1).map fun r => (r,
    { charNames := s.2.charNames ++ List.replicate (r.charNames.length - s.1.charNames.length) p.i
      lastSeen := s.2.lastSeen ++ List.replicate (r.lastSeen.length - s.1.lastSeen.length) p.i })

/-- The entries were read from the same rows. -/
def Origins.Agree (o : Origins) : Prop := o.charNames = o.lastSeen

def parseTextFrom (env : Env) (now : ℕ → String) (isFile : Bool) (text : String) :
    Roster × Origins :=
  (sweep (readCellFrom env now) (places (result ['"', '\t', '"'] isFile text.toList))
    (⟨[], [], []⟩, ⟨[], []⟩)).1

/-- The lists have one length, and the entries at an index come from one row. -/
def Aligned (env : Env) (now : ℕ → String) (isFile : Bool) (text : String) : Prop :=
  let roster := parseText env now isFile text
  let origins := (parseTextFrom env now isFile text).2
  roster.charNames.length = roster.lastSeen.length ∧
    ∀ k < roster.charNames.length, origins.charNames[k]? = origins.lastSeen[k]?

section Origins
variable {env : Env} {now : ℕ → String}

theorem parseTextFrom_fst {isFile : Bool} {text : String} :
    (parseTextFrom env now isFile text).1 = parseText env now isFile text := by
  apply sweep_map (φ := Prod.fst)
  intro p s
  rw [readCellFrom, Option.map_map]
  exact Option.map_id'

theorem add_length {p : Place} {j : ℕ} {cells cells' : List String} (h : p.add j cells = some cells') :
    cells'.length = cells.length + 1 := by
  obtain ⟨cell, -, rfl⟩ := Option.map_eq_some_iff.1 h
  simp

/-- The lists only grow. -/
theorem readCell_length {p : Place} {r r' : Roster} (h : readCell env now p r = some r') :
    r.charNames.length ≤ r'.charNames.length ∧ r.lastSeen.length ≤ r'.lastSeen.length := by
  unfold readCell at h
  split at h
  · obtain ⟨names, hnames, rfl⟩ := Option.map_eq_some_iff.1 h
    have := add_length hnames
    dsimp only
    omega
  · obtain ⟨cell, -, h⟩ := Option.bind_eq_some_iff.1 h
    split at h
    · obtain ⟨online, -, rfl⟩ := Option.map_eq_some_iff.1 h
      simp
    · cases h
      simp
  · cases h
    omega

/-- There is an origin for each entry. -/
theorem origins_length (isFile : Bool) (text : String) :
    let s := parseTextFrom env now isFile text
    s.2.charNames.length = s.1.charNames.length ∧ s.2.lastSeen.length = s.1.lastSeen.length := by
  apply sweep_invariant (I := fun s : Roster × Origins =>
    s.2.charNames.length = s.1.charNames.length ∧ s.2.lastSeen.length = s.1.lastSeen.length)
  · intro p _ s t hs ht
    obtain ⟨r, hr, rfl⟩ := Option.map_eq_some_iff.1 ht
    have := readCell_length hr
    simp only [List.length_append, List.length_replicate]
    omega
  · exact ⟨rfl, rfl⟩

theorem aligned_iff {isFile : Bool} {text : String} :
    Aligned env now isFile text ↔ (parseTextFrom env now isFile text).2.Agree := by
  have hlen := @origins_length env now isFile text
  dsimp only at hlen
  rw [parseTextFrom_fst] at hlen
  unfold Aligned
  constructor
  · rintro ⟨hsame, hk⟩
    apply List.ext_getElem?
    intro k
    by_cases h : k < (parseText env now isFile text).charNames.length
    · exact hk k h
    · rw [List.getElem?_eq_none (by omega), List.getElem?_eq_none (by omega)]
  · intro h
    have hsame := congrArg List.length h
    exact ⟨by omega, fun k _ => congrArg (·[k]?) h⟩

end Origins

/-! ### Rows -/

section Rows
variable {env : Env} {now : ℕ → String}

/-- The places of a row, in a text whose rows are read as far as `n` cells. -/
def rowPlaces (n : ℕ) (row : List (List Char)) (i : ℕ) : List Place :=
  (List.range n).map fun j => ⟨row, i, j⟩

theorem sweep_both {n i : ℕ} {a b : List Char} {rest : List (List Char)} (r : Roster)
    (o : Origins) : ∃ r', sweep (readCellFrom env now) (rowPlaces (n + 2) (a :: b :: rest) i) (r, o) =
      ((r', ⟨o.charNames ++ [i], o.lastSeen ++ [i]⟩), true) := by
  -- the cells from the third on are skipped
  have hskip : ∀ s, sweep (readCellFrom env now) ((List.range n).map fun j =>
      ⟨a :: b :: rest, i, j + 1 + 1⟩) s = (s, true) := by
    intro s
    apply sweep_skip
    intro p hp
    obtain ⟨j, -, rfl⟩ := List.mem_map.1 hp
    simp [readCellFrom, readCell]
  rw [rowPlaces, List.range_succ_eq_map, List.range_succ_eq_map]
  simp only [List.map_cons, List.map_map, sweep, readCellFrom, readCell, Place.add,
    List.getElem?_cons_zero, List.getElem?_cons_succ, Option.map_some, Option.bind_some]
  split
  · rename_i t ht
    refine ⟨t.1, (hskip t).trans ?_⟩
    split at ht <;> cases ht <;> simp
  · rename_i ht
    split at ht <;> cases ht

theorem sweep_name {n i : ℕ} {a : List Char} (r : Roster) (o : Origins) :
    ∃ r', sweep (readCellFrom env now) (rowPlaces (n + 2) [a] i) (r, o) =
      ((r', ⟨o.charNames ++ [i], o.lastSeen⟩), false) := by
  rw [rowPlaces, List.range_succ_eq_map, List.range_succ_eq_map]
  simp [sweep, readCellFrom, readCell, Place.add]

theorem sweep_empty {n i : ℕ} (s : Roster × Origins) :
    sweep (readCellFrom env now) (rowPlaces (n + 1) [] i) s = (s, false) := by
  rw [rowPlaces, List.range_succ_eq_map]
  simp [sweep, readCellFrom, readCell, Place.add]

/-- Of the rows that have not both cells the first, if there is one, has none. -/
def FirstShortEmpty (rows : List (List (List Char))) : Prop :=
  ∀ row ∈ rows.find? fun row => row.length < 2, row = []

instance (rows : List (List (List Char))) : Decidable (FirstShortEmpty rows) :=
  inferInstanceAs (Decidable (∀ row ∈ rows.find? fun row => row.length < 2, row = []))

/-- Rows that are read as far as the second cell. -/
theorem sweep_aligned {rows : List (List (List Char))} {n i : ℕ} {s : Roster × Origins}
    (hs : s.2.Agree) :
    (sweep (readCellFrom env now)
      ((rows.zipIdx i).flatMap fun (row, k) => rowPlaces (n + 2) row k) s).1.2.Agree ↔
      FirstShortEmpty rows := by
  induction rows generalizing i s with
  | nil => simpa [sweep, FirstShortEmpty] using hs
  | cons row rows ih =>
    obtain ⟨r, o⟩ := s
    rw [List.zipIdx_cons, List.flatMap_cons]
    rcases row with _ | ⟨a, _ | ⟨b, rest⟩⟩
    · rw [sweep_stop (sweep_empty (n := n + 1) _)]
      simpa [FirstShortEmpty] using hs
    · obtain ⟨r', h⟩ := @sweep_name env now n i a r o
      rw [sweep_stop h]
      have hlen : o.charNames.length = o.lastSeen.length := congrArg List.length hs
      have hne : ¬Origins.Agree ⟨o.charNames ++ [i], o.lastSeen⟩ := by
        intro h
        have := congrArg List.length h
        simp only [List.length_append, List.length_singleton] at this
        omega
      simpa [FirstShortEmpty] using hne
    · obtain ⟨r', h⟩ := @sweep_both env now n i a b rest r o
      have hnext : Origins.Agree ⟨o.charNames ++ [i], o.lastSeen ++ [i]⟩ := congrArg (· ++ [i]) hs
      rw [sweep_append h, ih hnext]
      simp [FirstShortEmpty]

/-- Rows of which only the first cell is read. -/
theorem sweep_names {rows : List (List (List Char))} {a : List Char} {i : ℕ} :
    ¬(sweep (readCellFrom env now) ((([a] :: rows).zipIdx i).flatMap fun (row, k) =>
      rowPlaces 1 row k) (⟨[], [], []⟩, ⟨[], []⟩)).1.2.Agree := by
  have hfirst : sweep (readCellFrom env now) (rowPlaces 1 [a] i) (⟨[], [], []⟩, ⟨[], []⟩) =
      ((⟨[String.ofList a], [], []⟩, ⟨[i], []⟩), true) := by
    simp [rowPlaces, sweep, readCellFrom, readCell, Place.add]
  rw [List.zipIdx_cons, List.flatMap_cons, sweep_append hfirst]
  have hrest : ∀ s : Roster × Origins, s.2.charNames ≠ [] ∧ s.2.lastSeen = [] →
      ¬s.2.Agree := by
    rintro s ⟨hne, hnil⟩
    rwa [Origins.Agree, hnil]
  refine hrest _ (sweep_invariant (I := fun s : Roster × Origins =>
    s.2.charNames ≠ [] ∧ s.2.lastSeen = []) ?_ ⟨by simp, rfl⟩)
  rintro p hp s t ⟨hne, hnil⟩ ht
  -- the column is the first, so nothing is appended to the second list
  obtain ⟨⟨row, k⟩, -, hp⟩ := List.mem_flatMap.1 hp
  obtain ⟨j, hj, rfl⟩ := List.mem_map.1 hp
  obtain rfl : j = 0 := by simpa using hj
  obtain ⟨r, hr, rfl⟩ := Option.map_eq_some_iff.1 ht
  obtain ⟨names, -, rfl⟩ := Option.map_eq_some_iff.1 hr
  simp [hne, hnil]

end Rows

/-- A parsed roster is aligned if and only if, of the rows after the header that have not both
cells, the first has none. -/
theorem aligned_exactly {env : Env} {now : ℕ → String} {isFile : Bool} {text : String} :
    Aligned env now isFile text ↔
      FirstShortEmpty ((result ['"', '\t', '"'] isFile text.toList).drop 1) := by
  rw [aligned_iff, parseTextFrom]
  generalize result ['"', '\t', '"'] isFile text.toList = rows
  match rows with
  | [] => simp [places, sweep, FirstShortEmpty, Origins.Agree]
  | [header] => simp [places, sweep, FirstShortEmpty, Origins.Agree]
  | header :: [] :: rows =>
    have hplaces : places (header :: [] :: rows) = [] :=
      List.flatMap_eq_nil_iff.2 fun x _ => by simp
    rw [hplaces]
    simp [sweep, FirstShortEmpty, Origins.Agree]
  | header :: [a] :: rows =>
    have hne := @sweep_names env now rows a 1
    have hplaces : places (header :: [a] :: rows) =
        (([a] :: rows).zipIdx 1).flatMap fun (row, k) => rowPlaces 1 row k := by
      simp [places, rowPlaces]
    rw [hplaces]
    simpa [FirstShortEmpty] using hne
  | header :: (a :: b :: rest) :: rows =>
    have hplaces : places (header :: (a :: b :: rest) :: rows) =
        (((a :: b :: rest) :: rows).zipIdx 1).flatMap fun (row, k) =>
          rowPlaces (rest.length + 2) row k := by
      simp [places, rowPlaces]
    rw [hplaces]
    exact sweep_aligned rfl

/-- A file that was cut off in its last line. -/
def cutOff : String :=
  "\"Character Name\"\t\"Last Seen\"\t\"Roles\"\n\"Bobby\"\t\"03/01/2024 12:00:00\"\t\"Officer\"\n" ++
    "\"Evelyn\""

theorem cutOff_misaligned :
    let roster := parseText Env.ascii (fun _ => "03/01/2024 16:00:00") true cutOff
    roster.charNames = ["Bobby", "Evelyn"] ∧ roster.lastSeen = ["03/01/2024 12:00:00"] ∧
      ¬Aligned Env.ascii (fun _ => "03/01/2024 16:00:00") true cutOff := by
  have hlists : parseText Env.ascii (fun _ => "03/01/2024 16:00:00") true cutOff =
      ⟨["Bobby", "Evelyn"], ["03/01/2024 12:00:00"], []⟩ := by decide +kernel
  refine ⟨congrArg Roster.charNames hlists, congrArg Roster.lastSeen hlists, fun h => ?_⟩
  have hlen := h.1
  rw [hlists] at hlen
  cases hlen

end AtomComm.GuildBot
