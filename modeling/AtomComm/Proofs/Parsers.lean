import AtomComm.Spec.ParseText

/-! When the two list parsers of the loot split bot agree. Both take the first cell of each
line and differ only in the delimiter of a file's cells. A line that has neither delimiter
is one cell to both; one that has either is cut at another place by each of them. -/

namespace AtomComm.LootSplit

open Text

/-- The first cells, up to a row that has none. -/
def heads : List (List (List Char)) → List String
  | (cell :: _) :: rows => String.ofList cell :: heads rows
  | _ => []

theorem sweep_head_nil (i n : ℕ) (players : List String) :
    sweep readPlayer ((List.range (n + 1)).map fun j => ⟨[], i, j⟩) players = (players, false) := by
  rw [List.range_succ_eq_map, List.map_cons, sweep]
  rfl

theorem sweep_head_cons (cell : List Char) (row : List (List Char)) (i n : ℕ)
    (players : List String) :
    sweep readPlayer ((List.range (n + 1)).map fun j => ⟨cell :: row, i, j⟩) players =
      (players ++ [String.ofList cell], true) := by
  rw [List.range_succ_eq_map, List.map_cons, sweep]
  apply sweep_skip
  intro p hp
  obtain ⟨j, hj, rfl⟩ := List.mem_map.1 hp
  obtain ⟨k, -, rfl⟩ := List.mem_map.1 hj
  rfl

theorem sweep_heads (rows : List (List (List Char))) (n i : ℕ) (players : List String) :
    (sweep readPlayer ((rows.zipIdx i).flatMap fun (row, k) =>
      (List.range (n + 1)).map fun j => ⟨row, k, j⟩) players).1 = players ++ heads rows := by
  induction rows generalizing i players with
  | nil => simp [sweep, heads]
  | cons row rows ih =>
    rw [List.zipIdx_cons, List.flatMap_cons]
    cases row with
    | nil =>
      rw [sweep_stop (sweep_head_nil i n players), heads]
      · simp
      · simp
    | cons cell row =>
      rw [sweep_append (sweep_head_cons cell row i n players), ih, heads, List.append_assoc]
      rfl

theorem parsePlayers_eq (delimiter : List Char) (isFile : Bool) (text : String) :
    parsePlayers delimiter isFile text = heads (result delimiter isFile text.toList).tail := by
  unfold parsePlayers
  rcases result delimiter isFile text.toList with _ | ⟨header, _ | ⟨row, rows⟩⟩
  · rfl
  · rfl
  · cases row with
    | nil =>
      have hplaces : places (header :: [] :: rows) = [] := by
        rw [places, List.flatMap_eq_nil_iff]
        exact fun _ _ => rfl
      rw [hplaces]
      rfl
    | cons cell row =>
      have hheads := sweep_heads ((cell :: row) :: rows) row.length 1 []
      simpa [places] using hheads

theorem head_of_heads {row row' : List (List Char)} {rows rows' : List (List (List Char))}
    (h : heads (row :: rows) = heads (row' :: rows')) : row.head? = row'.head? := by
  rcases row with _ | ⟨c, row⟩ <;> rcases row' with _ | ⟨c', row'⟩
  · rfl
  · cases h
  · cases h
  · rw [List.head?_cons, List.head?_cons, String.ofList_injective (List.cons.inj h).1]

/-- Lists of first cells are equal exactly if no line is cut. -/
theorem heads_split_eq {d d' : List Char} (hd : d ≠ []) (hd' : d' ≠ [])
    (hne : ∀ t t', d ++ t ≠ d' ++ t') (lines : List (List Char)) :
    heads (lines.map (split d)) = heads (lines.map (split d')) ↔
      ∀ s ∈ lines, ¬d <:+: s ∧ ¬d' <:+: s := by
  induction lines with
  | nil => simp
  | cons s lines ih =>
    rw [List.map_cons, List.map_cons, List.forall_mem_cons, ← ih]
    constructor
    · intro h
      have hno := split_head_eq hd hd' hne (head_of_heads h)
      refine ⟨hno, ?_⟩
      rw [split_whole hno.1, split_whole hno.2, heads, heads] at h
      exact (List.cons.inj h).2
    · rintro ⟨hno, h⟩
      rw [split_whole hno.1, split_whole hno.2, heads, heads, h]

/-- The two parsers take the same names from a pasted text, and from a file exactly if no
line after the first, its outer quotes taken off, has a delimiter of either. -/
theorem parsers_agree (isFile : Bool) (text : String) :
    GuildUploadHelper.parseText isFile text = LootSplitGuildUploadHelper.parseText isFile text ↔
      isFile = false ∨ ∀ line ∈ (split ['\n'] text.toList).tail,
        ¬['"', ' ', ' ', ' ', ' ', '"'] <:+: replaceOuter '"' line ∧
          ¬['"', '\t', '"'] <:+: replaceOuter '"' line := by
  rw [GuildUploadHelper.parseText, LootSplitGuildUploadHelper.parseText, parsePlayers_eq,
    parsePlayers_eq]
  cases isFile with
  | false => simp [result]
  | true =>
    have hlines := @heads_split_eq ['"', ' ', ' ', ' ', ' ', '"'] ['"', '\t', '"']
      (by simp) (by simp) (by simp) ((split ['\n'] text.toList).tail.map (replaceOuter '"'))
    rw [List.forall_mem_map, List.map_map, List.map_map] at hlines
    simpa [result, List.map_tail, Function.comp_def] using hlines

/-- The export of a guild list with one member. -/
def tabbed : String := "\"Character Name\"\t\"Roles\"\n\"Alice\"\t\"Member\""

/-- `/guild upload` takes the whole line for a name. -/
theorem parsers_differ :
    GuildUploadHelper.parseText true tabbed = ["Alice\"\t\"Member"] ∧
      LootSplitGuildUploadHelper.parseText true tabbed = ["Alice"] ∧
      GuildUploadHelper.parseText true tabbed ≠ LootSplitGuildUploadHelper.parseText true tabbed := by
  decide +kernel

end AtomComm.LootSplit
