import Mathlib.Data.List.Basic
import Mathlib.Data.String.Basic

/-! What both bots take from Java and from SQLite, and the batching loop of their upload
helpers. `LOWER` folds ASCII letters; Java's `toLowerCase` folds more and depends on the
locale, so it is a parameter, as are the order that `compareToIgnoreCase` puts strings in,
the edit distance of the spellfix extension and the row that ORDER BY distance LIMIT 1
keeps among equally distant ones. -/

namespace AtomComm

/-- SQLite's `LOWER`. -/
def LOWER (s : String) : String := String.ofList (s.toList.map Char.toLower)

def IsAscii (s : String) : Prop := ∀ c ∈ s.toList, c.toNat < 128

instance (s : String) : Decidable (IsAscii s) :=
  List.decidableBAll (fun c : Char => c.toNat < 128) s.toList

structure Runtime where
  toLowerCase : String → String
  leIgnoreCase : String → String → Bool
  editdist3 : String → String → ℕ
  nearest : List (String × ℕ) → Option String
  nearest_mem : ∀ rows w, nearest rows = some w →
    ∃ d, (w, d) ∈ rows ∧ ∀ row ∈ rows, d ≤ row.2
  nearest_none : ∀ rows, nearest rows = none → rows = []

/-- `toLowerCase` in a locale that folds the ASCII letters as `LOWER` does. -/
def Runtime.FoldsAscii (rt : Runtime) : Prop := ∀ s, IsAscii s → rt.toLowerCase s = LOWER s

/-- The candidate rows of the spellfix query, for the words of `demo` that `inGuild` joins. -/
def Runtime.candidates (rt : Runtime) (demo : List String) (inGuild : String → Bool)
    (word : String) : List (String × ℕ) :=
  ((demo.filter fun w => inGuild w && word.length > 3).map fun w =>
    (w, rt.editdist3 (LOWER w) (LOWER word))).filter fun row => row.2 < 350

/-- Batches of 40, the last one with what is left. -/
def batches : List String → List String → List (List String)
  | _, [] => []
  | batch, [x] => [batch ++ [x]]
  | batch, x :: y :: xs =>
    if (batch ++ [x]).length = 40 then (batch ++ [x]) :: batches [] (y :: xs)
    else batches (batch ++ [x]) (y :: xs)

theorem flatten_batches (batch : List String) {xs : List String} (h : xs ≠ []) :
    (batches batch xs).flatten = batch ++ xs := by
  fun_induction batches batch xs with
  | case1 => exact absurd rfl h
  | case2 batch x => simp
  | case3 batch x y xs _ ih => simp [ih]
  | case4 batch x y xs _ ih => simp [ih]

namespace Runtime

/-- A word at least distance, the first one in the list. -/
def firstNearest : List (String × ℕ) → Option (String × ℕ)
  | [] => none
  | row :: rows =>
    match firstNearest rows with
    | some best => if best.2 < row.2 then some best else some row
    | none => some row

theorem firstNearest_mem : ∀ rows best, firstNearest rows = some best →
    best ∈ rows ∧ ∀ row ∈ rows, best.2 ≤ row.2 := by
  intro rows
  induction rows with
  | nil => intro best h; cases h
  | cons row rows ih =>
    intro best h
    cases hr : firstNearest rows with
    | none =>
      cases rows with
      | nil => simp_all [firstNearest]
      | cons r rs =>
        simp only [firstNearest] at hr
        split at hr
        · split at hr <;> cases hr
        · cases hr
    | some b =>
      obtain ⟨hb, hle⟩ := ih b hr
      simp only [firstNearest, hr] at h
      split at h <;> cases h
      · refine ⟨List.mem_cons_of_mem _ hb, fun r hm => ?_⟩
        rcases List.mem_cons.1 hm with rfl | hm
        · omega
        · exact hle r hm
      · refine ⟨List.mem_cons_self, fun r hm => ?_⟩
        rcases List.mem_cons.1 hm with rfl | hm
        · omega
        · have := hle r hm; omega

/-- Names in ASCII and a spellfix that finds a word only where it stands unmistaken. -/
def ascii : Runtime where
  toLowerCase := LOWER
  leIgnoreCase s t := LOWER s ≤ LOWER t
  editdist3 u w := if u = w then 0 else 800
  nearest rows := (firstNearest rows).map Prod.fst
  nearest_mem rows w h := by
    obtain ⟨⟨v, d⟩, hb, rfl⟩ := Option.map_eq_some_iff.1 h
    obtain ⟨hm, hle⟩ := firstNearest_mem rows _ hb
    exact ⟨d, hm, hle⟩
  nearest_none rows h := by
    cases rows with
    | nil => rfl
    | cons row rows =>
      simp only [firstNearest, Option.map_eq_none_iff] at h
      split at h
      · split at h <;> cases h
      · cases h

end Runtime

end AtomComm
