import AtomComm.Lib.Text
import AtomComm.Spec.GuildBot.Commands

/-! The text of a guild list: a header and a line for each member, with the cells in quotes.
A file has a line each and tabs between the cells; pasted into a command the line breaks
have become blanks and the tabs four of them. Three upload helpers have a `parseText` of
their own, two of them in the loot split bot. They build `result` in the same way, but for
the delimiter of a file, and read it in the same loops. -/

namespace AtomComm

open Text

/-- The array `result`, the cells of each line. -/
def result (delimiter : List Char) (isFile : Bool) (text : List Char) : List (List (List Char)) :=
  if isFile then
    (split ['\n'] text).map fun line => split delimiter (replaceOuter '"' line)
  else
    (split ['"', ' ', '"'] text).map fun line =>
      (split [' ', ' ', ' ', ' '] (trim (replaceOuter '"' (trim line)))).map (remove '"')

/-- A loop that an exception ends; what was done before it stays. The flag says that it ran
to its end. -/
def sweep {κ σ : Type} (body : κ → σ → Option σ) : List κ → σ → σ × Bool
  | [], s => (s, true)
  | k :: ks, s =>
    match body k s with
    | some t => sweep body ks t
    | none => (s, false)

section Sweep
variable {κ σ : Type} {body : κ → σ → Option σ}

theorem sweep_append {xs ys : List κ} {s t : σ} (h : sweep body xs s = (t, true)) :
    sweep body (xs ++ ys) s = sweep body ys t := by
  induction xs generalizing s with
  | nil => cases h; rfl
  | cons x xs ih =>
    rw [List.cons_append, sweep]
    rw [sweep] at h
    split
    · rename_i u hu
      rw [hu] at h
      exact ih h
    · rename_i hu
      rw [hu] at h
      cases h

theorem sweep_stop {xs ys : List κ} {s t : σ} (h : sweep body xs s = (t, false)) :
    sweep body (xs ++ ys) s = (t, false) := by
  induction xs generalizing s with
  | nil => cases h
  | cons x xs ih =>
    rw [List.cons_append, sweep]
    rw [sweep] at h
    split
    · rename_i u hu
      rw [hu] at h
      exact ih h
    · rename_i hu
      rw [hu] at h
      exact h

/-- Places that the body passes over. -/
theorem sweep_skip {xs : List κ} {s : σ} (h : ∀ x ∈ xs, body x s = some s) :
    sweep body xs s = (s, true) := by
  induction xs with
  | nil => rfl
  | cons x xs ih =>
    rw [sweep, h x (by simp)]
    exact ih fun y hy => h y (by simp [hy])

theorem sweep_invariant {I : σ → Prop} {xs : List κ} {s : σ}
    (h : ∀ x ∈ xs, ∀ s t, I s → body x s = some t → I t) (hs : I s) : I (sweep body xs s).1 := by
  induction xs generalizing s with
  | nil => exact hs
  | cons x xs ih =>
    rw [sweep]
    split
    · rename_i t ht
      exact ih (fun y hy => h y (by simp [hy])) (h x (by simp) s t hs ht)
    · exact hs

/-- A loop that keeps more than another, and otherwise does the same. -/
theorem sweep_map {τ : Type} {body' : κ → τ → Option τ} {φ : τ → σ}
    (h : ∀ x t, (body' x t).map φ = body x (φ t)) (xs : List κ) (t : τ) :
    φ (sweep body' xs t).1 = (sweep body xs (φ t)).1 := by
  induction xs generalizing t with
  | nil => rfl
  | cons x xs ih =>
    have hx := h x t
    rw [sweep, sweep, ← hx]
    cases body' x t with
    | none => rfl
    | some u => exact ih u

end Sweep

/-- A place that the loops get to: the row, its index and that of the column. -/
structure Place where
  row : List (List Char)
  i : ℕ
  j : ℕ

/-- The places in order. The header row is left out, and each row is read as far as the
first one after the header is long. -/
def places (result : List (List (List Char))) : List Place :=
  (result.zipIdx.drop 1).flatMap fun (row, i) =>
    (List.range (result.getD 1 []).length).map fun j => ⟨row, i, j⟩

/-- A cell that is added to a list of strings; there may be none. -/
def Place.add (p : Place) (j : ℕ) (cells : List String) : Option (List String) :=
  (p.row[j]?).map fun cell => cells ++ [String.ofList cell]

namespace GuildBot

/-- The `switch` of the loops. `now i` is the string that the clock shows at row `i`. -/
def readCell (env : Env) (now : ℕ → String) (p : Place) (r : Roster) : Option Roster :=
  match p.j with
  | 0 => (p.add 0 r.charNames).map fun charNames => { r with charNames := charNames }
  | 1 => (p.row[1]?).bind fun cell =>
    if env.toLowerCaseROOT (String.ofList cell) = "online" then
      (p.add 0 r.onlineUsers).map fun onlineUsers =>
        { r with onlineUsers := onlineUsers, lastSeen := r.lastSeen ++ [now p.i] }
    else some { r with lastSeen := r.lastSeen ++ [String.ofList (trim cell)] }
  | _ => some r

def parseText (env : Env) (now : ℕ → String) (isFile : Bool) (text : String) : Roster :=
  (sweep (readCell env now) (places (result ['"', '\t', '"'] isFile text.toList)) ⟨[], [], []⟩).1

end GuildBot

namespace LootSplit

def readPlayer (p : Place) (players : List String) : Option (List String) :=
  if p.j = 0 then p.add 0 players else some players

/-- `parseText` with the delimiter of the cells in a file. -/
def parsePlayers (delimiter : List Char) (isFile : Bool) (text : String) : List String :=
  (sweep readPlayer (places (result delimiter isFile text.toList)) []).1

/-- The helper of `/guild upload`. -/
def GuildUploadHelper.parseText : Bool → String → List String :=
  parsePlayers ['"', ' ', ' ', ' ', ' ', '"']

/-- The helper of `/lootsplit guild upload`. -/
def LootSplitGuildUploadHelper.parseText : Bool → String → List String :=
  parsePlayers ['"', '\t', '"']

end LootSplit

end AtomComm
