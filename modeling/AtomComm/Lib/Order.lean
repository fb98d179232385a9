import Mathlib.Data.Int.Notation
import Mathlib.Data.List.Basic
import Mathlib.Tactic.Common

/-! ORDER BY and LIMIT. A stable sort keeps rows with equal keys in the order in which they
come, so each row has a rank of its own, the number of rows before it, and a limit keeps the
rows of the lower ranks. -/

namespace AtomComm

variable {α : Type*}

/-- `LIMIT n`, which a negative number lifts. -/
def limit (n : ℤ) (xs : List α) : List α := if n < 0 then xs else xs.take n.toNat

/-- A limit keeps the row of rank `k`. -/
def InLimit (n : ℤ) (k : ℕ) : Prop := n < 0 ∨ (k : ℤ) < n

section Limit
variable {n : ℤ} {k : ℕ} {x : α} {xs : List α}

instance : Decidable (InLimit n k) := inferInstanceAs (Decidable (_ ∨ _))

theorem limit_front (n : ℤ) (xs : List α) : limit n xs <+: xs := by
  unfold limit
  split
  · exact List.prefix_rfl
  · exact List.take_prefix _ _

variable {R : α → α → Prop} [DecidableRel R]

/-- In a strict order an element is among the first `m` if fewer than `m` come before it. -/
theorem mem_take_iff (h : xs.Pairwise R) (hR : ∀ a b, R a b → ¬R b a) (hx : x ∈ xs) (m : ℕ) :
    x ∈ xs.take m ↔ xs.countP (R · x) < m := by
  induction xs generalizing m with
  | nil => cases hx
  | cons y ys ih =>
    obtain ⟨hy, hys⟩ := List.pairwise_cons.1 h
    by_cases hxy : x = y
    · subst hxy
      have hself : ¬R x x := fun hxx => hR x x hxx hxx
      have hnone : ys.countP (R · x) = 0 :=
        List.countP_eq_zero.2 fun z hz => by simpa using hR x z (hy z hz)
      cases m with
      | zero => simp
      | succ m => simp [hself, hnone]
    · have hmem : x ∈ ys := (List.mem_cons.1 hx).resolve_left hxy
      have hbefore : R y x := hy x hmem
      cases m with
      | zero => simp
      | succ m =>
        rw [List.take_succ_cons, List.mem_cons, ih hys hmem m]
        simp [hxy, hbefore]

theorem mem_limit_iff (h : xs.Pairwise R) (hR : ∀ a b, R a b → ¬R b a) (hx : x ∈ xs) :
    x ∈ limit n xs ↔ InLimit n (xs.countP (R · x)) := by
  unfold limit InLimit
  by_cases hn : n < 0
  · simp [hn, hx]
  · rw [if_neg hn, mem_take_iff h hR hx]
    omega

end Limit

/-- A stable sort puts equal elements in the order `S` that they come in. -/
theorem pairwise_mergeSort_stable {le : α → α → Bool}
    (htrans : ∀ a b c, le a b = true → le b c = true → le a c = true)
    (htotal : ∀ a b, (le a b || le b a) = true) {S : α → α → Prop} {xs : List α}
    (h : xs.Pairwise S) :
    (xs.mergeSort le).Pairwise fun a b => le a b = true ∧ (le b a = true → S a b) := by
  induction xs with
  | nil => simp
  | cons x xs ih =>
    obtain ⟨hx, hxs⟩ := List.pairwise_cons.1 h
    obtain ⟨l₁, l₂, hcons, hsort, hbefore⟩ := List.mergeSort_cons htrans htotal x xs
    have hmem : ∀ y ∈ l₁ ++ l₂, y ∈ xs := fun y hy => List.mem_mergeSort.1 (hsort ▸ hy)
    have hle : (l₁ ++ x :: l₂).Pairwise fun a b => le a b = true := by
      rw [← hcons]
      exact List.pairwise_mergeSort htrans htotal (x :: xs)
    obtain ⟨-, hle₂, hle₁⟩ := List.pairwise_append.1 hle
    have hih := ih hxs
    rw [hsort, List.pairwise_append] at hih
    rw [hcons, List.pairwise_append, List.pairwise_cons]
    refine ⟨hih.1, ⟨fun b hb => ⟨List.rel_of_pairwise_cons hle₂ hb, fun _ => ?_⟩, hih.2.1⟩, ?_⟩
    · exact hx b (hmem b (List.mem_append_right _ hb))
    · intro a ha b hb
      rcases List.mem_cons.1 hb with rfl | hb
      · refine ⟨hle₁ a ha b (by simp), fun hba => ?_⟩
        have hno := hbefore a ha
        rw [hba] at hno
        cases hno
      · exact hih.2.2 a ha b hb

end AtomComm
