import Mathlib.Data.List.Flatten
import Mathlib.Data.List.Induction
import Mathlib.Data.Nat.Basic
import Mathlib.Logic.Function.Basic
import Mathlib.Order.Lattice
import Mathlib.Tactic.Common

/-! Least costs by relaxation. Each edge of a list lowers the value at its target to the one at
its source plus its cost. What is left at a vertex is always the cost of a walk to it, on top of
a value that was there before; and the least one, if no edge leaves a vertex before the last
edge that enters it. -/

namespace AtomComm

structure Edge (ι : Type*) where
  source : ι
  target : ι
  cost : ℕ

namespace Relax

variable {ι κ : Type*} [DecidableEq ι]

def relax (m : ι → ℕ) (e : Edge ι) : ι → ℕ :=
  if m e.source + e.cost < m e.target then Function.update m e.target (m e.source + e.cost) else m

def relaxAll (m : ι → ℕ) (es : List (Edge ι)) : ι → ℕ := es.foldl relax m

omit [DecidableEq ι] in
/-- A walk along edges of the list, whatever their order, and its cost. -/
inductive Walk (es : List (Edge ι)) (i : ι) : ι → ℕ → Prop
  | refl : Walk es i i 0
  | step {e c} : Walk es i e.source c → e ∈ es → Walk es i e.target (c + e.cost)

/-- No edge enters a vertex that an edge before it has left, but for loops. -/
def Ordered (es : List (Edge ι)) : Prop :=
  es.Pairwise fun e f => f.source = f.target ∨ f.target ≠ e.source

section
variable {m : ι → ℕ} {es es' : List (Edge ι)} {e : Edge ι} {i j : ι} {c : ℕ}

omit [DecidableEq ι] in
theorem Walk.mono (h : Walk es i j c) (hsub : ∀ e ∈ es, e ∈ es') : Walk es' i j c := by
  induction h with
  | refl => exact .refl
  | step _ he ih => exact .step ih (hsub _ he)

theorem relax_le (m : ι → ℕ) (e : Edge ι) (j : ι) : relax m e j ≤ m j := by
  unfold relax
  split
  · rename_i hlt
    by_cases hj : j = e.target
    · subst hj
      simpa using hlt.le
    · rw [Function.update_of_ne hj]
  · exact le_rfl

theorem relax_target (m : ι → ℕ) (e : Edge ι) : relax m e e.target ≤ m e.source + e.cost := by
  unfold relax
  split
  · simp
  · omega

/-- An edge that does not enter the vertex, or is a loop, changes nothing there. -/
theorem relax_other (h : e.source = e.target ∨ e.target ≠ j) : relax m e j = m j := by
  unfold relax
  split
  · rename_i hlt
    rcases h with hloop | hne
    · rw [hloop] at hlt
      omega
    · rw [Function.update_of_ne hne.symm]
  · rfl

theorem relaxAll_append : relaxAll m (es ++ es') = relaxAll (relaxAll m es) es' :=
  List.foldl_append

theorem relaxAll_le (m : ι → ℕ) (es : List (Edge ι)) (j : ι) : relaxAll m es j ≤ m j := by
  induction es generalizing m with
  | nil => exact le_rfl
  | cons e es ih => exact (ih (relax m e)).trans (relax_le m e j)

theorem relaxAll_other (h : ∀ e ∈ es, e.source = e.target ∨ e.target ≠ j) :
    relaxAll m es j = m j := by
  induction es generalizing m with
  | nil => rfl
  | cons e es ih =>
    have hrest := ih (m := relax m e) fun f hf => h f (List.mem_cons_of_mem e hf)
    exact hrest.trans (relax_other (h e List.mem_cons_self))

/-- Whatever the order, a walk to the vertex costs what is left there. -/
theorem relaxAll_walk (m : ι → ℕ) (es : List (Edge ι)) (j : ι) :
    ∃ i c, Walk es i j c ∧ relaxAll m es j = m i + c := by
  induction es using List.reverseRecOn generalizing j with
  | nil => exact ⟨j, 0, .refl, rfl⟩
  | append_singleton es e ih =>
    have hmono : ∀ {i j c}, Walk es i j c → Walk (es ++ [e]) i j c :=
      fun h => h.mono fun _ => List.mem_append_left _
    have hlast : relaxAll m (es ++ [e]) = relax (relaxAll m es) e := relaxAll_append
    rw [hlast, relax]
    split
    · by_cases hj : j = e.target
      · obtain ⟨i, c, hwalk, hc⟩ := ih e.source
        refine ⟨i, c + e.cost, hj ▸ (hmono hwalk).step (by simp), ?_⟩
        rw [hj, Function.update_self, hc, Nat.add_assoc]
      · obtain ⟨i, c, hwalk, hc⟩ := ih j
        exact ⟨i, c, hmono hwalk, by rw [Function.update_of_ne hj, hc]⟩
    · obtain ⟨i, c, hwalk, hc⟩ := ih j
      exact ⟨i, c, hmono hwalk, hc⟩

/-- In order, every edge of the list is satisfied at the end. -/
theorem relaxAll_edge (h : Ordered es) (he : e ∈ es) :
    relaxAll m es e.target ≤ relaxAll m es e.source + e.cost := by
  obtain ⟨pre, post, rfl⟩ := List.append_of_mem he
  have hpost := List.pairwise_cons.1 (List.pairwise_append.1 h).2.1
  by_cases hloop : e.source = e.target
  · rw [hloop]
    exact Nat.le_add_right _ _
  · have hsource : relaxAll m (pre ++ e :: post) e.source = relaxAll m pre e.source := by
      rw [relaxAll_append]
      refine relaxAll_other fun f hf => ?_
      rcases List.mem_cons.1 hf with rfl | hf
      · exact .inr (Ne.symm hloop)
      · exact hpost.1 f hf
    have htarget : relaxAll m (pre ++ e :: post) e.target ≤ relax (relaxAll m pre) e e.target := by
      rw [relaxAll_append]
      exact relaxAll_le _ post _
    rw [hsource]
    exact htarget.trans (relax_target _ _)

/-- In order, what is left at a vertex is no more than any walk to it costs. -/
theorem relaxAll_least (h : Ordered es) (hwalk : Walk es i j c) : relaxAll m es j ≤ m i + c := by
  induction hwalk with
  | refl => exact relaxAll_le m es i
  | step _ he ih =>
    have hedge := relaxAll_edge (m := m) h he
    omega

omit [DecidableEq ι] in
/-- Blocks of edges by increasing keys. Each vertex has a key of its own: a block that leaves it
comes after that key, and one that enters it does not. -/
theorem ordered_flatMap {β : Type*} [LinearOrder κ] {items : List β} {block : β → List (Edge ι)}
    (key : β → κ) (due : ι → κ) (hkeys : items.Pairwise fun a b => key a < key b)
    (h : ∀ b ∈ items, ∀ e ∈ block b,
      due e.source < key b ∧ (e.source = e.target ∨ key b ≤ due e.target)) :
    Ordered (items.flatMap block) := by
  have hpair : ∀ a ∈ items, ∀ b ∈ items, key a ≤ key b → ∀ e ∈ block a, ∀ f ∈ block b,
      f.source = f.target ∨ f.target ≠ e.source := by
    intro a ha b hb hle e he f hf
    refine (h b hb f hf).2.imp_right fun hdue heq => ?_
    have hlt := (h a ha e he).1
    rw [← heq] at hlt
    exact absurd (hlt.trans_le hle) (not_lt.2 hdue)
  refine List.pairwise_flatMap.2 ⟨fun a ha => ?_, ?_⟩
  · exact List.pairwise_of_forall_mem_list fun e he f hf => hpair a ha a ha le_rfl e he f hf
  · exact hkeys.imp_of_mem fun ha hb hlt e he f hf => hpair _ ha _ hb hlt.le e he f hf

end

end Relax

end AtomComm
