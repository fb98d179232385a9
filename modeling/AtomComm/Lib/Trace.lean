import Mathlib.Data.List.Basic
import Mathlib.Tactic.Common

/-! Runs of a machine whose step function may refuse an input. A run records each input
with the states around it, so a property of a run can speak of what held when some input
came, and of what came before or after it. -/

namespace AtomComm

structure Event (α σ : Type) where
  input : α
  before : σ
  after : σ
  deriving DecidableEq

variable {α σ : Type} (step : α → σ → Option σ)

/-- `es` leads from the first state to the last. -/
def Run : σ → List (Event α σ) → σ → Prop
  | s, [], t => t = s
  | s, e :: es, t => e.before = s ∧ step e.input e.before = some e.after ∧ Run e.after es t

/-- The events that a list of inputs makes, up to the first refused one. -/
def trace : σ → List α → List (Event α σ)
  | _, [] => []
  | s, a :: as =>
    match step a s with
    | some t => ⟨a, s, t⟩ :: trace t as
    | none => []

def final (s : σ) : List (Event α σ) → σ
  | [] => s
  | e :: es => final e.after es

theorem run_trace (s : σ) (as : List α) :
    Run step s (trace step s as) (final s (trace step s as)) := by
  induction as generalizing s with
  | nil => rfl
  | cons a as ih =>
    rw [trace]
    split
    · exact ⟨rfl, ‹_›, ih _⟩
    · rfl

variable {step} {s t : σ}

theorem input_mem_of_trace {as : List α} {e : Event α σ} (h : e ∈ trace step s as) :
    e.input ∈ as := by
  induction as generalizing s with
  | nil => cases h
  | cons a as ih =>
    rw [trace] at h
    split at h
    · rcases List.mem_cons.1 h with rfl | h
      · exact List.mem_cons_self
      · exact List.mem_cons_of_mem _ (ih h)
    · cases h

theorem run_append {xs ys : List (Event α σ)} :
    Run step s (xs ++ ys) t ↔ ∃ u, Run step s xs u ∧ Run step u ys t := by
  induction xs generalizing s with
  | nil => exact ⟨fun h => ⟨s, rfl, h⟩, by rintro ⟨u, rfl, h⟩; exact h⟩
  | cons e xs ih =>
    simp only [List.cons_append, Run, ih]
    constructor
    · rintro ⟨h1, h2, u, h3, h4⟩; exact ⟨u, ⟨h1, h2, h3⟩, h4⟩
    · rintro ⟨u, ⟨h1, h2, h3⟩, h4⟩; exact ⟨h1, h2, u, h3, h4⟩

section Invariant
variable {I : σ → Prop} {C : Event α σ → Prop}

/-- What every step keeps, if its event meets the condition, holds at the end of a run
whose events all meet it. -/
theorem Run.invariant {es : List (Event α σ)} (h : Run step s es t) (hs : I s)
    (hstep : ∀ e, C e → step e.input e.before = some e.after → I e.before → I e.after)
    (hC : ∀ e ∈ es, C e) : I t := by
  induction es generalizing s with
  | nil => exact h ▸ hs
  | cons e es ih =>
    obtain ⟨rfl, h2, h3⟩ := h
    exact ih h3 (hstep e (hC e (by simp)) h2 hs) fun e' he => hC e' (by simp [he])

/-- What every step does, whatever comes before it, the whole run does. -/
theorem Run.rel {T : σ → σ → Prop} {es : List (Event α σ)} (h : Run step s es t)
    (hrefl : ∀ s, T s s) (htrans : ∀ a b c, T a b → T b c → T a c)
    (hstep : ∀ e ∈ es, step e.input e.before = some e.after → T e.before e.after) : T s t := by
  induction es generalizing s with
  | nil => exact h ▸ hrefl s
  | cons e es ih =>
    obtain ⟨rfl, h2, h3⟩ := h
    exact htrans _ _ _ (hstep e (by simp) h2)
      (ih h3 fun e' he => hstep e' (by simp [he]))

/-- If a step keeps the invariant exactly if its event meets the condition, a run keeps it
throughout exactly if all its events do; here for the runs whose events all meet `D`. -/
theorem Run.always_iff_of {D : Event α σ → Prop} {es : List (Event α σ)} (h : Run step s es t)
    (hs : I s) (hD : ∀ e ∈ es, D e)
    (hstep : ∀ e, D e → step e.input e.before = some e.after → I e.before → (I e.after ↔ C e)) :
    (∀ e ∈ es, I e.after) ↔ ∀ e ∈ es, C e := by
  induction es generalizing s with
  | nil => simp
  | cons e es ih =>
    obtain ⟨rfl, h2, h3⟩ := h
    have he := hstep e (hD e (by simp)) h2 hs
    rw [List.forall_mem_cons, List.forall_mem_cons, he]
    exact and_congr_right fun hc => ih h3 (he.2 hc) fun e' he' => hD e' (by simp [he'])

theorem Run.always_iff {es : List (Event α σ)} (h : Run step s es t) (hs : I s)
    (hstep : ∀ e, step e.input e.before = some e.after → I e.before → (I e.after ↔ C e)) :
    (∀ e ∈ es, I e.after) ↔ ∀ e ∈ es, C e :=
  h.always_iff_of (D := fun _ => True) hs (fun _ _ => trivial) fun e _ => hstep e

/-- What every step keeps, if its event meets the condition, holds in all the states of a run
whose events all meet it. -/
theorem Run.always {es : List (Event α σ)} (h : Run step s es t) (hs : I s)
    (hstep : ∀ e, C e → step e.input e.before = some e.after → I e.before → I e.after)
    (hC : ∀ e ∈ es, C e) : ∀ e ∈ es, I e.after := by
  refine (h.always_iff_of (C := fun _ => True) hs hC fun e hc he hI => ?_).2 fun _ _ => trivial
  exact iff_true_intro (hstep e hc he hI)

end Invariant

/-- An event of a run, with the runs before and after it. -/
theorem Run.split {xs ys : List (Event α σ)} {e : Event α σ} (h : Run step s (xs ++ e :: ys) t) :
    Run step s xs e.before ∧ step e.input e.before = some e.after ∧ Run step e.after ys t := by
  obtain ⟨u, h1, h2, h3, h4⟩ := run_append.1 h
  exact ⟨h2 ▸ h1, h3, h4⟩

end AtomComm
