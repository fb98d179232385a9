import AtomComm.Lib.Sql
import Mathlib.Logic.Function.Basic

/-! Several threads over one store. Each thread runs one program at a time, and the
statements of different threads fall in any order. The rely-guarantee rule: if every
program that a thread may start keeps its contract, and no thread does more than the
others allow, then the invariant holds after every step of every run. -/

namespace AtomComm

variable {ι σ α : Type} [DecidableEq ι]

/-- Which programs a thread may start, and what the start itself does to the store. -/
structure System (ι σ α : Type) where
  start : ι → σ → σ → Sql σ α → Prop

/-- The store, and for each thread the rest of the program it is in, if any. -/
structure Pool (ι σ α : Type) where
  state : σ
  slot : ι → Option (Sql σ α)

namespace Pool

/-- Set the store to `t` and the slot of thread `i` to `p`. -/
def put (P : Pool ι σ α) (t : σ) (i : ι) (p : Option (Sql σ α)) : Pool ι σ α :=
  ⟨t, Function.update P.slot i p⟩

variable {P : Pool ι σ α} {t : σ} {i : ι} {p : Option (Sql σ α)}

@[simp] theorem state_put : (P.put t i p).state = t := rfl

@[simp] theorem slot_put : (P.put t i p).slot i = p := Function.update_self ..

theorem slot_put_ne {j : ι} (h : j ≠ i) : (P.put t i p).slot j = P.slot j :=
  Function.update_of_ne h ..

theorem put_self (h : P.slot i = p) : P.put P.state i p = P := by
  subst h
  simp [put]

@[simp] theorem put_put {t' : σ} {p' : Option (Sql σ α)} :
    (P.put t i p).put t' i p' = P.put t' i p' := by
  simp [put]

end Pool

namespace System

inductive Step (S : System ι σ α) (P : Pool ι σ α) : Pool ι σ α → Prop
  | start {i s' p} : P.slot i = none → S.start i P.state s' p → Step S P (P.put s' i (some p))
  | stmt {i f k h t} : P.slot i = some (.stmt f k h) → f P.state = some t →
      Step S P (P.put t i (some (k P.state)))
  | fault {i f k h} : P.slot i = some (.stmt f k h) →
      Step S P (P.put P.state i (some h))
  | done {i a} : P.slot i = some (.ret a) → Step S P (P.put P.state i none)
  | fail {i e} : P.slot i = some (.throw e) → Step S P (P.put P.state i none)

abbrev Reaches (S : System ι σ α) : Pool ι σ α → Pool ι σ α → Prop :=
  Relation.ReflTransGen S.Step

omit [DecidableEq ι] in
/-- All threads idle. -/
def idle (s : σ) : Pool ι σ α := ⟨s, fun _ => none⟩

/-- The contracts of the threads fit together. -/
structure Disciplined (S : System ι σ α) (I : σ → Prop) (R G : ι → σ → σ → Prop) : Prop where
  start : ∀ i s s' p, I s → S.start i s s' p →
    I s' ∧ G i s s' ∧ p.Ok ⟨I, R i, G i⟩ (fun _ _ => True) (fun _ _ => True) s'
  compat : ∀ i j, i ≠ j → ∀ s t, G j s t → R i s t
  refl : ∀ i s, G i s s

/-- The invariant holds and every thread still keeps its contract. -/
structure Good (I : σ → Prop) (R G : ι → σ → σ → Prop) (P : Pool ι σ α) : Prop where
  inv : I P.state
  ok : ∀ i p, P.slot i = some p →
    p.Ok ⟨I, R i, G i⟩ (fun _ _ => True) (fun _ _ => True) P.state

/-! ### Steps by thread -/

/-- A step of thread `i`. -/
inductive StepOf (S : System ι σ α) (i : ι) (P : Pool ι σ α) : Pool ι σ α → Prop
  | start {s' p} : P.slot i = none → S.start i P.state s' p → StepOf S i P (P.put s' i (some p))
  | stmt {f k h t} : P.slot i = some (.stmt f k h) → f P.state = some t →
      StepOf S i P (P.put t i (some (k P.state)))
  | fault {f k h} : P.slot i = some (.stmt f k h) → StepOf S i P (P.put P.state i (some h))
  | done {a} : P.slot i = some (.ret a) → StepOf S i P (P.put P.state i none)
  | fail {e} : P.slot i = some (.throw e) → StepOf S i P (P.put P.state i none)

/-- Runs each step of which meets a condition. -/
abbrev Under (S : System ι σ α) (C : ι → Pool ι σ α → Pool ι σ α → Prop) :
    Pool ι σ α → Pool ι σ α → Prop :=
  Relation.ReflTransGen fun P P' => ∃ i, S.StepOf i P P' ∧ C i P P'

section Under
variable {S : System ι σ α} {C D : ι → Pool ι σ α → Pool ι σ α → Prop} {P P' : Pool ι σ α} {i : ι}

theorem step_iff : S.Step P P' ↔ ∃ i, S.StepOf i P P' := by
  constructor
  · intro h
    cases h with
    | start hi hp => exact ⟨_, .start hi hp⟩
    | stmt hi hf => exact ⟨_, .stmt hi hf⟩
    | fault hi => exact ⟨_, .fault hi⟩
    | done hi => exact ⟨_, .done hi⟩
    | fail hi => exact ⟨_, .fail hi⟩
  · rintro ⟨i, h⟩
    cases h with
    | start hi hp => exact .start hi hp
    | stmt hi hf => exact .stmt hi hf
    | fault hi => exact .fault hi
    | done hi => exact .done hi
    | fail hi => exact .fail hi

theorem StepOf.step (h : S.StepOf i P P') : S.Step P P' := step_iff.2 ⟨i, h⟩

theorem StepOf.slot_ne {j : ι} (h : S.StepOf i P P') (hj : j ≠ i) : P'.slot j = P.slot j := by
  cases h <;> exact Pool.slot_put_ne hj

theorem StepOf.of_none (h : S.StepOf i P P') (hi : P.slot i = none) :
    ∃ s' p, S.start i P.state s' p ∧ P' = P.put s' i (some p) := by
  cases h with
  | start _ hp => exact ⟨_, _, hp, rfl⟩
  | stmt hs => simp [hi] at hs
  | fault hs => simp [hi] at hs
  | done hs => simp [hi] at hs
  | fail hs => simp [hi] at hs

theorem StepOf.of_ret {a : α} (h : S.StepOf i P P') (hi : P.slot i = some (.ret a)) :
    P' = P.put P.state i none := by
  cases h with
  | start hs => simp [hi] at hs
  | stmt hs => simp [hi] at hs
  | fault hs => simp [hi] at hs
  | done => rfl
  | fail => rfl

theorem Under.reaches (h : S.Under C P P') : S.Reaches P P' :=
  Relation.ReflTransGen.mono (fun _ _ ⟨_, hi, _⟩ => hi.step) _ _ h

theorem Under.imp (h : S.Under C P P') (hCD : ∀ i P P', S.StepOf i P P' → C i P P' → D i P P') :
    S.Under D P P' :=
  Relation.ReflTransGen.mono (fun _ _ ⟨i, hi, hC⟩ => ⟨i, hi, hCD i _ _ hi hC⟩) _ _ h

/-- What every step keeps that meets the condition. -/
theorem Under.invariant {J : Pool ι σ α → Prop} (h : S.Under C P P') (hP : J P)
    (hstep : ∀ i P P', S.StepOf i P P' → C i P P' → J P → J P') : J P' := by
  induction h with
  | refl => exact hP
  | tail _ hst ih =>
    obtain ⟨i, hi, hC⟩ := hst
    exact hstep i _ _ hi hC ih

end Under

section Rule
variable {S : System ι σ α} {I : σ → Prop} {R G : ι → σ → σ → Prop}

/-- A step that one thread's guarantee covers leaves the other threads in order. -/
theorem Good.put (hS : S.Disciplined I R G) {P : Pool ι σ α} (hP : Good I R G P) {i : ι}
    {t : σ} {p : Option (Sql σ α)} (hI : I t) (hG : G i P.state t)
    (hp : ∀ q, p = some q → q.Ok ⟨I, R i, G i⟩ (fun _ _ => True) (fun _ _ => True) t) :
    Good I R G (P.put t i p) := by
  refine ⟨hI, fun j q hq => ?_⟩
  by_cases hj : j = i
  · subst hj
    exact hp q (by simpa using hq)
  · rw [Pool.slot_put_ne hj] at hq
    exact (hP.ok j q hq).drift (Relation.ReflTransGen.single ⟨hS.compat j i hj _ _ hG, hI⟩)

/-- One step keeps the invariant and does what some thread guarantees. -/
theorem good_step (hS : S.Disciplined I R G) {P P' : Pool ι σ α} (hP : Good I R G P)
    (h : S.Step P P') : Good I R G P' ∧ ∃ i, G i P.state P'.state := by
  cases h with
  | @start i s' p hi hp =>
    obtain ⟨hI, hG, hok⟩ := hS.start i _ _ p hP.inv hp
    exact ⟨hP.put hS hI hG fun q hq => Option.some.inj hq ▸ hok, i, hG⟩
  | @stmt i f k q t hi hf =>
    obtain ⟨h1, -⟩ := hP.ok i _ hi _ Relation.ReflTransGen.refl
    obtain ⟨hI, hG, hok⟩ := h1 t hf
    exact ⟨hP.put hS hI hG fun q hq => Option.some.inj hq ▸ hok, i, hG⟩
  | @fault i f k q hi =>
    obtain ⟨-, h2⟩ := hP.ok i _ hi _ Relation.ReflTransGen.refl
    exact ⟨hP.put hS hP.inv (hS.refl i _) fun p hp => Option.some.inj hp ▸ h2, i, hS.refl i _⟩
  | @done i a hi =>
    exact ⟨hP.put hS hP.inv (hS.refl i _) fun _ hp => (nomatch hp), i, hS.refl i _⟩
  | @fail i e hi =>
    exact ⟨hP.put hS hP.inv (hS.refl i _) fun _ hp => (nomatch hp), i, hS.refl i _⟩

omit [DecidableEq ι] in
theorem good_idle {s : σ} (hs : I s) : Good I R G (idle s : Pool ι σ α) :=
  ⟨hs, fun _ _ h => by cases h⟩

theorem good_reaches (hS : S.Disciplined I R G) {P P' : Pool ι σ α} (hP : Good I R G P)
    (h : S.Reaches P P') : Good I R G P' := by
  induction h with
  | refl => exact hP
  | tail _ hst ih => exact (good_step hS ih hst).1

/-- An invariant that every statement keeps by itself, whatever the other threads do. -/
theorem reaches_invariant {s : σ} {P : Pool ι σ α} (hs : I s)
    (hstart : ∀ i s s' p, I s → S.start i s s' p → I s' ∧ p.Within I fun _ _ => True)
    (h : S.Reaches (idle s) P) : I P.state := by
  have hS : S.Disciplined I (fun _ _ _ => True) fun _ _ _ => True := by
    refine ⟨fun i s s' p hI hst => ?_, fun _ _ _ _ _ _ => trivial, fun _ _ => trivial⟩
    obtain ⟨hI', hp⟩ := hstart i s s' p hI hst
    exact ⟨hI', trivial, hp.ok hI'⟩
  exact (good_reaches hS (good_idle hs) h).inv

/-- A reflexive and transitive relation that contains every guarantee holds between the
stores of a pool in order and of any later one. -/
theorem rel_reaches (hS : S.Disciplined I R G) {T : σ → σ → Prop} (hrefl : ∀ s, T s s)
    (htrans : ∀ a b c, T a b → T b c → T a c) (hG : ∀ i s t, G i s t → T s t)
    {P P' : Pool ι σ α} (hP : Good I R G P) (h : S.Reaches P P') : T P.state P'.state := by
  induction h with
  | refl => exact hrefl _
  | tail hpre hst ih =>
    obtain ⟨-, i, hi⟩ := good_step hS (good_reaches hS hP hpre) hst
    exact htrans _ _ _ ih (hG i _ _ hi)

/-- A condition on the steps and the contracts of the threads together keep `J`. -/
theorem Under.good_invariant (hS : S.Disciplined I R G) {C : ι → Pool ι σ α → Pool ι σ α → Prop}
    {J : Pool ι σ α → Prop} {P P' : Pool ι σ α} (h : S.Under C P P') (hP : Good I R G P) (hJ : J P)
    (hstep : ∀ i P P', S.StepOf i P P' → C i P P' → (∃ j, G j P.state P'.state) → J P → J P') :
    J P' := by
  have hboth : Good I R G P' ∧ J P' := by
    refine h.invariant (J := fun P => Good I R G P ∧ J P) ⟨hP, hJ⟩ ?_
    rintro i Q Q' hst hC ⟨hQ, hJQ⟩
    obtain ⟨hQ', hG⟩ := good_step hS hQ hst.step
    exact ⟨hQ', hstep i Q Q' hst hC hG hJQ⟩
  exact hboth.2

end Rule

/-! ### Runs that use one thread at a time -/

section Alone
variable {S : System ι σ α}

/-- The statements that a program issues when it runs alone are steps of its thread. -/
theorem reaches_result (fs : List Bool) (p : Sql σ α) {P : Pool ι σ α} {i : ι}
    (hi : P.slot i = some p) :
    S.Reaches P (P.put (p.run fs P.state).2 i (some (Sql.ofResult (p.run fs P.state).1))) := by
  induction p generalizing fs P with
  | ret a =>
    rw [Sql.run_ret, Sql.ofResult, Pool.put_self hi]
  | throw e =>
    rw [Sql.run_throw, Sql.ofResult, Pool.put_self hi]
  | stmt f k h ihk ihh =>
    rw [Sql.run]
    split
    · rename_i t _ hf
      refine Relation.ReflTransGen.head (Step.stmt hi hf) ?_
      simpa using ihk P.state fs.tail (P := P.put t i (some (k P.state))) (by simp)
    · refine Relation.ReflTransGen.head (Step.fault hi) ?_
      simpa using ihh fs.tail (P := P.put P.state i (some h)) (by simp)

/-- And when it has come to its end, the thread is idle again. -/
theorem reaches_run (fs : List Bool) (p : Sql σ α) {P : Pool ι σ α} {i : ι}
    (hi : P.slot i = some p) : S.Reaches P (P.put (p.run fs P.state).2 i none) := by
  have hend := reaches_result (S := S) fs p hi
  cases hres : (p.run fs P.state).1 with
  | ok a =>
    rw [hres] at hend
    simpa using hend.tail (Step.done Pool.slot_put)
  | error e =>
    rw [hres] at hend
    simpa using hend.tail (Step.fail Pool.slot_put)

/-- A program that runs alone to its end, no fault in between, never stands at a throw. -/
theorem under_run (p : Sql σ α) {P : Pool ι σ α} {i : ι} {a : α} (hi : P.slot i = some p)
    (h : (p.run [] P.state).1 = .ok a) :
    S.Under (fun j _ P' => j = i ∧ ∀ e, P'.slot i ≠ some (.throw e)) P
      (P.put (p.run [] P.state).2 i none) := by
  induction p generalizing P with
  | ret a =>
    refine Relation.ReflTransGen.single ⟨i, ?_, rfl, fun e => by simp⟩
    simpa using StepOf.done hi
  | throw e => simp at h
  | stmt f k q ihk ihq =>
    have hcalm : ∀ (t : σ) (r : Sql σ α) (e : Exn), (r.run [] t).1 = .ok a →
        (P.put t i (some r)).slot i ≠ some (.throw e) := by
      rintro t r e hr hslot
      rw [Pool.slot_put] at hslot
      obtain rfl := Option.some.inj hslot
      simp at hr
    rw [Sql.run] at h ⊢
    simp only [List.headD_nil, List.tail_nil] at h ⊢
    cases hf : f P.state with
    | some t =>
      rw [hf] at h
      refine Relation.ReflTransGen.head ⟨i, StepOf.stmt hi hf, rfl, fun e => hcalm _ _ e h⟩ ?_
      have hrest := ihk P.state (P := P.put t i (some (k P.state))) (by simp) h
      rwa [Pool.put_put] at hrest
    | none =>
      rw [hf] at h
      refine Relation.ReflTransGen.head ⟨i, StepOf.fault hi, rfl, fun e => hcalm _ _ e h⟩ ?_
      have hrest := ihq (P := P.put P.state i (some q)) (by simp) h
      rwa [Pool.put_put] at hrest

theorem put_idle {s t : σ} {i : ι} : (idle s : Pool ι σ α).put t i none = idle t := by
  simp [idle, Pool.put]

/-- Starting a program with all threads idle and running it to its end leaves them idle. -/
theorem reaches_idle {s s' : σ} {i : ι} {p : Sql σ α} (fs : List Bool)
    (h : S.start i s s' p) : S.Reaches (idle s) (idle (p.run fs s').2) := by
  refine Relation.ReflTransGen.head (Step.start (i := i) rfl h) ?_
  simpa [put_idle] using reaches_run (S := S) fs p (P := (idle s).put s' i (some p)) (i := i)
    (by simp)

end Alone

end System

end AtomComm
