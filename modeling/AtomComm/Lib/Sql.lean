import Mathlib.Logic.Relation
import Mathlib.Tactic.Common

/-! Programs that issue statements against a store, each committed on its own. A
statement reads the store, and either changes it or throws and changes nothing; what
runs next may depend on what it read. Every statement may be made to throw from
outside, so a program names its continuation for that case too.

`Sql.run` executes a program on its own under a schedule of faults. `Sql.Ok` is its
verification condition when other programs run in between: a contract fixes what holds
of the store at any time, what the others may do and what this program may do. -/

namespace AtomComm

/-- What a program can throw: the driver's exception, or any other. -/
inductive Exn
  | sql
  | runtime
  deriving DecidableEq

inductive Sql (σ α : Type) : Type
  | ret (a : α)
  | throw (e : Exn)
  | stmt (f : σ → Option σ) (k : σ → Sql σ α) (h : Sql σ α)

namespace Sql

variable {σ α β γ : Type}

def bind : Sql σ α → (α → Sql σ β) → Sql σ β
  | .ret a, g => g a
  | .throw e, _ => .throw e
  | .stmt f k h, g => .stmt f (fun s => (k s).bind g) (h.bind g)

instance : Monad (Sql σ) where
  pure := .ret
  bind := Sql.bind

/-- `try p catch (e) { q e }`. -/
def tryCatch : Sql σ α → (Exn → Sql σ α) → Sql σ α
  | .ret a, _ => .ret a
  | .throw e, q => q e
  | .stmt f k h, q => .stmt f (fun s => (k s).tryCatch q) (h.tryCatch q)

/-- A statement whose exception is not caught here. -/
def attempt (f : σ → Option σ) : Sql σ Unit := .stmt f (fun _ => .ret ()) (.throw .sql)

def exec (f : σ → σ) : Sql σ Unit := attempt fun s => some (f s)

def query (q : σ → β) : Sql σ β := .stmt some (fun s => .ret (q s)) (.throw .sql)

/-- Statements issued one after the other, as a batch does in autocommit mode. -/
def script : List (σ → Option σ) → Sql σ Unit
  | [] => .ret ()
  | f :: fs => (attempt f).bind fun _ => script fs

/-- `for (x : xs) { p x }`. -/
def forEach (p : α → Sql σ Unit) : List α → Sql σ Unit
  | [] => .ret ()
  | x :: xs => (p x).bind fun _ => forEach p xs

@[simp] theorem pure_eq (a : α) : (pure a : Sql σ α) = .ret a := rfl

@[simp] theorem bind_eq (p : Sql σ α) (g : α → Sql σ β) : p >>= g = p.bind g := rfl

@[simp] theorem ret_bind (a : α) (g : α → Sql σ β) : (ret a : Sql σ α).bind g = g a := rfl

@[simp] theorem throw_bind (e : Exn) (g : α → Sql σ β) :
    (throw e : Sql σ α).bind g = .throw e := rfl

theorem bind_assoc (p : Sql σ α) (g : α → Sql σ β) (g' : β → Sql σ γ) :
    (p.bind g).bind g' = p.bind fun a => (g a).bind g' := by
  induction p with
  | ret a => rfl
  | throw e => rfl
  | stmt f k h ihk ihh => simp only [Sql.bind, ihk, ihh]

theorem bind_ret (p : Sql σ α) : p.bind .ret = p := by
  induction p with
  | ret a => rfl
  | throw e => rfl
  | stmt f k h ihk ihh => rw [Sql.bind, ihh, funext ihk]

/-! ### Running alone -/

/-- Run to the end; the `i`-th statement throws if the `i`-th entry of the schedule says so,
or of its own accord. -/
def run : List Bool → Sql σ α → σ → Except Exn α × σ
  | _, .ret a, s => (.ok a, s)
  | _, .throw e, s => (.error e, s)
  | fs, .stmt f k h, s =>
    match fs.headD false, f s with
    | false, some t => (k s).run fs.tail t
    | _, _ => h.run fs.tail s

/-- The program that a run has come to. -/
def ofResult : Except Exn α → Sql σ α
  | .ok a => .ret a
  | .error e => .throw e

@[simp] theorem run_ret (fs : List Bool) (a : α) (s : σ) : run fs (ret a) s = (.ok a, s) := by
  rw [run]

@[simp] theorem run_throw (fs : List Bool) (e : Exn) (s : σ) :
    run fs (throw e : Sql σ α) s = (.error e, s) := by
  rw [run]

/-- Without faults from outside, running `p` and then `g` is running both. -/
theorem run_bind (p : Sql σ α) (g : α → Sql σ β) (s : σ) :
    run [] (p.bind g) s =
      match run [] p s with
      | (.ok a, t) => run [] (g a) t
      | (.error e, t) => (.error e, t) := by
  induction p generalizing s with
  | ret a => simp [Sql.bind]
  | throw e => simp [Sql.bind]
  | stmt f k h ihk ihh =>
    simp only [Sql.bind, run, List.headD_nil, List.tail_nil]
    cases f s with
    | none => exact ihh s
    | some t => exact ihk s t

/-- An exception that no fault from outside causes is still caught. -/
theorem run_tryCatch (p : Sql σ α) (q : Exn → Sql σ α) (s : σ) :
    run [] (p.tryCatch q) s =
      match run [] p s with
      | (.ok a, t) => (.ok a, t)
      | (.error e, t) => run [] (q e) t := by
  induction p generalizing s with
  | ret a => simp [Sql.tryCatch]
  | throw e => simp [Sql.tryCatch]
  | stmt f k h ihk ihh =>
    simp only [Sql.tryCatch, run, List.headD_nil, List.tail_nil]
    cases f s with
    | none => exact ihh s
    | some t => exact ihk s t

/-- A schedule without faults is no schedule. -/
theorem run_quiet {fs : List Bool} (h : ∀ f ∈ fs, f = false) (p : Sql σ α) (s : σ) :
    run fs p s = run [] p s := by
  induction p generalizing fs s with
  | ret a => simp
  | throw e => simp
  | stmt f k q ihk ihq =>
    have hhead : fs.headD false = false := by
      cases fs with
      | nil => rfl
      | cons f fs => exact h f (by simp)
    have htail : ∀ f ∈ fs.tail, f = false := fun f hf => h f (List.mem_of_mem_tail hf)
    simp only [run, hhead, List.headD_nil, List.tail_nil]
    cases f s with
    | none => exact ihq htail s
    | some t => exact ihk s htail t

@[simp] theorem run_exec_bind (f : σ → σ) (g : Unit → Sql σ β) (s : σ) :
    run [] ((exec f).bind g) s = run [] (g ()) (f s) := rfl

@[simp] theorem run_exec (f : σ → σ) (s : σ) : run [] (exec f) s = (.ok (), f s) := rfl

@[simp] theorem run_query_bind (q : σ → α) (g : α → Sql σ β) (s : σ) :
    run [] ((query q).bind g) s = run [] (g (q s)) s := rfl

@[simp] theorem run_query (q : σ → α) (s : σ) : run [] (query q) s = (.ok (q s), s) := rfl

theorem run_attempt_bind (fs : List Bool) (f : σ → Option σ) (g : Unit → Sql σ β) (s : σ) :
    run fs ((attempt f).bind g) s =
      match fs.headD false, f s with
      | false, some t => run fs.tail (g ()) t
      | _, _ => (.error .sql, s) := by
  rw [attempt, Sql.bind, run]
  split
  · rfl
  · simp [Sql.bind]

theorem run_faulty_query_bind (fs : List Bool) (q : σ → α) (g : α → Sql σ β) (s : σ) :
    run fs ((query q).bind g) s =
      if fs.headD false then (.error .sql, s) else run fs.tail (g (q s)) s := by
  rw [query, Sql.bind, run]
  cases fs.headD false <;> simp [Sql.bind]

/-- A loop each round of which runs to its end. -/
theorem run_forEach_cons {p : α → Sql σ Unit} {x : α} {xs : List α} {s t : σ}
    (h : run [] (p x) s = (.ok (), t)) : run [] (forEach p (x :: xs)) s = run [] (forEach p xs) t := by
  rw [forEach, run_bind, h]

@[simp] theorem run_ite (fs : List Bool) (c : Prop) [Decidable c] (p q : Sql σ α) (s : σ) :
    run fs (if c then p else q) s = if c then run fs p s else run fs q s := by
  split <;> rfl

/-- What a list of updates makes of the store, if none throws. -/
def applyAll : List (σ → Option σ) → σ → Option σ
  | [], s => some s
  | f :: us, s => (f s).bind (applyAll us)

theorem applyAll_append (us vs : List (σ → Option σ)) (s : σ) :
    applyAll (us ++ vs) s = (applyAll us s).bind (applyAll vs) := by
  induction us generalizing s with
  | nil => rfl
  | cons f us ih =>
    simp only [List.cons_append, applyAll]
    cases f s with
    | none => rfl
    | some t => exact ih t

/-- A list of updates one of which throws is not applied. -/
theorem applyAll_eq_none {us : List (σ → Option σ)} {k : ℕ} (hk : k < us.length) {s t : σ}
    (h : applyAll (us.take k) s = some t) (hnone : us[k] t = none) : applyAll us s = none := by
  rw [← List.take_append_drop k us, applyAll_append, h, List.drop_eq_getElem_cons hk]
  simp only [Option.bind_some, applyAll, hnone, Option.bind_none]

/-- A script commits the updates before the first one that throws, and nothing of the rest. -/
theorem run_script_bind (us : List (σ → Option σ)) (fs : List Bool) (g : Unit → Sql σ β) (s : σ) :
    (∃ t, applyAll us s = some t ∧ (∀ i < us.length, fs.getD i false = false) ∧
      run fs ((script us).bind g) s = run (fs.drop us.length) (g ()) t) ∨
    ∃ k, ∃ hk : k < us.length, ∃ t, applyAll (us.take k) s = some t ∧
      (∀ i < k, fs.getD i false = false) ∧ (fs.getD k false = true ∨ us[k] t = none) ∧
      run fs ((script us).bind g) s = (.error .sql, t) := by
  induction us generalizing fs s with
  | nil => exact .inl ⟨s, rfl, by simp, by simp [script]⟩
  | cons f us ih =>
    have hhead : fs.headD false = fs.getD 0 false := by cases fs <;> rfl
    have htail : ∀ i, fs.tail.getD i false = fs.getD (i + 1) false := by cases fs <;> simp
    rw [script, bind_assoc, run_attempt_bind, hhead]
    split
    · rename_i t h0 hf
      rcases ih fs.tail t with ⟨u, h1, h2, h3⟩ | ⟨k, hk, u, h1, h2, h3, h4⟩
      · refine .inl ⟨u, by simp [applyAll, hf, h1], fun i hi => ?_, by rw [h3]; cases fs <;> simp⟩
        cases i with
        | zero => exact h0
        | succ i => rw [← htail]; exact h2 i (by simpa using hi)
      · refine .inr ⟨k + 1, by simpa using hk, u, by simp [applyAll, hf, h1], fun i hi => ?_,
          by simpa [htail] using h3, h4⟩
        cases i with
        | zero => exact h0
        | succ i => rw [← htail]; exact h2 i (by omega)
    · rename_i hno
      refine .inr ⟨0, by simp, s, rfl, by simp, ?_, rfl⟩
      cases h0 : fs.getD 0 false
      · cases hf : f s with
        | none => exact .inr hf
        | some t => exact absurd hf (hno t h0)
      · exact .inl rfl

/-- The store that a program ends in depends on its end only through the stores that one
ends in. -/
theorem run_bind_congr (p : Sql σ α) {g : α → Sql σ β} {g' : α → Sql σ γ}
    (hg : ∀ a fs s, (run fs (g a) s).2 = (run fs (g' a) s).2) (fs : List Bool) (s : σ) :
    (run fs (p.bind g) s).2 = (run fs (p.bind g') s).2 := by
  induction p generalizing fs s with
  | ret a => exact hg a fs s
  | throw e => simp
  | stmt f k h ihk ihh =>
    rw [Sql.bind, Sql.bind, run, run]
    split
    · exact ihk s _ _
    · exact ihh _ _

/-- An end without statements. -/
theorem run_bind_snd {p : Sql σ α} {g : α → Sql σ β}
    (hg : ∀ a fs s, (run fs (g a) s).2 = s) (fs : List Bool) (s : σ) :
    (run fs (p.bind g) s).2 = (run fs p s).2 := by
  have hret : (run fs (p.bind g) s).2 = (run fs (p.bind ret) s).2 :=
    run_bind_congr p (fun a fs s => by rw [hg, run_ret]) fs s
  rwa [bind_ret] at hret

/-- To throw another exception in place of the one that was thrown changes no store. -/
theorem run_rethrow_bind (p : Sql σ α) (e : Exn) (g : α → Sql σ β) (fs : List Bool) (s : σ) :
    (run fs ((p.tryCatch fun _ => throw e).bind g) s).2 = (run fs (p.bind g) s).2 := by
  induction p generalizing fs s with
  | ret a => rfl
  | throw e => simp [tryCatch]
  | stmt f k h ihk ihh =>
    rw [tryCatch, Sql.bind, Sql.bind, run, run]
    split
    · exact ihk s _ _
    · exact ihh _ _

theorem script_append (us vs : List (σ → Option σ)) :
    script (us ++ vs) = (script us).bind fun _ => script vs := by
  induction us with
  | nil => rfl
  | cons f us ih => rw [List.cons_append, script, script, bind_assoc, ih]

/-- Of updates none of which throws of its own accord, those before the first fault. -/
def executed : List Bool → List α → List α
  | _, [] => []
  | fs, u :: us => if fs.headD false then [] else u :: executed fs.tail us

theorem executed_map (f : α → β) (fs : List Bool) (us : List α) :
    executed fs (us.map f) = (executed fs us).map f := by
  induction us generalizing fs with
  | nil => rfl
  | cons u us ih =>
    rw [List.map_cons, executed, executed, ih]
    split <;> rfl

/-- A fault that comes in time keeps the last update from being executed. -/
theorem executed_concat (fs : List Bool) (us : List α) (v : α) :
    executed fs (us ++ [v]) =
      if true ∈ fs.take (us.length + 1) then executed fs us else us ++ [v] := by
  induction us generalizing fs with
  | nil => cases fs with
    | nil => rfl
    | cons f fs => cases f <;> simp [executed]
  | cons u us ih =>
    rw [List.cons_append, executed, executed, ih]
    cases fs with
    | nil => simp
    | cons f fs =>
      cases f
      · simp only [List.headD_cons, List.tail_cons, List.length_cons, List.take_succ_cons,
          List.mem_cons, Bool.true_eq_false, false_or, Bool.false_eq_true, if_false]
        split <;> simp [*]
      · simp

theorem executed_append (fs : List Bool) (us vs : List α) :
    executed fs (us ++ vs) =
      if true ∈ fs.take us.length then executed fs us
      else us ++ executed (fs.drop us.length) vs := by
  induction us generalizing fs with
  | nil => simp
  | cons u us ih =>
    rw [List.cons_append, executed, executed, ih]
    cases fs with
    | nil => simp
    | cons f fs =>
      cases f
      · simp only [List.headD_cons, List.tail_cons, List.length_cons, List.take_succ_cons,
          List.mem_cons, Bool.true_eq_false, false_or, Bool.false_eq_true, if_false,
          List.drop_succ_cons]
        split <;> simp [*]
      · simp

theorem run_script_total (us : List (σ → σ)) (fs : List Bool) (s : σ) :
    (run fs (script (us.map fun f s => some (f s))) s).2 =
      (executed fs us).foldl (fun s f => f s) s := by
  induction us generalizing fs s with
  | nil => simp [script, executed]
  | cons f us ih =>
    rw [List.map_cons, script, run_attempt_bind, executed]
    cases fs.headD false with
    | true => rfl
    | false => exact ih fs.tail (f s)

/-! ### Faults from a chosen point on -/

/-- What a program comes to when every statement of it throws. -/
def allFail : Sql σ α → Except Exn α
  | .ret a => .ok a
  | .throw e => .error e
  | .stmt _ _ h => h.allFail

@[simp] theorem allFail_ret (a : α) : (ret a : Sql σ α).allFail = .ok a := rfl

@[simp] theorem allFail_throw (e : Exn) : (throw e : Sql σ α).allFail = .error e := rfl

@[simp] theorem allFail_exec (f : σ → σ) : (exec f).allFail = .error .sql := rfl

@[simp] theorem allFail_query (q : σ → α) : (query q).allFail = .error .sql := rfl

theorem allFail_bind (p : Sql σ α) (g : α → Sql σ β) :
    (p.bind g).allFail =
      match p.allFail with
      | .ok a => (g a).allFail
      | .error e => .error e := by
  induction p with
  | ret a => rfl
  | throw e => rfl
  | stmt f k h ihk ihh => exact ihh

theorem allFail_tryCatch (p : Sql σ α) (q : Exn → Sql σ α) :
    (p.tryCatch q).allFail =
      match p.allFail with
      | .ok a => .ok a
      | .error e => (q e).allFail := by
  induction p with
  | ret a => rfl
  | throw e => rfl
  | stmt f k h ihk ihh => exact ihh

/-- Statements that throw change nothing. -/
theorem run_allFail (p : Sql σ α) : ∃ fs, ∀ s, run fs p s = (p.allFail, s) := by
  induction p with
  | ret a => exact ⟨[], fun s => by simp⟩
  | throw e => exact ⟨[], fun s => by simp⟩
  | stmt f k h ihk ihh =>
    obtain ⟨fs, hfs⟩ := ihh
    refine ⟨true :: fs, fun s => ?_⟩
    rw [run, List.headD_cons, List.tail_cons]
    exact hfs s

/-- The faults can be made to begin after `p`. -/
theorem run_faults_after {p : Sql σ α} {a : α} {s t : σ} (h : run [] p s = (.ok a, t))
    (g : α → Sql σ β) (fs : List Bool) : ∃ gs, run gs (p.bind g) s = run fs (g a) t := by
  induction p generalizing s with
  | ret b =>
    rw [run_ret] at h
    cases h
    exact ⟨fs, rfl⟩
  | throw e =>
    rw [run_throw] at h
    cases h
  | stmt f k q ihk ihq =>
    simp only [run, List.headD_nil, List.tail_nil] at h
    have hnext : ∀ gs, run (false :: gs) ((stmt f k q).bind g) s =
        match f s with
        | some u => run gs ((k s).bind g) u
        | none => run gs (q.bind g) s := by
      intro gs
      rw [Sql.bind, run, List.headD_cons, List.tail_cons]
      cases f s <;> rfl
    cases hf : f s with
    | none =>
      rw [hf] at h
      obtain ⟨gs, hgs⟩ := ihq h
      exact ⟨false :: gs, by rw [hnext, hf]; exact hgs⟩
    | some u =>
      rw [hf] at h
      obtain ⟨gs, hgs⟩ := ihk s h
      exact ⟨false :: gs, by rw [hnext, hf]; exact hgs⟩

/-- `p` runs to its end, and every statement after it throws. -/
theorem run_fail_after {p : Sql σ α} {a : α} {s t : σ} (h : run [] p s = (.ok a, t))
    (g : α → Sql σ β) : ∃ gs, run gs (p.bind g) s = ((g a).allFail, t) := by
  obtain ⟨fs, hfs⟩ := run_allFail (g a)
  obtain ⟨gs, hgs⟩ := run_faults_after h g fs
  exact ⟨gs, hgs.trans (hfs t)⟩

/-- The first statement of the program is `f`. -/
def Starts (f : σ → Option σ) (p : Sql σ α) : Prop := ∃ k h, p = .stmt f k h

theorem starts_attempt (f : σ → Option σ) : (attempt f).Starts f := ⟨_, _, rfl⟩

theorem Starts.bind {f : σ → Option σ} {p : Sql σ α} (h : p.Starts f) (g : α → Sql σ β) :
    (p.bind g).Starts f := by
  obtain ⟨k, q, rfl⟩ := h
  exact ⟨_, _, rfl⟩

theorem Starts.tryCatch {f : σ → Option σ} {p : Sql σ α} (h : p.Starts f)
    (q : Exn → Sql σ α) : (p.tryCatch q).Starts f := by
  obtain ⟨k, r, rfl⟩ := h
  exact ⟨_, _, rfl⟩

/-- The first statement is executed, and every other one throws. -/
theorem Starts.run {f : σ → Option σ} {p : Sql σ α} (h : p.Starts f) {s t : σ} (hf : f s = some t) :
    ∃ fs, (Sql.run fs p s).2 = t := by
  obtain ⟨k, q, rfl⟩ := h
  obtain ⟨fs, hfs⟩ := run_allFail (k s)
  refine ⟨false :: fs, ?_⟩
  rw [Sql.run, List.headD_cons, List.tail_cons, hf]
  exact congrArg Prod.snd (hfs t)

/-! ### Contracts and verification conditions -/

/-- What holds of the store at any time, what the other programs may do to it between two
statements of this one, and what a statement of this one may do to it. -/
structure Contract (σ : Type) where
  inv : σ → Prop
  rely : σ → σ → Prop
  guar : σ → σ → Prop

namespace Contract

/-- What may have become of the store while others ran. -/
def Drift (c : Contract σ) : σ → σ → Prop :=
  Relation.ReflTransGen fun s t => c.rely s t ∧ c.inv t

theorem Drift.inv {c : Contract σ} {s t : σ} (h : c.Drift s t) (hs : c.inv s) : c.inv t := by
  induction h with
  | refl => exact hs
  | tail _ hst _ => exact hst.2

/-- An assertion that no step of the others breaks survives the drift. -/
theorem Drift.stable {c : Contract σ} {s t : σ} (h : c.Drift s t) {A : σ → Prop}
    (hA : ∀ s t, c.rely s t → c.inv t → A s → A t) (hs : A s) : A t := by
  induction h with
  | refl => exact hs
  | tail _ hst ih => exact hA _ _ hst.1 hst.2 ih

/-- The contract of a program that runs with nothing in between. -/
def alone (I : σ → Prop) (G : σ → σ → Prop) : Contract σ := ⟨I, fun _ _ => False, G⟩

@[simp] theorem drift_alone {I : σ → Prop} {G : σ → σ → Prop} {s t : σ} :
    (alone I G).Drift s t ↔ t = s := by
  refine ⟨fun h => ?_, fun h => h ▸ Relation.ReflTransGen.refl⟩
  induction h with
  | refl => rfl
  | tail _ hst _ => exact hst.1.elim

end Contract

variable {c : Contract σ} {Q : α → σ → Prop} {E : Exn → σ → Prop}

/-- From store `s` on, `p` keeps its contract and ends in `Q`, or throws in `E`. -/
def Ok (c : Contract σ) (Q : α → σ → Prop) (E : Exn → σ → Prop) : Sql σ α → σ → Prop
  | .ret a, s => ∀ t, c.Drift s t → Q a t
  | .throw e, s => ∀ t, c.Drift s t → E e t
  | .stmt f k h, s => ∀ t, c.Drift s t →
      (∀ t', f t = some t' → c.inv t' ∧ c.guar t t' ∧ (k t).Ok c Q E t') ∧ h.Ok c Q E t

theorem Ok.drift {p : Sql σ α} {s t : σ} (h : p.Ok c Q E s) (hst : c.Drift s t) :
    p.Ok c Q E t := by
  cases p with
  | ret a => exact fun u hu => h u (hst.trans hu)
  | throw e => exact fun u hu => h u (hst.trans hu)
  | stmt f k q => exact fun u hu => h u (hst.trans hu)

theorem Ok.imp {p : Sql σ α} {Q' : α → σ → Prop} {E' : Exn → σ → Prop} {s : σ}
    (h : p.Ok c Q E s) (hQ : ∀ a t, Q a t → Q' a t) (hE : ∀ e t, E e t → E' e t) :
    p.Ok c Q' E' s := by
  induction p generalizing s with
  | ret a => exact fun t ht => hQ a t (h t ht)
  | throw e => exact fun t ht => hE e t (h t ht)
  | stmt f k q ihk ihq =>
    refine fun t ht => ⟨fun t' hf => ?_, ihq (h t ht).2⟩
    obtain ⟨hi, hg, hk⟩ := (h t ht).1 t' hf
    exact ⟨hi, hg, ihk t hk⟩

theorem ok_bind {p : Sql σ α} {g : α → Sql σ β} {Q : β → σ → Prop} {s : σ} :
    (p.bind g).Ok c Q E s ↔ p.Ok c (fun a t => (g a).Ok c Q E t) E s := by
  induction p generalizing s with
  | ret a => exact ⟨fun h _ ht => h.drift ht, fun h => h s Relation.ReflTransGen.refl⟩
  | throw e => exact Iff.rfl
  | stmt f k q ihk ihq => simp only [Sql.bind, Ok, ihk, ihq]

theorem ok_tryCatch {p : Sql σ α} {q : Exn → Sql σ α} {s : σ} :
    (p.tryCatch q).Ok c Q E s ↔ p.Ok c Q (fun e t => (q e).Ok c Q E t) s := by
  induction p generalizing s with
  | ret a => exact Iff.rfl
  | throw e => exact ⟨fun h _ ht => h.drift ht, fun h => h s Relation.ReflTransGen.refl⟩
  | stmt f k h ihk ihh => simp only [Sql.tryCatch, Ok, ihk, ihh]

theorem ok_attempt {f : σ → Option σ} {Q : Unit → σ → Prop} {s : σ}
    (hf : ∀ t t', c.Drift s t → f t = some t' →
      c.inv t' ∧ c.guar t t' ∧ ∀ u, c.Drift t' u → Q () u)
    (hE : ∀ t, c.Drift s t → E .sql t) : (attempt f).Ok c Q E s := by
  refine fun t ht => ⟨fun t' ht' => hf t t' ht ht', fun u hu => hE u (ht.trans hu)⟩

theorem ok_exec {f : σ → σ} {Q : Unit → σ → Prop} {s : σ}
    (hf : ∀ t, c.Drift s t → c.inv (f t) ∧ c.guar t (f t) ∧ ∀ u, c.Drift (f t) u → Q () u)
    (hE : ∀ t, c.Drift s t → E .sql t) : (exec f).Ok c Q E s :=
  ok_attempt (fun t _ ht h => Option.some.inj h ▸ hf t ht) hE

/-- What runs after a query runs from the store that the query read. -/
theorem ok_query_bind {q : σ → α} {g : α → Sql σ β} {Q : β → σ → Prop} {s : σ} (hs : c.inv s)
    (hg : ∀ t, c.guar t t) (hk : ∀ t, c.Drift s t → c.inv t → (g (q t)).Ok c Q E t)
    (hE : ∀ t, c.Drift s t → E .sql t) : ((query q).bind g).Ok c Q E s := by
  refine fun t ht => ⟨fun t' h => ?_, fun u hu => hE u (ht.trans hu)⟩
  obtain rfl := Option.some.inj h
  exact ⟨ht.inv hs, hg _, hk _ ht (ht.inv hs)⟩

/-- Running a verified program alone ends in its postcondition, whatever the faults. -/
theorem Ok.run {p : Sql σ α} {s : σ} (h : p.Ok c Q E s) (hs : c.inv s) (fs : List Bool) :
    c.inv (run fs p s).2 ∧ Relation.ReflTransGen c.guar s (run fs p s).2 ∧
      match run fs p s with
      | (.ok a, t) => Q a t
      | (.error e, t) => E e t := by
  induction p generalizing s fs with
  | ret a => simpa using ⟨hs, Relation.ReflTransGen.refl, h s Relation.ReflTransGen.refl⟩
  | throw e => simpa using ⟨hs, Relation.ReflTransGen.refl, h s Relation.ReflTransGen.refl⟩
  | stmt f k q ihk ihq =>
    obtain ⟨hk, hh⟩ := h s Relation.ReflTransGen.refl
    rw [Sql.run]
    split
    · rename_i t _ hf
      obtain ⟨hi, hg, hk⟩ := hk t hf
      obtain ⟨h1, h2, h3⟩ := ihk s hk hi fs.tail
      exact ⟨h1, (Relation.ReflTransGen.single hg).trans h2, h3⟩
    · exact ihq hh hs fs.tail

/-- A reflexive and transitive relation contains every run of its steps. -/
theorem closed_under {G : σ → σ → Prop} (hrefl : ∀ s, G s s)
    (htrans : ∀ a b c, G a b → G b c → G a c) {s t : σ} (h : Relation.ReflTransGen G s t) :
    G s t := by
  induction h with
  | refl => exact hrefl _
  | tail _ hst ih => exact htrans _ _ _ ih hst

/-! ### Programs that keep an effect whatever the store -/

/-- Every statement of `p`, from any store with `I`, keeps `I` and does only what `G` allows. -/
def Within (I : σ → Prop) (G : σ → σ → Prop) : Sql σ α → Prop
  | .ret _ => True
  | .throw _ => True
  | .stmt f k h =>
      (∀ t, I t → (∀ t', f t = some t' → I t' ∧ G t t') ∧ (k t).Within I G) ∧ h.Within I G

section Within
variable {I : σ → Prop} {G : σ → σ → Prop}

@[simp] theorem within_ret (a : α) : (ret a : Sql σ α).Within I G := trivial

@[simp] theorem within_throw (e : Exn) : (throw e : Sql σ α).Within I G := trivial

theorem within_attempt {f : σ → Option σ} (hf : ∀ t t', I t → f t = some t' → I t' ∧ G t t') :
    (attempt f).Within I G := ⟨fun t ht => ⟨fun t' h => hf t t' ht h, trivial⟩, trivial⟩

theorem within_exec {f : σ → σ} (hf : ∀ t, I t → I (f t) ∧ G t (f t)) :
    (exec f).Within I G :=
  within_attempt fun t _ ht h => Option.some.inj h ▸ hf t ht

theorem within_query (hG : ∀ t, G t t) (q : σ → β) : (query q).Within I G :=
  ⟨fun t ht => ⟨fun _ h => Option.some.inj h ▸ ⟨ht, hG t⟩, trivial⟩, trivial⟩

/-- What follows a query may rely on what held when it was answered. -/
theorem within_query_bind (hG : ∀ t, G t t) {q : σ → α} {g : α → Sql σ β}
    (hg : ∀ t, I t → (g (q t)).Within I G) : ((query q).bind g).Within I G :=
  ⟨fun t ht => ⟨fun _ h => Option.some.inj h ▸ ⟨ht, hG t⟩, hg t ht⟩, trivial⟩

theorem within_bind {p : Sql σ α} {g : α → Sql σ β} (hp : p.Within I G)
    (hg : ∀ a, (g a).Within I G) : (p.bind g).Within I G := by
  induction p with
  | ret a => exact hg a
  | throw e => exact trivial
  | stmt f k h ihk ihh =>
    exact ⟨fun t ht => ⟨(hp.1 t ht).1, ihk t (hp.1 t ht).2⟩, ihh hp.2⟩

theorem within_tryCatch {p : Sql σ α} {q : Exn → Sql σ α} (hp : p.Within I G)
    (hq : ∀ e, (q e).Within I G) : (p.tryCatch q).Within I G := by
  induction p with
  | ret a => exact trivial
  | throw e => exact hq e
  | stmt f k h ihk ihh =>
    exact ⟨fun t ht => ⟨(hp.1 t ht).1, ihk t (hp.1 t ht).2⟩, ihh hp.2⟩

theorem within_ite {b : Prop} [Decidable b] {p q : Sql σ α} (hp : b → p.Within I G)
    (hq : ¬b → q.Within I G) : (if b then p else q).Within I G := by
  split
  · exact hp ‹_›
  · exact hq ‹_›

theorem within_script {us : List (σ → Option σ)}
    (h : ∀ f ∈ us, ∀ t t', I t → f t = some t' → I t' ∧ G t t') :
    (script us).Within I G := by
  induction us with
  | nil => trivial
  | cons f us ih =>
    exact within_bind (within_attempt (h f (by simp))) fun _ => ih fun g hg => h g (by simp [hg])

theorem Within.imp {J : σ → Prop} {H : σ → σ → Prop} {p : Sql σ α} (h : p.Within I G)
    (hI : ∀ t, J t → I t) (hG : ∀ t t', J t → G t t' → J t' ∧ H t t') : p.Within J H := by
  induction p with
  | ret a => trivial
  | throw e => trivial
  | stmt f k q ihk ihq =>
    refine ⟨fun t ht => ⟨fun t' hf => ?_, ihk t (h.1 t (hI t ht)).2⟩, ihq h.2⟩
    exact hG t t' ht ((h.1 t (hI t ht)).1 t' hf).2

theorem Within.and {J : σ → Prop} {H : σ → σ → Prop} {p : Sql σ α} (h : p.Within I G)
    (h' : p.Within J H) : p.Within (fun t => I t ∧ J t) fun t t' => G t t' ∧ H t t' := by
  induction p with
  | ret a => trivial
  | throw e => trivial
  | stmt f k q ihk ihq =>
    refine ⟨fun t ht => ⟨fun t' hf => ?_, ihk t (h.1 t ht.1).2 (h'.1 t ht.2).2⟩, ihq h.2 h'.2⟩
    obtain ⟨hI, hG⟩ := (h.1 t ht.1).1 t' hf
    obtain ⟨hJ, hH⟩ := (h'.1 t ht.2).1 t' hf
    exact ⟨⟨hI, hJ⟩, hG, hH⟩

/-- An effect does not depend on the others, so it is a contract next to any of them. -/
theorem Within.ok {p : Sql σ α} (h : p.Within I G) {R : σ → σ → Prop} {s : σ} (hs : I s) :
    p.Ok ⟨I, R, G⟩ (fun _ _ => True) (fun _ _ => True) s := by
  induction p generalizing s with
  | ret a => exact fun _ _ => trivial
  | throw e => exact fun _ _ => trivial
  | stmt f k q ihk ihq =>
    intro t ht
    have hI : I t := ht.inv (c := ⟨I, R, G⟩) hs
    refine ⟨fun t' hf => ?_, ihq h.2 hI⟩
    obtain ⟨h1, h2⟩ := (h.1 t hI).1 t' hf
    exact ⟨h1, h2, ihk t (h.1 t hI).2 h1⟩

/-- Nor does it if its statements rely on something that the others leave true. -/
theorem Within.ok_while {A : σ → Prop} {p : Sql σ α} (h : p.Within (fun t => I t ∧ A t) G)
    {R : σ → σ → Prop} (hA : ∀ s t, R s t → I t → A s → A t) {s : σ} (hI : I s) (hs : A s) :
    p.Ok ⟨I, R, G⟩ (fun _ _ => True) (fun _ _ => True) s := by
  induction p generalizing s with
  | ret a => exact fun _ _ => trivial
  | throw e => exact fun _ _ => trivial
  | stmt f k q ihk ihq =>
    intro t ht
    have hIt : I t := ht.inv (c := ⟨I, R, G⟩) hI
    have hAt : A t := ht.stable (c := ⟨I, R, G⟩) hA hs
    obtain ⟨hstep, hk⟩ := h.1 t ⟨hIt, hAt⟩
    refine ⟨fun t' hf => ?_, ihq h.2 hIt hAt⟩
    obtain ⟨⟨hI', hA'⟩, hG⟩ := hstep t' hf
    exact ⟨hI', hG, ihk t hk hI' hA'⟩

/-- An invariant that the others keep need not be one of the contract. -/
theorem Ok.widen {R : σ → σ → Prop} {Q : α → σ → Prop} {E : Exn → σ → Prop} {p : Sql σ α} {s : σ}
    (h : p.Ok ⟨I, R, G⟩ Q E s) (hs : I s) (hR : ∀ s t, R s t → I s → I t) :
    p.Ok ⟨fun _ => True, R, G⟩ Q E s := by
  have hdrift : ∀ {s t : σ}, Contract.Drift ⟨fun _ => True, R, G⟩ s t → I s →
      Contract.Drift ⟨I, R, G⟩ s t ∧ I t := by
    intro s t hst hs
    induction hst with
    | refl => exact ⟨Relation.ReflTransGen.refl, hs⟩
    | tail _ hst ih => exact ⟨ih.1.tail ⟨hst.1, hR _ _ hst.1 ih.2⟩, hR _ _ hst.1 ih.2⟩
  induction p generalizing s with
  | ret a => exact fun t ht => h t (hdrift ht hs).1
  | throw e => exact fun t ht => h t (hdrift ht hs).1
  | stmt f k q ihk ihq =>
    intro t ht
    obtain ⟨ht', hI⟩ := hdrift ht hs
    refine ⟨fun t' hf => ?_, ihq (h t ht').2 hI⟩
    obtain ⟨hI', hG, hk⟩ := (h t ht').1 t' hf
    exact ⟨trivial, hG, ihk t hk hI'⟩

/-- A relation that contains every statement's effect contains the whole run. -/
theorem Within.run {p : Sql σ α} (h : p.Within I G) (hrefl : ∀ s, G s s)
    (htrans : ∀ a b c, G a b → G b c → G a c) (fs : List Bool) {s : σ} (hs : I s) :
    I (run fs p s).2 ∧ G s (run fs p s).2 := by
  obtain ⟨h1, h2, -⟩ := (h.ok (R := fun _ _ => False) hs).run hs fs
  exact ⟨h1, closed_under hrefl htrans h2⟩

end Within

/-! ### Programs that run alone from a known store -/

section Solo
variable {I : σ → Prop} {G : σ → σ → Prop} {Q : β → σ → Prop}

/-- Nothing runs in between, and the program may do what it likes on the way. -/
abbrev solo : Contract σ := Contract.alone (fun _ => True) fun _ _ => True

theorem solo_ret {Q : α → σ → Prop} {a : α} {s : σ} (h : Q a s) : (ret a).Ok solo Q E s := by
  intro t ht
  rw [Contract.drift_alone.1 ht]
  exact h

theorem solo_throw {Q : α → σ → Prop} {e : Exn} {s : σ} (h : E e s) :
    (throw e : Sql σ α).Ok solo Q E s := by
  intro t ht
  rw [Contract.drift_alone.1 ht]
  exact h

theorem solo_query_bind {q : σ → α} {g : α → Sql σ β} {s : σ} (h : (g (q s)).Ok solo Q E s)
    (hE : E .sql s) : ((query q).bind g).Ok solo Q E s := by
  refine ok_query_bind trivial (fun _ => trivial) (fun t ht _ => ?_) fun t ht => ?_
  · rw [Contract.drift_alone.1 ht]
    exact h
  · rw [Contract.drift_alone.1 ht]
    exact hE

theorem solo_attempt_bind {f : σ → Option σ} {g : Unit → Sql σ β} {s : σ}
    (h : ∀ t, f s = some t → (g ()).Ok solo Q E t) (hE : E .sql s) :
    ((attempt f).bind g).Ok solo Q E s := by
  apply ok_bind.2
  refine ok_attempt (fun t t' ht hf => ⟨trivial, trivial, fun u hu => ?_⟩) fun t ht => ?_
  · rw [Contract.drift_alone.1 ht] at hf
    rw [Contract.drift_alone.1 hu]
    exact h t' hf
  · rw [Contract.drift_alone.1 ht]
    exact hE

theorem solo_exec_bind {f : σ → σ} {g : Unit → Sql σ β} {s : σ} (h : (g ()).Ok solo Q E (f s))
    (hE : E .sql s) : ((exec f).bind g).Ok solo Q E s := by
  apply solo_attempt_bind _ hE
  intro t hf
  cases hf
  exact h

/-- What every statement of `p` keeps holds when `p` ends or throws. -/
theorem Within.solo {p : Sql σ α} {Q : α → σ → Prop} {s : σ} (hp : p.Within I G) (hs : I s)
    (hQ : ∀ a t, I t → Q a t) (hE : ∀ e t, I t → E e t) : p.Ok solo Q E s := by
  induction p generalizing s with
  | ret a => exact solo_ret (hQ a s hs)
  | throw e => exact solo_throw (hE e s hs)
  | stmt f k h ihk ihh =>
    intro t ht
    rw [Contract.drift_alone.1 ht]
    refine ⟨fun t' hf => ⟨trivial, trivial, ?_⟩, ihh hp.2 hs⟩
    exact ihk s (hp.1 s hs).2 ((hp.1 s hs).1 t' hf).1

/-- What a program that returns has established. -/
theorem solo_returns {p : Sql σ β} {s t : σ} {a : β} (h : p.Ok solo Q E s) {fs : List Bool}
    (hrun : run fs p s = (.ok a, t)) : Q a t := by
  have hend := (h.run trivial fs).2.2
  rw [hrun] at hend
  exact hend

/-- Run from `s` with nothing in between, `p` ends or throws in a store with `I`. -/
abbrev Leaves (I : σ → Prop) (p : Sql σ α) (s : σ) : Prop :=
  p.Ok Sql.solo (fun _ t => I t) (fun _ t => I t) s

theorem Within.leaves {p : Sql σ α} {s : σ} (hp : p.Within I G) (hs : I s) : p.Leaves I s :=
  hp.solo hs (fun _ _ h => h) fun _ _ h => h

theorem leaves_bind {p : Sql σ α} {g : α → Sql σ β} {s : σ} {J : σ → Prop} (hp : p.Leaves J s)
    (hg : ∀ a t, J t → (g a).Leaves I t) (hJ : ∀ t, J t → I t) : (p.bind g).Leaves I s :=
  ok_bind.2 (Ok.imp hp hg fun _ => hJ)

theorem leaves_tryCatch {p : Sql σ α} {q : Exn → Sql σ α} {s : σ} (hp : p.Leaves I s)
    (hq : ∀ e t, I t → (q e).Leaves I t) : (p.tryCatch q).Leaves I s :=
  ok_tryCatch.2 (Ok.imp hp (fun _ _ h => h) hq)

theorem leaves_exec {f : σ → σ} {s : σ} (hf : I (f s)) (hs : I s) : (exec f).Leaves I s := by
  apply ok_exec
  · intro t ht
    rw [Contract.drift_alone.1 ht]
    exact ⟨trivial, trivial, fun u hu => Contract.drift_alone.1 hu ▸ hf⟩
  · intro t ht
    rw [Contract.drift_alone.1 ht]
    exact hs

theorem Leaves.run {p : Sql σ α} {s : σ} (h : p.Leaves I s) (fs : List Bool) :
    I (Sql.run fs p s).2 := by
  have hend := (Ok.run h trivial fs).2.2
  split at hend <;> simp_all

end Solo

/-! ### What a program returns -/

/-- All values that the program may return, whatever the store and the faults, have `P`. -/
def Returns (P : α → Prop) : Sql σ α → Prop
  | .ret a => P a
  | .throw _ => True
  | .stmt _ k h => (∀ s, (k s).Returns P) ∧ h.Returns P

section Returns
variable {P : α → Prop} {Q : β → Prop}

theorem returns_any (p : Sql σ α) : p.Returns fun _ => True := by
  induction p with
  | ret a => trivial
  | throw e => trivial
  | stmt f k h ihk ihh => exact ⟨ihk, ihh⟩

theorem Returns.imp {P' : α → Prop} {p : Sql σ α} (hp : p.Returns P) (h : ∀ a, P a → P' a) :
    p.Returns P' := by
  induction p with
  | ret a => exact h a hp
  | throw e => trivial
  | stmt f k q ihk ihq => exact ⟨fun s => ihk s (hp.1 s), ihq hp.2⟩

theorem Returns.bind {p : Sql σ α} {g : α → Sql σ β} (hp : p.Returns P)
    (hg : ∀ a, P a → (g a).Returns Q) : (p.bind g).Returns Q := by
  induction p with
  | ret a => exact hg a hp
  | throw e => trivial
  | stmt f k h ihk ihh => exact ⟨fun s => ihk s (hp.1 s), ihh hp.2⟩

theorem Returns.tryCatch {p : Sql σ α} {q : Exn → Sql σ α} (hp : p.Returns P)
    (hq : ∀ e, (q e).Returns P) : (p.tryCatch q).Returns P := by
  induction p with
  | ret a => exact hp
  | throw e => exact hq e
  | stmt f k h ihk ihh => exact ⟨fun s => ihk s (hp.1 s), ihh hp.2⟩

theorem Returns.run {p : Sql σ α} (hp : p.Returns P) {fs : List Bool} {s t : σ} {a : α}
    (h : Sql.run fs p s = (.ok a, t)) : P a := by
  induction p generalizing fs s with
  | ret b =>
    rw [run_ret] at h
    cases h
    exact hp
  | throw e =>
    rw [run_throw] at h
    cases h
  | stmt f k q ihk ihq =>
    rw [Sql.run] at h
    split at h
    · exact ihk s (hp.1 s) h
    · exact ihq hp.2 h

end Returns

/-- A query under a handler: it throws into it, or the rest runs under it. -/
theorem run_query_tryCatch_bind (fs : List Bool) (q : σ → γ) (g : γ → Sql σ α)
    (h : Exn → Sql σ α) (k : α → Sql σ β) (s : σ) :
    run fs ((((query q).bind g).tryCatch h).bind k) s =
      if fs.headD false then run fs.tail ((h .sql).bind k) s
      else run fs.tail (((g (q s)).tryCatch h).bind k) s := by
  simp only [query, Sql.bind, Sql.tryCatch, run]
  cases fs.headD false <;> rfl

/-! ### Programs that cannot tell two stores apart -/

/-- Run from two stores related by `R`, `p` issues the same statements, they throw in both or
in neither, and the stores stay related. -/
def Blind (R : σ → σ → Prop) : Sql σ α → Prop
  | .ret _ => True
  | .throw _ => True
  | .stmt f k h => (∀ s s', R s s' →
      (f s).isSome = (f s').isSome ∧ (∀ t t', f s = some t → f s' = some t' → R t t') ∧
        k s = k s' ∧ (k s).Blind R) ∧ h.Blind R

section Blind
variable {R : σ → σ → Prop}

theorem blind_attempt {f : σ → Option σ} (hf : ∀ s s', R s s' →
    (f s).isSome = (f s').isSome ∧ ∀ t t', f s = some t → f s' = some t' → R t t') :
    (attempt f).Blind R :=
  ⟨fun s s' h => ⟨(hf s s' h).1, (hf s s' h).2, rfl, trivial⟩, trivial⟩

theorem blind_exec {f : σ → σ} (hf : ∀ s s', R s s' → R (f s) (f s')) : (exec f).Blind R := by
  refine blind_attempt fun s s' h => ⟨rfl, fun t t' ht ht' => ?_⟩
  rw [← Option.some.inj ht, ← Option.some.inj ht']
  exact hf s s' h

theorem blind_query {q : σ → β} (hq : ∀ s s', R s s' → q s = q s') : (query q).Blind R := by
  refine ⟨fun s s' h => ⟨rfl, fun t t' ht ht' => ?_, ?_, trivial⟩, trivial⟩
  · rw [← Option.some.inj ht, ← Option.some.inj ht']
    exact h
  · exact congrArg ret (hq s s' h)

/-- A query that may answer differently, if what follows is the same. -/
theorem blind_query_bind {q : σ → α} {g : α → Sql σ β} (hq : ∀ s s', R s s' → g (q s) = g (q s'))
    (hg : ∀ s s', R s s' → (g (q s)).Blind R) : ((query q).bind g).Blind R := by
  refine ⟨fun s s' h => ⟨rfl, fun t t' ht ht' => ?_, hq s s' h, hg s s' h⟩, trivial⟩
  rw [← Option.some.inj ht, ← Option.some.inj ht']
  exact h

theorem blind_bind {p : Sql σ α} {g : α → Sql σ β} (hp : p.Blind R) (hg : ∀ a, (g a).Blind R) :
    (p.bind g).Blind R := by
  induction p with
  | ret a => exact hg a
  | throw e => trivial
  | stmt f k h ihk ihh =>
    refine ⟨fun s s' hR => ?_, ihh hp.2⟩
    obtain ⟨h1, h2, h3, h4⟩ := hp.1 s s' hR
    exact ⟨h1, h2, congrArg (fun q => q.bind g) h3, ihk s h4⟩

theorem blind_tryCatch {p : Sql σ α} {q : Exn → Sql σ α} (hp : p.Blind R)
    (hq : ∀ e, (q e).Blind R) : (p.tryCatch q).Blind R := by
  induction p with
  | ret a => trivial
  | throw e => exact hq e
  | stmt f k h ihk ihh =>
    refine ⟨fun s s' hR => ?_, ihh hp.2⟩
    obtain ⟨h1, h2, h3, h4⟩ := hp.1 s s' hR
    exact ⟨h1, h2, congrArg (fun p => p.tryCatch q) h3, ihk s h4⟩

theorem blind_ite {b : Prop} [Decidable b] {p q : Sql σ α} (hp : b → p.Blind R)
    (hq : ¬b → q.Blind R) : (if b then p else q).Blind R := by
  split
  · exact hp ‹_›
  · exact hq ‹_›

/-- A program that cannot tell apart what `R` relates, each of whose statements has an effect of
its own on what `R'` speaks of, takes both along. -/
theorem Blind.and {R' : σ → σ → Prop} {G : σ → σ → Prop} {p : Sql σ α} (h : p.Blind R)
    (hp : p.Within (fun _ => True) G)
    (hG : ∀ s s' t t', R' s s' → G s t → G s' t' → R' t t') :
    p.Blind fun s s' => R s s' ∧ R' s s' := by
  induction p with
  | ret a => trivial
  | throw e => trivial
  | stmt f k q ihk ihq =>
    refine ⟨fun s s' hR => ?_, ihq h.2 hp.2⟩
    obtain ⟨hsome, hrel, hk, hblind⟩ := h.1 s s' hR.1
    refine ⟨hsome, fun t t' ht ht' => ⟨hrel t t' ht ht', ?_⟩, hk, ihk s hblind (hp.1 s trivial).2⟩
    exact hG s s' t t' hR.2 ((hp.1 s trivial).1 t ht).2 ((hp.1 s' trivial).1 t' ht').2

theorem blind_script {us : List (σ → Option σ)} (h : ∀ f ∈ us, ∀ s s', R s s' →
    (f s).isSome = (f s').isSome ∧ ∀ t t', f s = some t → f s' = some t' → R t t') :
    (script us).Blind R := by
  induction us with
  | nil => trivial
  | cons f us ih =>
    exact blind_bind (blind_attempt (h f (by simp))) fun _ => ih fun g hg => h g (by simp [hg])

/-- Under the same faults a blind program has the same outcome. -/
theorem Blind.run {p : Sql σ α} (h : p.Blind R) (fs : List Bool) {s s' : σ} (hR : R s s') :
    (run fs p s).1 = (run fs p s').1 ∧ R (run fs p s).2 (run fs p s').2 := by
  induction p generalizing fs s s' with
  | ret a => simpa using hR
  | throw e => simpa using hR
  | stmt f k q ihk ihq =>
    obtain ⟨h1, h2, h3, h4⟩ := h.1 s s' hR
    rw [Sql.run, Sql.run]
    cases fs.headD false with
    | true => exact ihq h.2 fs.tail hR
    | false =>
      cases hf : f s with
      | none =>
        have hf' : f s' = none := by simpa [hf] using h1.symm
        rw [hf']
        exact ihq h.2 fs.tail hR
      | some t =>
        obtain ⟨t', hf'⟩ : ∃ t', f s' = some t' := by
          rw [hf] at h1
          exact Option.isSome_iff_exists.1 h1.symm
        rw [hf']
        have hsame := ihk s h4 fs.tail (h2 t t' hf hf')
        rw [h3] at hsame ⊢
        exact hsame

end Blind

end Sql

end AtomComm
