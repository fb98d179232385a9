import AtomComm.Lib.Interleave

/-! Noninterference. An observer cannot tell stores apart that a relation relates, and sees some
of the results. If the programs that do not concern it change nothing that it sees, then every
run looks to it like a run of the system without them. -/

namespace AtomComm

variable {ι σ α : Type} [DecidableEq ι]

/-- The program keeps `I`, and an observer of `R` sees neither its statements nor its result. -/
structure Sql.Unseen (I : σ → Prop) (R : σ → σ → Prop) (seen : α → Prop) (p : Sql σ α) : Prop where
  within : p.Within I fun t t' => ∀ u, R t u → R t' u
  returns : p.Returns fun a => ¬seen a

/-- The program keeps `I`, and runs alike from stores that `R` relates. -/
structure Sql.Seen (I : σ → Prop) (R : σ → σ → Prop) (p : Sql σ α) : Prop where
  within : p.Within I fun _ _ => True
  blind : p.Blind R

namespace System

omit [DecidableEq ι] in
/-- What `S` starts, `S'` starts too from every store that looks the same, or the observer takes
no notice of it. -/
def Separates (S S' : System ι σ α) (I : σ → Prop) (R : σ → σ → Prop) (seen : α → Prop) : Prop :=
  ∀ i s s' p, I s → S.start i s s' p → I s' ∧
    (p.Seen I R ∧ (∀ u, R s u → ∃ u', S'.start i u u' p ∧ R s' u') ∨
      p.Unseen I R seen ∧ ∀ u, R s u → R s' u)

/-- A thread stands at the same place in both pools, or is idle in the second one while it runs a
program that is not seen. -/
inductive Shadowed (I : σ → Prop) (R : σ → σ → Prop) (seen : α → Prop) :
    Option (Sql σ α) → Option (Sql σ α) → Prop
  | idle : Shadowed I R seen none none
  | seen {p} : p.Seen I R → Shadowed I R seen (some p) (some p)
  | unseen {p} : p.Unseen I R seen → Shadowed I R seen (some p) none

structure Shadow (I : σ → Prop) (R : σ → σ → Prop) (seen : α → Prop) (P Q : Pool ι σ α) : Prop where
  inv : I P.state
  rel : R P.state Q.state
  slots : ∀ i, Shadowed I R seen (P.slot i) (Q.slot i)

section
variable {S S' : System ι σ α} {I : σ → Prop} {R : σ → σ → Prop} {seen : α → Prop}
  {P P' Q : Pool ι σ α} {i : ι}

/-- Both pools move at one thread. -/
theorem Shadow.put (h : Shadow I R seen P Q) {t u : σ} {p q : Option (Sql σ α)} (hI : I t)
    (hR : R t u) (hpq : Shadowed I R seen p q) : Shadow I R seen (P.put t i p) (Q.put u i q) := by
  refine ⟨hI, hR, fun j => ?_⟩
  by_cases hj : j = i
  · subst hj
    simpa using hpq
  · rw [Pool.slot_put_ne hj, Pool.slot_put_ne hj]
    exact h.slots j

/-- The second pool stays where it is. -/
theorem Shadow.put_left (h : Shadow I R seen P Q) {t : σ} {p : Option (Sql σ α)} (hI : I t)
    (hR : R t Q.state) (hpq : Shadowed I R seen p (Q.slot i)) :
    Shadow I R seen (P.put t i p) Q := by
  have hput := h.put (i := i) hI hR hpq
  rwa [Pool.put_self rfl] at hput

/-- A step of a thread that is seen. -/
theorem shadow_seen {p : Sql σ α} (h : Shadow I R seen P Q) (hp : P.slot i = some p)
    (hq : Q.slot i = some p) (hseen : p.Seen I R) (hst : S.StepOf i P P') :
    ∃ Q', S'.Reaches Q Q' ∧ Shadow I R seen P' Q' := by
  cases hst with
  | start hi => rw [hi] at hp; cases hp
  | @stmt f k q t hi hf =>
    obtain rfl := Option.some.inj (hp.symm.trans hi)
    obtain ⟨hsome, hrel, hk, hblind⟩ := hseen.blind.1 _ _ h.rel
    obtain ⟨u, hu⟩ := Option.isSome_iff_exists.1 (hsome.symm.trans (by rw [hf]; rfl))
    obtain ⟨hI, hwithin⟩ := hseen.within.1 _ h.inv
    refine ⟨_, Relation.ReflTransGen.single (.stmt hq hu), h.put (hI t hf).1 (hrel t u hf hu) ?_⟩
    rw [← hk]
    exact .seen ⟨hwithin, hblind⟩
  | @fault f k q hi =>
    obtain rfl := Option.some.inj (hp.symm.trans hi)
    refine ⟨_, Relation.ReflTransGen.single (.fault hq), h.put h.inv h.rel ?_⟩
    exact .seen ⟨hseen.within.2, hseen.blind.2⟩
  | done hi =>
    obtain rfl := Option.some.inj (hp.symm.trans hi)
    exact ⟨_, Relation.ReflTransGen.single (.done hq), h.put h.inv h.rel .idle⟩
  | fail hi =>
    obtain rfl := Option.some.inj (hp.symm.trans hi)
    exact ⟨_, Relation.ReflTransGen.single (.fail hq), h.put h.inv h.rel .idle⟩

/-- A step of a thread that is not seen. -/
theorem shadow_unseen {p : Sql σ α} (h : Shadow I R seen P Q) (hp : P.slot i = some p)
    (hq : Q.slot i = none) (hunseen : p.Unseen I R seen) (hst : S.StepOf i P P') :
    Shadow I R seen P' Q := by
  have hidle : Shadowed I R seen none (Q.slot i) := by
    rw [hq]
    exact .idle
  cases hst with
  | start hi => rw [hi] at hp; cases hp
  | @stmt f k q t hi hf =>
    obtain rfl := Option.some.inj (hp.symm.trans hi)
    obtain ⟨hstep, hwithin⟩ := hunseen.within.1 _ h.inv
    obtain ⟨hI, hG⟩ := hstep t hf
    refine h.put_left hI (hG _ h.rel) ?_
    rw [hq]
    exact .unseen ⟨hwithin, hunseen.returns.1 _⟩
  | @fault f k q hi =>
    obtain rfl := Option.some.inj (hp.symm.trans hi)
    refine h.put_left h.inv h.rel ?_
    rw [hq]
    exact .unseen ⟨hunseen.within.2, hunseen.returns.2⟩
  | done => exact h.put_left h.inv h.rel hidle
  | fail => exact h.put_left h.inv h.rel hidle

theorem Separates.step (hS : S.Separates S' I R seen) (h : Shadow I R seen P Q)
    (hst : S.Step P P') : ∃ Q', S'.Reaches Q Q' ∧ Shadow I R seen P' Q' := by
  obtain ⟨i, hst⟩ := step_iff.1 hst
  have hslot := h.slots i
  cases hp : P.slot i with
  | none =>
    obtain ⟨s', p, hstart, rfl⟩ := hst.of_none hp
    have hq : Q.slot i = none := by
      rw [hp] at hslot
      cases hslot' : Q.slot i with
      | none => rfl
      | some q => rw [hslot'] at hslot; cases hslot
    obtain ⟨hI, ⟨hseen, hmatch⟩ | ⟨hunseen, hsame⟩⟩ := hS i _ _ p h.inv hstart
    · obtain ⟨u', hstart', hR⟩ := hmatch _ h.rel
      exact ⟨_, Relation.ReflTransGen.single (.start hq hstart'), h.put hI hR (.seen hseen)⟩
    · refine ⟨Q, .refl, h.put_left hI (hsame _ h.rel) ?_⟩
      rw [hq]
      exact .unseen hunseen
  | some p =>
    rw [hp] at hslot
    cases hq : Q.slot i with
    | none =>
      rw [hq] at hslot
      cases hslot with
      | unseen hunseen => exact ⟨Q, .refl, shadow_unseen h hp hq hunseen hst⟩
    | some q =>
      rw [hq] at hslot
      cases hslot with
      | seen hseen => exact shadow_seen h hp hq hseen hst

/-- What the observer sees of a run, the stores, the programs and the results, it sees of a run
of the smaller system. -/
theorem Separates.reaches (hS : S.Separates S' I R seen) {s u : σ} (hI : I s) (hR : R s u)
    (h : S.Reaches (idle s) P) : ∃ Q, S'.Reaches (idle u) Q ∧ R P.state Q.state ∧
      (∀ i p, Q.slot i = some p → P.slot i = some p) ∧
      ∀ i a, seen a → P.slot i = some (.ret a) → Q.slot i = some (.ret a) := by
  have hshadow : ∃ Q, S'.Reaches (idle u) Q ∧ Shadow I R seen P Q := by
    induction h with
    | refl => exact ⟨_, .refl, hI, hR, fun _ => .idle⟩
    | tail _ hst ih =>
      obtain ⟨Q, hQ, hsh⟩ := ih
      obtain ⟨Q', hQ', hsh'⟩ := hS.step hsh hst
      exact ⟨Q', hQ.trans hQ', hsh'⟩
  obtain ⟨Q, hQ, hsh⟩ := hshadow
  refine ⟨Q, hQ, hsh.rel, fun i p hq => ?_, fun i a ha hp => ?_⟩
  all_goals have hslot := hsh.slots i
  · rw [hq] at hslot
    cases hp : P.slot i with
    | none => rw [hp] at hslot; cases hslot
    | some p' => rw [hp] at hslot; cases hslot; rfl
  · rw [hp] at hslot
    cases hq : Q.slot i with
    | none =>
      rw [hq] at hslot
      cases hslot with
      | unseen hunseen => exact absurd ha hunseen.returns
    | some q => rw [hq] at hslot; cases hslot; rfl

end

end System

end AtomComm
