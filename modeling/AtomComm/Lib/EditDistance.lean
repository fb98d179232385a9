import Mathlib.Order.Lattice.Nat
import Mathlib.Tactic.Common

/-! Making one text of another at a cost. A `Script` puts the two together piece by piece, by
rules that have costs of their own; `Edits` has the rules of single letters only, each kind of
edit at a fixed cost, and the least cost of those is the distance of two texts. -/

namespace AtomComm.EditDistance

variable {α : Type*}

/-- Pieces of the two texts, one behind the other, and the sum of their costs. -/
inductive Script (R : List α → List α → ℕ → Prop) : List α → List α → ℕ → Prop
  | nil : Script R [] [] 0
  | snoc {u v s t c d} : Script R u v c → R s t d → Script R (u ++ s) (v ++ t) (c + d)

theorem Script.mono {R R' : List α → List α → ℕ → Prop} (hR : ∀ s t d, R s t d → R' s t d)
    {u v : List α} {c : ℕ} (h : Script R u v c) : Script R' u v c := by
  induction h with
  | nil => exact .nil
  | snoc _ hr ih => exact .snoc ih (hR _ _ _ hr)

structure Costs where
  ins : ℕ
  del : ℕ
  sub : ℕ

/-- The edits of single letters. -/
inductive Edit (k : Costs) : List α → List α → ℕ → Prop
  | insert (b : α) : Edit k [] [b] k.ins
  | delete (a : α) : Edit k [a] [] k.del
  | same (a : α) : Edit k [a] [a] 0
  | substitute (a b : α) : Edit k [a] [b] k.sub

/-- Edits from the front on. -/
inductive Edits (k : Costs) : List α → List α → ℕ → Prop
  | nil : Edits k [] [] 0
  | insert {x y c} (b : α) : Edits k x y c → Edits k x (b :: y) (c + k.ins)
  | delete {x y c} (a : α) : Edits k x y c → Edits k (a :: x) y (c + k.del)
  | same {x y c} (a : α) : Edits k x y c → Edits k (a :: x) (a :: y) c
  | substitute {x y c} (a b : α) : Edits k x y c → Edits k (a :: x) (b :: y) (c + k.sub)

/-- The least cost of editing one text into the other. -/
noncomputable def dist (k : Costs) (x y : List α) : ℕ := sInf {c | Edits k x y c}

section
variable {k : Costs} {x y z x' y' : List α} {c c' d : ℕ}

theorem edits_self (x : List α) : Edits k x x 0 := by
  induction x with
  | nil => exact .nil
  | cons a x ih => exact .same a ih

theorem Edits.append (h : Edits k x y c) (h' : Edits k x' y' c') :
    Edits k (x ++ x') (y ++ y') (c + c') := by
  induction h with
  | nil => simpa using h'
  | insert b _ ih =>
    rw [Nat.add_right_comm]
    exact .insert b ih
  | delete a _ ih =>
    rw [Nat.add_right_comm]
    exact .delete a ih
  | same a _ ih => exact .same a ih
  | substitute a b _ ih =>
    rw [Nat.add_right_comm]
    exact .substitute a b ih

theorem edits_insertAll (y : List α) : Edits k [] y (y.length * k.ins) := by
  induction y with
  | nil => simpa using Edits.nil
  | cons b y ih =>
    rw [List.length_cons, Nat.succ_mul]
    exact .insert b ih

theorem edits_deleteAll (x : List α) : Edits k x [] (x.length * k.del) := by
  induction x with
  | nil => simpa using Edits.nil
  | cons a x ih =>
    rw [List.length_cons, Nat.succ_mul]
    exact .delete a ih

theorem exists_edits (x y : List α) : ∃ c, Edits k x y c :=
  ⟨_, by simpa using (edits_deleteAll x).append (edits_insertAll y)⟩

/-- From the front or from the back, the edits are the same. -/
theorem script_iff_edits : Script (Edit k) x y c ↔ Edits k x y c := by
  constructor
  · intro h
    induction h with
    | nil => exact .nil
    | snoc _ he ih =>
      refine ih.append ?_
      cases he with
      | insert b => simpa using Edits.insert b .nil
      | delete a => simpa using Edits.delete a .nil
      | same a => exact .same a .nil
      | substitute a b => simpa using Edits.substitute a b .nil
  · intro h
    have hfrom : ∀ {u v : List α} {c₀}, Script (Edit k) u v c₀ →
        Script (Edit k) (u ++ x) (v ++ y) (c₀ + c) := by
      induction h with
      | nil => simp
      | insert b _ ih =>
        intro u v c₀ h₀
        simpa [Nat.add_comm, Nat.add_left_comm] using ih (h₀.snoc (.insert b))
      | delete a _ ih =>
        intro u v c₀ h₀
        simpa [Nat.add_comm, Nat.add_left_comm] using ih (h₀.snoc (.delete a))
      | same a _ ih =>
        intro u v c₀ h₀
        simpa using ih (h₀.snoc (.same a))
      | substitute a b _ ih =>
        intro u v c₀ h₀
        simpa [Nat.add_comm, Nat.add_left_comm] using ih (h₀.snoc (.substitute a b))
    simpa using hfrom .nil

theorem dist_le (h : Edits k x y c) : dist k x y ≤ c := Nat.sInf_le h

theorem edits_dist (x y : List α) : Edits k x y (dist k x y) :=
  Nat.sInf_mem (s := {c | Edits k x y c}) (exists_edits x y)

/-! ### The distance as a metric -/

@[simp] theorem dist_self (x : List α) : dist k x x = 0 := Nat.le_zero.1 (dist_le (edits_self x))

/-- What is edited at no cost is left as it is. -/
theorem Edits.eq_of_zero (h : Edits k x y c) (hk : 0 < k.ins ∧ 0 < k.del ∧ 0 < k.sub)
    (hc : c = 0) : x = y := by
  induction h with
  | nil => rfl
  | same a _ ih => rw [ih hc]
  | insert | delete | substitute => omega

theorem dist_eq_zero (hk : 0 < k.ins ∧ 0 < k.del ∧ 0 < k.sub) : dist k x y = 0 ↔ x = y :=
  ⟨fun h => (edits_dist x y).eq_of_zero hk h, fun h => h ▸ dist_self x⟩

theorem Edits.symm (hk : k.ins = k.del) (h : Edits k x y c) : Edits k y x c := by
  induction h with
  | nil => exact .nil
  | insert b _ ih => exact hk ▸ .delete b ih
  | delete a _ ih => exact hk ▸ .insert a ih
  | same a _ ih => exact .same a ih
  | substitute a b _ ih => exact .substitute b a ih

theorem dist_comm (hk : k.ins = k.del) (x y : List α) : dist k x y = dist k y x :=
  le_antisymm (dist_le ((edits_dist y x).symm hk)) (dist_le ((edits_dist x y).symm hk))

/-- What becomes of the first letter, behind what is inserted in front of it. -/
theorem Edits.first {b : α} {P : List α → ℕ → Prop} (h : Edits k (b :: y) z d)
    (insert : ∀ a z d, P z d → P (a :: z) (d + k.ins))
    (delete : ∀ z d, Edits k y z d → P z (d + k.del))
    (same : ∀ z d, Edits k y z d → P (b :: z) d)
    (substitute : ∀ a z d, Edits k y z d → P (a :: z) (d + k.sub)) : P z d := by
  generalize hw : b :: y = w at h
  induction h with
  | nil => cases hw
  | insert a _ ih => exact insert a _ _ (ih hw)
  | delete a h => cases hw; exact delete _ _ h
  | same a h => cases hw; exact same _ _ h
  | substitute a a' h => cases hw; exact substitute a' _ _ h

/-- Edits one after the other come to no more than the sum. -/
theorem Edits.trans (h : Edits k x y c) (h' : Edits k y z d) : ∃ e ≤ c + d, Edits k x z e := by
  have hinsert : ∀ {x : List α} {c} (a z d), (∃ e ≤ c + d, Edits k x z e) →
      ∃ e ≤ c + (d + k.ins), Edits k x (a :: z) e := by
    rintro x c a z d ⟨e, he, hz⟩
    exact ⟨e + k.ins, by omega, .insert a hz⟩
  induction h generalizing z d with
  | nil => exact ⟨d, by omega, h'⟩
  | delete a _ ih =>
    obtain ⟨e, he, hz⟩ := ih h'
    exact ⟨e + k.del, by omega, .delete a hz⟩
  | insert b _ ih =>
    refine h'.first hinsert ?_ ?_ ?_
    · intro z d hd
      obtain ⟨e, he, hz⟩ := ih hd
      exact ⟨e, by omega, hz⟩
    · intro z d hd
      obtain ⟨e, he, hz⟩ := ih hd
      exact ⟨e + k.ins, by omega, .insert b hz⟩
    · intro b' z d hd
      obtain ⟨e, he, hz⟩ := ih hd
      exact ⟨e + k.ins, by omega, .insert b' hz⟩
  | same a _ ih =>
    refine h'.first hinsert ?_ ?_ ?_
    · intro z d hd
      obtain ⟨e, he, hz⟩ := ih hd
      exact ⟨e + k.del, by omega, .delete a hz⟩
    · intro z d hd
      obtain ⟨e, he, hz⟩ := ih hd
      exact ⟨e, he, .same a hz⟩
    · intro b' z d hd
      obtain ⟨e, he, hz⟩ := ih hd
      exact ⟨e + k.sub, by omega, .substitute a b' hz⟩
  | substitute a b _ ih =>
    refine h'.first hinsert ?_ ?_ ?_
    · intro z d hd
      obtain ⟨e, he, hz⟩ := ih hd
      exact ⟨e + k.del, by omega, .delete a hz⟩
    · intro z d hd
      obtain ⟨e, he, hz⟩ := ih hd
      exact ⟨e + k.sub, by omega, .substitute a b hz⟩
    · intro b' z d hd
      obtain ⟨e, he, hz⟩ := ih hd
      exact ⟨e + k.sub, by omega, .substitute a b' hz⟩

theorem dist_triangle (x y z : List α) : dist k x z ≤ dist k x y + dist k y z := by
  obtain ⟨e, he, hz⟩ := (edits_dist x y).trans (edits_dist (k := k) y z)
  exact (dist_le hz).trans he

/-- The difference of the lengths is inserted or deleted. -/
theorem Edits.length_le (h : Edits k x y c) :
    k.ins * y.length ≤ k.ins * x.length + c ∧ k.del * x.length ≤ k.del * y.length + c := by
  induction h with
  | nil => simp
  | insert | delete | same | substitute => simp only [List.length_cons, Nat.mul_succ]; omega

/-- A number that divides all costs divides the sum. -/
theorem Edits.dvd {m : ℕ} (hk : m ∣ k.ins ∧ m ∣ k.del ∧ m ∣ k.sub) (h : Edits k x y c) :
    m ∣ c := by
  induction h with
  | nil => exact Nat.dvd_zero m
  | insert _ _ ih => exact Nat.dvd_add ih hk.1
  | delete _ _ ih => exact Nat.dvd_add ih hk.2.1
  | same _ _ ih => exact ih
  | substitute _ _ _ ih => exact Nat.dvd_add ih hk.2.2

theorem length_le_dist (x y : List α) : k.ins * y.length ≤ k.ins * x.length + dist k x y ∧
    k.del * x.length ≤ k.del * y.length + dist k x y :=
  (edits_dist x y).length_le

end

end AtomComm.EditDistance
