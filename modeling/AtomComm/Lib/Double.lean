import Mathlib.Algebra.Group.Action.Defs
import Mathlib.Algebra.Order.Field.Rat
import Mathlib.Data.List.Nodup
import Mathlib.Data.Rat.Floor
import Mathlib.Order.WithBot
import Mathlib.Tactic.Ring
import Mathlib.Tactic.FieldSimp

/-! Doubles read as exact rationals, with the two infinities. A floating column holds no
nan: nan binds as NULL, so an operation that may yield it returns an option. -/

namespace AtomComm

inductive Double
  | fin (q : ℚ)
  | inf (neg : Bool)
  deriving DecidableEq

namespace Double

def add : Double → Double → Option Double
  | .fin p, .fin q => some (.fin (p + q))
  | .fin _, .inf s => some (.inf s)
  | .inf s, .fin _ => some (.inf s)
  | .inf s, .inf t => if s = t then some (.inf s) else none

/-- Multiplication by a positive rational. -/
def scale (c : ℚ) : Double → Double
  | .fin q => .fin (c * q)
  | .inf s => .inf s

/-- The quotient of a rational by a count, as floating division has it. -/
def divNat (q : ℚ) (n : ℕ) : Option Double :=
  if n = 0 then if q = 0 then none else some (.inf (decide (q < 0))) else some (.fin (q / n))

def le : Double → Double → Bool
  | .fin p, .fin q => p ≤ q
  | .inf true, _ => true
  | _, .inf false => true
  | _, _ => false

def lt (x y : Double) : Bool := !y.le x

/-- The place in the order, the infinities at its ends. -/
def ext : Double → WithBot (WithTop ℚ)
  | .fin q => ((q : WithTop ℚ) : WithBot (WithTop ℚ))
  | .inf true => ⊥
  | .inf false => ((⊤ : WithTop ℚ) : WithBot (WithTop ℚ))

theorem ext_injective : Function.Injective ext := by
  intro x y h
  rcases x with p | (_ | _) <;> rcases y with q | (_ | _) <;> simp_all [ext]

theorem le_iff {x y : Double} : x.le y = true ↔ x.ext ≤ y.ext := by
  rcases x with p | (_ | _) <;> rcases y with q | (_ | _) <;> simp [ext, le]

theorem lt_iff {x y : Double} : x.lt y = true ↔ x.ext < y.ext := by
  rw [← not_le, ← le_iff, lt, Bool.not_eq_true', Bool.eq_false_iff, ne_eq]

/-- The low 32 bits of an integer, signed. -/
def wrap32 (n : ℤ) : ℤ := (n + 2 ^ 31) % 2 ^ 32 - 2 ^ 31

theorem wrap32_eq {n : ℤ} (h : -(2 ^ 31) ≤ n) (h' : n < 2 ^ 31) : wrap32 n = n := by
  unfold wrap32
  omega

/-- Only an integer of 32 bits is its own low 32 bits. -/
theorem wrap32_eq_iff {n : ℤ} : wrap32 n = n ↔ -(2 ^ 31) ≤ n ∧ n < 2 ^ 31 := by
  unfold wrap32
  omega

def trunc (q : ℚ) : ℤ := if q < 0 then -⌊-q⌋ else ⌊q⌋

theorem trunc_lt {q : ℚ} {n : ℤ} (hn : 0 < n) : trunc q < n ↔ q < n := by
  have hpos : (0 : ℚ) < n := by exact_mod_cast hn
  unfold trunc
  split
  · rename_i hq
    have hfloor : 0 ≤ ⌊-q⌋ := Int.floor_nonneg.2 (by linarith)
    exact iff_of_true (by omega) (by linarith)
  · exact Int.floor_lt

theorem lt_trunc {q : ℚ} {n : ℤ} (hn : 0 < n) : -n < trunc q ↔ (-n : ℚ) < q := by
  have hpos : (0 : ℚ) < n := by exact_mod_cast hn
  unfold trunc
  split
  · rw [neg_lt_neg_iff, Int.floor_lt, neg_lt]
  · rename_i hq
    have hfloor : 0 ≤ ⌊q⌋ := Int.floor_nonneg.2 (not_lt.1 hq)
    exact iff_of_true (by omega) (by linarith)

/-- Truncated to 64 bits, saturating, of which the low 32 are kept. -/
def toInt32 : Double → ℤ
  | .fin q => wrap32 (max (-(2 ^ 63)) (min (2 ^ 63 - 1) (trunc q)))
  | .inf neg => wrap32 (if neg then -(2 ^ 63) else 2 ^ 63 - 1)

/-- Within 64 bits nothing saturates, and what is kept is the truncated number if that has 32. -/
theorem toInt32_eq_trunc {q : ℚ} (h : |q| < 2 ^ 63) :
    toInt32 (.fin q) = trunc q ↔ -(2 ^ 31) - 1 < q ∧ q < 2 ^ 31 := by
  obtain ⟨hlow, hhigh⟩ := abs_lt.1 h
  have hlow' : -(2 ^ 63) < trunc q := (lt_trunc (by norm_num)).2 (by exact_mod_cast hlow)
  have hhigh' : trunc q < 2 ^ 63 := (trunc_lt (by norm_num)).2 (by exact_mod_cast hhigh)
  have hclamp : max (-(2 ^ 63)) (min (2 ^ 63 - 1) (trunc q)) = trunc q := by omega
  have hleft : -(2 ^ 31) ≤ trunc q ↔ -(2 ^ 31) - 1 < q := by
    have hiff := lt_trunc (q := q) (n := 2 ^ 31 + 1) (by norm_num)
    norm_num at hiff ⊢
    rw [← hiff]
    omega
  have hright : trunc q < 2 ^ 31 ↔ q < 2 ^ 31 := by
    have hiff := trunc_lt (q := q) (n := 2 ^ 31) (by norm_num)
    push_cast at hiff
    exact hiff
  rw [toInt32, hclamp, wrap32_eq_iff, hleft, hright]

def IsFin : Double → Prop
  | .fin _ => True
  | .inf _ => False

instance : (x : Double) → Decidable x.IsFin
  | .fin _ => inferInstanceAs (Decidable True)
  | .inf _ => inferInstanceAs (Decidable False)

/-- The rational a finite double stands for. -/
def toRat : Double → ℚ
  | .fin q => q
  | .inf _ => 0

@[simp] theorem isFin_fin (q : ℚ) : (fin q).IsFin := trivial

@[simp] theorem not_isFin_inf (s : Bool) : ¬(inf s).IsFin := id

@[simp] theorem toRat_fin (q : ℚ) : (fin q).toRat = q := rfl

@[simp] theorem scale_fin (c q : ℚ) : scale c (fin q) = fin (c * q) := rfl

theorem IsFin.eq {x : Double} (h : x.IsFin) : x = fin x.toRat := by
  cases x with
  | fin q => rfl
  | inf s => exact absurd h (not_isFin_inf s)

/-- The sum with a rational, which is never nan. -/
def plus (x : Double) (q : ℚ) : Double :=
  match x with
  | .fin p => .fin (p + q)
  | .inf s => .inf s

@[simp] theorem add_fin (x : Double) (q : ℚ) : x.add (fin q) = some (x.plus q) := by
  cases x <;> rfl

@[simp] theorem plus_zero (x : Double) : x.plus 0 = x := by
  cases x <;> simp [plus]

@[simp] theorem plus_plus (x : Double) (p q : ℚ) : (x.plus p).plus q = x.plus (p + q) := by
  cases x <;> simp [plus, add_assoc]

/-- Rationals act on doubles. -/
instance : AddAction ℚ Double where
  vadd q x := x.plus q
  zero_vadd := plus_zero
  add_vadd p q x := by
    change x.plus (p + q) = (x.plus q).plus p
    rw [plus_plus, add_comm]

theorem vadd_eq (q : ℚ) (x : Double) : q +ᵥ x = x.plus q := rfl

theorem IsFin.toRat_plus {x : Double} (h : x.IsFin) (q : ℚ) : (x.plus q).toRat = x.toRat + q := by
  rw [h.eq]; rfl

theorem IsFin.plus_inj {x : Double} (h : x.IsFin) {p q : ℚ} : x.plus p = x.plus q ↔ p = q := by
  rw [h.eq]; simp [plus]

/-- A sum with a rational on the left is never nan either. -/
theorem IsFin.add {x : Double} (h : x.IsFin) (y : Double) : x.add y = some (y.plus x.toRat) := by
  rw [h.eq]
  cases y with
  | fin q => exact congrArg (fun z => some (fin z)) (add_comm _ _)
  | inf s => rfl

theorem divNat_pos {n : ℕ} (hn : 0 < n) (q : ℚ) : divNat q n = some (fin (q / n)) :=
  if_neg hn.ne'

/-- A quotient is finite for a positive count only. -/
theorem divNat_eq_fin {q r : ℚ} {n : ℕ} : divNat q n = some (fin r) ↔ 0 < n ∧ q / n = r := by
  rcases Nat.eq_zero_or_pos n with rfl | hn
  · simp [divNat]
  · simp [divNat_pos hn, hn]

end Double

/-! ### Ids from a counter of 32 bits -/

/-- A counter that was raised `n` times, and ids that it gave out on the way. -/
def Numbered (series : ℤ) (n : ℕ) (ids : List ℤ) : Prop :=
  series = Double.wrap32 n ∧ ∃ ns : List ℕ, ids = ns.map (fun i : ℕ => Double.wrap32 i) ∧
    ns.Pairwise (· < ·) ∧ ∀ i ∈ ns, i < n

section Numbered
variable {series : ℤ} {n : ℕ} {ids : List ℤ}

theorem Numbered.skip (h : Numbered series n ids) :
    Numbered (Double.wrap32 (series + 1)) (n + 1) ids := by
  obtain ⟨hs, ns, hids, hns, hlt⟩ := h
  refine ⟨?_, ns, hids, hns, ?_⟩
  · rw [hs]
    unfold Double.wrap32
    push_cast
    omega
  · intro i hi
    exact (hlt i hi).trans (Nat.lt_succ_self n)

theorem Numbered.snoc (h : Numbered series n ids) :
    Numbered (Double.wrap32 (series + 1)) (n + 1) (ids ++ [series]) := by
  obtain ⟨hnext, -⟩ := h.skip
  obtain ⟨hs, ns, hids, hns, hlt⟩ := h
  refine ⟨hnext, ns ++ [n], by rw [hids, hs, List.map_append, List.map_singleton], ?_, ?_⟩
  · rw [List.pairwise_append]
    exact ⟨hns, List.pairwise_singleton _ _, by simpa using hlt⟩
  · intro i hi
    rcases List.mem_append.1 hi with hi | hi
    · exact (hlt i hi).trans (Nat.lt_succ_self n)
    · rw [List.mem_singleton.1 hi]
      exact Nat.lt_succ_self n

theorem Numbered.nodup (h : Numbered series n ids) (hn : n ≤ 2 ^ 32) : ids.Nodup := by
  obtain ⟨-, ns, hids, hns, hlt⟩ := h
  rw [hids]
  refine List.Nodup.map_on ?_ (hns.imp Nat.ne_of_lt)
  intro i hi j hj hij
  have hi' := hlt i hi
  have hj' := hlt j hj
  unfold Double.wrap32 at hij
  omega

end Numbered

end AtomComm
