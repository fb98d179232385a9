import Mathlib.Algebra.Order.Ring.Nat
import Mathlib.Tactic.Linarith

/-! Products of a decimal literal and an integer in binary floating point with 53 places, to
the nearest and the even one of two, cut off to an integer. For literals and integers of a
moderate size the two roundings never carry the product over an integer from below, and lose
one at most. -/

namespace AtomComm

namespace Rounding

/-- The integer nearest to `a / b`. -/
def nearestInt (a b : ℕ) : ℕ :=
  let d := a / b
  if 2 * (a % b) < b then d else if b < 2 * (a % b) then d + 1 else d + d % 2

/-- The unit of the last place of a number with the integer part `v`. -/
def unit (v : ℕ) : ℕ := 2 ^ (v.log2 - 52)

def nearest (a b : ℕ) : ℕ := nearestInt a (b * unit (a / b)) * unit (a / b)

/-- Numbers are scaled by `2 ^ 60`, which makes all their places integral. -/
def scale : ℕ := 2 ^ 60

/-- `(int) (c * n)` for the literal `c` that is written `p / q`. -/
def truncTimes (p q n : ℕ) : ℕ := nearest (nearest (p * scale) q * n) 1 / scale

example : truncTimes 29 100 100 = 28 ∧ truncTimes 205 100 20 = 41 := by decide +kernel

theorem nearestInt_bounds {b : ℕ} (hb : 0 < b) (a : ℕ) :
    2 * (b * nearestInt a b) ≤ 2 * a + b ∧ 2 * a ≤ 2 * (b * nearestInt a b) + b := by
  have hdiv := Nat.div_add_mod a b
  have hmod := Nat.mod_lt a hb
  unfold nearestInt
  simp only
  split
  · omega
  split
  · rw [Nat.mul_add, Nat.mul_one]
    omega
  · rcases Nat.mod_two_eq_zero_or_one (a / b) with h | h <;> rw [h]
    · rw [Nat.add_zero]
      omega
    · rw [Nat.mul_add, Nat.mul_one]
      omega

theorem unit_pos (v : ℕ) : 0 < unit v := Nat.two_pow_pos _

/-- Of a number with more than 52 places the unit is the last one that is kept. -/
theorem unit_le (v : ℕ) : unit v = 1 ∨ unit v * 2 ^ 52 ≤ v := by
  unfold unit
  rcases Nat.le_total v.log2 52 with h | h
  · exact .inl (by rw [Nat.sub_eq_zero_of_le h, Nat.pow_zero])
  · right
    rw [← Nat.pow_add, Nat.sub_add_cancel h]
    rcases Nat.eq_zero_or_pos v with rfl | hv
    · simp at h
    · exact Nat.log2_self_le hv.ne'

/-- The error is half a unit at most, and a unit the last place of the number or an integer. -/
theorem nearest_bounds {b : ℕ} (hb : 0 < b) (a : ℕ) : ∃ e, (e = b ∨ e * 2 ^ 52 ≤ a) ∧
    2 * (b * nearest a b) ≤ 2 * a + e ∧ 2 * a ≤ 2 * (b * nearest a b) + e := by
  refine ⟨b * unit (a / b), ?_, ?_⟩
  · rcases unit_le (a / b) with h | h
    · exact .inl (by rw [h, Nat.mul_one])
    · right
      calc b * unit (a / b) * 2 ^ 52 = b * (unit (a / b) * 2 ^ 52) := Nat.mul_assoc ..
        _ ≤ b * (a / b) := Nat.mul_le_mul_left b h
        _ ≤ a := Nat.mul_div_le a b
  · have h := nearestInt_bounds (Nat.mul_pos hb (unit_pos (a / b))) a
    have hassoc : b * nearest a b = b * unit (a / b) * nearestInt a (b * unit (a / b)) := by
      rw [nearest, Nat.mul_comm (nearestInt _ _), Nat.mul_assoc]
    rwa [hassoc]

/-- The product that is cut off is the exact one, or less than one below it. -/
theorem truncTimes_bounds {p q n : ℕ} (hq : 0 < q) (hq' : q ≤ 2 ^ 12) (hp : p ≤ 2 ^ 12)
    (hn : n ≤ 2 ^ 20) :
    q * truncTimes p q n ≤ p * n ∧ p * n ≤ q * truncTimes p q n + q := by
  obtain ⟨e, he, hlow, hhigh⟩ := nearest_bounds hq (p * scale)
  obtain ⟨e', he', hlow', hhigh'⟩ := nearest_bounds Nat.one_pos (nearest (p * scale) q * n)
  rw [truncTimes]
  generalize nearest (p * scale) q = c at *
  generalize nearest (c * n) 1 = P at *
  simp only [scale] at *
  have hc : c ≤ q * c := Nat.le_mul_of_pos_left c hq
  have hcn : c * n ≤ 2 ^ 73 * 2 ^ 20 := Nat.mul_le_mul (by omega) hn
  have hen : e * n ≤ 2 ^ 20 * 2 ^ 20 := Nat.mul_le_mul (by omega) hn
  have hqe : q * e' ≤ 2 ^ 12 * 2 ^ 41 := Nat.mul_le_mul hq' (by omega)
  -- the first rounding times the integer, and the second times the denominator
  have hfirst : 2 * (q * (c * n)) ≤ 2 * (2 ^ 60 * (p * n)) + e * n ∧
      2 * (2 ^ 60 * (p * n)) ≤ 2 * (q * (c * n)) + e * n := by
    have h := Nat.mul_le_mul_right n hlow
    have h' := Nat.mul_le_mul_right n hhigh
    constructor <;> linarith
  have hsecond : 2 * (q * P) ≤ 2 * (q * (c * n)) + q * e' ∧
      2 * (q * (c * n)) ≤ 2 * (q * P) + q * e' := by
    have h := Nat.mul_le_mul_left q hlow'
    have h' := Nat.mul_le_mul_left q hhigh'
    constructor <;> linarith
  have hcut : 2 ^ 60 * (q * (P / 2 ^ 60)) ≤ q * P ∧
      q * P < 2 ^ 60 * (q * (P / 2 ^ 60)) + 2 ^ 60 * q := by
    have h := Nat.mul_le_mul_left q (Nat.mul_div_le P (2 ^ 60))
    have h' := Nat.mul_lt_mul_of_pos_left (Nat.lt_mul_div_succ P (show 0 < 2 ^ 60 by decide)) hq
    constructor <;> linarith
  omega

end Rounding

end AtomComm
