import Mathlib.Algebra.Order.Field.Rat
import Mathlib.Data.Rat.Floor
import Mathlib.Tactic.Common
import Mathlib.Tactic.Linarith

/-! Lists cut into pages by counting loops. The loop over the pages may advance by the size
of a page in its header, or in its body and its header together, or count the pages up to a
ceiling; the entries of a page are counted off from its first index. All of them cut the
list into the same chunks. -/

namespace AtomComm.Paging

variable {α β γ : Type*}

/-! ### The loops -/

/-- `for (j = i; j < i + m && j < xs.size(); j++)`: the entries, each with its index. -/
def entriesFrom (xs : List α) (i : ℕ) : ℕ → List (α × ℕ)
  | 0 => []
  | m + 1 =>
    match xs[i]? with
    | none => []
    | some x => (x, i) :: entriesFrom xs (i + 1) m

/-- `for (; i < n; i = next i)`, and what each round makes of its number and of `i`. -/
def loop (n : ℕ) (next : ℕ → ℕ) (hnext : ∀ i, i < next i) (body : ℕ → ℕ → β) (round i : ℕ) :
    List β :=
  if i < n then body round i :: loop n next hnext body (round + 1) (next i) else []
termination_by n - i
decreasing_by
  have := hnext i
  omega

/-- `(int) Math.ceil((double) n / k)`, the quotient taken exactly: what its rounding leaves
out is less than the distance to a whole number. -/
def ceilDiv (n k : ℕ) : ℕ := ⌈(n : ℚ) / k⌉.toNat

/-! ### Chunks -/

def chunks (k : ℕ) (xs : List α) : List (List α) :=
  (List.range ((xs.length + (k - 1)) / k)).map fun p => (xs.drop (k * p)).take k

/-- The list in order, in chunks of `k` at most, of which only the last may be shorter. -/
structure Paged (k : ℕ) (xs : List α) (cs : List (List α)) : Prop where
  flatten : cs.flatten = xs
  size : ∀ c ∈ cs, 1 ≤ c.length ∧ c.length ≤ k
  full : ∀ c ∈ cs.dropLast, c.length = k

/-- The contents of the pages are the renderings of such chunks. -/
def Shown (k : ℕ) (xs : List α) (render : List α → γ) (contents : List γ) : Prop :=
  ∃ cs, Paged k xs cs ∧ contents = cs.map render

theorem flatten_windows (xs : List α) (w m : ℕ) :
    ((List.range m).map fun k => (xs.drop (w * k)).take w).flatten = xs.take (w * m) := by
  induction m with
  | zero => simp
  | succ m ih =>
    rw [List.range_succ, List.map_append, List.flatten_append, ih, Nat.mul_succ, List.take_add]
    simp

theorem pages_bounds {k : ℕ} (hk : 0 < k) (n : ℕ) :
    n ≤ k * ((n + (k - 1)) / k) ∧ k * ((n + (k - 1)) / k) < n + k := by
  have hmod := Nat.div_add_mod (n + (k - 1)) k
  have hlt := Nat.mod_lt (n + (k - 1)) hk
  omega

theorem ceilDiv_eq {k : ℕ} (hk : 0 < k) (n : ℕ) : ceilDiv n k = (n + (k - 1)) / k := by
  obtain ⟨hle, hlt⟩ := pages_bounds hk n
  have hpos : (0 : ℚ) < k := by exact_mod_cast hk
  have hceil : ⌈(n : ℚ) / k⌉ = (((n + (k - 1)) / k : ℕ) : ℤ) := by
    generalize (n + (k - 1)) / k = m at hle hlt
    rw [Int.ceil_eq_iff]
    constructor
    · rw [lt_div_iff₀ hpos]
      have hlt' : (k : ℚ) * m < n + k := by exact_mod_cast hlt
      push_cast
      linarith
    · rw [div_le_iff₀ hpos]
      have hle' : (n : ℚ) ≤ k * m := by exact_mod_cast hle
      push_cast
      linarith
  rw [ceilDiv, hceil, Int.toNat_natCast]

section Chunks
variable {k : ℕ} (hk : 0 < k) (xs : List α)
include hk

theorem paged_chunks : Paged k xs (chunks k xs) := by
  obtain ⟨hle, hlt⟩ := pages_bounds hk xs.length
  have hmem : ∀ p < (xs.length + (k - 1)) / k, k * p < xs.length := by
    intro p hp
    have hmul : k * (p + 1) ≤ k * ((xs.length + (k - 1)) / k) := Nat.mul_le_mul_left k hp
    rw [Nat.mul_succ] at hmul
    omega
  refine ⟨?_, fun c hc => ?_, fun c hc => ?_⟩
  · rw [chunks, flatten_windows, List.take_of_length_le hle]
  · obtain ⟨p, hp, rfl⟩ := List.mem_map.1 hc
    have hp := hmem p (List.mem_range.1 hp)
    rw [List.length_take, List.length_drop]
    omega
  · -- a chunk that is not the last has another one after it
    rw [chunks, ← List.map_dropLast, List.dropLast_eq_take, List.length_range, List.take_range] at hc
    obtain ⟨p, hp, rfl⟩ := List.mem_map.1 hc
    have hp := List.mem_range.1 hp
    have hp := hmem (p + 1) (by omega)
    rw [Nat.mul_succ] at hp
    rw [List.length_take, List.length_drop]
    omega

omit hk in
theorem chunks_map (f : α → β) : chunks k (xs.map f) = (chunks k xs).map (List.map f) := by
  rw [chunks, chunks, List.map_map, List.length_map]
  exact List.map_congr_left fun p _ => by simp [List.map_take, List.map_drop]

omit hk in
theorem length_chunks : (chunks k xs).length = (xs.length + (k - 1)) / k := by
  rw [chunks, List.length_map, List.length_range]

theorem chunks_eq_nil : chunks k xs = [] ↔ xs = [] := by
  have hpaged := paged_chunks hk xs
  constructor
  · intro h
    rw [← hpaged.flatten, h]
    rfl
  · rintro rfl
    rw [chunks, List.length_nil, Nat.zero_add, Nat.div_eq_of_lt (by omega)]
    rfl

end Chunks

/-! ### What the loops make -/

theorem entriesFrom_eq (xs : List α) (i m : ℕ) :
    entriesFrom xs i m = (xs.zipIdx.drop i).take m := by
  induction m generalizing i with
  | zero => rfl
  | succ m ih =>
    rw [entriesFrom]
    cases hx : xs[i]? with
    | none =>
      have hlen := List.getElem?_eq_none_iff.1 hx
      rw [List.drop_eq_nil_of_le (by simpa using hlen), List.take_nil]
    | some x =>
      obtain ⟨hlt, rfl⟩ := List.getElem?_eq_some_iff.1 hx
      have hlt' : i < xs.zipIdx.length := by simpa using hlt
      rw [List.drop_eq_getElem_cons hlt', List.take_succ_cons, ← ih]
      simp

theorem loop_of_le {n : ℕ} {next : ℕ → ℕ} {hnext : ∀ i, i < next i} {body : ℕ → ℕ → β}
    {round i : ℕ} (h : n ≤ i) : loop n next hnext body round i = [] := by
  rw [loop, if_neg (by omega)]

theorem loop_eq_nil {n : ℕ} {next : ℕ → ℕ} {hnext : ∀ i, i < next i} {body : ℕ → ℕ → β}
    {round i : ℕ} : loop n next hnext body round i = [] ↔ n ≤ i := by
  rw [loop]
  split
  · exact iff_of_false (List.cons_ne_nil _ _) (by omega)
  · exact iff_of_true rfl (by omega)

theorem loop_eq_range {k : ℕ} (n : ℕ) {next : ℕ → ℕ} (hnext : ∀ i, i < next i)
    (hstep : ∀ i, next i = i + k) (body : ℕ → ℕ → β) (round i : ℕ) :
    loop n next hnext body round i =
      (List.range ((n - i + (k - 1)) / k)).map fun p => body (round + p) (i + k * p) := by
  have hk : 0 < k := by
    have h0 := hnext 0
    rw [hstep] at h0
    omega
  induction hm : n - i using Nat.strong_induction_on generalizing round i with
  | _ m ih =>
    by_cases hi : i < n
    · have hcount : (m + (k - 1)) / k = (n - (i + k) + (k - 1)) / k + 1 := by
        by_cases hlong : k ≤ m
        · rw [show m + (k - 1) = n - (i + k) + (k - 1) + k by omega, Nat.add_div_right _ hk]
        · rw [show n - (i + k) = 0 by omega, Nat.zero_add, Nat.div_eq_of_lt (by omega : k - 1 < k),
            show m + (k - 1) = m - 1 + k by omega, Nat.add_div_right _ hk,
            Nat.div_eq_of_lt (by omega)]
      rw [loop, if_pos hi, ih (n - next i) (by rw [hstep]; omega) (round + 1) (next i) rfl, hstep,
        hcount, List.range_succ_eq_map, List.map_cons, List.map_map, Nat.mul_zero, Nat.add_zero,
        Nat.add_zero]
      congr 1
      refine List.map_congr_left fun p _ => ?_
      simp only [Function.comp_apply, Nat.mul_succ]
      congr 1 <;> omega
    · rw [loop_of_le (by omega), show m = 0 by omega, Nat.zero_add, Nat.div_eq_of_lt (by omega)]
      rfl

/-- A loop that shows `k` entries in each round shows them chunk by chunk. -/
theorem loop_entries {k : ℕ} (xs : List α) {next : ℕ → ℕ} (hnext : ∀ i, i < next i)
    (hstep : ∀ i, next i = i + k) (page : ℕ → List (α × ℕ) → β) (round : ℕ) :
    loop xs.length next hnext (fun r i => page r (entriesFrom xs i k)) round 0 =
      (chunks k xs.zipIdx).mapIdx fun p c => page (round + p) c := by
  rw [loop_eq_range xs.length hnext hstep, chunks, List.length_zipIdx, Nat.sub_zero]
  apply List.ext_getElem
  · simp
  · intro p h h'
    simp [entriesFrom_eq]

/-- So does a loop that counts the pages. -/
theorem range_entries {k : ℕ} (hk : 0 < k) (xs : List α) (page : List (α × ℕ) → β) :
    ((List.range (ceilDiv xs.length k)).map fun i =>
        page (entriesFrom xs (i * k) (min ((i + 1) * k) xs.length - i * k))) =
      (chunks k xs.zipIdx).map page := by
  rw [ceilDiv_eq hk, chunks, List.map_map, List.length_zipIdx]
  refine List.map_congr_left fun i _ => ?_
  have hmin : min ((i + 1) * k) xs.length - i * k = min k (xs.length - i * k) := by
    rw [Nat.succ_mul]
    omega
  rw [Function.comp_apply, entriesFrom_eq, hmin, Nat.mul_comm k i]
  congr 1
  rw [List.take_eq_take_iff, List.length_drop, List.length_zipIdx]
  omega

/-! ### Without the indices -/

theorem chunks_fst (k : ℕ) (xs : List α) :
    (chunks k xs.zipIdx).map (List.map Prod.fst) = chunks k xs := by
  rw [← chunks_map, List.zipIdx_map_fst]

theorem loop_chunks {k : ℕ} (xs : List α) {next : ℕ → ℕ} (hnext : ∀ i, i < next i)
    (hstep : ∀ i, next i = i + k) (page : ℕ → List α → β) (round : ℕ) :
    loop xs.length next hnext (fun r i => page r ((entriesFrom xs i k).map Prod.fst)) round 0 =
      (chunks k xs).mapIdx fun p c => page (round + p) c := by
  rw [loop_entries xs hnext hstep fun r c => page r (c.map Prod.fst), ← chunks_fst k xs]
  apply List.ext_getElem
  · simp
  · intro p hp hp'
    simp

theorem range_chunks {k : ℕ} (hk : 0 < k) (xs : List α) (page : List α → β) :
    ((List.range (ceilDiv xs.length k)).map fun i => page
        ((entriesFrom xs (i * k) (min ((i + 1) * k) xs.length - i * k)).map Prod.fst)) =
      (chunks k xs).map page := by
  rw [range_entries hk xs fun c => page (c.map Prod.fst), ← chunks_fst k xs, List.map_map]
  rfl

theorem length_chunks_eq {k : ℕ} (hk : 0 < k) (xs : List α) :
    (chunks k xs).length = ceilDiv xs.length k := by
  rw [length_chunks, ceilDiv_eq hk]

/-- Pages of which each has the rendering of its chunk as its content. -/
theorem shown_mapIdx {k : ℕ} (hk : 0 < k) (xs : List α) {page : ℕ → List α → β} {content : β → γ}
    {render : List α → γ} (h : ∀ p c, content (page p c) = render c) :
    Shown k xs render (((chunks k xs).mapIdx page).map content) := by
  refine ⟨chunks k xs, paged_chunks hk xs, ?_⟩
  apply List.ext_getElem
  · simp
  · intro p hp hp'
    simp [h]

end AtomComm.Paging
