import AtomComm.Lib.Relax
import AtomComm.Spec.Spellfix
import Mathlib.Data.Prod.Lex

/-! The loops of `editDist3Core` are a relaxation over the cells of the matrix, row by row: they
read and write inside of it whatever the two strings and the costs are, and no sum wraps. -/

namespace AtomComm.Spellfix

open Relax

/-- Row and column: bytes of the TO string and of the FROM string that are dealt with. -/
abbrev Cell := ℕ × ℕ

/-- What the entries start with, and never exceed. -/
def unset : ℕ := 0x01010101

/-! ### The matrix as a function of its cells -/

structure Holds (n1 n2 : ℕ) (m : Array ℕ) (μ : Cell → ℕ) : Prop where
  size : m.size = (n2 + 1) * (n1 + 1)
  entry : ∀ r ≤ n2, ∀ c ≤ n1, m[(n1 + 1) * r + c]? = some (μ (r, c))
  bound : ∀ v, μ v ≤ unset

/-- On a matrix the program does what the edges do. -/
def Runs (n1 n2 : ℕ) (prog : Array ℕ → Except Fault (Array ℕ)) (es : List (Edge Cell)) : Prop :=
  ∀ m μ, Holds n1 n2 m μ → ∃ m', prog m = .ok m' ∧ Holds n1 n2 m' (relaxAll μ es)

/-- A cost from 10000 on is no edge. -/
def edge (s t : Cell) (iCost : ℕ) : List (Edge Cell) :=
  if iCost < 10000 then [⟨s, t, iCost⟩] else []

section
variable {n1 n2 r c r' c' i j iCost : ℕ} {s t : Cell} {m : Array ℕ} {μ : Cell → ℕ}
  {prog prog' : Array ℕ → Except Fault (Array ℕ)} {es es' : List (Edge Cell)}

theorem index_inj (hc : c ≤ n1) (hc' : c' ≤ n1) (h : (n1 + 1) * r + c = (n1 + 1) * r' + c') :
    r = r' ∧ c = c' := by
  have hr : r = r' := by
    have hdiv := congrArg (· / (n1 + 1)) h
    simpa [Nat.mul_add_div, Nat.div_eq_of_lt (Nat.lt_succ_of_le hc),
      Nat.div_eq_of_lt (Nat.lt_succ_of_le hc')] using hdiv
  subst hr
  exact ⟨rfl, by omega⟩

theorem index_lt (hr : r ≤ n2) (hc : c ≤ n1) : (n1 + 1) * r + c < (n2 + 1) * (n1 + 1) := by
  calc (n1 + 1) * r + c < (n1 + 1) * (r + 1) := by rw [Nat.mul_succ]; omega
    _ ≤ (n1 + 1) * (n2 + 1) := Nat.mul_le_mul_left _ (by omega)
    _ = _ := Nat.mul_comm _ _

theorem Holds.set (h : Holds n1 n2 m μ) (hr : t.1 ≤ n2) (hc : t.2 ≤ n1) {v : ℕ} (hv : v ≤ unset) :
    Holds n1 n2 (m.setIfInBounds ((n1 + 1) * t.1 + t.2) v) (Function.update μ t v) := by
  refine ⟨by rw [Array.size_setIfInBounds, h.size], fun r hr' c hc' => ?_, fun w => ?_⟩
  · rw [Array.getElem?_setIfInBounds, h.size]
    by_cases heq : (n1 + 1) * t.1 + t.2 = (n1 + 1) * r + c
    · obtain ⟨rfl, rfl⟩ := index_inj hc hc' heq
      rw [if_pos rfl, if_pos (index_lt hr hc), Function.update_self]
    · rw [if_neg heq, h.entry r hr' c hc', Function.update_of_ne]
      rintro rfl
      exact heq rfl
  · rw [Function.update_apply]
    split
    · exact hv
    · exact h.bound w

/-- No sum of an entry and a cost wraps. -/
theorem Runs.update (hs : s.1 ≤ n2 ∧ s.2 ≤ n1) (ht : t.1 ≤ n2 ∧ t.2 ≤ n1)
    (hi : i = (n1 + 1) * t.1 + t.2) (hj : j = (n1 + 1) * s.1 + s.2) :
    Runs n1 n2 (fun m => updateCost m i j iCost) (edge s t iCost) := by
  subst hi hj
  intro m μ h
  dsimp only [updateCost, edge]
  split
  · rename_i hcost
    rw [h.entry s.1 hs.1 s.2 hs.2, h.entry t.1 ht.1 t.2 ht.2]
    have hbound := h.bound s
    have hwrap : (μ s + iCost) % 2 ^ 32 = μ s + iCost :=
      Nat.mod_eq_of_lt (by unfold unset at hbound; omega)
    dsimp only [relaxAll, List.foldl_cons, List.foldl_nil, relax]
    rw [hwrap]
    split
    · rename_i hlt
      exact ⟨_, rfl, h.set ht.1 ht.2 (hlt.le.trans (h.bound t))⟩
    · exact ⟨m, rfl, h⟩
  · exact ⟨m, rfl, h⟩

theorem Runs.pure : Runs n1 n2 Except.ok [] := fun m _ h => ⟨m, rfl, h⟩

theorem Runs.bind (h : Runs n1 n2 prog es) (h' : Runs n1 n2 prog' es') :
    Runs n1 n2 (fun m => prog m >>= prog') (es ++ es') := by
  intro m μ hm
  obtain ⟨m₁, hm₁, hholds⟩ := h m μ hm
  obtain ⟨m₂, hm₂, hholds'⟩ := h' m₁ _ hholds
  refine ⟨m₂, ?_, ?_⟩
  · show prog m >>= prog' = _
    rw [hm₁]
    exact hm₂
  · rw [relaxAll_append]
    exact hholds'

theorem Runs.foldlM {α : Type} {step : Array ℕ → α → Except Fault (Array ℕ)}
    {block : α → List (Edge Cell)} {xs : List α}
    (h : ∀ x ∈ xs, Runs n1 n2 (fun m => step m x) (block x)) :
    Runs n1 n2 (fun m => xs.foldlM step m) (xs.flatMap block) := by
  induction xs with
  | nil => exact Runs.pure
  | cons x xs ih =>
    have hrest := ih fun y hy => h y (List.mem_cons_of_mem x hy)
    simpa only [List.foldlM_cons, List.flatMap_cons] using (h x List.mem_cons_self).bind hrest

theorem Runs.updateIf {cond : Bool} (h : cond = true →
      Runs n1 n2 (fun m => updateCost m i j iCost) (edge s t iCost)) :
    Runs n1 n2 (fun m => updateCostIf cond m i j iCost) (if cond then edge s t iCost else []) := by
  cases cond with
  | true => exact h rfl
  | false => exact Runs.pure

end

/-! ### What the loops stop at -/

section
variable {α : Type} {nByte : α → ℕ} {a : List α} {fuel i : ℕ}

theorem mem_stops {s : ℕ × α} (h : s ∈ stops nByte a fuel i) : i ≤ s.1 ∧ a[s.1]? = some s.2 := by
  induction fuel generalizing i with
  | zero => simp [stops] at h
  | succ fuel ih =>
    rw [stops] at h
    split at h
    · simp at h
    · rename_i x hx
      rcases List.mem_cons.1 h with rfl | h
      · exact ⟨le_rfl, hx⟩
      · have hrest := ih h
        exact ⟨by omega, hrest.2⟩

/-- Each stop is behind the element before it. -/
theorem stops_pairwise : (stops nByte a fuel i).Pairwise fun s t => s.1 + nByte s.2 ≤ t.1 := by
  induction fuel generalizing i with
  | zero => exact List.Pairwise.nil
  | succ fuel ih =>
    rw [stops]
    split
    · exact List.Pairwise.nil
    · exact List.pairwise_cons.2 ⟨fun t ht => (mem_stops ht).1, ih⟩

end

theorem utf8Len_pos {c : UInt8} {N : ℕ} (hN : 0 < N) : 0 < utf8Len c N := by
  unfold utf8Len
  refine lt_min ?_ hN
  split
  · split
    · decide
    · split <;> decide
  · decide

theorem utf8Len_le (c : UInt8) (N : ℕ) : utf8Len c N ≤ N := min_le_right _ _

/-- What is kept of a FROM string stays within it. -/
def FromOk (f : EditDist3FromString) : Prop :=
  ∀ i x, f.a[i]? = some x → 0 < x.nByte ∧ i + x.nByte ≤ f.n ∧
    (∀ p ∈ x.apDel, i + p.aFrom.length ≤ f.n) ∧ ∀ p ∈ x.apSubst, i + p.aFrom.length ≤ f.n

theorem editDist3From_ok {pLang : EditDist3Lang} {z : List UInt8} {i : ℕ} {x : EditDist3From}
    (h : (z.mapIdx (editDist3From pLang z))[i]? = some x) : 0 < x.nByte ∧ i + x.nByte ≤ z.length ∧
      (∀ p ∈ x.apDel, i + p.aFrom.length ≤ z.length) ∧
      ∀ p ∈ x.apSubst, i + p.aFrom.length ≤ z.length := by
  rw [List.getElem?_mapIdx] at h
  obtain ⟨c, hc, rfl⟩ := Option.map_eq_some_iff.1 h
  have hlt := (List.getElem?_eq_some_iff.1 hc).1
  have hrest := utf8Len_le c (z.length - i)
  refine ⟨utf8Len_pos (Nat.sub_pos_of_lt hlt), by dsimp only [editDist3From]; omega, ?_, ?_⟩
  all_goals
    intro p hp
    have hfits := (List.mem_filter.1 (List.mem_filter.1 hp).1).2
    rw [Bool.and_eq_true, decide_eq_true_eq] at hfits
    exact hfits.1

theorem fromStringNew_ok {pLang : EditDist3Lang} {z : List UInt8} {f : EditDist3FromString}
    (h : editDist3FromStringNew pLang z = .ok f) : FromOk f := by
  unfold editDist3FromStringNew at h
  split at h
  · cases h
  · cases h
    exact fun _ _ => editDist3From_ok

theorem editDist3To_ok {pLang : EditDist3Lang} {z2 : List UInt8} {i : ℕ} {y : EditDist3To}
    (h : (z2.mapIdx (editDist3To pLang z2))[i]? = some y) : 0 < y.nByte ∧
      i + y.nByte ≤ z2.length ∧ ∀ p ∈ y.apIns, i + p.aTo.length ≤ z2.length := by
  rw [List.getElem?_mapIdx] at h
  obtain ⟨c, hc, rfl⟩ := Option.map_eq_some_iff.1 h
  have hlt := (List.getElem?_eq_some_iff.1 hc).1
  have hrest := utf8Len_le c (z2.length - i)
  refine ⟨utf8Len_pos (Nat.sub_pos_of_lt hlt), by dsimp only [editDist3To]; omega, fun p hp => ?_⟩
  have hfits := (List.mem_filter.1 hp).2
  simp only [Bool.and_eq_true, decide_eq_true_eq] at hfits
  exact hfits.1.2

/-! ### The loops as one list of edges -/

/-- Where the body of a loop starts. -/
inductive Stop
  | top (i1 : ℕ) (x : EditDist3From)
  | head (i2 : ℕ) (y : EditDist3To)
  | cell (i2 : ℕ) (y : EditDist3To) (i1 : ℕ) (x : EditDist3From)

section
variable (pLang : EditDist3Lang) (f : EditDist3FromString) (z2 : List UInt8)

def rowStops (y : ℕ × EditDist3To) : List Stop :=
  .head y.1 y.2 :: (fromStops f).map fun x => .cell y.1 y.2 x.1 x.2

def allStops : List Stop :=
  (fromStops f).map (fun x => .top x.1 x.2) ++ (toStops pLang z2).flatMap (rowStops f)

def deletions (r i1 : ℕ) (x : EditDist3From) : List (Edge Cell) :=
  edge (r, i1) (r, i1 + x.nByte) pLang.iDelCost ++
    x.apDel.flatMap fun p => edge (r, i1) (r, i1 + p.aFrom.length) p.iCost

def updates : Stop → List (Edge Cell)
  | .top i1 x => deletions pLang 0 i1 x
  | .head i2 y => edge (i2, 0) (i2 + y.nByte, 0) pLang.iInsCost ++
      y.apIns.flatMap fun p => edge (i2, 0) (i2 + p.aTo.length, 0) p.iCost
  | .cell i2 y i1 x => deletions pLang (i2 + y.nByte) i1 x ++
      (edge (i2, i1 + x.nByte) (i2 + y.nByte, i1 + x.nByte) pLang.iInsCost ++
      ((if matchFromTo f i1 x (z2.drop i2) then
        edge (i2, i1) (i2 + y.nByte, i1 + x.nByte) 0 else []) ++
      (edge (i2, i1) (i2 + y.nByte, i1 + x.nByte) pLang.iSubCost ++
      x.apSubst.flatMap fun p => if matchTo p (z2.drop i2) then
        edge (i2, i1) (i2 + p.aTo.length, i1 + p.aFrom.length) p.iCost else [])))

/-- All updates of the matrix in their order. -/
def wagner : List (Edge Cell) := (allStops pLang f z2).flatMap (updates pLang f z2)

def start (v : Cell) : ℕ := if v = (0, 0) then 0 else unset

/-- The entries of the matrix at the end. -/
def final : Cell → ℕ := relaxAll start (wagner pLang f z2)

end

section
variable {pLang : EditDist3Lang} {f : EditDist3FromString} {z2 : List UInt8} {r i1 i2 b2 : ℕ}
  {x : EditDist3From} {y : EditDist3To}

theorem mem_fromStops {s : ℕ × EditDist3From} (hs : s ∈ fromStops f) : f.a[s.1]? = some s.2 :=
  (mem_stops hs).2

theorem mem_toStops {s : ℕ × EditDist3To} (hs : s ∈ toStops pLang z2) :
    (z2.mapIdx (editDist3To pLang z2))[s.1]? = some s.2 := (mem_stops hs).2

/-- The deletions of a row, from `cxp` on. -/
theorem runs_deletions (hf : FromOk f) (hx : f.a[i1]? = some x) (hr : r ≤ z2.length) {cxp : ℕ}
    (hcxp : cxp = (f.n + 1) * r + i1) :
    Runs f.n z2.length (fun m => do
      let m ← updateCost m (cxp + x.nByte) cxp pLang.iDelCost
      x.apDel.foldlM (fun m p => updateCost m (cxp + p.aFrom.length) cxp p.iCost) m)
      (deletions pLang r i1 x) := by
  subst hcxp
  obtain ⟨-, hnext, hdel, -⟩ := hf i1 x hx
  refine Runs.bind (Runs.update ⟨hr, ?_⟩ ⟨hr, hnext⟩ (Nat.add_assoc _ _ _) rfl)
    (Runs.foldlM fun p hp => Runs.update ⟨hr, ?_⟩ ⟨hr, hdel p hp⟩ (Nat.add_assoc _ _ _) rfl)
  all_goals dsimp only; omega

theorem runs_fillTop (hf : FromOk f) : Runs f.n z2.length (fun m => fillTop pLang f m)
    (((fromStops f).map fun x => Stop.top x.1 x.2).flatMap (updates pLang f z2)) := by
  rw [List.flatMap_map]
  exact Runs.foldlM fun s hs =>
    runs_deletions hf (mem_fromStops hs) (Nat.zero_le _) (by simp)

theorem runs_fillCell (hf : FromOk f) (hx : f.a[i1]? = some x) (hy : i2 + y.nByte ≤ z2.length) :
    Runs f.n z2.length (fun m => fillCell pLang f z2 i2 y.nByte m i1 x)
      (updates pLang f z2 (.cell i2 y i1 x)) := by
  obtain ⟨-, hnext, -, hsubst⟩ := hf i1 x hx
  have hrow : i2 ≤ z2.length := by omega
  have hcol : i1 ≤ f.n := by omega
  have hdel : Runs f.n z2.length _ (deletions pLang (i2 + y.nByte) i1 x) :=
    runs_deletions hf hx hy rfl
  have hins : Runs f.n z2.length (fun m => updateCost m
      ((f.n + 1) * (i2 + y.nByte) + i1 + x.nByte) ((f.n + 1) * i2 + i1 + x.nByte) pLang.iInsCost)
      (edge (i2, i1 + x.nByte) (i2 + y.nByte, i1 + x.nByte) pLang.iInsCost) :=
    Runs.update ⟨hrow, hnext⟩ ⟨hy, hnext⟩ (Nat.add_assoc _ _ _) (Nat.add_assoc _ _ _)
  have hdiag : ∀ cost, Runs f.n z2.length (fun m => updateCost m
      ((f.n + 1) * (i2 + y.nByte) + i1 + x.nByte) ((f.n + 1) * i2 + i1) cost)
      (edge (i2, i1) (i2 + y.nByte, i1 + x.nByte) cost) :=
    fun _ => Runs.update ⟨hrow, hcol⟩ ⟨hy, hnext⟩ (Nat.add_assoc _ _ _) rfl
  have hmatch := Runs.updateIf fun _ : matchFromTo f i1 x (z2.drop i2) = true => hdiag 0
  have htable : Runs f.n z2.length (fun m => x.apSubst.foldlM (fun m p =>
      updateCostIf (matchTo p (z2.drop i2)) m
        ((f.n + 1) * i2 + i1 + p.aFrom.length + (f.n + 1) * p.aTo.length) ((f.n + 1) * i2 + i1)
        p.iCost) m)
      (x.apSubst.flatMap fun p => if matchTo p (z2.drop i2) then
        edge (i2, i1) (i2 + p.aTo.length, i1 + p.aFrom.length) p.iCost else []) := by
    refine Runs.foldlM fun p hp => Runs.updateIf fun hto =>
      Runs.update ⟨hrow, hcol⟩ ⟨?_, ?_⟩ ?_ rfl
    · rw [matchTo, Bool.and_eq_true, decide_eq_true_eq, List.length_drop] at hto
      dsimp only
      omega
    · exact hsubst p hp
    · dsimp only
      rw [Nat.mul_add]
      omega
  have hcell := hdel.bind (hins.bind (hmatch.bind ((hdiag pLang.iSubCost).bind htable)))
  simpa only [fillCell, bind_assoc, updates] using hcell

theorem runs_fillRow (hf : FromOk f) {y : ℕ × EditDist3To} (hy : y ∈ toStops pLang z2) :
    Runs f.n z2.length (fun m => fillRow pLang f z2 m y.1 y.2)
      ((rowStops f y).flatMap (updates pLang f z2)) := by
  obtain ⟨-, hnext, hins⟩ := editDist3To_ok (mem_toStops hy)
  have hrow : y.1 ≤ z2.length := by omega
  have hhead : Runs f.n z2.length (fun m => do
      let m ← updateCost m ((f.n + 1) * (y.1 + y.2.nByte)) ((f.n + 1) * y.1) pLang.iInsCost
      y.2.apIns.foldlM (fun m p =>
        updateCost m ((f.n + 1) * (y.1 + p.aTo.length)) ((f.n + 1) * y.1) p.iCost) m)
      (updates pLang f z2 (.head y.1 y.2)) := by
    refine Runs.bind (Runs.update ⟨hrow, ?_⟩ ⟨hnext, ?_⟩ rfl rfl)
      (Runs.foldlM fun p hp => Runs.update ⟨hrow, ?_⟩ ⟨hins p hp, ?_⟩ rfl rfl)
    all_goals exact Nat.zero_le _
  have hcell : ∀ s ∈ fromStops f, Runs f.n z2.length
      (fun m => fillCell pLang f z2 y.1 y.2.nByte m s.1 s.2)
      (updates pLang f z2 (.cell y.1 y.2 s.1 s.2)) :=
    fun s hs => runs_fillCell hf (mem_fromStops hs) hnext
  have hcells := Runs.foldlM hcell
  have hrun := hhead.bind hcells
  simpa only [fillRow, bind_assoc, rowStops, List.flatMap_cons, List.flatMap_map] using hrun

/-- The loops, one after the other. -/
theorem runs_loops (pLang : EditDist3Lang) (hf : FromOk f) : Runs f.n z2.length (fun m => do
    let m ← fillTop pLang f m
    (toStops pLang z2).foldlM (fun m y => fillRow pLang f z2 m y.1 y.2) m) (wagner pLang f z2) := by
  rw [wagner, allStops, List.flatMap_append, List.flatMap_assoc]
  exact (runs_fillTop hf).bind (Runs.foldlM fun y hy => runs_fillRow hf hy)

theorem holds_start (n1 n2 : ℕ) : Holds n1 n2
    ((Array.replicate ((n2 + 1) * (n1 + 1)) 0x01010101).setIfInBounds 0 0) start := by
  have hunset : Holds n1 n2 (Array.replicate ((n2 + 1) * (n1 + 1)) 0x01010101) fun _ => unset := by
    refine ⟨Array.size_replicate, fun r hr c hc => ?_, fun _ => le_rfl⟩
    rw [Array.getElem?_replicate, if_pos (index_lt hr hc)]
    rfl
  have hset := hunset.set (t := (0, 0)) (Nat.zero_le _) (Nat.zero_le _) (Nat.zero_le _)
  have hstart : Function.update (fun _ => unset) (0, 0) 0 = start := by
    funext v
    rw [Function.update_apply, start]
  rwa [hstart] at hset

/-! ### The result -/

/-- The least value of a row and the last such row, where the row `n` comes first. -/
def lastLeast (μ : ℕ → ℕ) (n : ℕ) : ℕ → ℕ × ℕ
  | 0 => (μ n, n)
  | r + 1 => if μ r ≤ (lastLeast μ n r).1 then (μ r, r) else lastLeast μ n r

theorem lastLeast_le (μ : ℕ → ℕ) (n k : ℕ) : (lastLeast μ n k).1 ≤ μ n ∧
    ∀ r < k, (lastLeast μ n k).1 ≤ μ r := by
  induction k with
  | zero => exact ⟨le_rfl, fun r hr => absurd hr (Nat.not_lt_zero r)⟩
  | succ k ih =>
    rw [lastLeast]
    split
    · rename_i hle
      refine ⟨hle.trans ih.1, fun r hr => ?_⟩
      rcases Nat.lt_succ_iff_lt_or_eq.1 hr with hr | rfl
      · exact hle.trans (ih.2 r hr)
      · exact le_rfl
    · refine ⟨ih.1, fun r hr => ?_⟩
      rcases Nat.lt_succ_iff_lt_or_eq.1 hr with hr | rfl
      · exact ih.2 r hr
      · omega

theorem lastLeast_row (μ : ℕ → ℕ) (n k : ℕ) : (lastLeast μ n k).1 = μ (lastLeast μ n k).2 ∧
    ((lastLeast μ n k).2 < k ∨ (lastLeast μ n k).2 = n) := by
  induction k with
  | zero => exact ⟨rfl, .inr rfl⟩
  | succ k ih =>
    rw [lastLeast]
    split
    · exact ⟨rfl, .inl (Nat.lt_succ_self k)⟩
    · exact ⟨ih.1, ih.2.imp_left Nat.lt_succ_of_lt⟩

/-- Which row of the last column is the result, and its entry. -/
def resultRow (f : EditDist3FromString) (n2 : ℕ) (μ : Cell → ℕ) : ℕ × ℕ :=
  if f.isPrefix then lastLeast (fun r => μ (r, f.n)) n2 n2 else (μ (n2, f.n), n2)

theorem readCost_last {n1 n2 r : ℕ} {m : Array ℕ} {μ : Cell → ℕ} (h : Holds n1 n2 m μ)
    (hr : r ≤ n2) : readCost m ((n1 + 1) * (r + 1) - 1) = .ok (μ (r, n1)) := by
  have hindex : (n1 + 1) * (r + 1) - 1 = (n1 + 1) * r + n1 := by
    rw [Nat.mul_succ]
    omega
  rw [hindex, readCost, h.entry r hr n1 le_rfl]

theorem readResult_eq {m : Array ℕ} {μ : Cell → ℕ} (h : Holds f.n z2.length m μ) :
    readResult f z2 m = .ok (resultRow f z2.length μ) := by
  have hloop : ∀ k ≤ z2.length, (List.range' 1 k).foldlM (fun best i2 => do
      let b ← readCost m ((f.n + 1) * i2 - 1)
      return if b ≤ best.1 then (b, i2 - 1) else best) (μ (z2.length, f.n), z2.length) =
      (.ok (lastLeast (fun r => μ (r, f.n)) z2.length k) : Except Fault (ℕ × ℕ)) := by
    intro k hk
    induction k with
    | zero => rfl
    | succ k ih =>
      have hread := readCost_last h (r := k) (by omega)
      rw [List.range'_concat, List.foldlM_append, ih (by omega), Nat.one_mul, Nat.add_comm 1 k]
      simp only [List.foldlM_cons, List.foldlM_nil, hread]
      rfl
  rw [readResult, readCost_last h le_rfl, resultRow]
  dsimp only [bind, Except.bind]
  split
  · exact hloop _ le_rfl
  · rfl

/-- The sizes for which the matrix is allocated. -/
def Fits (n1 n2 : ℕ) : Prop :=
  (n1 + 1) * (n2 + 1) + 1 < 2 ^ 31 ∧
    let nByte := ((n1 + 1) * (n2 + 1) + 1) / 2 * 2 * 4 + 16 * n2
    nByte ≤ 1024 ∨ nByte < mallocLimit

instance (n1 n2 : ℕ) : Decidable (Fits n1 n2) := inferInstanceAs (Decidable (_ ∧ _))

theorem editDist3Core_eq (hf : FromOk f) (hfits : Fits f.n z2.length) :
    editDist3Core pLang f z2 = .ok (
      let res := resultRow f z2.length (final pLang f z2)
      (res.1, res.2 - (z2.take res.2).countP Utf8.isTail)) := by
  obtain ⟨m, hrun, hholds⟩ := runs_loops pLang hf _ _ (holds_start f.n z2.length)
  have hresult := readResult_eq hholds
  have hsize : ¬ (f.n + 1) * (z2.length + 1) + 1 ≥ 2 ^ 31 := not_le.2 hfits.1
  have hmalloc : ¬ (((f.n + 1) * (z2.length + 1) + 1) / 2 * 2 * 4 + 16 * z2.length > 1024 ∧
      ((f.n + 1) * (z2.length + 1) + 1) / 2 * 2 * 4 + 16 * z2.length ≥ mallocLimit) := by
    rintro ⟨hstack, hheap⟩
    rcases hfits.2 with h | h <;> omega
  unfold editDist3Core
  dsimp only at hrun
  simp only [if_neg hsize, if_neg hmalloc]
  rw [← bind_assoc, hrun]
  dsimp only [bind, Except.bind]
  rw [hresult]
  rfl

/-- Too large strings are all that goes wrong. -/
theorem editDist3Core_fault (pLang : EditDist3Lang) (h : ¬ Fits f.n z2.length) :
    editDist3Core pLang f z2 = .error .overflow ∨
      editDist3Core pLang f z2 = .error .noMemory := by
  unfold editDist3Core
  dsimp only
  split
  · exact .inl rfl
  split
  · exact .inr rfl
  · rename_i hsize hmalloc
    refine absurd ⟨not_le.1 hsize, ?_⟩ h
    dsimp only
    omega

/-! ### The order of the updates -/

/-- Row by row, and in a row from the left. -/
def Stop.key : Stop → ℕ ×ₗ ℕ
  | .top i1 _ => toLex (0, i1 + 1)
  | .head i2 y => toLex (i2 + y.nByte, 0)
  | .cell i2 y i1 _ => toLex (i2 + y.nByte, i1 + 1)

theorem key_lt_of_row {r r' c c' : ℕ} (h : r < r') : toLex (r, c) < toLex (r', c') :=
  Prod.Lex.toLex_lt_toLex.2 (.inl h)

theorem key_lt_of_col {r c c' : ℕ} (h : c < c') : toLex (r, c) < toLex (r, c') :=
  Prod.Lex.toLex_lt_toLex.2 (.inr ⟨rfl, h⟩)

theorem key_le {r r' c c' : ℕ} (hr : r ≤ r') (hc : c ≤ c') : toLex (r, c) ≤ toLex (r', c') :=
  Prod.Lex.toLex_mono ⟨hr, hc⟩

theorem fromStops_increase (hf : FromOk f) :
    (fromStops f).Pairwise fun s t => s.1 < t.1 := by
  refine stops_pairwise.imp_of_mem fun {s t} hs _ hlt => ?_
  have hpos := (hf s.1 s.2 (mem_fromStops hs)).1
  omega

theorem toStops_increase (pLang : EditDist3Lang) (z2 : List UInt8) :
    (toStops pLang z2).Pairwise fun s t => s.1 + s.2.nByte < t.1 + t.2.nByte := by
  refine stops_pairwise.imp_of_mem fun {s t} _ ht hle => ?_
  have hpos := (editDist3To_ok (mem_toStops ht)).1
  omega

theorem rowStops_key {y : ℕ × EditDist3To} {s : Stop} (hs : s ∈ rowStops f y) :
    ∃ c, s.key = toLex (y.1 + y.2.nByte, c) := by
  rcases List.mem_cons.1 hs with rfl | hs
  · exact ⟨0, rfl⟩
  · obtain ⟨x, -, rfl⟩ := List.mem_map.1 hs
    exact ⟨x.1 + 1, rfl⟩

theorem allStops_increase (hf : FromOk f) :
    (allStops pLang f z2).Pairwise fun a b => a.key < b.key := by
  have hcols : (fromStops f).Pairwise fun s t => s.1 + 1 < t.1 + 1 :=
    (fromStops_increase hf).imp fun h => Nat.succ_lt_succ h
  refine List.pairwise_append.2 ⟨?_, List.pairwise_flatMap.2 ⟨fun y _ => ?_, ?_⟩, ?_⟩
  · exact List.pairwise_map.2 (hcols.imp key_lt_of_col)
  · refine List.pairwise_cons.2 ⟨fun s hs => ?_, List.pairwise_map.2 (hcols.imp key_lt_of_col)⟩
    obtain ⟨x, -, rfl⟩ := List.mem_map.1 hs
    exact key_lt_of_col (Nat.succ_pos _)
  · refine (toStops_increase pLang z2).imp fun {y y'} hlt s hs t ht => ?_
    obtain ⟨c, hc⟩ := rowStops_key hs
    obtain ⟨c', hc'⟩ := rowStops_key ht
    rw [hc, hc']
    exact key_lt_of_row hlt
  · intro s hs t ht
    obtain ⟨x, -, rfl⟩ := List.mem_map.1 hs
    obtain ⟨y, hy, ht⟩ := List.mem_flatMap.1 ht
    obtain ⟨c, hc⟩ := rowStops_key ht
    have hpos := (editDist3To_ok (mem_toStops hy)).1
    rw [hc]
    exact key_lt_of_row (by omega)

theorem mem_edge {s t : Cell} {iCost : ℕ} {e : Edge Cell} :
    e ∈ edge s t iCost ↔ iCost < 10000 ∧ e = ⟨s, t, iCost⟩ := by
  unfold edge
  split <;> simp_all

/-- The deletions of a cell lead on in its row, or are loops. -/
theorem deletions_due {e : Edge Cell} (hx : 0 < x.nByte) (he : e ∈ deletions pLang r i1 x) :
    toLex e.source < toLex (r, i1 + 1) ∧
      (e.source = e.target ∨ toLex (r, i1 + 1) ≤ toLex e.target) := by
  rcases List.mem_append.1 he with he | he
  · obtain ⟨-, rfl⟩ := mem_edge.1 he
    exact ⟨key_lt_of_col (Nat.lt_succ_self i1), .inr (key_le le_rfl (by omega))⟩
  · obtain ⟨p, -, he⟩ := List.mem_flatMap.1 he
    obtain ⟨-, rfl⟩ := mem_edge.1 he
    refine ⟨key_lt_of_col (Nat.lt_succ_self i1), ?_⟩
    rcases Nat.eq_zero_or_pos p.aFrom.length with hp | hp
    · exact .inl (by rw [hp]; rfl)
    · exact .inr (key_le le_rfl (by omega))

/-- If the table has no insertions, and puts a whole character at least in place of a text, then no
entry of the matrix is read before it has its final value. -/
theorem wagner_ordered (hf : FromOk f) (hins : ∀ y ∈ toStops pLang z2, y.2.apIns = [])
    (hsubst : ∀ y ∈ toStops pLang z2, ∀ x ∈ fromStops f, ∀ p ∈ x.2.apSubst,
      matchTo p (z2.drop y.1) = true → 0 < p.aFrom.length ∧ y.2.nByte ≤ p.aTo.length) :
    Ordered (wagner pLang f z2) := by
  refine ordered_flatMap Stop.key toLex (allStops_increase hf) ?_
  intro s hs e he
  rcases List.mem_append.1 hs with hs | hs
  · obtain ⟨x, hx, rfl⟩ := List.mem_map.1 hs
    exact deletions_due (hf _ _ (mem_fromStops hx)).1 he
  obtain ⟨y, hy, hs⟩ := List.mem_flatMap.1 hs
  have hpos := (editDist3To_ok (mem_toStops hy)).1
  have hrow : ∀ c c', toLex (y.1, c) < toLex (y.1 + y.2.nByte, c') :=
    fun _ _ => key_lt_of_row (by omega)
  rcases List.mem_cons.1 hs with rfl | hs
  · rcases List.mem_append.1 he with he | he
    · obtain ⟨-, rfl⟩ := mem_edge.1 he
      exact ⟨hrow _ _, .inr le_rfl⟩
    · simp [hins y hy] at he
  · obtain ⟨x, hx, rfl⟩ := List.mem_map.1 hs
    have hxpos := (hf _ _ (mem_fromStops hx)).1
    have hnext : toLex (y.1 + y.2.nByte, x.1 + 1) ≤ toLex (y.1 + y.2.nByte, x.1 + x.2.nByte) :=
      key_le le_rfl (by omega)
    rcases List.mem_append.1 he with he | he
    · exact deletions_due hxpos he
    rcases List.mem_append.1 he with he | he
    · obtain ⟨-, rfl⟩ := mem_edge.1 he
      exact ⟨hrow _ _, .inr hnext⟩
    rcases List.mem_append.1 he with he | he
    · obtain ⟨-, he⟩ := List.mem_ite_nil_right.1 he
      obtain ⟨-, rfl⟩ := mem_edge.1 he
      exact ⟨hrow _ _, .inr hnext⟩
    rcases List.mem_append.1 he with he | he
    · obtain ⟨-, rfl⟩ := mem_edge.1 he
      exact ⟨hrow _ _, .inr hnext⟩
    · obtain ⟨p, hp, he⟩ := List.mem_flatMap.1 he
      obtain ⟨hto, he⟩ := List.mem_ite_nil_right.1 he
      obtain ⟨-, rfl⟩ := mem_edge.1 he
      obtain ⟨hfrom, hlen⟩ := hsubst y hy x hx p hp hto
      exact ⟨hrow _ _, .inr (key_le (by omega) (by omega))⟩

end

end AtomComm.Spellfix
