import Mathlib.Data.List.Basic
import Mathlib.Data.List.Pairwise
import Mathlib.Data.List.Nodup
import Mathlib.Algebra.GroupWithZero.Nat
import Mathlib.Algebra.BigOperators.Group.List.Basic
import Mathlib.Algebra.BigOperators.Group.Multiset.Basic
import Mathlib.Algebra.BigOperators.Ring.List
import Mathlib.Algebra.Order.BigOperators.Group.List
import Mathlib.Tactic.Common
import Mathlib.Tactic.SimpRw

/-! Tables with an autoincrement key. A table keeps its rows in rowid order, together
with the largest rowid it ever assigned, so a rowid names one row for good: it is unique
in the table and no later insert uses it again. The statements are insert, update,
delete and the queries that read all matching rows, the first one or their number. -/

namespace AtomComm

universe u

/-- A stored row: its rowid and its columns. -/
structure Row (ρ : Type u) where
  id : ℕ
  val : ρ
  deriving DecidableEq

structure Table (ρ : Type u) where
  rows : List (Row ρ)
  seq : ℕ
  sorted : (rows.map Row.id).Pairwise (· < ·)
  bounded : ∀ r ∈ rows, r.id ≤ seq
  deriving DecidableEq

namespace Table

variable {ρ : Type u}

def empty : Table ρ := ⟨[], 0, List.Pairwise.nil, by simp⟩

def insert (t : Table ρ) (v : ρ) : Table ρ where
  rows := t.rows ++ [⟨t.seq + 1, v⟩]
  seq := t.seq + 1
  sorted := by
    rw [List.map_append, List.pairwise_append]
    refine ⟨t.sorted, by simp, fun a ha b hb => ?_⟩
    obtain ⟨r, hr, rfl⟩ := List.mem_map.1 ha
    obtain rfl : b = t.seq + 1 := by simpa using hb
    exact Nat.lt_succ_of_le (t.bounded r hr)
  bounded := by
    intro r hr
    rcases List.mem_append.1 hr with h | h
    · exact Nat.le_succ_of_le (t.bounded r h)
    · obtain rfl := List.mem_singleton.1 h; exact Nat.le_refl _

/-- Rewrite the columns of every row, in place. -/
def mapRows (t : Table ρ) (f : ρ → ρ) : Table ρ where
  rows := t.rows.map fun r => ⟨r.id, f r.val⟩
  seq := t.seq
  sorted := by simpa [List.map_map, Function.comp_def] using t.sorted
  bounded := by
    intro r hr
    obtain ⟨q, hq, rfl⟩ := List.mem_map.1 hr
    exact t.bounded q hq

/-- `UPDATE … SET f WHERE p`. -/
def update (t : Table ρ) (p : ρ → Bool) (f : ρ → ρ) : Table ρ :=
  t.mapRows fun v => if p v then f v else v

/-- An update whose new value a column constraint may reject, which aborts it whole. -/
def tryUpdate (t : Table ρ) (p : ρ → Bool) (f : ρ → Option ρ) : Option (Table ρ) :=
  if t.rows.all (fun r => !p r.val || (f r.val).isSome) then
    some (t.update p fun v => (f v).getD v)
  else none

/-- `DELETE … WHERE p`. -/
def delete (t : Table ρ) (p : ρ → Bool) : Table ρ where
  rows := t.rows.filter fun r => !p r.val
  seq := t.seq
  sorted := t.sorted.sublist (List.filter_sublist.map _)
  bounded := fun r hr => t.bounded r (List.mem_filter.1 hr).1

def vals (t : Table ρ) : List ρ := t.rows.map Row.val

/-- `SELECT … WHERE p`, in rowid order. -/
def select (t : Table ρ) (p : ρ → Bool) : List ρ := t.vals.filter p

/-- The row that the first `resultSet.next()` stands on. -/
def first (t : Table ρ) (p : ρ → Bool) : Option ρ := t.vals.find? p

def count (t : Table ρ) (p : ρ → Bool) : ℕ := t.vals.countP p

def any (t : Table ρ) (p : ρ → Bool) : Bool := t.vals.any p

/-! ### What a statement does to the rows -/

theorem ext_rows {t t' : Table ρ} (hr : t.rows = t'.rows) (hs : t.seq = t'.seq) : t = t' := by
  cases t; cases t'; cases hr; cases hs; rfl

@[simp] theorem rows_empty : (empty : Table ρ).rows = [] := rfl

@[simp] theorem rows_insert (t : Table ρ) (v : ρ) :
    (t.insert v).rows = t.rows ++ [⟨t.seq + 1, v⟩] := rfl

@[simp] theorem seq_insert (t : Table ρ) (v : ρ) : (t.insert v).seq = t.seq + 1 := rfl

@[simp] theorem rows_update (t : Table ρ) (p : ρ → Bool) (f : ρ → ρ) :
    (t.update p f).rows = t.rows.map fun r => ⟨r.id, if p r.val then f r.val else r.val⟩ := rfl

@[simp] theorem seq_update (t : Table ρ) (p : ρ → Bool) (f : ρ → ρ) :
    (t.update p f).seq = t.seq := rfl

@[simp] theorem rows_mapRows (t : Table ρ) (f : ρ → ρ) :
    (t.mapRows f).rows = t.rows.map fun r => ⟨r.id, f r.val⟩ := rfl

@[simp] theorem rows_delete (t : Table ρ) (p : ρ → Bool) :
    (t.delete p).rows = t.rows.filter fun r => !p r.val := rfl

@[simp] theorem seq_delete (t : Table ρ) (p : ρ → Bool) : (t.delete p).seq = t.seq := rfl

@[simp] theorem vals_empty : (empty : Table ρ).vals = [] := rfl

@[simp] theorem vals_insert (t : Table ρ) (v : ρ) : (t.insert v).vals = t.vals ++ [v] := by
  simp [vals]

@[simp] theorem vals_update (t : Table ρ) (p : ρ → Bool) (f : ρ → ρ) :
    (t.update p f).vals = t.vals.map fun v => if p v then f v else v := by
  simp [vals]

@[simp] theorem vals_mapRows (t : Table ρ) (f : ρ → ρ) : (t.mapRows f).vals = t.vals.map f := by
  simp [vals]

theorem update_eq_mapRows (t : Table ρ) (p : ρ → Bool) (f : ρ → ρ) :
    t.update p f = t.mapRows fun v => if p v then f v else v := rfl

theorem mapRows_mapRows (t : Table ρ) (f g : ρ → ρ) :
    (t.mapRows f).mapRows g = t.mapRows fun v => g (f v) :=
  ext_rows (by simp) rfl

theorem mapRows_congr {t : Table ρ} {f g : ρ → ρ} (h : ∀ v ∈ t.vals, f v = g v) :
    t.mapRows f = t.mapRows g := by
  refine ext_rows (List.map_congr_left fun r hr => ?_) rfl
  rw [h r.val (List.mem_map_of_mem hr)]

theorem mapRows_eq_self {t : Table ρ} {f : ρ → ρ} : t.mapRows f = t ↔ ∀ v ∈ t.vals, f v = v := by
  constructor
  · intro h v hv
    obtain ⟨r, hr, rfl⟩ := List.mem_map.1 hv
    have hrows : (t.mapRows f).rows = t.rows := congrArg rows h
    rw [rows_mapRows] at hrows
    have hself := List.map_inj_left.1 (hrows.trans (List.map_id t.rows).symm) r hr
    exact congrArg Row.val hself
  · intro h
    rw [mapRows_congr (g := id) h]
    exact ext_rows (by simp) rfl

theorem update_congr {t : Table ρ} {p q : ρ → Bool} {f g : ρ → ρ}
    (h : ∀ v ∈ t.vals, (if p v then f v else v) = if q v then g v else v) :
    t.update p f = t.update q g :=
  mapRows_congr h

@[simp] theorem vals_delete (t : Table ρ) (p : ρ → Bool) :
    (t.delete p).vals = t.vals.filter fun v => !p v := by
  simp [vals, List.filter_map, Function.comp_def]

theorem mem_vals {t : Table ρ} {v : ρ} : v ∈ t.vals ↔ ∃ r ∈ t.rows, r.val = v := List.mem_map

theorem val_mem {t : Table ρ} {r : Row ρ} (h : r ∈ t.rows) : r.val ∈ t.vals :=
  List.mem_map_of_mem h

theorem mem_update {t : Table ρ} {p : ρ → Bool} {f : ρ → ρ} {r : Row ρ} :
    r ∈ (t.update p f).rows ↔
      ∃ q ∈ t.rows, q.id = r.id ∧ (if p q.val then f q.val else q.val) = r.val := by
  simp only [rows_update, List.mem_map]
  constructor
  · rintro ⟨q, hq, rfl⟩; exact ⟨q, hq, rfl, rfl⟩
  · rintro ⟨q, hq, h1, h2⟩; exact ⟨q, hq, by cases r; simp_all⟩

/-- A row that an update passes over or leaves as it is. -/
theorem mem_update_self {t : Table ρ} {p : ρ → Bool} {f : ρ → ρ} {r : Row ρ} (h : r ∈ t.rows)
    (hf : p r.val = true → f r.val = r.val) : r ∈ (t.update p f).rows := by
  refine mem_update.2 ⟨r, h, rfl, ?_⟩
  split
  · exact hf ‹_›
  · rfl

theorem mem_delete {t : Table ρ} {p : ρ → Bool} {r : Row ρ} :
    r ∈ (t.delete p).rows ↔ r ∈ t.rows ∧ p r.val = false := by
  simp [List.mem_filter]

theorem delete_delete (t : Table ρ) (p q : ρ → Bool) :
    (t.delete p).delete q = t.delete fun v => p v || q v := by
  refine ext_rows ?_ rfl
  rw [rows_delete, rows_delete, rows_delete, List.filter_filter]
  refine List.filter_congr fun r _ => ?_
  rw [Bool.not_or, Bool.and_comm]

theorem delete_eq_self {t : Table ρ} {p : ρ → Bool} (h : ∀ r ∈ t.rows, p r.val = false) :
    t.delete p = t := by
  refine ext_rows ?_ rfl
  rw [rows_delete, List.filter_eq_self]
  intro r hr
  rw [h r hr, Bool.not_false]

theorem delete_eq_self_iff {t : Table ρ} {p : ρ → Bool} :
    t.delete p = t ↔ ∀ v ∈ t.vals, p v = false := by
  constructor
  · intro h v hv
    rw [← h, vals_delete, List.mem_filter] at hv
    simpa using hv.2
  · exact fun h => delete_eq_self fun r hr => h r.val (val_mem hr)

theorem id_inj {t : Table ρ} {r r' : Row ρ} (h : r ∈ t.rows) (h' : r' ∈ t.rows)
    (hid : r.id = r'.id) : r = r' :=
  List.inj_on_of_nodup_map (t.sorted.imp Nat.ne_of_lt) h h' hid

theorem update_eq_self {t : Table ρ} {p : ρ → Bool} {f : ρ → ρ}
    (h : ∀ v ∈ t.vals, p v = true → f v = v) : t.update p f = t := by
  refine ext_rows ?_ rfl
  rw [rows_update]
  conv_rhs => rw [← List.map_id t.rows]
  refine List.map_congr_left fun r hr => ?_
  cases hp : p r.val
  · simp
  · simp [h r.val (val_mem hr) hp]

theorem tryUpdate_eq_some {t t' : Table ρ} {p : ρ → Bool} {f : ρ → Option ρ}
    (h : t.tryUpdate p f = some t') : t' = t.update p fun v => (f v).getD v := by
  unfold tryUpdate at h
  split at h
  · exact (Option.some.inj h).symm
  · cases h

/-- An update of one column writes the new values where it has them. -/
theorem tryUpdate_column {β : Type*} {t t' : Table ρ} {p : ρ → Bool} {set : ρ → β → ρ}
    {get : ρ → β} (hget : ∀ v, set v (get v) = v) {new : ρ → Option β}
    (h : t.tryUpdate p (fun v => (new v).map (set v)) = some t') :
    t' = t.update p fun v => set v ((new v).getD (get v)) := by
  rw [tryUpdate_eq_some h]
  refine congrArg _ (funext fun v => ?_)
  cases new v with
  | none => exact (hget v).symm
  | some x => rfl

theorem tryUpdate_total {t : Table ρ} {p : ρ → Bool} {f : ρ → Option ρ} {g : ρ → ρ}
    (h : ∀ v, f v = some (g v)) : t.tryUpdate p f = some (t.update p g) := by
  simp [tryUpdate, h]

theorem tryUpdate_some {t : Table ρ} {p : ρ → Bool} {f : ρ → Option ρ}
    (h : ∀ v ∈ t.vals, p v = true → (f v).isSome) :
    t.tryUpdate p f = some (t.update p fun v => (f v).getD v) := by
  refine if_pos (List.all_eq_true.2 fun r hr => ?_)
  cases hp : p r.val
  · rfl
  · simpa using h r.val (val_mem hr) hp

/-! ### Queries -/

theorem first_mem {t : Table ρ} {p : ρ → Bool} {v : ρ} (h : t.first p = some v) :
    v ∈ t.vals ∧ p v = true := ⟨List.mem_of_find?_eq_some h, List.find?_some h⟩

theorem first_none {t : Table ρ} {p : ρ → Bool} :
    t.first p = none ↔ ∀ v ∈ t.vals, p v = false := by
  simp [first, List.find?_eq_none]

theorem first_isSome_of_mem {t : Table ρ} {p : ρ → Bool} {v : ρ} (hv : v ∈ t.vals)
    (hp : p v = true) : ∃ w, t.first p = some w := by
  cases h : t.first p with
  | none => exact absurd (first_none.1 h v hv) (by simp [hp])
  | some w => exact ⟨w, rfl⟩

theorem any_eq_true {t : Table ρ} {p : ρ → Bool} :
    t.any p = true ↔ ∃ v ∈ t.vals, p v = true := List.any_eq_true

theorem any_eq_false {t : Table ρ} {p : ρ → Bool} :
    t.any p = false ↔ ∀ v ∈ t.vals, p v = false := by
  simp [any]

theorem count_pos {t : Table ρ} {p : ρ → Bool} :
    0 < t.count p ↔ ∃ v ∈ t.vals, p v = true := List.countP_pos_iff

/-- A query for columns that an update does not write stands on the same row after it. -/
theorem first_update {t : Table ρ} {p q : ρ → Bool} {f : ρ → ρ}
    (hq : ∀ v, p v = true → q (f v) = q v) :
    (t.update p f).first q = (t.first q).map fun v => if p v then f v else v := by
  rw [first, vals_update, List.find?_map, first]
  refine congrArg (fun q => (t.vals.find? q).map _) (funext fun v => ?_)
  cases hp : p v
  · simp [hp]
  · simp [hp, hq v hp]

theorem any_update {t : Table ρ} {p q : ρ → Bool} {f : ρ → ρ}
    (hq : ∀ v, p v = true → q (f v) = q v) : (t.update p f).any q = t.any q := by
  rw [any, vals_update, List.any_map, any]
  refine congrArg (fun q => t.vals.any q) (funext fun v => ?_)
  cases hp : p v
  · simp [hp]
  · simp [hp, hq v hp]

/-! ### Keys that no two rows share -/

/-- Among the rows that satisfy `p`, no two agree on the key `k`. -/
def UniqueOn {κ : Type*} (t : Table ρ) (p : ρ → Prop) (k : ρ → κ) : Prop :=
  ∀ r ∈ t.rows, ∀ r' ∈ t.rows, p r.val → p r'.val → k r.val = k r'.val → r = r'

section Unique
variable {κ : Type*} {t : Table ρ} {p : ρ → Prop} {k : ρ → κ}

instance [DecidableEq ρ] [DecidablePred p] [DecidableEq κ] : Decidable (t.UniqueOn p k) :=
  inferInstanceAs (Decidable (∀ _ ∈ _, ∀ _ ∈ _, _ → _ → _ → _))

theorem uniqueOn_empty : (empty : Table ρ).UniqueOn p k := by
  intro r hr; cases hr

theorem uniqueOn_insert (h : t.UniqueOn p k) {v : ρ}
    (hv : p v → ∀ w ∈ t.vals, p w → k w ≠ k v) : (t.insert v).UniqueOn p k := by
  intro r hr r' hr' hp hp' hk
  rcases List.mem_append.1 hr with hr | hr <;> rcases List.mem_append.1 hr' with hr' | hr'
  · exact h r hr r' hr' hp hp' hk
  · obtain rfl := List.mem_singleton.1 hr'
    exact absurd hk (hv hp' _ (val_mem hr) hp)
  · obtain rfl := List.mem_singleton.1 hr
    exact absurd hk.symm (hv hp _ (val_mem hr') hp')
  · rw [List.mem_singleton.1 hr, List.mem_singleton.1 hr']

/-- Rewriting rows keeps a key unique if it moves no row into the scope and no key. -/
theorem uniqueOn_mapRows (h : t.UniqueOn p k) {f : ρ → ρ}
    (hf : ∀ v ∈ t.vals, p (f v) → p v ∧ k (f v) = k v) : (t.mapRows f).UniqueOn p k := by
  intro r hr r' hr' hp hp' hk
  obtain ⟨s, hs, rfl⟩ := List.mem_map.1 hr
  obtain ⟨s', hs', rfl⟩ := List.mem_map.1 hr'
  obtain ⟨h1, e1⟩ := hf _ (val_mem hs) hp
  obtain ⟨h2, e2⟩ := hf _ (val_mem hs') hp'
  rw [h s hs s' hs' h1 h2 (by rw [← e1, ← e2]; exact hk)]

theorem uniqueOn_update (h : t.UniqueOn p k) {q : ρ → Bool} {f : ρ → ρ}
    (hf : ∀ v ∈ t.vals, q v = true → p (f v) → p v ∧ k (f v) = k v) :
    (t.update q f).UniqueOn p k := by
  refine uniqueOn_mapRows h fun v hv hp => ?_
  cases hq : q v
  · simpa [hq] using hp
  · simpa [hq] using hf v hv hq (by simpa [hq] using hp)

theorem uniqueOn_delete (h : t.UniqueOn p k) (q : ρ → Bool) : (t.delete q).UniqueOn p k :=
  fun r hr r' hr' => h r (mem_delete.1 hr).1 r' (mem_delete.1 hr').1

end Unique

/-! ### How a table may change over a run -/

/-- The rows of `t'` that `t` already had came from them by `Φ`. Rows may be gone. -/
structure Evolves (Φ : ρ → ρ → Prop) (t t' : Table ρ) : Prop where
  seq : t.seq ≤ t'.seq
  rows : ∀ r' ∈ t'.rows, r'.id ≤ t.seq → ∃ r ∈ t.rows, r.id = r'.id ∧ Φ r.val r'.val

section Evolves
variable {Φ : ρ → ρ → Prop} {t t' t'' : Table ρ}

theorem Evolves.refl (hΦ : ∀ v, Φ v v) (t : Table ρ) : Evolves Φ t t :=
  ⟨Nat.le_refl _, fun r hr _ => ⟨r, hr, rfl, hΦ _⟩⟩

theorem Evolves.trans (hΦ : ∀ a b c, Φ a b → Φ b c → Φ a c) (h : Evolves Φ t t')
    (h' : Evolves Φ t' t'') : Evolves Φ t t'' := by
  refine ⟨Nat.le_trans h.seq h'.seq, fun r hr hid => ?_⟩
  obtain ⟨r', hr', e', hΦ'⟩ := h'.rows r hr (Nat.le_trans hid h.seq)
  obtain ⟨r'', hr'', e'', hΦ''⟩ := h.rows r' hr' (e' ▸ hid)
  exact ⟨r'', hr'', e''.trans e', hΦ _ _ _ hΦ'' hΦ'⟩

theorem evolves_insert (hΦ : ∀ v, Φ v v) (t : Table ρ) (v : ρ) : Evolves Φ t (t.insert v) := by
  refine ⟨Nat.le_succ _, fun r hr hid => ?_⟩
  rcases List.mem_append.1 hr with hr | hr
  · exact ⟨r, hr, rfl, hΦ _⟩
  · obtain rfl := List.mem_singleton.1 hr
    exact absurd hid (Nat.not_succ_le_self _)

theorem evolves_update (hΦ : ∀ v, Φ v v) (t : Table ρ) {p : ρ → Bool} {f : ρ → ρ}
    (hf : ∀ v ∈ t.vals, p v = true → Φ v (f v)) : Evolves Φ t (t.update p f) := by
  refine ⟨Nat.le_refl _, fun r hr _ => ?_⟩
  obtain ⟨q, hq, hid, hv⟩ := mem_update.1 hr
  refine ⟨q, hq, hid, ?_⟩
  rw [← hv]
  cases hp : p q.val
  · simpa using hΦ q.val
  · simpa using hf q.val (val_mem hq) hp

theorem evolves_delete (hΦ : ∀ v, Φ v v) (t : Table ρ) (p : ρ → Bool) :
    Evolves Φ t (t.delete p) :=
  ⟨Nat.le_refl _, fun r hr _ => ⟨r, (mem_delete.1 hr).1, rfl, hΦ _⟩⟩

/-- A row that both tables hold under one rowid went from the first to the second by `Φ`. -/
theorem Evolves.row (h : Evolves Φ t t') {r r' : Row ρ} (hr : r ∈ t.rows) (hr' : r' ∈ t'.rows)
    (hid : r'.id = r.id) : Φ r.val r'.val := by
  obtain ⟨q, hq, e, hΦ⟩ := h.rows r' hr' (hid ▸ t.bounded r hr)
  rwa [id_inj hq hr (e.trans hid)] at hΦ

end Evolves

/-- The row of that rowid is there, and satisfies `P`. -/
def Holds (t : Table ρ) (i : ℕ) (P : ρ → Prop) : Prop := ∃ r ∈ t.rows, r.id = i ∧ P r.val

section Holds
variable {t : Table ρ} {i : ℕ} {P : ρ → Prop}

theorem holds_insert (h : t.Holds i P) (v : ρ) : (t.insert v).Holds i P := by
  obtain ⟨r, hr, hi, hP⟩ := h
  exact ⟨r, List.mem_append_left _ hr, hi, hP⟩

theorem holds_update (h : t.Holds i P) {p : ρ → Bool} {f : ρ → ρ}
    (hf : ∀ v, p v = true → P v → P (f v)) : (t.update p f).Holds i P := by
  obtain ⟨r, hr, hi, hP⟩ := h
  refine ⟨⟨r.id, if p r.val then f r.val else r.val⟩, List.mem_map.2 ⟨r, hr, rfl⟩, hi, ?_⟩
  cases hp : p r.val
  · simpa using hP
  · simpa using hf r.val hp hP

/-- An update reaches the row that it selects. -/
theorem holds_update_of_mem {r : Row ρ} (hr : r ∈ t.rows) {p : ρ → Bool} {f : ρ → ρ}
    (hp : p r.val = true) : (t.update p f).Holds r.id (· = f r.val) :=
  ⟨⟨r.id, f r.val⟩, mem_update.2 ⟨r, hr, rfl, if_pos hp⟩, rfl, rfl⟩

/-- A row that an update changes is one that it selects. -/
theorem selected_of_changed {r : Row ρ} {v : ρ} (hr : r ∈ t.rows) {p : ρ → Bool} {f : ρ → ρ}
    (h : (t.update p f).Holds r.id (· = v)) (hne : r.val ≠ v) : p r.val = true := by
  obtain ⟨q, hq, hid, hval⟩ := h
  obtain ⟨s, hs, hsid, hsval⟩ := mem_update.1 hq
  obtain rfl : s = r := id_inj hs hr (hsid.trans hid)
  by_contra hp
  rw [if_neg hp, hval] at hsval
  exact hne hsval

theorem holds_delete (h : t.Holds i P) {p : ρ → Bool} (hp : ∀ v, P v → p v = false) :
    (t.delete p).Holds i P := by
  obtain ⟨r, hr, hi, hP⟩ := h
  exact ⟨r, mem_delete.2 ⟨hr, hp _ hP⟩, hi, hP⟩

end Holds

/-- `t'` has the rows of `t`, each changed by `Φ`. -/
def Maps (Φ : ρ → ρ → Prop) (t t' : Table ρ) : Prop :=
  ∃ f : ρ → ρ, (∀ v, Φ v (f v)) ∧ t' = t.mapRows f

section Maps
variable {Φ : ρ → ρ → Prop} {t t' t'' : Table ρ}

theorem Maps.refl (hΦ : ∀ v, Φ v v) (t : Table ρ) : Maps Φ t t :=
  ⟨id, hΦ, ext_rows (by simp) rfl⟩

theorem Maps.trans (hΦ : ∀ a b c, Φ a b → Φ b c → Φ a c) (h : Maps Φ t t') (h' : Maps Φ t' t'') :
    Maps Φ t t'' := by
  obtain ⟨f, hf, rfl⟩ := h
  obtain ⟨g, hg, rfl⟩ := h'
  exact ⟨fun v => g (f v), fun v => hΦ _ _ _ (hf v) (hg _), mapRows_mapRows _ _ _⟩

theorem maps_update (hΦ : ∀ v, Φ v v) (t : Table ρ) {p : ρ → Bool} {f : ρ → ρ}
    (hf : ∀ v, Φ v (f v)) : Maps Φ t (t.update p f) := by
  refine ⟨fun v => if p v then f v else v, fun v => ?_, rfl⟩
  show Φ v (if p v then f v else v)
  split
  · exact hf v
  · exact hΦ v

theorem Maps.mem (h : Maps Φ t t') {v : ρ} (hv : v ∈ t.vals) : ∃ w ∈ t'.vals, Φ v w := by
  obtain ⟨f, hf, rfl⟩ := h
  exact ⟨f v, by rw [vals_mapRows]; exact List.mem_map_of_mem hv, hf v⟩

theorem Maps.mem_back (h : Maps Φ t t') {w : ρ} (hw : w ∈ t'.vals) : ∃ v ∈ t.vals, Φ v w := by
  obtain ⟨f, hf, rfl⟩ := h
  rw [vals_mapRows] at hw
  obtain ⟨v, hv, rfl⟩ := List.mem_map.1 hw
  exact ⟨v, hv, hf v⟩

theorem Maps.evolves {Ψ : ρ → ρ → Prop} (h : Maps Φ t t') (hΨ : ∀ v w, Φ v w → Ψ v w) :
    Evolves Ψ t t' := by
  obtain ⟨f, hf, rfl⟩ := h
  refine ⟨Nat.le_refl _, fun r' hr' _ => ?_⟩
  obtain ⟨r, hr, rfl⟩ := List.mem_map.1 hr'
  exact ⟨r, hr, rfl, hΨ _ _ (hf r.val)⟩

theorem Maps.uniqueOn {κ : Type*} {p : ρ → Prop} {k : ρ → κ} (h : Maps Φ t t')
    (hu : t.UniqueOn p k) (hΦ : ∀ v w, Φ v w → p w → p v ∧ k w = k v) : t'.UniqueOn p k := by
  obtain ⟨f, hf, rfl⟩ := h
  exact uniqueOn_mapRows hu fun v _ hp => hΦ v _ (hf v) hp

end Maps

/-! ### What an observer sees of a table -/

/-- What `v` shows of each row, under its rowid. -/
def view {κ : Type*} (t : Table ρ) (v : ρ → Option κ) : List (ℕ × κ) :=
  t.rows.filterMap fun r => (v r.val).map (Prod.mk r.id)

section View
variable {κ : Type*} {t : Table ρ} {v : ρ → Option κ}

theorem view_insert {x : ρ} (hx : v x = none) : (t.insert x).view v = t.view v := by
  simp [view, List.filterMap_append, hx]

theorem view_delete {p : ρ → Bool} (h : ∀ x, p x = true → v x = none) :
    (t.delete p).view v = t.view v := by
  unfold view
  rw [rows_delete, List.filterMap_filter]
  refine List.filterMap_congr fun r _ => ?_
  cases hp : p r.val
  · simp
  · simp [h r.val hp]

theorem view_update_of_mem {p : ρ → Bool} {f : ρ → ρ}
    (h : ∀ x ∈ t.vals, p x = true → v (f x) = v x) : (t.update p f).view v = t.view v := by
  unfold view
  rw [rows_update, List.filterMap_map]
  refine List.filterMap_congr fun r hr => ?_
  cases hp : p r.val
  · simp [hp]
  · simp [hp, h r.val (val_mem hr) hp]

theorem view_update {p : ρ → Bool} {f : ρ → ρ} (h : ∀ x, p x = true → v (f x) = v x) :
    (t.update p f).view v = t.view v :=
  view_update_of_mem fun x _ => h x

/-- The rows that a view shows whole. -/
theorem select_of_view {t' : Table ρ} {s : ρ → Bool} {v : ρ → Option ρ}
    (hv : ∀ x, v x = if s x then some x else none) (h : t'.view v = t.view v) :
    t'.select s = t.select s := by
  have hselect : ∀ u : Table ρ, u.select s = (u.view v).map Prod.snd := by
    intro u
    rw [view, List.map_filterMap, select, vals, List.filter_map, ← List.filterMap_eq_filter,
      List.map_filterMap]
    refine List.filterMap_congr fun r _ => ?_
    cases hs : s r.val <;> simp [Option.guard, hv, hs]
  rw [hselect, hselect, h]

end View

/-! ### Tables that agree on some of their rows

A query that looks at selected rows only is a query of the selection, and a statement makes
of the selection what it makes of the table. -/

section Select
variable {t : Table ρ} {s p : ρ → Bool}

theorem select_select (hp : ∀ v, p v = true → s v = true) :
    t.select p = (t.select s).filter p := by
  rw [select, select, List.filter_filter]
  refine List.filter_congr fun v _ => ?_
  cases h : p v
  · simp
  · simp [hp v h]

theorem first_select (hp : ∀ v, p v = true → s v = true) : t.first p = (t.select s).find? p := by
  rw [first, select, List.find?_filter]
  refine congrArg (fun q => t.vals.find? q) (funext fun v => ?_)
  cases h : p v
  · simp
  · simp [hp v h]

theorem any_select (hp : ∀ v, p v = true → s v = true) : t.any p = (t.select s).any p := by
  rw [any, select, List.any_filter]
  refine congrArg (fun q => t.vals.any q) (funext fun v => ?_)
  cases h : p v
  · simp
  · simp [hp v h]

theorem count_select (hp : ∀ v, p v = true → s v = true) : t.count p = (t.select s).countP p := by
  rw [count, select, List.countP_filter]
  refine congrArg (fun q => t.vals.countP q) (funext fun v => ?_)
  cases h : p v
  · simp
  · simp [hp v h]

theorem select_update {f : ρ → ρ} (hf : ∀ v, p v = true → s (f v) = s v) :
    (t.update p f).select s = (t.select s).map fun v => if p v then f v else v := by
  rw [select, vals_update, List.filter_map, select]
  refine congrArg _ (List.filter_congr fun v _ => ?_)
  cases h : p v
  · simp [h]
  · simp [h, hf v h]

theorem select_delete (h : ∀ v, s v = true → p v = false) : (t.delete p).select s = t.select s := by
  rw [select, vals_delete, List.filter_filter, select]
  refine List.filter_congr fun v _ => ?_
  cases hs : s v
  · simp
  · simp [h v hs]

theorem tryUpdate_select {f : ρ → Option ρ} (hp : ∀ v, p v = true → s v = true) :
    (t.tryUpdate p f).isSome = (t.select s).all fun v => !p v || (f v).isSome := by
  have hall : t.rows.all (fun r => !p r.val || (f r.val).isSome) =
      (t.select s).all fun v => !p v || (f v).isSome := by
    rw [select, List.all_filter, vals, List.all_map]
    refine congrArg (fun q => t.rows.all q) (funext fun r => ?_)
    cases h : p r.val
    · simp [h]
    · simp [h, hp r.val h]
  rw [← hall, tryUpdate]
  split <;> simp_all

end Select

/-- The tables hold the same rows, in the same order, among those that `s` selects. -/
def AgreeOn (s : ρ → Bool) (t t' : Table ρ) : Prop := t.select s = t'.select s

section AgreeOn
variable {t t' : Table ρ} {s p : ρ → Bool}

instance [DecidableEq ρ] : Decidable (AgreeOn s t t') := inferInstanceAs (Decidable (_ = _))

theorem AgreeOn.select (h : AgreeOn s t t') (hp : ∀ v, p v = true → s v = true) :
    t.select p = t'.select p := by
  rw [select_select hp, h, select_select hp]

theorem AgreeOn.first (h : AgreeOn s t t') (hp : ∀ v, p v = true → s v = true) :
    t.first p = t'.first p := by
  rw [first_select hp, h, first_select hp]

theorem AgreeOn.any (h : AgreeOn s t t') (hp : ∀ v, p v = true → s v = true) :
    t.any p = t'.any p := by
  rw [any_select hp, h, any_select hp]

theorem AgreeOn.count (h : AgreeOn s t t') (hp : ∀ v, p v = true → s v = true) :
    t.count p = t'.count p := by
  rw [count_select hp, h, count_select hp]

theorem AgreeOn.insert (h : AgreeOn s t t') (v : ρ) : AgreeOn s (t.insert v) (t'.insert v) := by
  unfold AgreeOn at h ⊢
  rw [Table.select, Table.select, vals_insert, vals_insert, List.filter_append,
    List.filter_append]
  exact congrArg (· ++ [v].filter s) h

theorem AgreeOn.delete (h : AgreeOn s t t') (p : ρ → Bool) :
    AgreeOn s (t.delete p) (t'.delete p) := by
  have hsel : ∀ u : Table ρ, (u.delete p).select s = (u.select s).filter fun v => !p v := by
    intro u
    rw [Table.select, vals_delete, List.filter_filter, Table.select, List.filter_filter]
    exact List.filter_congr fun v _ => Bool.and_comm _ _
  unfold AgreeOn at h ⊢
  rw [hsel, hsel, h]

theorem AgreeOn.update (h : AgreeOn s t t') {f : ρ → ρ} (hf : ∀ v, p v = true → s (f v) = s v) :
    AgreeOn s (t.update p f) (t'.update p f) := by
  unfold AgreeOn at h ⊢
  rw [select_update hf, h, select_update hf]

/-- An update that may throw does so on both tables or on neither. -/
theorem AgreeOn.tryUpdate (h : AgreeOn s t t') {f : ρ → Option ρ}
    (hp : ∀ v, p v = true → s v = true) :
    (t.tryUpdate p f).isSome = (t'.tryUpdate p f).isSome := by
  rw [tryUpdate_select hp, h, tryUpdate_select hp]

theorem AgreeOn.of_tryUpdate (h : AgreeOn s t t') {f : ρ → Option ρ} {u u' : Table ρ}
    (hu : t.tryUpdate p f = some u) (hu' : t'.tryUpdate p f = some u')
    (hf : ∀ v w, f v = some w → s w = s v) : AgreeOn s u u' := by
  rw [tryUpdate_eq_some hu, tryUpdate_eq_some hu']
  refine h.update fun v _ => ?_
  cases hv : f v with
  | none => rfl
  | some w => exact hf v w hv

end AgreeOn

/-! ### Sums over a table, and over the pairs of rows that a condition joins -/

/-- The sum of a column's values over all rows. -/
def total {M : Type*} [AddCommMonoid M] (t : Table ρ) (x : ρ → M) : M := (t.rows.map fun r => x r.val).sum

section Sums
variable {τ : Type u} {M : Type*} [AddCommMonoid M] {t : Table ρ} {t' : Table τ}

theorem rows_nodup (t : Table ρ) : t.rows.Nodup :=
  List.Nodup.of_map Row.id (t.sorted.imp Nat.ne_of_lt)

theorem total_congr {x y : ρ → M} (h : ∀ v ∈ t.vals, x v = y v) : t.total x = t.total y := by
  unfold total
  rw [List.map_congr_left fun r hr => h r.val (val_mem hr)]

theorem total_zero {x : ρ → M} (h : ∀ v ∈ t.vals, x v = 0) : t.total x = 0 := by
  rw [total_congr h]
  simp [total]

theorem total_add (x y : ρ → M) : (t.total fun v => x v + y v) = t.total x + t.total y :=
  List.sum_map_add

theorem total_mapRows (f : ρ → ρ) (x : ρ → M) : (t.mapRows f).total x = t.total fun v => x (f v) := by
  simp [total, Function.comp_def]

theorem total_mul {R : Type*} [NonUnitalNonAssocSemiring R] (t : Table ρ) (c : R) (x : ρ → R) :
    (t.total fun v => c * x v) = c * t.total x :=
  List.sum_map_mul_left _ _ _

/-- A constant for the rows that are counted. -/
theorem total_count (p : ρ → Prop) [DecidablePred p] (c : M) :
    (t.total fun v => if p v then c else 0) = t.count (fun v => p v) • c := by
  have hrows : ∀ rs : List (Row ρ), (rs.map fun r => if p r.val then c else 0).sum =
      (rs.map Row.val).countP (fun v => p v) • c := by
    intro rs
    induction rs with
    | nil => simp
    | cons r rs ih =>
      rw [List.map_cons, List.sum_cons, ih, List.map_cons, List.countP_cons]
      by_cases hp : p r.val
      · simp [hp, succ_nsmul']
      · simp [hp]
  exact hrows t.rows

/-- Rows counted under each of their keys, and all at once. -/
theorem sum_count {κ : Type*} [DecidableEq κ] {p : ρ → Bool} {key : ρ → κ} {ks : List κ}
    (hks : ks.Nodup) (hkey : ∀ v ∈ t.vals, p v = true → key v ∈ ks) :
    (ks.map fun k => t.count fun v => key v = k && p v).sum = t.count p := by
  unfold count
  generalize t.vals = vs at hkey
  induction vs with
  | nil => simp
  | cons v vs ih =>
    have hv : (ks.map fun k => if (key v = k && p v) = true then 1 else 0).sum =
        if p v = true then 1 else 0 := by
      by_cases hp : p v = true
      · rw [List.sum_map_eq_nsmul_single (key v) _ fun k hne _ => by simp [hne.symm],
          List.count_eq_one_of_mem hks (hkey v List.mem_cons_self hp)]
        simp
      · simp [hp]
    simp only [List.countP_cons, List.sum_map_add, hv]
    rw [ih fun w hw => hkey w (List.mem_cons_of_mem _ hw)]

theorem total_mono {N : Type*} [AddCommMonoid N] [PartialOrder N] [IsOrderedAddMonoid N]
    {x y : ρ → N} (h : ∀ v ∈ t.vals, x v ≤ y v) : t.total x ≤ t.total y :=
  List.sum_le_sum fun r hr => h r.val (val_mem hr)

theorem single_le_total {N : Type*} [AddCommMonoid N] [PartialOrder N] [IsOrderedAddMonoid N]
    {x : ρ → N} (h : ∀ v ∈ t.vals, 0 ≤ x v) {v : ρ} (hv : v ∈ t.vals) : x v ≤ t.total x := by
  obtain ⟨r, hr, rfl⟩ := mem_vals.1 hv
  refine List.single_le_sum (fun y hy => ?_) _ (List.mem_map.2 ⟨r, hr, rfl⟩)
  obtain ⟨q, hq, rfl⟩ := List.mem_map.1 hy
  exact h q.val (val_mem hq)

/-- A column that vanishes off one row. -/
theorem total_single {x : ρ → M} {r : Row ρ} (hr : r ∈ t.rows)
    (h : ∀ q ∈ t.rows, q ≠ r → x q.val = 0) : t.total x = x r.val := by
  classical
  unfold total
  rw [List.sum_map_eq_nsmul_single r _ fun q hne hq => h q hq hne,
    List.count_eq_one_of_mem t.rows_nodup hr, one_nsmul]

theorem total_swap (x : ρ → τ → M) :
    (t.total fun v => t'.total fun w => x v w) = t'.total fun w => t.total fun v => x v w := by
  simpa [total] using Multiset.sum_map_sum_map (t.rows : Multiset (Row ρ))
    (t'.rows : Multiset (Row τ)) (f := fun r q => x r.val q.val)

/-- If each row that counts joins exactly one row of the other table, a column summed over
the join is the column summed over the rows that count. -/
theorem total_join {p : ρ → Prop} {j : ρ → τ → Prop} [DecidablePred p]
    [∀ v w, Decidable (j v w)] (x : ρ → M)
    (h : ∀ v ∈ t.vals, p v → ∃ q ∈ t'.rows, j v q.val ∧ ∀ q' ∈ t'.rows, j v q'.val → q' = q) :
    (t'.total fun w => t.total fun v => if p v ∧ j v w then x v else 0) =
      t.total fun v => if p v then x v else 0 := by
  rw [total_swap]
  refine total_congr fun v hv => ?_
  by_cases hp : p v
  · obtain ⟨q, hq, hj, huniq⟩ := h v hv hp
    rw [total_single hq fun q' hq' hne => if_neg fun hc => hne (huniq q' hq' hc.2)]
    simp [hp, hj]
  · exact (total_zero fun w _ => if_neg fun hc => hp hc.1).trans (if_neg hp).symm

end Sums

/-! ### Keys that are inserted once

Rows for a list of keys, inserted one after the other. A key is passed over if a row has it
already or if it is not wanted. -/

section Insert
variable {κ : Type*} {t : Table ρ} {has : κ → ρ → Bool} {wanted : κ → Bool} {mk : κ → ρ}

def insertAll (t : Table ρ) (vs : List ρ) : Table ρ := vs.foldl insert t

def insertNew (has : κ → ρ → Bool) (wanted : κ → Bool) (mk : κ → ρ) (t : Table ρ) (k : κ) :
    Table ρ :=
  if t.any (has k) || !wanted k then t else t.insert (mk k)

@[simp] theorem vals_insertAll (t : Table ρ) (vs : List ρ) :
    (t.insertAll vs).vals = t.vals ++ vs := by
  unfold insertAll
  induction vs generalizing t with
  | nil => simp
  | cons v vs ih => simp [ih]

theorem insertAll_append (t : Table ρ) (vs : List ρ) (v : ρ) :
    t.insertAll (vs ++ [v]) = (t.insertAll vs).insert v := by
  simp [insertAll, List.foldl_append]

variable [DecidableEq κ]

/-- The distinct keys that get a row, in the order of their first occurrence. -/
def newKeys (t : Table ρ) (has : κ → ρ → Bool) (wanted : κ → Bool) (ks : List κ) : List κ :=
  ks.eraseDups.filter fun k => wanted k && !t.any (has k)

theorem mem_newKeys {ks : List κ} {k : κ} :
    k ∈ t.newKeys has wanted ks ↔ k ∈ ks ∧ wanted k = true ∧ t.any (has k) = false := by
  simp [newKeys]

theorem eraseDups_concat (ks : List κ) (k : κ) :
    (ks ++ [k]).eraseDups = if k ∈ ks then ks.eraseDups else ks.eraseDups ++ [k] := by
  rw [List.eraseDups_append]
  split
  · simp [List.removeAll, *]
  · simp [List.removeAll, List.eraseDups_cons, *]

theorem nodup_newKeys (t : Table ρ) (has : κ → ρ → Bool) (wanted : κ → Bool) (ks : List κ) :
    (t.newKeys has wanted ks).Nodup := by
  apply List.Nodup.filter
  induction ks using List.reverseRecOn with
  | nil => simp
  | append_singleton ks k ih =>
    rw [eraseDups_concat]
    split
    · exact ih
    · rename_i hk
      rw [← List.concat_eq_append]
      exact ih.concat (by simpa using hk)

/-- By induction on the list from its end: the table then has the new keys before the last. -/
theorem foldl_insertNew (hmk : ∀ k k', has k (mk k') = decide (k' = k)) (t : Table ρ)
    (ks : List κ) :
    ks.foldl (insertNew has wanted mk) t = t.insertAll ((t.newKeys has wanted ks).map mk) := by
  induction ks using List.reverseRecOn with
  | nil => rfl
  | append_singleton ks k ih =>
    have hany : (t.insertAll ((t.newKeys has wanted ks).map mk)).any (has k) =
        (t.any (has k) || decide (k ∈ t.newKeys has wanted ks)) := by
      rw [any, vals_insertAll, List.any_append, List.any_map, any]
      congr 1
      rw [Bool.eq_iff_iff, List.any_eq_true, decide_eq_true_iff]
      simp [hmk]
    have hnew : t.newKeys has wanted (ks ++ [k]) =
        if k ∈ ks then t.newKeys has wanted ks else
          t.newKeys has wanted ks ++ [k].filter fun k => wanted k && !t.any (has k) := by
      rw [newKeys, eraseDups_concat]
      split
      · rfl
      · rw [List.filter_append]
        rfl
    rw [List.foldl_append, ih, List.foldl_cons, List.foldl_nil, insertNew, hany, hnew]
    by_cases hk : k ∈ ks
    · -- it was there, or has come with its first occurrence
      rw [if_pos hk, if_pos]
      cases hw : wanted k <;> cases ht : t.any (has k) <;> simp [mem_newKeys, hk, hw, ht]
    · have hno : k ∉ t.newKeys has wanted ks := fun h => hk (mem_newKeys.1 h).1
      rw [if_neg hk]
      cases hw : wanted k <;> cases ht : t.any (has k) <;>
        simp [hno, hw, ht, insertAll_append]

end Insert

end Table

end AtomComm
