import Mathlib.Algebra.Group.Action.Defs
import Mathlib.Algebra.BigOperators.Group.List.Basic
import AtomComm.Lib.Table
import AtomComm.Lib.Trace

/-! Accounts that are rows of a table. A row has a holder, which nothing rewrites, and a balance
on which amounts act. If every step of a run books an amount to each holder, then a balance is
what the row was opened with and all that was booked to its holder since. -/

namespace AtomComm

variable {ρ κ A M σ α : Type} [AddCommMonoid A] [AddAction A M]

/-- Which column is whose account, and what a new one holds. -/
structure Accounts (ρ κ M : Type) where
  holder : ρ → κ
  balance : ρ → M
  opening : M

/-- From `t` to `t'` the rows that stay are booked `x`, and those that come are opened. -/
structure Books (acc : Accounts ρ κ M) (x : κ → A) (t t' : Table ρ) : Prop where
  seq : t.seq ≤ t'.seq
  row : ∀ q ∈ t'.rows,
    (∃ r ∈ t.rows, r.id = q.id ∧ acc.holder r.val = acc.holder q.val ∧
      acc.balance q.val = x (acc.holder q.val) +ᵥ acc.balance r.val) ∨
    t.seq < q.id ∧ acc.balance q.val = acc.opening

/-- From `t` to `t'` nothing is booked. -/
abbrev BooksNothing (A : Type) [AddCommMonoid A] [AddAction A M] (acc : Accounts ρ κ M)
    (t t' : Table ρ) : Prop :=
  Books (A := A) acc (fun _ => 0) t t'

section Statements
variable {acc : Accounts ρ κ M} {x y : κ → A} {t t' t'' : Table ρ}

theorem booksNothing_refl (t : Table ρ) : BooksNothing A acc t t :=
  ⟨le_rfl, fun q hq => .inl ⟨q, hq, rfl, rfl, (zero_vadd A _).symm⟩⟩

theorem BooksNothing.trans (h : BooksNothing A acc t t') (h' : BooksNothing A acc t' t'') :
    BooksNothing A acc t t'' := by
  refine ⟨h.seq.trans h'.seq, fun q hq => ?_⟩
  rcases h'.row q hq with ⟨r, hr, hid, hholder, hbalance⟩ | ⟨hlt, hnew⟩
  · rw [zero_vadd] at hbalance
    rcases h.row r hr with ⟨p, hp, hid', hholder', hbalance'⟩ | ⟨hlt, hnew⟩
    · rw [hbalance, ← hholder]
      exact .inl ⟨p, hp, hid'.trans hid, hholder', hbalance'⟩
    · exact .inr ⟨hid ▸ hlt, hbalance.trans hnew⟩
  · exact .inr ⟨h.seq.trans_lt hlt, hnew⟩

/-- A row is opened. -/
theorem booksNothing_insert {v : ρ} (hv : acc.balance v = acc.opening) :
    BooksNothing A acc t (t.insert v) := by
  refine ⟨Nat.le_succ _, fun q hq => ?_⟩
  rcases List.mem_append.1 hq with hq | hq
  · exact .inl ⟨q, hq, rfl, rfl, (zero_vadd A _).symm⟩
  · obtain rfl := List.mem_singleton.1 hq
    exact .inr ⟨Nat.lt_succ_self _, hv⟩

theorem booksNothing_delete {p : ρ → Bool} : BooksNothing A acc t (t.delete p) :=
  ⟨le_rfl, fun q hq => .inl ⟨q, (Table.mem_delete.1 hq).1, rfl, rfl, (zero_vadd A _).symm⟩⟩

/-- Every row is rewritten, and keeps its holder. -/
theorem books_mapRows {f : ρ → ρ} (hholder : ∀ v, acc.holder (f v) = acc.holder v)
    (hbalance : ∀ v, acc.balance (f v) = x (acc.holder v) +ᵥ acc.balance v) :
    Books acc x t (t.mapRows f) := by
  refine ⟨le_rfl, fun q hq => ?_⟩
  obtain ⟨r, hr, rfl⟩ := List.mem_map.1 hq
  refine .inl ⟨r, hr, rfl, (hholder r.val).symm, ?_⟩
  rw [hbalance, hholder]

/-- Other columns are rewritten. -/
theorem booksNothing_update {p : ρ → Bool} {f : ρ → ρ}
    (hf : ∀ v, acc.holder (f v) = acc.holder v ∧ acc.balance (f v) = acc.balance v) :
    BooksNothing A acc t (t.update p f) := by
  refine books_mapRows (fun v => ?_) fun v => ?_
  · split
    · exact (hf v).1
    · rfl
  · rw [zero_vadd]
    split
    · exact (hf v).2
    · rfl

end Statements

/-- What is booked to a holder in a run. -/
def bookings (x : Event α σ → κ → A) (es : List (Event α σ)) (k : κ) : A :=
  (es.map fun e => x e k).sum

/-- The rule for a whole run: a balance comes to what was booked to the holder since the row was
there, be it from the beginning or from the event that opened it. -/
theorem Run.books {step : α → σ → Option σ} {acc : Accounts ρ κ M} {x : Event α σ → κ → A}
    {s t : σ} {es : List (Event α σ)} (h : Run step s es t) (table : σ → Table ρ)
    (hstep : ∀ e ∈ es, step e.input e.before = some e.after →
      Books acc (x e) (table e.before) (table e.after)) :
    ∀ q ∈ (table t).rows,
      (∃ r ∈ (table s).rows, r.id = q.id ∧ acc.holder r.val = acc.holder q.val ∧
        acc.balance q.val = bookings x es (acc.holder q.val) +ᵥ acc.balance r.val) ∨
      ∃ es₁ e es₂, es = es₁ ++ e :: es₂ ∧
        ((table e.before).seq < q.id ∧ q.id ≤ (table e.after).seq) ∧
        acc.balance q.val = bookings x es₂ (acc.holder q.val) +ᵥ acc.opening := by
  induction es generalizing s with
  | nil =>
    obtain rfl : t = s := h
    exact fun q hq => .inl ⟨q, hq, rfl, rfl, (zero_vadd A _).symm⟩
  | cons e es ih =>
    obtain ⟨rfl, hs, hrun⟩ := h
    intro q hq
    have hbooks := hstep e (by simp) hs
    rcases ih hrun (fun e' he => hstep e' (by simp [he])) q hq with
      ⟨r, hr, hid, hholder, hbalance⟩ | ⟨es₁, e', es₂, rfl, hopened, hbalance⟩
    · rcases hbooks.row r hr with ⟨p, hp, hid', hholder', hbalance'⟩ | ⟨hlt, hnew⟩
      · refine .inl ⟨p, hp, hid'.trans hid, hholder'.trans hholder, ?_⟩
        rw [hbalance, hbalance', hholder, ← add_vadd, add_comm]
        rfl
      · refine .inr ⟨[], e, es, rfl, ⟨hid ▸ hlt, hid ▸ (table e.after).bounded r hr⟩, ?_⟩
        rw [hbalance, hnew]
    · exact .inr ⟨e :: es₁, e', es₂, rfl, hopened, hbalance⟩

end AtomComm
