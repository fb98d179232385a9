import Mathlib.Algebra.GroupWithZero.Nat
import Mathlib.Data.List.Basic
import Mathlib.Data.String.Basic
import Mathlib.Tactic.Common
import AtomComm.Lib.Text

/-! `String.format`, with the printing of a specifier as a parameter. A specifier is
`%[index$][flags][width][.precision]conversion`; it takes the argument of its index, the one
taken last (the flag `<`), or the next ordinary one, and text that is none, or an argument
that is missing, is an exception. A text with no `%` is printed as it stands. A specifier
that takes no ordinary argument is longer in the characters of its syntax than what it
prints, so that a text with one is never printed as it stands. -/

namespace AtomComm

namespace Format

structure Spec where
  index : Option ℕ
  flags : List Char
  width : Option ℕ
  precision : Option ℕ
  conversion : Char
  deriving DecidableEq

def Spec.plain (conversion : Char) : Spec := ⟨none, [], none, none, conversion⟩

def number (ds : List Char) : Option ℕ := if ds = [] then none else some (Nat.ofDigitChars 10 ds 0)

/-- The index at the front, and what follows it. -/
def readIndex (body : List Char) : Option ℕ × List Char :=
  match body.dropWhile Char.isDigit with
  | '$' :: rest =>
    if body.takeWhile Char.isDigit = [] then (none, body)
    else (number (body.takeWhile Char.isDigit), rest)
  | _ => (none, body)

def isFlag (c : Char) : Bool := c ∈ ['-', '#', '+', ' ', '0', ',', '(', '<']

/-- `body` stands between the `%` and the conversion. -/
def Spec.read (body : List Char) (conversion : Char) : Option Spec :=
  let index := (readIndex body).1
  let flags := (readIndex body).2.takeWhile isFlag
  let rest := (readIndex body).2.dropWhile isFlag
  let width := number (rest.takeWhile Char.isDigit)
  match rest.dropWhile Char.isDigit with
  | [] => some ⟨index, flags, width, none, conversion⟩
  | '.' :: ds =>
    if ds ≠ [] ∧ ds.all Char.isDigit then some ⟨index, flags, width, number ds, conversion⟩
    else none
  | _ => none

/-- How many ordinary arguments were taken, and which argument last. -/
structure Cursor where
  ordinary : ℕ
  last : Option ℕ

section Run
variable {α : Type} (print : Spec → Option α → Option (List Char)) (args : List α)

/-- The argument of a specifier; `n` and `%` have none. -/
def Spec.argument (spec : Spec) (cur : Cursor) : Option (Option α × Cursor) :=
  if spec.conversion = 'n' ∨ spec.conversion = '%' then some (none, cur)
  else if '<' ∈ spec.flags then
    cur.last.bind fun i => args[i]?.map fun a => (some a, cur)
  else match spec.index with
    | some (i + 1) => args[i]?.map fun a => (some a, { cur with last := some i })
    | _ => args[cur.ordinary]?.map fun a => (some a, ⟨cur.ordinary + 1, some cur.ordinary⟩)

/-- The text that is printed. Within a specifier its body is kept, the last character first. -/
def run : Option (List Char) → Cursor → List Char → Option (List Char)
  | none, _, [] => some []
  | some _, _, [] => none
  | none, cur, c :: cs => if c = '%' then run (some []) cur cs else (run none cur cs).map (c :: ·)
  | some body, cur, c :: cs =>
    if c.isAlpha ∨ c = '%' then
      (Spec.read body.reverse c).bind fun spec => (spec.argument args cur).bind fun p =>
        (print spec p.1).bind fun s => (run none p.2 cs).map (s ++ ·)
    else run (some (c :: body)) cur cs

def format (s : List Char) : Option (List Char) := run print args none ⟨0, none⟩ s

end Run

/-! ### What is printed as it stands -/

/-- The characters of the syntax that specifiers without an ordinary argument consist of. -/
def special (c : Char) : Bool := c = '%' || c = '$' || c = '<'

/-- What is printed for a specifier has few of them, as the text of a number has. -/
structure Sparse {α : Type} (print : Spec → Option α → Option (List Char)) : Prop where
  few : ∀ spec a s, print spec a = some s → s.countP special ≤ 1
  newline : ∀ spec a s, spec.conversion = 'n' → print spec a = some s → s.countP special = 0

theorem special_of_mem {c : Char} {body : List Char} (h : c ∈ body) (hc : special c = true) :
    1 ≤ body.countP special :=
  List.countP_pos_iff.2 ⟨c, h, hc⟩

theorem readIndex_spec (body : List Char) :
    (∀ i, (readIndex body).1 = some i → '$' ∈ body) ∧ (readIndex body).2 ⊆ body := by
  have hbody := List.takeWhile_append_dropWhile (p := Char.isDigit) (l := body)
  unfold readIndex
  split
  · rename_i rest hrest
    rw [hrest] at hbody
    split
    · exact ⟨(fun _ h => nomatch h), fun _ h => h⟩
    · refine ⟨fun _ _ => ?_, fun c hc => ?_⟩ <;> rw [← hbody]
      · simp
      · simp [hc]
  · exact ⟨(fun _ h => nomatch h), fun _ h => h⟩

/-- An index and the flag `<` show in the body of the specifier. -/
theorem read_spec {body : List Char} {c : Char} {spec : Spec} (h : Spec.read body c = some spec) :
    spec.conversion = c ∧ (∀ i, spec.index = some i → '$' ∈ body) ∧
      ('<' ∈ spec.flags → '<' ∈ body) := by
  obtain ⟨hindex, hsub⟩ := readIndex_spec body
  have hflags : '<' ∈ (readIndex body).2.takeWhile isFlag → '<' ∈ body :=
    fun h => hsub ((List.takeWhile_prefix _).subset h)
  unfold Spec.read at h
  simp only at h
  split at h
  · cases h
    exact ⟨rfl, hindex, hflags⟩
  · split at h
    · cases h
      exact ⟨rfl, hindex, hflags⟩
    · cases h
  · cases h

section Printed
variable {α : Type} {print : Spec → Option α → Option (List Char)} {args : List α}
  {cur : Cursor} {u v out body : List Char}

theorem run_append (h : '%' ∉ u) :
    run print args none cur (u ++ v) = (run print args none cur v).map (u ++ ·) := by
  induction u with
  | nil => simp
  | cons c u ih =>
    rw [List.mem_cons, not_or] at h
    rw [List.cons_append, run, if_neg (Ne.symm h.1), ih h.2, Option.map_map]
    rfl

theorem run_plain (h : '%' ∉ u) : run print args none cur u = some u := by
  have hrun := @run_append _ print args cur u [] h
  simpa [run] using hrun

/-- A specifier of its conversion alone. -/
theorem run_spec {c : Char} (hc : c.isAlpha = true ∨ c = '%') :
    run print args none cur ('%' :: c :: v) =
      ((Spec.plain c).argument args cur).bind fun p => (print (.plain c) p.1).bind fun s =>
        (run print args none p.2 v).map (s ++ ·) := by
  rw [run, if_pos rfl, run, if_pos hc]
  rfl

/-- With no ordinary argument left, a specifier has none, or says which. -/
theorem argument_spec {spec : Spec} {p : Option α × Cursor} (hcur : args.length ≤ cur.ordinary)
    (h : spec.argument args cur = some p) : p.2.ordinary = cur.ordinary ∧
      (spec.conversion = 'n' ∨ spec.conversion = '%' ∨ '<' ∈ spec.flags ∨
        ∃ i, spec.index = some i) := by
  unfold Spec.argument at h
  split at h
  · rename_i hc
    obtain rfl := Option.some.inj h
    exact ⟨rfl, hc.imp_right .inl⟩
  split at h
  · rename_i hflag
    obtain ⟨i, -, ha⟩ := Option.bind_eq_some_iff.1 h
    obtain ⟨a, -, rfl⟩ := Option.map_eq_some_iff.1 ha
    exact ⟨rfl, .inr (.inr (.inl hflag))⟩
  split at h
  · rename_i i hi
    obtain ⟨a, -, rfl⟩ := Option.map_eq_some_iff.1 h
    exact ⟨rfl, .inr (.inr (.inr ⟨_, hi⟩))⟩
  · rw [List.getElem?_eq_none hcur] at h
    cases h

/-- What a specifier prints has no more special characters than what follows its `%`. -/
theorem print_specials (hp : Sparse print) {c : Char} {spec : Spec} {p : Option α × Cursor}
    (hcur : args.length ≤ cur.ordinary) (hread : Spec.read body.reverse c = some spec)
    (harg : spec.argument args cur = some p) (hs : print spec p.1 = some out) :
    out.countP special ≤ (c :: body).countP special := by
  obtain ⟨rfl, hindex, hflags⟩ := read_spec hread
  have hfew := hp.few _ _ _ hs
  rw [List.countP_cons]
  rcases (argument_spec hcur harg).2 with hn | hpercent | hlast | ⟨i, hi⟩
  · rw [hp.newline _ _ _ hn hs]
    omega
  · rw [hpercent, if_pos (show special '%' = true from rfl)]
    omega
  · have := special_of_mem (List.mem_reverse.1 (hflags hlast)) rfl
    omega
  · have := special_of_mem (List.mem_reverse.1 (hindex i hi)) rfl
    omega

/-- With no ordinary argument left, every specifier is longer in special characters than
what is printed for it. -/
theorem run_specials (hp : Sparse print) :
    (∀ cur out, args.length ≤ cur.ordinary → run print args none cur u = some out →
      out.countP special ≤ u.countP special ∧
        ('%' ∈ u → out.countP special < u.countP special)) ∧
      ∀ body cur out, args.length ≤ cur.ordinary →
        run print args (some body) cur u = some out →
          out.countP special ≤ body.countP special + u.countP special := by
  induction u with
  | nil =>
    refine ⟨fun cur out _ h => ?_, fun body cur out _ h => nomatch h⟩
    obtain rfl := Option.some.inj h
    simp
  | cons c u ih =>
    obtain ⟨htext, hspec⟩ := ih
    constructor
    · intro cur out hcur h
      rw [run] at h
      split at h
      · rename_i hc
        subst hc
        have hle := hspec [] cur out hcur h
        simp [special] at hle ⊢
        omega
      · rename_i hc
        obtain ⟨rest, hrest, rfl⟩ := Option.map_eq_some_iff.1 h
        obtain ⟨hle, hlt⟩ := htext cur rest hcur hrest
        rw [List.countP_cons, List.countP_cons, List.mem_cons]
        refine ⟨by omega, ?_⟩
        rintro (hmem | hmem)
        · exact absurd hmem.symm hc
        · have := hlt hmem
          omega
    · intro body cur out hcur h
      rw [run] at h
      split at h
      · obtain ⟨spec, hread, h⟩ := Option.bind_eq_some_iff.1 h
        obtain ⟨p, harg, h⟩ := Option.bind_eq_some_iff.1 h
        obtain ⟨s, hs, h⟩ := Option.bind_eq_some_iff.1 h
        obtain ⟨rest, hrest, rfl⟩ := Option.map_eq_some_iff.1 h
        have hord := (argument_spec hcur harg).1
        have hle := (htext p.2 rest (hord ▸ hcur) hrest).1
        have hprinted := print_specials hp hcur hread harg hs
        rw [List.countP_cons] at hprinted
        rw [List.countP_append, List.countP_cons]
        omega
      · have hle := hspec (c :: body) cur out hcur h
        rw [List.countP_cons] at hle ⊢
        omega

end Printed

/-! ### Texts that are shown -/

/-- The texts stand in `s` one after the other. -/
def InOrder : List (List Char) → List Char → Prop
  | [], _ => True
  | t :: ts, s => ∃ u v, s = u ++ (t ++ v) ∧ InOrder ts v

section Shown
variable {ts us : List (List Char)} {s t u v : List Char}

theorem InOrder.after (h : InOrder ts s) (u : List Char) : InOrder ts (u ++ s) := by
  cases ts with
  | nil => trivial
  | cons t ts =>
    obtain ⟨v, w, rfl, hw⟩ := h
    exact ⟨u ++ v, w, by simp, hw⟩

theorem InOrder.append (h : InOrder ts s) (h' : InOrder us u) : InOrder (ts ++ us) (s ++ u) := by
  induction ts generalizing s with
  | nil => exact h'.after s
  | cons t ts ih =>
    obtain ⟨v, w, rfl, hw⟩ := h
    exact ⟨v, w ++ u, by simp, ih hw⟩

theorem InOrder.countP_le (h : InOrder ts s) (p : Char → Bool) :
    (ts.map fun t => t.countP p).sum ≤ s.countP p := by
  induction ts generalizing s with
  | nil => simp
  | cons t ts ih =>
    obtain ⟨u, v, rfl, hv⟩ := h
    have hle := ih hv
    simp only [List.map_cons, List.sum_cons, List.countP_append]
    omega

theorem InOrder.mem (h : InOrder ts s) (ht : t ∈ ts) {c : Char} (hc : c ∈ t) : c ∈ s := by
  induction ts generalizing s with
  | nil => cases ht
  | cons t' ts ih =>
    obtain ⟨u, v, rfl, hv⟩ := h
    rcases List.mem_cons.1 ht with rfl | ht
    · simp [hc]
    · simp [ih hv ht]

/-- A character that is counted, and counted in the texts only, is in none of them. -/
theorem InOrder.not_mem {p : Char → Bool} {c : Char} (hp : p c = true) (h : InOrder ts s)
    (hcount : s.countP p = (ts.map fun t => t.countP p).sum) (hts : ∀ t ∈ ts, c ∉ t) :
    c ∉ s := by
  induction ts generalizing s with
  | nil => exact fun hc => List.countP_eq_zero.1 hcount c hc hp
  | cons t ts ih =>
    obtain ⟨u, v, rfl, hv⟩ := h
    have hle := hv.countP_le p
    simp only [List.map_cons, List.sum_cons, List.countP_append] at hcount
    have hu : c ∉ u := fun hc =>
      List.countP_eq_zero.1 (show u.countP p = 0 by omega) c hc hp
    have hrest := ih hv (by omega) fun t' ht' => hts t' (List.mem_cons_of_mem _ ht')
    simp [hu, hts t List.mem_cons_self, hrest]

/-- The texts stand in `s` one after the other, and `s` has no special characters but theirs. -/
structure Laid (ts : List (List Char)) (s : List Char) : Prop where
  order : InOrder ts s
  count : s.countP special = (ts.map fun t => t.countP special).sum

theorem Laid.append (h : Laid ts s) (h' : Laid us u) : Laid (ts ++ us) (s ++ u) := by
  refine ⟨h.order.append h'.order, ?_⟩
  rw [List.countP_append, h.count, h'.count, List.map_append, List.sum_append]

theorem laid_plain (h : s.countP special = 0) : Laid [] s := ⟨trivial, h⟩

theorem laid_self (s : List Char) : Laid [s] s := ⟨⟨[], [], by simp, trivial⟩, by simp⟩

theorem Laid.not_mem (h : Laid ts s) {c : Char} (hc : special c = true)
    (hts : ∀ t ∈ ts, c ∉ t) : c ∉ s :=
  h.order.not_mem hc h.count hts

/-- A table whose special characters are in its cells is printed with all its cells, one after
the other, if and only if no cell has a `%`. -/
theorem shown_iff {α : Type} {print : Spec → Option α → Option (List Char)} {args : List α}
    {cur : Cursor} (hp : Sparse print) (hcur : args.length ≤ cur.ordinary) (h : Laid ts s) :
    (∃ out, run print args none cur s = some out ∧ InOrder ts out) ↔ ∀ t ∈ ts, '%' ∉ t := by
  constructor
  · rintro ⟨out, hrun, hout⟩ t ht hc
    have hlt := ((run_specials hp).1 cur out hcur hrun).2 (h.order.mem ht hc)
    have hle := hout.countP_le special
    have hcount := h.count
    omega
  · intro hts
    exact ⟨s, run_plain (h.not_mem rfl hts), h.order⟩

end Shown

end Format

end AtomComm
