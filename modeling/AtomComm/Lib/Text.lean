import Mathlib.Data.List.DropRight
import Mathlib.Data.List.Infix
import Mathlib.Data.List.Basic
import Mathlib.Tactic.Common

/-! Cutting text up as Java does. `split` cuts at the occurrences of a literal delimiter,
found from the left, and drops the empty pieces at the end; text without an occurrence is
left whole. `replaceOuter q` removes the matches of `^q|q$`, where `$` also matches before a
line terminator that ends the text, and `trim` the characters up to the blank from either
end. `Skips d p t` says that no occurrence of `d` starts in `p` when `t` follows; with it
pieces joined by a delimiter come back from the cut. -/

namespace AtomComm

namespace Text

section DropWhile
variable {α : Type*} {f : α → Bool} {a b : List α}

theorem rdropWhile_append_of_all (h : ∀ x ∈ b, f x = true) :
    (a ++ b).rdropWhile f = a.rdropWhile f := by
  rw [List.rdropWhile, List.reverse_append, List.dropWhile_append_of_pos, List.rdropWhile]
  intro x hx
  exact h x (List.mem_reverse.1 hx)

theorem rdropWhile_append_of_exists (h : ¬∀ x ∈ b, f x = true) :
    (a ++ b).rdropWhile f = a ++ b.rdropWhile f := by
  have hne : ¬(b.reverse.dropWhile f).isEmpty = true := by
    rw [List.isEmpty_iff, List.dropWhile_eq_nil_iff]
    intro hall
    exact h fun x hx => hall x (List.mem_reverse.2 hx)
  rw [List.rdropWhile, List.reverse_append, List.dropWhile_append, if_neg hne,
    List.reverse_append, List.reverse_reverse, List.rdropWhile]

theorem rdropWhile_append_of_last (h : ∀ x ∈ a.getLast?, ¬f x = true) :
    (a ++ b).rdropWhile f = a ++ b.rdropWhile f := by
  by_cases hb : ∀ x ∈ b, f x = true
  · have ha : a.rdropWhile f = a :=
      List.rdropWhile_eq_self_iff.2 fun hne => h _ (List.getLast?_eq_some_getLast hne)
    rw [rdropWhile_append_of_all hb, ha, List.rdropWhile_eq_nil_iff.2 hb, List.append_nil]
  · exact rdropWhile_append_of_exists hb

end DropWhile

/-! ### Cutting at a delimiter -/

section Split
variable {α : Type*} [DecidableEq α] {d p q r s t : List α} {c : α}

omit [DecidableEq α] in
def consHead (c : α) : List (List α) → List (List α)
  | [] => [[c]]
  | p :: ps => (c :: p) :: ps

/-- The pieces of a text. The counter runs over what is left of an occurrence. -/
def pieces (d : List α) : ℕ → List α → List (List α)
  | _, [] => [[]]
  | k + 1, _ :: s => pieces d k s
  | 0, c :: s =>
    if d.isPrefixOf (c :: s) then [] :: pieces d (d.length - 1) s else consHead c (pieces d 0 s)

/-- `split`, with a regular expression that matches `d` alone. -/
def split (d s : List α) : List (List α) :=
  if (pieces d 0 s).length = 1 then pieces d 0 s
  else (pieces d 0 s).rdropWhile List.isEmpty

/-- No occurrence of `d` starts in the text before `t` follows it. -/
def Skips (d : List α) : List α → List α → Prop
  | [], _ => True
  | c :: p, t => ¬d <+: c :: (p ++ t) ∧ Skips d p t

theorem pieces_drop (k : List α) : pieces d k.length (k ++ s) = pieces d 0 s := by
  induction k with
  | nil => rfl
  | cons c k ih => simpa [pieces] using ih

/-- At an occurrence the piece ends. -/
theorem pieces_delim (hd : d ≠ []) : pieces d 0 (d ++ s) = [] :: pieces d 0 s := by
  obtain ⟨c, d', rfl⟩ := List.exists_cons_of_ne_nil hd
  have hpre : (c :: d').isPrefixOf (c :: (d' ++ s)) = true := by
    rw [List.isPrefixOf_iff_prefix]
    exact List.prefix_append (c :: d') s
  rw [List.cons_append, pieces, if_pos hpre, List.length_cons, Nat.add_sub_cancel, pieces_drop]

theorem pieces_cons (h : ¬d <+: c :: s) : pieces d 0 (c :: s) = consHead c (pieces d 0 s) := by
  rw [pieces, if_neg]
  rw [List.isPrefixOf_iff_prefix]
  exact h

theorem pieces_append (hd : d ≠ []) (h : Skips d p (d ++ s)) :
    pieces d 0 (p ++ (d ++ s)) = p :: pieces d 0 s := by
  induction p with
  | nil => exact pieces_delim hd
  | cons c p ih => rw [List.cons_append, pieces_cons h.1, ih h.2, consHead]

theorem pieces_self (h : Skips d p []) : pieces d 0 p = [p] := by
  induction p with
  | nil => rfl
  | cons c p ih =>
    have hno : ¬d <+: c :: p := by simpa using h.1
    rw [pieces_cons hno, ih h.2, consHead]

omit [DecidableEq α] in
theorem skips_append : Skips d (p ++ q) t ↔ Skips d p (q ++ t) ∧ Skips d q t := by
  induction p with
  | nil => simp [Skips]
  | cons c p ih => simp only [List.cons_append, Skips, ih, List.append_assoc, and_assoc]

omit [DecidableEq α] in
/-- A text without the first character of the delimiter. -/
theorem skips_of_not_mem (h : c ∉ p) : Skips (c :: d) p t := by
  induction p with
  | nil => trivial
  | cons x p ih =>
    rw [List.mem_cons, not_or] at h
    refine ⟨fun hpre => h.1 ?_, ih h.2⟩
    exact (List.cons_prefix_cons.1 hpre).1

omit [DecidableEq α] in
theorem prefix_before (hq : c ∉ d) (h : d <+: p ++ c :: t) : d <+: p := by
  obtain ⟨u, hu⟩ := h
  rcases List.append_eq_append_iff.1 hu with ⟨a, rfl, -⟩ | ⟨a, rfl, ha⟩
  · exact List.prefix_append d a
  · cases a with
    | nil => simp
    | cons x a =>
      obtain ⟨rfl, -⟩ := List.cons.inj ha
      simp at hq

omit [DecidableEq α] in
/-- A text without an occurrence, before a character that the delimiter lacks. -/
theorem skips_of_absent (h : ¬d <:+: p) (hc : c ∉ d) : Skips d p (c :: t) := by
  induction p with
  | nil => trivial
  | cons x p ih =>
    refine ⟨fun hpre => h ?_, ih fun hinf => h (hinf.trans (List.suffix_cons x p).isInfix)⟩
    exact (prefix_before (p := x :: p) hc hpre).isInfix

/-- A text has no occurrence of the delimiter and is its only piece, or it is its first
piece, an occurrence and the rest. -/
theorem pieces_cases (hd : d ≠ []) (s : List α) :
    (¬d <:+: s ∧ pieces d 0 s = [s]) ∨
      ∃ p t, s = p ++ (d ++ t) ∧ pieces d 0 s = p :: pieces d 0 t := by
  induction s with
  | nil => exact .inl ⟨fun h => hd (List.infix_nil.1 h), rfl⟩
  | cons c s ih =>
    by_cases hpre : d <+: c :: s
    · obtain ⟨t, ht⟩ := hpre
      refine .inr ⟨[], t, ht.symm, ?_⟩
      rw [← ht, pieces_delim hd]
    · rcases ih with ⟨hno, hpieces⟩ | ⟨p, t, rfl, hpieces⟩
      · refine .inl ⟨fun hinf => ?_, by rw [pieces_cons hpre, hpieces, consHead]⟩
        rcases List.infix_cons_iff.1 hinf with hp | hi
        · exact hpre hp
        · exact hno hi
      · refine .inr ⟨c :: p, t, rfl, ?_⟩
        rw [pieces_cons hpre, hpieces, consHead]

/-- A text without an occurrence is its only piece. -/
theorem pieces_whole (h : ¬d <:+: s) : pieces d 0 s = [s] := by
  by_cases hd : d = []
  · exact absurd (hd ▸ List.nil_infix) h
  · rcases pieces_cases hd s with ⟨-, hs⟩ | ⟨p, t, rfl, -⟩
    · exact hs
    · exact absurd ⟨p, t, by simp⟩ h

theorem split_eq_pieces (h : ∀ p ∈ pieces d 0 s, p ≠ []) : split d s = pieces d 0 s := by
  rw [split]
  split
  · rfl
  · rw [List.rdropWhile_eq_self_iff]
    intro hne
    have hlast := h _ (List.getLast_mem hne)
    simpa using hlast

theorem pieces_ne_nil : pieces d 0 s ≠ [] := by
  cases s with
  | nil => simp [pieces]
  | cons c s =>
    rw [pieces]
    split
    · simp
    · cases pieces d 0 s <;> simp [consHead]

/-- A text has no occurrence of the delimiter and is left whole, or it is cut before the
first occurrence, unless all pieces are empty and none is left. -/
theorem split_cases (hd : d ≠ []) (s : List α) :
    (¬d <:+: s ∧ split d s = [s]) ∨
      ∃ p t, s = p ++ (d ++ t) ∧ ((split d s).head? = some p ∨ split d s = [] ∧ p = []) := by
  rcases pieces_cases hd s with ⟨hno, hp⟩ | ⟨p, t, hs, hp⟩
  · exact .inl ⟨hno, by rw [split, hp]; rfl⟩
  · refine .inr ⟨p, t, hs, ?_⟩
    have hlen : (p :: pieces d 0 t).length ≠ 1 := by simpa using pieces_ne_nil
    rw [split, hp, if_neg hlen]
    obtain ⟨u, hu⟩ := List.rdropWhile_prefix List.isEmpty (l := p :: pieces d 0 t)
    cases hkept : (p :: pieces d 0 t).rdropWhile List.isEmpty with
    | nil =>
      have hempty := List.rdropWhile_eq_nil_iff.1 hkept p (by simp)
      exact .inr ⟨rfl, by simpa using hempty⟩
    | cons q qs =>
      rw [hkept] at hu
      obtain ⟨rfl, -⟩ := List.cons.inj hu
      exact .inl rfl

theorem split_whole (h : ¬d <:+: s) : split d s = [s] := by
  rw [split, pieces_whole h, if_pos List.length_singleton]

/-- Two delimiters that never start at one place cut a text at the same first piece only if
it has neither. -/
theorem split_head_eq {d' : List α} (hd : d ≠ []) (hd' : d' ≠ [])
    (hne : ∀ t t', d ++ t ≠ d' ++ t') (h : (split d s).head? = (split d' s).head?) :
    ¬d <:+: s ∧ ¬d' <:+: s := by
  have hpos : 0 < d.length := List.length_pos_of_ne_nil hd
  have hpos' : 0 < d'.length := List.length_pos_of_ne_nil hd'
  rcases split_cases hd s with ⟨hno, hs⟩ | ⟨p, t, rfl, hp⟩
  · rcases split_cases hd' s with ⟨hno', -⟩ | ⟨p', t', hs', hp'⟩
    · exact ⟨hno, hno'⟩
    · rw [hs] at h
      rcases hp' with hp' | ⟨hp', -⟩
      · have hlen : s.length = p'.length := by simp_all
        rw [hs', List.length_append, List.length_append] at hlen
        omega
      · simp [hp'] at h
  · rcases split_cases hd' (p ++ (d ++ t)) with ⟨-, hs'⟩ | ⟨p', t', hs', hp'⟩
    · rw [hs'] at h
      rcases hp with hp | ⟨hp, -⟩
      · rw [hp] at h
        have hlen := congrArg List.length (Option.some.inj h)
        simp only [List.length_append] at hlen
        omega
      · simp [hp] at h
    · have hsame : p = p' := by
        rcases hp with hp | ⟨hp, rfl⟩ <;> rcases hp' with hp' | ⟨hp', rfl⟩ <;> simp_all
      rw [hsame] at hs'
      exact absurd (List.append_cancel_left hs') (hne t t')

/-- Pieces joined by the delimiter. -/
theorem pieces_intercalate (hd : d ≠ []) {ps : List (List α)} (hp : ∀ t, Skips d p t)
    (hps : ∀ q ∈ ps, ∀ t, Skips d q t) : pieces d 0 (d.intercalate (p :: ps)) = p :: ps := by
  induction ps generalizing p with
  | nil => rw [List.intercalate_singleton, pieces_self (hp [])]
  | cons q ps ih =>
    rw [List.intercalate_cons_cons, List.append_assoc, pieces_append hd (hp _),
      ih (hps q (by simp)) fun q' hq' => hps q' (by simp [hq'])]

/-- The pieces up to a second one that is not empty are kept. -/
theorem split_two {ps : List (List α)} (h : pieces d 0 s = p :: q :: ps) (hq : q ≠ []) :
    ∃ rest, split d s = p :: q :: rest := by
  have hlen : (p :: q :: ps).length ≠ 1 := by simp
  have hsplit : split d s = ([p, q] ++ ps).rdropWhile List.isEmpty := by
    rw [split, h, if_neg hlen]
    rfl
  have hkeep : [p, q].rdropWhile List.isEmpty = [p, q] :=
    List.rdropWhile_concat_neg List.isEmpty [p] q (by simpa using hq)
  by_cases hps : ∀ x ∈ ps, List.isEmpty x = true
  · exact ⟨[], by rw [hsplit, rdropWhile_append_of_all hps, hkeep]⟩
  · exact ⟨ps.rdropWhile List.isEmpty, by rw [hsplit, rdropWhile_append_of_exists hps]; rfl⟩

/-- Two texts without the delimiter, the second one not empty. -/
theorem split_pair {c : α} (hp : c ∉ p) (hq : c ∉ q) (hne : q ≠ []) :
    split [c] (p ++ c :: q) = [p, q] := by
  have hcut : pieces [c] 0 (p ++ c :: q) = [p, q] := by
    have hfront := pieces_append (d := [c]) (by simp) (skips_of_not_mem hp (t := [c] ++ q))
    rwa [pieces_self (skips_of_not_mem hq)] at hfront
  have hlen : [p, q].length ≠ 1 := by simp
  rw [split, hcut, if_neg hlen]
  exact List.rdropWhile_concat_neg List.isEmpty [p] q (by simpa using hne)

/-- Two pieces at the front, and maybe more after another occurrence. -/
theorem split_front (hd : d ≠ []) (hp : ∀ t, Skips d p (d ++ t)) (hq : ∀ t, Skips d q (d ++ t))
    (hlast : Skips d q []) (hne : q ≠ []) (ht : t = [] ∨ ∃ s, t = d ++ s) :
    ∃ rest, split d (p ++ (d ++ (q ++ t))) = p :: q :: rest := by
  rcases ht with rfl | ⟨s, rfl⟩
  · have hcut : pieces d 0 (p ++ (d ++ (q ++ []))) = [p, q] := by
      rw [pieces_append hd (hp _), List.append_nil, pieces_self hlast]
    exact split_two hcut hne
  · have hcut : pieces d 0 (p ++ (d ++ (q ++ (d ++ s)))) = p :: q :: pieces d 0 s := by
      rw [pieces_append hd (hp _), pieces_append hd (hq _)]
    exact split_two hcut hne

/-- A character that the delimiter lacks is in a piece. -/
theorem mem_pieces (hd : d ≠ []) (hc : c ∉ d) (h : c ∈ s) : ∃ p ∈ pieces d 0 s, c ∈ p := by
  induction hn : s.length using Nat.strong_induction_on generalizing s with
  | _ n ih =>
    rcases pieces_cases hd s with ⟨-, hs⟩ | ⟨p, t, rfl, hs⟩
    · exact ⟨s, by simp [hs], h⟩
    · rw [hs]
      rcases List.mem_append.1 h with hp | hrest
      · exact ⟨p, List.mem_cons_self, hp⟩
      · have hpos := List.length_pos_of_ne_nil hd
        have ht : c ∈ t := (List.mem_append.1 hrest).resolve_left hc
        obtain ⟨q, hq, hcq⟩ := ih t.length (by simp at hn; omega) ht rfl
        exact ⟨q, List.mem_cons_of_mem p hq, hcq⟩

/-- A text with an occurrence that does not end in the delimiter has two pieces at least. -/
theorem split_second (hinf : d <:+: s) (hd : d ≠ []) (hlast : ∀ c ∈ s.getLast?, c ∉ d) :
    ∃ p q ps, split d s = p :: q :: ps := by
  rcases pieces_cases hd s with ⟨hno, -⟩ | ⟨p, t, rfl, hs⟩
  · exact absurd hinf hno
  · have hne : t ≠ [] := by
      rintro rfl
      have hend := hlast (d.getLast hd) (by simp [List.getLast?_append, List.getLast?_eq_some_getLast hd])
      exact hend (List.getLast_mem hd)
    have hc := hlast (t.getLast hne) (by
      simp [List.getLast?_append, List.getLast?_eq_some_getLast hne])
    obtain ⟨x, hx, hcx⟩ := mem_pieces hd hc (List.getLast_mem hne)
    obtain ⟨ys, zs, hpieces⟩ := List.append_of_mem hx
    have hkeep : ¬∀ y ∈ x :: zs, List.isEmpty y = true := by
      intro hall
      have hx' := hall x List.mem_cons_self
      simp [List.isEmpty_iff.1 hx'] at hcx
    have hlen : (p :: (ys ++ x :: zs)).length ≠ 1 := by simp
    rw [split, hs, hpieces, if_neg hlen, ← List.cons_append, rdropWhile_append_of_exists hkeep]
    cases hrest : ys ++ (x :: zs).rdropWhile List.isEmpty with
    | nil => exact absurd (List.rdropWhile_eq_nil_iff.1 (List.append_eq_nil_iff.1 hrest).2) hkeep
    | cons q qs => exact ⟨p, q, qs, by rw [List.cons_append, hrest]⟩

/-! The other way round: what the first piece says of the text. -/

theorem split_initial (d s : List α) : split d s <+: pieces d 0 s := by
  rw [split]
  split
  · exact List.prefix_rfl
  · exact List.rdropWhile_prefix List.isEmpty _

theorem getElem_pieces_of_split {p : List α} {i : ℕ} (h : (split d s)[i]? = some p) :
    (pieces d 0 s)[i]? = some p := by
  obtain ⟨u, hu⟩ := split_initial d s
  obtain ⟨hi, -⟩ := List.getElem?_eq_some_iff.1 h
  rw [← hu, List.getElem?_append_left hi, h]

/-- The first piece is what comes before an occurrence only if none starts earlier. -/
theorem head_pieces_iff (hd : d ≠ []) :
    (pieces d 0 (p ++ (d ++ t))).head? = some p ↔ Skips d p (d ++ t) := by
  constructor
  · intro h
    induction p with
    | nil => trivial
    | cons c p ih =>
      by_cases hpre : d <+: c :: (p ++ (d ++ t))
      · obtain ⟨u, hu⟩ := hpre
        rw [List.cons_append, ← hu, pieces_delim hd] at h
        cases h
      · refine ⟨hpre, ih ?_⟩
        rw [List.cons_append, pieces_cons hpre] at h
        cases hrest : pieces d 0 (p ++ (d ++ t)) with
        | nil => exact absurd hrest pieces_ne_nil
        | cons q qs =>
          rw [hrest, consHead] at h
          rw [List.head?_cons, (List.cons.inj (Option.some.inj h)).2]
  · intro h
    rw [pieces_append hd h, List.head?_cons]

theorem head_pieces_self (hd : d ≠ []) : (pieces d 0 s).head? = some s ↔ ¬d <:+: s := by
  constructor
  · intro h hinf
    rcases pieces_cases hd s with ⟨hno, -⟩ | ⟨p, t, rfl, hs⟩
    · exact hno hinf
    · rw [hs] at h
      have hlen := congrArg List.length (Option.some.inj h)
      have hpos := List.length_pos_of_ne_nil hd
      simp only [List.length_append] at hlen
      omega
  · intro h
    rw [pieces_whole h, List.head?_cons]

omit [DecidableEq α] in
theorem not_infix_of_skips (hd : d ≠ []) (h : Skips d p t) : ¬d <:+: p := by
  rintro ⟨a, b, rfl⟩
  obtain ⟨c, d, rfl⟩ := List.exists_cons_of_ne_nil hd
  rw [List.append_assoc, skips_append, skips_append] at h
  exact h.2.1.1 (List.prefix_append (c :: d) _)

omit [DecidableEq α] in
/-- Before a delimiter of equal characters no occurrence starts early if the text has none and
does not end in that character. -/
theorem skips_replicate_iff {k : ℕ} {q : α} :
    Skips (List.replicate (k + 1) q) p (List.replicate (k + 1) q ++ t) ↔
      ¬List.replicate (k + 1) q <:+: p ∧ p.getLast? ≠ some q := by
  constructor
  · intro h
    refine ⟨not_infix_of_skips (by simp) h, fun hlast => ?_⟩
    obtain ⟨a, rfl⟩ := List.getLast?_eq_some_iff.1 hlast
    rw [skips_append] at h
    have hswap : q :: List.replicate (k + 1) q = List.replicate (k + 1) q ++ [q] := by
      rw [← List.replicate_succ, List.replicate_succ']
    refine h.2.1 ⟨q :: t, ?_⟩
    rw [List.nil_append, ← List.cons_append, hswap, List.append_assoc, List.singleton_append]
  · rintro ⟨hinf, hlast⟩
    induction p with
    | nil => trivial
    | cons c p ih =>
      refine ⟨fun hpre => ?_, ih (fun h => hinf (h.trans (List.suffix_cons c p).isInfix)) ?_⟩
      · rcases List.prefix_or_prefix_of_prefix hpre (List.prefix_append (c :: p) _) with h | h
        · exact hinf h.isInfix
        · -- the text is in the delimiter, so it is made of that character
          refine hlast ?_
          have hmem := h.subset (List.getLast_mem (List.cons_ne_nil c p))
          rw [List.getLast?_eq_some_getLast (List.cons_ne_nil c p), List.eq_of_mem_replicate hmem]
      · intro h
        refine hlast ?_
        rw [List.getLast?_cons, h]
        rfl

end Split

/-! ### Taking characters off the ends -/

/-- Java's `trim`. -/
def trim (s : List Char) : List Char :=
  (s.dropWhile (· ≤ ' ')).rdropWhile (· ≤ ' ')

/-- Nothing is left of the text, or the one line terminator that `$` matches before. -/
def AtEnd (s : List Char) : Prop :=
  s ∈ [[], ['\n'], ['\r', '\n'], ['\r'], ['\u0085'], ['\u2028'], ['\u2029']]

instance (s : List Char) : Decidable (AtEnd s) := inferInstanceAs (Decidable (_ ∈ _))

/-- `replaceAll` of `q$` by nothing. -/
def removeLast (q : Char) : List Char → List Char
  | [] => []
  | c :: s => if c = q ∧ AtEnd s then s else c :: removeLast q s

/-- `replaceAll` of `^q|q$` by nothing. -/
def replaceOuter (q : Char) : List Char → List Char
  | [] => []
  | c :: s => if c = q then removeLast q s else removeLast q (c :: s)

/-- `replaceAll` of `q` by nothing. -/
def remove (q : Char) (s : List Char) : List Char := s.filter (· ≠ q)

section Ends
variable {q : Char} {a b s : List Char}

@[simp] theorem remove_append : remove q (a ++ b) = remove q a ++ remove q b :=
  List.filter_append ..

@[simp] theorem remove_cons_self : remove q (q :: s) = remove q s :=
  List.filter_cons_of_neg (by simp)

theorem remove_self (h : q ∉ s) : remove q s = s := by
  rw [remove, List.filter_eq_self]
  intro c hc
  exact decide_eq_true fun hq => h (hq ▸ hc)

/-- What comes before a character that is kept stays. -/
theorem trim_append (hhead : ∀ c ∈ a.head?, ¬c ≤ ' ') (hlast : ∀ c ∈ a.getLast?, ¬c ≤ ' ')
    (ha : a ≠ []) : trim (a ++ b) = a ++ b.rdropWhile (· ≤ ' ') := by
  obtain ⟨c, a', rfl⟩ := List.exists_cons_of_ne_nil ha
  have hdrop : (c :: (a' ++ b)).dropWhile (· ≤ ' ') = c :: (a' ++ b) :=
    List.dropWhile_cons_of_neg (by simpa using hhead c rfl)
  rw [trim, List.cons_append, hdrop, ← List.cons_append]
  apply rdropWhile_append_of_last
  intro x hx
  simpa using hlast x hx

/-- Text with no character to take off. -/
theorem trim_self (hhead : ∀ c ∈ s.head?, ¬c ≤ ' ') (hlast : ∀ c ∈ s.getLast?, ¬c ≤ ' ') :
    trim s = s := by
  by_cases hs : s = []
  · rw [hs]
    rfl
  · simpa using trim_append (b := []) hhead hlast hs

theorem not_atEnd (hq : q ∉ ['\n', '\r', '\u0085', '\u2028', '\u2029']) (h : q ∈ s) :
    ¬AtEnd s := by
  intro hend
  simp only [AtEnd, List.mem_cons, List.not_mem_nil, or_false] at hend hq
  rcases hend with rfl | rfl | rfl | rfl | rfl | rfl | rfl <;> simp_all

/-- What comes before another `q` stays. -/
theorem removeLast_append (hq : q ∉ ['\n', '\r', '\u0085', '\u2028', '\u2029']) (h : q ∈ b) :
    removeLast q (a ++ b) = a ++ removeLast q b := by
  induction a with
  | nil => rfl
  | cons c a ih =>
    have hno : ¬AtEnd (a ++ b) := not_atEnd hq (List.mem_append_right a h)
    rw [List.cons_append, removeLast, if_neg fun hc => hno hc.2, ih, List.cons_append]

end Ends

/-! ### Whole numbers -/

/-- `Integer.toString` and `Long.toString`. -/
def ofInt (n : ℤ) : List Char := (if n < 0 then ['-'] else []) ++ Nat.toDigits 10 n.natAbs

def unsigned (s : List Char) : Option ℤ :=
  if s ≠ [] ∧ s.all Char.isDigit then some (Nat.ofDigitChars 10 s 0 : ℕ) else none

/-- `Long.parseLong`, of ASCII text in range. -/
def toInt : List Char → Option ℤ
  | '-' :: s => (unsigned s).map fun n => -n
  | '+' :: s => unsigned s
  | s => unsigned s

section Int
variable {m n : ℤ} {k : ℕ} {c : Char}

theorem isDigit_of_mem (h : c ∈ Nat.toDigits 10 k) : c.isDigit = true :=
  Nat.isDigit_of_mem_toDigits (by decide) (by decide) h

theorem unsigned_toDigits (k : ℕ) : unsigned (Nat.toDigits 10 k) = some (k : ℤ) := by
  have hall : (Nat.toDigits 10 k).all Char.isDigit = true :=
    List.all_eq_true.2 fun c hc => isDigit_of_mem hc
  rw [unsigned, if_pos ⟨Nat.toDigits_ne_nil, hall⟩, Nat.ofDigitChars_ten_toDigits]

theorem toInt_ofInt (n : ℤ) : toInt (ofInt n) = some n := by
  unfold ofInt
  split
  · rw [List.singleton_append, toInt, unsigned_toDigits, Option.map_some]
    congr 1
    omega
  · have hsign : ∀ c s, Nat.toDigits 10 n.natAbs = c :: s → c.isDigit = true :=
      fun c s hs => isDigit_of_mem (hs ▸ List.mem_cons_self)
    rw [List.nil_append, toInt]
    · rw [unsigned_toDigits]
      congr 1
      omega
    · intro s hs
      simpa using hsign '-' s hs
    · intro s hs
      simpa using hsign '+' s hs

theorem ofInt_injective (h : ofInt m = ofInt n) : m = n :=
  Option.some.inj (by rw [← toInt_ofInt m, h, toInt_ofInt])

theorem ofInt_ne_nil (n : ℤ) : ofInt n ≠ [] := by
  simp [ofInt, Nat.toDigits_ne_nil]

theorem not_mem_ofInt (hc : c.isDigit = false) (hm : c ≠ '-') : c ∉ ofInt n := by
  unfold ofInt
  rw [List.mem_append, not_or]
  constructor
  · split <;> simp [hm]
  · intro hmem
    rw [isDigit_of_mem hmem] at hc
    cases hc

end Int

end Text

end AtomComm
