import AtomComm.Spec.Embeds

/-! The texts of embeds. What is fitted to a column stands in it between blanks, and a format
whose only specifier in front is the `%s` of the number prints what precedes it, the number,
and the rest as the rest is printed with no argument left. -/

namespace AtomComm
open StringUtils

section Columns
variable {s : String} {n : ℕ} {p : Char → Bool} {c : Char}

@[simp] theorem toList_spaces (n : ℕ) : (spaces n).toList = List.replicate n ' ' := by
  simp [spaces]

theorem center_eq (s : String) (n : ℕ) : ∃ a b, center s n = spaces a ++ (s ++ spaces b) := by
  unfold center rightPad leftPad
  split
  · exact ⟨0, 0, by simp [← String.toList_inj]⟩
  · exact ⟨_, _, String.append_assoc⟩

theorem length_center (s : String) (n : ℕ) : (center s n).length = max s.length n := by
  unfold center rightPad leftPad
  split
  · omega
  · simp [spaces]
    omega

theorem length_right (s : String) (n : ℕ) : (right s n).length = min s.length n := by
  unfold right
  split
  · omega
  · rw [String.length_ofList, List.length_drop, String.length_toList]
    omega

theorem not_mem_center (hc : c ≠ ' ') : c ∉ (center s n).toList ↔ c ∉ s.toList := by
  obtain ⟨a, b, h⟩ := center_eq s n
  simp [h, List.mem_replicate, hc]

/-- A text in its column. -/
theorem laid_center : Format.Laid [s.toList] (center s n).toList := by
  obtain ⟨a, b, h⟩ := center_eq s n
  have hblank : ∀ k, Format.Laid [] (spaces k).toList := fun k =>
    Format.laid_plain (by simp [List.countP_replicate, Format.special])
  rw [h, String.toList_append, String.toList_append]
  exact (hblank a).append ((Format.laid_self _).append (hblank b))

/-- The number of a line. -/
theorem laid_number (j : ℕ) : Format.Laid [] (left (toString j) n).toList := by
  have hdigit : ∀ c ∈ (toString j).toList, ¬Format.special c = true := by
    intro c hc
    have hd : c.isDigit = true := Text.isDigit_of_mem (k := j) (by simpa using hc)
    intro hs
    simp only [Format.special, Bool.or_eq_true, decide_eq_true_eq] at hs
    rcases hs with (rfl | rfl) | rfl <;> cases hd
  apply Format.laid_plain
  rw [List.countP_eq_zero]
  unfold left
  split
  · exact hdigit
  · intro c hc
    rw [String.toList_ofList] at hc
    exact hdigit c (List.mem_of_mem_take hc)

/-- Lines one after the other. -/
theorem laid_join {α : Type} {cells : α → List (List Char)} {xs : List α} {f : ℕ → α → String}
    (h : ∀ i x, Format.Laid (cells x) (f i x).toList) :
    Format.Laid (xs.flatMap cells) (String.join (xs.mapIdx f)).toList := by
  induction xs generalizing f with
  | nil => exact Format.laid_plain rfl
  | cons x xs ih =>
    rw [List.mapIdx_cons, String.join_cons, String.toList_append, List.flatMap_cons]
    exact (h 0 x).append (ih fun i y => h (i + 1) y)

end Columns

section Formats
variable {fmt : Formatter} {pre rest : String} {n : ℤ}

theorem Formatter.format_number (h : '%' ∉ pre.toList) :
    fmt.format (pre ++ "%s" ++ rest) [n] =
      (Format.run fmt.print [n] none ⟨1, some 0⟩ rest.toList).map fun out =>
        pre ++ String.ofList (Text.ofInt n) ++ String.ofList out := by
  have htext : (pre ++ "%s" ++ rest).toList = pre.toList ++ ('%' :: 's' :: rest.toList) := by simp
  have harg : (Format.Spec.plain 's').argument [n] ⟨0, none⟩ = some (some n, ⟨1, some 0⟩) := rfl
  rw [Formatter.format, Format.format, htext, Format.run_append h, Format.run_spec (.inl rfl), harg]
  simp only [Option.bind_some, fmt.print_string, Option.map_map]
  congr 1
  funext out
  simp [← String.toList_inj]

/-- Text without a `%` after the number is printed as it stands. -/
theorem Formatter.format_text {mid : String} (hpre : '%' ∉ pre.toList) (hmid : '%' ∉ mid.toList) :
    fmt.format (pre ++ "%s" ++ (mid ++ rest)) [n] =
      (Format.run fmt.print [n] none ⟨1, some 0⟩ rest.toList).map fun out =>
        pre ++ String.ofList (Text.ofInt n) ++ mid ++ String.ofList out := by
  rw [Formatter.format_number hpre, String.toList_append, Format.run_append hmid, Option.map_map]
  refine congrArg (fun f => Option.map f _) (funext fun out => ?_)
  simp only [Function.comp, String.ofList_append, String.ofList_toList, String.append_assoc]

end Formats

/-! ### The table of twenty names -/

theorem mapM_eq_some {α β : Type} {f : α → Option β} {xs : List α} {ys : List β} :
    xs.mapM f = some ys ↔ ys.map some = xs.map f := by
  induction xs generalizing ys with
  | nil => cases ys <;> simp
  | cons x xs ih =>
    rw [List.mapM_cons]
    cases hx : f x with
    | none => cases ys <;> simp [hx]
    | some y =>
      cases hrest : xs.mapM f with
      | none =>
        have hno : ∀ zs : List β, zs.map some ≠ xs.map f := fun zs hzs => by
          rw [ih.2 hzs] at hrest
          cases hrest
        cases ys with
        | nil => simp
        | cons z zs => simpa [hx] using fun _ => hno zs
      | some zs =>
        have hzs := ih.1 hrest
        cases ys with
        | nil => simp
        | cons z ys =>
          have hinj : ys.map some = zs.map some ↔ zs = ys :=
            (List.map_inj_right fun _ _ => Option.some.inj).trans eq_comm
          rw [List.map_cons, List.map_cons, hx, ← hzs, List.cons.injEq, hinj]
          simp [eq_comm]

theorem mapM_some {α β : Type} {f : α → Option β} {k : α → β} {xs : List α}
    (h : ∀ x ∈ xs, f x = some (k x)) : xs.mapM f = some (xs.map k) := by
  rw [mapM_eq_some, List.map_map]
  exact List.map_congr_left fun x hx => (h x hx).symm

section Names
variable {names statuses : List String}

theorem getElem?_leftAndRight {α : Type} (xs : List α) (i : ℕ) :
    (leftAndRight xs).1[i]? = xs[2 * i]? ∧ (leftAndRight xs).2[i]? = xs[2 * i + 1]? := by
  induction xs generalizing i with
  | nil => simp [leftAndRight]
  | cons x xs ih =>
    cases i with
    | zero => simpa [leftAndRight] using (ih 0).1
    | succ i =>
      obtain ⟨-, hright⟩ := ih i
      obtain ⟨hleft, -⟩ := ih (i + 1)
      rw [leftAndRight, List.getElem?_cons_succ, hright, hleft]
      exact ⟨rfl, rfl⟩

/-- The names and the mark of a row. -/
def rowCells (names statuses : List String) (i : ℕ) : List (List Char) :=
  [(names.getD (2 * i) "").toList,
    (errorMark (statuses.getD (2 * i) "") (statuses.getD (2 * i + 1) "")).toList,
    (names.getD (2 * i + 1) "").toList]

/-- What the table of twenty names shows. -/
def namesCells (names statuses : List String) : List (List Char) :=
  (List.range 10).flatMap (rowCells names statuses)

/-- A row of the table. -/
def namesRow (names statuses : List String) (i : ℕ) : String :=
  center (names.getD (2 * i) "") 16 ++
    errorMark (statuses.getD (2 * i) "") (statuses.getD (2 * i + 1) "") ++
      center (names.getD (2 * i + 1) "") 16 ++ "\n"

theorem namesRows_eq (hn : 20 ≤ names.length) (hs : 20 ≤ statuses.length) :
    namesRows (leftAndRight names).1 (leftAndRight statuses).1 (leftAndRight names).2
      (leftAndRight statuses).2 = some ((List.range 10).map (namesRow names statuses)) := by
  unfold namesRows
  apply mapM_some
  intro i hi
  rw [List.mem_range] at hi
  have hget : ∀ (xs : List String) (k : ℕ), k < 20 → 20 ≤ xs.length → xs[k]? = some (xs.getD k "") := by
    intro xs k hk hlen
    rw [List.getElem?_eq_getElem (by omega), List.getD_eq_getElem?_getD,
      List.getElem?_eq_getElem (by omega), Option.getD_some]
  simp only [(getElem?_leftAndRight _ i).1, (getElem?_leftAndRight _ i).2,
    hget names (2 * i) (by omega) hn, hget names (2 * i + 1) (by omega) hn,
    hget statuses (2 * i) (by omega) hs, hget statuses (2 * i + 1) (by omega) hs]
  rfl

theorem laid_namesRow (i : ℕ) :
    Format.Laid (rowCells names statuses i) (namesRow names statuses i).toList := by
  have hend : Format.Laid [] "\n".toList := Format.laid_plain rfl
  have hrow := (laid_center (s := names.getD (2 * i) "") (n := 16)).append
    ((Format.laid_self (errorMark (statuses.getD (2 * i) "") (statuses.getD (2 * i + 1) "")).toList).append
      ((laid_center (s := names.getD (2 * i + 1) "") (n := 16)).append hend))
  simpa [namesRow, rowCells] using hrow

theorem laid_namesContent (hn : 20 ≤ names.length) (hs : 20 ≤ statuses.length) :
    ∃ content, namesContent names statuses = some content ∧
      Format.Laid (namesCells names statuses) content.toList := by
  refine ⟨_, congrArg (Option.map _) (namesRows_eq hn hs), ?_⟩
  have hrows : Format.Laid (namesCells names statuses)
      (String.join ((List.range 10).mapIdx fun _ i => namesRow names statuses i)).toList :=
    laid_join fun _ i => laid_namesRow i
  have hhead : Format.Laid [] namesHeader.toList := Format.laid_plain (by decide)
  have hend : Format.Laid [] "```".toList := Format.laid_plain rfl
  have htable := (hhead.append hrows).append hend
  have hrange : (List.range 10).mapIdx (fun _ i => namesRow names statuses i) =
      (List.range 10).map (namesRow names statuses) := rfl
  rw [List.nil_append, List.append_nil, hrange] at htable
  simpa [namesCells] using htable

theorem errorMark_clean (ls rs : String) : '%' ∉ (errorMark ls rs).toList := by
  unfold errorMark
  split
  · decide
  · split
    · decide
    · split <;> decide

/-- The marks have no `%`. -/
theorem forall_namesCells (hn : 20 ≤ names.length) :
    (∀ t ∈ namesCells names statuses, '%' ∉ t) ↔ ∀ name ∈ names.take 20, '%' ∉ name.toList := by
  have hget : ∀ k < 20, names.getD k "" ∈ names.take 20 := by
    intro k hk
    rw [List.getD_eq_getElem?_getD, List.getElem?_eq_getElem (by omega), Option.getD_some]
    exact List.mem_take_iff_getElem.2 ⟨k, by omega, rfl⟩
  constructor
  · intro h name hname
    obtain ⟨k, hk, rfl⟩ := List.mem_take_iff_getElem.1 hname
    have hcell : names[k].toList ∈ namesCells names statuses := by
      refine List.mem_flatMap.2 ⟨k / 2, List.mem_range.2 (by omega), ?_⟩
      rcases Nat.mod_two_eq_zero_or_one k with h0 | h1
      · have hk2 : 2 * (k / 2) = k := by omega
        simp [rowCells, hk2, List.getElem?_eq_getElem (show k < names.length by omega)]
      · have hk2 : 2 * (k / 2) + 1 = k := by omega
        simp [rowCells, hk2, List.getElem?_eq_getElem (show k < names.length by omega)]
    exact h _ hcell
  · intro h t ht
    obtain ⟨i, hi, ht⟩ := List.mem_flatMap.1 ht
    rw [List.mem_range] at hi
    simp only [rowCells, List.mem_cons, List.not_mem_nil, or_false] at ht
    rcases ht with rfl | rfl | rfl
    · exact h _ (hget _ (by omega))
    · exact errorMark_clean _ _
    · exact h _ (hget _ (by omega))

end Names

/-! ### Formatted tables -/

/-- An embed whose description is a head and a formatted table shows the cells of the table if
and only if none of them has a `%`. -/
theorem embed_shown {fmt : Formatter} {title head table : String} {footer : Option String}
    {args : List ℤ} {cur : Format.Cursor} {ts : List (List Char)}
    (hcur : args.length ≤ cur.ordinary) (h : Format.Laid ts table.toList) :
    (∃ text, ((Format.run fmt.print args none cur table.toList).map fun out =>
        (⟨title, head ++ String.ofList out, footer⟩ : MessageEmbed)) =
          some ⟨title, head ++ text, footer⟩ ∧ Format.InOrder ts text.toList) ↔
      ∀ t ∈ ts, '%' ∉ t := by
  rw [← Format.shown_iff fmt.sparse hcur h]
  constructor
  · rintro ⟨text, hpage, hin⟩
    obtain ⟨out, hout, htext⟩ := Option.map_eq_some_iff.1 hpage
    have hdesc := congrArg String.toList (MessageEmbed.mk.inj htext).2.1
    rw [String.toList_append, String.toList_append, String.toList_ofList] at hdesc
    rw [← List.append_cancel_left hdesc] at hin
    exact ⟨out, hout, hin⟩
  · rintro ⟨out, hout, hin⟩
    exact ⟨String.ofList out, by rw [hout, Option.map_some], by rwa [String.toList_ofList]⟩

/-! ### A formatter -/

theorem countP_ofInt (n : ℤ) : (Text.ofInt n).countP Format.special = 0 := by
  apply List.countP_eq_zero.2
  intro c hc hs
  simp only [Format.special, Bool.or_eq_true, decide_eq_true_eq] at hs
  rcases hs with (rfl | rfl) | rfl <;> exact Text.not_mem_ofInt rfl (by decide) hc

/-- Prints the conversions `s`, `n` and `%`, without flags or width. -/
def Formatter.plain : Formatter where
  print spec a :=
    if spec = .plain 's' then a.map Text.ofInt
    else if spec = .plain 'n' then some ['\n']
    else if spec = .plain '%' then some ['%']
    else none
  print_string _ := if_pos rfl
  sparse := by
    have hspec : ∀ (spec : Format.Spec) (a : Option ℤ) (s : List Char),
        (if spec = .plain 's' then a.map Text.ofInt
          else if spec = .plain 'n' then some ['\n']
          else if spec = .plain '%' then some ['%']
          else none) = some s →
        s.countP Format.special = 0 ∨ spec = .plain '%' ∧ s = ['%'] := by
      intro spec a s h
      split at h
      · obtain ⟨n, -, rfl⟩ := Option.map_eq_some_iff.1 h
        exact .inl (countP_ofInt n)
      · split at h
        · cases h
          exact .inl rfl
        · split at h
          · cases h
            exact .inr ⟨‹_›, rfl⟩
          · cases h
    constructor
    · intro spec a s h
      rcases hspec spec a s h with hs | ⟨-, rfl⟩
      · omega
      · exact Nat.le_refl 1
    · intro spec a s hn h
      rcases hspec spec a s h with hs | ⟨rfl, -⟩
      · exact hs
      · cases hn

end AtomComm
