import AtomComm.Lib.EditDistance
import AtomComm.Sanity.Wagner

/-! On text the loops of `editDist3Core` stop at characters, and each update of the matrix puts a
piece of the one text in place of a piece of the other, by a default cost or by an entry of the
table. -/

namespace AtomComm.Spellfix

open EditDistance Relax Utf8

/-- A row of the cost table, both texts without NUL. -/
structure Entry where
  cFrom : List Char
  cTo : List Char
  iCost : ℕ
  fromText : ∀ a ∈ cFrom, a.toNat ≠ 0
  toText : ∀ a ∈ cTo, a.toNat ≠ 0

def Entry.toCost (e : Entry) : EditDist3Cost := ⟨bytes e.cFrom, bytes e.cTo, e.iCost⟩

/-- What one update of the matrix does to the text. -/
inductive Rule (pLang : EditDist3Lang) (entries : List Entry) : List Char → List Char → ℕ → Prop
  | delete (a : Char) (h : pLang.iDelCost < 10000) : Rule pLang entries [a] [] pLang.iDelCost
  | insert (b : Char) (h : pLang.iInsCost < 10000) : Rule pLang entries [] [b] pLang.iInsCost
  | same (a : Char) : Rule pLang entries [a] [a] 0
  | substitute (a b : Char) (h : pLang.iSubCost < 10000) :
      Rule pLang entries [a] [b] pLang.iSubCost
  | entry (e : Entry) (he : e ∈ entries) (h : e.iCost < 10000) :
      Rule pLang entries e.cFrom e.cTo e.iCost

/-! ### Characters in bytes -/

def lead (a : Char) : UInt8 := (String.utf8EncodeChar a).head (encode_ne_nil a)

theorem utf8Len_eq_min (c : UInt8) (N : ℕ) : utf8Len c N = min (utf8Len c 4) N := by
  unfold utf8Len
  dsimp only
  split
  · split
    · omega
    · split <;> omega
  · omega

/-- The first byte of a character tells its length. -/
theorem utf8Len_lead (a : Char) : utf8Len (lead a) 4 = (String.utf8EncodeChar a).length := by
  have hone : ∀ n < 128, utf8Len (UInt8.ofNat n) 4 = 1 := by decide
  have htwo : ∀ b < 32, utf8Len (UInt8.ofNat (b + 0xc0)) 4 = 2 := by decide
  have hthree : ∀ b < 16, utf8Len (UInt8.ofNat (b + 0xe0)) 4 = 3 := by decide
  have hfour : ∀ b < 8, utf8Len (UInt8.ofNat (b + 0xf0)) 4 = 4 := by decide
  rcases encode_cases a with ⟨ha, he⟩ | ⟨-, b, hb, t, -, he⟩ | ⟨-, b, hb, t, -, u, -, he⟩ |
    ⟨-, b, hb, t, -, u, -, v, -, he⟩
  · simp only [lead, he, List.head_cons, List.length_cons, List.length_nil, hone _ ha]
  · simp only [lead, he, List.head_cons, List.length_cons, List.length_nil, htwo _ hb]
  · simp only [lead, he, List.head_cons, List.length_cons, List.length_nil, hthree _ hb]
  · simp only [lead, he, List.head_cons, List.length_cons, List.length_nil, hfour _ hb]

theorem utf8Len_text (u : List Char) (a : Char) (v : List Char) :
    utf8Len (lead a) ((bytes (u ++ a :: v)).length - (bytes u).length) =
      (String.utf8EncodeChar a).length := by
  rw [utf8Len_eq_min, utf8Len_lead, bytes_append, bytes_cons, List.length_append,
    List.length_append]
  omega

theorem bytes_getElem? (u : List Char) (a : Char) (v : List Char) :
    (bytes (u ++ a :: v))[(bytes u).length]? = some (lead a) := by
  rw [bytes_append, List.getElem?_append_right le_rfl, Nat.sub_self, bytes_cons,
    List.getElem?_append_left (List.length_pos_of_ne_nil (encode_ne_nil a)), lead,
    ← List.head?_eq_getElem?, List.head?_eq_some_head]

theorem bytes_drop (u v : List Char) : (bytes (u ++ v)).drop (bytes u).length = bytes v := by
  rw [bytes_append, List.drop_left]

/-- Of the beginnings of a text the bytes are as many only if it is the same one. -/
theorem prefix_eq {u u' cs : List Char} (h : u <+: cs) (h' : u' <+: cs)
    (hlen : (bytes u).length = (bytes u').length) : u = u' := by
  have hstart : ∀ {u u' : List Char}, u <+: u' → (bytes u).length = (bytes u').length → u = u' :=
    fun hu hlen => bytes_injective ((bytes_prefix_iff.2 hu).eq_of_length hlen)
  rcases List.prefix_or_prefix_of_prefix h h' with hu | hu
  · exact hstart hu hlen
  · exact (hstart hu hlen.symm).symm

theorem strncmpEq_iff {s t : List UInt8} (h0 : (0 : UInt8) ∉ s) :
    strncmpEq s t s.length = true ↔ s <+: t := by
  induction s generalizing t with
  | nil => simp [strncmpEq]
  | cons a s ih =>
    have ha : a ≠ 0 := fun h => h0 (h ▸ List.mem_cons_self)
    cases t with
    | nil => simp [strncmpEq]
    | cons b t =>
      have hrest := ih (t := t) fun h => h0 (List.mem_cons_of_mem a h)
      simp only [List.length_cons, strncmpEq, ha, decide_false, Bool.false_or, Bool.and_eq_true,
        decide_eq_true_eq, hrest, List.cons_prefix_cons]

theorem strncmpEq_bytes {s t : List Char} (h0 : ∀ a ∈ s, a.toNat ≠ 0) :
    strncmpEq (bytes s) (bytes t) (bytes s).length = true ↔ s <+: t := by
  rw [strncmpEq_iff, bytes_prefix_iff]
  intro hmem
  obtain ⟨a, ha, hzero⟩ := (mem_bytes (by decide)).1 hmem
  exact h0 a ha hzero

theorem matchTo_text (e : Entry) (w : List Char) :
    matchTo e.toCost (bytes w) = true ↔ e.cTo <+: w := by
  rw [matchTo, Bool.and_eq_true, decide_eq_true_eq]
  refine ⟨fun h => (strncmpEq_bytes e.toText).1 h.2, fun h => ⟨?_, ?_⟩⟩
  · exact (bytes_prefix_iff.2 h).length_le
  · exact (strncmpEq_bytes e.toText).2 h

theorem matchFrom_text (e : Entry) (w : List Char) :
    matchFrom e.toCost (bytes w) = true ↔ e.cFrom <+: w := strncmpEq_bytes e.fromText

theorem bytes_length_eq_zero {s : List Char} : (bytes s).length = 0 ↔ s = [] := by
  refine ⟨fun h => ?_, fun h => h ▸ rfl⟩
  have hle := length_le_bytes s
  exact List.length_eq_zero_iff.1 (by omega)

/-! ### The stops of a loop over a text -/

theorem mem_stops_text {α : Type} {nByte : α → ℕ} {g : ℕ → UInt8 → α} {cs : List Char}
    (hg : ∀ i c, nByte (g i c) = utf8Len c ((bytes cs).length - i)) {s : ℕ × α} :
    s ∈ stops nByte ((bytes cs).mapIdx g) (bytes cs).length 0 ↔
      ∃ u a v, cs = u ++ a :: v ∧ s = ((bytes u).length, g (bytes u).length (lead a)) := by
  -- from the end of `u` on, with fuel for the rest
  have hloop : ∀ (v u : List Char) (fuel : ℕ), cs = u ++ v → (bytes v).length ≤ fuel →
      (s ∈ stops nByte ((bytes cs).mapIdx g) fuel (bytes u).length ↔ ∃ w a v', v = w ++ a :: v' ∧
        s = ((bytes (u ++ w)).length, g (bytes (u ++ w)).length (lead a))) := by
    intro v
    induction v with
    | nil =>
      intro u fuel hcs _
      have hend : ((bytes cs).mapIdx g)[(bytes u).length]? = none := by
        rw [hcs, List.append_nil, List.getElem?_eq_none]
        rw [List.length_mapIdx]
      cases fuel <;> simp [stops, hend]
    | cons a v ih =>
      intro u fuel hcs hfuel
      have hpos := List.length_pos_of_ne_nil (encode_ne_nil a)
      rw [bytes_cons, List.length_append] at hfuel
      obtain ⟨fuel, rfl⟩ := Nat.exists_eq_succ_of_ne_zero (n := fuel) (by omega)
      have hhere : ((bytes cs).mapIdx g)[(bytes u).length]? =
          some (g (bytes u).length (lead a)) := by
        rw [List.getElem?_mapIdx, hcs, bytes_getElem?]
        rfl
      have hnext : (bytes u).length + nByte (g (bytes u).length (lead a)) =
          (bytes (u ++ [a])).length := by
        rw [hg, hcs, utf8Len_text]
        simp
      have hcs' : cs = (u ++ [a]) ++ v := by rw [hcs, List.append_assoc, List.singleton_append]
      rw [stops, hhere]
      dsimp only
      rw [hnext, List.mem_cons, ih (u ++ [a]) fuel hcs' (by omega)]
      constructor
      · rintro (rfl | ⟨w, b, v', rfl, rfl⟩)
        · exact ⟨[], a, v, rfl, by rw [List.append_nil]⟩
        · exact ⟨a :: w, b, v', rfl, by rw [List.append_assoc, List.singleton_append]⟩
      · rintro ⟨w, b, v', hv, rfl⟩
        cases w with
        | nil =>
          obtain ⟨rfl, rfl⟩ := List.cons.inj hv
          exact .inl (by rw [List.append_nil])
        | cons a' w =>
          obtain ⟨rfl, hrest⟩ := List.cons.inj hv
          exact .inr ⟨w, b, v', hrest, by rw [List.append_assoc, List.singleton_append]⟩
  have hall := hloop cs [] (bytes cs).length rfl le_rfl
  simpa only [List.nil_append, bytes_nil, List.length_nil] using hall

/-! ### Two texts and a table -/

/-- A FROM string that is a text, and a language whose table is one. -/
structure Texts (pLang : EditDist3Lang) (entries : List Entry) (f : EditDist3FromString)
    (cs : List Char) : Prop where
  table : pLang.pCost = entries.map Entry.toCost
  z : f.z = bytes cs
  a : f.a = (bytes cs).mapIdx (editDist3From pLang (bytes cs))

/-- The cell where the beginnings `u` and `v` of the texts are dealt with. -/
def cell (u v : List Char) : Cell := ((bytes v).length, (bytes u).length)

section
variable {pLang : EditDist3Lang} {entries : List Entry} {f : EditDist3FromString}
  {cs ds u v w : List Char} {a b : Char}

def fromAt (pLang : EditDist3Lang) (u : List Char) (a : Char) (w : List Char) : EditDist3From :=
  editDist3From pLang (bytes (u ++ a :: w)) (bytes u).length (lead a)

def toAt (pLang : EditDist3Lang) (v : List Char) (b : Char) (w : List Char) : EditDist3To :=
  editDist3To pLang (bytes (v ++ b :: w)) (bytes v).length (lead b)

theorem mem_fromStops_text (h : Texts pLang entries f cs) {s : ℕ × EditDist3From} :
    s ∈ fromStops f ↔ ∃ u a w, cs = u ++ a :: w ∧ s = ((bytes u).length, fromAt pLang u a w) := by
  rw [fromStops, EditDist3FromString.n, h.a, h.z, mem_stops_text fun _ _ => rfl]
  constructor
  · rintro ⟨u, a, w, rfl, rfl⟩
    exact ⟨u, a, w, rfl, rfl⟩
  · rintro ⟨u, a, w, rfl, rfl⟩
    exact ⟨u, a, w, rfl, rfl⟩

theorem mem_toStops_text {s : ℕ × EditDist3To} : s ∈ toStops pLang (bytes ds) ↔
    ∃ v b w, ds = v ++ b :: w ∧ s = ((bytes v).length, toAt pLang v b w) := by
  rw [toStops, mem_stops_text fun _ _ => rfl]
  constructor
  · rintro ⟨v, b, w, rfl, rfl⟩
    exact ⟨v, b, w, rfl, rfl⟩
  · rintro ⟨v, b, w, rfl, rfl⟩
    exact ⟨v, b, w, rfl, rfl⟩

theorem fromAt_nByte : (fromAt pLang u a w).nByte = (String.utf8EncodeChar a).length :=
  utf8Len_text u a w

theorem toAt_nByte : (toAt pLang v b w).nByte = (String.utf8EncodeChar b).length :=
  utf8Len_text v b w

/-- The entries of the table that a FROM text goes on with. -/
theorem found_text (h : pLang.pCost = entries.map Entry.toCost) {p : EditDist3Cost} :
    (p ∈ pLang.pCost.filter fun p => decide ((bytes u).length + p.aFrom.length ≤
      (bytes (u ++ w)).length) && matchFrom p ((bytes (u ++ w)).drop (bytes u).length)) ↔
    ∃ e ∈ entries, p = e.toCost ∧ e.cFrom <+: w := by
  rw [List.mem_filter, h, List.mem_map, bytes_drop]
  constructor
  · rintro ⟨⟨e, he, rfl⟩, hfound⟩
    rw [Bool.and_eq_true, matchFrom_text] at hfound
    exact ⟨e, he, rfl, hfound.2⟩
  · rintro ⟨e, he, rfl, hfound⟩
    refine ⟨⟨e, he, rfl⟩, ?_⟩
    rw [Bool.and_eq_true, matchFrom_text, decide_eq_true_eq, bytes_append, List.length_append]
    exact ⟨Nat.add_le_add_left (bytes_prefix_iff.2 hfound).length_le _, hfound⟩

theorem mem_apDel (h : pLang.pCost = entries.map Entry.toCost) {p : EditDist3Cost} :
    p ∈ (fromAt pLang u a w).apDel ↔
      ∃ e ∈ entries, p = e.toCost ∧ e.cFrom <+: a :: w ∧ e.cTo = [] := by
  rw [fromAt, editDist3From, List.mem_filter, found_text h, decide_eq_true_eq]
  constructor
  · rintro ⟨⟨e, he, rfl, hfound⟩, hto⟩
    exact ⟨e, he, rfl, hfound, bytes_length_eq_zero.1 hto⟩
  · rintro ⟨e, he, rfl, hfound, hto⟩
    exact ⟨⟨e, he, rfl, hfound⟩, bytes_length_eq_zero.2 hto⟩

theorem mem_apSubst (h : pLang.pCost = entries.map Entry.toCost) {p : EditDist3Cost} :
    p ∈ (fromAt pLang u a w).apSubst ↔
      ∃ e ∈ entries, p = e.toCost ∧ e.cFrom <+: a :: w ∧ e.cTo ≠ [] := by
  rw [fromAt, editDist3From, List.mem_filter, found_text h, decide_eq_true_eq]
  constructor
  · rintro ⟨⟨e, he, rfl, hfound⟩, hto⟩
    exact ⟨e, he, rfl, hfound, fun hnil => hto (bytes_length_eq_zero.2 hnil)⟩
  · rintro ⟨e, he, rfl, hfound, hto⟩
    exact ⟨⟨e, he, rfl, hfound⟩, fun hzero => hto (bytes_length_eq_zero.1 hzero)⟩

theorem mem_apIns (h : pLang.pCost = entries.map Entry.toCost) {p : EditDist3Cost} :
    p ∈ (toAt pLang v b w).apIns ↔
      ∃ e ∈ entries, p = e.toCost ∧ e.cFrom = [] ∧ e.cTo <+: b :: w := by
  rw [toAt, editDist3To, List.mem_filter, h, List.mem_map, bytes_drop]
  simp only [Bool.and_eq_true, decide_eq_true_eq]
  constructor
  · rintro ⟨⟨e, he, rfl⟩, ⟨hfrom, -⟩, hto⟩
    exact ⟨e, he, rfl, bytes_length_eq_zero.1 hfrom, (matchTo_text e _).1 hto⟩
  · rintro ⟨e, he, rfl, hfrom, hto⟩
    refine ⟨⟨e, he, rfl⟩, ⟨bytes_length_eq_zero.2 hfrom, ?_⟩, (matchTo_text e _).2 hto⟩
    rw [bytes_append, List.length_append]
    exact Nat.add_le_add_left (bytes_prefix_iff.2 hto).length_le _

theorem matchFromTo_text (h : f.z = bytes (u ++ a :: w)) (v : List Char) :
    matchFromTo f (bytes u).length (fromAt pLang u a w) (bytes (b :: v)) = true ↔ a = b := by
  have hlen : (fromAt pLang u a w).nByte = (String.utf8EncodeChar a).length := fromAt_nByte
  have htake : (bytes (a :: w)).take (String.utf8EncodeChar a).length = String.utf8EncodeChar a :=
    List.take_left
  rw [matchFromTo, Bool.and_eq_true, decide_eq_true_eq, decide_eq_true_eq, hlen, h, bytes_drop,
    htake]
  constructor
  · rintro ⟨-, hsame⟩
    have hsplit := List.take_append_drop (String.utf8EncodeChar a).length (bytes (b :: v))
    rw [← hsame, bytes_cons] at hsplit
    exact encode_eq_of_append hsplit
  · rintro rfl
    rw [bytes_cons, List.take_left, List.length_append]
    exact ⟨Nat.le_add_right _ _, rfl⟩

/-! ### Updates and rules -/

theorem cell_append (u s v t : List Char) : cell (u ++ s) (v ++ t) =
    ((bytes v).length + (bytes t).length, (bytes u).length + (bytes s).length) := by
  simp [cell]

/-- An update of the matrix: a piece of each text, the one in place of the other. -/
def IsRule (pLang : EditDist3Lang) (entries : List Entry) (cs ds : List Char) (e : Edge Cell) :
    Prop :=
  ∃ u s v t, u ++ s <+: cs ∧ v ++ t <+: ds ∧ Rule pLang entries s t e.cost ∧
    e.source = cell u v ∧ e.target = cell (u ++ s) (v ++ t)

theorem deletions_rule (h : Texts pLang entries f cs) (hcs : cs = u ++ a :: w) (hv : v <+: ds)
    {e : Edge Cell} (he : e ∈ deletions pLang (bytes v).length (bytes u).length
      (fromAt pLang u a w)) : IsRule pLang entries cs ds e := by
  rcases List.mem_append.1 he with he | he
  · obtain ⟨hcost, rfl⟩ := mem_edge.1 he
    refine ⟨u, [a], v, [], ⟨w, by simp [hcs]⟩, by simpa using hv, .delete a hcost, rfl, ?_⟩
    rw [cell_append, fromAt_nByte]
    simp
  · obtain ⟨p, hp, he⟩ := List.mem_flatMap.1 he
    obtain ⟨e, hentry, rfl, hfrom, hto⟩ := (mem_apDel h.table).1 hp
    obtain ⟨hcost, rfl⟩ := mem_edge.1 he
    refine ⟨u, e.cFrom, v, [], ?_, by simpa using hv, hto ▸ .entry e hentry hcost, rfl, ?_⟩
    · rw [hcs]
      exact (List.prefix_append_right_inj u).2 hfrom
    · rw [cell_append]
      rfl

theorem wagner_rule (h : Texts pLang entries f cs) {e : Edge Cell}
    (he : e ∈ wagner pLang f (bytes ds)) : IsRule pLang entries cs ds e := by
  obtain ⟨s, hs, he⟩ := List.mem_flatMap.1 he
  rcases List.mem_append.1 hs with hs | hs
  · obtain ⟨x, hx, rfl⟩ := List.mem_map.1 hs
    obtain ⟨u, a, w, hcs, rfl⟩ := (mem_fromStops_text h).1 hx
    exact deletions_rule (v := []) h hcs List.nil_prefix he
  obtain ⟨y, hy, hs⟩ := List.mem_flatMap.1 hs
  obtain ⟨v, b, w', hds, rfl⟩ := mem_toStops_text.1 hy
  have hvb : v ++ [b] <+: ds := ⟨w', by simp [hds]⟩
  rcases List.mem_cons.1 hs with rfl | hs
  · rcases List.mem_append.1 he with he | he
    · obtain ⟨hcost, rfl⟩ := mem_edge.1 he
      refine ⟨[], [], v, [b], List.nil_prefix, hvb, .insert b hcost, rfl, ?_⟩
      rw [cell_append, toAt_nByte]
      simp
    · obtain ⟨p, hp, he⟩ := List.mem_flatMap.1 he
      obtain ⟨e, hentry, rfl, hfrom, hto⟩ := (mem_apIns h.table).1 hp
      obtain ⟨hcost, rfl⟩ := mem_edge.1 he
      refine ⟨[], [], v, e.cTo, List.nil_prefix, ?_, hfrom ▸ .entry e hentry hcost, rfl, ?_⟩
      · rw [hds]
        exact (List.prefix_append_right_inj v).2 hto
      · rw [cell_append]
        rfl
  obtain ⟨x, hx, rfl⟩ := List.mem_map.1 hs
  obtain ⟨u, a, w, hcs, rfl⟩ := (mem_fromStops_text h).1 hx
  have hua : u ++ [a] <+: cs := ⟨w, by simp [hcs]⟩
  have hdiag : ((bytes v).length + (toAt pLang v b w').nByte,
      (bytes u).length + (fromAt pLang u a w).nByte) = cell (u ++ [a]) (v ++ [b]) := by
    rw [cell_append, fromAt_nByte, toAt_nByte]
    simp
  have hrow : (bytes v).length + (toAt pLang v b w').nByte = (bytes (v ++ [b])).length := by
    rw [toAt_nByte]
    simp
  rcases List.mem_append.1 he with he | he
  · dsimp only at he
    rw [hrow] at he
    exact deletions_rule h hcs hvb he
  rcases List.mem_append.1 he with he | he
  · obtain ⟨hcost, rfl⟩ := mem_edge.1 he
    refine ⟨u ++ [a], [], v, [b], by simpa using hua, hvb, .insert b hcost, ?_, ?_⟩
    · simp [cell, fromAt_nByte]
    · rw [List.append_nil]
      exact hdiag
  rcases List.mem_append.1 he with he | he
  · obtain ⟨hmatch, he⟩ := List.mem_ite_nil_right.1 he
    obtain ⟨-, rfl⟩ := mem_edge.1 he
    rw [hds, bytes_drop, matchFromTo_text (hcs ▸ h.z)] at hmatch
    subst hmatch
    exact ⟨u, [a], v, [a], hua, hvb, .same a, rfl, hdiag⟩
  rcases List.mem_append.1 he with he | he
  · obtain ⟨hcost, rfl⟩ := mem_edge.1 he
    exact ⟨u, [a], v, [b], hua, hvb, .substitute a b hcost, rfl, hdiag⟩
  · obtain ⟨p, hp, he⟩ := List.mem_flatMap.1 he
    obtain ⟨hmatch, he⟩ := List.mem_ite_nil_right.1 he
    obtain ⟨e, hentry, rfl, hfrom, -⟩ := (mem_apSubst h.table).1 hp
    obtain ⟨hcost, rfl⟩ := mem_edge.1 he
    rw [hds, bytes_drop, matchTo_text] at hmatch
    refine ⟨u, e.cFrom, v, e.cTo, ?_, ?_, .entry e hentry hcost, rfl, ?_⟩
    · rw [hcs]
      exact (List.prefix_append_right_inj u).2 hfrom
    · rw [hds]
      exact (List.prefix_append_right_inj v).2 hmatch
    · rw [cell_append]
      rfl

theorem mem_wagner_top (h : Texts pLang entries f cs) (hcs : cs = u ++ a :: w) {e : Edge Cell}
    (he : e ∈ deletions pLang 0 (bytes u).length (fromAt pLang u a w)) :
    e ∈ wagner pLang f (bytes ds) := by
  have hstop := (mem_fromStops_text h).2 ⟨u, a, w, hcs, rfl⟩
  exact List.mem_flatMap.2 ⟨_, List.mem_append_left _ (List.mem_map_of_mem hstop), he⟩

theorem mem_wagner_head (hds : ds = v ++ b :: w) {e : Edge Cell}
    (he : e ∈ updates pLang f (bytes ds) (.head (bytes v).length (toAt pLang v b w))) :
    e ∈ wagner pLang f (bytes ds) := by
  have hstop : ((bytes v).length, toAt pLang v b w) ∈ toStops pLang (bytes ds) :=
    mem_toStops_text.2 ⟨v, b, w, hds, rfl⟩
  exact List.mem_flatMap.2 ⟨_, List.mem_append_right _
    (List.mem_flatMap.2 ⟨_, hstop, List.mem_cons_self⟩), he⟩

theorem mem_wagner_cell (h : Texts pLang entries f cs) (hcs : cs = u ++ a :: w) {w' : List Char}
    (hds : ds = v ++ b :: w') {e : Edge Cell}
    (he : e ∈ updates pLang f (bytes ds)
      (.cell (bytes v).length (toAt pLang v b w') (bytes u).length (fromAt pLang u a w))) :
    e ∈ wagner pLang f (bytes ds) := by
  have hrow : ((bytes v).length, toAt pLang v b w') ∈ toStops pLang (bytes ds) :=
    mem_toStops_text.2 ⟨v, b, w', hds, rfl⟩
  have hcol := (mem_fromStops_text h).2 ⟨u, a, w, hcs, rfl⟩
  exact List.mem_flatMap.2 ⟨_, List.mem_append_right _
    (List.mem_flatMap.2 ⟨_, hrow, List.mem_cons_of_mem _ (List.mem_map_of_mem hcol)⟩), he⟩

/-- The deletions are made in every row. -/
theorem mem_wagner_deletions (h : Texts pLang entries f cs) (hcs : cs = u ++ a :: w)
    (hv : v <+: ds) {e : Edge Cell}
    (he : e ∈ deletions pLang (bytes v).length (bytes u).length (fromAt pLang u a w)) :
    e ∈ wagner pLang f (bytes ds) := by
  rcases List.eq_nil_or_concat v with rfl | ⟨v, b, rfl⟩
  · exact mem_wagner_top h hcs he
  · obtain ⟨w', hds⟩ := hv
    rw [List.concat_eq_append, List.append_assoc, List.singleton_append] at hds
    refine mem_wagner_cell h hcs hds.symm (List.mem_append_left _ ?_)
    rw [toAt_nByte]
    simpa using he

/-- Without insertions in the table, every rule is tried wherever it applies. -/
theorem rule_wagner (h : Texts pLang entries f cs) (hins : ∀ e ∈ entries, e.cFrom ≠ [])
    {s t : List Char} {c : ℕ} (hu : u ++ s <+: cs) (hv : v ++ t <+: ds)
    (hrule : Rule pLang entries s t c) :
    ⟨cell u v, cell (u ++ s) (v ++ t), c⟩ ∈ wagner pLang f (bytes ds) := by
  obtain ⟨w, hcs⟩ := hu
  obtain ⟨w', hds⟩ := hv
  rw [cell_append]
  cases hrule with
  | delete a hcost =>
    rw [List.append_assoc, List.singleton_append] at hcs
    rw [List.append_nil] at hds
    refine mem_wagner_deletions h hcs.symm ⟨w', hds⟩ (List.mem_append_left _ ?_)
    refine mem_edge.2 ⟨hcost, ?_⟩
    rw [fromAt_nByte]
    simp [cell]
  | insert b hcost =>
    rw [List.append_assoc, List.singleton_append] at hds
    rw [List.append_nil] at hcs
    rcases List.eq_nil_or_concat u with rfl | ⟨u, a, rfl⟩
    · refine mem_wagner_head hds.symm (List.mem_append_left _ (mem_edge.2 ⟨hcost, ?_⟩))
      rw [toAt_nByte]
      simp [cell]
    · rw [List.concat_eq_append, List.append_assoc, List.singleton_append] at hcs
      refine mem_wagner_cell h hcs.symm hds.symm (List.mem_append_right _
        (List.mem_append_left _ (mem_edge.2 ⟨hcost, ?_⟩)))
      rw [fromAt_nByte, toAt_nByte]
      simp [cell]
  | same a =>
    rw [List.append_assoc, List.singleton_append] at hcs hds
    refine mem_wagner_cell h hcs.symm hds.symm (List.mem_append_right _
      (List.mem_append_right _ (List.mem_append_left _ (List.mem_ite_nil_right.2 ⟨?_, ?_⟩))))
    · rw [← hds, bytes_drop]
      exact (matchFromTo_text (hcs ▸ h.z) w').2 rfl
    · refine mem_edge.2 ⟨by decide, ?_⟩
      rw [fromAt_nByte, toAt_nByte]
      simp [cell]
  | substitute a b hcost =>
    rw [List.append_assoc, List.singleton_append] at hcs hds
    refine mem_wagner_cell h hcs.symm hds.symm (List.mem_append_right _
      (List.mem_append_right _ (List.mem_append_right _ (List.mem_append_left _
        (mem_edge.2 ⟨hcost, ?_⟩)))))
    rw [fromAt_nByte, toAt_nByte]
    simp [cell]
  | entry e hentry hcost =>
    obtain ⟨a, from', hfrom⟩ := List.exists_cons_of_ne_nil (hins e hentry)
    have hfound : e.cFrom <+: a :: (from' ++ w) := ⟨w, by rw [hfrom]; rfl⟩
    have hcs' : cs = u ++ a :: (from' ++ w) := by rw [← hcs, hfrom]; simp
    by_cases hto : e.cTo = []
    · rw [hto, List.append_nil] at hds
      refine mem_wagner_deletions h hcs' ⟨w', hds⟩ (List.mem_append_right _
        (List.mem_flatMap.2 ⟨_, (mem_apDel h.table).2 ⟨e, hentry, rfl, hfound, hto⟩, ?_⟩))
      refine mem_edge.2 ⟨hcost, ?_⟩
      rw [hto]
      rfl
    · obtain ⟨b, to', hto'⟩ := List.exists_cons_of_ne_nil hto
      have hds' : ds = v ++ b :: (to' ++ w') := by rw [← hds, hto']; simp
      have hmatch : matchTo e.toCost ((bytes ds).drop (bytes v).length) = true := by
        rw [← hds, List.append_assoc, bytes_drop, matchTo_text]
        exact List.prefix_append _ _
      refine mem_wagner_cell h hcs' hds' (List.mem_append_right _ (List.mem_append_right _
        (List.mem_append_right _ (List.mem_append_right _ (List.mem_flatMap.2
          ⟨_, (mem_apSubst h.table).2 ⟨e, hentry, rfl, hfound, hto⟩,
            List.mem_ite_nil_right.2 ⟨hmatch, ?_⟩⟩)))))
      exact mem_edge.2 ⟨hcost, rfl⟩

theorem Texts.fromOk (h : Texts pLang entries f cs) : FromOk f := by
  intro i x hx
  rw [h.a] at hx
  rw [EditDist3FromString.n, h.z]
  exact editDist3From_ok hx

theorem Texts.ordered (h : Texts pLang entries f cs) (hins : ∀ e ∈ entries, e.cFrom ≠ []) :
    Ordered (wagner pLang f (bytes ds)) := by
  refine wagner_ordered h.fromOk (fun y hy => ?_) fun y hy x hx p hp hmatch => ?_
  · obtain ⟨v, b, w, -, rfl⟩ := mem_toStops_text.1 hy
    refine List.eq_nil_iff_forall_not_mem.2 fun p hp => ?_
    obtain ⟨e, hentry, -, hfrom, -⟩ := (mem_apIns h.table).1 hp
    exact hins e hentry hfrom
  · obtain ⟨v, b, w', hds, rfl⟩ := mem_toStops_text.1 hy
    obtain ⟨u, a, w, -, rfl⟩ := (mem_fromStops_text h).1 hx
    obtain ⟨e, hentry, rfl, -, hto⟩ := (mem_apSubst h.table).1 hp
    have hfrom : (bytes e.cFrom).length ≠ 0 := fun h0 =>
      hins e hentry (bytes_length_eq_zero.1 h0)
    refine ⟨Nat.pos_of_ne_zero hfrom, ?_⟩
    -- the first character of the TO text of the entry is the one at hand
    rw [hds, bytes_drop, matchTo_text] at hmatch
    obtain ⟨b', to', hto'⟩ := List.exists_cons_of_ne_nil hto
    rw [hto', List.cons_prefix_cons] at hmatch
    dsimp only [Entry.toCost]
    rw [hto', toAt_nByte, hmatch.1, bytes_cons, List.length_append]
    exact Nat.le_add_right _ _

/-! ### Entries and scripts -/

theorem walk_script (h : Texts pLang entries f cs) {x : Cell} {c : ℕ}
    (hwalk : Walk (wagner pLang f (bytes ds)) (0, 0) x c) :
    ∃ u v, u <+: cs ∧ v <+: ds ∧ x = cell u v ∧ Script (Rule pLang entries) u v c := by
  induction hwalk with
  | refl => exact ⟨[], [], List.nil_prefix, List.nil_prefix, rfl, .nil⟩
  | step _ he ih =>
    obtain ⟨u, v, hu, hv, hcell, hscript⟩ := ih
    obtain ⟨u', s, v', t, hus, hvt, hrule, hsource, htarget⟩ := wagner_rule h he
    rw [hsource] at hcell
    obtain ⟨hrow, hcol⟩ := Prod.mk.inj hcell
    obtain rfl := prefix_eq ((List.prefix_append u' s).trans hus) hu hcol
    obtain rfl := prefix_eq ((List.prefix_append v' t).trans hvt) hv hrow
    exact ⟨_, _, hus, hvt, htarget, hscript.snoc hrule⟩

theorem script_walk (h : Texts pLang entries f cs) (hins : ∀ e ∈ entries, e.cFrom ≠ []) {c : ℕ}
    (hscript : Script (Rule pLang entries) u v c) (hu : u <+: cs) (hv : v <+: ds) :
    Walk (wagner pLang f (bytes ds)) (0, 0) (cell u v) c := by
  induction hscript with
  | nil => exact .refl
  | snoc _ hrule ih =>
    have hbefore := ih ((List.prefix_append _ _).trans hu) ((List.prefix_append _ _).trans hv)
    exact hbefore.step (rule_wagner h hins hu hv hrule)

/-- What is left in the last column is the cost of a script, for a beginning of the TO text. -/
theorem final_script (h : Texts pLang entries f cs) {r : ℕ}
    (hset : final pLang f (bytes ds) (r, f.n) < unset) :
    ∃ v, v <+: ds ∧ r = (bytes v).length ∧
      Script (Rule pLang entries) cs v (final pLang f (bytes ds) (r, f.n)) := by
  obtain ⟨i, c, hwalk, hc⟩ := relaxAll_walk start (wagner pLang f (bytes ds)) (r, f.n)
  rw [final, hc, start] at hset
  rw [final, hc, start]
  split at hset
  · rename_i hi
    subst hi
    obtain ⟨u, v, hu, hv, hcell, hscript⟩ := walk_script h hwalk
    obtain ⟨hrow, hcol⟩ := Prod.mk.inj hcell
    rw [EditDist3FromString.n, h.z] at hcol
    obtain rfl := prefix_eq (List.prefix_refl cs) hu hcol
    exact ⟨v, hv, hrow, by simpa using hscript⟩
  · omega

theorem final_least (h : Texts pLang entries f cs) (hins : ∀ e ∈ entries, e.cFrom ≠ [])
    (hv : v <+: ds) {c : ℕ} (hscript : Script (Rule pLang entries) cs v c) :
    final pLang f (bytes ds) ((bytes v).length, f.n) ≤ c := by
  have hwalk := script_walk h hins hscript (List.prefix_refl cs) hv
  have hleast := relaxAll_least (m := start) (h.ordered hins) hwalk
  rw [EditDist3FromString.n, h.z]
  simpa [start, cell, final] using hleast

end

end AtomComm.Spellfix
