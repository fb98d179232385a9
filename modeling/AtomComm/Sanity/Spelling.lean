import AtomComm.Sanity.Distances
import AtomComm.Spec.Runtime

/-! Which name a word is taken for. The query compares the words of `demo` that are joined with
the word in small letters, and keeps a nearest one below 350. -/

namespace AtomComm

open EditDistance Spellfix Utf8

/-- `editdist3` and `lower` are those of the extension and of SQLite. -/
def Runtime.UsesSpellfix (rt : Runtime) : Prop :=
  ∀ (w word : String) (d : ℕ), editDist3SqlFunc [] (lowerFunc (bytes w.toList))
    (lowerFunc (bytes word.toList)) 800 = .ok d → rt.editdist3 (LOWER w) (LOWER word) = d

/-- What `spellFixMatch` of both bots finds. -/
def Runtime.spelling (rt : Runtime) (demo forbidden : List String) (joined : String → Bool)
    (word : String) : Option String :=
  if word ∈ forbidden ∨ demo = [] then none else rt.nearest (rt.candidates demo joined word)

noncomputable def spellDist (w word : String) : ℕ :=
  dist editDist3Costs (LOWER w).toList (LOWER word).toList

/-- The name is no pattern, and the matrix of the two is allocated. -/
def Comparable (w word : String) : Prop :=
  w.toList.getLast? ≠ some '*' ∧
    Allocates (lowerFunc (bytes w.toList)) (lowerFunc (bytes word.toList))

instance (w word : String) : Decidable (Comparable w word) := inferInstanceAs (Decidable (_ ∧ _))

/-- What a word is read as among the words of `demo` that are joined. -/
def ReadsAs (demo forbidden : List String) (joined : String → Bool) (word : String) :
    Option String → Prop
  | some w => w ∈ demo ∧ joined w = true ∧ word ∉ forbidden ∧ 3 < word.length ∧
      spellDist w word < 350
  | none => word ∉ forbidden → 3 < word.length → ∀ w ∈ demo, joined w = true →
      350 ≤ spellDist w word

/-- The names that are joined are so far from each other that no word is near two of them. -/
def FarApart (demo : List String) (joined : String → Bool) : Prop :=
  ∀ w ∈ demo, joined w = true → ∀ w' ∈ demo, joined w' = true → w ≠ w' → 600 < spellDist w w'

section
variable {rt : Runtime} {demo forbidden : List String} {joined : String → Bool}
  {w w' word : String} {d : ℕ}

@[simp] theorem toList_LOWER (s : String) : (LOWER s).toList = s.toList.map Char.toLower := by
  simp [LOWER]

theorem lowerFunc_LOWER (s : String) : lowerFunc (bytes s.toList) = bytes (LOWER s).toList := by
  rw [lowerFunc_bytes, toList_LOWER]

theorem toLower_star {c : Char} : c.toLower = '*' ↔ c = '*' := by
  have hascii : ∀ n < 128, (Char.ofNat n).toLower = '*' → n = 42 := by decide
  constructor
  · intro h
    by_cases hc : c.toNat < 128
    · have h42 := hascii c.toNat hc (by rwa [Char.ofNat_toNat])
      exact Char.toNat_inj.1 (show c.toNat = '*'.toNat from h42)
    · rwa [toLower_high hc] at h
  · rintro rfl
    rfl

/-- In small letters a pattern stays one. -/
theorem getLast?_LOWER : (LOWER w).toList.getLast? = some '*' ↔ w.toList.getLast? = some '*' := by
  rw [toList_LOWER, List.getLast?_map, Option.map_eq_some_iff]
  simp only [toLower_star, exists_eq_right]

theorem spellDist_comm (w w' : String) : spellDist w w' = spellDist w' w := dist_comm rfl _ _

/-- Without the patterns, the column `distance` of the query. -/
theorem editdist3_eq (hrt : rt.UsesSpellfix) (hc : Comparable w word) :
    rt.editdist3 (LOWER w) (LOWER word) = min unset (spellDist w word) := by
  obtain ⟨d, hd⟩ : ∃ d, editDist3SqlFunc [] (lowerFunc (bytes w.toList))
      (lowerFunc (bytes word.toList)) 800 = .ok d := by
    obtain ⟨f, μ, -, hd⟩ := sqlFunc_ok [] 800 hc.2
    exact ⟨_, hd⟩
  rw [hrt w word d hd]
  rw [lowerFunc_LOWER, lowerFunc_LOWER] at hd
  exact sqlFunc_plain (mt getLast?_LOWER.1 hc.1) hd

theorem mem_candidates : (w, d) ∈ rt.candidates demo joined word ↔
    w ∈ demo ∧ joined w = true ∧ 3 < word.length ∧ d = rt.editdist3 (LOWER w) (LOWER word) ∧
      d < 350 := by
  unfold Runtime.candidates
  rw [List.mem_filter, List.mem_map]
  constructor
  · rintro ⟨⟨v, hv, heq⟩, hlt⟩
    obtain ⟨rfl, rfl⟩ := Prod.mk.inj heq
    obtain ⟨hdemo, hjoined⟩ := List.mem_filter.1 hv
    rw [Bool.and_eq_true, decide_eq_true_eq] at hjoined
    exact ⟨hdemo, hjoined.1, hjoined.2, rfl, of_decide_eq_true hlt⟩
  · rintro ⟨hdemo, hjoined, hlen, rfl, hlt⟩
    refine ⟨⟨w, List.mem_filter.2 ⟨hdemo, ?_⟩, rfl⟩, decide_eq_true hlt⟩
    rw [hjoined, decide_eq_true hlen, Bool.true_and]

/-- No word is near two names that are far from each other. -/
theorem FarApart.eq (hfar : FarApart demo joined) (hw : w ∈ demo) (hj : joined w = true)
    (hw' : w' ∈ demo) (hj' : joined w' = true) (h : spellDist w word < 350)
    (h' : spellDist w' word < 350) : w = w' := by
  by_contra hne
  have hlt := hfar w hw hj w' hw' hj' hne
  have htriangle : spellDist w w' ≤ spellDist w word + spellDist w' word :=
    spellDist_comm w' word ▸ dist_triangle _ _ _
  -- all costs are multiples of 50
  have hdvd : ∀ v, 50 ∣ spellDist v word := fun v => (edits_dist _ _).dvd (by decide)
  obtain ⟨a, ha⟩ := hdvd w
  obtain ⟨a', ha'⟩ := hdvd w'
  omega

theorem editdist3_lt (hrt : rt.UsesSpellfix) (hc : Comparable w word) :
    rt.editdist3 (LOWER w) (LOWER word) < 350 ↔ spellDist w word < 350 := by
  have hunset : unset = 16843009 := rfl
  rw [editdist3_eq hrt hc]
  omega

/-- A name that is found is near the word. -/
theorem reads_some (hrt : rt.UsesSpellfix)
    (hc : ∀ w ∈ demo, joined w = true → Comparable w word)
    (h : rt.spelling demo forbidden joined word = some w) :
    ReadsAs demo forbidden joined word (some w) := by
  unfold Runtime.spelling at h
  split at h
  · cases h
  · rename_i hword
    obtain ⟨d, hrow, -⟩ := rt.nearest_mem _ _ h
    obtain ⟨hw, hj, hlen, rfl, hd⟩ := mem_candidates.1 hrow
    exact ⟨hw, hj, fun hmem => hword (.inl hmem), hlen, (editdist3_lt hrt (hc w hw hj)).1 hd⟩

/-- Where no name is found, none is near the word. -/
theorem reads_none (hrt : rt.UsesSpellfix)
    (hc : ∀ w ∈ demo, joined w = true → Comparable w word)
    (h : rt.spelling demo forbidden joined word = none) :
    ReadsAs demo forbidden joined word none := by
  intro hword hlen w hw hj
  unfold Runtime.spelling at h
  rw [if_neg (not_or.2 ⟨hword, List.ne_nil_of_mem hw⟩)] at h
  by_contra hd
  have hmem := mem_candidates.2 ⟨hw, hj, hlen, rfl, (editdist3_lt hrt (hc w hw hj)).2 (not_le.1 hd)⟩
  rw [rt.nearest_none _ h] at hmem
  cases hmem

/-- If the names are far from each other, a word is read as one of them only or as none. -/
theorem spelling_eq (hrt : rt.UsesSpellfix) (hfar : FarApart demo joined)
    (hc : ∀ w ∈ demo, joined w = true → Comparable w word) {o : Option String}
    (ho : ReadsAs demo forbidden joined word o) : rt.spelling demo forbidden joined word = o := by
  cases h : rt.spelling demo forbidden joined word with
  | none =>
    have hnone := reads_none hrt hc h
    cases o with
    | none => rfl
    | some w =>
      obtain ⟨hw, hj, hword, hlen, hd⟩ := ho
      exact absurd hd (not_lt.2 (hnone hword hlen w hw hj))
  | some v =>
    obtain ⟨hv, hjv, hword, hlen, hdv⟩ := reads_some hrt hc h
    cases o with
    | none => exact absurd hdv (not_lt.2 (ho hword hlen v hv hjv))
    | some w =>
      obtain ⟨hw, hj, -, -, hd⟩ := ho
      rw [hfar.eq hv hjv hw hj hdv hd]

theorem filterMap_spelling (hrt : rt.UsesSpellfix) (hfar : FarApart demo joined)
    {words : List String} {os : List (Option String)}
    (hc : ∀ word ∈ words, ∀ w ∈ demo, joined w = true → Comparable w word)
    (hread : List.Forall₂ (ReadsAs demo forbidden joined) words os) :
    words.filterMap (rt.spelling demo forbidden joined) = os.filterMap id := by
  induction hread with
  | nil => rfl
  | cons ho _ ih =>
    have hhead := spelling_eq hrt hfar (hc _ List.mem_cons_self) ho
    have htail := ih fun word hword => hc word (List.mem_cons_of_mem _ hword)
    rw [List.filterMap_cons, List.filterMap_cons, hhead, htail]
    rfl

/-- Distance 0: the stem of the name starts the word, or is the word if the name is no pattern. -/
theorem editdist3_zero (hrt : rt.UsesSpellfix)
    (halloc : Allocates (lowerFunc (bytes w.toList)) (lowerFunc (bytes word.toList))) :
    rt.editdist3 (LOWER w) (LOWER word) = 0 ↔
      Compared (LOWER w).toList (LOWER word).toList (stem (LOWER w).toList) := by
  obtain ⟨d, hd⟩ : ∃ d, editDist3SqlFunc [] (lowerFunc (bytes w.toList))
      (lowerFunc (bytes word.toList)) 800 = .ok d := by
    obtain ⟨f, μ, -, hd⟩ := sqlFunc_ok [] 800 halloc
    exact ⟨_, hd⟩
  rw [hrt w word d hd]
  rw [lowerFunc_LOWER, lowerFunc_LOWER] at hd
  constructor
  · rintro rfl
    obtain ⟨v, hv, hmin⟩ := sqlFunc_attained hd
    have hunset : unset = 16843009 := rfl
    have hzero : dist editDist3Costs (stem (LOWER w).toList) v = 0 := by omega
    rw [(dist_eq_zero (by decide)).1 hzero]
    exact hv
  · intro hv
    have hle := sqlFunc_least hd hv
    rw [dist_self] at hle
    omega

/-- Where a pattern starts like the word, what is found is at distance 0. -/
theorem spelling_pattern (hrt : rt.UsesSpellfix)
    (halloc : ∀ w ∈ demo, joined w = true →
      Allocates (lowerFunc (bytes w.toList)) (lowerFunc (bytes word.toList)))
    (hword : word ∉ forbidden) (hlen : 3 < word.length) (hw : w ∈ demo) (hj : joined w = true)
    (hpattern : Compared (LOWER w).toList (LOWER word).toList (stem (LOWER w).toList)) :
    ∃ v, rt.spelling demo forbidden joined word = some v ∧
      Compared (LOWER v).toList (LOWER word).toList (stem (LOWER v).toList) := by
  have hzero := (editdist3_zero hrt (halloc w hw hj)).2 hpattern
  have hmem := mem_candidates.2 ⟨hw, hj, hlen, hzero.symm, by decide⟩
  unfold Runtime.spelling
  rw [if_neg (not_or.2 ⟨hword, List.ne_nil_of_mem hw⟩)]
  cases hn : rt.nearest (rt.candidates demo joined word) with
  | none =>
    rw [rt.nearest_none _ hn] at hmem
    cases hmem
  | some v =>
    obtain ⟨d, hrow, hleast⟩ := rt.nearest_mem _ _ hn
    obtain ⟨hv, hjv, -, rfl, -⟩ := mem_candidates.1 hrow
    have hle := hleast _ hmem
    exact ⟨v, rfl, (editdist3_zero hrt (halloc v hv hjv)).1 (Nat.le_zero.1 hle)⟩

/-- What the function returns is never more than the distance. -/
theorem le_spellDist (hw : w.toList.getLast? ≠ some '*') (h : editDist3SqlFunc []
      (lowerFunc (bytes w.toList)) (lowerFunc (bytes word.toList)) 800 = .ok d) :
    d ≤ spellDist w word := by
  rw [lowerFunc_LOWER, lowerFunc_LOWER] at h
  rw [sqlFunc_plain (mt getLast?_LOWER.1 hw) h]
  exact min_le_right _ _

theorem spellDist_le (hw : w.toList.getLast? ≠ some '*') (h : editDist3SqlFunc []
      (lowerFunc (bytes w.toList)) (lowerFunc (bytes word.toList)) 800 = .ok d)
    (hd : d < unset) : spellDist w word ≤ d := by
  rw [lowerFunc_LOWER, lowerFunc_LOWER] at h
  have hmin := sqlFunc_plain (mt getLast?_LOWER.1 hw) h
  unfold spellDist
  omega

end

/-- A runtime with the `editdist3` of the extension. -/
def Runtime.spellfix : Runtime :=
  { Runtime.ascii with
    editdist3 := fun a b =>
      match editDist3SqlFunc [] (bytes a.toList) (bytes b.toList) 800 with
      | .ok d => d
      | .error _ => 0 }

theorem usesSpellfix_spellfix : Runtime.spellfix.UsesSpellfix := by
  intro w word d h
  rw [lowerFunc_LOWER, lowerFunc_LOWER] at h
  dsimp only [Runtime.spellfix]
  rw [h]

end AtomComm
