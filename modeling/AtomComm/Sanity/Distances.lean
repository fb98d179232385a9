import AtomComm.Sanity.Letters

/-! The result of `editdist3` on text: the cost of a script, and without insertions in the table
the least one; with no table at all, the distance by default costs. -/

namespace AtomComm.Spellfix

open EditDistance Utf8

/-- The FROM string without the `*` of a prefix search. -/
def stem (cs : List Char) : List Char := if cs.getLast? = some '*' then cs.dropLast else cs

/-- The texts that are compared with the FROM string. -/
def Compared (cs ds v : List Char) : Prop := v <+: ds ∧ (cs.getLast? ≠ some '*' → v = ds)

section
variable {pLang : EditDist3Lang} {entries : List Entry} {f : EditDist3FromString}
  {cs ds v : List Char}

theorem star_bytes : (bytes cs).getLast? = some 0x2a ↔ cs.getLast? = some '*' := by
  constructor
  · intro h
    obtain ⟨l, hl⟩ := List.getLast?_eq_some_iff.1 h
    obtain ⟨cs', c, rfl, hc, -⟩ := bytes_eq_concat (by decide) hl
    rw [List.getLast?_concat, Char.toNat_inj.1 (show c.toNat = '*'.toNat from hc)]
  · intro h
    obtain ⟨cs', rfl⟩ := List.getLast?_eq_some_iff.1 h
    rw [bytes_append, List.getLast?_append]
    rfl

theorem stem_bytes : bytes (stem cs) =
    if (bytes cs).getLast? = some 0x2a then (bytes cs).dropLast else bytes cs := by
  rw [stem]
  simp only [star_bytes]
  split
  · rename_i h
    obtain ⟨cs', rfl⟩ := List.getLast?_eq_some_iff.1 h
    rw [List.dropLast_concat, bytes_append]
    exact List.dropLast_concat.symm
  · rfl

theorem fromStringNew_texts (htable : pLang.pCost = entries.map Entry.toCost)
    (h : editDist3FromStringNew pLang (bytes cs) = .ok f) :
    Texts pLang entries f (stem cs) ∧ (f.isPrefix = true ↔ cs.getLast? = some '*') := by
  unfold editDist3FromStringNew at h
  split at h
  · cases h
  cases h
  have hz : (if decide ((bytes cs).getLast? = some 0x2a) = true then (bytes cs).dropLast
      else bytes cs) = bytes (stem cs) := by
    rw [stem_bytes]
    simp only [decide_eq_true_eq]
  refine ⟨⟨htable, hz, ?_⟩, ?_⟩
  · dsimp only
    rw [hz]
  · exact decide_eq_true_iff.trans star_bytes

theorem editDist3Core_row {z2 : List UInt8} {d n : ℕ} (hf : FromOk f)
    (h : editDist3Core pLang f z2 = .ok (d, n)) :
    ∃ r, resultRow f z2.length (final pLang f z2) = (d, r) ∧
      n = r - (z2.take r).countP isTail := by
  by_cases hfits : Fits f.n z2.length
  · rw [editDist3Core_eq hf hfits] at h
    obtain ⟨hd, hn⟩ := Prod.mk.inj (Except.ok.inj h)
    exact ⟨_, Prod.ext hd rfl, hn.symm⟩
  · rcases editDist3Core_fault pLang hfits with hfault | hfault <;>
      · rw [hfault] at h
        cases h

/-- Of a text without its tails, what is left is the number of its characters. -/
theorem matched_length (hv : v <+: ds) :
    (bytes v).length - ((bytes ds).take (bytes v).length).countP isTail = v.length := by
  have htake := List.prefix_iff_eq_take.1 (bytes_prefix_iff.2 hv)
  have hlen := length_bytes v
  rw [← htake]
  omega

/-- The result is the cost of a script, unless the entry was never set, and the matched characters
are those of the text that the script ends with. -/
theorem core_script (htable : pLang.pCost = entries.map Entry.toCost)
    (hfrom : editDist3FromStringNew pLang (bytes cs) = .ok f) {d n : ℕ}
    (h : editDist3Core pLang f (bytes ds) = .ok (d, n)) (hset : d < unset) :
    ∃ v, Compared cs ds v ∧ Script (Rule pLang entries) (stem cs) v d ∧ n = v.length := by
  obtain ⟨htexts, hstar⟩ := fromStringNew_texts htable hfrom
  obtain ⟨r, hrow, hn⟩ := editDist3Core_row htexts.fromOk h
  have hvalue : d = final pLang f (bytes ds) (r, f.n) ∧
      (cs.getLast? ≠ some '*' → r = (bytes ds).length) := by
    rw [resultRow] at hrow
    split at hrow
    · rename_i hpattern
      have hlast := (lastLeast_row (fun r => final pLang f (bytes ds) (r, f.n))
        (bytes ds).length (bytes ds).length).1
      rw [hrow] at hlast
      exact ⟨hlast, fun hno => absurd (hstar.1 hpattern) hno⟩
    · obtain ⟨hd, hr⟩ := Prod.mk.inj hrow
      exact ⟨hr ▸ hd.symm, fun _ => hr.symm⟩
  obtain ⟨hd, hfull⟩ := hvalue
  rw [hd] at hset
  obtain ⟨v, hv, hr, hscript⟩ := final_script htexts hset
  refine ⟨v, ⟨hv, fun hno => ?_⟩, hd ▸ hscript, ?_⟩
  · exact prefix_eq hv (List.prefix_refl ds) (hr.symm.trans (hfull hno))
  · rw [hn, hr, matched_length hv]

/-- Without insertions in the table no script costs less. -/
theorem core_least (htable : pLang.pCost = entries.map Entry.toCost)
    (hins : ∀ e ∈ entries, e.cFrom ≠ [])
    (hfrom : editDist3FromStringNew pLang (bytes cs) = .ok f) {d n : ℕ}
    (h : editDist3Core pLang f (bytes ds) = .ok (d, n)) {c : ℕ} (hv : Compared cs ds v)
    (hscript : Script (Rule pLang entries) (stem cs) v c) : d ≤ c := by
  obtain ⟨htexts, hstar⟩ := fromStringNew_texts htable hfrom
  obtain ⟨r, hrow, -⟩ := editDist3Core_row htexts.fromOk h
  have hcost := final_least htexts hins hv.1 hscript
  rw [resultRow] at hrow
  split at hrow
  · have hleast := lastLeast_le (fun r => final pLang f (bytes ds) (r, f.n))
      (bytes ds).length (bytes ds).length
    rw [hrow] at hleast
    refine le_trans ?_ hcost
    rcases (bytes_prefix_iff.2 hv.1).length_le.lt_or_eq with hlt | heq
    · exact hleast.2 _ hlt
    · rw [heq]
      exact hleast.1
  · rename_i hpattern
    obtain rfl := hv.2 fun hlast => hpattern (hstar.2 hlast)
    exact (Prod.mk.inj hrow).1 ▸ hcost

/-- The FROM string in bytes. -/
def patternLength (zA : List UInt8) : ℕ :=
  if zA.getLast? = some 0x2a then zA.length - 1 else zA.length

theorem fromStringNew_cases (pLang : EditDist3Lang) (zA : List UInt8) :
    (24 + 32 * zA.length + zA.length + 1 < mallocLimit ∧ ∃ f,
      editDist3FromStringNew pLang zA = .ok f ∧ f.n = patternLength zA) ∨
    (¬ 24 + 32 * zA.length + zA.length + 1 < mallocLimit ∧
      editDist3FromStringNew pLang zA = .error .noMemory) := by
  unfold editDist3FromStringNew
  split
  · rename_i h
    exact .inr ⟨not_lt.2 h, rfl⟩
  · rename_i h
    refine .inl ⟨not_le.1 h, _, rfl, ?_⟩
    dsimp only [EditDist3FromString.n]
    simp only [decide_eq_true_eq, patternLength]
    split
    · exact List.length_dropLast
    · rfl

theorem resultRow_le {n2 : ℕ} {μ : Cell → ℕ} (h : ∀ v, μ v ≤ unset) :
    (resultRow f n2 μ).1 ≤ unset := by
  unfold resultRow
  split
  · exact (lastLeast_le _ _ _).1.trans (h _)
  · exact h _

/-- The allocations of a call are granted. -/
def Allocates (zA zB : List UInt8) : Prop :=
  24 + 32 * zA.length + zA.length + 1 < mallocLimit ∧ Fits (patternLength zA) zB.length

instance (zA zB : List UInt8) : Decidable (Allocates zA zB) :=
  inferInstanceAs (Decidable (_ ∧ _))

theorem sqlFunc_eq (pConfig : EditDist3Config) (zA zB : List UInt8) (iLang : ℤ) :
    editDist3SqlFunc pConfig zA zB iLang =
      (editDist3FromStringNew (editDist3FindLang pConfig iLang) zA).bind fun pFrom =>
        (editDist3Core (editDist3FindLang pConfig iLang) pFrom zB).map Prod.fst := by
  unfold editDist3SqlFunc
  dsimp only [bind]
  congr 1

theorem sqlFunc_ok (pConfig : EditDist3Config) {zA zB : List UInt8} (iLang : ℤ)
    (h : Allocates zA zB) : ∃ f μ, (∀ v, μ v ≤ unset) ∧
      editDist3SqlFunc pConfig zA zB iLang = .ok (resultRow f zB.length μ).1 := by
  rcases fromStringNew_cases (editDist3FindLang pConfig iLang) zA with
    ⟨-, f, hfrom, hn⟩ | ⟨hsize, -⟩
  · refine ⟨f, final (editDist3FindLang pConfig iLang) f zB, fun v => ?_, ?_⟩
    · refine (Relax.relaxAll_le start _ v).trans ?_
      unfold start
      split
      · exact Nat.zero_le _
      · exact le_rfl
    · rw [sqlFunc_eq, hfrom, Except.bind, editDist3Core_eq (fromStringNew_ok hfrom) (hn ▸ h.2)]
      rfl
  · exact absurd h.1 hsize

theorem sqlFunc_fault (pConfig : EditDist3Config) {zA zB : List UInt8} (iLang : ℤ)
    (h : ¬Allocates zA zB) : editDist3SqlFunc pConfig zA zB iLang = .error .overflow ∨
      editDist3SqlFunc pConfig zA zB iLang = .error .noMemory := by
  rw [sqlFunc_eq]
  rcases fromStringNew_cases (editDist3FindLang pConfig iLang) zA with
    ⟨hsize, f, hfrom, hn⟩ | ⟨-, hfrom⟩
  · have hfits : ¬Fits f.n zB.length := fun hfits => h ⟨hsize, hn ▸ hfits⟩
    rw [hfrom, Except.bind]
    refine (editDist3Core_fault (editDist3FindLang pConfig iLang) hfits).imp ?_ ?_
    all_goals
      intro hcore
      rw [hcore]
      rfl
  · rw [hfrom]
    exact .inr rfl

theorem sqlFunc_le {pConfig : EditDist3Config} {zA zB : List UInt8} {iLang : ℤ} {d : ℕ}
    (h : editDist3SqlFunc pConfig zA zB iLang = .ok d) : d ≤ unset := by
  by_cases hsize : Allocates zA zB
  · obtain ⟨f, μ, hμ, heq⟩ := sqlFunc_ok pConfig iLang hsize
    exact Except.ok.inj (heq.symm.trans h) ▸ resultRow_le hμ
  · rcases sqlFunc_fault pConfig iLang hsize with heq | heq <;>
      · rw [heq] at h
        cases h

/-! ### Without a table -/

def editDist3Costs : Costs := ⟨editDist3Lang.iInsCost, editDist3Lang.iDelCost, editDist3Lang.iSubCost⟩

theorem rule_iff_edit {s t : List Char} {c : ℕ} :
    Rule editDist3Lang [] s t c ↔ Edit editDist3Costs s t c := by
  constructor
  · intro h
    cases h with
    | delete a => exact .delete a
    | insert b => exact .insert b
    | same a => exact .same a
    | substitute a b => exact .substitute a b
    | entry e he => cases he
  · intro h
    cases h with
    | delete a => exact .delete a (by decide)
    | insert b => exact .insert b (by decide)
    | same a => exact .same a
    | substitute a b => exact .substitute a b (by decide)

theorem script_iff {s t : List Char} {c : ℕ} :
    Script (Rule editDist3Lang []) s t c ↔ Edits editDist3Costs s t c :=
  Iff.trans ⟨Script.mono fun _ _ _ => rule_iff_edit.1, Script.mono fun _ _ _ => rule_iff_edit.2⟩
    script_iff_edits

theorem sqlFunc_core {pConfig : EditDist3Config} {zA zB : List UInt8} {iLang : ℤ} {d : ℕ}
    (h : editDist3SqlFunc pConfig zA zB iLang = .ok d) : ∃ f n,
      editDist3FromStringNew (editDist3FindLang pConfig iLang) zA = .ok f ∧
      editDist3Core (editDist3FindLang pConfig iLang) f zB = .ok (d, n) := by
  rw [sqlFunc_eq] at h
  cases hfrom : editDist3FromStringNew (editDist3FindLang pConfig iLang) zA with
  | error e => simp [hfrom, Except.bind] at h
  | ok f =>
    rw [hfrom] at h
    cases hcore : editDist3Core (editDist3FindLang pConfig iLang) f zB with
    | error e => simp [hcore, Except.bind, Except.map] at h
    | ok res =>
      have hd : res.1 = d := by simpa [hcore, Except.bind, Except.map] using h
      exact ⟨f, res.2, rfl, hd ▸ hcore⟩

theorem noTable : editDist3Lang.pCost = ([] : List Entry).map Entry.toCost := rfl

theorem sqlFunc_least {iLang : ℤ} {d : ℕ}
    (h : editDist3SqlFunc [] (bytes cs) (bytes ds) iLang = .ok d) (hv : Compared cs ds v) :
    d ≤ dist editDist3Costs (stem cs) v := by
  obtain ⟨f, n, hfrom, hcore⟩ := sqlFunc_core h
  exact core_least noTable (by simp) hfrom hcore hv (script_iff.2 (edits_dist _ _))

theorem sqlFunc_attained {iLang : ℤ} {d : ℕ}
    (h : editDist3SqlFunc [] (bytes cs) (bytes ds) iLang = .ok d) :
    ∃ v, Compared cs ds v ∧ d = min unset (dist editDist3Costs (stem cs) v) := by
  obtain ⟨f, n, hfrom, hcore⟩ := sqlFunc_core h
  rcases (sqlFunc_le h).lt_or_eq with hset | hunset
  · obtain ⟨v, hv, hscript, -⟩ := core_script noTable hfrom hcore hset
    have hdist := dist_le (script_iff.1 hscript)
    have hle := sqlFunc_least h hv
    exact ⟨v, hv, by omega⟩
  · have hfull : Compared cs ds ds := ⟨List.prefix_refl ds, fun _ => rfl⟩
    have hle := sqlFunc_least h hfull
    exact ⟨ds, hfull, by omega⟩

theorem stem_plain (h : cs.getLast? ≠ some '*') : stem cs = cs := if_neg h

/-- For a FROM string that is no pattern. -/
theorem sqlFunc_plain {iLang : ℤ} {d : ℕ} (hcs : cs.getLast? ≠ some '*')
    (h : editDist3SqlFunc [] (bytes cs) (bytes ds) iLang = .ok d) :
    d = min unset (dist editDist3Costs cs ds) := by
  obtain ⟨v, hv, hd⟩ := sqlFunc_attained h
  rw [hv.2 hcs, stem_plain hcs] at hd
  exact hd

/-! ### `lower` -/

theorem lower_ascii : ∀ n < 128, sqlite3Tolower (UInt8.ofNat n) =
    UInt8.ofNat (Char.ofNat n).toLower.toNat ∧ (Char.ofNat n).toLower.toNat < 128 := by decide

theorem toLower_high {c : Char} (h : ¬c.toNat < 128) : c.toLower = c := by
  unfold Char.toLower
  rw [dif_neg]
  rintro ⟨-, hle⟩
  exact h (Nat.lt_of_le_of_lt (UInt32.le_iff_toNat_le.1 hle) (by decide))

theorem lower_encode (c : Char) :
    (String.utf8EncodeChar c).map sqlite3Tolower = String.utf8EncodeChar c.toLower := by
  by_cases hc : c.toNat < 128
  · obtain ⟨hbyte, hlt⟩ := lower_ascii c.toNat hc
    rw [Char.ofNat_toNat] at hbyte hlt
    rw [encode_ascii hc, encode_ascii hlt, List.map_singleton, hbyte]
  · rw [toLower_high hc]
    refine (List.map_congr_left (g := id) fun b hb => ?_).trans (List.map_id _)
    have hhigh := encode_high (by omega) b hb
    unfold sqlite3Tolower
    rw [if_neg, id]
    rintro ⟨-, hle⟩
    have hle' := UInt8.le_iff_toNat_le.1 hle
    have h90 : (90 : UInt8).toNat = 90 := rfl
    omega

/-- Byte by byte, `lower` does to a text what is done to its characters. -/
theorem lowerFunc_bytes (cs : List Char) : lowerFunc (bytes cs) = bytes (cs.map Char.toLower) := by
  induction cs with
  | nil => rfl
  | cons c cs ih =>
    rw [lowerFunc, bytes_cons, List.map_append, lower_encode, List.map_cons, bytes_cons, ← ih,
      lowerFunc]

end

end AtomComm.Spellfix
