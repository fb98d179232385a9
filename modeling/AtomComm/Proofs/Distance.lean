import AtomComm.Sanity.Distances

/-! What `editdist3` computes. On any bytes it stays within its matrix. On text the result is the
least cost of a script from the one text to the other, and without a table a metric. -/

namespace AtomComm.Spellfix

open EditDistance Utf8

section
variable {cs ds : List Char} {d n : ℕ}

/-- The result is the cost of a script, unless the entry was never set, and the matched characters
are those of the text that the script ends with; without insertions in the table no script
costs less. -/
theorem editDist3Core_text {pLang : EditDist3Lang} {entries : List Entry}
    (htable : pLang.pCost = entries.map Entry.toCost)
    (h : (editDist3FromStringNew pLang (bytes cs) >>= fun f =>
      editDist3Core pLang f (bytes ds)) = .ok (d, n)) :
    (d < unset → ∃ v, Compared cs ds v ∧ Script (Rule pLang entries) (stem cs) v d ∧
      n = v.length) ∧
    ((∀ e ∈ entries, e.cFrom ≠ []) → ∀ v c, Compared cs ds v →
      Script (Rule pLang entries) (stem cs) v c → d ≤ c) := by
  cases hfrom : editDist3FromStringNew pLang (bytes cs) with
  | error e =>
    rw [hfrom] at h
    cases h
  | ok f =>
    rw [hfrom] at h
    exact ⟨core_script htable hfrom h, fun hins v c => core_least htable hins hfrom h⟩

/-- `f` sounds as `ph`, at little cost. -/
def ph : Entry := ⟨"ph".toList, "f".toList, 10, by simp, by simp⟩

def sounds : EditDist3Lang := { editDist3Lang with pCost := [ph.toCost] }

theorem editDist3Core_phone :
    Script (Rule sounds [ph]) "ph".toList "f".toList 10 ∧
    ∀ v c, Compared "ph*".toList "fone".toList v →
      Script (Rule sounds [ph]) (stem "ph*".toList) v c → 10 ≤ c := by
  have h := @editDist3Core_text "ph*".toList "fone".toList 10 1 sounds [ph] rfl (by decide +kernel)
  obtain ⟨v, hv, hscript, hn⟩ := h.1 (by decide)
  have hv1 : v = "f".toList := by
    rw [List.prefix_iff_eq_take.1 hv.1, ← hn]
    rfl
  exact ⟨hv1 ▸ hscript, h.2 (by decide)⟩

/-- An insertion of the table is tried only before characters of the FROM string. -/
example : (editDist3FromStringNew { editDist3Lang with pCost := [⟨[], [98], 1⟩] } [120] >>= fun f =>
    editDist3Core { editDist3Lang with pCost := [⟨[], [98], 1⟩] } f [120, 98]) = .ok (100, 2) := by
  decide +kernel

/-- With no table loaded the result is the least distance of the stem to a text it is compared
with, up to the value that no entry exceeds. -/
theorem editDist3SqlFunc_default {iLang : ℤ}
    (h : editDist3SqlFunc [] (bytes cs) (bytes ds) iLang = .ok d) :
    (∃ v, Compared cs ds v ∧ d = min unset (dist editDist3Costs (stem cs) v)) ∧
      ∀ v, Compared cs ds v → d ≤ dist editDist3Costs (stem cs) v :=
  ⟨sqlFunc_attained h, fun _ => sqlFunc_least h⟩

theorem editDist3SqlFunc_kitten : dist editDist3Costs "kitten".toList "sitting".toList = 400 := by
  have h := @editDist3SqlFunc_default "kitten".toList "sitting".toList 400 800 (by decide +kernel)
  obtain ⟨v, hv, hd⟩ := h.1
  obtain rfl := hv.2 (by decide)
  have hstem : stem "kitten".toList = "kitten".toList := by decide
  rw [hstem] at hd
  have hunset : unset = 16843009 := rfl
  omega

/-- Of texts that are no patterns the results are a metric, as far as they are below the value that
no entry exceeds, and tell how much longer the one text is. -/
theorem editDist3SqlFunc_metric {as : List Char} {iLang : ℤ} {p q r : ℕ}
    (has : as.getLast? ≠ some '*') (hcs : cs.getLast? ≠ some '*')
    (hp : editDist3SqlFunc [] (bytes as) (bytes cs) iLang = .ok p)
    (hq : editDist3SqlFunc [] (bytes cs) (bytes ds) iLang = .ok q)
    (hr : editDist3SqlFunc [] (bytes as) (bytes ds) iLang = .ok r) :
    (p = 0 ↔ as = cs) ∧
    (∀ p', editDist3SqlFunc [] (bytes cs) (bytes as) iLang = .ok p' → p' = p) ∧
    r ≤ p + q ∧
    (p < unset → 100 * cs.length ≤ 100 * as.length + p ∧
      100 * as.length ≤ 100 * cs.length + p) := by
  rw [sqlFunc_plain has hp, sqlFunc_plain hcs hq, sqlFunc_plain has hr]
  have hpos : 0 < unset := by decide
  have htriangle := dist_triangle (k := editDist3Costs) as cs ds
  have hlength := length_le_dist (k := editDist3Costs) as cs
  have hzero := dist_eq_zero (k := editDist3Costs) (x := as) (y := cs) (by decide)
  refine ⟨?_, fun p' hp' => ?_, by omega, fun hset => ?_⟩
  · rw [← hzero]
    omega
  · rw [sqlFunc_plain hcs hp', EditDistance.dist_comm rfl]
  · rw [min_eq_right (by omega)]
    exact hlength

theorem editDist3SqlFunc_metric_kitten :
    ((400 = 0 ↔ "kitten".toList = "sitting".toList) ∧ 450 ≤ 400 + 400) ∧
      100 * 7 ≤ 100 * 6 + 400 := by
  have h := @editDist3SqlFunc_metric "sitting".toList "sit".toList "kitten".toList 800 400 400 450
    (by decide) (by decide) (by decide +kernel) (by decide +kernel) (by decide +kernel)
  exact ⟨⟨h.1, h.2.2.1⟩, (h.2.2.2 (by decide)).1⟩

end

end AtomComm.Spellfix
