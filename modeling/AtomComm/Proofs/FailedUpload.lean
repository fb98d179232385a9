import AtomComm.Proofs.PartyUpload

/-! A party upload that fails. The matching loop writes the status of each name that it
matches, and the party is cleared and filled before its page is built, which fails unless the
image has twenty words: from each of these points the command may end with an exception. -/

namespace AtomComm.GuildBot

/-- What a table says of attendance: the status and the party of each row. -/
def attendance (t : Table Member) : List (ℕ × Status × Option ℤ) :=
  t.rows.map fun r => (r.id, r.val.status, r.val.partyNumber)

/-- `r'` is `r` but for its status and its party. -/
def Attends (r r' : Member) : Prop := ∃ s n, r' = { r with status := s, partyNumber := n }

/-- The names that an image matches are undisturbed, and when its words fill no page there is
nobody in the party and nobody to put in it. -/
structure Harmless (env : Env) (db : DB) (d : Detection) : Prop where
  shown : ∀ name ∈ detected env db d.guildId d.ctaId d.words,
    Undisturbed env db d.guildId d.ctaId name
  full : d.words = [] ∨ 20 ≤ d.words.length ∨ ∀ r ∈ db.users.vals,
    r.inCTA d.guildId d.ctaId = true → r.partyNumber ≠ some d.partyNumber ∧
      placed env d.guildId d.ctaId (detected env db d.guildId d.ctaId d.words) r = false

/-! ### Rows -/

section Rows
variable {env : Env} {db : DB} {g : ℤ} {c : String} {n : ℤ}

theorem eq_of_attendance {t : Table Member} {f : Member → Member} (hf : ∀ r, Attends r (f r))
    (h : attendance (t.mapRows f) = attendance t) : t.mapRows f = t := by
  apply Table.mapRows_eq_self.2
  intro v hv
  obtain ⟨r, hr, rfl⟩ := List.mem_map.1 hv
  simp only [attendance, Table.rows_mapRows, List.map_map] at h
  have hr := List.map_inj_left.1 h r hr
  obtain ⟨s, m, hs⟩ := hf r.val
  simp only [Function.comp, hs, Prod.mk.injEq, true_and] at hr
  rw [hs, hr.1, hr.2]

/-- A name that no row matches changes nothing. -/
theorem place_eq_self {names : List String} {name : String} (hname : name ∈ names)
    (h : ∀ r ∈ db.users.vals, r.inCTA g c = true → placed env g c names r = false) :
    place env g c n db name = db := by
  rw [place, setParty, users_eq_self]
  apply Table.update_eq_self
  intro r hr hp
  obtain ⟨hfold, hcta⟩ := Bool.and_eq_true_iff.1 hp
  have hyes : placed env g c names r = true := by
    simp only [placed, hcta, Bool.true_and, List.any_eq_true]
    exact ⟨name, hname, hfold⟩
  rw [h r hr hcta] at hyes
  cases hyes

/-- Nobody is taken out of a party that has nobody. -/
theorem clear_eq_self : clearUsersDataForParty g c n db = db ↔
    ∀ r ∈ db.users.vals, r.inCTA g c = true → r.partyNumber ≠ some n := by
  rw [clearUsersDataForParty, users_eq_self, Table.update_eq_mapRows, Table.mapRows_eq_self]
  constructor
  · intro h r hr hcta hn
    have hrow := h r hr
    rw [if_pos (by simp [hcta, hn])] at hrow
    have hparty := congrArg Member.partyNumber hrow
    simp [hn] at hparty
  · intro h r hr
    refine if_neg fun hp => ?_
    obtain ⟨hcta, hn⟩ := Bool.and_eq_true_iff.1 hp
    exact h r hr hcta (of_decide_eq_true hn)

theorem clear_of_attendance
    (h : attendance (clearUsersDataForParty g c n db).users = attendance db.users) :
    clearUsersDataForParty g c n db = db := by
  rw [clearUsersDataForParty, users_eq_self]
  refine eq_of_attendance (fun r => ?_) h
  split
  · exact ⟨r.status, none, rfl⟩
  · exact ⟨r.status, r.partyNumber, rfl⟩

theorem admitted_attends (names : List String) (r : Member) :
    Attends r (admitted env g c n names r) := by
  unfold admitted
  split
  · exact ⟨.present, some n, rfl⟩
  · exact ⟨r.status, r.partyNumber, rfl⟩

theorem Restated.attends {names : List String} {r r' : Member} (h : Restated g c names r r') :
    Attends r r' := by
  obtain ⟨⟨s, rfl⟩, -⟩ := h
  exact ⟨s, r.partyNumber, rfl⟩

end Rows

/-! ### Points of failure -/

section Failures
variable {env : Env} {b : Bot} {g n : ℤ} {c : String} {words : List String}

theorem getValidNames_append (ws rest : List String) :
    getValidNamesFromImage env g c (ws ++ rest) =
      (getValidNamesFromImage env g c ws).bind fun names =>
        (getValidNamesFromImage env g c rest).bind fun names' => .ret (names ++ names') := by
  induction ws with
  | nil => exact (Sql.bind_ret _).symm
  | cons w ws ih =>
    simp only [List.cons_append, getValidNamesFromImage, Sql.bind_eq, Sql.bind_assoc]
    refine congrArg _ (funext fun m => ?_)
    cases m with
    | none => simp only [ih, Sql.pure_eq, Sql.bind_assoc, Sql.ret_bind, List.cons_append]
    | some name => simp only [ih, Sql.pure_eq, Sql.bind_assoc, Sql.ret_bind, List.cons_append]

theorem allFail_spellFixMatch (word : String) : (spellFixMatch env word g c).allFail = .ok none := by
  unfold spellFixMatch
  split
  · rfl
  · simp [Sql.allFail_tryCatch, Sql.allFail_bind, read]

theorem allFail_getValidNames (words : List String) :
    (getValidNamesFromImage env g c words).allFail =
      .ok (List.replicate words.length ("????", .unknown)) := by
  induction words with
  | nil => rfl
  | cons w words ih =>
    simp [getValidNamesFromImage, Sql.allFail_bind, allFail_spellFixMatch, ih, List.replicate_succ]

theorem allFail_addPlayersToParty (names : List (String × Status)) :
    (addPlayersToParty env g c n names).allFail = .ok () := by
  induction names with
  | nil => rfl
  | cons e names ih =>
    unfold addPlayersToParty
    split
    · exact ih
    · rename_i hs
      simp [Sql.allFail_bind, Sql.allFail_tryCatch, addPlayerToParty, write, ih]

/-- The command may end after any of the words. -/
theorem fails_in_loop (ws rest : List String) : ∃ fs e,
    (uploadParty env g c n (ws ++ rest)).run fs b =
      (.error e, { b with db := (detected env b.db g c ws).foldl (refresh env g c) b.db }) := by
  obtain ⟨names, hrun, -, -⟩ := @run_getValidNames env g c b ws
  unfold uploadParty
  rw [getValidNames_append, Sql.bind_eq, Sql.bind_assoc]
  obtain ⟨fs, hfs⟩ := Sql.run_fail_after hrun _
  refine ⟨fs, .sql, hfs.trans ?_⟩
  simp [Sql.allFail_bind, allFail_getValidNames, write]

/-- With too few words the command ends when the page is built, and none need have been put in
the party by then. -/
theorem fails_unfilled {names : List (String × Status)} {t : Bot}
    (hrun : (getValidNamesFromImage env g c words).run [] b = (.ok names, t)) (hne : names ≠ [])
    (hlen : names.length < 20) : ∃ fs e, (uploadParty env g c n words).run fs b =
      (.error e, { t with db := clearUsersDataForParty g c n t.db }) := by
  have hclear : ((getValidNamesFromImage env g c words).bind fun names =>
      (write (clearUsersDataForParty g c n)).bind fun _ => .ret names).run [] b =
        (.ok names, { t with db := clearUsersDataForParty g c n t.db }) := by
    rw [Sql.run_bind, hrun]
    rfl
  obtain ⟨fs, hfs⟩ := Sql.run_fail_after hclear fun names =>
    if names = [] then .ret sendNoValidNamesFoundMessage
    else (addPlayersToParty env g c n names).bind fun _ =>
      if names.length < 20 then .throw .runtime else .ret (.detected n names)
  refine ⟨fs, .runtime, ?_⟩
  rw [Sql.bind_assoc] at hfs
  refine Eq.trans hfs ?_
  simp [hne, hlen, Sql.allFail_bind, allFail_addPlayersToParty]

/-- The same, when no statement fails. -/
theorem fails_filled {names : List (String × Status)} {t : Bot}
    (hrun : (getValidNamesFromImage env g c words).run [] b = (.ok names, t)) (hne : names ≠ [])
    (hlen : names.length < 20) : (uploadParty env g c n words).run [] b =
      (.error .runtime, { b with db := partyUploaded env g c n words b.db }) := by
  refine Prod.ext ?_ (run_uploadParty n words)
  unfold uploadParty
  rw [Sql.bind_eq, Sql.run_bind, hrun]
  simp [write, hne, Sql.run_bind, run_addPlayersToParty, hlen]

/-! ### Harmless uploads -/

theorem spellFixMatch_solo {E : Exn → Bot → Prop} (word : String) :
    (spellFixMatch env word g c).Ok Sql.solo
      (fun m t => t = b ∧ (m = none ∨ m = matchedName env b.db g c word)) E b := by
  have hnone : ∀ E : Exn → Bot → Prop, (Sql.ret none : Cmd (Option String)).Ok Sql.solo
      (fun m t => t = b ∧ (m = none ∨ m = matchedName env b.db g c word)) E b :=
    fun _ => Sql.solo_ret ⟨rfl, .inl rfl⟩
  unfold spellFixMatch
  by_cases hf : word ∈ forbiddenWords
  · rw [if_pos hf]
    exact hnone E
  · rw [if_neg hf]
    apply Sql.ok_tryCatch.2
    apply Sql.solo_query_bind _ (hnone E)
    split
    · exact hnone _
    · rename_i hd
      have hd : b.db.demo ≠ [] := fun h => hd (by simp [h])
      have hread : (read (nearestMember env · word g c)).bind .ret =
          read (nearestMember env · word g c) := Sql.bind_ret _
      rw [← hread]
      apply Sql.solo_query_bind _ (hnone E)
      refine Sql.solo_ret ⟨rfl, .inr ?_⟩
      simp [matchedName, hf, hd]

/-- When showing a detected name writes nothing new, the loop changes nothing. -/
theorem getValidNames_solo {names : List String}
    (hA : ∀ name ∈ names, refresh env g c b.db name = b.db)
    (hw : ∀ name ∈ detected env b.db g c words, name ∈ names) :
    (getValidNamesFromImage env g c words).Ok Sql.solo
      (fun found t => t = b ∧ found.length = words.length ∧ ∀ name ∈ known found, name ∈ names)
      (fun _ t => t = b) b := by
  induction words with
  | nil => exact Sql.solo_ret ⟨rfl, rfl, by simp [known]⟩
  | cons w ws ih =>
    have ih := ih fun name hname => hw name (by
      unfold detected at hname ⊢
      rw [List.filterMap_cons]
      split
      · exact hname
      · exact List.mem_cons_of_mem _ hname)
    refine Sql.ok_bind.2 (Sql.Ok.imp (spellFixMatch_solo w) ?_ fun _ _ h => h)
    rintro m t ⟨rfl, hm⟩
    cases m with
    | none =>
      refine Sql.ok_bind.2 (Sql.Ok.imp ih ?_ fun _ _ h => h)
      rintro found t ⟨rfl, hlen, hknown⟩
      exact Sql.solo_ret ⟨rfl, by simp [hlen], by simpa [known] using hknown⟩
    | some name =>
      have hm : matchedName env t.db g c w = some name := (hm.resolve_left (by simp)).symm
      have hname : name ∈ names := hw name (by simp [detected, hm])
      have hshown : (helperGetPlayerStatus env g c name).Leaves (fun u => u = t) t := by
        refine solo_getPlayerStatus (I := fun u => u = t) ?_ rfl
        rw [hA name hname]
      refine Sql.ok_bind.2 (Sql.Ok.imp hshown ?_ fun _ _ h => h)
      rintro s u rfl
      refine Sql.ok_bind.2 (Sql.Ok.imp ih ?_ fun _ _ h => h)
      rintro found t ⟨rfl, hlen, hknown⟩
      refine Sql.solo_ret ⟨rfl, by simp [hlen], ?_⟩
      by_cases hs : s = .unknown
      · simpa [known, hs] using hknown
      · intro v hv
        have hv : v = name ∨ v ∈ known found := by simpa [known, hs] using hv
        rcases hv with rfl | hv
        · exact hname
        · exact hknown v hv

theorem addPlayersToParty_solo {I : Bot → Prop} {names : List (String × Status)} {t : Bot}
    (hI : ∀ t, I t → ∀ name ∈ known names, I { t with db := place env g c n t.db name }) (ht : I t) :
    (addPlayersToParty env g c n names).Ok Sql.solo (fun _ t => I t) (fun _ _ => False) t := by
  induction names generalizing t with
  | nil => exact Sql.solo_ret ht
  | cons e names ih =>
    unfold addPlayersToParty
    by_cases hs : e.2 = .unknown
    · rw [if_pos hs]
      exact ih (fun t ht name hname => hI t ht name (by simpa [known, hs] using hname)) ht
    · have hin : ∀ name, name = e.1 ∨ name ∈ known names → name ∈ known (e :: names) := by
        simp [known, hs]
      have hrest : ∀ t, I t → (addPlayersToParty env g c n names).Ok Sql.solo (fun _ t => I t)
          (fun _ _ => False) t :=
        fun t ht => ih (fun t ht name hname => hI t ht name (hin name (.inr hname))) ht
      have hadd : (addPlayerToParty env e.1 g c (some n) .present).Ok Sql.solo (fun _ t => I t)
          (fun _ _ => False) t := by
        refine Sql.ok_tryCatch.2 (Sql.Ok.imp
          (Sql.leaves_exec (hI t ht e.1 (hin _ (.inl rfl))) ht) (fun _ _ h => h) ?_)
        exact fun _ _ h => Sql.solo_ret h
      rw [if_neg hs]
      exact Sql.ok_bind.2 (Sql.Ok.imp hadd (fun _ t ht => hrest t ht) fun _ _ h => h)

theorem uploadParty_solo (h : Harmless env b.db ⟨g, c, n, words⟩) :
    (uploadParty env g c n words).Ok Sql.solo (fun _ _ => True) (fun _ t => t = b) b := by
  have hloop : (getValidNamesFromImage env g c words).Ok Sql.solo (fun found t => t = b ∧
      found.length = words.length ∧ ∀ name ∈ known found, name ∈ detected env b.db g c words)
      (fun _ t => t = b) b :=
    getValidNames_solo (fun name hname => refresh_undisturbed.2 (h.shown name hname)) fun _ hw => hw
  refine Sql.ok_bind.2 (Sql.Ok.imp hloop ?_ fun _ _ ht => ht)
  rintro found t ⟨rfl, hlen, hknown⟩
  refine Sql.solo_exec_bind (E := fun _ u => u = t) ?_ rfl
  split
  · exact Sql.solo_ret trivial
  · rename_i hne
    have hwords : words ≠ [] := by
      rintro rfl
      exact hne (List.length_eq_zero_iff.1 hlen)
    by_cases hfew : found.length < 20
    · -- there is nobody in the party, and no row that the names match
      have hrows := (h.full.resolve_left hwords).resolve_left (by dsimp only; omega)
      have hclear : clearUsersDataForParty g c n t.db = t.db :=
        clear_eq_self.2 fun r hr hcta => (hrows r hr hcta).1
      have hplace : ∀ name ∈ known found, place env g c n t.db name = t.db :=
        fun name hname => place_eq_self (hknown name hname) fun r hr hcta => (hrows r hr hcta).2
      have hadd : (addPlayersToParty env g c n found).Ok Sql.solo (fun _ u => u = t)
          (fun _ _ => False) t := by
        apply addPlayersToParty_solo (I := fun u => u = t) _ rfl
        rintro u rfl name hname
        rw [hplace name hname]
      rw [hclear]
      refine Sql.ok_bind.2 (Sql.Ok.imp hadd ?_ fun _ _ hf => hf.elim)
      rintro - u rfl
      rw [if_pos hfew]
      exact Sql.solo_throw rfl
    · have hadd : ∀ u, (addPlayersToParty env g c n found).Ok Sql.solo (fun _ _ => True)
          (fun _ _ => False) u :=
        fun u => addPlayersToParty_solo (I := fun _ => True) (fun _ _ _ _ => trivial) trivial
      refine Sql.ok_bind.2 (Sql.Ok.imp (hadd _) (fun _ u _ => ?_) fun _ _ hf => hf.elim)
      rw [if_neg hfew]
      exact Sql.solo_ret trivial

/-! ### Harmful ones -/

theorem refreshes_unchanged {names : List String}
    (h : attendance (names.foldl (refresh env g c) b.db).users = attendance b.db.users) :
    names.foldl (refresh env g c) b.db = b.db := by
  obtain ⟨f, hf, hrows⟩ := @refreshes_rows env g c names b.db names fun _ hw => hw
  rw [hrows] at h ⊢
  rw [users_eq_self]
  exact eq_of_attendance (fun r => (hf r).attends) h

/-- No failure of the upload changes the attendance. -/
def Quiet (env : Env) (b : Bot) (g n : ℤ) (c : String) (words : List String) : Prop :=
  ∀ fs e t, (uploadParty env g c n words).run fs b = (.error e, t) →
    attendance t.db.users = attendance b.db.users

theorem Quiet.front {ws rest : List String} (h : Quiet env b g n c (ws ++ rest)) :
    (detected env b.db g c ws).foldl (refresh env g c) b.db = b.db := by
  obtain ⟨fs, e, hrun⟩ := @fails_in_loop env b g n c ws rest
  exact refreshes_unchanged (h _ _ _ hrun)

theorem Quiet.shown (h : Quiet env b g n c words) :
    ∀ name ∈ detected env b.db g c words, refresh env g c b.db name = b.db := by
  intro name hname
  obtain ⟨word, hword, hm⟩ := List.mem_filterMap.1 hname
  obtain ⟨ws, rest, rfl⟩ := List.append_of_mem hword
  -- the loop as far as the word, and without it
  have hbefore := h.front
  have hafter := @Quiet.front env b g n c (ws ++ [word]) rest (by simpa using h)
  have hsplit : detected env b.db g c (ws ++ [word]) = detected env b.db g c ws ++ [name] := by
    simp [detected, hm]
  rwa [hsplit, List.foldl_append, hbefore] at hafter

theorem Quiet.refreshed (h : Quiet env b g n c words) :
    (detected env b.db g c words).foldl (refresh env g c) b.db = b.db :=
  @Quiet.front env b g n c words [] (by simpa using h)

theorem Quiet.run_loop (h : Quiet env b g n c words) :
    ∃ names, (getValidNamesFromImage env g c words).run [] b = (.ok names, b) ∧
      names.length = words.length := by
  obtain ⟨names, hrun, -, -⟩ := @run_getValidNames env g c b words
  rw [h.refreshed] at hrun
  obtain ⟨-, hlen, -⟩ := Sql.solo_returns (getValidNames_solo h.shown fun _ hw => hw) hrun
  exact ⟨names, hrun, hlen⟩

/-- With too few words for a page there was nobody in the party. -/
theorem Quiet.nobody (h : Quiet env b g n c words) (hne : words ≠ []) (hfew : words.length < 20) :
    ∀ r ∈ b.db.users.vals, r.inCTA g c = true → r.partyNumber ≠ some n := by
  obtain ⟨names, hrun, hlen⟩ := h.run_loop
  have hnames : names ≠ [] := by
    rwa [← List.length_pos_iff_ne_nil, hlen, List.length_pos_iff_ne_nil]
  obtain ⟨fs, e, hcleared⟩ := fails_unfilled (n := n) hrun hnames (by omega)
  exact clear_eq_self.1 (clear_of_attendance (h _ _ _ hcleared))

/-- Nor is anyone put in it. -/
theorem Quiet.unplaced (h : Quiet env b g n c words) (hne : words ≠ []) (hfew : words.length < 20)
    {r : Member} (hr : r ∈ b.db.users.vals) (hcta : r.inCTA g c = true) :
    placed env g c (detected env b.db g c words) r = false := by
  obtain ⟨names, hrun, hlen⟩ := h.run_loop
  have hnames : names ≠ [] := by
    rwa [← List.length_pos_iff_ne_nil, hlen, List.length_pos_iff_ne_nil]
  have hfilled := h _ _ _ (fails_filled (n := n) hrun hnames (by omega))
  -- nobody is taken out of the party, so whom the names match is put in it anew
  rw [partyUploaded, h.refreshed, clear_eq_self.2 (h.nobody hne hfew), places_rows] at hfilled
  have hsame := Table.mapRows_eq_self.1 (eq_of_attendance (admitted_attends _) hfilled) r hr
  by_contra hp
  rw [admitted, if_pos (by simpa using hp)] at hsame
  have hparty := congrArg Member.partyNumber hsame
  exact h.nobody hne hfew r hr hcta hparty.symm

theorem Quiet.harmless (h : Quiet env b g n c words) : Harmless env b.db ⟨g, c, n, words⟩ := by
  refine ⟨fun name hname => refresh_undisturbed.1 (h.shown name hname), ?_⟩
  by_cases hne : words = []
  · exact .inl hne
  by_cases hfew : words.length < 20
  · exact .inr (.inr fun r hr hcta => ⟨h.nobody hne hfew r hr hcta, h.unplaced hne hfew hr hcta⟩)
  · exact .inr (.inl (by dsimp only; omega))

end Failures

/-- The words of an image with two names; Evelyn is in the party. -/
def evelynFirst : List String := "Evelyn" :: "Bobby" :: List.replicate 18 "zzzz"

end AtomComm.GuildBot
