import AtomComm.Sanity.Statements

/-! The statistics of the attendance bot. `/cta info` counts the rows of a CTA by their
status and `/cta stats` those of a name, over all CTAs of the guild; the two agree because
both split the same rows, by the id of the CTA and by the name in lower case. -/

namespace AtomComm.GuildBot

/-! ### The statuses that rows have -/

/-- No row has the status of a word that matched no name. -/
def Known (b : Bot) : Prop := ∀ r ∈ b.db.users.vals, r.status ≠ .unknown

section Rows
variable {b : Bot} {g : ℤ} {c name : String}

theorem known_update {p : Member → Bool} {f : Member → Member} (h : Known b)
    (hf : ∀ r, r.status ≠ .unknown → (f r).status ≠ .unknown) :
    Known { b with db := { b.db with users := b.db.users.update p f } } := by
  intro r hr
  simp only [Table.vals_update, List.mem_map] at hr
  obtain ⟨q, hq, rfl⟩ := hr
  split
  · exact hf q (h q hq)
  · exact h q hq

theorem known_status {status : Status} (h : Known b) (hs : status ≠ .unknown) :
    Known { b with db := updateUserStatus g c name status b.db } :=
  known_update h fun _ _ => hs

theorem known_delete {p : Member → Bool} (h : Known b) :
    Known { b with db := { b.db with users := b.db.users.delete p } } := by
  intro r hr
  exact h r (List.mem_of_mem_filter (Table.vals_delete .. ▸ hr))

theorem known_insert {seen : ℤ} {status : Status} (h : Known b) (hs : status ≠ .unknown) :
    Known { b with db := insertUser g c status name seen b.db } := by
  intro r hr
  simp only [insertUser, Table.vals_insert, List.mem_append, List.mem_singleton] at hr
  rcases hr with hr | rfl
  · exact h r hr
  · exact hs

end Rows

/-! ### What the commands write -/

section Commands
variable {env : Env} {b t t' : Bot} {a : Action} {g : ℤ} {c : String}

/-- A program that leaves only known statuses behind. -/
abbrev KeepsKnown {α : Type} (p : Cmd α) : Prop := p.Within Known fun _ _ => True

/-- A status that is computed is written by the check and by the upload of a party alone. -/
theorem effect_known (he : Effect env b a t t') (hshow : ∀ g, ¬Checks b a g)
    (hdetect : ∀ g n image, a ≠ .slash g (.partyUpload n image)) (h : Known t) : Known t' := by
  cases he with
  | place hp => exact known_update h fun _ _ => by cases hp <;> exact Status.noConfusion
  | remove => exact known_update h fun _ _ => Status.noConfusion
  | clear => exact known_update h fun _ hr => hr
  | detect => exact absurd rfl (hdetect _ _ _)
  | shown hc => exact absurd hc (hshow _)
  | seen hc => exact absurd hc (hshow _)
  | cancelUsers | dropUsers => exact known_delete h
  | list => exact known_insert h (by decide)
  | online => exact known_status h (by decide)
  | _ => exact h

theorem known_guildCheck : KeepsKnown (sendGuildCheckPaginator env g c) :=
  within_guildCheckPaginator (fun _ => trivial) fun _ _ _ hs ht => ⟨known_status ht hs, trivial⟩

theorem known_checkRoster {roster : Roster} : KeepsKnown (checkRoster env g c roster) := by
  refine Sql.within_bind (within_updateUploadUsers ?_) fun _ => known_guildCheck
  exact fun _ _ _ ht => ⟨known_update ht fun _ hr => hr, trivial⟩

theorem known_uploadParty {n : ℤ} {words : List String} :
    KeepsKnown (uploadParty env g c n words) := by
  apply within_uploadParty fun _ => trivial
  · exact fun _ _ _ hs ht => ⟨known_status ht hs, trivial⟩
  · exact fun _ ht => ⟨known_update ht fun _ hr => hr, trivial⟩
  · exact fun _ _ ht => ⟨known_update ht fun _ _ => Status.noConfusion, trivial⟩

theorem known_partyUpload {n : ℤ} {image : Image} :
    KeepsKnown (partyUploadCommand env g n image) := by
  unfold partyUploadCommand
  split
  · refine Sql.within_bind (Sql.within_query (fun _ => trivial) _) fun ctaID => ?_
    cases ctaID with
    | none => trivial
    | some c => exact known_uploadParty
  · refine Sql.within_bind (Sql.within_query (fun _ => trivial) _) fun ctaID => ?_
    cases ctaID <;> trivial
  · trivial

theorem known_checkCommand {source : Source} :
    KeepsKnown (guildCheckCommand env g source) := by
  refine Sql.within_bind (Sql.within_query (fun _ => trivial) _) fun ctaID => ?_
  cases ctaID with
  | none => trivial
  | some c =>
    cases source with
    | neither => exact known_guildCheck
    | text roster => exact known_checkRoster
    | file => exact Sql.within_bind (Sql.within_exec fun t ht => ⟨ht, trivial⟩) fun _ => trivial
    | both => trivial
    | imageOrVideo => trivial

theorem start_known {b' : Bot} {p : Cmd Reply} (h : start env a b = some (b', p)) :
    KeepsKnown p := by
  have hother (hshow : ∀ g, ¬Checks b a g)
      (hdetect : ∀ g n image, a ≠ .slash g (.partyUpload n image)) : KeepsKnown p :=
    (start_within h).2.imp (fun _ _ => trivial) fun t t' ht he =>
      ⟨effect_known he hshow hdetect ht, trivial⟩
  by_cases hshow : ∃ g, Checks b a g
  · obtain ⟨g, hc⟩ := hshow
    cases hc with
    | command =>
      cases h
      exact known_checkCommand
    | file hj =>
      simp only [start, hj, Option.map_some, Option.some.injEq, Prod.mk.injEq] at h
      rw [← h.2]
      exact known_checkRoster
  by_cases hdetect : ∃ g n image, a = .slash g (.partyUpload n image)
  · obtain ⟨g, n, image, rfl⟩ := hdetect
    cases h
    exact known_partyUpload
  · exact hother (not_exists.1 hshow) fun g n image ha => hdetect ⟨g, n, image, ha⟩

theorem reachable_known {P : Pool Thread Bot Reply}
    (h : (system env).Reaches (System.idle Bot.empty) P) : Known P.state := by
  refine System.reaches_invariant (by simp [Known, Bot.empty, DB.empty]) ?_ h
  rintro i b b' p hb ⟨a, -, hst⟩
  refine ⟨?_, start_known hst⟩
  unfold Known
  rw [(start_within hst).1]
  exact hb

end Commands

/-! ### The two ways to count -/

/-- The ids of the CTAs that the guild has, or has members listed for. -/
def ctaIDs (db : DB) (g : ℤ) : List String :=
  (((db.cta.select fun r => r.guildId = g).map Cta.ctaId) ++
    (db.users.select fun r => r.guildId = g).map Member.ctaId).dedup

/-- The names of the guild's members, in lower case. -/
def foldedNames (db : DB) (g : ℤ) : List String :=
  ((db.users.select fun r => r.guildId = g).map fun r => LOWER r.charName).dedup

theorem lower_ascii {s : String} (h : IsAscii s) :
    IsAscii (LOWER s) ∧ LOWER (LOWER s) = LOWER s := by
  have hchar : ∀ n < 128, (Char.ofNat n).toLower.toNat < 128 ∧
      (Char.ofNat n).toLower.toLower = (Char.ofNat n).toLower := by
    decide
  have hc : ∀ c ∈ s.toList, c.toLower.toNat < 128 ∧ c.toLower.toLower = c.toLower := by
    intro c hc
    have := hchar c.toNat (h c hc)
    rwa [Char.ofNat_toNat] at this
  constructor
  · simpa [IsAscii, LOWER] using fun c hmem => (hc c hmem).1
  · rw [LOWER, LOWER, String.toList_ofList, List.map_map]
    exact congrArg String.ofList (List.map_congr_left fun c hmem => (hc c hmem).2)

/-- `toLowerCase` leaves ASCII text without capitals as it is, which it does in every
locale. -/
def KeepsLower (env : Env) : Prop :=
  ∀ s, IsAscii s → LOWER s = s → env.toLowerCase s = s

section Counts
variable {env : Env} {db : DB} {g : ℤ}

theorem mem_ctaIDs {r : Member} (hr : r ∈ db.users.vals) (hg : r.guildId = g) :
    r.ctaId ∈ ctaIDs db g := by
  refine List.mem_dedup.2 (List.mem_append_right _ (List.mem_map_of_mem ?_))
  exact List.mem_filter.2 ⟨hr, by simpa using hg⟩

theorem mem_foldedNames {r : Member} (hr : r ∈ db.users.vals) (hg : r.guildId = g) :
    LOWER r.charName ∈ foldedNames db g := by
  refine List.mem_dedup.2 (List.mem_map.2 ⟨r, List.mem_filter.2 ⟨hr, by simpa using hg⟩, rfl⟩)

theorem toLowerCase_folded (henv : KeepsLower env)
    (hascii : ∀ r ∈ db.users.vals, r.guildId = g → IsAscii r.charName) {n : String}
    (hn : n ∈ foldedNames db g) : env.toLowerCase n = n := by
  obtain ⟨r, hr, rfl⟩ := List.mem_map.1 (List.mem_dedup.1 hn)
  obtain ⟨hr, hg⟩ := List.mem_filter.1 hr
  obtain ⟨hlow, hfix⟩ := lower_ascii (hascii r hr (by simpa using hg))
  exact henv _ hlow hfix

theorem sum_ctas (s : Status) :
    ((ctaIDs db g).map fun c => db.users.count fun r =>
      r.ctaId = c && r.guildId = g && r.status = s).sum =
      db.users.count fun r => r.guildId = g && r.status = s := by
  rw [← Table.sum_count (List.nodup_dedup _) fun r hr hp => mem_ctaIDs hr
    (of_decide_eq_true (Bool.and_eq_true_iff.1 hp).1)]
  simp only [ctaIDs, Bool.and_assoc]

theorem sum_names (henv : KeepsLower env)
    (hascii : ∀ r ∈ db.users.vals, r.guildId = g → IsAscii r.charName) (s : Status) :
    ((foldedNames db g).map fun n => getCountForUser env s db n g).sum =
      db.users.count fun r => r.guildId = g && r.status = s := by
  rw [← Table.sum_count (List.nodup_dedup _) fun r hr hp => mem_foldedNames hr
    (of_decide_eq_true (Bool.and_eq_true_iff.1 hp).1)]
  refine congrArg _ (List.map_congr_left fun n hn => ?_)
  simp only [getCountForUser, toLowerCase_folded henv hascii hn, Bool.and_assoc]

/-- The rows of a CTA by their status. -/
theorem count_statuses (h : ∀ r ∈ db.users.vals, r.status ≠ .unknown) (c : String) :
    (calcCTAStats db c g).1 + (calcCTAStats db c g).2.1 + (calcCTAStats db c g).2.2 +
        db.users.count (fun r => r.inCTA g c && r.status = .offline) =
      db.users.count (·.inCTA g c) := by
  simp only [calcCTAStats, Table.count]
  generalize db.users.vals = rs at h
  induction rs with
  | nil => rfl
  | cons r rs ih =>
    have hrs := ih fun q hq => h q (List.mem_cons_of_mem _ hq)
    have hr := h r List.mem_cons_self
    simp only [List.countP_cons]
    by_cases hg : r.guildId = g <;> by_cases hc : r.ctaId = c <;>
      cases hs : r.status <;> simp_all [Member.inCTA] <;> omega

end Counts

/-- In every state that commands, checkers and completions reach with names in ASCII, their
statements in any order, the rows of a CTA are those `calcCTAStats` counts and the offline
ones, and what it counts over the CTAs of a guild is what the names of the guild add up to. -/
theorem statistics_agree {env : Env} {P : Pool Thread Bot Reply} (henv : KeepsLower env)
    (h : (system env).Reaches (System.idle Bot.empty) P)
    (hascii : ∀ r ∈ P.state.db.users.vals, IsAscii r.charName) (g : ℤ) :
    (∀ r ∈ P.state.db.users.vals, r.status = .offline ∨ r.status = .absent ∨
        r.status = .present ∨ r.status = .late) ∧
      (∀ c, (calcCTAStats P.state.db c g).1 + (calcCTAStats P.state.db c g).2.1 +
          (calcCTAStats P.state.db c g).2.2 +
            P.state.db.users.count (fun r => r.inCTA g c && r.status = .offline) =
        P.state.db.users.count (·.inCTA g c)) ∧
      ((ctaIDs P.state.db g).map fun c => (calcCTAStats P.state.db c g).1).sum =
        ((foldedNames P.state.db g).map fun n =>
          getCountForUser env .present P.state.db n g).sum ∧
      ((ctaIDs P.state.db g).map fun c => (calcCTAStats P.state.db c g).2.1).sum =
        ((foldedNames P.state.db g).map fun n =>
          getCountForUser env .late P.state.db n g).sum ∧
      ((ctaIDs P.state.db g).map fun c => (calcCTAStats P.state.db c g).2.2).sum =
        ((foldedNames P.state.db g).map fun n =>
          getCountForUser env .absent P.state.db n g).sum := by
  have hknown := reachable_known h
  have hnames := fun s => @sum_names env P.state.db g henv (fun r hr _ => hascii r hr) s
  refine ⟨fun r hr => ?_, count_statuses hknown, ?_, ?_, ?_⟩
  · have hr' := hknown r hr
    cases hs : r.status <;> simp_all
  · exact (sum_ctas .present).trans (hnames .present).symm
  · exact (sum_ctas .late).trans (hnames .late).symm
  · exact (sum_ctas .absent).trans (hnames .absent).symm

/-- Two evenings of Bobby and Evelyn: Bobby is in a party on the first, and late on the
second. -/
def twoEvenings : List Input :=
  opening ["Bobby", "Evelyn"] ++
    [does (.partyAdd 1 "bobby"), does (.delete 1709330000000000000),
      does (.start "03/02 19:00" "03/02 21:00" "CTA2" ⟨2024, 2024, 1709330000000000000⟩),
      does (.guildUpload (.text (online ["BOBBY", "Evelyn"]))), does (.lateregister "Bobby")]

theorem statistics_agree_evenings :
    let db := (endState twoEvenings).db
    ctaIDs db 1 = ["CTA1", "CTA2"] ∧ foldedNames db 1 = ["bobby", "evelyn"] ∧
      calcCTAStats db "CTA1" 1 = (1, 0, 1) ∧ calcCTAStats db "CTA2" 1 = (0, 1, 1) ∧
      ((ctaIDs db 1).map fun c => (calcCTAStats db c 1).2.2).sum =
        ((foldedNames db 1).map fun n => getCountForUser Env.ascii .absent db n 1).sum :=
  ⟨by decide +kernel, by decide +kernel, by decide +kernel, by decide +kernel,
    (@statistics_agree Env.ascii (System.idle (endState twoEvenings)) (fun _ _ h => h)
      (run_reaches (run_trace _ _ _)) (by decide +kernel) 1).2.2.2.2⟩

end AtomComm.GuildBot
