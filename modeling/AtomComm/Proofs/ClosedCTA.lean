import AtomComm.Proofs.Readings
import AtomComm.Sanity.Keyed

/-! A CTA that is over stays as it is. Once no row of the CTA is active and no download for it is
under way, its roster, its times and its status never change again, whatever commands, checkers
and completions run, and in any order of their statements; only its report may be written, and
its statistics become those of the roster. -/

namespace AtomComm.GuildBot

def Cta.isCTA (g : ℤ) (c : String) (r : Cta) : Bool := r.ctaId = c && r.guildId = g

def Cta.statistics (r : Cta) : ℕ × ℕ × ℕ := (r.attendees, r.lates, r.absentees)

/-- The CTA is not active, and no file is being downloaded for it. -/
structure Closed (g : ℤ) (c : String) (b : Bot) : Prop where
  finished : ∀ r ∈ b.db.cta.vals, r.isCTA g c = true → r.status = .finished
  downloads : ∀ u ∈ b.pending, u.guildID = g → u.ctaID ≠ some c

def memberIn (g : ℤ) (c : String) (r : Member) : Option Member :=
  if r.inCTA g c then some r else none

/-- The columns of the CTA that nothing writes any more. -/
def recordOf (g : ℤ) (c : String) (r : Cta) : Option (CtaStatus × ℤ × ℤ) :=
  if r.isCTA g c then some (r.status, r.startTime, r.endTime) else none

/-- The CTA in `t` is the one in `b`, and its statistics are what they were or what the roster
says. -/
structure Preserved (g : ℤ) (c : String) (b t : Bot) : Prop where
  roster : t.db.users.view (memberIn g c) = b.db.users.view (memberIn g c)
  record : t.db.cta.view (recordOf g c) = b.db.cta.view (recordOf g c)
  statistics : ∀ r ∈ t.db.cta.rows, r.val.isCTA g c = true →
    r.val.statistics = calcCTAStats b.db c g ∨
      ∃ r₀ ∈ b.db.cta.rows, r₀.id = r.id ∧ r₀.val.statistics = r.val.statistics

/-- The actions that give the id to a CTA of the guild again. -/
def redraws (g : ℤ) (c : String) : Action → Bool
  | .slash h cmd => h = g && drawnId cmd = some c
  | _ => false

/-- What every statement keeps. -/
def Kept (g : ℤ) (c : String) (b t : Bot) : Prop := Closed g c t ∧ Preserved g c b t

section Statements
variable {g h : ℤ} {c c' : String} {b t : Bot}

theorem Kept.refl (hb : Closed g c b) : Kept g c b b :=
  ⟨hb, rfl, rfl, fun r hr _ => .inr ⟨r, hr, rfl, rfl⟩⟩

/-- Downloads are no part of it. -/
theorem Preserved.memory {t' : Bot} (ht : Preserved g c b t) (h : t'.db = t.db) :
    Preserved g c b t' :=
  ⟨h ▸ ht.roster, h ▸ ht.record, h ▸ ht.statistics⟩

/-- The statistics are counted in the roster. -/
theorem Preserved.calcCTAStats (ht : Preserved g c b t) :
    calcCTAStats t.db c g = calcCTAStats b.db c g := by
  have hselect := Table.select_of_view (s := Member.inCTA g c) (fun x => rfl) ht.roster
  have hcount : ∀ s : Status,
      (t.db.users.count fun r => r.ctaId = c && r.guildId = g && r.status = s) =
        b.db.users.count fun r => r.ctaId = c && r.guildId = g && r.status = s := by
    intro s
    refine Table.AgreeOn.count hselect fun r hr => ?_
    simp only [Bool.and_eq_true] at hr
    simp only [Member.inCTA, Bool.and_eq_true]
    exact ⟨hr.1.2, hr.1.1⟩
  unfold GuildBot.calcCTAStats
  simp only [hcount]

/-- An update of CTAs that leaves the columns of this one, but for statistics of the roster. -/
theorem Kept.updateCTA (ht : Kept g c b t) {p : Cta → Bool} {f : Cta → Cta}
    (hid : ∀ r, (f r).ctaId = r.ctaId ∧ (f r).guildId = r.guildId)
    (hf : ∀ r ∈ t.db.cta.vals, p r = true → r.isCTA g c = true →
      (f r).status = r.status ∧ (f r).startTime = r.startTime ∧ (f r).endTime = r.endTime ∧
        ((f r).statistics = r.statistics ∨ (f r).statistics = calcCTAStats b.db c g)) :
    Kept g c b { t with db := { t.db with cta := t.db.cta.update p f } } := by
  have hsame : ∀ r, (f r).isCTA g c = r.isCTA g c := fun r => by
    simp only [Cta.isCTA, (hid r).1, (hid r).2]
  refine ⟨⟨fun r hr hcta => ?_, ht.1.downloads⟩, ht.2.roster, ?_, fun r hr hcta => ?_⟩
  · rw [Table.vals_update] at hr
    obtain ⟨x, hx, rfl⟩ := List.mem_map.1 hr
    split at hcta
    · rename_i hp
      rw [hsame] at hcta
      rw [if_pos hp, (hf x hx hp hcta).1]
      exact ht.1.finished x hx hcta
    · rename_i hp
      rw [if_neg hp]
      exact ht.1.finished x hx hcta
  · refine (Table.view_update_of_mem fun r hr hp => ?_).trans ht.2.record
    unfold recordOf
    rw [hsame]
    split
    · rename_i hcta
      obtain ⟨h1, h2, h3, -⟩ := hf r hr hp hcta
      rw [h1, h2, h3]
    · rfl
  · obtain ⟨x, hx, hrow, hval⟩ := Table.mem_update.1 hr
    rw [← hrow, ← hval]
    rw [← hval] at hcta
    split at hcta
    · rename_i hp
      rw [hsame] at hcta
      rw [if_pos hp]
      rcases (hf x.val (Table.val_mem hx) hp hcta).2.2.2 with hold | hnew
      · rw [hold]
        exact ht.2.statistics x hx hcta
      · exact .inl hnew
    · rename_i hp
      rw [if_neg hp]
      exact ht.2.statistics x hx hcta

theorem Kept.users (ht : Kept g c b t) {u : Table Member}
    (hu : u.view (memberIn g c) = t.db.users.view (memberIn g c)) :
    Kept g c b { t with db := { t.db with users := u } } :=
  ⟨⟨ht.1.finished, ht.1.downloads⟩, hu.trans ht.2.roster, ht.2.record, ht.2.statistics⟩

theorem memberIn_none {r : Member} (h : r.inCTA g c = false) : memberIn g c r = none := by
  simp [memberIn, h]

/-- A row that another CTA lists. -/
theorem other_inCTA {r : Member} (hne : h = g → c' ≠ c) (hr : r.inCTA h c' = true) :
    r.inCTA g c = false := by
  simp only [Member.inCTA, Bool.and_eq_true, decide_eq_true_eq] at hr
  simp only [Member.inCTA, Bool.and_eq_false_iff, decide_eq_false_iff_not]
  by_contra hno
  simp only [not_or, not_not] at hno
  exact hne (hr.1.symm.trans hno.1) (hr.2.symm.trans hno.2)

theorem other_isCTA {r : Cta} (hne : h = g → c' ≠ c)
    (hr : (decide (r.ctaId = c') && decide (r.guildId = h)) = true) : r.isCTA g c = false := by
  simp only [Bool.and_eq_true, decide_eq_true_eq] at hr
  simp only [Cta.isCTA, Bool.and_eq_false_iff, decide_eq_false_iff_not]
  by_contra hno
  simp only [not_or, not_not] at hno
  exact hne (hr.2.symm.trans hno.2) (hr.1.symm.trans hno.1)

/-- The checker and `/cta delete` end CTAs by their id alone; this one is over. -/
theorem Kept.finish (ht : Kept g c b t) :
    Kept g c b { t with db := updateCTAStatus c' .finished t.db } := by
  refine ht.updateCTA (fun _ => ⟨rfl, rfl⟩) fun r hr _ hcta => ?_
  exact ⟨(ht.1.finished r hr hcta).symm, rfl, rfl, .inl rfl⟩

/-- The updates of any guild, by ids that are not this CTA's, or counted in its roster. -/
theorem Keyed.kept {f : DB → DB}
    (hf : Keyed (Kept g c b) (fun c' => h = g → c' ≠ c) (fun c' => h = g → c' ≠ c)
      (fun id => h = g → id ≠ c) h f)
    (ht : Kept g c b t) : Kept g c b { t with db := f t.db } := by
  cases hf with
  | @create id startTime endTime hid =>
    have hother : Cta.isCTA g c ⟨id, .active, h, startTime, endTime, 0, 0, 0, none⟩ = false :=
      other_isCTA hid (by simp)
    refine ⟨⟨fun r hr hcta => ?_, ht.1.downloads⟩, ht.2.roster, ?_, fun r hr hcta => ?_⟩
    · simp only [createCTA, Table.vals_insert, List.mem_append, List.mem_singleton] at hr
      rcases hr with hr | rfl
      · exact ht.1.finished r hr hcta
      · rw [hother] at hcta
        cases hcta
    · refine (Table.view_insert ?_).trans ht.2.record
      simp [recordOf, hother]
    · simp only [createCTA, Table.rows_insert, List.mem_append, List.mem_singleton] at hr
      rcases hr with hr | rfl
      · exact ht.2.statistics r hr hcta
      · rw [hother] at hcta
        cases hcta
  | deleteCTA hc =>
    refine ⟨⟨fun r hr hcta => ?_, ht.1.downloads⟩, ht.2.roster, ?_, fun r hr hcta => ?_⟩
    · simp only [deleteFromCTA, Table.vals_delete, List.mem_filter] at hr
      exact ht.1.finished r hr.1 hcta
    · refine (Table.view_delete fun r hr => ?_).trans ht.2.record
      simp [recordOf, other_isCTA hc hr]
    · exact ht.2.statistics r (Table.mem_delete.1 hr).1 hcta
  | finish => exact ht.finish
  | finishTime hc =>
    refine ht.updateCTA (fun _ => ⟨rfl, rfl⟩) fun r _ hr hcta => ?_
    rw [other_isCTA hc hr] at hcta
    cases hcta
  | @stats c' s hs =>
    refine ht.updateCTA (fun _ => ⟨rfl, rfl⟩) fun r _ hr hcta => ⟨rfl, rfl, rfl, .inr ?_⟩
    simp only [Cta.isCTA, Bool.and_eq_true, decide_eq_true_eq] at hr hcta
    obtain rfl : c' = c := hr.1.symm.trans hcta.1
    obtain rfl : h = g := hr.2.symm.trans hcta.2
    exact hs.2.calcCTAStats
  | report => exact ht.updateCTA (fun _ => ⟨rfl, rfl⟩) fun _ _ _ _ => ⟨rfl, rfl, rfl, .inl rfl⟩
  | deleteUsers hc =>
    exact ht.users (Table.view_delete fun _ hr => memberIn_none (other_inCTA hc hr))
  | @insertUser c' status name seen hc =>
    exact ht.users (Table.view_insert (memberIn_none (other_inCTA hc (by simp [Member.inCTA]))))
  | updateUsers hc hp hid =>
    refine ht.users (Table.view_update fun r hr => ?_)
    have hother := other_inCTA hc (hp r hr)
    rw [memberIn_none hother, memberIn_none]
    simpa only [Member.inCTA, (hid r).1, (hid r).2] using hother
  | words => exact ⟨⟨ht.1.finished, ht.1.downloads⟩, ht.2.roster, ht.2.record, ht.2.statistics⟩

theorem kept_key (ht : Kept g c b t) (hc : getCTAID t.db h = some c') : h = g → c' ≠ c := by
  rintro rfl rfl
  obtain ⟨r, hr, hid⟩ := Option.map_eq_some_iff.1 hc
  obtain ⟨hm, hp⟩ := Table.first_mem hr
  simp only [Bool.and_eq_true, decide_eq_true_eq] at hp
  have hover := ht.1.finished r hm (by simp [Cta.isCTA, hid, hp.1])
  rw [hover] at hp
  cases hp.2

end Statements

section Programs
variable {env : Env} {g h : ℤ} {c : String} {b s s' : Bot} {a : Action} {p : Cmd Reply}

theorem allows_kept : Allows (Kept g c b) (fun _ _ => True) (fun c' => h = g → c' ≠ c)
    (fun c' => h = g → c' ≠ c) (fun id => h = g → id ≠ c) h :=
  ⟨fun _ ht _ => kept_key ht, fun _ => trivial, fun _ hf _ ht => ⟨hf.kept ht, trivial⟩⟩

theorem download_kept :
    AllowsDownload (Kept g c b) (fun _ _ => True) (fun c' => h = g → c' ≠ c) h := by
  refine fun u hu hc t ht => ⟨⟨⟨ht.1.finished, fun v hv hg => ?_⟩, ht.2.memory rfl⟩, trivial⟩
  rcases List.mem_append.1 hv with hv | hv
  · exact ht.1.downloads v hv hg
  · obtain rfl := List.mem_singleton.1 hv
    exact fun hid => hc c hid (hu.symm.trans hg) rfl

theorem start_kept (hs : Kept g c b s) (ha : redraws g c a = false)
    (hst : start env a s = some (s', p)) :
    Kept g c b s' ∧ p.Within (Kept g c b) fun _ _ => True := by
  cases a with
  | slash h cmd =>
    cases hst
    refine ⟨hs, allows_execute allows_kept cmd ?_ (fun _ _ => id) fun _ => download_kept⟩
    rintro id hid rfl rfl
    simp [redraws, hid] at ha
  | complete j roster =>
    obtain ⟨u, hu, hq⟩ := Option.map_eq_some_iff.1 hst
    cases hq
    refine ⟨⟨⟨hs.1.finished, fun v hv => ?_⟩, hs.2.memory rfl⟩, allows_complete allows_kept rfl ?_⟩
    · exact hs.1.downloads v ((List.eraseIdx_sublist _ _).subset hv)
    · rintro c' hc hg rfl
      exact hs.1.downloads u (List.mem_of_getElem? hu) hg hc
  | check clock channels =>
    obtain ⟨-, hk⟩ := start_within hst
    cases hst
    refine ⟨hs, hk.imp (fun _ _ => trivial) fun t t' ht he => ⟨?_, trivial⟩⟩
    cases he with
    | query => exact ht
    | check => exact ht.finish
    | words => exact Keyed.words.kept (h := 0) ht
    | place hp => cases hp
    | shown hc | seen hc => cases hc
    | dropUsers hu | list hu | online hu => cases hu

end Programs

/-- A CTA with two members, one of them in a party, that is over. -/
def afterCTA : List Input :=
  opening ["Bobby", "Evelyn"] ++ [does (.partyAdd 2 "Bobby"), does (.delete 1709327000000000000)]

/-- The next CTA, and a look at the one before. -/
def laterCTA : List Input :=
  [does (.start "03/02 19:00" "03/02 21:00" "CTA2" ⟨2024, 2024, 1709380800000000000⟩),
    does (.guildUpload (.text (online ["Bobby"]))), does (.partyAdd 1 "Bobby"),
    does (.info "CTA1"), ⟨.check (fun _ => 1709415000000000000) [some 1], []⟩]

end AtomComm.GuildBot
