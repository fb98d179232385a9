import AtomComm.Sanity.Statements

/-! Status and party. Six statements write the status or the party number of a row, two of
them only the one or the other. `Sound` is what they have to keep together: who is present
has a party, who has one is present, and the rows of one name are in one party. -/

namespace AtomComm.GuildBot

/-- Present exactly with a party. -/
def Attended (r : Member) : Prop := r.status = .present ↔ r.partyNumber ≠ none

instance (r : Member) : Decidable (Attended r) := inferInstanceAs (Decidable (_ ↔ _))

/-- The rows stand for one name in one CTA of one guild. -/
def SameKey (r r' : Member) : Prop :=
  r'.guildId = r.guildId ∧ r'.ctaId = r.ctaId ∧ r'.charName = r.charName

structure Sound (t : Table Member) : Prop where
  attended : ∀ r ∈ t.vals, Attended r
  sameParty : ∀ r ∈ t.vals, ∀ r' ∈ t.vals, SameKey r r' → r'.partyNumber = r.partyNumber

theorem SameKey.symm {r r' : Member} (h : SameKey r r') : SameKey r' r :=
  ⟨h.1.symm, h.2.1.symm, h.2.2.symm⟩

theorem SameKey.trans {r r' r'' : Member} (h : SameKey r r') (h' : SameKey r' r'') :
    SameKey r r'' :=
  ⟨h'.1.trans h.1, h'.2.1.trans h.2.1, h'.2.2.trans h.2.2⟩

theorem SameKey.inCTA {r r' : Member} (h : SameKey r r') (g : ℤ) (c : String) :
    r'.inCTA g c = r.inCTA g c := by
  unfold Member.inCTA
  rw [h.1, h.2.1]

theorem sound_empty : Sound .empty := ⟨fun r hr => by simp at hr, fun r hr => by simp at hr⟩

section Statements
variable {t : Table Member} {g : ℤ} {c : String}

theorem Sound.delete (h : Sound t) (p : Member → Bool) : Sound (t.delete p) := by
  have hmem : ∀ r ∈ (t.delete p).vals, r ∈ t.vals := by
    intro r hr
    rw [Table.vals_delete] at hr
    exact (List.mem_filter.1 hr).1
  exact ⟨fun r hr => h.attended r (hmem r hr),
    fun r hr r' hr' => h.sameParty r (hmem r hr) r' (hmem r' hr')⟩

/-- A row without a party, of a name that has none. -/
theorem Sound.insert (h : Sound t) {v : Member} (hv : v.status ≠ .present)
    (hnone : v.partyNumber = none) (hkey : ∀ r ∈ t.vals, SameKey v r → r.partyNumber = none) :
    Sound (t.insert v) := by
  have hrow : ∀ r ∈ (t.insert v).vals, r ∈ t.vals ∨ r = v := by
    intro r hr
    rw [Table.vals_insert] at hr
    simpa using hr
  refine ⟨fun r hr => ?_, fun r hr r' hr' hk => ?_⟩
  · rcases hrow r hr with hr | rfl
    · exact h.attended r hr
    · simp [Attended, hv, hnone]
  · rcases hrow r hr with hold | rfl <;> rcases hrow r' hr' with hold' | rfl
    · exact h.sameParty r hold r' hold' hk
    · rw [hnone, hkey r hold hk.symm]
    · rw [hnone, hkey r' hold' hk]
    · rfl

/-- An update whose condition and whose new party go by the name, the CTA and the party. -/
theorem Sound.update (h : Sound t) {p : Member → Bool} {f : Member → Member}
    (hkey : ∀ r, SameKey r (f r)) (hatt : ∀ r ∈ t.vals, p r = true → Attended (f r))
    (hp : ∀ r r', SameKey r r' → r'.partyNumber = r.partyNumber → p r' = p r)
    (hf : ∀ r r', r'.partyNumber = r.partyNumber → (f r').partyNumber = (f r).partyNumber) :
    Sound (t.update p f) := by
  have hrow : ∀ x ∈ (t.update p f).vals, ∃ r ∈ t.vals, x = if p r then f r else r := by
    intro x hx
    rw [Table.vals_update] at hx
    obtain ⟨r, hr, rfl⟩ := List.mem_map.1 hx
    exact ⟨r, hr, rfl⟩
  have hsame : ∀ r, SameKey r (if p r then f r else r) := by
    intro r
    split
    · exact hkey r
    · exact ⟨rfl, rfl, rfl⟩
  refine ⟨fun x hx => ?_, fun x hx x' hx' hk => ?_⟩
  · obtain ⟨r, hr, rfl⟩ := hrow x hx
    split
    · exact hatt r hr ‹_›
    · exact h.attended r hr
  · obtain ⟨r, hr, rfl⟩ := hrow x hx
    obtain ⟨r', hr', rfl⟩ := hrow x' hx'
    have hk' : SameKey r r' := (hsame r).trans (hk.trans (hsame r').symm)
    have hparty := h.sameParty r hr r' hr' hk'
    rw [hp r r' hk' hparty]
    split
    · exact hf r r' hparty
    · exact hparty

theorem sound_setParty {env : Env} {db : DB} {name : String} {n : Option ℤ} {s : Status}
    (h : Sound db.users) (hs : s = .present ↔ n ≠ none) :
    Sound (setParty env name g c n s db).users := by
  simp only [setParty]
  refine h.update (fun r => ⟨rfl, rfl, rfl⟩) (fun r _ _ => hs) (fun r r' hk _ => ?_) fun _ _ _ => rfl
  rw [hk.2.2, hk.inCTA]

theorem sound_removePlayer {env : Env} {db : DB} {name : String} {n : ℤ} (h : Sound db.users) :
    Sound (removePlayerFromParty env name g c n db).users := by
  simp only [removePlayerFromParty]
  refine h.update (fun r => ⟨rfl, rfl, rfl⟩) (fun r _ _ => by simp [Attended])
    (fun r r' hk hn => ?_) fun _ _ _ => rfl
  rw [hk.2.2, hk.inCTA, hn]

theorem sound_updateLastSeen {db : DB} {name : String} {seen : ℤ} (h : Sound db.users) :
    Sound (updateLastSeen g c name seen db).users := by
  simp only [updateLastSeen]
  refine h.update (fun r => ⟨rfl, rfl, rfl⟩) (fun r hr _ => h.attended r hr)
    (fun r r' hk _ => ?_) fun _ _ hn => hn
  rw [hk.inCTA, hk.2.2]

/-- A status that is not present, for a name without a party. -/
theorem sound_updateUserStatus {db : DB} {name : String} {s : Status} (h : Sound db.users)
    (hs : s ≠ .present)
    (hnone : ∀ r ∈ db.users.vals, r.inCTA g c = true → r.charName = name → r.partyNumber = none) :
    Sound (updateUserStatus g c name s db).users := by
  simp only [updateUserStatus]
  refine h.update (fun r => ⟨rfl, rfl, rfl⟩) (fun r hr hp => ?_) (fun r r' hk _ => ?_)
    fun _ _ hn => hn
  · obtain ⟨h1, h2⟩ := Bool.and_eq_true_iff.1 hp
    simp [Attended, hs, hnone r hr h1 (of_decide_eq_true h2)]
  · rw [hk.inCTA, hk.2.2]

end Statements

/-- The actions whose statements keep status and party together only as a whole. -/
inductive Rewrites (b : Bot) : Action → Prop
  | party {g n image} : Rewrites b (.slash g (.partyUpload n image))
  | check {a g} : Checks b a g → Rewrites b a
  | upload {a g} : Uploads b a g → Rewrites b a

/-- Each statement of the other actions keeps them together. -/
theorem effect_sound {env : Env} {b t t' : Bot} {a : Action} (he : Effect env b a t t')
    (ha : ¬Rewrites b a) (h : Sound t.db.users) : Sound t'.db.users := by
  cases he with
  | cancelUsers =>
    simp only [deleteUsersDataForGuild]
    exact h.delete _
  | @place _ g name n status ctaID _ hp =>
    refine sound_setParty h ?_
    cases hp <;> simp
  | remove => exact sound_removePlayer h
  | clear => exact absurd .party ha
  | detect => exact absurd .party ha
  | shown hc => exact absurd (.check hc) ha
  | seen hc => exact absurd (.check hc) ha
  | dropUsers hu => exact absurd (.upload hu) ha
  | list hu => exact absurd (.upload hu) ha
  | online hu => exact absurd (.upload hu) ha
  | _ => exact h

end AtomComm.GuildBot
