import AtomComm.Sanity.Uploads

/-! One share for each player of a split. `/lootsplit add` compares names ignoring case, the
batch of an upload compares them as they stand, so it is the uploads that can bring a player
in twice: the members of a split stay distinct exactly as long as no upload brings a name
that is another one but for its case. -/

namespace AtomComm.LootSplit

def SharesDistinct (db : DB) : Prop :=
  db.lootsplitPlayers.UniqueOn (fun _ => True) fun r => (r.splitId, LOWER r.username)

instance (db : DB) : Decidable (SharesDistinct db) :=
  inferInstanceAs (Decidable (db.lootsplitPlayers.UniqueOn _ _))

/-- Ignoring case, no two of the names that get rows are equal, and none is a member's. -/
def Apart (db : DB) (splitId : String) (g : ℤ) (names : List String) : Prop :=
  ∀ w ∈ newMembers db splitId g names,
    (∀ m ∈ db.lootsplitPlayers.vals, m.splitId = splitId → LOWER m.username ≠ LOWER w) ∧
      ∀ w' ∈ newMembers db splitId g names, LOWER w' = LOWER w → w' = w

instance (db : DB) (splitId : String) (g : ℤ) (names : List String) :
    Decidable (Apart db splitId g names) :=
  inferInstanceAs (Decidable (∀ _ ∈ newMembers .., (∀ _ ∈ _, _ → _) ∧ ∀ _ ∈ _, _ → _))

/-- The player that the image's word stands for. -/
def spelled (rt : Runtime) (db : DB) (g : ℤ) (word : String) : Option String :=
  if word ∈ forbiddenWords ∨ db.demo = [] then none else nearestPlayer rt db word g

/-- The split, the guild and the names of the upload that an action makes. -/
def upload (env : Env) (b : Bot) : Action → Option (String × ℤ × List String)
  | .slash g u (.lootSplitGuildUpload _ (.text names)) =>
    if u.allowed env then (getLootSplitId b.db g).map fun splitId => (splitId, g, names) else none
  | .slash g u (.lootSplitPartyUpload _ (some words)) =>
    if u.allowed env then (getLootSplitId b.db g).map fun splitId =>
      (splitId, g, words.filterMap (spelled env.toRuntime b.db g)) else none
  | .complete j names _ =>
    match b.pending[j]? with
    | some (.lootSplit splitId g) => some (splitId, g, names)
    | _ => none
  | _ => none

def BringsApart (env : Env) (e : Event Input Bot) : Prop :=
  ∀ x ∈ upload env e.before e.input.action, Apart e.before.db x.1 x.2.1 x.2.2

instance (env : Env) (e : Event Input Bot) : Decidable (BringsApart env e) :=
  inferInstanceAs (Decidable (∀ _ ∈ upload .., Apart ..))

section Members
variable {db db₀ : DB} {splitId : String} {g : ℤ} {names : List String} {w : String}

theorem shares_insert {t : Table SplitPlayer}
    (h : t.UniqueOn (fun _ => True) fun r => (r.splitId, LOWER r.username)) {m : SplitPlayer}
    (hm : ∀ q ∈ t.vals, q.splitId = m.splitId → LOWER q.username ≠ LOWER m.username) :
    (t.insert m).UniqueOn (fun _ => True) fun r => (r.splitId, LOWER r.username) := by
  apply Table.uniqueOn_insert h
  intro _ q hq _ hk
  obtain ⟨hs, hn⟩ := Prod.mk.inj hk
  exact hm q hq hs hn

/-- Between the statements of an upload that found `db₀`. -/
structure Joining (db₀ : DB) (splitId : String) (g : ℤ) (names : List String) (db : DB) :
    Prop where
  players : db.players = db₀.players
  kept : ∀ m ∈ db₀.lootsplitPlayers.vals, m ∈ db.lootsplitPlayers.vals
  rows : ∀ m ∈ db.lootsplitPlayers.vals, m.splitId = splitId →
    m ∈ db₀.lootsplitPlayers.vals ∨ m.username ∈ newMembers db₀ splitId g names
  distinct : SharesDistinct db

theorem joining_self (h : SharesDistinct db) : Joining db splitId g names db :=
  ⟨rfl, fun _ hm => hm, fun _ hm _ => .inl hm, h⟩

/-- A name that gets a row now would have got one at the start. -/
theorem joining_listed {uploadId : String} (ha : Apart db₀ splitId g names) (hw : w ∈ names)
    (h : Joining db₀ splitId g names db) :
    Joining db₀ splitId g names (addListedPlayer uploadId splitId w g db) := by
  rcases addListedPlayer_cases uploadId splitId w g db with hsame | ⟨hjoin, hins⟩
  · rw [hsame]
    exact h
  · obtain ⟨-, ⟨r, hr, hname⟩, hnot⟩ := mem_newMembers.1 hjoin
    have hnew : w ∈ newMembers db₀ splitId g names := by
      rw [mem_newMembers]
      exact ⟨hw, ⟨r, h.players ▸ hr, hname⟩, fun m hm => hnot m (h.kept m hm)⟩
    rw [hins]
    refine ⟨h.players, fun m hm => ?_, fun m hm hs => ?_, shares_insert h.distinct fun q hq hs => ?_⟩
    · rw [Table.vals_insert]
      exact List.mem_append_left _ (h.kept m hm)
    · rw [Table.vals_insert] at hm
      rcases List.mem_append.1 hm with hm | hm
      · exact h.rows m hm hs
      · obtain rfl := List.mem_singleton.1 hm
        exact .inr hnew
    · rcases h.rows q hq hs with hq' | hq'
      · exact (ha w hnew).1 q hq' hs
      · intro hlow
        exact hnot q hq hs ((ha w hnew).2 _ hq' hlow)

/-- Once all have their rows, the shares are distinct only if the names were apart. -/
theorem apart_of_distinct {uploadId : String}
    (h : (db.lootsplitPlayers.insertAll ((newMembers db splitId g names).map
      (splitRow uploadId splitId g))).UniqueOn (fun _ => True) fun r =>
        (r.splitId, LOWER r.username)) : Apart db splitId g names := by
  have hsame : ∀ m ∈ db.lootsplitPlayers.vals ++
        (newMembers db splitId g names).map (splitRow uploadId splitId g),
      ∀ m' ∈ db.lootsplitPlayers.vals ++
        (newMembers db splitId g names).map (splitRow uploadId splitId g),
      m.splitId = m'.splitId → LOWER m.username = LOWER m'.username → m = m' := by
    intro m hm m' hm' hs hlow
    rw [← Table.vals_insertAll] at hm hm'
    obtain ⟨r, hr, rfl⟩ := Table.mem_vals.1 hm
    obtain ⟨r', hr', rfl⟩ := Table.mem_vals.1 hm'
    rw [h r hr r' hr' trivial trivial (Prod.ext hs hlow)]
  intro w hw
  have hrow := List.mem_append_right db.lootsplitPlayers.vals
    (List.mem_map_of_mem (f := splitRow uploadId splitId g) hw)
  constructor
  · intro m hm hs hlow
    have he := hsame m (List.mem_append_left _ hm) _ hrow hs hlow
    exact (mem_newMembers.1 hw).2.2 m hm hs (congrArg SplitPlayer.username he)
  · intro w' hw' hlow
    have hrow' := List.mem_append_right db.lootsplitPlayers.vals
      (List.mem_map_of_mem (f := splitRow uploadId splitId g) hw')
    exact congrArg SplitPlayer.username (hsame _ hrow' _ hrow rfl hlow)

end Members

section Programs
variable {env : Env} {b b' : Bot} {g : ℤ} {u : User} {splitId uploadId : String}
  {names words : List String} {a : Action} {p : Cmd Reply}

theorem within_uploadSplit (ha : Apart b.db splitId g names) :
    (uploadSplitPlayers splitId uploadId names g).Within
      (fun t => Joining b.db splitId g names t.db) fun _ _ => True := by
  unfold uploadSplitPlayers
  apply Sql.within_bind
  · apply within_addUsers
    · intro batch hbatch f hf db hdb
      obtain ⟨w, hw, rfl⟩ := List.mem_map.1 hf
      refine joining_listed ha ?_ hdb
      rw [← flatten_batches_nil names]
      exact List.mem_flatten.2 ⟨batch, hbatch, hw⟩
    · exact fun db h => ⟨h.players, h.kept, h.rows, h.distinct⟩
  · intro _
    apply Sql.within_bind
    · exact Sql.within_tryCatch (Sql.within_query (fun _ => trivial) _) fun _ => trivial
    · exact fun _ => trivial

theorem Joining.shares {r : Cmd Reply} {t : Bot}
    (h : r.Leaves (fun s => Joining b.db splitId g names s.db) t) :
    r.Leaves (fun s => SharesDistinct s.db) t :=
  h.imp (fun _ _ h => h.distinct) fun _ _ h => h.distinct

theorem leaves_uploadSplit (hb : SharesDistinct b.db) (ha : Apart b.db splitId g names) :
    (uploadSplitPlayers splitId uploadId names g).Leaves (fun t => SharesDistinct t.db) b :=
  Joining.shares ((within_uploadSplit ha).leaves (joining_self hb))

theorem run_uploadSplit :
    (Sql.run [] (uploadSplitPlayers splitId uploadId names g) b).2.db.lootsplitPlayers =
      b.db.lootsplitPlayers.insertAll
        ((newMembers b.db splitId g names).map (splitRow uploadId splitId g)) := by
  unfold uploadSplitPlayers
  rw [Sql.bind_eq, Sql.run_bind, run_addSplitPlayers]
  rfl

/-! ### The words of an image -/

theorem spellFix_ok (rt : Runtime) (word : String) :
    (spellFixMatch rt word g).Ok Sql.solo
      (fun r t => t = b ∧ ∀ w, r = some w → spelled rt b.db g word = some w) (fun _ t => t = b) b := by
  have hnone : (Sql.ret none : Cmd (Option String)).Ok Sql.solo
      (fun r t => t = b ∧ ∀ w, r = some w → spelled rt b.db g word = some w)
      (fun _ t => t = b) b := Sql.solo_ret ⟨rfl, fun _ h => by cases h⟩
  unfold spellFixMatch
  split
  · exact hnone
  rename_i hword
  apply Sql.ok_tryCatch.2
  refine Sql.solo_query_bind ?_ hnone
  split
  · exact hnone
  rename_i hdemo
  have hspelled : spelled rt b.db g word = nearestPlayer rt b.db word g := by
    rw [spelled, if_neg]
    rintro (h | h)
    · exact hword h
    · exact hdemo (List.length_eq_zero_iff.2 h)
  intro t ht
  rw [Sql.Contract.drift_alone.1 ht]
  refine ⟨fun t' ht' => ⟨trivial, trivial, ?_⟩, Sql.solo_throw hnone⟩
  obtain rfl := Option.some.inj ht'
  exact Sql.solo_ret ⟨rfl, fun w hw => hspelled.trans hw⟩

theorem validNames_ok (rt : Runtime) (words : List String) :
    (getValidNamesFromImage rt g words).Ok Sql.solo
      (fun names t => t = b ∧ ∀ w ∈ names.filterMap id, w ∈ words.filterMap (spelled rt b.db g))
      (fun _ t => t = b) b := by
  induction words with
  | nil => exact Sql.solo_ret ⟨rfl, fun w hw => hw⟩
  | cons word words ih =>
    refine Sql.ok_bind.2 (Sql.Ok.imp (spellFix_ok rt word) ?_ fun _ _ h => h)
    rintro name t ⟨rfl, hname⟩
    refine Sql.ok_bind.2 (Sql.Ok.imp ih ?_ fun _ _ h => h)
    rintro names t' ⟨rfl, hnames⟩
    refine Sql.solo_ret ⟨rfl, fun w hw => ?_⟩
    obtain ⟨x, hx, rfl⟩ := List.mem_filterMap.1 hw
    rcases List.mem_cons.1 hx with rfl | hx
    · exact List.mem_filterMap.2 ⟨word, by simp, hname w rfl⟩
    · obtain ⟨word', hword, hs⟩ :=
        List.mem_filterMap.1 (hnames w (List.mem_filterMap.2 ⟨_, hx, rfl⟩))
      exact List.mem_filterMap.2 ⟨word', by simp [hword], hs⟩

theorem run_spellFix (rt : Runtime) (word : String) :
    Sql.run [] (spellFixMatch rt word g) b = (.ok (spelled rt b.db g word), b) := by
  unfold spellFixMatch spelled
  by_cases hword : word ∈ forbiddenWords
  · simp [hword]
  · by_cases hdemo : b.db.demo = [] <;> simp [hword, hdemo, Sql.run_tryCatch, read]

theorem run_validNames (rt : Runtime) (words : List String) :
    Sql.run [] (getValidNamesFromImage rt g words) b = (.ok (words.map (spelled rt b.db g)), b) := by
  induction words with
  | nil => rfl
  | cons word words ih =>
    rw [getValidNamesFromImage, Sql.bind_eq, Sql.run_bind, run_spellFix]
    simp only [Sql.bind_eq, Sql.run_bind, ih, Sql.pure_eq, Sql.run_ret, List.map_cons]

/-! ### Events -/

theorem leaves_text (hb : SharesDistinct b.db)
    (ha : ∀ s ∈ getLootSplitId b.db g, Apart b.db s g names) :
    (lootSplitGuildUploadCommand g uploadId (.text names)).Leaves
      (fun t => SharesDistinct t.db) b := by
  unfold lootSplitGuildUploadCommand
  refine Sql.solo_query_bind ?_ hb
  beta_reduce
  cases hs : getLootSplitId b.db g with
  | none => exact Sql.solo_ret hb
  | some s => exact leaves_uploadSplit hb (ha s hs)

theorem leaves_image (hb : SharesDistinct b.db) (ha : ∀ s ∈ getLootSplitId b.db g,
      Apart b.db s g (words.filterMap (spelled env.toRuntime b.db g))) :
    (lootSplitPartyUploadCommand env g uploadId (some words)).Leaves
      (fun t => SharesDistinct t.db) b := by
  unfold lootSplitPartyUploadCommand
  refine Sql.solo_query_bind ?_ hb
  beta_reduce
  cases hs : getLootSplitId b.db g with
  | none => exact Sql.solo_ret hb
  | some s =>
    refine Sql.ok_bind.2 (Sql.Ok.imp (validNames_ok env.toRuntime words) ?_ ?_)
    · rintro names t ⟨rfl, hnames⟩
      split
      · exact Sql.solo_ret hb
      · have hbatch : (executeBatch (addPlayersToLootSplit uploadId s (names.filterMap id) g)).Within
            (fun r => Joining t.db s g (words.filterMap (spelled env.toRuntime t.db g)) r.db)
            fun _ _ => True := by
          apply Sql.within_script
          intro f hf r r' hr h
          obtain ⟨f, hmem, rfl⟩ := List.mem_map.1 hf
          obtain ⟨w, hw, rfl⟩ := List.mem_map.1 hmem
          obtain rfl := Option.some.inj h
          exact ⟨joining_listed (ha s hs) (hnames w hw) hr, trivial⟩
        apply Joining.shares
        refine Sql.Within.leaves (Sql.within_bind hbatch fun _ => ?_) (joining_self hb)
        split <;> trivial
    · rintro e t rfl
      exact hb

theorem run_image (hs : getLootSplitId b.db g = some splitId) :
    (Sql.run [] (lootSplitPartyUploadCommand env g uploadId (some words)) b).2.db.lootsplitPlayers =
      b.db.lootsplitPlayers.insertAll
        ((newMembers b.db splitId g (words.filterMap (spelled env.toRuntime b.db g))).map
          (splitRow uploadId splitId g)) := by
  have hnames : (words.map (spelled env.toRuntime b.db g)).filterMap id =
      words.filterMap (spelled env.toRuntime b.db g) := by
    rw [List.filterMap_map]
    rfl
  have hfold := foldl_addListedPlayer uploadId splitId g
    (words.filterMap (spelled env.toRuntime b.db g)) b.db
  unfold lootSplitPartyUploadCommand
  simp only [Sql.bind_eq, read, Sql.run_query_bind, hs]
  rw [Sql.run_bind, run_validNames]
  simp only [Sql.run_ite]
  split
  · rename_i hnil
    rw [List.map_eq_nil_iff.1 hnil]
    rfl
  · rw [Sql.run_bind, run_executeBatch, addPlayersToLootSplit, List.foldl_map, hnames, hfold]
    simp only [Sql.run_ite]
    split <;> rfl

/-- An upload of a split, under any faults and under none. -/
theorem start_upload (hstart : start env a b = some (b', p))
    (hup : upload env b a = some (splitId, g, names)) :
    (SharesDistinct b.db → Apart b.db splitId g names → ∀ fs, SharesDistinct (p.run fs b').2.db) ∧
      ∃ uploadId, (p.run [] b').2.db.lootsplitPlayers = b.db.lootsplitPlayers.insertAll
        ((newMembers b.db splitId g names).map (splitRow uploadId splitId g)) := by
  unfold upload at hup
  split at hup
  · rename_i g' u uploadId names'
    split at hup
    · rename_i hu
      obtain ⟨s, hs, he⟩ := Option.map_eq_some_iff.1 hup
      cases he
      cases hstart
      have hp : execute env g u (.lootSplitGuildUpload uploadId (.text names)) =
          lootSplitGuildUploadCommand g uploadId (.text names) := by
        simp [execute, requireRole, hu]
      rw [hp]
      refine ⟨fun hb ha => (leaves_text hb ?_).run, uploadId, ?_⟩
      · rw [hs]
        rintro _ ⟨⟩
        exact ha
      · unfold lootSplitGuildUploadCommand
        simp only [Sql.bind_eq, read, Sql.run_query_bind, hs]
        exact run_uploadSplit
    · cases hup
  · rename_i g' u uploadId words'
    split at hup
    · rename_i hu
      obtain ⟨s, hs, he⟩ := Option.map_eq_some_iff.1 hup
      cases he
      cases hstart
      have hp : execute env g u (.lootSplitPartyUpload uploadId (some words')) =
          lootSplitPartyUploadCommand env g uploadId (some words') := by
        simp [execute, requireRole, hu]
      rw [hp]
      refine ⟨fun hb ha => (leaves_image hb ?_).run, uploadId, run_image hs⟩
      rw [hs]
      rintro _ ⟨⟩
      exact ha
    · cases hup
  · rename_i j names' uploadId
    split at hup
    · rename_i s g' hj
      cases hup
      obtain ⟨_, hup', he⟩ := Option.map_eq_some_iff.1 hstart
      cases hj.symm.trans hup'
      cases he
      exact ⟨fun hb ha =>
        (leaves_uploadSplit (b := { b with pending := b.pending.eraseIdx j }) hb ha).run,
        uploadId, run_uploadSplit⟩
    · cases hup
  · cases hup

/-- The statements that are not of an upload. -/
theorem change_shares {m m' : Table SplitPlayer} (hc : MembersChange env b a m m')
    (ha : ∀ target g, ¬UploadsSplit env b a target g)
    (h : m.UniqueOn (fun _ => True) fun r => (r.splitId, LOWER r.username)) :
    m'.UniqueOn (fun _ => True) fun r => (r.splitId, LOWER r.username) := by
  cases hc with
  | same => exact h
  | add hno => exact shares_insert h hno
  | listed hup => exact absurd hup (ha _ _)
  | delete => exact Table.uniqueOn_delete h _
  | update hf =>
    refine Table.uniqueOn_update h fun v _ _ _ => ⟨trivial, ?_⟩
    rw [(hf v).1, (hf v).2]

theorem effect_shares {t t' : Bot} (he : Effect env b a t t')
    (ha : ∀ target g, ¬UploadsSplit env b a target g) (h : SharesDistinct t.db) :
    SharesDistinct t'.db := change_shares (effect_members he) ha h

/-- An upload that finds no split, and everything that is none. -/
theorem start_other (hstart : start env a b = some (b', p)) (hup : upload env b a = none)
    (hb : SharesDistinct b.db) (fs : List Bool) : SharesDistinct (p.run fs b').2.db := by
  by_cases ha : ∃ target g, UploadsSplit env b a target g
  · obtain ⟨target, g, ha⟩ := ha
    cases ha with
    | @text g u uploadId names hu =>
      cases hstart
      simp only [upload, hu, if_true, Option.map_eq_none_iff] at hup
      have hp : execute env g u (.lootSplitGuildUpload uploadId (.text names)) =
          lootSplitGuildUploadCommand g uploadId (.text names) := by
        simp [execute, requireRole, hu]
      rw [hp]
      exact (leaves_text hb (by simp [hup])).run fs
    | @image g u uploadId words hu =>
      cases hstart
      have hp : execute env g u (.lootSplitPartyUpload uploadId words) =
          lootSplitPartyUploadCommand env g uploadId words := by
        simp [execute, requireRole, hu]
      rw [hp]
      cases words with
      | none =>
        have hleaves : (lootSplitPartyUploadCommand env g uploadId none).Leaves
            (fun t => SharesDistinct t.db) b := by
          refine Sql.solo_query_bind ?_ hb
          beta_reduce
          cases getLootSplitId b.db g with
          | none => exact Sql.solo_ret hb
          | some s => exact Sql.solo_throw hb
        exact hleaves.run fs
      | some words =>
        simp only [upload, hu, if_true, Option.map_eq_none_iff] at hup
        exact (leaves_image hb (by simp [hup])).run fs
    | file hj => simp [upload, hj] at hup
  · obtain ⟨⟨hdb, -, -⟩, hk⟩ := start_within hstart
    have hshares : p.Within (fun s => SharesDistinct s.db) fun _ _ => True :=
      hk.imp (fun _ _ => trivial) fun s t hs he =>
        ⟨effect_shares he (fun target g hu => ha ⟨target, g, hu⟩) hs, trivial⟩
    exact (hshares.run (fun _ => trivial) (fun _ _ _ _ _ => trivial) fs (hdb ▸ hb)).1

theorem shares_step {e : Event Input Bot} (hstep : step env e.input e.before = some e.after)
    (hb : SharesDistinct e.before.db) (hC : BringsApart env e) : SharesDistinct e.after.db := by
  obtain ⟨b', p, hstart, hafter⟩ := step_eq_some hstep
  rw [hafter]
  cases hup : upload env e.before e.input.action with
  | none => exact start_other hstart hup hb e.input.faults
  | some x => exact (start_upload hstart hup).1 hb (hC x hup) e.input.faults

theorem shares_step_iff {e : Event Input Bot} (hquiet : ∀ f ∈ e.input.faults, f = false)
    (hstep : step env e.input e.before = some e.after) (hb : SharesDistinct e.before.db) :
    SharesDistinct e.after.db ↔ BringsApart env e := by
  refine ⟨fun hafter x hx => ?_, shares_step hstep hb⟩
  obtain ⟨b', p, hstart, heq⟩ := step_eq_some hstep
  obtain ⟨uploadId, htable⟩ := (start_upload hstart hx).2
  rw [heq, Sql.run_quiet hquiet, SharesDistinct, htable] at hafter
  exact apart_of_distinct hafter

/-- In a run from the empty database the shares of a split stay distinct, ignoring case, if
each upload brings names apart; where no statement throws, only then. -/
theorem one_share_each {es : List (Event Input Bot)} (h : Run (step env) Bot.empty es b) :
    ((∀ e ∈ es, BringsApart env e) → ∀ e ∈ es, SharesDistinct e.after.db) ∧
      ((∀ e ∈ es, ∀ f ∈ e.input.faults, f = false) →
        ((∀ e ∈ es, SharesDistinct e.after.db) ↔ ∀ e ∈ es, BringsApart env e)) := by
  have hempty : SharesDistinct Bot.empty.db := Table.uniqueOn_empty
  constructor
  · intro hC
    exact h.always (I := fun b => SharesDistinct b.db) hempty
      (fun e hc he hb => shares_step he hb hc) hC
  · intro hquiet
    exact h.always_iff_of (I := fun b => SharesDistinct b.db) hempty hquiet
      fun e hq he hb => shares_step_iff hq he hb

end Programs

/-- Bob is added to the split in small letters and then comes with the guild's list. -/
def spelledTwice : List Input :=
  opening ["Bob"] ++ [does (.add "bob" "U1"), does (.lootSplitGuildUpload "U2" (.text ["Bob"]))]

/-- The same with his name as the list has it. -/
def spelledOnce : List Input :=
  opening ["Bob"] ++ [does (.add "Bob" "U1"), does (.lootSplitGuildUpload "U2" (.text ["Bob"]))]

theorem one_share_each_spelledOnce :
    let es := trace (step Env.ascii) Bot.empty spelledOnce
    es.length = 5 ∧ (∀ e ∈ es, SharesDistinct e.after.db) :=
  ⟨by decide +kernel, (one_share_each (run_trace _ _ _)).1 (by decide +kernel)⟩

theorem two_shares :
    ∃ es, Run (step Env.ascii) Bot.empty es (endState spelledTwice) ∧
      ¬SharesDistinct (endState spelledTwice).db :=
  ⟨_, run_trace _ _ _, by decide +kernel⟩

end AtomComm.LootSplit
