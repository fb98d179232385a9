import AtomComm.Sanity.Sessions

/-! No member row, submission page or download is left without its session. Splits have no foreign
keys, and a command reads the split id some statements before it inserts it; but sessions are never
deleted, and keep their split id and guild. -/

namespace AtomComm.LootSplit

def HasSession (db : DB) (splitId : String) (g : ℤ) : Prop :=
  ∃ r ∈ db.lootsplitSessions.vals, r.splitId = splitId ∧ r.guildId = g

/-- Members and downloads belong to a session of their guild, and pages to a session. -/
structure Rooted (b : Bot) : Prop where
  members : ∀ m ∈ b.db.lootsplitPlayers.vals, HasSession b.db m.splitId m.guildId
  pages : ∀ page ∈ b.pages, ∃ g, HasSession b.db page.splitId g
  downloads : ∀ s g, .lootSplit s g ∈ b.pending → HasSession b.db s g

/-- No session is lost. -/
def Grows (b b' : Bot) : Prop := ∀ s g, HasSession b.db s g → HasSession b'.db s g

section
variable {env : Env} {b t t' : Bot} {a : Action} {g : ℤ} {s : String}

theorem Grows.refl (b : Bot) : Grows b b := fun _ _ h => h

theorem Grows.trans (a b c : Bot) (h : Grows a b) (h' : Grows b c) : Grows a c :=
  fun s g hs => h' s g (h s g hs)

theorem HasSession.kept {db db' : DB} (h : HasSession db s g) (hk : SessionsKept db db') :
    HasSession db' s g := by
  obtain ⟨r, hr, rfl, rfl⟩ := h
  obtain ⟨r', hr', hst⟩ := hk.mem hr
  exact ⟨r', hr', hst.splitId, hst.guildId⟩

theorem effect_grows (he : Effect env b a t t') : Grows t t' := by
  intro s g h
  by_cases ha : ∃ g u name splitId, a = .slash g u (.create name splitId)
  · obtain ⟨g', u, name, splitId, rfl⟩ := ha
    cases he with
    | create =>
      obtain ⟨r, hr, hs⟩ := h
      refine ⟨r, ?_, hs⟩
      simp only [createNewLootSplitSession, Table.vals_insert]
      exact List.mem_append_left _ hr
    | query | words | download => exact h
    | dropList hu | listName hu | listed hu => cases hu
    | pay hp => cases hp
  · exact h.kept (effect_sessions he fun g u name splitId hc => ha ⟨g, u, name, splitId, hc⟩)

/-- The actions whose statements may insert members. -/
def InsertsMembers (env : Env) (b : Bot) (a : Action) : Prop :=
  (∃ target g, UploadsSplit env b a target g) ∨ ∃ g u w uploadId, a = .slash g u (.add w uploadId)

/-- Every member was there, with the same split and guild. -/
theorem effect_members_back (he : Effect env b a t t') (ha : ¬InsertsMembers env b a) :
    ∀ m' ∈ t'.db.lootsplitPlayers.vals, ∃ m ∈ t.db.lootsplitPlayers.vals,
      m.splitId = m'.splitId ∧ m.guildId = m'.guildId := by
  have hupdate : ∀ (p : SplitPlayer → Bool) (f : SplitPlayer → SplitPlayer),
      (∀ m, (f m).splitId = m.splitId ∧ (f m).guildId = m.guildId) →
      ∀ m' ∈ (t.db.lootsplitPlayers.update p f).vals, ∃ m ∈ t.db.lootsplitPlayers.vals,
        m.splitId = m'.splitId ∧ m.guildId = m'.guildId := by
    intro p f hf m' hm'
    rw [Table.vals_update] at hm'
    obtain ⟨m, hm, rfl⟩ := List.mem_map.1 hm'
    refine ⟨m, hm, ?_⟩
    split
    · exact ⟨(hf m).1.symm, (hf m).2.symm⟩
    · exact ⟨rfl, rfl⟩
  have hsame : ∀ m' ∈ t.db.lootsplitPlayers.vals, ∃ m ∈ t.db.lootsplitPlayers.vals,
      m.splitId = m'.splitId ∧ m.guildId = m'.guildId := fun m' hm' => ⟨m', hm', rfl, rfl⟩
  cases he with
  | add => exact absurd (.inr ⟨_, _, _, _, rfl⟩) ha
  | listed hu => exact absurd (.inl ⟨_, _, hu⟩) ha
  | removePlayer =>
    intro m' hm'
    simp only [removePlayerFromLootSplit, Table.vals_delete] at hm'
    exact hsame m' (List.mem_filter.1 hm').1
  | half => exact hupdate _ _ fun _ => ⟨rfl, rfl⟩
  | pay _ hf hdb =>
    rcases payout_cases hf hdb with ⟨_, rfl⟩ | ⟨_, _, rfl⟩ | ⟨_, _, rfl⟩ | rfl
    · exact hsame
    · exact hupdate _ _ fun _ => ⟨rfl, rfl⟩
    · exact hsame
    · exact hsame
  | give _ hdb => obtain ⟨_, rfl⟩ := creditPlayers_some hdb; exact hsame
  | remove _ hdb => obtain ⟨_, rfl⟩ := creditPlayers_some hdb; exact hsame
  | listName => unfold uploadGuildName; split <;> exact hsame
  | _ => exact hsame

/-- A statement that inserts no members and opens no page or download. -/
theorem Rooted.effect (h : Rooted t) (he : Effect env b a t t') (ha : ¬InsertsMembers env b a)
    (hpages : t'.pages = t.pages) (hpending : t'.pending = t.pending) : Rooted t' := by
  have hgrow := effect_grows he
  refine ⟨fun m' hm' => ?_, fun page hpage => ?_, fun s g hs => ?_⟩
  · obtain ⟨m, hm, hsplit, hg⟩ := effect_members_back he ha m' hm'
    rw [← hsplit, ← hg]
    exact hgrow _ _ (h.members m hm)
  · rw [hpages] at hpage
    obtain ⟨g, hg⟩ := h.pages page hpage
    exact ⟨g, hgrow _ _ hg⟩
  · rw [hpending] at hs
    exact hgrow _ _ (h.downloads s g hs)

/-- A statement that inserts a member of a session. -/
theorem Rooted.insert (h : Rooted t) {m : SplitPlayer} (hm : HasSession t.db m.splitId m.guildId) :
    Rooted { t with db := { t.db with lootsplitPlayers := t.db.lootsplitPlayers.insert m } } := by
  refine ⟨fun m' hm' => ?_, h.pages, h.downloads⟩
  rw [Table.vals_insert] at hm'
  rcases List.mem_append.1 hm' with hm' | hm'
  · exact h.members m' hm'
  · obtain rfl := List.mem_singleton.1 hm'
    exact hm

theorem hasSession_of_active (h : getLootSplitId t.db g = some s) : HasSession t.db s g := by
  obtain ⟨r, hr, rfl⟩ := Option.map_eq_some_iff.1 h
  obtain ⟨hm, hg, -⟩ := activeSession_some hr
  exact ⟨r, hm, rfl, hg⟩

end

/-! ### Statements on the database alone -/

/-- A program that opens no page and starts no download. -/
abbrev OnDb {α : Type} (p : Cmd α) : Prop :=
  p.Within (fun _ => True) fun t t' => t'.pages = t.pages ∧ t'.pending = t.pending

section Within
variable {I : Bot → Prop} {G : Bot → Bot → Prop}

theorem within_tryWrite {f : DB → Option DB} (hf : ∀ t db, I t → f t.db = some db →
    I { t with db := db } ∧ G t { t with db := db }) : (tryWrite f).Within I G := by
  refine Sql.within_attempt fun t t' ht h => ?_
  obtain ⟨db, hdb, rfl⟩ := Option.map_eq_some_iff.1 h
  exact hf t db ht hdb

theorem within_onDb {fs : List (DB → Option DB)} (hf : ∀ f ∈ fs, ∀ t db, I t → f t.db = some db →
    I { t with db := db } ∧ G t { t with db := db }) :
    (Sql.script (fs.map onDb)).Within I G := by
  refine Sql.within_script fun _ hmem t t' ht h => ?_
  obtain ⟨f, hfs, rfl⟩ := List.mem_map.1 hmem
  obtain ⟨db, hdb, rfl⟩ := Option.map_eq_some_iff.1 h
  exact hf f hfs t db ht hdb

theorem within_executeBatch {fs : List (DB → DB)}
    (hf : ∀ f ∈ fs, ∀ t, I t → I { t with db := f t.db } ∧ G t { t with db := f t.db }) :
    (executeBatch fs).Within I G := by
  refine Sql.within_script fun _ hmem t t' ht h => ?_
  obtain ⟨f, hfs, rfl⟩ := List.mem_map.1 hmem
  obtain rfl := Option.some.inj h
  exact hf f hfs t ht

theorem within_addUsersToDatabase {insert : List String → List (DB → DB)}
    {batches : List (List String)}
    (hf : ∀ batch, ∀ f ∈ insert batch, ∀ t, I t →
      I { t with db := f t.db } ∧ G t { t with db := f t.db })
    (hwords : ∀ t, I t → I { t with db := postProcessPlayersTable t.db } ∧
      G t { t with db := postProcessPlayersTable t.db }) :
    (addUsersToDatabase insert batches).Within I G := by
  induction batches with
  | nil => exact within_tryWrite fun t db ht h => Option.some.inj h ▸ hwords t ht
  | cons batch rest ih =>
    refine Sql.within_bind (Sql.within_tryCatch ?_ fun _ => trivial) fun _ => ih
    exact within_executeBatch (hf batch)

end Within

section OnDb
variable {env : Env} {g : ℤ} {u : User} {α β : Type}

theorem onDb_read_bind {q : DB → α} {k : α → Cmd β} (hk : ∀ x, OnDb (k x)) :
    OnDb (read q >>= k) :=
  Sql.within_bind (Sql.within_query (fun _ => ⟨rfl, rfl⟩) _) hk

theorem onDb_tryWrite {f : DB → Option DB} : OnDb (tryWrite f) :=
  within_tryWrite fun _ _ _ _ => ⟨trivial, rfl, rfl⟩

theorem onDb_write_ret {f : DB → DB} {r : α} : OnDb (write f >>= fun _ => pure r) :=
  Sql.within_bind onDb_tryWrite fun _ => trivial

theorem onDb_ite {c : Prop} [Decidable c] {p q : Cmd α} (hp : OnDb p) (hq : OnDb q) :
    OnDb (if c then p else q) :=
  Sql.within_ite (fun _ => hp) fun _ => hq

theorem onDb_uploadGuildUsers {guildName : String} {names : List String} :
    OnDb (uploadGuildUsers guildName names g) := by
  refine onDb_read_bind fun _ => Sql.within_bind (onDb_ite onDb_tryWrite trivial) fun _ => ?_
  exact within_addUsersToDatabase (fun _ _ _ _ _ => ⟨trivial, rfl, rfl⟩)
    fun _ _ => ⟨trivial, rfl, rfl⟩

theorem onDb_guildUpload {guildName : String} {names : List String} :
    OnDb (uploadGuildUsers guildName names g >>= fun _ => sendGuildUploadPaginator names) :=
  Sql.within_bind onDb_uploadGuildUsers fun _ => onDb_ite trivial trivial

theorem onDb_confirm {page : Page} : OnDb (confirm u page) :=
  onDb_ite trivial (Sql.within_bind (within_onDb fun _ _ _ _ _ _ => ⟨trivial, rfl, rfl⟩)
    fun _ => trivial)

theorem within_getPaginatorEmbed {I : Bot → Prop} {G : Bot → Bot → Prop} {title : String}
    {info : Session} {amount : Option Double} (hG : ∀ t, G t t) :
    (getPaginatorEmbed env title g info amount).Within I G := by
  refine Sql.within_bind (Sql.within_query hG _) fun _ => ?_
  refine Sql.within_bind (Sql.within_query hG _) fun _ => ?_
  exact Sql.within_bind (Sql.within_query hG _) fun _ => trivial

theorem onDb_info {splitId : String} : OnDb (lootSplitInfoCommand env g splitId) := by
  refine onDb_read_bind fun _ => onDb_ite trivial (onDb_read_bind fun figures => ?_)
  cases figures with
  | none => trivial
  | some figures =>
    refine onDb_read_bind fun _ => onDb_read_bind fun info => ?_
    cases info with
    | none => trivial
    | some info =>
      exact Sql.within_bind (within_getPaginatorEmbed fun _ => ⟨rfl, rfl⟩) fun _ => trivial

theorem onDb_requireRole {p : Cmd Reply} (hp : OnDb p) : OnDb (requireRole env u p) :=
  onDb_ite trivial hp

/-- The commands that may start a download, open a page or insert members. -/
def opens : Command → Bool
  | .guildUpload _ .file => true
  | .add .. => true
  | .lootSplitGuildUpload .. => true
  | .lootSplitPartyUpload .. => true
  | .confirm .. => true
  | _ => false

theorem onDb_execute {c : Command} (hc : opens c = false) : OnDb (execute env g u c) := by
  cases c with
  | give | remove => exact onDb_ite trivial (Sql.within_bind onDb_tryWrite fun _ => trivial)
  | register | unregister =>
    refine onDb_ite trivial (onDb_read_bind fun _ => onDb_ite trivial ?_)
    exact onDb_read_bind fun _ => onDb_ite trivial onDb_write_ret
  | bal =>
    refine onDb_read_bind fun _ => onDb_ite trivial ?_
    exact onDb_read_bind fun _ => onDb_read_bind fun _ => trivial
  | leaderboard => exact onDb_read_bind fun _ => onDb_ite trivial trivial
  | guestsetup role duration =>
    change OnDb (guestSetupCommand env g u role duration)
    unfold guestSetupCommand
    cases getAsInt duration with
    | none => trivial
    | some d => exact onDb_ite trivial onDb_write_ret
  | guildUpload guildName source =>
    refine onDb_requireRole ?_
    cases source with
    | text names => exact onDb_guildUpload
    | file => cases hc
    | _ => trivial
  | guildRemove | guildRemoveUser | guildAddUser => exact onDb_requireRole onDb_write_ret
  | create =>
    refine onDb_requireRole (onDb_read_bind fun _ => onDb_ite trivial ?_)
    exact onDb_read_bind fun _ => onDb_ite trivial onDb_write_ret
  | removePlayer =>
    refine onDb_requireRole (onDb_read_bind fun _ => onDb_read_bind fun _ => onDb_ite trivial ?_)
    exact onDb_read_bind fun _ => onDb_ite trivial onDb_write_ret
  | half =>
    refine onDb_requireRole (onDb_read_bind fun _ => onDb_read_bind fun _ => ?_)
    exact onDb_ite trivial onDb_write_ret
  | set silver items =>
    refine onDb_requireRole ?_
    unfold lootSplitSetCommand
    cases getAsInt silver <;> cases getAsInt items <;> try trivial
    refine onDb_read_bind fun _ => onDb_ite trivial ?_
    exact onDb_read_bind fun _ => onDb_write_ret
  | info => exact onDb_requireRole onDb_info
  | list => exact onDb_read_bind fun _ => onDb_ite trivial trivial
  | add | lootSplitGuildUpload | lootSplitPartyUpload | confirm => cases hc

end OnDb

/-! ### The commands -/

section Commands
variable {env : Env} {b b' : Bot} {a : Action} {g : ℤ} {u : User} {s : String} {α : Type}

/-- No session is lost by the others either. -/
abbrev rootedContract : Sql.Contract Bot := ⟨Rooted, Grows, Grows⟩

/-- Keeps the contract, whatever it ends in. -/
abbrev KeepsRooted (p : Cmd α) (t : Bot) : Prop :=
  p.Ok rootedContract (fun _ _ => True) (fun _ _ => True) t

theorem rooted_within {p : Cmd α} (hk : Keeps env b a p) (hp : OnDb p)
    (ha : ¬InsertsMembers env b a) : p.Within Rooted Grows := by
  refine (hk.and hp).imp (fun _ _ => ⟨trivial, trivial⟩) fun t t' ht he => ?_
  obtain ⟨he, hpages, hpending⟩ := he
  exact ⟨ht.effect he ha hpages hpending, effect_grows he⟩

theorem rooted_read_bind {β : Type} {q : DB → β} {k : β → Cmd α} {t : Bot} (ht : Rooted t)
    (hk : ∀ t, Rooted t → KeepsRooted (k (q t.db)) t) : KeepsRooted (read q >>= k) t :=
  Sql.ok_query_bind ht Grows.refl (fun t _ ht => hk t ht) fun _ _ => trivial

theorem rooted_ret {t : Bot} (x : α) : KeepsRooted (pure x) t := fun _ _ => trivial

/-- `A` is what a program knows of the sessions. -/
theorem rooted_while {A : Bot → Prop} {p : Cmd α} {t : Bot}
    (hp : p.Within (fun t => Rooted t ∧ A t) Grows) (hA : ∀ s t, Grows s t → A s → A t)
    (ht : Rooted t) (hAt : A t) : KeepsRooted p t :=
  hp.ok_while (fun s t hst _ => hA s t hst) ht hAt

/-- What follows the reading of the guild's split id may rely on its session. -/
theorem rooted_splitId {k : Option String → Cmd α} {t : Bot} (ht : Rooted t)
    (hk : ∀ o, (k o).Within (fun t => Rooted t ∧ ∀ s ∈ o, HasSession t.db s g) Grows) :
    KeepsRooted (read (getLootSplitId · g) >>= k) t := by
  refine rooted_read_bind ht fun t ht => rooted_while (hk _) ?_ ht ?_
  · exact fun _ _ hgrow h s hs => hgrow s g (h s hs)
  · exact fun s hs => hasSession_of_active hs

theorem within_add {w uploadId : String} {o : Option String} :
    (tryWrite (addPlayerToLootSplit o uploadId w g)).Within
      (fun t => Rooted t ∧ ∀ s ∈ o, HasSession t.db s g) Grows := by
  refine within_tryWrite fun t db ⟨ht, ho⟩ hdb => ?_
  rcases addPlayer_cases hdb with rfl | ⟨s, rfl, -, -, rfl⟩
  · exact ⟨⟨ht, ho⟩, Grows.refl t⟩
  · exact ⟨⟨ht.insert (ho s rfl), ho⟩, Grows.refl t⟩

theorem addListed_rooted {w uploadId : String} {t : Bot} (ht : Rooted t)
    (hs : HasSession t.db s g) :
    let t' : Bot := { t with db := addListedPlayer uploadId s w g t.db }
    (Rooted t' ∧ HasSession t'.db s g) ∧ Grows t t' := by
  rcases listed_cases uploadId s w g t.db with hsame | ⟨-, -, hins⟩
  · rw [hsame]
    exact ⟨⟨ht, hs⟩, Grows.refl t⟩
  · rw [hins]
    exact ⟨⟨ht.insert hs, hs⟩, Grows.refl t⟩

theorem within_addPlayers {uploadId : String} {names : List String} :
    (executeBatch (addPlayersToLootSplit uploadId s names g)).Within
      (fun t => Rooted t ∧ HasSession t.db s g) Grows := by
  refine within_executeBatch fun f hf t ht => ?_
  obtain ⟨name, -, rfl⟩ := List.mem_map.1 hf
  exact addListed_rooted ht.1 ht.2

theorem within_uploadSplitPlayers {uploadId : String} {names : List String} :
    (uploadSplitPlayers s uploadId names g).Within
      (fun t => Rooted t ∧ HasSession t.db s g) Grows := by
  refine Sql.within_bind (within_addUsersToDatabase ?_ ?_) fun _ =>
    Sql.within_bind ?_ fun _ => trivial
  · intro batch f hf t ht
    obtain ⟨name, -, rfl⟩ := List.mem_map.1 hf
    exact addListed_rooted ht.1 ht.2
  · exact fun t ht => ⟨⟨⟨ht.1.members, ht.1.pages, ht.1.downloads⟩, ht.2⟩, Grows.refl t⟩
  · exact Sql.within_tryCatch (Sql.within_query Grows.refl _) fun _ => trivial

theorem within_download {I : Bot → Prop} {upload : Upload}
    (hI : ∀ t, I t → I { t with pending := t.pending ++ [upload] }) :
    (download upload >>= fun _ => pure Reply.downloading).Within I Grows :=
  Sql.within_bind (Sql.within_exec fun t ht => ⟨hI t ht, Grows.refl t⟩) fun _ => trivial

theorem within_getValidNames {I : Bot → Prop} {G : Bot → Bot → Prop} {rt : Runtime}
    {words : List String} (hG : ∀ t, G t t) :
    (getValidNamesFromImage rt g words).Within I G := by
  induction words with
  | nil => trivial
  | cons word words ih =>
    refine Sql.within_bind ?_ fun _ => Sql.within_bind ih fun _ => trivial
    refine Sql.within_ite (fun _ => trivial) fun _ => Sql.within_tryCatch ?_ fun _ => trivial
    refine Sql.within_bind (Sql.within_query hG _) fun _ => ?_
    exact Sql.within_ite (fun _ => trivial) fun _ => Sql.within_query hG _

/-- A page is opened for the session that `/lootsplit confirm` read. -/
theorem within_openPage {amount : Option Double} :
    (openPage u g s amount).Within (fun t => Rooted t ∧ ∃ g, HasSession t.db s g) Grows := by
  refine Sql.within_exec fun t ⟨ht, hs⟩ => ⟨⟨⟨ht.members, fun page hpage => ?_, ht.downloads⟩, hs⟩,
    Grows.refl t⟩
  rcases List.mem_append.1 hpage with hold | hnew
  · exact ht.pages page hold
  · obtain rfl := List.mem_singleton.1 hnew
    exact hs

theorem rooted_confirmCommand {splitId : String} {t : Bot} (ht : Rooted t) :
    KeepsRooted (lootSplitConfirmCommand env g u splitId) t := by
  refine rooted_read_bind ht fun t ht => ?_
  split
  · exact rooted_ret _
  refine rooted_read_bind ht fun t ht => ?_
  split
  · exact fun _ _ => trivial
  refine rooted_read_bind ht fun t ht => rooted_read_bind ht fun t ht => ?_
  split
  · exact fun _ _ => trivial
  rename_i info hinfo
  refine rooted_while (A := fun t => ∃ g, HasSession t.db info.splitId g) ?_ ?_ ht ?_
  · refine Sql.within_bind (within_getPaginatorEmbed Grows.refl) fun pages => ?_
    exact Sql.within_bind within_openPage fun _ => trivial
  · exact fun _ _ hgrow ⟨g, h⟩ => ⟨g, hgrow _ _ h⟩
  · obtain ⟨hm, -⟩ := splitId_of_info hinfo
    exact ⟨info.guildId, info, hm, rfl, rfl⟩

theorem rooted_requireRole {p : Cmd Reply} {t : Bot} (hp : KeepsRooted p t) :
    KeepsRooted (requireRole env u p) t := by
  unfold requireRole
  split
  · exact rooted_ret _
  · exact hp

theorem not_insertsMembers {c : Command} (hc : opens c = false) :
    ¬InsertsMembers env b (.slash g u c) := by
  rintro (⟨_, _, hu⟩ | ⟨_, _, _, _, hu⟩)
  · cases hu <;> cases hc
  · cases hu
    cases hc

theorem rooted_execute {c : Command} {t : Bot} (ht : Rooted t) :
    KeepsRooted (execute env g u c) t := by
  by_cases hc : opens c = false
  · exact (rooted_within (keeps_execute (b := t) c) (onDb_execute hc) (not_insertsMembers hc)).ok ht
  · cases c with
    | guildUpload guildName source =>
      refine rooted_requireRole ?_
      cases source with
      | file =>
        refine (within_download fun t ht => ⟨ht.members, ht.pages, fun s g hs => ?_⟩).ok ht
        exact ht.downloads s g (by simpa using hs)
      | _ => simp [opens] at hc
    | add w uploadId =>
      refine rooted_requireRole (rooted_splitId ht fun o => ?_)
      refine Sql.within_bind (Sql.within_query Grows.refl _) fun _ => ?_
      refine Sql.within_ite (fun _ => trivial) fun _ => ?_
      refine Sql.within_bind (Sql.within_query Grows.refl _) fun _ => ?_
      refine Sql.within_ite (fun _ => trivial) fun _ => ?_
      exact Sql.within_bind within_add fun _ => trivial
    | lootSplitGuildUpload uploadId source =>
      refine rooted_requireRole (rooted_splitId ht fun o => ?_)
      cases o with
      | none => trivial
      | some s =>
        cases source with
        | text names => simpa using within_uploadSplitPlayers
        | file =>
          refine within_download fun t ⟨ht, hs⟩ => ⟨⟨ht.members, ht.pages, fun s' g' h => ?_⟩, hs⟩
          rcases List.mem_append.1 h with hold | hnew
          · exact ht.downloads s' g' hold
          · cases List.mem_singleton.1 hnew
            exact hs s rfl
        | _ => trivial
    | lootSplitPartyUpload uploadId words =>
      refine rooted_requireRole (rooted_splitId ht fun o => ?_)
      cases o with
      | none => trivial
      | some s =>
        cases words with
        | none => trivial
        | some words =>
          refine Sql.within_bind (within_getValidNames Grows.refl) fun names => ?_
          refine Sql.within_ite (fun _ => trivial) fun _ => ?_
          refine Sql.within_bind ?_ fun _ => Sql.within_ite (fun _ => trivial) fun _ => trivial
          simpa using within_addPlayers
    | confirm splitId => exact rooted_requireRole (rooted_confirmCommand ht)
    | _ => simp [opens] at hc

theorem Rooted.prepared (h : Rooted b) (hp : Prepared b b') : Rooted b' := by
  obtain ⟨hdb, hpending, hpages⟩ := hp
  refine ⟨fun m hm => ?_, fun page hpage => ?_, fun s g hs => ?_⟩
  · rw [hdb] at hm ⊢
    exact h.members m hm
  · have hids : b'.pages.map Page.splitId = b.pages.map Page.splitId := by
      have hmap := congrArg (List.map Page.splitId) hpages
      rwa [List.map_map, List.map_map] at hmap
    obtain ⟨page', hpage', hsplit⟩ := List.mem_map.1 (hids ▸ List.mem_map_of_mem hpage)
    rw [hdb, ← hsplit]
    exact h.pages page' hpage'
  · rw [hdb]
    exact h.downloads s g (hpending.subset hs)

/-- What an action does at its start, and the program it then runs. -/
theorem rooted_start {p : Cmd Reply} (h : start env a b = some (b', p)) (hb : Rooted b) :
    Rooted b' ∧ Grows b b' ∧ KeepsRooted p b' := by
  obtain ⟨hp, hk⟩ := start_within h
  have hb' := hb.prepared hp
  have hgrow : Grows b b' := fun s g hs => by rw [hp.1]; exact hs
  refine ⟨hb', hgrow, ?_⟩
  cases a with
  | slash g u c =>
    cases h
    exact rooted_execute hb'
  | press i u button =>
    refine (rooted_within hk ?_ ?_).ok hb'
    · obtain ⟨page, -, he⟩ := Option.map_eq_some_iff.1 h
      unfold onButtonInteraction at he
      split at he
      · cases he
        trivial
      · cases button <;> cases he
        · exact onDb_confirm
        · trivial
    · rintro (⟨_, _, hu⟩ | ⟨_, _, _, _, hu⟩) <;> cases hu
  | complete j names uploadId =>
    obtain ⟨upload, hupload, he⟩ := Option.map_eq_some_iff.1 h
    cases he
    cases upload with
    | guild guildName g =>
      refine (rooted_within hk onDb_guildUpload ?_).ok hb'
      rintro (⟨_, _, hu⟩ | ⟨_, _, _, _, hu⟩)
      · cases hu with
        | file hp => cases hp.symm.trans hupload
      · cases hu
    | lootSplit s g =>
      refine rooted_while within_uploadSplitPlayers (fun _ _ hgrow => hgrow s g) hb' ?_
      exact hgrow s g (hb.downloads s g (List.mem_of_getElem? hupload))

end Commands

theorem rooted_empty : Rooted Bot.empty :=
  ⟨fun _ h => (nomatch h), fun _ h => (nomatch h), fun _ _ h => (nomatch h)⟩

theorem system_rooted (env : Env) :
    (system env).Disciplined Rooted (fun _ => Grows) fun _ => Grows where
  start _ _ _ _ hI := fun ⟨_, _, hst⟩ => rooted_start hst hI
  compat _ _ _ _ _ h := h
  refl _ := Grows.refl

theorem Reachable.rooted {env : Env} {b : Bot} (h : Reachable env b) : Rooted b := by
  obtain ⟨P, hP, rfl⟩ := h
  exact (System.good_reaches (system_rooted env) (System.good_idle rooted_empty) hP).inv

/-- Whatever the order of the statements and the faults, no member, page or download refers to
a session that is not there, and no session is lost. -/
theorem no_orphans {env : Env} {P P' : Pool Thread Bot Reply}
    (h : (system env).Reaches (System.idle Bot.empty) P) (h' : (system env).Reaches P P') :
    Rooted P'.state ∧ Grows P.state P'.state := by
  have hgood := System.good_reaches (system_rooted env) (System.good_idle rooted_empty) h
  refine ⟨(System.good_reaches (system_rooted env) hgood h').inv, ?_⟩
  exact System.rel_reaches (system_rooted env) Grows.refl Grows.trans (fun _ _ _ hG => hG) hgood h'

theorem no_orphans_submitted : Rooted submitted ∧ Grows Bot.empty submitted :=
  no_orphans Relation.ReflTransGen.refl (run_reaches (run_trace (step Env.ascii) _ submission))

/-! ### The pages of a split

They count the members of the split in the guild, and list those of the split in any guild. -/

section Pages
variable {env : Env} {b : Bot} {g : ℤ} {u : User} {splitId : String} {info : Session}

/-- Members are of the guild of the split's session. -/
theorem Rooted.guildId (h : Rooted b) (hids : SplitIdsUnique b.db)
    (hinfo : getLootSplitSessionInfo b.db splitId = some info) :
    ∀ m ∈ b.db.lootsplitPlayers.vals, m.splitId = splitId → m.guildId = info.guildId := by
  intro m hm hs
  obtain ⟨r, hr, hrs, hrg⟩ := h.members m hm
  obtain ⟨hi, his⟩ := splitId_of_info hinfo
  obtain ⟨q, hq, rfl⟩ := Table.mem_vals.1 hr
  obtain ⟨q', hq', rfl⟩ := Table.mem_vals.1 hi
  have hsame : q = q' := hids q hq q' hq' trivial trivial (by rw [hrs, hs, his])
  rw [← hrg, hsame]

theorem length_members (db : DB) (splitId : String) :
    (getHalfSplitPlayers db splitId).length + (getFullSplitPlayers db splitId).length =
      db.lootsplitPlayers.count fun m => m.splitId = splitId := by
  rw [Table.count, List.countP_eq_countP_filter_add _ _ SplitPlayer.isHalved, List.countP_filter,
    List.countP_filter, getHalfSplitPlayers, getFullSplitPlayers, List.length_map,
    List.length_map, Table.select, Table.select, ← List.countP_eq_length_filter,
    ← List.countP_eq_length_filter]

theorem Rooted.playersCount (h : Rooted b) (hids : SplitIdsUnique b.db)
    (hinfo : getLootSplitSessionInfo b.db splitId = some info) :
    getLootSplitPlayersCount b.db splitId g =
      if info.guildId = g then b.db.lootsplitPlayers.count fun m => m.splitId = splitId
      else 0 := by
  have hguild := h.guildId hids hinfo
  rw [getLootSplitPlayersCount, Table.count]
  split
  · rename_i hg
    refine List.countP_congr fun m hm => ?_
    by_cases hs : m.splitId = splitId
    · simp [hs, hguild m hm hs, hg]
    · simp [hs]
  · rename_i hg
    refine List.countP_eq_zero.2 fun m hm => ?_
    by_cases hs : m.splitId = splitId
    · simp [hs, hguild m hm hs, hg]
    · simp [hs]

/-- What the pages of a split say of its members. -/
def ShowsMembers (db : DB) (g : ℤ) (splitId : String) (pages : SplitPages) : Prop :=
  ∃ info, getLootSplitSessionInfo db splitId = some info ∧
    let n := if info.guildId = g then pages.members.length else 0
    pages.memberCount = n ∧ pages.payoutPerPlayer = amountToSplit info.silver info.items n

theorem run_splitFigures_shows {title : String}
    {k : Session → Option Double → SplitPages → Cmd Reply}
    (hk : ∀ info amount pages fs t r t', (k info amount pages).run fs t = (.ok r, t') →
      r = .split pages)
    (h : Rooted b) (hids : SplitIdsUnique b.db) {fs : List Bool} {pages : SplitPages} {t : Bot}
    (hrun : (splitFigures env title g splitId k).run fs b = (.ok (.split pages), t)) :
    ShowsMembers b.db g splitId pages := by
  simp only [splitFigures, read, Sql.bind_eq, Sql.pure_eq, Sql.run_ite, Sql.run_faulty_query_bind,
    Sql.run_ret] at hrun
  split at hrun
  · cases hrun
  split at hrun
  · cases hrun
  split at hrun
  · cases hrun
  cases hinfo : getLootSplitSessionInfo b.db splitId with
  | none => simp [getLootSplitSilverAndItems, hinfo] at hrun
  | some info =>
    obtain ⟨-, rfl⟩ := splitId_of_info hinfo
    simp only [getLootSplitSilverAndItems, hinfo, Option.map_some, getPaginatorEmbed,
      read, Sql.bind_eq, Sql.pure_eq, Sql.bind_assoc, Sql.ret_bind,
      Sql.run_faulty_query_bind] at hrun
    iterate 5
      split at hrun
      · cases hrun
    have hpages := hk _ _ _ _ _ _ _ hrun
    injection hpages with hpages
    have hlength : pages.members.length =
        b.db.lootsplitPlayers.count fun m => m.splitId = info.splitId := by
      rw [hpages, List.length_mergeSort, List.length_append]
      exact length_members b.db info.splitId
    refine ⟨info, hinfo, ?_⟩
    rw [hlength, ← h.playersCount hids hinfo, hpages]
    exact ⟨rfl, rfl⟩

end Pages

end AtomComm.LootSplit
