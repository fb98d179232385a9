import AtomComm.Sanity.Embeds
import AtomComm.Spec.GuildBot.Pages
import AtomComm.Spec.LootSplit.Pages

/-! What is on the pages of a list. The entries are on them in the order of the list, each on
one page, and only the last page may have room left. The footers count the pages that were
built; of a submission that is one more than the members take, for its cover. -/

namespace AtomComm

open Paging

/-- The footers run from 1 to the number of the pages. -/
def FootersCount {ε : Type} (footer : ε → Option String) (pages : List ε) : Prop :=
  ∀ p (hp : p < pages.length),
    footer pages[p] = some ("Page " ++ toString (p + 1) ++ " of " ++ toString pages.length)

theorem footersCount_mapIdx {ε α : Type} {footer : ε → Option String} {xs : List α}
    {page : ℕ → α → ε} {total : ℕ} (htotal : total = xs.length)
    (h : ∀ p x, footer (page p x) = LootSplit.pageFooter p total) :
    FootersCount footer (xs.mapIdx page) := by
  intro p hp
  rw [List.getElem_mapIdx, h, List.length_mapIdx, htotal]
  rfl

theorem mapM_id_mapIdx {α ε : Type} (page : ℕ → α → ε) (xs : List α) :
    (xs.mapIdx fun p x => some (page p x)).mapM id = some (xs.mapIdx page) := by
  rw [mapM_eq_some]
  apply List.ext_getElem
  · simp
  · intro p hp hp'
    simp

namespace LootSplit

/-! ### The loot split bot -/

def membersPage (total : ℕ) (currentPage totalPages : ℕ) (players : List String) : Embed :=
  ⟨"Members in Loot Split", some (playersContent total players), [],
    pageFooter currentPage totalPages⟩

theorem embeds_eq (formatter : DecimalFormat) (s : SplitPages) :
    s.embeds formatter = firstPage formatter s (ceilDiv s.members.length 10 + 1) ::
      (chunks 10 s.members).mapIdx fun p c =>
        membersPage s.members.length (1 + p) (ceilDiv s.members.length 10 + 1) c := by
  exact congrArg _ (loop_chunks s.members _ (fun _ => rfl)
    (fun currentPage c => membersPage s.members.length currentPage
      (ceilDiv s.members.length 10 + 1) c) 1)

theorem embeds_footers (formatter : DecimalFormat) (s : SplitPages) :
    FootersCount Embed.footer (s.embeds formatter) := by
  have hlen : (s.embeds formatter).length = ceilDiv s.members.length 10 + 1 := by
    rw [embeds_eq, List.length_cons, List.length_mapIdx, length_chunks_eq (by decide)]
  intro p hp
  rw [hlen]
  simp only [embeds_eq]
  cases p with
  | zero => rfl
  | succ p =>
    rw [List.getElem_cons_succ, List.getElem_mapIdx, membersPage, Nat.add_comm 1 p]
    rfl

theorem get_of_mem (m : OrderedMap) {e : String × Double} (h : e ∈ m.entries) :
    m.get e.1 = some e.2 := by
  obtain ⟨entries, hnodup⟩ := m
  unfold OrderedMap.get
  induction entries with
  | nil => cases h
  | cons x xs ih =>
    rw [List.map_cons, List.nodup_cons] at hnodup
    rcases List.mem_cons.1 h with rfl | h
    · simp
    · have hne : x.1 ≠ e.1 := fun he => hnodup.1 (he ▸ List.mem_map_of_mem h)
      rw [List.find?_cons_of_neg (by simpa using hne)]
      exact ih hnodup.2 h

/-- The values that are looked up are those of the entries. -/
theorem withValues_eq (players : OrderedMap) {c : List ((String × Double) × ℕ)}
    (hc : ∀ e ∈ c, e.1 ∈ players.entries) :
    withValues players (c.map fun e => (e.1.1, e.2)) = some c := by
  have hlookup : ∀ n ∈ c.map (fun e => (e.1.1, e.2)), (players.get n.1).map
      (fun value => ((n.1, value), n.2)) = some ((n.1, (players.get n.1).getD (.fin 0)), n.2) := by
    intro n hn
    obtain ⟨e, he, rfl⟩ := List.mem_map.1 hn
    simp [get_of_mem players (hc e he)]
  unfold withValues
  rw [mapM_some hlookup, List.map_map]
  congr 1
  conv_rhs => rw [← List.map_id c]
  refine List.map_congr_left fun e he => ?_
  simp [get_of_mem players (hc e he)]

theorem leaderboardEmbeds_eq (formatter : DecimalFormat) (players : OrderedMap) :
    leaderboardEmbeds formatter players =
      some ((chunks 10 players.entries.zipIdx).mapIdx fun p c => leaderboardPage formatter c
        (pageFooter p (ceilDiv players.entries.length 10))) := by
  have hkeys : players.keySet.zipIdx = players.entries.zipIdx.map fun e => (e.1.1, e.2) := by
    rw [OrderedMap.keySet, List.zipIdx_map]
    rfl
  have hnext : ∀ i, i < i + usersPerPage := fun i => by unfold usersPerPage; omega
  have hloop := loop_entries (k := 10) players.keySet hnext (fun _ => rfl)
    (fun currentPage c => (withValues players c).map fun entries => leaderboardPage formatter
      entries (pageFooter currentPage (ceilDiv players.entries.length 10))) 0
  unfold leaderboardEmbeds
  rw [show players.entries.length = players.keySet.length from (List.length_map _).symm] at hloop ⊢
  refine (congrArg (fun pages => pages.mapM id) hloop).trans ?_
  rw [← mapM_id_mapIdx]
  congr 1
  rw [hkeys, chunks_map]
  apply List.ext_getElem
  · simp
  · intro p hp hp'
    simp only [List.getElem_mapIdx, List.getElem_map]
    rw [withValues_eq players fun e he => ?_]
    · simp
    · have hmem : e ∈ players.entries.zipIdx := by
        rw [← (paged_chunks (by decide) players.entries.zipIdx : Paged 10 _ _).flatten]
        exact List.mem_flatten.2 ⟨_, List.getElem_mem _, he⟩
      exact (List.mem_zipIdx' hmem).2 ▸ List.getElem_mem _

theorem createMessageEmbeds_eq (toTitleCase : String → String)
    (sessions : List (String × String × Status)) :
    createMessageEmbeds toTitleCase sessions = (chunks 5 sessions).map fun c =>
      ⟨"LootSplit Sessions", none, c.map (sessionField toTitleCase), none⟩ := by
  have hrange := range_chunks (k := 5) (by decide) sessions fun c =>
    (⟨"LootSplit Sessions", none, c.map (sessionField toTitleCase), none⟩ : Embed)
  rw [← hrange]
  unfold createMessageEmbeds fieldsPerEmbed
  simp only [List.map_map]
  rfl

end LootSplit

namespace GuildBot

/-! ### The attendance bot -/

/-- Both dates of a CTA can be read. -/
def CtaInfo.Dated (cta : CtaInfo) : Prop :=
  (getInstantFromString cta.startTime).isSome ∧ (getInstantFromString cta.endTime).isSome

instance (cta : CtaInfo) : Decidable cta.Dated := inferInstanceAs (Decidable (_ ∧ _))

theorem addField_isSome {capitalize : String → String} {cta : CtaInfo} :
    (CTA.addField capitalize cta).isSome ↔ cta.Dated := by
  unfold CTA.addField CtaInfo.Dated
  cases getInstantFromString cta.startTime <;> cases getInstantFromString cta.endTime <;> simp

theorem listPage_eq (capitalize : String → String) {ctas : List CtaInfo} (footer : Option String)
    (h : ∀ cta ∈ ctas, cta.Dated) : ∃ fields, ctas.mapM (CTA.addField capitalize) = some fields ∧
      CTA.listPage capitalize ctas footer = some ⟨"CTA List", none, fields, footer⟩ := by
  have hfields : ∀ cta ∈ ctas, CTA.addField capitalize cta =
      some ((CTA.addField capitalize cta).getD ⟨"", "", false⟩) := by
    intro cta hcta
    obtain ⟨field, hf⟩ := Option.isSome_iff_exists.1 (addField_isSome.2 (h cta hcta))
    rw [hf, Option.getD_some]
  refine ⟨_, mapM_some hfields, ?_⟩
  rw [CTA.listPage, mapM_some hfields]
  rfl

theorem getCTAsListPaginator_eq {capitalize : String → String} {ctas : List CtaInfo}
    (hne : ctas ≠ []) : CTA.getCTAsListPaginator capitalize ctas =
      ((chunks 5 ctas).mapIdx fun p c => CTA.listPage capitalize c
        (pageFooter p (ceilDiv ctas.length 5))).mapM id := by
  have hnext : ∀ i, i < i + (CTA.namesPerPage - 1) + 1 := fun i => by omega
  have hloop := loop_chunks (k := 5) ctas hnext (fun i => by unfold CTA.namesPerPage; omega)
    (fun currentPage c => CTA.listPage capitalize c
      (pageFooter currentPage (ceilDiv ctas.length 5))) 0
  simp only [Nat.zero_add] at hloop
  rw [CTA.getCTAsListPaginator, if_neg hne]
  exact congrArg (fun pages => pages.mapM id) hloop

/-- The chunks have the dates of the list. -/
theorem getCTAsListPaginator_dated (capitalize : String → String) {ctas : List CtaInfo}
    (hne : ctas ≠ []) (h : ∀ cta ∈ ctas, cta.Dated) :
    ∃ pages, CTA.getCTAsListPaginator capitalize ctas = some pages ∧
      Shown 5 ctas (fun c => c.mapM (CTA.addField capitalize))
        (pages.map fun page => some page.fields) ∧ FootersCount Embed.footer pages := by
  have hchunk : ∀ c ∈ chunks 5 ctas, ∀ cta ∈ c, cta.Dated := by
    intro c hc cta hcta
    apply h
    rw [← (paged_chunks (by decide) ctas : Paged 5 _ _).flatten]
    exact List.mem_flatten.2 ⟨c, hc, hcta⟩
  set page : ℕ → List CtaInfo → Embed := fun p c =>
    ⟨"CTA List", none, (c.mapM (CTA.addField capitalize)).getD [],
      pageFooter p (ceilDiv ctas.length 5)⟩ with hpage
  have hpages : ((chunks 5 ctas).mapIdx fun p c => CTA.listPage capitalize c
      (pageFooter p (ceilDiv ctas.length 5))) = (chunks 5 ctas).mapIdx fun p c => some (page p c) := by
    apply List.ext_getElem
    · simp
    · intro p hp hp'
      obtain ⟨fields, hf, hlist⟩ := listPage_eq capitalize
        (pageFooter p (ceilDiv ctas.length 5)) (hchunk _ (List.getElem_mem (by simpa using hp)))
      simp only [List.getElem_mapIdx, hlist, hpage, hf, Option.getD_some]
  refine ⟨(chunks 5 ctas).mapIdx page, ?_, ?_, ?_⟩
  · rw [getCTAsListPaginator_eq hne, hpages, mapM_id_mapIdx]
  · refine ⟨chunks 5 ctas, paged_chunks (by decide) ctas, ?_⟩
    apply List.ext_getElem
    · simp
    · intro p hp hp'
      obtain ⟨fields, hf, -⟩ := listPage_eq capitalize none
        (hchunk _ (List.getElem_mem (by simpa using hp)))
      simp [hpage, hf]
  · exact footersCount_mapIdx (length_chunks_eq (by decide) ctas).symm fun p c => rfl

end GuildBot

open LootSplit GuildBot

end AtomComm
