import AtomComm.Sanity.Calendar
import AtomComm.Sanity.Pages
import AtomComm.Spec.LootSplit.Paginators

/-! Names in a format. The tables of both bots are put together first and then formatted, so
a `%` of a name begins a specifier. When the table is reached no argument is left, and what
is printed for a specifier has fewer of its characters than the specifier. -/

namespace AtomComm

open StringUtils

/-! ### The check of a guild -/

namespace GuildBot

section Members
variable {env : Env} {db : DB} {g : ℤ} {c : String} {n : ℤ}

theorem getLast_line (m : String × Status × ℤ) : ∀ d ∈ (memberLine m).toList.getLast?, d ≠ '|' := by
  have hne : ∀ k, (LocalDateTime.pad 2 k).toList ≠ [] := by
    intro k
    rw [toList_pad]
    simp [Nat.toDigits_ne_nil]
  intro d hd hbar
  have hlast : (memberLine m).toList.getLast? =
      some ((LocalDateTime.pad 2 (LocalDateTime.ofInstant m.2.2).second).toList.getLast (hne _)) := by
    simp only [memberLine, getStringFromInstant, LocalDateTime.format, String.toList_append,
      List.getLast?_append, List.getLast?_eq_some_getLast (hne _), Option.some_or]
  rw [hlast] at hd
  have hdigit := isDigit_pad (List.getLast_mem (hne (LocalDateTime.ofInstant m.2.2).second))
  rw [Option.mem_some.1 hd, hbar] at hdigit
  cases hdigit

/-- Of a line there are always a first and a second piece. -/
theorem readMember_some (m : String × Status × ℤ) : ∃ e, readMember (memberLine m) = some e := by
  have hinf : ['|', '|', '|'] <:+: (memberLine m).toList := by
    refine ⟨m.1.toList, (m.2.1.text ++ "|||" ++ getStringFromInstant m.2.2).toList, ?_⟩
    simp [memberLine]
  have hlast : ∀ d ∈ (memberLine m).toList.getLast?, d ∉ ['|', '|', '|'] := by
    intro d hd
    simpa using getLast_line m d hd
  obtain ⟨p, q, ps, hsplit⟩ := Text.split_second hinf (by simp) hlast
  exact ⟨_, by rw [readMember, hsplit]⟩

/-- What the page of a party shows of its members. -/
def displayedEntries (db : DB) (g : ℤ) (c : String) (n : ℤ) : List (String × String) :=
  ((getPartyMembers db c g n).filterMap fun m => readMember (memberLine m)).take namesPerPage

theorem partyPage_displayed {fmt : Formatter} {footer : Option String} :
    partyPage fmt n (getPartyMembers db c g n) footer =
      (Format.run fmt.print [n] none ⟨1, some 0⟩ (partyTable (displayedEntries db g c n)).toList).map
        fun out => ⟨"Check Guild Members", partyHead n ++ String.ofList out, footer⟩ := by
  have hread : ((getPartyMembers db c g n).mapM fun m => readMember (memberLine m)) =
      some ((getPartyMembers db c g n).filterMap fun m => readMember (memberLine m)) := by
    rw [mapM_eq_some]
    induction getPartyMembers db c g n with
    | nil => rfl
    | cons m ms ih =>
      obtain ⟨e, he⟩ := readMember_some m
      simp only [List.filterMap_cons, he, List.map_cons, ih]
  rw [partyPage_eq, hread, Option.bind_some, displayedEntries]

/-- The last pages are those of the parties, each with the cells of its entries one after the
other below its head. -/
def EntriesShown (parties : List ℤ) (entries : ℤ → List (String × String))
    (pages : List MessageEmbed) : Prop :=
  ∃ absents : List MessageEmbed, ∃ tables : ℤ → String,
    pages = absents ++ (parties.mapIdx fun i n => ⟨"Check Guild Members", partyHead n ++ tables n,
      pageFooter (absents.length + i) (parties.length + absents.length)⟩) ∧
    ∀ n ∈ parties, Format.InOrder ((entries n).flatMap cells) (tables n).toList

theorem partyPage_shown {fmt : Formatter} {footer : Option String} :
    (∃ table, partyPage fmt n (getPartyMembers db c g n) footer =
        some ⟨"Check Guild Members", partyHead n ++ table, footer⟩ ∧
      Format.InOrder ((displayedEntries db g c n).flatMap cells) table.toList) ↔
      ∀ t ∈ (displayedEntries db g c n).flatMap cells, '%' ∉ t := by
  rw [partyPage_displayed]
  exact embed_shown (Nat.le_refl 1) laid_partyTable

theorem partyPages_shown {fmt : Formatter} {absentees : List String} {parties : List ℤ} :
    (∃ tables : ℤ → String, partyPages fmt db g c absentees parties =
        some (parties.mapIdx fun i n => ⟨"Check Guild Members", partyHead n ++ tables n,
          pageFooter (absenteesPagesCount absentees + i)
            (parties.length + absenteesPagesCount absentees)⟩) ∧
      ∀ n ∈ parties, Format.InOrder ((displayedEntries db g c n).flatMap cells) (tables n).toList) ↔
    ∀ n ∈ parties, ∀ t ∈ (displayedEntries db g c n).flatMap cells, '%' ∉ t := by
  constructor
  · rintro ⟨tables, hpages, hin⟩ n hn
    obtain ⟨i, hi, rfl⟩ := List.getElem_of_mem hn
    have hpage := (@partyPages_eq_some _ _ _ _ _ _ fun n footer =>
      ⟨"Check Guild Members", partyHead n ++ tables n, footer⟩).1 hpages i hi
    exact partyPage_shown.1 ⟨_, hpage, hin _ hn⟩
  · intro h
    refine ⟨fun n => partyTable (displayedEntries db g c n), ?_, fun n _ => laid_partyTable.order⟩
    refine (@partyPages_eq_some _ _ _ _ _ _ fun n footer =>
      listingPage n (displayedEntries db g c n) footer).2 fun i hi => ?_
    have hclean := h _ (List.getElem_mem hi)
    rw [partyPage_displayed, Format.run_plain (laid_partyTable.not_mem rfl hclean),
      Option.map_some, String.ofList_toList]
    rfl

end Members

section Check
variable {fmt : Formatter} {env : Env} {b : Bot} {g : ℤ} {c : String}

/-- What is displayed when the statuses of the absentees have been written back. -/
def displayed (env : Env) (g : ℤ) (c : String) (b : Bot) (n : ℤ) : List (String × String) :=
  displayedEntries (rechecked env g c b (getAbsentees b.db g c)).db g c n

/-- The check shows its entries exactly if the pages of the parties do. -/
theorem entriesShown_iff {absentees : List String} {parties : List ℤ}
    {entries : ℤ → List (String × String)} (habs : getAbsentees b.db g c = absentees)
    (hpar : getParties b.db c g = parties) :
    (∃ pages t, (getPaginatorEmbed fmt env g c).run [] b = (.ok pages, t) ∧
        EntriesShown parties entries pages) ↔
      ∃ tables : ℤ → String, partyPages fmt (rechecked env g c b absentees).db g c absentees parties =
          some (parties.mapIdx fun i n => ⟨"Check Guild Members", partyHead n ++ tables n,
            pageFooter (absenteesPagesCount absentees + i)
              (parties.length + absenteesPagesCount absentees)⟩) ∧
        ∀ n ∈ parties, Format.InOrder ((entries n).flatMap cells) (tables n).toList := by
  rw [run_getPaginatorEmbed habs hpar]
  have hchunks : ∀ total, ((chunksOf env g c b absentees).mapIdx fun k lines =>
      absenteesPage (String.join lines) (pageFooter k total)).length =
        absenteesPagesCount absentees := by
    intro total
    rw [List.length_mapIdx, length_chunksOf]
  constructor
  · rintro ⟨pages, t, hrun, absents, tables, hpages, hin⟩
    refine ⟨tables, ?_, hin⟩
    cases hps : partyPages fmt (rechecked env g c b absentees).db g c absentees parties with
    | none => simp [hps] at hrun
    | some ps =>
      have hlen : ps.length = parties.length := by
        simpa using congrArg List.length (mapM_eq_some.1 hps)
      by_cases hne : parties = []
      · rw [hne, List.length_nil, List.length_eq_zero_iff] at hlen
        rw [hlen, hne, List.mapIdx_nil]
      · simp only [hps, hne, false_and, if_false] at hrun
        rw [← Except.ok.inj (Prod.mk.inj hrun).1] at hpages
        obtain ⟨habsents, hparties⟩ := List.append_inj' hpages (by simpa using hlen)
        rw [hparties, ← habsents, hchunks]
  · rintro ⟨tables, hpages, hin⟩
    rw [hpages]
    refine ⟨_, _, rfl, ?_⟩
    by_cases hnone : parties = [] ∧ absentees = []
    · rw [if_pos hnone, hnone.1]
      exact ⟨[nobodyPage], fun _ => "", rfl, fun _ hn => absurd hn List.not_mem_nil⟩
    · rw [if_neg hnone]
      exact ⟨_, tables, by rw [hchunks], hin⟩

theorem check_shown : (∃ pages t, (getPaginatorEmbed fmt env g c).run [] b = (.ok pages, t) ∧
      EntriesShown (getParties b.db c g) (displayed env g c b) pages) ↔
    ∀ n ∈ getParties b.db c g, ∀ t ∈ (displayed env g c b n).flatMap cells, '%' ∉ t := by
  rw [entriesShown_iff rfl rfl]
  exact partyPages_shown

theorem forall_cells {entries : List (String × String)} : (∀ t ∈ entries.flatMap cells, '%' ∉ t) ↔
    ∀ e ∈ entries, '%' ∉ e.1.toList ∧ '%' ∉ (right e.2 25).toList := by
  simp only [List.mem_flatMap, cells, List.mem_cons, List.not_mem_nil, or_false]
  constructor
  · exact fun h e he => ⟨h _ ⟨e, he, .inl rfl⟩, h _ ⟨e, he, .inr rfl⟩⟩
  · rintro h t ⟨e, he, rfl | rfl⟩
    · exact (h e he).1
    · exact (h e he).2

end Check

end GuildBot

/-! ### The page of an uploaded party -/

section Uploaded
variable {fmt : Formatter} {n : ℤ} {names statuses : List String}

theorem map_singleton {α : Type*} {x : Option α} {a : α} : x.map ([·]) = some [a] ↔ x = some a := by
  cases x <;> simp

namespace GuildBot

/-- What stands between the number of an uploaded party and its table. -/
def uploadHint : String :=
  "**:\n" ++ "*(You can re-upload the image to update the party)*\n" ++
    "Please manually use `/cta party add <username>` to add players not detected\n\n"

/-- The text above the table. -/
def detectedHead (n : ℤ) : String :=
  "The following usernames have been detected \nfor Party number **" ++ String.ofList (Text.ofInt n) ++
    uploadHint

theorem not_mem_uploadHint : '%' ∉ uploadHint.toList := by
  have hretry : '%' ∉ "*(You can re-upload the image to update the party)*\n".toList := by decide
  have hadd : '%' ∉ "Please manually use `/cta party add <username>` to add players not detected\n\n".toList := by
    decide
  unfold uploadHint
  rw [String.toList_append, String.toList_append, List.mem_append, List.mem_append]
  rintro ((h | h) | h)
  · exact absurd h (by decide)
  · exact hretry h
  · exact hadd h

theorem getPaginatorEmbed2_eq {content : String} (h : namesContent names statuses = some content) :
    getPaginatorEmbed2 fmt n names statuses =
      ((Format.run fmt.print [n] none ⟨1, some 0⟩ content.toList).map fun out =>
        ⟨"Detected Names", detectedHead n ++ String.ofList out, some "Page 1 of 1"⟩).map ([·]) := by
  have hnumber : "The following usernames have been detected \nfor Party number **%s**:\n" =
      "The following usernames have been detected \nfor Party number **" ++ "%s" ++ "**:\n" := by
    decide
  have htext : "The following usernames have been detected \nfor Party number **%s**:\n" ++
      "*(You can re-upload the image to update the party)*\n" ++
      "Please manually use `/cta party add <username>` to add players not detected\n\n" ++ content =
      "The following usernames have been detected \nfor Party number **" ++ "%s" ++
        (uploadHint ++ content) := by
    rw [hnumber]
    unfold uploadHint
    simp only [String.append_assoc]
  have hformat := @Formatter.format_text fmt
    "The following usernames have been detected \nfor Party number **" content n uploadHint
    (by decide) not_mem_uploadHint
  unfold getPaginatorEmbed2
  simp only [Option.bind_eq_bind, h, Option.bind_some]
  rw [htext, hformat]
  unfold detectedHead
  simp only [Option.map_eq_bind, Option.bind_assoc]
  rfl

theorem upload_shown (hn : 20 ≤ names.length) (hs : 20 ≤ statuses.length) :
    (∃ text, getPaginatorEmbed2 fmt n names statuses =
          some [⟨"Detected Names", detectedHead n ++ text, some "Page 1 of 1"⟩] ∧
        Format.InOrder (namesCells names statuses) text.toList) ↔
      ∀ name ∈ names.take 20, '%' ∉ name.toList := by
  obtain ⟨content, hcontent, hlaid⟩ := laid_namesContent hn hs
  rw [getPaginatorEmbed2_eq hcontent, ← @forall_namesCells names statuses hn]
  simp only [map_singleton]
  exact embed_shown (Nat.le_refl 1) hlaid

end GuildBot

namespace LootSplit

/-- The text above the table. -/
def detectedHead : String :=
  "The following usernames have been detected \nfor the Party:\n" ++
    "*(You can re-upload the image to update the party)*\n\n"

theorem not_mem_detectedHead : '%' ∉ detectedHead.toList := by
  have hdetected : '%' ∉ "The following usernames have been detected \nfor the Party:\n".toList := by
    decide
  have hretry : '%' ∉ "*(You can re-upload the image to update the party)*\n\n".toList := by decide
  unfold detectedHead
  rw [String.toList_append, List.mem_append, not_or]
  exact ⟨hdetected, hretry⟩

theorem getPaginatorEmbed2_eq {content : String} (h : namesContent names statuses = some content) :
    getPaginatorEmbed2 fmt names statuses =
      ((Format.run fmt.print [] none ⟨0, none⟩ content.toList).map fun out =>
        ⟨"Detected Names", detectedHead ++ String.ofList out, some "Page 1 of 1"⟩).map ([·]) := by
  have hformat : fmt.format (detectedHead ++ content) [] =
      (Format.run fmt.print [] none ⟨0, none⟩ content.toList).map fun out =>
        detectedHead ++ String.ofList out := by
    rw [Formatter.format, Format.format, String.toList_append,
      Format.run_append not_mem_detectedHead, Option.map_map]
    refine Option.map_congr fun out _ => ?_
    simp only [Function.comp, String.ofList_append, String.ofList_toList]
  unfold getPaginatorEmbed2
  simp only [Option.bind_eq_bind, h, Option.bind_some]
  unfold detectedHead at hformat ⊢
  rw [hformat]
  simp only [Option.map_eq_bind, Option.bind_assoc]
  rfl

theorem upload_shown (hn : 20 ≤ names.length) (hs : 20 ≤ statuses.length) :
    (∃ text, getPaginatorEmbed2 fmt names statuses =
          some [⟨"Detected Names", detectedHead ++ text, some "Page 1 of 1"⟩] ∧
        Format.InOrder (namesCells names statuses) text.toList) ↔
      ∀ name ∈ names.take 20, '%' ∉ name.toList := by
  obtain ⟨content, hcontent, hlaid⟩ := laid_namesContent hn hs
  rw [getPaginatorEmbed2_eq hcontent, ← @forall_namesCells names statuses hn]
  simp only [map_singleton]
  exact embed_shown (Nat.le_refl 0) hlaid

end LootSplit

/-- The pages of both bots show the names of a party as they are, without an exception,
exactly when none that is displayed has a `%`: the check of a guild the names and statuses cut
out of the lines of the members, an upload the twenty names that the image was matched with. -/
theorem names_shown (env : GuildBot.Env) (b : GuildBot.Bot) (g : ℤ) (c : String)
    (hn : 20 ≤ names.length) (hs : 20 ≤ statuses.length) :
    ((∃ pages t, (GuildBot.getPaginatorEmbed fmt env g c).run [] b = (.ok pages, t) ∧
        GuildBot.EntriesShown (GuildBot.getParties b.db c g) (GuildBot.displayed env g c b) pages) ↔
      ∀ n ∈ GuildBot.getParties b.db c g, ∀ e ∈ GuildBot.displayed env g c b n,
        '%' ∉ e.1.toList ∧ '%' ∉ (right e.2 25).toList) ∧
    ((∃ text, GuildBot.getPaginatorEmbed2 fmt n names statuses =
          some [⟨"Detected Names", GuildBot.detectedHead n ++ text, some "Page 1 of 1"⟩] ∧
        Format.InOrder (namesCells names statuses) text.toList) ↔
      ∀ name ∈ names.take 20, '%' ∉ name.toList) ∧
    ((∃ text, LootSplit.getPaginatorEmbed2 fmt names statuses =
          some [⟨"Detected Names", LootSplit.detectedHead ++ text, some "Page 1 of 1"⟩] ∧
        Format.InOrder (namesCells names statuses) text.toList) ↔
      ∀ name ∈ names.take 20, '%' ∉ name.toList) := by
  refine ⟨?_, GuildBot.upload_shown hn hs, LootSplit.upload_shown hn hs⟩
  rw [GuildBot.check_shown]
  exact forall₂_congr fun n _ => GuildBot.forall_cells

end Uploaded

/-- A CTA with one member, who is in party 1. -/
def alone (name : String) : List GuildBot.Input :=
  GuildBot.opening [name] ++ [GuildBot.does (.partyAdd 1 name)]

theorem names_shown_bobby :
    (∃ pages t, (GuildBot.getPaginatorEmbed Formatter.plain GuildBot.Env.ascii 1 "CTA1").run []
        (GuildBot.endState (alone "Bobby")) = (.ok pages, t) ∧
      GuildBot.EntriesShown (GuildBot.getParties (GuildBot.endState (alone "Bobby")).db "CTA1" 1)
        (GuildBot.displayed GuildBot.Env.ascii 1 "CTA1" (GuildBot.endState (alone "Bobby"))) pages) ∧
    (∃ text, GuildBot.getPaginatorEmbed2 Formatter.plain 1 (List.replicate 20 "Bobby")
        (List.replicate 20 "present") =
          some [⟨"Detected Names", GuildBot.detectedHead 1 ++ text, some "Page 1 of 1"⟩] ∧
      Format.InOrder (namesCells (List.replicate 20 "Bobby") (List.replicate 20 "present"))
        text.toList) ∧
    ∃ text, LootSplit.getPaginatorEmbed2 Formatter.plain (List.replicate 20 "Bobby")
        (List.replicate 20 "present") =
          some [⟨"Detected Names", LootSplit.detectedHead ++ text, some "Page 1 of 1"⟩] ∧
      Format.InOrder (namesCells (List.replicate 20 "Bobby") (List.replicate 20 "present"))
        text.toList := by
  have hnames : ∀ name ∈ (List.replicate 20 "Bobby").take 20, '%' ∉ name.toList := by decide
  obtain ⟨hcheck, hparty, hsplit⟩ := @names_shown Formatter.plain 1 (List.replicate 20 "Bobby")
    (List.replicate 20 "present") GuildBot.Env.ascii (GuildBot.endState (alone "Bobby")) 1 "CTA1"
    (by decide) (by decide)
  exact ⟨hcheck.2 (by decide +kernel), hparty.2 hnames, hsplit.2 hnames⟩

/-- The name is put in the format, where its `%` begins a specifier. -/
theorem percent_not_shown :
    GuildBot.displayed GuildBot.Env.ascii 1 "CTA1" (GuildBot.endState (alone "100%")) 1 =
        [("100%", "present")] ∧
      (¬∃ pages t, (GuildBot.getPaginatorEmbed Formatter.plain GuildBot.Env.ascii 1 "CTA1").run []
          (GuildBot.endState (alone "100%")) = (.ok pages, t) ∧
        GuildBot.EntriesShown (GuildBot.getParties (GuildBot.endState (alone "100%")).db "CTA1" 1)
          (GuildBot.displayed GuildBot.Env.ascii 1 "CTA1" (GuildBot.endState (alone "100%"))) pages) ∧
      (¬∃ text, GuildBot.getPaginatorEmbed2 Formatter.plain 1 (List.replicate 20 "100%")
          (List.replicate 20 "present") =
            some [⟨"Detected Names", GuildBot.detectedHead 1 ++ text, some "Page 1 of 1"⟩] ∧
        Format.InOrder (namesCells (List.replicate 20 "100%") (List.replicate 20 "present"))
          text.toList) ∧
      ¬∃ text, LootSplit.getPaginatorEmbed2 Formatter.plain (List.replicate 20 "100%")
          (List.replicate 20 "present") =
            some [⟨"Detected Names", LootSplit.detectedHead ++ text, some "Page 1 of 1"⟩] ∧
        Format.InOrder (namesCells (List.replicate 20 "100%") (List.replicate 20 "present"))
          text.toList := by
  have hnames : ¬∀ name ∈ (List.replicate 20 "100%").take 20, '%' ∉ name.toList := by decide
  refine ⟨by decide +kernel, ?_, ?_, ?_⟩
  · rw [GuildBot.check_shown]
    decide +kernel
  · rw [GuildBot.upload_shown (by decide) (by decide)]
    exact hnames
  · rw [LootSplit.upload_shown (by decide) (by decide)]
    exact hnames

end AtomComm
