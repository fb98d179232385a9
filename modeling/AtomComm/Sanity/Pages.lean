import AtomComm.Lib.Paging
import AtomComm.Sanity.Detection
import AtomComm.Sanity.Embeds
import AtomComm.Spec.GuildBot.Pages

/-! What the check of a guild puts on its pages when no statement fails. The absentees are
listed in the order of the query, twenty to a page, each with the status that was written
back when its turn came; then comes a page for each party. -/

namespace AtomComm.GuildBot

/-! ### The pages as functions of their lines -/

def nobodyPage : MessageEmbed :=
  ⟨"Check Guild Members", "No online members in the guild have been detected.", none⟩

def partyTitle (n : ℤ) : String := "<< Party " ++ String.ofList (Text.ofInt n) ++ " >>"

/-- The text above the table of a party. -/
def partyHead (n : ℤ) : String :=
  "The following usernames have been detected for Party number **" ++ String.ofList (Text.ofInt n) ++
    "**:\n*(You can re-upload the image to update the party)*\n\n" ++ tableHeader (partyTitle n)

/-- The table of a party with a line for each entry. -/
def partyTable (entries : List (String × String)) : String :=
  String.join (entries.mapIdx fun j e => tableLine j e.1 e.2) ++
    (if entries = [] then StringUtils.center "No members detected" 60 ++ "\n" else "") ++ "```"

def listingPage (n : ℤ) (entries : List (String × String)) (footer : Option String) : MessageEmbed :=
  ⟨"Check Guild Members", partyHead n ++ partyTable entries, footer⟩

/-- The pages with the given lines of absentees and the given entries of the parties. -/
def checkPages (chunks : List (List String)) (parties : List (ℤ × List (String × String))) :
    List MessageEmbed :=
  if chunks = [] ∧ parties = [] then [nobodyPage]
  else (chunks.mapIdx fun k lines =>
      absenteesPage (String.join lines) (pageFooter k (parties.length + chunks.length))) ++
    parties.mapIdx fun i p =>
      listingPage p.1 p.2 (pageFooter (chunks.length + i) (parties.length + chunks.length))

/-! ### The loop over the absentees -/

section Absentees
variable {env : Env} {g : ℤ} {c : String} {b : Bot} {absentees : List String}

/-- The bot when `j` absentees have been listed. -/
def listedTo (env : Env) (g : ℤ) (c : String) (b : Bot) (absentees : List String) (j : ℕ) : Bot :=
  { b with db := (absentees.take j).foldl (refresh env g c) b.db }

/-- The bot when the status of every absentee has been written back. -/
def rechecked (env : Env) (g : ℤ) (c : String) (b : Bot) (absentees : List String) : Bot :=
  { b with db := absentees.foldl (refresh env g c) b.db }

/-- The lines of all absentees. -/
def checkLines (env : Env) (g : ℤ) (c : String) (b : Bot) (absentees : List String) : List String :=
  absentees.mapIdx fun j name =>
    tableLine j name (shownStatus env (listedTo env g c b absentees j).db g c name).text

theorem listedTo_ge {j : ℕ} (h : absentees.length ≤ j) :
    listedTo env g c b absentees j = rechecked env g c b absentees := by
  rw [listedTo, List.take_of_length_le h, rechecked]

theorem listedTo_succ {j : ℕ} {name : String} (h : absentees[j]? = some name) :
    { listedTo env g c b absentees j with
      db := refresh env g c (listedTo env g c b absentees j).db name } =
      listedTo env g c b absentees (j + 1) := by
  simp only [listedTo, List.take_add_one, h, List.foldl_append]
  rfl

theorem run_absenteeLines (j n : ℕ) :
    (absenteeLines env g c absentees j n).run [] (listedTo env g c b absentees j) =
      (.ok (String.join (((checkLines env g c b absentees).drop j).take n)),
        listedTo env g c b absentees (j + n)) := by
  induction n generalizing j with
  | zero => simp [absenteeLines]
  | succ n ih =>
    rw [absenteeLines]
    cases hj : absentees[j]? with
    | none =>
      have hlen := List.getElem?_eq_none_iff.1 hj
      have hdrop : (checkLines env g c b absentees).drop j = [] := by
        rw [List.drop_eq_nil_iff, checkLines, List.length_mapIdx]
        exact hlen
      rw [hdrop, listedTo_ge hlen, listedTo_ge (show absentees.length ≤ j + (n + 1) by omega)]
      simp
    | some name =>
      have hline : (checkLines env g c b absentees)[j]? = some (tableLine j name
          (shownStatus env (listedTo env g c b absentees j).db g c name).text) := by
        simp [checkLines, hj]
      obtain ⟨hlt, hget⟩ := List.getElem?_eq_some_iff.1 hline
      simp only [Sql.bind_eq, Sql.run_bind, run_getPlayerStatus, listedTo_succ hj, ih (j + 1)]
      rw [List.drop_eq_getElem_cons hlt, hget]
      simp [Nat.add_comm, Nat.add_left_comm]

end Absentees

/-! ### The loop over the pages -/

section Pages
variable {fmt : Formatter} {env : Env} {g : ℤ} {c : String} {b : Bot} {absentees : List String}
  {parties : List ℤ}

/-- The lines of the page `k`. -/
def window (lines : List String) (k : ℕ) : List String := (lines.drop (namesPerPage * k)).take namesPerPage

theorem run_checkPage_listed {k : ℕ} (hk : k < absenteesPagesCount absentees) :
    (checkPage fmt env g c absentees parties k).run []
        (listedTo env g c b absentees (namesPerPage * k)) =
      (.ok (absenteesPage (String.join (window (checkLines env g c b absentees) k))
          (pageFooter k (parties.length + absenteesPagesCount absentees))),
        listedTo env g c b absentees (namesPerPage * (k + 1))) := by
  rw [checkPage]
  simp only [if_pos hk, Sql.bind_eq, Sql.run_bind, run_absenteeLines]
  rfl

theorem run_checkPage_party {i : ℕ} {n : ℤ} (hi : parties[i]? = some n) :
    (checkPage fmt env g c absentees parties (absenteesPagesCount absentees + i)).run [] b =
      match partyPage fmt n (getPartyMembers b.db c g n)
        (pageFooter (absenteesPagesCount absentees + i)
          (parties.length + absenteesPagesCount absentees)) with
      | some page => (.ok page, b)
      | none => (.error .runtime, b) := by
  have hno : ¬absenteesPagesCount absentees + i < absenteesPagesCount absentees := by omega
  rw [checkPage]
  simp only [if_neg hno, Nat.add_sub_cancel_left, hi, Sql.bind_eq, read, Sql.run_query_bind]
  split
  · rename_i h
    simp [h]
  · rename_i page h
    simp [h]

/-- The pages of the absentees come first, one after the other. -/
theorem run_pagesFrom_listed {m r k : ℕ} (h : k + m ≤ absenteesPagesCount absentees)
    {res : Except Exn (List MessageEmbed)} {t : Bot}
    (hrest : (pagesFrom fmt env g c absentees parties (k + m) r).run []
      (listedTo env g c b absentees (namesPerPage * (k + m))) = (res, t)) :
    (pagesFrom fmt env g c absentees parties k (r + m)).run []
        (listedTo env g c b absentees (namesPerPage * k)) =
      (res.map (((List.range' k m).map fun k =>
        absenteesPage (String.join (window (checkLines env g c b absentees) k))
          (pageFooter k (parties.length + absenteesPagesCount absentees))) ++ ·), t) := by
  induction m generalizing k with
  | zero =>
    rw [Nat.add_zero] at hrest
    rw [Nat.add_zero, hrest]
    cases res <;> rfl
  | succ m ih =>
    rw [show k + (m + 1) = k + 1 + m by omega] at hrest h
    have htail := ih h hrest
    have hk : k < absenteesPagesCount absentees := by omega
    rw [← Nat.add_assoc, pagesFrom]
    simp only [Sql.bind_eq, Sql.run_bind, run_checkPage_listed hk, htail]
    cases res with
    | error e => rfl
    | ok pages => simp [Except.map, List.range'_succ]

theorem run_pagesFrom_parties {i : ℕ} {ns : List ℤ} (h : parties.drop i = ns) :
    (pagesFrom fmt env g c absentees parties (absenteesPagesCount absentees + i) ns.length).run [] b =
      match (ns.zipIdx (absenteesPagesCount absentees + i)).mapM fun p =>
        partyPage fmt p.1 (getPartyMembers b.db c g p.1)
          (pageFooter p.2 (parties.length + absenteesPagesCount absentees)) with
      | some pages => (.ok pages, b)
      | none => (.error .runtime, b) := by
  induction ns generalizing i with
  | nil => rfl
  | cons n ns ih =>
    have hi : parties[i]? = some n := by
      rw [← List.head?_drop, h, List.head?_cons]
    have hrest : parties.drop (i + 1) = ns := by
      rw [← List.tail_drop, h, List.tail_cons]
    have htail := ih hrest
    rw [List.length_cons, pagesFrom, List.zipIdx_cons, List.mapM_cons]
    simp only [Sql.bind_eq, Sql.run_bind, run_checkPage_party hi]
    rw [Nat.add_assoc]
    cases partyPage fmt n (getPartyMembers b.db c g n) (pageFooter (absenteesPagesCount absentees + i)
      (parties.length + absenteesPagesCount absentees)) with
    | none => rfl
    | some page =>
      simp only [htail]
      cases (ns.zipIdx (absenteesPagesCount absentees + (i + 1))).mapM fun p =>
          partyPage fmt p.1 (getPartyMembers b.db c g p.1)
            (pageFooter p.2 (parties.length + absenteesPagesCount absentees)) with
      | none => rfl
      | some pages => rfl

/-- The lines of the absentees, page by page. -/
def chunksOf (env : Env) (g : ℤ) (c : String) (b : Bot) (absentees : List String) :
    List (List String) :=
  (List.range (absenteesPagesCount absentees)).map (window (checkLines env g c b absentees))

theorem length_le_pages (absentees : List String) :
    absentees.length ≤ namesPerPage * absenteesPagesCount absentees := by
  unfold namesPerPage absenteesPagesCount namesPerPage
  omega

theorem length_chunksOf :
    (chunksOf env g c b absentees).length = absenteesPagesCount absentees := by
  simp [chunksOf]

theorem flatten_chunksOf :
    (chunksOf env g c b absentees).flatten = checkLines env g c b absentees := by
  unfold chunksOf window
  rw [Paging.flatten_windows, List.take_of_length_le]
  rw [checkLines, List.length_mapIdx]
  exact length_le_pages _

theorem map_window (total : ℕ) :
    ((List.range' 0 (absenteesPagesCount absentees)).map fun k =>
        absenteesPage (String.join (window (checkLines env g c b absentees) k)) (pageFooter k total)) =
      (chunksOf env g c b absentees).mapIdx fun k lines =>
        absenteesPage (String.join lines) (pageFooter k total) := by
  apply List.ext_getElem
  · simp [chunksOf]
  · intro k h h'
    simp [chunksOf]

theorem run_pagesFrom :
    (pagesFrom fmt env g c absentees parties 0
        (parties.length + absenteesPagesCount absentees)).run [] b =
      match (parties.zipIdx (absenteesPagesCount absentees)).mapM fun p =>
        partyPage fmt p.1 (getPartyMembers (rechecked env g c b absentees).db c g p.1)
          (pageFooter p.2 (parties.length + absenteesPagesCount absentees)) with
      | some pages =>
        (.ok (((chunksOf env g c b absentees).mapIdx fun k lines =>
          absenteesPage (String.join lines)
            (pageFooter k (parties.length + absenteesPagesCount absentees))) ++ pages),
          rechecked env g c b absentees)
      | none => (.error .runtime, rechecked env g c b absentees) := by
  have hdone : listedTo env g c b absentees
      (namesPerPage * (0 + absenteesPagesCount absentees)) = rechecked env g c b absentees := by
    rw [Nat.zero_add, listedTo_ge (length_le_pages _)]
  have hparties := @run_pagesFrom_parties fmt env g c (rechecked env g c b absentees) absentees
    parties 0 _ rfl
  rw [List.drop_zero, Nat.add_zero, ← hdone, Nat.zero_add] at hparties
  have hrun := fun res h => @run_pagesFrom_listed fmt env g c b absentees parties
    (absenteesPagesCount absentees) parties.length 0 (Nat.le_of_eq (Nat.zero_add _)) res
      (rechecked env g c b absentees) h
  simp only [Nat.zero_add, Nat.mul_zero, map_window] at hrun hdone
  rw [hdone] at hparties hrun
  cases hpages : (parties.zipIdx (absenteesPagesCount absentees)).mapM fun p =>
      partyPage fmt p.1 (getPartyMembers (rechecked env g c b absentees).db c g p.1)
        (pageFooter p.2 (parties.length + absenteesPagesCount absentees)) with
  | none =>
    rw [hpages] at hparties
    exact hrun _ hparties
  | some pages =>
    rw [hpages] at hparties
    exact hrun _ hparties

/-- The pages of the parties, unless one of them cannot be formatted. -/
def partyPages (fmt : Formatter) (db : DB) (g : ℤ) (c : String) (absentees : List String)
    (parties : List ℤ) : Option (List MessageEmbed) :=
  (parties.zipIdx (absenteesPagesCount absentees)).mapM fun p =>
    partyPage fmt p.1 (getPartyMembers db c g p.1)
      (pageFooter p.2 (parties.length + absenteesPagesCount absentees))

/-- The pages of the parties are given ones if each page is. -/
theorem partyPages_eq_some {db : DB} {page : ℤ → Option String → MessageEmbed} :
    partyPages fmt db g c absentees parties = some (parties.mapIdx fun i n =>
        page n (pageFooter (absenteesPagesCount absentees + i)
          (parties.length + absenteesPagesCount absentees))) ↔
      ∀ i (hi : i < parties.length),
        partyPage fmt parties[i] (getPartyMembers db c g parties[i])
            (pageFooter (absenteesPagesCount absentees + i)
              (parties.length + absenteesPagesCount absentees)) =
          some (page parties[i] (pageFooter (absenteesPagesCount absentees + i)
            (parties.length + absenteesPagesCount absentees))) := by
  rw [partyPages, mapM_eq_some]
  constructor
  · intro h i hi
    have hpage := congrArg (fun xs => xs[i]?) h.symm
    simpa [hi] using hpage
  · intro h
    refine List.ext_getElem (by simp) fun i hi hi' => ?_
    simpa using (h i (by simpa using hi)).symm

theorem run_getPaginatorEmbed (habs : getAbsentees b.db g c = absentees)
    (hpar : getParties b.db c g = parties) :
    (getPaginatorEmbed fmt env g c).run [] b =
      match partyPages fmt (rechecked env g c b absentees).db g c absentees parties with
      | some pages =>
        (.ok (if parties = [] ∧ absentees = [] then [nobodyPage]
          else ((chunksOf env g c b absentees).mapIdx fun k lines =>
            absenteesPage (String.join lines)
              (pageFooter k (parties.length + absenteesPagesCount absentees))) ++ pages),
          rechecked env g c b absentees)
      | none => (.error .runtime, rechecked env g c b absentees) := by
  unfold getPaginatorEmbed
  rw [Sql.run_tryCatch]
  simp only [read, Sql.bind_eq, Sql.run_query_bind, habs, hpar]
  by_cases hnone : parties = [] ∧ absentees = []
  · rw [if_pos hnone, hnone.1, hnone.2]
    rfl
  · rw [if_neg hnone, run_pagesFrom, partyPages]
    split
    · rename_i h
      split at h <;> simp_all
    · rename_i h
      split at h <;> simp_all

end Pages

/-! ### The text of a page -/

section Text
variable {fmt : Formatter} {n : ℤ} {footer : Option String} {entries : List (String × String)}
  {members : List (String × Status × ℤ)}

/-- What the table shows of its entries. -/
def cells (e : String × String) : List (List Char) := [e.1.toList, (StringUtils.right e.2 25).toList]

theorem laid_tableLine (j : ℕ) (e : String × String) :
    Format.Laid (cells e) (tableLine j e.1 e.2).toList := by
  unfold tableLine
  simp only [String.toList_append]
  have hline := ((laid_number (n := 25) (j + 1)).append (laid_center (s := e.1) (n := 40))).append
    ((Format.laid_self (StringUtils.right e.2 25).toList).append
      (Format.laid_plain (s := "\n".toList) rfl))
  simpa [cells] using hline

theorem laid_partyTable : Format.Laid (entries.flatMap cells) (partyTable entries).toList := by
  have hnobody : (StringUtils.center "No members detected" 60 ++ "\n").toList.countP Format.special = 0 := by
    decide
  have hrest : Format.Laid [] ((if entries = [] then
      StringUtils.center "No members detected" 60 ++ "\n" else "") ++ "```").toList := by
    rw [String.toList_append]
    apply (Format.laid_plain _).append (Format.laid_plain rfl)
    split
    · exact hnobody
    · rfl
  have hlines : Format.Laid (entries.flatMap cells)
      (String.join (entries.mapIdx fun j e => tableLine j e.1 e.2)).toList :=
    laid_join laid_tableLine
  have htable := hlines.append hrest
  simpa [partyTable, String.append_assoc] using htable

theorem not_mem_ofInt : '%' ∉ (String.ofList (Text.ofInt n)).toList := by
  rw [String.toList_ofList]
  exact Text.not_mem_ofInt rfl (by decide)

theorem not_mem_partyTitle : '%' ∉ (partyTitle n).toList := by
  have h := @not_mem_ofInt n
  unfold partyTitle
  simp_all

theorem not_mem_tableHeader {title : String} (h : '%' ∉ title.toList) :
    '%' ∉ (tableHeader title).toList := by
  have hcenter : '%' ∉ (StringUtils.center title 60).toList := (not_mem_center (by decide)).2 h
  have hcolumns : '%' ∉ (StringUtils.left "#" 25 ++ StringUtils.center "Name" 40 ++
      StringUtils.right "Status" 25 ++ "\n\n").toList := by
    decide
  unfold tableHeader
  simp only [String.toList_append, List.mem_append, not_or] at hcolumns ⊢
  simp [hcenter, hcolumns]

theorem format_partyContent :
    fmt.format ("The following usernames have been detected for Party number **%s**:\n" ++
        "*(You can re-upload the image to update the party)*\n\n" ++
        partyContent (partyTitle n) entries) [n] =
      (Format.run fmt.print [n] none ⟨1, some 0⟩ (partyTable (entries.take namesPerPage)).toList).map
        fun out => partyHead n ++ String.ofList out := by
  have hpre : '%' ∉ ("**:\n*(You can re-upload the image to update the party)*\n\n" ++
      tableHeader (partyTitle n)).toList := by
    have hheader : '%' ∉ (tableHeader (partyTitle n)).toList :=
      not_mem_tableHeader not_mem_partyTitle
    rw [String.toList_append, List.mem_append, not_or]
    exact ⟨by decide, hheader⟩
  have hempty : entries.take namesPerPage = [] ↔ entries = [] := by simp [namesPerPage]
  have htext : "The following usernames have been detected for Party number **%s**:\n" ++
        "*(You can re-upload the image to update the party)*\n\n" ++
        partyContent (partyTitle n) entries =
      "The following usernames have been detected for Party number **" ++ "%s" ++
        ("**:\n*(You can re-upload the image to update the party)*\n\n" ++
          tableHeader (partyTitle n) ++ partyTable (entries.take namesPerPage)) := by
    simp [← String.toList_inj, partyContent, partyTable, hempty]
  rw [htext, Formatter.format_text (by decide) hpre]
  unfold partyHead
  simp only [String.append_assoc]

/-- What the page of a party shows is the table, printed with no argument left. -/
theorem partyPage_eq :
    partyPage fmt n members footer =
      (members.mapM fun m => readMember (memberLine m)).bind fun entries =>
        (Format.run fmt.print [n] none ⟨1, some 0⟩ (partyTable (entries.take namesPerPage)).toList).map
          fun out => ⟨"Check Guild Members", partyHead n ++ String.ofList out, footer⟩ := by
  have htitle : fmt.format "<< Party %s >>" [n] = some (partyTitle n) := by
    have hformat := @Formatter.format_number fmt "<< Party " " >>" n (by decide)
    rwa [Format.run_plain (by decide)] at hformat
  unfold partyPage
  simp only [Option.bind_eq_bind, htitle, Option.bind_some, format_partyContent]
  cases members.mapM fun m => readMember (memberLine m) with
  | none => rfl
  | some entries => simp [Option.map_eq_bind, Option.bind_assoc]

/-! ### Names without the characters of a format and of a line -/

/-- What the lines of the members show. -/
def shownMembers (members : List (String × Status × ℤ)) : List (String × String) :=
  members.map fun m => (m.1, m.2.1.text)

/-- The rows of the CTA have names without a `%` and a `|`. -/
def CleanNames (db : DB) (g : ℤ) (c : String) : Prop :=
  ∀ r ∈ db.users.vals, r.inCTA g c = true → '%' ∉ r.charName.toList ∧ '|' ∉ r.charName.toList

instance (db : DB) (g : ℤ) (c : String) : Decidable (CleanNames db g c) :=
  inferInstanceAs (Decidable (∀ r ∈ db.users.vals, _ → _))

theorem text_clean (s : Status) : '%' ∉ s.text.toList ∧ '|' ∉ s.text.toList ∧ s.text.toList ≠ [] := by
  cases s <;> decide

theorem readMember_memberLine {m : String × Status × ℤ} (h : '|' ∉ m.1.toList) :
    readMember (memberLine m) = some (m.1, m.2.1.text) := by
  obtain ⟨-, hbar, hne⟩ := text_clean m.2.1
  obtain ⟨rest, hsplit⟩ : ∃ rest, Text.split ['|', '|', '|'] (memberLine m).toList =
      m.1.toList :: m.2.1.text.toList :: rest := by
    have hcut := Text.split_front (d := ['|', '|', '|']) (by simp)
      (fun _ => Text.skips_of_not_mem h) (fun _ => Text.skips_of_not_mem hbar)
      (Text.skips_of_not_mem hbar) hne (.inr ⟨(getStringFromInstant m.2.2).toList, rfl⟩)
    simpa [memberLine] using hcut
  rw [readMember, hsplit]
  simp

theorem not_mem_partyTable (h : ∀ e ∈ entries, '%' ∉ e.1.toList ∧ '%' ∉ e.2.toList) :
    '%' ∉ (partyTable entries).toList := by
  apply laid_partyTable.not_mem rfl
  intro t ht
  obtain ⟨e, he, ht⟩ := List.mem_flatMap.1 ht
  simp only [cells, List.mem_cons, List.not_mem_nil, or_false] at ht
  rcases ht with rfl | rfl
  · exact (h e he).1
  · unfold StringUtils.right
    split
    · exact (h e he).2
    · rw [String.toList_ofList]
      exact fun hc => (h e he).2 (List.mem_of_mem_drop hc)

theorem partyPage_clean (h : ∀ m ∈ members, '%' ∉ m.1.toList ∧ '|' ∉ m.1.toList) :
    partyPage fmt n members footer =
      some (listingPage n ((shownMembers members).take namesPerPage) footer) := by
  have hread : (members.mapM fun m => readMember (memberLine m)) = some (shownMembers members) :=
    mapM_some fun m hm => readMember_memberLine (h m hm).2
  have htable : '%' ∉ (partyTable ((shownMembers members).take namesPerPage)).toList := by
    apply not_mem_partyTable
    intro e he
    obtain ⟨m, hm, rfl⟩ := List.mem_map.1 (List.mem_of_mem_take he)
    exact ⟨(h m hm).1, (text_clean m.2.1).1⟩
  rw [partyPage_eq, hread, Option.bind_some, Format.run_plain htable, Option.map_some,
    String.ofList_toList, listingPage]

end Text

section Clean
variable {fmt : Formatter} {env : Env} {g : ℤ} {c : String} {b : Bot} {db : DB}

theorem mem_getPartyMembers {n : ℤ} {m : String × Status × ℤ} (hm : m ∈ getPartyMembers db c g n) :
    ∃ r ∈ db.users.vals, r.inCTA g c = true ∧ m = (r.charName, r.status, r.lastSeen) := by
  obtain ⟨r, hr, rfl⟩ := List.mem_map.1 hm
  simp only [List.mem_append, List.mem_insertionSort, Table.select, List.mem_filter,
    Bool.and_eq_true] at hr
  rcases hr with ⟨hr, ⟨hcta, -⟩, -⟩ | ⟨hr, ⟨hcta, -⟩, -⟩ <;> exact ⟨r, hr, hcta, rfl⟩

theorem cleanNames_refreshes {names : List String} (h : CleanNames db g c) :
    CleanNames (names.foldl (refresh env g c) db) g c := by
  intro x hx hcta
  obtain ⟨r, hr, ⟨s, rfl⟩, -⟩ := mem_refreshes (fun _ hw => hw) hx
  exact h r hr hcta

theorem chunksOf_eq_nil {absentees : List String} :
    chunksOf env g c b absentees = [] ↔ absentees = [] := by
  unfold chunksOf
  rw [List.map_eq_nil_iff, List.range_eq_nil, ← List.length_eq_zero_iff]
  unfold absenteesPagesCount namesPerPage
  omega

/-- The entries of a party. -/
def partyEntries (db : DB) (g : ℤ) (c : String) (n : ℤ) : List (String × String) :=
  (shownMembers (getPartyMembers db c g n)).take namesPerPage

theorem partyPages_clean {absentees : List String} {parties : List ℤ} (h : CleanNames db g c) :
    partyPages fmt db g c absentees parties = some (parties.mapIdx fun i n =>
      listingPage n (partyEntries db g c n) (pageFooter (absenteesPagesCount absentees + i)
        (parties.length + absenteesPagesCount absentees))) := by
  have hpage : ∀ n, ∀ m ∈ getPartyMembers db c g n, '%' ∉ m.1.toList ∧ '|' ∉ m.1.toList := by
    intro n m hm
    obtain ⟨r, hr, hcta, rfl⟩ := mem_getPartyMembers hm
    exact h r hr hcta
  exact partyPages_eq_some.2 fun i hi => partyPage_clean (hpage _)

/-- With clean names every page shows what is on it. -/
theorem run_getPaginatorEmbed_clean (h : CleanNames b.db g c) :
    (getPaginatorEmbed fmt env g c).run [] b =
      (.ok (checkPages (chunksOf env g c b (getAbsentees b.db g c))
        ((getParties b.db c g).map fun n =>
          (n, partyEntries (rechecked env g c b (getAbsentees b.db g c)).db g c n))),
        rechecked env g c b (getAbsentees b.db g c)) := by
  have hclean : CleanNames (rechecked env g c b (getAbsentees b.db g c)).db g c :=
    cleanNames_refreshes h
  rw [run_getPaginatorEmbed rfl rfl, partyPages_clean hclean]
  unfold checkPages
  simp only [chunksOf_eq_nil, List.map_eq_nil_iff, length_chunksOf, List.length_map]
  by_cases hnone : getParties b.db c g = [] ∧ getAbsentees b.db g c = []
  · rw [if_pos hnone, if_pos hnone.symm]
  · rw [if_neg hnone, if_neg fun h => hnone h.symm]
    congr 3
    apply List.ext_getElem <;> simp

end Clean

end AtomComm.GuildBot
