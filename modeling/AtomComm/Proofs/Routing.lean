import AtomComm.Spec.LootSplit.Paginators
import AtomComm.Spec.LootSplit.System

/-! Which listeners a press reaches. A listener hears the presses whose id is that of its
own class; the buttons below a submission's page carry two ids, so one of them may be that
of another listener, or of none. -/

namespace AtomComm.LootSplit

theorem split_buttonId (n : ℤ) (a : ButtonAction) :
    Text.split [':'] (Text.ofInt n ++ ':' :: a.text) = [Text.ofInt n, a.text] := by
  apply Text.split_pair (Text.not_mem_ofInt rfl (by decide))
  · cases a <;> decide
  · cases a <;> decide

theorem ofText_text (a : ButtonAction) : ButtonAction.ofText a.text = some a := by
  cases a <;> decide

/-! ### One listener -/

namespace Paginator
variable {P Q R : Paginator} {u : User} {n : ℤ} {a : ButtonAction}

/-- The id on the paginator's button for an action. -/
def labelId (P : Paginator) : ButtonAction → ℤ
  | .prev | .next => P.id
  | .confirm | .cancel => P.handlerId

/-- The paginator has a branch for the action that edits the message. -/
def Knows (P : Paginator) (a : ButtonAction) : Prop :=
  0 < P.embeds ∧ (a = .prev ∨ a = .next ∨ P.submission.isSome)

/-- What a paginator keeps from its creation on. -/
def Same (P Q : Paginator) : Prop :=
  Q.id = P.id ∧ Q.authorID = P.authorID ∧ Q.embeds = P.embeds ∧
    Q.submission.map Submission.id = P.submission.map Submission.id

/-- There is a page to show, or there are none at all. -/
def Sound (P : Paginator) : Prop :=
  P.currentPage < P.embeds ∨ P.embeds = 0 ∧ P.currentPage = 0 ∧ P.submission = none

theorem Same.refl (P : Paginator) : Same P P := ⟨rfl, rfl, rfl, rfl⟩

theorem Same.trans (h : Same P Q) (h' : Same Q R) : Same P R :=
  ⟨h'.1.trans h.1, h'.2.1.trans h.2.1, h'.2.2.1.trans h.2.2.1, h'.2.2.2.trans h.2.2.2⟩

theorem Same.handlerId (h : Same P Q) : Q.handlerId = P.handlerId := by
  unfold Paginator.handlerId
  rw [h.2.2.2, h.1]

theorem Same.labelId (h : Same P Q) (a : ButtonAction) : Q.labelId a = P.labelId a := by
  cases a with
  | prev => exact h.1
  | next => exact h.1
  | confirm => exact h.handlerId
  | cancel => exact h.handlerId

theorem Same.isSome (h : Same P Q) : Q.submission.isSome = P.submission.isSome := by
  simpa using congrArg Option.isSome h.2.2.2

/-- The branch keeps the ids, and leaves a page to show if there was one. -/
theorem performs_same {program : Option (Cmd Reply)} (h : P.performs u a = some (Q, program)) :
    Same P Q ∧ (P.Sound → Q.Sound) := by
  cases a with
  | prev =>
    obtain ⟨rfl, -⟩ := Prod.mk.inj (Option.some.inj h)
    unfold previousPage
    split
    · refine ⟨⟨rfl, rfl, rfl, rfl⟩, ?_⟩
      rintro (hlt | ⟨h0, hc, hs⟩)
      · exact .inl (show P.currentPage - 1 < P.embeds by omega)
      · exact .inr ⟨h0, show P.currentPage - 1 = 0 by omega, hs⟩
    · exact ⟨Same.refl P, fun h => h⟩
  | next =>
    obtain ⟨rfl, -⟩ := Prod.mk.inj (Option.some.inj h)
    unfold nextPage
    split
    · refine ⟨⟨rfl, rfl, rfl, rfl⟩, fun _ => .inl ?_⟩
      show P.currentPage + 1 < P.embeds
      omega
    · exact ⟨Same.refl P, fun h => h⟩
  | confirm | cancel =>
    obtain ⟨s, hs, he⟩ := Option.map_eq_some_iff.1 h
    obtain ⟨rfl, -⟩ := Prod.mk.inj he
    refine ⟨⟨rfl, rfl, rfl, by simp [finish, hs]⟩, ?_⟩
    rintro (hlt | ⟨-, -, hno⟩)
    · exact .inl hlt
    · rw [hs] at hno
      cases hno

theorem act_eq_some {r : Handled} (h : P.act u a = some r) :
    Same P r.paginator ∧ (P.Sound → r.paginator.Sound) ∧ r.response = r.paginator.updatePage := by
  obtain ⟨⟨Q, program⟩, hQ, rfl⟩ := Option.map_eq_some_iff.1 h
  exact ⟨(performs_same hQ).1, (performs_same hQ).2, rfl⟩

theorem updatePage_edits (P : Paginator) :
    P.updatePage.edits = decide (P.currentPage < P.embeds) := by
  unfold updatePage render
  by_cases h : P.currentPage < P.embeds <;> simp [h, Response.edits]

/-- A press with the id of another listener. -/
theorem ignores (h : n ≠ P.handlerId) :
    P.onButtonInteraction u (Text.ofInt n ++ ':' :: a.text) = ⟨P, none, .ignored⟩ := by
  have hne : Text.ofInt n ≠ Text.ofInt P.handlerId := fun he => h (Text.ofInt_injective he)
  simp only [onButtonInteraction, split_buttonId, if_pos hne]

/-- A press by another than the author. -/
theorem refuses (h : n = P.handlerId) (hu : u.id ≠ P.authorID) :
    P.onButtonInteraction u (Text.ofInt n ++ ':' :: a.text) =
      ⟨P, none, .reply "You are not allowed to interact with this paginator."⟩ := by
  simp only [onButtonInteraction, split_buttonId, h, ne_eq, not_true, if_false, if_pos hu]

theorem hears (h : n = P.handlerId) (hu : u.id = P.authorID) :
    P.onButtonInteraction u (Text.ofInt n ++ ':' :: a.text) = (P.act u a).getD
      ⟨P, none, .print ("Button not found: ".toList ++ (Text.ofInt n ++ ':' :: a.text))⟩ := by
  simp only [onButtonInteraction, split_buttonId, h, hu, ne_eq, not_true, if_false, ofText_text,
    Option.bind_some]

/-- An enabled button in the row carries the id for its action. -/
theorem mem_actionRow {b : RenderedButton} (h : (a, b) ∈ P.actionRow) :
    b.componentId = Text.ofInt (P.labelId a) ++ ':' :: a.text ∧
      (a = .prev ∨ a = .next ∨ P.submission.isSome) := by
  unfold actionRow at h
  split at h
  · simp only [List.mem_cons, Prod.mk.injEq, List.not_mem_nil, or_false] at h
    rcases h with ⟨rfl, rfl⟩ | ⟨rfl, rfl⟩
    · exact ⟨rfl, .inl rfl⟩
    · exact ⟨rfl, .inr (.inl rfl)⟩
  · rename_i s hs
    have hid : P.handlerId = s.id := by simp [handlerId, hs]
    simp only [List.mem_cons, Prod.mk.injEq, List.not_mem_nil, or_false] at h
    rcases h with ⟨rfl, rfl⟩ | ⟨rfl, rfl⟩ | ⟨rfl, rfl⟩ | ⟨rfl, rfl⟩
    · exact ⟨rfl, .inl rfl⟩
    · exact ⟨by rw [labelId, hid]; rfl, .inr (.inr (by simp [hs]))⟩
    · exact ⟨by rw [labelId, hid]; rfl, .inr (.inr (by simp [hs]))⟩
    · exact ⟨rfl, .inr (.inl rfl)⟩

/-- Neither the page nor the flag moves, and the message is left as it is. -/
def Untouched (P : Paginator) (r : Handled) : Prop :=
  r.paginator.currentPage = P.currentPage ∧
    r.paginator.isSessionFinished = P.isSessionFinished ∧ r.response.edits = false

theorem act_eq_none_iff : P.act u a = none ↔ ¬(a = .prev ∨ a = .next ∨ P.submission.isSome) := by
  cases a with
  | prev | next => simp [act, performs]
  | confirm | cancel => cases hs : P.submission <;> simp [act, performs, hs]

/-- Without a page nothing moves, and there is no page to edit the message with. -/
theorem act_of_no_page {r : Handled} (h0 : P.embeds = 0) (hc : P.currentPage = 0)
    (hs : P.submission = none) (h : P.act u a = some r) : P.Untouched r := by
  obtain ⟨hsame, -, hresp⟩ := act_eq_some h
  have hno : r.response.edits = false := by
    rw [hresp, updatePage_edits, decide_eq_false_iff_not, hsame.2.2.1]
    omega
  cases a with
  | prev =>
    obtain rfl := Option.some.inj h
    exact ⟨by simp [previousPage, hc], by simp [previousPage, hc], hno⟩
  | next =>
    obtain rfl := Option.some.inj h
    exact ⟨by simp [nextPage, h0, hc], by simp [nextPage, h0, hc], hno⟩
  | confirm | cancel => simp [act, performs, hs] at h

/-- A paginator that hears the press of its author edits the message, unless it does not
know the action. -/
theorem hears_untouched (hP : P.Sound) (h : n = P.handlerId) (hu : u.id = P.authorID) :
    P.Untouched (P.onButtonInteraction u (Text.ofInt n ++ ':' :: a.text)) ↔ ¬P.Knows a := by
  rw [hears h hu]
  cases hact : P.act u a with
  | none =>
    rw [act_eq_none_iff] at hact
    exact iff_of_true ⟨rfl, rfl, rfl⟩ fun hk => hact hk.2
  | some r =>
    have hbranch : a = .prev ∨ a = .next ∨ P.submission.isSome := by
      by_contra hno
      rw [act_eq_none_iff.2 hno] at hact
      cases hact
    rw [Option.getD_some]
    rcases hP with hlt | ⟨h0, hc, hs⟩
    · obtain ⟨hsame, hsound, hresp⟩ := act_eq_some hact
      refine iff_of_false ?_ (not_not_intro ⟨by omega, hbranch⟩)
      rintro ⟨-, -, hno⟩
      rw [hresp, updatePage_edits, decide_eq_false_iff_not] at hno
      rcases hsound (.inl hlt) with hlt' | ⟨h0, -⟩
      · exact hno hlt'
      · rw [hsame.2.2.1] at h0
        omega
    · refine iff_of_true (act_of_no_page h0 hc hs hact) ?_
      rintro ⟨hpos, -⟩
      omega

/-- A press leaves a paginator alone if it carries the id of another, comes from another
user, or asks for an action that the paginator does not know. -/
theorem untouched_iff (hP : P.Sound) :
    P.Untouched (P.onButtonInteraction u (Text.ofInt n ++ ':' :: a.text)) ↔
      ¬(n = P.handlerId ∧ u.id = P.authorID ∧ P.Knows a) := by
  by_cases h : n = P.handlerId
  · by_cases hu : u.id = P.authorID
    · rw [hears_untouched hP h hu]
      simp only [h, hu, true_and]
    · rw [refuses h hu]
      exact iff_of_true ⟨rfl, rfl, rfl⟩ fun hall => hu hall.2.1
  · rw [ignores h]
    exact iff_of_true ⟨rfl, rfl, rfl⟩ fun hall => h hall.1

/-- The author's press has the branch of its action run, exactly if it carries the id that
the handler compares with. -/
theorem acts_iff (hbranch : a = .prev ∨ a = .next ∨ P.submission.isSome)
    (hu : u.id = P.authorID) :
    P.act u a = some (P.onButtonInteraction u (Text.ofInt n ++ ':' :: a.text)) ↔
      n = P.handlerId := by
  obtain ⟨r, hr⟩ : ∃ r, P.act u a = some r := by
    rw [← Option.ne_none_iff_exists', ne_eq, act_eq_none_iff, not_not]
    exact hbranch
  constructor
  · intro hact
    by_contra h
    rw [ignores h] at hact
    have hresp := (act_eq_some hact).2.2
    unfold updatePage at hresp
    split at hresp <;> cases hresp
  · intro h
    rw [hears h hu, hr, Option.getD_some]

end Paginator

/-! ### All listeners -/

namespace Listeners
open Paginator
variable {L : Listeners} {P Q : Paginator} {k : ℕ}

theorem handled_same (u : User) (buttonId : List Char) (P : Paginator) :
    Same P (P.onButtonInteraction u buttonId).paginator ∧
      (P.Sound → (P.onButtonInteraction u buttonId).paginator.Sound) := by
  unfold Paginator.onButtonInteraction
  split
  · split
    · exact ⟨Same.refl P, fun h => h⟩
    · split
      · exact ⟨Same.refl P, fun h => h⟩
      · cases hr : (ButtonAction.ofText _).bind (P.act u) with
        | none => exact ⟨Same.refl P, fun h => h⟩
        | some r =>
          obtain ⟨a, -, ha⟩ := Option.bind_eq_some_iff.1 hr
          exact ⟨(act_eq_some ha).1, (act_eq_some ha).2.1⟩
  · exact ⟨Same.refl P, fun h => h⟩

/-- A listener stays where it is, and keeps its ids. -/
theorem step_same (act : PageAct) (h : L.live[k]? = some P) :
    ∃ Q, (L.step act).live[k]? = some Q ∧ Same P Q := by
  have hk : k < L.live.length := (List.getElem?_eq_some_iff.1 h).1
  cases act with
  | paginator authorID embeds =>
    exact ⟨P, by rw [← h]; exact List.getElem?_append_left hk, Same.refl P⟩
  | submission page more thrown =>
    refine ⟨P, ?_, Same.refl P⟩
    cases thrown with
    | false => rw [← h]; exact List.getElem?_append_left hk
    | true => exact h
  | press u buttonId =>
    refine ⟨_, ?_, (handled_same u buttonId P).1⟩
    simp [step, press, h]

theorem serve_same (acts : List PageAct) (h : L.live[k]? = some P) :
    ∃ Q, (L.serve acts).live[k]? = some Q ∧ Same P Q := by
  induction acts generalizing L P with
  | nil => exact ⟨P, h, Same.refl P⟩
  | cons act acts ih =>
    obtain ⟨Q, hQ, hs⟩ := step_same act h
    obtain ⟨R, hR, hs'⟩ := ih hQ
    exact ⟨R, hR, hs.trans hs'⟩

theorem step_sound (act : PageAct) (h : ∀ P ∈ L.live, P.Sound) :
    ∀ P ∈ (L.step act).live, P.Sound := by
  intro P hP
  cases act with
  | paginator authorID embeds =>
    rcases List.mem_append.1 hP with hP | hP
    · exact h P hP
    · obtain rfl := List.mem_singleton.1 hP
      rcases Nat.eq_zero_or_pos embeds with h0 | hpos
      · exact .inr ⟨h0, rfl, rfl⟩
      · exact .inl hpos
  | submission page more thrown =>
    cases thrown with
    | false =>
      rcases List.mem_append.1 hP with hP | hP
      · exact h P hP
      · obtain rfl := List.mem_singleton.1 hP
        exact .inl (Nat.succ_pos more)
    | true => exact h P hP
  | press u buttonId =>
    obtain ⟨r, hr, rfl⟩ := List.mem_map.1 hP
    obtain ⟨Q, hQ, rfl⟩ := List.mem_map.1 hr
    exact (handled_same u buttonId Q).2 (h Q hQ)

theorem serve_sound (acts : List PageAct) (h : ∀ P ∈ L.live, P.Sound) :
    ∀ P ∈ (L.serve acts).live, P.Sound := by
  induction acts generalizing L with
  | nil => exact h
  | cons act acts ih => exact ih (step_sound act h)

theorem initial_sound (acts : List PageAct) : ∀ P ∈ (initial.serve acts).live, P.Sound :=
  serve_sound acts fun P hP => by cases hP

/-- `P`, the listener at `k`, performs the action, and no other listener is touched. -/
def Routed (L : Listeners) (k : ℕ) (P : Paginator) (u : User) (a : ButtonAction)
    (buttonId : List Char) : Prop :=
  (∃ r, (L.press u buttonId)[k]? = some r ∧ P.act u a = some r) ∧
    ∀ j Q r, j ≠ k → L.live[j]? = some Q → (L.press u buttonId)[j]? = some r → Q.Untouched r

/-- The button carries the id that its paginator compares with, and no other listener of the
same author that knows the action compares with it. -/
def Alone (L : Listeners) (k : ℕ) (P : Paginator) (a : ButtonAction) : Prop :=
  P.labelId a = P.handlerId ∧
    ∀ j Q, j ≠ k → L.live[j]? = some Q → Q.authorID = P.authorID → Q.Knows a →
      P.labelId a ≠ Q.handlerId

theorem routed_iff {u : User} {a : ButtonAction} (hsound : ∀ Q ∈ L.live, Q.Sound)
    (h : L.live[k]? = some P) (hbranch : a = .prev ∨ a = .next ∨ P.submission.isSome)
    (hu : u.id = P.authorID) :
    L.Routed k P u a (Text.ofInt (P.labelId a) ++ ':' :: a.text) ↔ L.Alone k P a := by
  have hpress : ∀ (j : ℕ) (Q : Paginator) (buttonId : List Char),
      L.live[j]? = some Q → (L.press u buttonId)[j]? =
        some (Q.onButtonInteraction u buttonId) := by
    intro j Q buttonId hQ
    rw [press, List.getElem?_map, hQ, Option.map_some]
  constructor
  · rintro ⟨⟨r, hr, hact⟩, hothers⟩
    obtain rfl := Option.some.inj ((hpress k P _ h).symm.trans hr)
    refine ⟨(acts_iff hbranch hu).1 hact, ?_⟩
    intro j Q hj hQ hauthor hknows hid
    have hno := hothers j Q _ hj hQ (hpress j Q _ hQ)
    rw [untouched_iff (hsound Q (List.mem_of_getElem? hQ))] at hno
    exact hno ⟨hid, hu.trans hauthor.symm, hknows⟩
  · rintro ⟨hid, hothers⟩
    refine ⟨⟨_, hpress k P _ h, (acts_iff hbranch hu).2 hid⟩, ?_⟩
    intro j Q r hj hQ hr
    obtain rfl := Option.some.inj ((hpress j Q _ hQ).symm.trans hr)
    rw [untouched_iff (hsound Q (List.mem_of_getElem? hQ))]
    rintro ⟨hid', hu', hknows⟩
    exact hothers j Q hj hQ (hu'.symm.trans hu) hknows hid'

/-! ### Ids in the order of creation -/

/-- Both counters after `n` inputs at most. -/
def Counted (L : Listeners) (n : ℕ) : Prop :=
  (∃ m ≤ n, Numbered L.idSeries m (L.live.map Paginator.id)) ∧
    ∃ m ≤ n, Numbered L.submissionSeries m
      (L.live.filterMap fun P => P.submission.map Submission.id)

theorem counted_step {n : ℕ} (act : PageAct) (h : L.Counted n) : (L.step act).Counted (n + 1) := by
  obtain ⟨⟨m, hm, hids⟩, ⟨m', hm', hids'⟩⟩ := h
  cases act with
  | paginator authorID embeds =>
    refine ⟨⟨m + 1, by omega, by simpa [step] using hids.snoc⟩, ⟨m', by omega, ?_⟩⟩
    simpa [step] using hids'
  | submission page more thrown =>
    cases thrown with
    | false =>
      refine ⟨⟨m + 1, by omega, by simpa [step] using hids.snoc⟩, ⟨m' + 1, by omega, ?_⟩⟩
      simpa [step] using hids'.snoc
    | true => exact ⟨⟨m + 1, by omega, hids.skip⟩, ⟨m' + 1, by omega, hids'.skip⟩⟩
  | press u buttonId =>
    have hsame : ∀ P : Paginator, Same P (P.onButtonInteraction u buttonId).paginator :=
      fun P => (handled_same u buttonId P).1
    refine ⟨⟨m, by omega, ?_⟩, ⟨m', by omega, ?_⟩⟩
    · simpa [step, press, List.map_map, Function.comp_def, (hsame _).1] using hids
    · simpa [step, press, List.filterMap_map, Function.comp_def, (hsame _).2.2.2] using hids'

theorem counted_serve {n : ℕ} (acts : List PageAct) (h : L.Counted n) :
    (L.serve acts).Counted (n + acts.length) := by
  induction acts generalizing L n with
  | nil => exact h
  | cons act acts ih =>
    have hrest := ih (counted_step act h)
    rwa [Nat.add_assoc, Nat.add_comm 1] at hrest

theorem counted_initial (acts : List PageAct) : (initial.serve acts).Counted acts.length := by
  have h0 : initial.Counted 0 :=
    ⟨⟨0, le_refl 0, rfl, [], rfl, List.Pairwise.nil, by simp⟩,
      ⟨0, le_refl 0, rfl, [], rfl, List.Pairwise.nil, by simp⟩⟩
  simpa using counted_serve acts h0

theorem getElem?_ne {R : Paginator → Paginator → Prop} {j : ℕ} (hR : ∀ P Q, R P Q → R Q P)
    (h : L.live.Pairwise R) (hj : j ≠ k) (hP : L.live[k]? = some P) (hQ : L.live[j]? = some Q) :
    R P Q := by
  obtain ⟨hk, rfl⟩ := List.getElem?_eq_some_iff.1 hP
  obtain ⟨hj', rfl⟩ := List.getElem?_eq_some_iff.1 hQ
  rcases Nat.lt_or_gt_of_ne hj with hlt | hlt
  · exact hR _ _ (List.pairwise_iff_getElem.1 h j k hj' hk hlt)
  · exact List.pairwise_iff_getElem.1 h k j hk hj' hlt

/-- As long as the counters have not come round, the ids of each class are different. -/
theorem ids_apart {n j : ℕ} (h : L.Counted n) (hn : n ≤ 2 ^ 32) (hj : j ≠ k)
    (hP : L.live[k]? = some P) (hQ : L.live[j]? = some Q) :
    P.id ≠ Q.id ∧ (P.submission.isSome → Q.submission.isSome → P.handlerId ≠ Q.handlerId) := by
  obtain ⟨⟨m, hm, hids⟩, ⟨m', hm', hids'⟩⟩ := h
  have hbase := hids.nodup (hm.trans hn)
  have hown := hids'.nodup (hm'.trans hn)
  rw [List.nodup_iff_pairwise_ne, List.pairwise_map] at hbase
  rw [List.nodup_iff_pairwise_ne, List.pairwise_filterMap] at hown
  refine ⟨getElem?_ne (fun _ _ => Ne.symm) hbase hj hP hQ, ?_⟩
  intro hs ht
  obtain ⟨s, hs⟩ := Option.isSome_iff_exists.1 hs
  obtain ⟨t, ht⟩ := Option.isSome_iff_exists.1 ht
  have hne := getElem?_ne (fun P Q hPQ b hb b' hb' => (hPQ b' hb' b hb).symm) hown hj hP hQ
    s.id (by rw [hs]; rfl) t.id (by rw [ht]; rfl)
  simpa [handlerId, hs, ht] using hne

section Alone
variable {n : ℕ} {a : ButtonAction} (h : L.Counted n) (hn : n ≤ 2 ^ 32)
  (hP : L.live[k]? = some P)
include h hn hP

/-- Confirm and cancel reach their submission only. -/
theorem alone_own (hs : P.submission.isSome) (ha : a = .confirm ∨ a = .cancel) :
    L.Alone k P a := by
  have hlabel : P.labelId a = P.handlerId := by rcases ha with rfl | rfl <;> rfl
  refine ⟨hlabel, ?_⟩
  rintro j Q hj hQ - ⟨-, hknows⟩
  have ht : Q.submission.isSome := by
    rcases ha with rfl | rfl <;> simpa using hknows
  rw [hlabel]
  exact (ids_apart h hn hj hP hQ).2 hs ht

/-- The page buttons of a submission reach it if both classes numbered it alike. -/
theorem alone_submission (hs : P.submission.isSome) (ha : a = .prev ∨ a = .next) :
    L.Alone k P a ↔ P.id = P.handlerId := by
  have hlabel : P.labelId a = P.id := by rcases ha with rfl | rfl <;> rfl
  refine ⟨fun halone => hlabel ▸ halone.1, fun hid => ⟨hlabel.trans hid, ?_⟩⟩
  intro j Q hj hQ _ _
  obtain ⟨hbase, hown⟩ := ids_apart h hn hj hP hQ
  rw [hlabel]
  cases ht : Q.submission with
  | none => rwa [handlerId, ht]
  | some t =>
    rw [hid]
    exact hown hs (by rw [ht]; rfl)

/-- Those of a plain paginator reach nothing else, if no submission of its author was given
its number. -/
theorem alone_plain (hsound : ∀ Q ∈ L.live, Q.Sound) (hs : P.submission = none)
    (ha : a = .prev ∨ a = .next) :
    L.Alone k P a ↔ ∀ Q ∈ L.live, Q.submission.isSome → Q.authorID = P.authorID →
      P.id ≠ Q.handlerId := by
  have hlabel : P.labelId a = P.id := by rcases ha with rfl | rfl <;> rfl
  have hid : P.handlerId = P.id := by rw [handlerId, hs]; rfl
  rw [Alone, hlabel, hid]
  constructor
  · rintro ⟨-, hothers⟩ Q hQ ht hauthor
    obtain ⟨j, hj⟩ := List.getElem?_of_mem hQ
    refine hothers j Q ?_ hj hauthor ⟨?_, ha.imp_right .inl⟩
    · rintro rfl
      obtain rfl := Option.some.inj (hj.symm.trans hP)
      rw [hs] at ht
      cases ht
    · rcases hsound Q hQ with hlt | ⟨-, -, hno⟩
      · omega
      · rw [hno] at ht
        cases ht
  · intro hothers
    refine ⟨rfl, ?_⟩
    intro j Q hj hQ hauthor _
    cases ht : Q.submission with
    | none =>
      rw [handlerId, ht]
      exact (ids_apart h hn hj hP hQ).1
    | some t => exact hothers Q (List.mem_of_getElem? hQ) (by rw [ht]; rfl) hauthor

end Alone

end Listeners

open Listeners

/-- A button that a paginator rendered at some time, pressed by its author at some later
time, when the paginator has become `P`. -/
theorem button_routed (before after : List PageAct) (k : ℕ) (P₀ P : Paginator) (u : User)
    (a : ButtonAction) (b : RenderedButton) (page : ℕ) (row : List (ButtonAction × RenderedButton))
    (h₀ : (initial.serve before).live[k]? = some P₀)
    (h : (initial.serve (before ++ after)).live[k]? = some P)
    (hrow : P₀.render = some (page, row)) (hb : (a, b) ∈ row) (hu : u.id = P.authorID) :
    (initial.serve (before ++ after)).Routed k P u a b.componentId ↔
      (initial.serve (before ++ after)).Alone k P a := by
  obtain ⟨P', hP', hsame⟩ := serve_same after h₀
  have hrun : (initial.serve before).serve after = initial.serve (before ++ after) :=
    List.foldl_append.symm
  rw [hrun] at hP'
  obtain rfl := Option.some.inj (hP'.symm.trans h)
  have hmem : (a, b) ∈ P₀.actionRow := by
    unfold Paginator.render at hrow
    split at hrow
    · obtain ⟨-, rfl⟩ := Prod.mk.inj (Option.some.inj hrow)
      exact hb
    · cases hrow
  obtain ⟨hid, hbranch⟩ := Paginator.mem_actionRow hmem
  rw [hid, ← hsame.labelId a]
  refine routed_iff (initial_sound _) h ?_ hu
  rwa [hsame.isSome]

theorem button_routed_alone :
    (initial.serve ([.paginator 1 2] ++ [])).Routed 0 ⟨0, 1, 2, 0, none⟩ officer .next
        (Paginator.primary 0 .next false).componentId ↔
      (initial.serve ([.paginator 1 2] ++ [])).Alone 0 ⟨0, 1, 2, 0, none⟩ .next :=
  button_routed [.paginator 1 2] [] 0 ⟨0, 1, 2, 0, none⟩ _ officer .next _ 0 _ rfl rfl rfl
    (List.mem_cons_of_mem _ (List.mem_singleton.2 rfl)) rfl

/-- The officer's guild list of two pages, and a submission after it. -/
def listThenSubmission : List PageAct :=
  [.paginator 1 2, .submission ⟨1, "S", some (.fin 70), some "alice", false, 1⟩ 1 false]

/-- The submission hears the button of the guild list. -/
theorem button_misrouted : ∃ P b page row,
    (initial.serve listThenSubmission).live[0]? = some P ∧ P.render = some (page, row) ∧
      (ButtonAction.next, b) ∈ row ∧ b.disabled = false ∧ officer.id = P.authorID ∧
      ¬(initial.serve listThenSubmission).Routed 0 P officer .next b.componentId := by
  refine ⟨⟨0, 1, 2, 0, none⟩, _, 0, _, rfl, rfl, List.mem_cons_of_mem _ (List.mem_singleton.2 rfl),
    rfl, rfl, ?_⟩
  rintro ⟨-, hothers⟩
  have hno := hothers 1 _ _ (by decide) rfl rfl
  exact absurd hno.2.2 (by decide)

/-- A press as the next input, after a guild list that another member has open. -/
example : (initial.serve [.paginator 2 3, .submission ⟨1, "S", none, none, false, 1⟩ 1 false,
    .press officer "0:next".toList]).live.map Paginator.currentPage = [0, 1] := by decide +kernel

end AtomComm.LootSplit
