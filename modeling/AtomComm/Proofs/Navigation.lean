import AtomComm.Spec.GuildBot.Paginators
import Mathlib.Logic.Relation

/-! Turning the pages of the attendance bot. As long as the counter of ids has not come
round, the id on a button is that of one listener, so its author turns its pages and nobody
else's. A paginator stays on its pages, and its buttons are enabled as long as there is a
page that way. -/

namespace AtomComm.GuildBot

theorem split_pageButton (n : ℤ) (a : ButtonAction) :
    Text.split [':'] (Text.ofInt n ++ ':' :: a.text) = [Text.ofInt n, a.text] := by
  apply Text.split_pair (Text.not_mem_ofInt rfl (by decide))
  · cases a <;> decide
  · cases a <;> decide

theorem ofText_pageButton (a : ButtonAction) : ButtonAction.ofText a.text = some a := by
  cases a <;> decide

/-! ### One listener -/

namespace Paginator
variable {ε : Type} {P Q R : Paginator ε} {userId n : ℤ} {a : ButtonAction} {b : RenderedButton}

/-- What a paginator keeps from its creation on. -/
def Same (P Q : Paginator ε) : Prop :=
  Q.id = P.id ∧ Q.authorID = P.authorID ∧ Q.embeds = P.embeds

theorem Same.refl (P : Paginator ε) : Same P P := ⟨rfl, rfl, rfl⟩

theorem Same.trans (h : Same P Q) (h' : Same Q R) : Same P R :=
  ⟨h'.1.trans h.1, h'.2.1.trans h.2.1, h'.2.2.trans h.2.2⟩

/-- The page shown is one of the pages. -/
def OnPage (P : Paginator ε) : Prop := P.currentPage < P.embeds.length

/-- The pages that are at most one turn apart. -/
def Near (P Q : Paginator ε) : Prop :=
  Q.currentPage ≤ P.currentPage + 1 ∧ P.currentPage ≤ Q.currentPage + 1

theorem currentPage_next (P : Paginator ε) : (P.turn .next).currentPage =
    if P.currentPage + 1 < P.embeds.length then P.currentPage + 1 else P.currentPage := by
  show P.nextPage.currentPage = _
  unfold nextPage
  split
  · rw [if_pos (by omega)]
  · rw [if_neg (by omega)]

theorem currentPage_prev (P : Paginator ε) : (P.turn .prev).currentPage = P.currentPage - 1 := by
  show P.previousPage.currentPage = _
  unfold previousPage
  split
  · rfl
  · omega

theorem turn_same (P : Paginator ε) (a : ButtonAction) : Same P (P.turn a) := by
  cases a with
  | next => unfold turn nextPage; dsimp only; split <;> exact ⟨rfl, rfl, rfl⟩
  | prev => unfold turn previousPage; dsimp only; split <;> exact ⟨rfl, rfl, rfl⟩

theorem turn_near (P : Paginator ε) (a : ButtonAction) : Near P (P.turn a) := by
  unfold Near
  cases a with
  | next =>
    rw [currentPage_next]
    split <;> omega
  | prev =>
    rw [currentPage_prev]
    omega

theorem turn_onPage (a : ButtonAction) (h : P.OnPage) : (P.turn a).OnPage := by
  unfold OnPage at h ⊢
  rw [(turn_same P a).2.2]
  cases a with
  | next =>
    rw [currentPage_next]
    split <;> omega
  | prev =>
    rw [currentPage_prev]
    omega

/-- A press does nothing to a paginator, or it comes from the author and turns the page. -/
theorem press_cases (userId : ℤ) (buttonId : List Char) (P : Paginator ε) :
    (P.onButtonInteraction userId buttonId).1 = P ∨
      userId = P.authorID ∧ ∃ a, (P.onButtonInteraction userId buttonId).1 = P.turn a := by
  unfold onButtonInteraction
  split
  · split
    · exact .inl rfl
    · split
      · exact .inl rfl
      · rename_i hu
        split
        · exact .inr ⟨not_not.1 hu, _, rfl⟩
        · exact .inl rfl
  · exact .inl rfl

theorem press_same (userId : ℤ) (buttonId : List Char) (P : Paginator ε) :
    Same P (P.onButtonInteraction userId buttonId).1 := by
  rcases press_cases userId buttonId P with h | ⟨-, a, h⟩
  · rw [h]
    exact Same.refl P
  · rw [h]
    exact turn_same P a

theorem press_onPage (userId : ℤ) (buttonId : List Char) (h : P.OnPage) :
    (P.onButtonInteraction userId buttonId).1.OnPage := by
  rcases press_cases userId buttonId P with he | ⟨-, a, he⟩
  · rwa [he]
  · rw [he]
    exact turn_onPage a h

/-- The buttons below a page are one for each action. -/
theorem mem_actionRow (h : b ∈ P.actionRow) :
    ∃ a : ButtonAction, b.componentId = Text.ofInt P.id ++ ':' :: a.text := by
  rcases List.mem_cons.1 h with rfl | h
  · exact ⟨.prev, rfl⟩
  · rw [List.mem_singleton.1 h]
    exact ⟨.next, rfl⟩

theorem press_other (h : n ≠ P.id) :
    (P.onButtonInteraction userId (Text.ofInt n ++ ':' :: a.text)).1 = P := by
  have hne : Text.ofInt n ≠ Text.ofInt P.id := fun he => h (Text.ofInt_injective he)
  simp only [onButtonInteraction, split_pageButton, if_pos hne]

theorem press_stranger (h : userId ≠ P.authorID) (buttonId : List Char) :
    (P.onButtonInteraction userId buttonId).1 = P :=
  (press_cases userId buttonId P).resolve_right fun hall => h hall.1

theorem press_own : (P.onButtonInteraction P.authorID
    (Text.ofInt P.id ++ ':' :: a.text)).1 = P.turn a := by
  simp only [onButtonInteraction, split_pageButton, ne_eq, not_true, if_false, ofText_pageButton]

end Paginator

/-! ### All listeners -/

namespace PageAct
variable {ε : Type}

/-- The pages of the paginators that are created. -/
def created (acts : List (PageAct ε)) : List (List ε) :=
  acts.filterMap fun act => match act with
    | .create embeds _ => some embeds
    | .press .. => none

end PageAct

open PageAct

namespace Listeners
open Paginator
variable {ε : Type} {L : Listeners ε} {P : Paginator ε} {k : ℕ} {a : ButtonAction}

theorem step_same (act : PageAct ε) (h : L.live[k]? = some P) :
    ∃ Q, (L.step act).live[k]? = some Q ∧ Same P Q := by
  have hk : k < L.live.length := (List.getElem?_eq_some_iff.1 h).1
  cases act with
  | create embeds authorID =>
    exact ⟨P, by rw [← h]; exact List.getElem?_append_left hk, Same.refl P⟩
  | press userId buttonId =>
    refine ⟨_, ?_, press_same userId buttonId P⟩
    simp [step, h]

theorem serve_same (acts : List (PageAct ε)) (h : L.live[k]? = some P) :
    ∃ Q, (L.serve acts).live[k]? = some Q ∧ Same P Q := by
  induction acts generalizing L P with
  | nil => exact ⟨P, h, Same.refl P⟩
  | cons act acts ih =>
    obtain ⟨Q, hQ, hs⟩ := step_same act h
    obtain ⟨R, hR, hs'⟩ := ih hQ
    exact ⟨R, hR, hs.trans hs'⟩

theorem ids_press (userId : ℤ) (buttonId : List Char) :
    (L.step (.press userId buttonId)).live.map Paginator.id = L.live.map Paginator.id := by
  simp only [step, List.map_map]
  exact List.map_congr_left fun P _ => (press_same userId buttonId P).1

/-- Ids are numbered in the order of creation. -/
theorem serve_numbered {n : ℕ} (acts : List (PageAct ε))
    (h : Numbered L.idSeries n (L.live.map Paginator.id)) :
    Numbered (L.serve acts).idSeries (n + (created acts).length)
      ((L.serve acts).live.map Paginator.id) := by
  induction acts generalizing L n with
  | nil => exact h
  | cons act acts ih =>
    cases act with
    | create embeds authorID =>
      have hrest := ih (L := L.step (.create embeds authorID)) (n := n + 1)
        (by simpa [step] using h.snoc)
      rwa [Nat.add_assoc, Nat.add_comm 1] at hrest
    | press userId buttonId =>
      refine ih (L := L.step (.press userId buttonId)) ?_
      rwa [ids_press]

theorem serve_onPage (acts : List (PageAct ε)) (hpages : ∀ embeds ∈ created acts, embeds ≠ [])
    (h : ∀ P ∈ L.live, P.OnPage) : ∀ P ∈ (L.serve acts).live, P.OnPage := by
  induction acts generalizing L with
  | nil => exact h
  | cons act acts ih =>
    cases act with
    | create embeds authorID =>
      refine ih (fun e he => hpages e (List.mem_cons_of_mem _ he)) fun P hP => ?_
      rcases List.mem_append.1 hP with hP | hP
      · exact h P hP
      · rw [List.mem_singleton.1 hP]
        exact List.length_pos_of_ne_nil (hpages embeds List.mem_cons_self)
    | press userId buttonId =>
      refine ih hpages fun P hP => ?_
      obtain ⟨Q, hQ, rfl⟩ := List.mem_map.1 hP
      exact press_onPage userId buttonId (h Q hQ)

/-! ### Presses -/

section Press
variable (hids : (L.live.map Paginator.id).Nodup) (hk : L.live[k]? = some P)
include hids hk

/-- No other listener has the id of the button. -/
theorem press_others (userId : ℤ) {j : ℕ} {Q : Paginator ε} (hj : j ≠ k)
    (hQ : L.live[j]? = some Q) :
    (Q.onButtonInteraction userId (Text.ofInt P.id ++ ':' :: a.text)).1 = Q := by
  apply press_other
  intro he
  have hlt : j < (L.live.map Paginator.id).length := by
    rw [List.length_map]
    exact (List.getElem?_eq_some_iff.1 hQ).1
  refine hj ((List.getElem?_inj hlt hids).1 ?_)
  rw [List.getElem?_map, List.getElem?_map, hQ, hk, Option.map_some, Option.map_some, he]

theorem press_author (a : ButtonAction) :
    L.step (.press P.authorID (Text.ofInt P.id ++ ':' :: a.text)) =
      { L with live := L.live.set k (P.turn a) } := by
  simp only [step, Listeners.mk.injEq, true_and]
  apply List.ext_getElem?
  intro j
  rw [List.getElem?_map]
  rcases eq_or_ne j k with rfl | hj
  · have hlt : j < L.live.length := (List.getElem?_eq_some_iff.1 hk).1
    rw [hk, Option.map_some, press_own, List.getElem?_set_self hlt]
  · rw [List.getElem?_set_ne hj.symm]
    cases hQ : L.live[j]? with
    | none => rfl
    | some Q => rw [Option.map_some, press_others hids hk _ hj hQ]

theorem press_anyone_else {userId : ℤ} (hu : userId ≠ P.authorID) (a : ButtonAction) :
    L.step (.press userId (Text.ofInt P.id ++ ':' :: a.text)) = L := by
  have hlive : L.live.map (fun Q =>
      (Q.onButtonInteraction userId (Text.ofInt P.id ++ ':' :: a.text)).1) = L.live := by
    apply List.ext_getElem?
    intro j
    rw [List.getElem?_map]
    cases hQ : L.live[j]? with
    | none => rfl
    | some Q =>
      rw [Option.map_some]
      rcases eq_or_ne j k with rfl | hj
      · obtain rfl := Option.some.inj (hQ.symm.trans hk)
        rw [press_stranger hu]
      · rw [press_others hids hk _ hj hQ]
  rw [step, hlive]

end Press

/-- The author of the paginator at `k` presses an enabled button below its page. -/
def Turns (k : ℕ) (L L' : Listeners ε) : Prop :=
  ∃ P b, L.live[k]? = some P ∧ b ∈ P.actionRow ∧ b.disabled = false ∧
    L' = L.step (.press P.authorID b.componentId)

/-- The paginator at `k` shows another page, and all else is as it was. -/
def atPage (L : Listeners ε) (k : ℕ) (P : Paginator ε) (n : ℕ) : Listeners ε :=
  { L with live := L.live.set k { P with currentPage := n } }

theorem atPage_self (hk : L.live[k]? = some P) : L.atPage k P P.currentPage = L := by
  obtain ⟨hlt, rfl⟩ := List.getElem?_eq_some_iff.1 hk
  rw [atPage, List.set_getElem_self]

section Reach
variable (hids : (L.live.map Paginator.id).Nodup) (hk : L.live[k]? = some P)
include hids hk

theorem turns_next (h : P.currentPage + 1 < P.embeds.length) :
    Turns k L (L.atPage k P (P.currentPage + 1)) := by
  have hturn : P.turn .next = { P with currentPage := P.currentPage + 1 } := by
    show P.nextPage = _
    exact if_pos (by omega)
  refine ⟨P, P.getNextButton, hk, List.mem_cons_of_mem _ List.mem_cons_self,
    decide_eq_false (by omega), ?_⟩
  exact (hturn ▸ press_author hids hk .next).symm

theorem turns_prev (h : 0 < P.currentPage) : Turns k L (L.atPage k P (P.currentPage - 1)) := by
  have hturn : P.turn .prev = { P with currentPage := P.currentPage - 1 } := if_pos h
  refine ⟨P, P.getPreviousButton, hk, List.mem_cons_self, decide_eq_false (by omega), ?_⟩
  exact (hturn ▸ press_author hids hk .prev).symm

omit hids in
/-- The page after a turn is the page of the same paginator, in listeners with the same ids. -/
theorem atPage_turned (m n : ℕ) :
    ((L.atPage k P m).live.map Paginator.id) = L.live.map Paginator.id ∧
      (L.atPage k P m).live[k]? = some { P with currentPage := m } ∧
      (L.atPage k P m).atPage k { P with currentPage := m } n = L.atPage k P n := by
  obtain ⟨hlt, rfl⟩ := List.getElem?_eq_some_iff.1 hk
  refine ⟨?_, List.getElem?_set_self hlt, ?_⟩
  · rw [atPage, List.map_set]
    exact (List.getElem_map (h := by simpa using hlt) Paginator.id).symm ▸
      List.set_getElem_self (by simpa using hlt)
  · simp only [atPage, List.set_set]

theorem reaches_after (d : ℕ) (h : P.currentPage + d < P.embeds.length) :
    Relation.ReflTransGen (Turns k) L (L.atPage k P (P.currentPage + d)) := by
  induction d with
  | zero => rw [Nat.add_zero, atPage_self hk]
  | succ d ih =>
    obtain ⟨hids', hk', hpage⟩ := atPage_turned hk (P.currentPage + d) (P.currentPage + (d + 1))
    refine (ih (by omega)).tail ?_
    rw [← hpage]
    exact turns_next (hids' ▸ hids) hk' h

theorem reaches_before (d : ℕ) :
    Relation.ReflTransGen (Turns k) L (L.atPage k P (P.currentPage - d)) := by
  induction d with
  | zero => rw [Nat.sub_zero, atPage_self hk]
  | succ d ih =>
    rcases Nat.eq_zero_or_pos (P.currentPage - d) with h0 | hpos
    · rwa [show P.currentPage - (d + 1) = P.currentPage - d by omega]
    · obtain ⟨hids', hk', hpage⟩ := atPage_turned hk (P.currentPage - d) (P.currentPage - (d + 1))
      refine ih.tail ?_
      rw [← hpage]
      exact turns_prev (hids' ▸ hids) hk' hpos

theorem reaches_page {n : ℕ} (hn : n < P.embeds.length) :
    Relation.ReflTransGen (Turns k) L (L.atPage k P n) := by
  rcases Nat.le_total P.currentPage n with hle | hle
  · have hafter := reaches_after hids hk (n - P.currentPage) (by omega)
    rwa [show P.currentPage + (n - P.currentPage) = n by omega] at hafter
  · have hbefore := reaches_before hids hk (P.currentPage - n)
    rwa [show P.currentPage - (P.currentPage - n) = n by omega] at hbefore

end Reach

/-- What can be done with the paginators of `L`, by buttons that those of `L₀` rendered. -/
structure Navigable (L₀ L : Listeners ε) : Prop where
  onPage : ∀ P ∈ L.live, P.OnPage
  prev_disabled : ∀ P ∈ L.live, P.getPreviousButton.disabled = true ↔ P.currentPage = 0
  next_disabled : ∀ P ∈ L.live,
    P.getNextButton.disabled = true ↔ P.currentPage + 1 = P.embeds.length
  author : ∀ (k : ℕ) (P₀ P : Paginator ε) (b : RenderedButton), L₀.live[k]? = some P₀ →
    b ∈ P₀.actionRow → L.live[k]? = some P → ∃ n, P.Near { P with currentPage := n } ∧
        L.step (.press P.authorID b.componentId) = L.atPage k P n
  stranger : ∀ (k : ℕ) (P₀ P : Paginator ε) (b : RenderedButton) (userId : ℤ),
    L₀.live[k]? = some P₀ → b ∈ P₀.actionRow → L.live[k]? = some P → userId ≠ P.authorID → L.step (.press userId b.componentId) = L
  everyPage : ∀ (k : ℕ) (P : Paginator ε) (n : ℕ), L.live[k]? = some P → n < P.embeds.length →
    Relation.ReflTransGen (Turns k) L (L.atPage k P n)

end Listeners

open Listeners

/-- Buttons rendered at some time, and what they do at any later time. -/
theorem page_navigation {ε : Type} (before after : List (PageAct ε))
    (hfew : (created (before ++ after)).length < 2 ^ 32)
    (hpages : ∀ embeds ∈ created (before ++ after), embeds ≠ []) :
    Navigable (initial.serve before) (initial.serve (before ++ after)) := by
  have hon : ∀ P ∈ (initial.serve (before ++ after)).live, P.OnPage :=
    serve_onPage _ hpages fun P hP => by cases hP
  have hids : ((initial.serve (before ++ after)).live.map Paginator.id).Nodup := by
    have h0 : Numbered 0 0 ((initial : Listeners ε).live.map Paginator.id) :=
      ⟨rfl, [], rfl, List.Pairwise.nil, by simp⟩
    exact (serve_numbered (before ++ after) h0).nodup (by omega)
  have hbutton : ∀ (k : ℕ) (P₀ P : Paginator ε) (b : RenderedButton), (initial.serve before).live[k]? = some P₀ → b ∈ P₀.actionRow →
      (initial.serve (before ++ after)).live[k]? = some P →
        ∃ a : ButtonAction, b.componentId = Text.ofInt P.id ++ ':' :: a.text := by
    intro k P₀ P b h₀ hb hk
    obtain ⟨a, hb⟩ := Paginator.mem_actionRow hb
    obtain ⟨Q, hQ, hsame⟩ := serve_same after h₀
    rw [show (initial.serve before).serve after = initial.serve (before ++ after) from
      List.foldl_append.symm] at hQ
    obtain rfl := Option.some.inj (hQ.symm.trans hk)
    exact ⟨a, by rw [hb, hsame.1]⟩
  refine ⟨hon, fun P hP => decide_eq_true_iff, fun P hP => ?_, ?_, ?_, fun k P n hk hn =>
    reaches_page hids hk hn⟩
  · rw [Paginator.getNextButton, decide_eq_true_iff]
    have hlt := hon P hP
    unfold Paginator.OnPage at hlt
    omega
  · intro k P₀ P b h₀ hb hk
    obtain ⟨a, hid⟩ := hbutton k P₀ P b h₀ hb hk
    refine ⟨(P.turn a).currentPage, Paginator.turn_near P a, ?_⟩
    have hsame : ({ P with currentPage := (P.turn a).currentPage } : Paginator ε) = P.turn a := by
      obtain ⟨h1, h2, h3⟩ := Paginator.turn_same P a
      rw [← h1, ← h2, ← h3]
    rw [hid, press_author hids hk, atPage, hsame]
  · intro k P₀ P b userId h₀ hb hk hu
    obtain ⟨a, hid⟩ := hbutton k P₀ P b h₀ hb hk
    rw [hid, press_anyone_else hids hk hu]

/-- A list of two pages is turned after another member has opened a list. -/
theorem page_navigation_two :
    Navigable (initial.serve [.create ["1", "2"] 7])
      (initial.serve ([.create ["1", "2"] 7] ++
        [.create ["3"] 8, .press 7 "0:next".toList])) :=
  page_navigation _ _ (by decide) (by decide)

end AtomComm.GuildBot
