import AtomComm.Sanity.Sessions

/-! The amount that `/lootsplit confirm` puts on a submission page. The sum is formed in 32
bits and only then taken as a double, and the count is of the members that the guild of the
command has brought into the split, which may be none. -/

namespace AtomComm.LootSplit

/-- Seven tenths of the value for each member. -/
def exactShare (silver items : ℤ) (n : ℕ) : ℚ := (silver + items) * 7 / (10 * n)

/-- The amount is the share of each of `n` members, and there are members. -/
structure ExactAmount (silver items : ℤ) (n : ℕ) (amount : Option Double) : Prop where
  members : 1 ≤ n
  amount_eq : amount = some (.fin (exactShare silver items n))
  nonneg : 0 ≤ exactShare silver items n

instance (silver items : ℤ) (n : ℕ) (amount : Option Double) :
    Decidable (ExactAmount silver items n amount) :=
  decidable_of_iff (1 ≤ n ∧ amount = some (.fin (exactShare silver items n)) ∧
      0 ≤ exactShare silver items n)
    ⟨fun h => ⟨h.1, h.2.1, h.2.2⟩, fun h => ⟨h.1, h.2, h.3⟩⟩

theorem exactShare_nonneg {silver items : ℤ} (hs : 0 ≤ silver) (hi : 0 ≤ items) (n : ℕ) :
    0 ≤ exactShare silver items n := by
  have hsum : (0 : ℚ) ≤ silver + items := by exact_mod_cast add_nonneg hs hi
  unfold exactShare
  positivity

theorem exactShare_eq (silver items : ℤ) (n : ℕ) :
    ((silver + items : ℤ) : ℚ) * (7 / 10) / n = exactShare silver items n := by
  rw [exactShare, Int.cast_add, mul_div_assoc', div_div]

/-- The share is the amount of the code unless the sum leaves 32 bits or nobody is there. -/
theorem amountToSplit_iff {silver items : ℤ} {n : ℕ} :
    amountToSplit silver items n = some (.fin (exactShare silver items n)) ↔
      0 < n ∧ Double.wrap32 (silver + items) = silver + items := by
  rw [amountToSplit, Double.divNat_eq_fin, ← exactShare_eq]
  refine and_congr_right fun hn => ?_
  have hcount : (n : ℚ) ≠ 0 := by exact_mod_cast hn.ne'
  rw [div_left_inj' hcount, mul_left_inj' (by norm_num)]
  exact Int.cast_inj

theorem exactAmount_iff {silver items : ℤ} (hs : 0 ≤ silver) (hi : 0 ≤ items) {n : ℕ} :
    ExactAmount silver items n (amountToSplit silver items n) ↔
      1 ≤ n ∧ silver + items < 2 ^ 31 := by
  have hwrap : Double.wrap32 (silver + items) = silver + items ↔ silver + items < 2 ^ 31 := by
    rw [Double.wrap32_eq_iff]
    omega
  rw [← hwrap]
  constructor
  · intro h
    exact amountToSplit_iff.1 h.amount_eq
  · intro h
    exact ⟨h.1, amountToSplit_iff.2 h, exactShare_nonneg hs hi n⟩

section Page
variable {env : Env} {b b' : Bot} {g : ℤ} {u : User} {splitId : String} {fs : List Bool}
  {page : Page} {silver items : ℤ}

/-- The page that is new carries the figures of the split's session. -/
theorem amount_of_offered (h : step env ⟨.slash g u (.confirm splitId), fs⟩ b = some b')
    (hpage : b'.pages = b.pages ++ [page])
    (hset : getLootSplitSilverAndItems b.db splitId = some (silver, items)) :
    page.amount = amountToSplit silver items (getLootSplitPlayersCount b.db splitId g) := by
  have hb' : ((execute env g u (.confirm splitId)).run fs b).2 = b' := Option.some.inj h
  rcases confirm_run env g u splitId b fs with hsame | ⟨info, hinfo, hopen⟩
  · rw [← hb', hsame] at hpage
    simp at hpage
  · rw [← hb', hopen] at hpage
    obtain rfl : openedPage b.db g u info = page := by simpa using hpage
    obtain ⟨-, hsplit⟩ := splitId_of_info hinfo
    rw [getLootSplitSilverAndItems, hinfo] at hset
    cases hset
    rw [openedPage, hsplit]

end Page

/-- A page is offered with each member's exact share exactly if the guild has members in the
split and the sum of its values stays below 2 ^ 31. -/
theorem split_amount {env : Env} {b b' : Bot} {g : ℤ} {u : User} {splitId : String}
    {fs : List Bool} {page : Page} {silver items : ℤ}
    (h : step env ⟨.slash g u (.confirm splitId), fs⟩ b = some b')
    (hpage : b'.pages = b.pages ++ [page])
    (hset : getLootSplitSilverAndItems b.db splitId = some (silver, items))
    (hs : 0 ≤ silver ∧ silver < 2 ^ 31) (hi : 0 ≤ items ∧ items < 2 ^ 31) :
    let n := getLootSplitPlayersCount b.db splitId g
    ExactAmount silver items n page.amount ↔ 1 ≤ n ∧ silver + items < 2 ^ 31 := by
  intro n
  rw [amount_of_offered h hpage hset]
  exact exactAmount_iff hs.1 hi.1

/-- Alice's split is set to 100 silver. -/
def priced : Bot := endState (opening [] ++ [does (.add "Alice" "U1"), does (.set 100 0)])

theorem split_amount_priced :
    ExactAmount 100 0 (getLootSplitPlayersCount priced.db "S" 1) submittedPage.amount :=
  have hstep : step Env.ascii ⟨.slash 1 officer (.confirm "S"), []⟩ priced = some submitted := by
    decide +kernel
  (split_amount hstep (by decide +kernel) (by decide +kernel) (by decide) (by decide)).2
    (by decide +kernel)

/-- The page offered for a split with these values carries another amount. -/
def Misprices (silver items : ℤ) (b : Bot) : Prop :=
  getLootSplitSilverAndItems b.db "S" = some (silver, items) ∧
    ∃ b' ∈ step Env.ascii (does (.confirm "S")) b, ∃ page ∈ b'.pages,
      b'.pages = b.pages ++ [page] ∧
        ¬ExactAmount silver items (getLootSplitPlayersCount b.db "S" 1) page.amount

instance (silver items : ℤ) (b : Bot) : Decidable (Misprices silver items b) :=
  inferInstanceAs (Decidable (_ ∧ ∃ b' ∈ step Env.ascii (does (.confirm "S")) b,
    ∃ page ∈ b'.pages, _ ∧ ¬_))

/-- The largest silver with one more item value, and a split without members. -/
theorem split_amount_mispriced :
    Misprices 2147483647 1
        (endState (opening [] ++ [does (.add "Alice" "U1"), does (.set 2147483647 1)])) ∧
      Misprices 100 0 (endState (opening [] ++ [does (.set 100 0)])) := by
  decide +kernel

end AtomComm.LootSplit
