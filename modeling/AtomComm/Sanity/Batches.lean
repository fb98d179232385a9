import AtomComm.Sanity.Statements

/-! The batching loop of the roster uploads, run with no fault. Every date of a batch is read
before its first statement, so what the loop writes are the whole batches before the first
member whose date is missing or cannot be read. -/

namespace AtomComm

/-! ### The front of a list -/

section Front
variable {α β : Type} {f : α → Option β}

/-- The longest front of the list on which `f` is defined. -/
def front (f : α → Option β) : List α → List β
  | [] => []
  | x :: xs =>
    match f x with
    | some y => y :: front f xs
    | none => []

theorem front_map {xs : List α} (h : ∀ x ∈ xs, (f x).isSome = true) :
    (front f xs).map some = xs.map f := by
  induction xs with
  | nil => rfl
  | cons x xs ih =>
    obtain ⟨y, hy⟩ := Option.isSome_iff_exists.1 (h x (by simp))
    simp [front, hy, ih fun z hz => h z (by simp [hz])]

theorem front_append {xs : List α} (h : ∀ x ∈ xs, (f x).isSome = true) (zs : List α) :
    front f (xs ++ zs) = front f xs ++ front f zs := by
  induction xs with
  | nil => rfl
  | cons x xs ih =>
    obtain ⟨y, hy⟩ := Option.isSome_iff_exists.1 (h x (by simp))
    simp [front, hy, ih fun z hz => h z (by simp [hz])]

/-- The front ends before the first entry on which `f` is not defined. -/
theorem front_length_lt {xs : List α} (h : ¬∀ x ∈ xs, (f x).isSome = true) (zs : List α) :
    (front f (xs ++ zs)).length < xs.length := by
  induction xs with
  | nil => simp at h
  | cons x xs ih =>
    cases hx : f x with
    | none => simp [front, hx]
    | some y =>
      have hrest : ¬∀ x ∈ xs, (f x).isSome = true := by simpa [hx] using h
      simpa [front, hx] using ih hrest

theorem mapM_front (xs : List α) :
    xs.mapM f = if ∀ x ∈ xs, (f x).isSome = true then some (front f xs) else none := by
  induction xs with
  | nil => rfl
  | cons x xs ih =>
    rw [List.mapM_cons, ih]
    cases hx : f x with
    | none => simp [hx]
    | some y =>
      by_cases h : ∀ x ∈ xs, (f x).isSome = true
      · have hall : ∀ z ∈ x :: xs, (f z).isSome = true := by simpa [hx] using h
        rw [if_pos h, if_pos hall]
        simp [front, hx]
      · have hall : ¬∀ z ∈ x :: xs, (f z).isSome = true := by simpa [hx] using h
        rw [if_neg h, if_neg hall]
        rfl

end Front

namespace GuildBot

/-- The names, each with its `lastSeen` if there is one for it. -/
def items : List String → List String → List (String × Option String)
  | [], _ => []
  | name :: names, [] => (name, none) :: items names []
  | name :: names, seen :: lastSeen => (name, some seen) :: items names lastSeen

/-- The name with its date, if that is there and can be read. -/
def dated (x : String × Option String) : Option (String × ℤ) :=
  (x.2.bind getInstantFromString).map (x.1, ·)

def given (e : String × String) : String × Option String := (e.1, some e.2)

/-- The members before the first one without a date. -/
def readable (xs : List (String × Option String)) : List (String × ℤ) := front dated xs

/-- Of these, the ones in whole batches. -/
def wholeBatches (xs : List (String × Option String)) : List (String × ℤ) :=
  (readable xs).take ((readable xs).length / 40 * 40)

/-- What the loop writes before it ends. -/
def sent (xs : List (String × Option String)) : List (String × ℤ) :=
  if ∀ x ∈ xs, (dated x).isSome = true then readable xs else wholeBatches xs

/-- How the loop ends. -/
def outcome (xs : List (String × Option String)) : Except Exn Unit :=
  if ∀ x ∈ xs, (dated x).isSome = true then .ok () else .error .runtime

def writeAll (statement : String → ℤ → DB → DB) (es : List (String × ℤ)) (db : DB) : DB :=
  es.foldl (fun db e => statement e.1 e.2 db) db

section Runs
variable {b : Bot} {statement : String → ℤ → DB → DB}

theorem writeAll_append (es es' : List (String × ℤ)) (db : DB) :
    writeAll statement (es ++ es') db = writeAll statement es' (writeAll statement es db) :=
  List.foldl_append

theorem run_executeBatch (fs : List (DB → DB)) :
    (executeBatch fs).run [] b = (.ok (), { b with db := fs.foldl (fun db f => f db) b.db }) := by
  induction fs generalizing b with
  | nil => rfl
  | cons f fs ih => exact ih

theorem sendBatch_eq (batch : List (String × String)) :
    sendBatch statement batch =
      if ∀ x ∈ batch.map given, (dated x).isSome = true then
        swallow (executeBatch ((readable (batch.map given)).map fun e => statement e.1 e.2))
      else Sql.throw .runtime := by
  have hread : (batch.mapM fun x => (getInstantFromString x.2).map (x.1, ·)) =
      (batch.map given).mapM dated := by
    rw [List.mapM_map]
    rfl
  unfold sendBatch
  rw [hread, mapM_front]
  split <;> rename_i h
  · split at h
    · cases h
    · rename_i hno
      rw [if_neg hno]
  · split at h
    · rename_i hall
      cases h
      rw [if_pos hall, readable]
    · cases h

theorem run_sendBatch {batch : List (String × String)}
    (h : ∀ x ∈ batch.map given, (dated x).isSome = true) :
    (sendBatch statement batch).run [] b =
      (.ok (), { b with db := writeAll statement (readable (batch.map given)) b.db }) := by
  rw [sendBatch_eq, if_pos h, swallow, Sql.run_tryCatch, run_executeBatch, List.foldl_map]
  rfl

/-- Whole batches in front stay in front. -/
theorem wholeBatches_append {xs ys : List (String × Option String)}
    (h : ∀ x ∈ xs, (dated x).isSome = true) (hlen : (readable xs).length = 40) :
    wholeBatches (xs ++ ys) = readable xs ++ wholeBatches ys := by
  have hfront : readable (xs ++ ys) = readable xs ++ readable ys := front_append h ys
  have hdiv : (readable (xs ++ ys)).length / 40 * 40 =
      (readable xs).length + (readable ys).length / 40 * 40 := by
    rw [hfront, List.length_append]
    omega
  rw [wholeBatches, wholeBatches, hdiv, hfront, List.take_length_add_append]

theorem sent_append {xs ys : List (String × Option String)}
    (h : ∀ x ∈ xs, (dated x).isSome = true) (hlen : (readable xs).length = 40 ∨ ys = []) :
    sent (xs ++ ys) = readable xs ++ sent ys := by
  by_cases hy : ∀ y ∈ ys, (dated y).isSome = true
  · have hall : ∀ z ∈ xs ++ ys, (dated z).isSome = true := List.forall_mem_append.2 ⟨h, hy⟩
    rw [sent, sent, if_pos hy, if_pos hall]
    exact front_append h ys
  · have hfull : (readable xs).length = 40 := hlen.resolve_right fun hnil => hy (by simp [hnil])
    have hall : ¬∀ z ∈ xs ++ ys, (dated z).isSome = true :=
      fun hz => hy (List.forall_mem_append.1 hz).2
    rw [sent, sent, if_neg hy, if_neg hall, wholeBatches_append h hfull]

/-- Nothing is sent while the first batch has a member without a date. -/
theorem sent_first {xs ys : List (String × Option String)}
    (h : ¬∀ x ∈ xs, (dated x).isSome = true) (hlen : xs.length ≤ 40) : sent (xs ++ ys) = [] := by
  have hall : ¬∀ z ∈ xs ++ ys, (dated z).isSome = true :=
    fun hz => h (List.forall_mem_append.1 hz).1
  have hlt : (readable (xs ++ ys)).length < xs.length := front_length_lt h ys
  have hzero : (readable (xs ++ ys)).length / 40 * 40 = 0 := by omega
  rw [sent, if_neg hall, wholeBatches, hzero, List.take_zero]

theorem length_readable {xs : List (String × Option String)}
    (h : ∀ x ∈ xs, (dated x).isSome = true) : (readable xs).length = xs.length := by
  simpa [readable] using congrArg List.length (front_map h)

theorem outcome_append {xs ys : List (String × Option String)}
    (h : ∀ x ∈ xs, (dated x).isSome = true) : outcome (xs ++ ys) = outcome ys := by
  have hiff : (∀ z ∈ xs ++ ys, (dated z).isSome = true) ↔ ∀ y ∈ ys, (dated y).isSome = true :=
    ⟨fun hz => (List.forall_mem_append.1 hz).2, fun hy => List.forall_mem_append.2 ⟨h, hy⟩⟩
  simp only [outcome, hiff]

theorem outcome_first {xs ys : List (String × Option String)}
    (h : ¬∀ x ∈ xs, (dated x).isSome = true) : outcome (xs ++ ys) = .error .runtime :=
  if_neg fun hz => h (List.forall_mem_append.1 hz).1

/-- The loop, with the batch that it has collected: it ends with an exception if a member has
no date, and what it has written is what is sent of all of them. -/
theorem run_inBatches (names lastSeen : List String) (batch : List (String × String))
    (hlen : batch.length < 40) (hlast : names = [] → batch = []) :
    (inBatches (sendBatch statement) batch names lastSeen).run [] b =
      (outcome (batch.map given ++ items names lastSeen), { b with
        db := writeAll statement (sent (batch.map given ++ items names lastSeen)) b.db }) := by
  induction names generalizing batch lastSeen b with
  | nil =>
    rw [hlast rfl]
    rfl
  | cons name names ih =>
    cases lastSeen with
    | nil =>
      have hsplit : batch.map given ++ items (name :: names) [] =
          (batch.map given ++ [(name, none)]) ++ items names [] := by simp [items]
      have hno : ¬∀ x ∈ batch.map given ++ [(name, none)], (dated x).isSome = true := by
        intro h
        have := h (name, none) (by simp)
        simp [dated] at this
      rw [hsplit, outcome_first hno, sent_first hno (by simp; omega)]
      rfl
    | cons seen lastSeen =>
      have hsplit : batch.map given ++ items (name :: names) (seen :: lastSeen) =
          (batch ++ [(name, seen)]).map given ++ items names lastSeen := by simp [items, given]
      have hle : ((batch ++ [(name, seen)]).map given).length ≤ 40 := by simp; omega
      rw [hsplit, inBatches]
      split
      · rename_i hfull
        by_cases hread : ∀ x ∈ (batch ++ [(name, seen)]).map given, (dated x).isSome = true
        · -- the batch is sent, and the loop goes on with an empty one
          have hsent : (readable ((batch ++ [(name, seen)]).map given)).length = 40 ∨
              items names lastSeen = [] := by
            rcases hfull with h | h
            · left
              rw [length_readable hread, List.length_map, h]
            · right
              rw [h]
              rfl
          rw [Sql.bind_eq, Sql.run_bind, run_sendBatch hread, outcome_append hread,
            sent_append hread hsent, writeAll_append]
          exact ih lastSeen [] (by simp) fun _ => rfl
        · rw [outcome_first hread, sent_first hread hle, Sql.bind_eq, sendBatch_eq, if_neg hread]
          rfl
      · rename_i hmore
        rw [not_or] at hmore
        exact ih lastSeen _ (by simp only [List.length_append, List.length_singleton] at hmore ⊢; omega)
          fun h => absurd h hmore.2

/-- A first batch with a member that has no date ends the loop before any statement. -/
theorem inBatches_stop (names lastSeen : List String) (batch : List (String × String))
    (hlen : batch.length < 40) (hlast : names = [] → batch = [])
    (h : ¬∀ x ∈ (batch.map given ++ items names lastSeen).take 40, (dated x).isSome = true) :
    inBatches (sendBatch statement) batch names lastSeen = Sql.throw .runtime := by
  induction names generalizing batch lastSeen with
  | nil =>
    rw [hlast rfl] at h
    exact absurd (by simp [items]) h
  | cons name names ih =>
    cases lastSeen with
    | nil => rfl
    | cons seen lastSeen =>
      have hsplit : batch.map given ++ items (name :: names) (seen :: lastSeen) =
          (batch ++ [(name, seen)]).map given ++ items names lastSeen := by simp [items, given]
      rw [hsplit] at h
      rw [inBatches]
      split
      · rename_i hfull
        have htake : ((batch ++ [(name, seen)]).map given ++ items names lastSeen).take 40 =
            (batch ++ [(name, seen)]).map given := by
          rcases hfull with hfull | hfull
          · rw [List.take_left' (by rw [List.length_map, hfull])]
          · rw [hfull, items, List.append_nil, List.take_of_length_le]
            simp only [List.length_map, List.length_append, List.length_singleton]
            omega
        rw [htake] at h
        rw [sendBatch_eq, if_neg h]
        rfl
      · rename_i hmore
        rw [not_or] at hmore
        exact ih lastSeen _ (by simp only [List.length_append, List.length_singleton] at hmore ⊢; omega)
          (fun h => absurd h hmore.2) h

/-- Otherwise the loop begins by writing the first member. -/
theorem inBatches_starts (names lastSeen : List String) (batch : List (String × String))
    (hlen : batch.length < 40)
    (h : ∀ x ∈ (batch.map given ++ items names lastSeen).take 40, (dated x).isSome = true)
    (hne : names ≠ []) : ∃ e, (batch.map given ++ items names lastSeen).head?.bind dated = some e ∧
      (inBatches (sendBatch statement) batch names lastSeen).Starts fun b =>
        some { b with db := statement e.1 e.2 b.db } := by
  induction names generalizing batch lastSeen with
  | nil => exact absurd rfl hne
  | cons name names ih =>
    cases lastSeen with
    | nil =>
      have hmem : (name, none) ∈ (batch.map given ++ items (name :: names) []).take 40 := by
        rw [List.take_append, List.length_map]
        obtain ⟨k, hk⟩ : ∃ k, 40 - batch.length = k + 1 := ⟨39 - batch.length, by omega⟩
        simp [hk, items]
      have := h _ hmem
      simp [dated] at this
    | cons seen lastSeen =>
      have hsplit : batch.map given ++ items (name :: names) (seen :: lastSeen) =
          (batch ++ [(name, seen)]).map given ++ items names lastSeen := by simp [items, given]
      rw [hsplit] at h ⊢
      rw [inBatches]
      split
      · have hle : ((batch ++ [(name, seen)]).map given).length ≤ 40 := by simp; omega
        have hall : ∀ x ∈ (batch ++ [(name, seen)]).map given, (dated x).isSome = true := by
          intro x hx
          apply h
          rw [List.take_append, List.take_of_length_le hle]
          exact List.mem_append_left _ hx
        rw [sendBatch_eq, if_pos hall]
        obtain ⟨x, xs, hxs⟩ : ∃ x xs, (batch ++ [(name, seen)]).map given = x :: xs :=
          List.exists_cons_of_ne_nil (by simp)
        rw [hxs] at hall ⊢
        obtain ⟨e, he⟩ := Option.isSome_iff_exists.1 (hall x (by simp))
        refine ⟨e, by simpa using he, ?_⟩
        have hfront : readable (x :: xs) = e :: readable xs := by simp [readable, front, he]
        rw [hfront]
        exact (((Sql.starts_attempt _).bind _).tryCatch _).bind _
      · rename_i hmore
        rw [not_or] at hmore
        exact ih lastSeen _ (by simp only [List.length_append, List.length_singleton] at hmore ⊢; omega)
          h hmore.2

end Runs

end GuildBot

end AtomComm
