import AtomComm.Lib.Interleave
import AtomComm.Lib.Trace
import AtomComm.Spec.LootSplit.Commands

/-! The loot split bot as a machine. Events reach one thread, which runs each to its end;
the completion of a download runs on a thread of its own. `step` is the machine whose
events are never interrupted, `system` the one in which the statements of different
threads fall in any order. -/

namespace AtomComm.LootSplit

inductive Action
  | slash (g : ℤ) (u : User) (c : Command)
  | press (i : ℕ) (u : User) (button : Button)
  | complete (j : ℕ) (names : List String) (uploadId : String)
  deriving DecidableEq

/-- What an action does to the memory, and the program it then runs. -/
def start (env : Env) : Action → Bot → Option (Bot × Cmd Reply)
  | .slash g u c, b => some (b, execute env g u c)
  | .press i u button, b => (b.pages[i]?).map fun page => onButtonInteraction i page u button b
  | .complete j names uploadId, b => (b.pending[j]?).map fun upload =>
      ({ b with pending := b.pending.eraseIdx j }, completeUpload names uploadId upload)

/-- An action with the statements that are made to throw while it runs. -/
structure Input where
  action : Action
  faults : List Bool
  deriving DecidableEq

def perform (env : Env) (a : Input) (b : Bot) : Option (Except Exn Reply × Bot) :=
  (start env a.action b).map fun (b', p) => p.run a.faults b'

def step (env : Env) (a : Input) (b : Bot) : Option Bot := (perform env a b).map Prod.snd

inductive Thread
  | main
  | upload (n : ℕ)
  deriving DecidableEq

def Action.thread : Action → Thread → Prop
  | .slash .., i => i = .main
  | .press .., i => i = .main
  | .complete .., i => i ≠ .main

def system (env : Env) : System Thread Bot Reply where
  start i b b' p := ∃ a : Action, a.thread i ∧ start env a b = some (b', p)

def Reachable (env : Env) (b : Bot) : Prop :=
  ∃ P, (system env).Reaches (System.idle Bot.empty) P ∧ P.state = b

theorem step_eq_some {env : Env} {a : Input} {b t : Bot} (h : step env a b = some t) :
    ∃ b' p, start env a.action b = some (b', p) ∧ t = (p.run a.faults b').2 := by
  obtain ⟨r, hr, rfl⟩ := Option.map_eq_some_iff.1 h
  obtain ⟨⟨b', p⟩, hs, rfl⟩ := Option.map_eq_some_iff.1 hr
  exact ⟨b', p, hs, rfl⟩

theorem Action.exists_thread (a : Action) : ∃ i, a.thread i := by
  cases a with
  | slash => exact ⟨.main, rfl⟩
  | press => exact ⟨.main, rfl⟩
  | complete => exact ⟨.upload 0, Thread.noConfusion⟩

/-- A run without interruptions is one of the runs with them. -/
theorem run_reaches {env : Env} {b b' : Bot} {es : List (Event Input Bot)}
    (h : Run (step env) b es b') : (system env).Reaches (System.idle b) (System.idle b') := by
  refine h.rel (T := fun b b' => (system env).Reaches (System.idle b) (System.idle b'))
    (fun _ => Relation.ReflTransGen.refl) (fun _ _ _ => Relation.ReflTransGen.trans) ?_
  intro e _ he
  obtain ⟨b₁, p, hs, ht⟩ := step_eq_some he
  obtain ⟨i, hi⟩ := e.input.action.exists_thread
  rw [ht]
  exact System.reaches_idle e.input.faults ⟨_, hi, hs⟩

theorem run_reachable {env : Env} {b : Bot} {es : List (Event Input Bot)}
    (h : Run (step env) Bot.empty es b) : Reachable env b :=
  ⟨_, run_reaches h, rfl⟩

/-! ### Runs on given inputs -/

/-- A member of the configured role. -/
def officer : User := ⟨1, "alice", ["officer"]⟩

/-- The officer's command in guild 1, with no statement made to throw. -/
def does (c : Command) : Input := ⟨.slash 1 officer c, []⟩

/-- The officer uploads a guild list, registers and opens a loot split. -/
def opening (names : List String) : List Input :=
  [does (.guildUpload "Atom" (.text ("Alice" :: names))), does (.register "Alice" none),
    does (.create "raid" "S")]

/-- One member, 100 silver, and a submission page. -/
def submission : List Input :=
  opening [] ++ [does (.add "Alice" "U1"), does (.set 100 0), does (.confirm "S")]

def pressConfirm (i : ℕ) (u : User) : Input := ⟨.press i u .confirm, []⟩

def endState (as : List Input) : Bot := final Bot.empty (trace (step Env.ascii) Bot.empty as)

def submitted : Bot := endState submission

def submittedPage : Page := ⟨1, "S", some (.fin 70), some "alice", false, 1⟩

theorem endState_reachable (as : List Input) : Reachable Env.ascii (endState as) :=
  run_reachable (run_trace _ _ _)

end AtomComm.LootSplit
