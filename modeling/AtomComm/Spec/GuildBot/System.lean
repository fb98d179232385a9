import AtomComm.Lib.Interleave
import AtomComm.Lib.Trace
import AtomComm.Spec.GuildBot.Commands

/-! The attendance bot as a machine. Commands reach one thread, which runs each to its end;
the scheduler runs the checker on threads of its own, and so does the completion of each
download. `step` is the machine whose events are never interrupted, `system` the one in
which the statements of different threads fall in any order. -/

namespace AtomComm.GuildBot

inductive Action
  | slash (g : ℤ) (c : Command)
  | complete (j : ℕ) (roster : Roster)
  | check (clock : ℕ → ℤ) (channels : List (Option ℤ))

/-- What an action does to the memory, and the program it then runs. -/
def start (env : Env) : Action → Bot → Option (Bot × Cmd Reply)
  | .slash g c, b => some (b, execute env g c)
  | .complete j roster, b => (b.pending[j]?).map fun upload =>
      ({ b with pending := b.pending.eraseIdx j }, completeUpload env roster upload)
  | .check clock channels, b => some (b, checker clock channels)

/-- An action with the statements that are made to throw while it runs. -/
structure Input where
  action : Action
  faults : List Bool

def perform (env : Env) (a : Input) (b : Bot) : Option (Except Exn Reply × Bot) :=
  (start env a.action b).map fun (b', p) => p.run a.faults b'

def step (env : Env) (a : Input) (b : Bot) : Option Bot := (perform env a b).map Prod.snd

/-- `onReady` starts a scheduler each time it is called. -/
inductive Thread
  | main
  | upload (n : ℕ)
  | scheduler (n : ℕ)
  deriving DecidableEq

def Action.thread : Action → Thread → Prop
  | .slash .., i => i = .main
  | .complete .., i => ∃ n, i = .upload n
  | .check .., i => ∃ n, i = .scheduler n

def system (env : Env) : System Thread Bot Reply where
  start i b b' p := ∃ a : Action, a.thread i ∧ start env a b = some (b', p)

theorem step_eq_some {env : Env} {a : Input} {b t : Bot} (h : step env a b = some t) :
    ∃ b' p, start env a.action b = some (b', p) ∧ t = (p.run a.faults b').2 := by
  obtain ⟨r, hr, rfl⟩ := Option.map_eq_some_iff.1 h
  obtain ⟨⟨b', p⟩, hs, rfl⟩ := Option.map_eq_some_iff.1 hr
  exact ⟨b', p, hs, rfl⟩

theorem Action.exists_thread (a : Action) : ∃ i, a.thread i := by
  cases a with
  | slash => exact ⟨.main, rfl⟩
  | complete => exact ⟨.upload 0, 0, rfl⟩
  | check => exact ⟨.scheduler 0, 0, rfl⟩

/-- A run without interruptions is one of any system that starts its actions. -/
theorem run_reaches_of {S : System Thread Bot Reply} {env : Env} {b b' : Bot}
    {es : List (Event Input Bot)} (h : Run (step env) b es b')
    (hstart : ∀ e ∈ es, ∀ i b b' p, e.input.action.thread i →
      start env e.input.action b = some (b', p) → S.start i b b' p) :
    S.Reaches (System.idle b) (System.idle b') := by
  refine h.rel (T := fun b b' => S.Reaches (System.idle b) (System.idle b'))
    (fun _ => Relation.ReflTransGen.refl) (fun _ _ _ => Relation.ReflTransGen.trans) ?_
  intro e he hstep
  obtain ⟨b₁, p, hs, ht⟩ := step_eq_some hstep
  obtain ⟨i, hi⟩ := e.input.action.exists_thread
  rw [ht]
  exact System.reaches_idle e.input.faults (hstart e he i _ _ _ hi hs)

theorem run_reaches {env : Env} {b b' : Bot} {es : List (Event Input Bot)}
    (h : Run (step env) b es b') : (system env).Reaches (System.idle b) (System.idle b') :=
  run_reaches_of h fun _ _ _ _ _ _ hi hs => ⟨_, hi, hs⟩

/-! ### Runs on given inputs -/

/-- A command in guild 1, with no statement made to throw. -/
def does (c : Command) : Input := ⟨.slash 1 c, []⟩

/-- A CTA on the evening of 1 March 2024, started at noon. -/
def startCTA : Input :=
  does (.start "03/01 19:00" "03/01 21:00" "CTA1" ⟨2024, 2024, 1709294400000000000⟩)

def online (names : List String) : Roster :=
  ⟨names, names.map fun _ => "03/01/2024 12:00:00", names⟩

/-- A CTA with the given members online. -/
def opening (names : List String) : List Input :=
  [startCTA, does (.guildUpload (.text (online names)))]

def endState (as : List Input) : Bot := final Bot.empty (trace (step Env.ascii) Bot.empty as)

end AtomComm.GuildBot
