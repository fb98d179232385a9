import AtomComm.Spec.Embeds
import AtomComm.Spec.LootSplit.Commands

/-! The paginators of the loot split bot. Each is registered as a listener and none is ever
removed, so every press of a button reaches all of them; the id in front of the colon says
whose button it is. Class and subclass count their ids apart: the page buttons carry the id
that `Paginator` gave out, the other two that of `LootSplitSubmissionPaginator`, and it is
the latter that a submission compares with. -/

namespace AtomComm.LootSplit

inductive ButtonAction
  | prev
  | next
  | confirm
  | cancel
  deriving DecidableEq

def ButtonAction.text : ButtonAction → List Char
  | .prev => ['p', 'r', 'e', 'v']
  | .next => ['n', 'e', 'x', 't']
  | .confirm => ['c', 'o', 'n', 'f', 'i', 'r', 'm']
  | .cancel => ['c', 'a', 'n', 'c', 'e', 'l']

/-- The cases of the switch. -/
def ButtonAction.ofText (s : List Char) : Option ButtonAction :=
  [.next, .prev, .confirm, .cancel].find? fun a : ButtonAction => a.text = s

structure RenderedButton where
  componentId : List Char
  disabled : Bool
  deriving DecidableEq

/-- What the subclass adds, its own id first. -/
structure Submission where
  id : ℤ
  page : Page
  deriving DecidableEq

structure Paginator where
  id : ℤ
  authorID : ℤ
  embeds : ℕ
  currentPage : ℕ
  submission : Option Submission
  deriving DecidableEq

namespace Paginator

def isSessionFinished (P : Paginator) : Bool :=
  P.submission.any fun s => s.page.isSessionFinished

/-- The id that the class with the handler has. -/
def handlerId (P : Paginator) : ℤ := (P.submission.map Submission.id).getD P.id

def primary (id : ℤ) (a : ButtonAction) (disabled : Bool) : RenderedButton :=
  ⟨Text.ofInt id ++ ':' :: a.text, disabled⟩

def getPreviousButton (P : Paginator) : RenderedButton :=
  primary P.id .prev (P.currentPage = 0)

def getNextButton (P : Paginator) : RenderedButton :=
  primary P.id .next ((P.currentPage : ℤ) = P.embeds - 1)

def getConfirmButton (s : Submission) : RenderedButton :=
  primary s.id .confirm s.page.isSessionFinished

def getCancelButton (s : Submission) : RenderedButton :=
  primary s.id .cancel s.page.isSessionFinished

/-- The row below the page, each button with its action. -/
def actionRow (P : Paginator) : List (ButtonAction × RenderedButton) :=
  match P.submission with
  | none => [(.prev, P.getPreviousButton), (.next, P.getNextButton)]
  | some s => [(.prev, P.getPreviousButton), (.confirm, getConfirmButton s),
      (.cancel, getCancelButton s), (.next, P.getNextButton)]

/-- The page as it is sent, unless `getCurrentEmbed` throws. -/
def render (P : Paginator) : Option (ℕ × List (ButtonAction × RenderedButton)) :=
  if P.currentPage < P.embeds then some (P.currentPage, P.actionRow) else none

def nextPage (P : Paginator) : Paginator :=
  if (P.currentPage : ℤ) < P.embeds - 1 then { P with currentPage := P.currentPage + 1 } else P

def previousPage (P : Paginator) : Paginator :=
  if 0 < P.currentPage then { P with currentPage := P.currentPage - 1 } else P

def finish (P : Paginator) : Paginator :=
  { P with submission := P.submission.map fun s =>
      { s with page := { s.page with isSessionFinished := true } } }

end Paginator

/-- What a listener does about a press, besides its own state. -/
inductive Response
  | ignored
  | print (text : List Char)
  | reply (text : String)
  | edit (page : ℕ) (row : List (ButtonAction × RenderedButton))
  | thrown
  deriving DecidableEq

def Response.edits : Response → Bool
  | .edit .. => true
  | _ => false

/-- A listener after a press, with the statements that it ran. -/
structure Handled where
  paginator : Paginator
  program : Option (Cmd Reply)
  response : Response

namespace Paginator

/-- The branch of the switch: the paginator after it and what it ran. -/
def performs (u : User) (P : Paginator) : ButtonAction → Option (Paginator × Option (Cmd Reply))
  | .next => some (P.nextPage, none)
  | .prev => some (P.previousPage, none)
  | .confirm => P.submission.map fun s => (P.finish, some (confirm u s.page))
  | .cancel => P.submission.map fun _ => (P.finish,
      some (pure (.embed "Loot Split Cancelled" "The loot split session has been cancelled.")))

def updatePage (P : Paginator) : Response :=
  match P.render with
  | some (page, row) => .edit page row
  | none => .thrown

/-- The switch, and the page edited after it. -/
def act (u : User) (P : Paginator) (a : ButtonAction) : Option Handled :=
  (P.performs u a).map fun (P', program) => ⟨P', program, P'.updatePage⟩

def onButtonInteraction (u : User) (buttonId : List Char) (P : Paginator) : Handled :=
  match Text.split [':'] buttonId with
  | [paginatorId, action] =>
    if paginatorId ≠ Text.ofInt P.handlerId then ⟨P, none, .ignored⟩
    else if u.id ≠ P.authorID then
      ⟨P, none, .reply "You are not allowed to interact with this paginator."⟩
    else ((ButtonAction.ofText action).bind (P.act u)).getD
      ⟨P, none, .print ("Button not found: ".toList ++ buttonId)⟩
  | _ => ⟨P, none, .print ("Invalid button id: ".toList ++ buttonId)⟩

/-- A press with the bot that it finds and the statements that are made to throw while it
runs. -/
structure Press where
  user : User
  buttonId : List Char
  bot : Bot
  faults : List Bool

/-- The listener after a press. -/
def press (a : Press) (P : Paginator) : Option Paginator :=
  some (P.onButtonInteraction a.user a.buttonId).paginator

/-- The outcome of what the listener ran, if it ran anything. -/
def outcome (a : Press) (P : Paginator) : Option (Except Exn Reply × Bot) :=
  (P.onButtonInteraction a.user a.buttonId).program.map fun p => p.run a.faults a.bot

end Paginator

/-- Both counters, and the listeners in the order of their registration. -/
structure Listeners where
  idSeries : ℤ
  submissionSeries : ℤ
  live : List Paginator
  deriving DecidableEq

inductive PageAct
  | paginator (authorID : ℤ) (embeds : ℕ)
  /-- A submission has a first page and `more` of members. The constructor looks the creator
  of the session up, which may throw when both ids are taken. -/
  | submission (page : Page) (more : ℕ) (thrown : Bool)
  | press (u : User) (buttonId : List Char)
  deriving DecidableEq

namespace Listeners

def initial : Listeners := ⟨0, 0, []⟩

/-- Every listener receives the event. -/
def press (u : User) (buttonId : List Char) (L : Listeners) : List Handled :=
  L.live.map (Paginator.onButtonInteraction u buttonId)

def step (L : Listeners) : PageAct → Listeners
  | .paginator authorID embeds =>
    { L with
      idSeries := Double.wrap32 (L.idSeries + 1)
      live := L.live ++ [⟨L.idSeries, authorID, embeds, 0, none⟩] }
  | .submission page more thrown =>
    { idSeries := Double.wrap32 (L.idSeries + 1)
      submissionSeries := Double.wrap32 (L.submissionSeries + 1)
      live := if thrown then L.live else L.live ++ [⟨L.idSeries, page.authorID, more + 1, 0,
        some ⟨L.submissionSeries, { page with isSessionFinished := false }⟩⟩] }
  | .press u buttonId => { L with live := (L.press u buttonId).map Handled.paginator }

def serve (L : Listeners) (acts : List PageAct) : Listeners := acts.foldl step L

end Listeners

/-! ### The page of an uploaded party -/

/-- `getPaginatorEmbed2` of `LootSplitPartyUploadHelper`, whose format has no argument. -/
def getPaginatorEmbed2 (fmt : Formatter) (names usersStatus : List String) :
    Option (List MessageEmbed) := do
  let pageContent ← namesContent names usersStatus
  let description ← fmt.format ("The following usernames have been detected \nfor the Party:\n" ++
    "*(You can re-upload the image to update the party)*\n\n" ++ pageContent) []
  return [⟨"Detected Names", description, some "Page 1 of 1"⟩]

end AtomComm.LootSplit
