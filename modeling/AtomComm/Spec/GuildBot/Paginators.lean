import AtomComm.Lib.Double
import AtomComm.Lib.Text

/-! The paginators of the attendance bot, over pages of any kind. Each is registered as a
listener when it is created and none is ever removed, so every press of a button reaches all
of them; the id in front of the colon says whose button it is. The map from ids to
paginators is only written. -/

namespace AtomComm.GuildBot

inductive ButtonAction
  | prev
  | next
  deriving DecidableEq

def ButtonAction.text : ButtonAction → List Char
  | .prev => ['p', 'r', 'e', 'v']
  | .next => ['n', 'e', 'x', 't']

/-- The cases of the switch. -/
def ButtonAction.ofText (s : List Char) : Option ButtonAction :=
  [.next, .prev].find? fun a : ButtonAction => a.text = s

structure RenderedButton where
  componentId : List Char
  disabled : Bool
  deriving DecidableEq

structure Paginator (ε : Type) where
  id : ℤ
  authorID : ℤ
  embeds : List ε
  currentPage : ℕ
  deriving DecidableEq

/-- What a listener does about a press, besides its own state. -/
inductive Response (ε : Type)
  | ignored
  | print (text : List Char)
  | reply (text : String)
  | edit (embed : ε) (row : List RenderedButton)
  | thrown
  deriving DecidableEq

namespace Paginator
variable {ε : Type}

/-- `embeds.get(currentPage)`; it throws outside the list. -/
def getCurrentEmbed (P : Paginator ε) : Option ε := P.embeds[P.currentPage]?

def getPreviousButton (P : Paginator ε) : RenderedButton :=
  ⟨Text.ofInt P.id ++ ':' :: ButtonAction.prev.text, P.currentPage = 0⟩

def getNextButton (P : Paginator ε) : RenderedButton :=
  ⟨Text.ofInt P.id ++ ':' :: ButtonAction.next.text, (P.currentPage : ℤ) = P.embeds.length - 1⟩

def actionRow (P : Paginator ε) : List RenderedButton := [P.getPreviousButton, P.getNextButton]

/-- The page and the row below it, unless there is no page. -/
def sendInitialMessage (P : Paginator ε) : Option (ε × List RenderedButton) :=
  P.getCurrentEmbed.map fun embed => (embed, P.actionRow)

def nextPage (P : Paginator ε) : Paginator ε :=
  if (P.currentPage : ℤ) < P.embeds.length - 1 then { P with currentPage := P.currentPage + 1 }
  else P

def previousPage (P : Paginator ε) : Paginator ε :=
  if 0 < P.currentPage then { P with currentPage := P.currentPage - 1 } else P

def updatePage (P : Paginator ε) : Response ε :=
  match P.getCurrentEmbed with
  | some embed => .edit embed P.actionRow
  | none => .thrown

def turn (P : Paginator ε) : ButtonAction → Paginator ε
  | .next => P.nextPage
  | .prev => P.previousPage

def onButtonInteraction (userId : ℤ) (buttonId : List Char) (P : Paginator ε) :
    Paginator ε × Response ε :=
  match Text.split [':'] buttonId with
  | [paginatorId, action] =>
    if paginatorId ≠ Text.ofInt P.id then (P, .ignored)
    else if userId ≠ P.authorID then
      (P, .reply "You are not allowed to interact with this paginator.")
    else
      match ButtonAction.ofText action with
      | some a => (P.turn a, (P.turn a).updatePage)
      | none => (P, .print ("Button not found: ".toList ++ buttonId))
  | _ => (P, .print ("Invalid button id: ".toList ++ buttonId))

end Paginator

/-- The counter, and the listeners in the order of their registration. -/
structure Listeners (ε : Type) where
  idSeries : ℤ
  live : List (Paginator ε)
  deriving DecidableEq

inductive PageAct (ε : Type)
  | create (embeds : List ε) (authorID : ℤ)
  | press (userId : ℤ) (buttonId : List Char)
  deriving DecidableEq

namespace Listeners
variable {ε : Type}

def initial : Listeners ε := ⟨0, []⟩

def step (L : Listeners ε) : PageAct ε → Listeners ε
  | .create embeds authorID =>
    { idSeries := Double.wrap32 (L.idSeries + 1)
      live := L.live ++ [⟨L.idSeries, authorID, embeds, 0⟩] }
  | .press userId buttonId =>
    { L with live := L.live.map fun P => (P.onButtonInteraction userId buttonId).1 }

def serve (L : Listeners ε) (acts : List (PageAct ε)) : Listeners ε := acts.foldl step L

end Listeners

end AtomComm.GuildBot
