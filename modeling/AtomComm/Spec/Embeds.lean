import AtomComm.Lib.Format
import AtomComm.Lib.Text

/-! What both bots put in their embeds: texts that `StringUtils` fits to a column, texts that
go through `String.format`, and the table of the names that an image was matched with.
Lengths are counted in characters. -/

namespace AtomComm

structure MessageEmbed where
  title : String
  description : String
  footer : Option String
  deriving DecidableEq

structure MessageEmbed.Field where
  name : String
  value : String
  inline : Bool
  deriving DecidableEq

/-- A page that may have fields and no description. -/
structure Embed where
  title : String
  description : Option String
  fields : List MessageEmbed.Field
  footer : Option String
  deriving DecidableEq

/-- How `String.format` prints the specifiers, for arguments of the class `Integer`. The text
of a number and the result of another conversion have at most one character of the syntax
of specifiers; it is the `%` of `%%`, or of the conversion to a character. -/
structure Formatter where
  print : Format.Spec → Option ℤ → Option (List Char)
  print_string : ∀ n, print (.plain 's') (some n) = some (Text.ofInt n)
  sparse : Format.Sparse print

def Formatter.format (fmt : Formatter) (text : String) (args : List ℤ) : Option String :=
  (Format.format fmt.print args text.toList).map String.ofList

namespace StringUtils

def spaces (n : ℕ) : String := String.ofList (List.replicate n ' ')

def leftPad (str : String) (size : ℕ) : String := spaces (size - str.length) ++ str

def rightPad (str : String) (size : ℕ) : String := str ++ spaces (size - str.length)

def center (str : String) (size : ℕ) : String :=
  if size ≤ str.length then str
  else rightPad (leftPad str (str.length + (size - str.length) / 2)) size

def left (str : String) (len : ℕ) : String :=
  if str.length ≤ len then str else String.ofList (str.toList.take len)

def right (str : String) (len : ℕ) : String :=
  if str.length ≤ len then str else String.ofList (str.toList.drop (str.length - len))

end StringUtils

open StringUtils

/-! ### The table of twenty names -/

/-- The entries at even places go to the left, the others to the right. -/
def leftAndRight {α : Type} : List α → List α × List α
  | [] => ([], [])
  | x :: xs => (x :: (leftAndRight xs).2, (leftAndRight xs).1)

def errorMark (leftStatus rightStatus : String) : String :=
  if leftStatus = "Unknown" ∧ rightStatus = "Unknown" then center "<= Error here =>" 25
  else if leftStatus = "Unknown" then center "<= Error here" 25
  else if rightStatus = "Unknown" then center "Error here =>" 25
  else center "" 25

/-- The loop of `getPaginatorEmbed2`; a name or a status that is missing throws. -/
def namesRows (leftNames leftStatus rightNames rightStatus : List String) : Option (List String) :=
  (List.range 10).mapM fun i => do
    let ls ← leftStatus[i]?
    let rs ← rightStatus[i]?
    let l ← leftNames[i]?
    let r ← rightNames[i]?
    return center l 16 ++ errorMark ls rs ++ center r 16 ++ "\n"

def namesHeader : String := "```" ++ center "Names" 57 ++ "\n\n"

def namesContent (names statuses : List String) : Option String :=
  let (leftNames, rightNames) := leftAndRight names
  let (leftStatus, rightStatus) := leftAndRight statuses
  (namesRows leftNames leftStatus rightNames rightStatus).map fun rows =>
    namesHeader ++ String.join rows ++ "```"

example : center "Bobby" 10 = "  Bobby   " := by decide

end AtomComm
