import AtomComm.Lib.Utf8
import Mathlib.Algebra.Group.Nat.Defs

/-! `editdist3` of the spellfix extension, and `lower` of SQLite, byte by byte. The Wagner matrix
is one array, of which row `i2` starts at `szRow * i2`; an access outside of it is an error, and
so is an int that overflows when its size is computed. Texts have their length with them and
may contain a NUL. -/

namespace AtomComm.Spellfix

open Utf8

inductive Fault
  | noMemory
  | overflow
  | outOfBounds
  deriving DecidableEq

/-- An entry in the edit cost table. -/
structure EditDist3Cost where
  aFrom : List UInt8
  aTo : List UInt8
  iCost : ℕ
  deriving DecidableEq

structure EditDist3Lang where
  iLang : ℤ
  iInsCost : ℕ
  iDelCost : ℕ
  iSubCost : ℕ
  pCost : List EditDist3Cost

def editDist3Lang : EditDist3Lang := ⟨0, 100, 100, 150, []⟩

/-- The languages of the table that was loaded, of which the bots load none. -/
abbrev EditDist3Config := List EditDist3Lang

def editDist3FindLang (pConfig : EditDist3Config) (iLang : ℤ) : EditDist3Lang :=
  (pConfig.find? fun a => a.iLang = iLang).getD editDist3Lang

/-- What is kept of each byte of the FROM string, as the start of a character. -/
structure EditDist3From where
  nByte : ℕ
  apSubst : List EditDist3Cost
  apDel : List EditDist3Cost

structure EditDist3FromString where
  z : List UInt8
  isPrefix : Bool
  a : List EditDist3From
  length_a : a.length = z.length

def EditDist3FromString.n (f : EditDist3FromString) : ℕ := f.z.length

structure EditDist3To where
  nByte : ℕ
  apIns : List EditDist3Cost

/-! ### Characters -/

/-- The length of the character that starts with `c`, and `N` at most. -/
def utf8Len (c : UInt8) (N : ℕ) : ℕ :=
  let len :=
    if c > 0x7f then
      if c &&& 0xe0 = 0xc0 then 2
      else if c &&& 0xf0 = 0xe0 then 3
      else 4
    else 1
  min len N

/-- `strncmp(s, t, n) == 0`, which looks no further than a NUL. -/
def strncmpEq : List UInt8 → List UInt8 → ℕ → Bool
  | _, _, 0 => true
  | a :: s, b :: t, n + 1 => a = b && (a = 0 || strncmpEq s t n)
  | _, _, _ + 1 => false

/-- `z` is what is left of the string, here and below. -/
def matchTo (p : EditDist3Cost) (z : List UInt8) : Bool :=
  decide (p.aTo.length ≤ z.length) && strncmpEq p.aTo z p.aTo.length

def matchFrom (p : EditDist3Cost) (z : List UInt8) : Bool :=
  strncmpEq p.aFrom z p.aFrom.length

def matchFromTo (f : EditDist3FromString) (n1 : ℕ) (x : EditDist3From) (z2 : List UInt8) : Bool :=
  decide (x.nByte ≤ z2.length) && decide ((f.z.drop n1).take x.nByte = z2.take x.nByte)

/-- `for (i = 0; i < n; i += a[i].nByte)`: the elements that the loop stops at, each with its
index; no more than the first argument. -/
def stops {α : Type} (nByte : α → ℕ) (a : List α) : ℕ → ℕ → List (ℕ × α)
  | 0, _ => []
  | fuel + 1, i =>
    match a[i]? with
    | none => []
    | some x => (i, x) :: stops nByte a fuel (i + nByte x)

/-- From this size on `sqlite3_malloc64` grants nothing. -/
def mallocLimit : ℕ := 0x7fffff00

/-- What is kept of the byte `c` at `i`. -/
def editDist3From (pLang : EditDist3Lang) (z : List UInt8) (i : ℕ) (c : UInt8) : EditDist3From :=
  let found := pLang.pCost.filter fun p =>
    decide (i + p.aFrom.length ≤ z.length) && matchFrom p (z.drop i)
  { nByte := utf8Len c (z.length - i)
    apSubst := found.filter fun p => p.aTo.length ≠ 0
    apDel := found.filter fun p => p.aTo.length = 0 }

def editDist3FromStringNew (pLang : EditDist3Lang) (z : List UInt8) :
    Except Fault EditDist3FromString :=
  if 24 + 32 * z.length + z.length + 1 ≥ mallocLimit then .error .noMemory
  else
    let isPrefix : Bool := z.getLast? = some 0x2a
    let z := if isPrefix then z.dropLast else z
    .ok {
      z := z
      isPrefix := isPrefix
      a := z.mapIdx (editDist3From pLang z)
      length_a := List.length_mapIdx }

/-! ### The matrix -/

/-- The entry `m[i]` becomes `m[j] + iCost` if that is less. -/
def updateCost (m : Array ℕ) (i j iCost : ℕ) : Except Fault (Array ℕ) :=
  if iCost < 10000 then
    match m[j]?, m[i]? with
    | some mj, some mi =>
      let b := (mj + iCost) % 2 ^ 32
      .ok (if b < mi then m.setIfInBounds i b else m)
    | _, _ => .error .outOfBounds
  else .ok m

def updateCostIf (cond : Bool) (m : Array ℕ) (i j iCost : ℕ) : Except Fault (Array ℕ) :=
  if cond then updateCost m i j iCost else .ok m

def readCost (m : Array ℕ) (i : ℕ) : Except Fault ℕ :=
  match m[i]? with
  | some v => .ok v
  | none => .error .outOfBounds

section Loops
variable (pLang : EditDist3Lang) (f : EditDist3FromString) (z2 : List UInt8)

def editDist3To (i2 : ℕ) (c : UInt8) : EditDist3To :=
  { nByte := utf8Len c (z2.length - i2)
    apIns := pLang.pCost.filter fun p =>
      decide (p.aFrom.length = 0) && decide (i2 + p.aTo.length ≤ z2.length) &&
        matchTo p (z2.drop i2) }

def fromStops : List (ℕ × EditDist3From) := stops EditDist3From.nByte f.a f.n 0

def toStops : List (ℕ × EditDist3To) :=
  stops EditDist3To.nByte (z2.mapIdx (editDist3To pLang z2)) z2.length 0

/-- The top row: the FROM string deleted. -/
def fillTop (m : Array ℕ) : Except Fault (Array ℕ) :=
  (fromStops f).foldlM (fun m (i1, x) => do
    let m ← updateCost m (i1 + x.nByte) i1 pLang.iDelCost
    x.apDel.foldlM (fun m p => updateCost m (i1 + p.aFrom.length) i1 p.iCost) m) m

/-- The body of the inner loop, at the characters `i2` and `i1`. -/
def fillCell (i2 b2 : ℕ) (m : Array ℕ) (i1 : ℕ) (x : EditDist3From) : Except Fault (Array ℕ) := do
  let szRow := f.n + 1
  let cxp := szRow * (i2 + b2) + i1
  let cx := cxp + x.nByte
  let cxd := szRow * i2 + i1
  let cxu := cxd + x.nByte
  let m ← updateCost m cx cxp pLang.iDelCost
  let m ← x.apDel.foldlM (fun m p => updateCost m (cxp + p.aFrom.length) cxp p.iCost) m
  let m ← updateCost m cx cxu pLang.iInsCost
  let m ← updateCostIf (matchFromTo f i1 x (z2.drop i2)) m cx cxd 0
  let m ← updateCost m cx cxd pLang.iSubCost
  x.apSubst.foldlM (fun m p => updateCostIf (matchTo p (z2.drop i2)) m
    (cxd + p.aFrom.length + szRow * p.aTo.length) cxd p.iCost) m

/-- The body of the outer loop. -/
def fillRow (m : Array ℕ) (i2 : ℕ) (y : EditDist3To) : Except Fault (Array ℕ) := do
  let szRow := f.n + 1
  let rxp := szRow * i2
  let m ← updateCost m (szRow * (i2 + y.nByte)) rxp pLang.iInsCost
  let m ← y.apIns.foldlM (fun m p => updateCost m (szRow * (i2 + p.aTo.length)) rxp p.iCost) m
  (fromStops f).foldlM (fun m (i1, x) => fillCell pLang f z2 i2 y.nByte m i1 x) m

/-- Of a prefix search the least entry of the last column counts, and the last row that has it. -/
def bestPrefix (m : Array ℕ) (full : ℕ) : Except Fault (ℕ × ℕ) :=
  (List.range' 1 z2.length).foldlM (fun best i2 => do
    let b ← readCost m ((f.n + 1) * i2 - 1)
    return if b ≤ best.1 then (b, i2 - 1) else best) (full, z2.length)

/-- The result, and the bytes of the TO string that are matched. -/
def readResult (m : Array ℕ) : Except Fault (ℕ × ℕ) := do
  let res ← readCost m ((f.n + 1) * (z2.length + 1) - 1)
  if f.isPrefix then bestPrefix f z2 m res else return (res, z2.length)

/-- The distance, and the number of characters of the TO string that are matched. -/
def editDist3Core : Except Fault (ℕ × ℕ) := do
  let n2 := z2.length
  let szRow := f.n + 1
  if szRow * (n2 + 1) + 1 ≥ 2 ^ 31 then throw .overflow
  let n := (szRow * (n2 + 1) + 1) / 2 * 2
  let nByte := n * 4 + 16 * n2
  if nByte > 1024 ∧ nByte ≥ mallocLimit then throw .noMemory
  let m := (Array.replicate ((n2 + 1) * szRow) 0x01010101).setIfInBounds 0 0
  let m ← fillTop pLang f m
  let m ← (toStops pLang z2).foldlM (fun m y => fillRow pLang f z2 m y.1 y.2) m
  let (res, n) ← readResult f z2 m
  return (res, n - (z2.take n).countP isTail)

end Loops

def editDist3SqlFunc (pConfig : EditDist3Config) (zA zB : List UInt8) (iLang : ℤ) :
    Except Fault ℕ := do
  let pLang := editDist3FindLang pConfig iLang
  let pFrom ← editDist3FromStringNew pLang zA
  let (dist, _) ← editDist3Core pLang pFrom zB
  return dist

/-! ### `lower` -/

/-- The table `sqlite3UpperToLower`. -/
def sqlite3Tolower (c : UInt8) : UInt8 := if 65 ≤ c ∧ c ≤ 90 then c + 32 else c

def lowerFunc (z : List UInt8) : List UInt8 := z.map sqlite3Tolower

end AtomComm.Spellfix
