import AdaptiveCalc.Fast
import AdaptiveCalc.Settings.Basic
import AdaptiveCalc.Settings.Integer

/-!
# Settings documents

A document has a line for each option it sets; blank lines and comments may stand
anywhere, and an option is set at most once. The name of an option is bare or quoted.
A document with anything else in it is malformed as a whole, so nothing is said about
the precision before every line has been read.
-/
namespace AdaptiveCalc.Settings

inductive Key where
  | divisionPrecision
  | maxDepth
  deriving DecidableEq, Repr

def Key.name : Key → String
  | divisionPrecision => "division_precision"
  | maxDepth => "max_depth"

def Key.ofName? (name : List Char) : Option Key :=
  if name = Key.divisionPrecision.name.toList then some .divisionPrecision
  else if name = Key.maxDepth.name.toList then some .maxDepth
  else none

namespace Document

def isGap (c : Char) : Bool := c == ' ' || c == '\t'

/-- A comment holds no control character other than the tab. -/
def isCommentChar (c : Char) : Bool := c == '\t' || (0x20 ≤ c.toNat && c.toNat != 0x7F)

def isBareChar (c : Char) : Bool := c.isAlphanum || c == '_' || c == '-'

/-- Cuts a text into lines; the line begun already is `line`, its last character first.
A line ends with a line feed, which may have a carriage return before it. -/
def cutLines (line : List Char) : List Char → List (List Char)
  | [] => [line.reverse]
  | '\r' :: '\n' :: cs => line.reverse :: cutLines [] cs
  | '\n' :: cs => line.reverse :: cutLines [] cs
  | c :: cs => cutLines (c :: line) cs

/-- The lines of a document. A byte order mark in front of them is no part of them. -/
def lines : List Char → List (List Char)
  | '\uFEFF' :: cs => cutLines [] cs
  | cs => cutLines [] cs

def skipGaps (cs : List Char) : List Char := cs.dropWhile isGap

/-- Whether there is nothing more on a line than blanks and a comment. -/
def endsHere (cs : List Char) : Bool :=
  match skipGaps cs with
  | [] => true
  | c :: comment => c == '#' && comment.all isCommentChar

def numbered? (digits : List Char) : Option Char := do
  let n := (← digits.mapM Integer.digit?).foldl (16 * · + ·) 0
  if h : n.isValidChar then some (Char.ofNatAux n h) else none

/-- The rest of a name behind a double quote, and what follows the closing quote. The
escapes are the ones that can write a character of an option's name. -/
def readQuoted? (name : List Char) : List Char → Option (List Char × List Char)
  | [] => none
  | '"' :: cs => some (name.reverse, cs)
  | '\\' :: 'u' :: a :: b :: c :: d :: cs => do
    readQuoted? ((← numbered? [a, b, c, d]) :: name) cs
  | '\\' :: 'U' :: a :: b :: c :: d :: e :: f :: g :: h :: cs => do
    readQuoted? ((← numbered? [a, b, c, d, e, f, g, h]) :: name) cs
  | '\\' :: _ => none
  | c :: cs => readQuoted? (c :: name) cs

/-- The name in front of a line, and what follows it. Between single quotes every
character stands for itself. -/
def readName? : List Char → Option (List Char × List Char)
  | '"' :: cs => readQuoted? [] cs
  | '\'' :: cs =>
    match cs.dropWhile (· != '\'') with
    | [] => none
    | _ :: rest => some (cs.takeWhile (· != '\''), rest)
  | cs => some (cs.takeWhile isBareChar, cs.dropWhile isBareChar)

/-- The value that follows an equals sign: the characters up to a blank or a comment are
one integer of 64 bits. -/
def readValue? (cs : List Char) : Option Int := do
  let isValueChar (c : Char) := !isGap c && c != '#'
  let value ← Integer.read? (cs.takeWhile isValueChar)
  if Fast.Fits value ∧ endsHere (cs.dropWhile isValueChar) then some value else none

def readAssignment? (cs : List Char) : Option (Key × Int) := do
  let (name, rest) ← readName? (skipGaps cs)
  let key ← Key.ofName? name
  match skipGaps rest with
  | '=' :: rest => do
    let value ← readValue? (skipGaps rest)
    some (key, value)
  | _ => none

/-- The values that the lines read so far have set. -/
structure Draft where
  precision? : Option Int := none
  depth? : Option Int := none
  deriving DecidableEq, Repr

def Draft.set? (d : Draft) (key : Key) (value : Int) : Option Draft :=
  match key with
  | .divisionPrecision => if d.precision?.isSome then none else some { d with precision? := value }
  | .maxDepth => if d.depth?.isSome then none else some { d with depth? := value }

def readLines? (d : Draft) : List (List Char) → Option Draft
  | [] => some d
  | line :: rest =>
    if endsHere line then readLines? d rest
    else do
      let (key, value) ← readAssignment? line
      readLines? (← d.set? key value) rest

/-- The settings of a draft, with the default for what it does not set. A precision is
positive and a depth is not negative. -/
def Draft.settings? (d : Draft) : Option Settings :=
  let defaults : Settings := default
  let precision := d.precision?.getD defaults.divisionPrecision
  let depth := d.depth?.getD defaults.maxDepth
  if h : 0 < precision.toNat ∧ 0 ≤ depth then
    some { divisionPrecision := precision.toNat, maxDepth := depth.toNat, precision_pos := h.1 }
  else none

end Document

def ofDocument (text : String) : Except SettingsError Settings :=
  match (Document.readLines? {} (Document.lines text.toList)).bind Document.Draft.settings? with
  | some settings => settings.validate
  | none => .error .malformed

end AdaptiveCalc.Settings
