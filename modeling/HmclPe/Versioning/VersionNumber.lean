import Mathlib.Data.List.Basic
import Mathlib.Data.Fin.Basic

/-! Version numbers: the parser into nested lists, the order on items and the printed
canonical text. Texts are lists of UTF-16 code units. -/
namespace HmclPe.Versioning

abbrev CodeUnit := Fin 65536

abbrev JavaString := List CodeUnit

def codeUnits (s : String) : JavaString := s.toList.map fun c => Fin.ofNat 65536 c.toNat

/-- The zeros of the decimal digits that fit into one code unit. -/
def digitZeros : List Nat :=
  [0x30,0x660,0x6f0,0x7c0,0x966,0x9e6,0xa66,0xae6,0xb66,0xbe6,0xc66,0xce6,0xd66,0xde6,0xe50,0xed0,
    0xf20,0x1040,0x1090,0x17e0,0x1810,0x1946,0x19d0,0x1a80,0x1a90,0x1b50,0x1bb0,0x1c40,0x1c50,
    0xa620,0xa8d0,0xa900,0xa9d0,0xa9f0,0xaa50,0xabf0,0xff10]

/-- `Character.digit` with radix ten. -/
def digit (c : CodeUnit) : Option Nat :=
  (digitZeros.find? fun first => first ≤ c.val ∧ c.val < first + 10).map (c.val - ·)

def isDigit (c : CodeUnit) : Bool := (digit c).isSome

def dot : CodeUnit := 46

def punctuation : JavaString := codeUnits "!\"#$%&'()*+,-/:;<=>?@[\\]^_`\x7b|\x7d~"

/-- `new BigInteger(buf)` for a text of digits. -/
def bigInteger (buf : JavaString) : Nat :=
  buf.foldl (fun value c => 10 * value + (digit c).getD 0) 0

inductive Item where
  | integer (value : Nat)
  | string (value : JavaString)
  | list (separator : Option CodeUnit) (items : List Item)

namespace Item

def isList : Item → Bool
  | list _ _ => true
  | _ => false

def isNull : Item → Bool
  | integer value => value = 0
  | string value => value.isEmpty
  | list _ items => items.isEmpty

end Item

mutual

/-- `compareTo(null)`: a list looks at its first item only. -/
def Item.compareToNull : Item → Int
  | .integer value => if value = 0 then 0 else 1
  | .string _ => 1
  | .list _ items => firstToNull items

def firstToNull : List Item → Int
  | [] => 0
  | first :: _ => first.compareToNull

end

/-- `BigInteger.compareTo` -/
def compareIntegers (value other : Nat) : Int :=
  if value < other then -1 else if value = other then 0 else 1

/-- `String.compareTo` -/
def compareStrings : JavaString → JavaString → Int
  | c :: s, d :: t => if c = d then compareStrings s t else (c.val : Int) - d.val
  | s, t => (s.length : Int) - t.length

/-- The rest of a list against the end of the other one. -/
def compareRest : List Item → Int
  | [] => 0
  | item :: rest =>
    if item.compareToNull ≠ 0 then item.compareToNull else compareRest rest

mutual

def Item.compareTo : Item → Item → Int
  | .integer value, .integer other => compareIntegers value other
  | .integer _, .string _ => 1
  | .integer _, .list _ _ => 1
  | .string _, .integer _ => -1
  | .string value, .string other => compareStrings value other
  | .string _, .list _ _ => -1
  | .list _ _, .integer _ => -1
  | .list _ _, .string _ => 1
  | .list _ left, .list _ right => compareItems left right

def compareItems : List Item → List Item → Int
  | [], right => -1 * compareRest right
  | l :: left, [] => compareRest (l :: left)
  | l :: left, r :: right =>
    if l.compareTo r ≠ 0 then l.compareTo r else compareItems left right

end

/-- `normalize` from the end of the list: null items go, and lists are passed over. -/
def normalizeReversed : List Item → List Item
  | [] => []
  | item :: rest =>
    if item.isNull then normalizeReversed rest
    else if item.isList then item :: normalizeReversed rest
    else item :: rest

def normalize (items : List Item) : List Item := (normalizeReversed items.reverse).reverse

def parseItem (buf : JavaString) : Item :=
  if buf.all isDigit then .integer (bigInteger buf) else .string buf

/-- A list that is still open. It is the last item of the list below it on the stack,
where it is not repeated. -/
structure OpenList where
  separator : Option CodeUnit
  items : List Item

/-- `list` is the top of the stack; `buf` is the text from `startIndex` on. -/
structure Parser where
  list : OpenList
  stack : List OpenList
  isDigit : Bool
  buf : JavaString

namespace Parser

def start : Parser := ⟨⟨none,[]⟩,[],false,[]⟩

def add (parser : Parser) (item : Item) : Parser :=
  { parser with list := { parser.list with items := parser.list.items ++ [item] }, buf := [] }

def open_ (parser : Parser) (separator : Option CodeUnit) : Parser :=
  { parser with list := ⟨separator,[]⟩, stack := parser.list :: parser.stack }

/-- At a dot or a punctuation mark; a missing item counts as zero. -/
def addItem (parser : Parser) : Parser :=
  parser.add (if parser.buf = [] then .integer 0 else parseItem parser.buf)

def step (parser : Parser) (c : CodeUnit) : Parser :=
  if c = dot then parser.addItem
  else if c ∈ punctuation then parser.addItem.open_ (some c)
  else
    let parser :=
      if parser.isDigit ≠ Versioning.isDigit c ∧ parser.buf ≠ [] then
        (parser.add (parseItem parser.buf)).open_ none
      else parser
    { parser with isDigit := Versioning.isDigit c, buf := parser.buf ++ [c] }

def finish (parser : Parser) : Parser :=
  if parser.buf = [] then parser else parser.add (parseItem parser.buf)

/-- The stack is normalized from its top, each list inside the one below. -/
def close (items : List Item) : Option CodeUnit → List OpenList → List Item
  | _, [] => normalize items
  | separator, parent :: stack =>
    close (parent.items ++ [.list separator (normalize items)]) parent.separator stack

end Parser

inductive Kind where
  | mark
  | letter
  | digit
  deriving DecidableEq

def kind (c : CodeUnit) : Kind :=
  if isDigit c then .digit else if c = dot ∨ c ∈ punctuation then .mark else .letter

def parseVersion (version : JavaString) : List Item :=
  let parser := (version.foldl Parser.step Parser.start).finish
  Parser.close parser.list.items parser.list.separator parser.stack

/-- `compareTo` of two version numbers. -/
def compareTo (a b : JavaString) : Int := compareItems (parseVersion a) (parseVersion b)

/-- `BigInteger.toString` -/
def decimal (value : Nat) : JavaString :=
  (Nat.toDigits 10 value).map fun c => Fin.ofNat 65536 c.toNat

mutual

def Item.toText : Item → JavaString
  | .integer value => decimal value
  | .string value => value
  | .list separator items => separator.toList ++ appendItems [] items

/-- The buffer of `ListItem.toString` while its items are appended. -/
def appendItems (buffer : JavaString) : List Item → JavaString
  | [] => buffer
  | item :: rest =>
    appendItems ((if buffer ≠ [] ∧ !item.isList then buffer ++ [dot] else buffer) ++ item.toText)
      rest

end

def canonical (version : JavaString) : JavaString := appendItems [] (parseVersion version)

end HmclPe.Versioning
