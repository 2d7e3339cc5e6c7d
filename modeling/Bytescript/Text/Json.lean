import Bytescript.Text.Damaged

/-!
# Reading JSON

A reader of JSON texts that accepts exactly the standard grammar.  Numbers are checked but not
kept, since nothing here asks for one.  A string can fail to spell a text, either by escapes that
are surrogates without a partner or by bytes that are no UTF-8.  That is an error only for those
who ask for the text.
-/

set_option autoImplicit false

namespace Bytescript.Text

/-- A JSON value.  The strings that spell no text are not told apart. -/
inductive Json where
  | null
  | bool (value : Bool)
  | number
  | string (value : Option String)
  | array (items : List Json)
  | object (members : List (Option String × Json))

namespace Json

/-- What is left to be read: characters, and bytes that belong to none. -/
abbrev Input : Type := List (Option Char)

/-- A reader takes a value off the input. -/
abbrev Taking (α : Type) : Type := Input → Option (α × Input)

/-- The characters between tokens. -/
def isBlank (symbol : Option Char) : Bool :=
  symbol = some ' ' || symbol = some '\t' || symbol = some '\n' || symbol = some '\r'

/-- Passes over blanks. -/
def skipBlanks (input : Input) : Input := input.dropWhile isBlank

/-- The rest after a given word. -/
def afterWord? (word : List Char) (input : Input) : Option Input :=
  if (word.map some).isPrefixOf input then some (input.drop word.length) else none

/-! ## Strings -/

/-- The value of a hexadecimal digit. -/
def hexValue? (char : Char) : Option Nat :=
  let code := char.toNat
  if 0x30 ≤ code ∧ code ≤ 0x39 then some (code - 0x30)
  else if 0x41 ≤ code ∧ code ≤ 0x46 then some (code - 0x41 + 10)
  else if 0x61 ≤ code ∧ code ≤ 0x66 then some (code - 0x61 + 10)
  else none

/-- The UTF-16 unit that four hexadecimal digits spell. -/
def takeUnit : Taking Nat
  | a :: b :: c :: d :: rest => do
    let digits ← [a, b, c, d].mapM fun symbol => symbol.bind hexValue?
    return (digits.foldl (fun number digit => number * 16 + digit) 0, rest)
  | _ => none

/-- The character of an escape that has only one letter. -/
def escaped? : Char → Option Char
  | '"' => some '"'
  | '\\' => some '\\'
  | '/' => some '/'
  | 'b' => some '\x08'
  | 'f' => some '\x0c'
  | 'n' => some '\n'
  | 'r' => some '\r'
  | 't' => some '\t'
  | _ => none

/-- The UTF-16 units of a character. -/
def unitsOf (char : Char) : List Nat := (CodePoint.ofChar char).units

/-- The UTF-16 units of an escape, after its backslash. -/
def takeEscape : Taking (List Nat)
  | some 'u' :: rest => (takeUnit rest).map fun (unit, rest) => ([unit], rest)
  | some letter :: rest => (escaped? letter).map fun char => (unitsOf char, rest)
  | _ => none

/-- Reads the UTF-16 units of a string after its opening quote up to the closing one.  A byte
that belongs to no character has none. -/
def takeUnits : (fuel : Nat) → Taking (List (Option Nat))
  | 0, _ => none
  | _, [] => none
  | fuel + 1, none :: rest => do
    let (units, rest) ← takeUnits fuel rest
    return (none :: units, rest)
  | fuel + 1, some char :: rest =>
    if char = '"' then some ([], rest)
    else if char.toNat < 0x20 then none
    else do
      let (first, rest) ← if char = '\\' then takeEscape rest else some (unitsOf char, rest)
      let (units, rest) ← takeUnits fuel rest
      return (first.map some ++ units, rest)

/-- The text that the units of a string spell. -/
def textOfUnits? (units : List (Option Nat)) : Option String :=
  (units.mapM id).bind fun units => (JavaString.ofUnits units).toString?

/-- Reads a string after its opening quote. -/
def takeString : Taking (Option String) := fun input =>
  (takeUnits (input.length + 1) input).map fun (units, rest) => (textOfUnits? units, rest)

/-! ## Numbers -/

/-- The decimal digits. -/
def isDigit (symbol : Option Char) : Bool := symbol.any Char.isDigit

/-- The rest after at least one digit. -/
def afterDigits? (input : Input) : Option Input :=
  match input with
  | first :: rest => if isDigit first then some (rest.dropWhile isDigit) else none
  | [] => none

/-- The rest after the whole part of a number, which has no needless zeros in front. -/
def afterWhole? (input : Input) : Option Input :=
  match input with
  | some '0' :: rest => if rest.head?.any isDigit then none else some rest
  | _ => afterDigits? input

/-- The rest after a fraction, if there is one. -/
def afterFraction? (input : Input) : Option Input :=
  match input with
  | some '.' :: rest => afterDigits? rest
  | _ => some input

/-- The rest after a sign, if there is one. -/
def afterSign (input : Input) : Input :=
  match input with
  | some '+' :: rest => rest
  | some '-' :: rest => rest
  | _ => input

/-- The rest after an exponent, if there is one. -/
def afterExponent? (input : Input) : Option Input :=
  match input with
  | some 'e' :: rest => afterDigits? (afterSign rest)
  | some 'E' :: rest => afterDigits? (afterSign rest)
  | _ => some input

/-- The rest after a number. -/
def afterNumber? (input : Input) : Option Input :=
  let unsigned := match input with
    | some '-' :: rest => rest
    | _ => input
  ((afterWhole? unsigned).bind afterFraction?).bind afterExponent?

/-! ## Values -/

/-- Reads values between commas up to a closing character, given a reader of one value. -/
def takeItems {α : Type} (item : Taking α) (close : Char) : (fuel : Nat) → Taking (List α)
  | 0, _ => none
  | fuel + 1, input => do
    let (first, rest) ← item (skipBlanks input)
    match skipBlanks rest with
    | [] => none
    | next :: rest =>
      if next = some close then return ([first], rest)
      else if next = some ',' then
        let (others, rest) ← takeItems item close fuel rest
        return (first :: others, rest)
      else none

/-- Reads values between commas up to a closing character; there may be none. -/
def takeAnyItems {α : Type} (item : Taking α) (close : Char) : Taking (List α) := fun input =>
  match skipBlanks input with
  | [] => none
  | first :: rest =>
    if first = some close then some ([], rest)
    else takeItems item close input.length (first :: rest)

/-- Reads a member of an object, given a reader of values. -/
def takeMember (value : Taking Json) : Taking (Option String × Json)
  | some '"' :: rest => do
    let (name, rest) ← takeString rest
    match skipBlanks rest with
    | some ':' :: rest =>
      let (member, rest) ← value (skipBlanks rest)
      return ((name, member), rest)
    | _ => none
  | _ => none

/-- Reads a value that begins right here.  Values are not nested deeper than the text is long. -/
def takeValue : (fuel : Nat) → Taking Json
  | 0, _ => none
  | fuel + 1, input =>
    match input with
    | some '"' :: rest => (takeString rest).map fun (value, rest) => (string value, rest)
    | some '[' :: rest =>
      (takeAnyItems (takeValue fuel) ']' rest).map fun (items, rest) => (array items, rest)
    | some '\x7b' :: rest =>
      (takeAnyItems (takeMember (takeValue fuel)) '\x7d' rest).map fun (members, rest) =>
        (object members, rest)
    | some 't' :: _ => (afterWord? "true".toList input).map fun rest => (bool true, rest)
    | some 'f' :: _ => (afterWord? "false".toList input).map fun rest => (bool false, rest)
    | some 'n' :: _ => (afterWord? "null".toList input).map fun rest => (null, rest)
    | _ => (afterNumber? input).map fun rest => (number, rest)

/-- The value that a whole text spells. -/
def parse? (input : Input) : Option Json :=
  match takeValue (input.length + 1) (skipBlanks input) with
  | some (value, rest) => if (skipBlanks rest).isEmpty then some value else none
  | none => none

/-- The value that the bytes of a text in UTF-8 spell.  Strings may hold bytes that are none. -/
def ofBytes? (bytes : List UInt8) : Option Json := parse? (charsAmidDamage bytes)

/-- The text of a string. -/
def text? : Json → Option String
  | string value => value
  | _ => none

/-- The items of an array. -/
def items? : Json → Option (List Json)
  | array items => some items
  | _ => none

end Json

end Bytescript.Text
