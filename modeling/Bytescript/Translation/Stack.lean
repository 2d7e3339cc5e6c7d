import Bytescript.Classes.Inheritance
import Bytescript.Flow.ControlFlow
import Bytescript.Script.Statement

/-!
# Simulating the operand stack

While a block is translated, only the kinds of the values on the stack are known.  They say which
variables hold the values: the variable of a value is named by its kind and its depth, so values
that are moved on the stack are assigned to other variables, and values that stay need no code.

A stack is a list of kinds with the top first.
-/

set_option autoImplicit false

namespace Bytescript

/-- The kind that values of a type have on the stack. -/
def FieldType.kind : FieldType → Kind
  | primitive .long => .long
  | primitive .float => .float
  | primitive .double => .double
  | primitive _ => .int
  | object _ | array _ => .reference

namespace Translation

open Script

/-- The method that is translated, and the classes of the program around it. -/
structure Scope where
  classes : ClassTable
  owner : ClassName
  method : String

/-- Where an instruction stands, as far as its translation depends on that. -/
structure Site extends Scope where
  offset : Nat
  opcode : Nat
  /-- The offset after the block of the instruction. -/
  next : Nat

/-- What an instruction becomes. -/
structure Effect where
  statements : List Statement
  /-- How the block is left, if the instruction decides that. -/
  exit : Option Exit

/-- Statements after which the next instruction follows. -/
def Effect.plain (statements : List Statement) : Effect := ⟨statements, none⟩

/-- Leaves the block without any statement. -/
def Effect.ends (exit : Exit) : Effect := ⟨[], some exit⟩

/-- A stack of kinds, the top first. -/
abbrev Stack : Type := List Kind

/-- A computation that follows what happens to the stack. -/
abbrev Simulation (α : Type) : Type := StateT Stack (Except Failure) α

/-- How messages name a kind. -/
def kindName : Kind → String
  | .int => "Int"
  | .long => "Long"
  | .float => "Float"
  | .double => "Double"
  | .reference => "Reference"

/-- How messages show a stack, the bottom first. -/
def shownStack (stack : Stack) : String :=
  "[" ++ String.intercalate ", " (stack.reverse.map kindName) ++ "]"

namespace Site

/-- Fails because the stack does not fit the instruction. -/
def malformed {α : Type} (site : Site) (reason : String) : Except Failure α :=
  Flow.malformed site.offset reason

/-- Fails because the instruction cannot be translated. -/
def unsupported {α : Type} (site : Site) : Except Failure α :=
  failCompile (.unsupportedInstruction site.owner site.method site.offset site.opcode)

/-- Fails because a class of the support library lacks a member. -/
def missingMember {α : Type} (site : Site) (owner : ClassName) (member : String) :
    Except Failure α :=
  failCompile (.missingDependency owner (some member) (some site.owner))

end Site

/-! ## Single values -/

/-- Puts a value of a kind on the stack, and names its variable. -/
def push (kind : Kind) : Simulation Variable := fun stack =>
  .ok (.stack kind stack.length, kind :: stack)

/-- Takes the top value, whatever it is. -/
def popAny (site : Site) : Simulation (Kind × Variable) := fun stack =>
  match stack with
  | [] => site.malformed "stack underflow"
  | kind :: rest => .ok ((kind, .stack kind rest.length), rest)

/-- Takes the top value, which must be of a kind. -/
def pop (site : Site) (kind : Kind) : Simulation Variable := do
  let (found, value) ← popAny site
  if found = kind then return value
  else
    site.malformed
      ("expected " ++ kindName kind ++ " on the stack, found " ++ kindName found)

/-- Assigns an expression to a new value on the stack. -/
def pushExpression (kind : Kind) (expression : Expression) : Simulation Statement := do
  return .assign (← push kind) expression

/-- An instruction that only puts the value of an expression on the stack. -/
def pushes (kind : Kind) (expression : Expression) : Simulation Effect := do
  return .plain [← pushExpression kind expression]

/-- Takes one value and gives another. -/
def unary (site : Site) (source target : Kind) (make : Expression → Expression) :
    Simulation Effect := do
  let operand ← pop site source
  pushes target (make (.read operand))

/-- Takes two values, the right one first, and gives another. -/
def binary (site : Site) (left right target : Kind)
    (make : Expression → Expression → Expression) : Simulation Effect := do
  let second ← pop site right
  let first ← pop site left
  pushes target (make (.read first) (.read second))

/-! ## Several values -/

/-- Takes the values of parameters, the last one first. -/
def popArguments (site : Site) : List FieldType → Simulation (List Variable)
  | [] => pure []
  | type :: rest => do
    let later ← popArguments site rest
    let value ← pop site type.kind
    return value :: later

/-- Takes a number of ints, and gives them bottom first. -/
def popInts (site : Site) : (count : Nat) → Simulation (List Variable)
  | 0 => pure []
  | count + 1 => do
    let last ← pop site .int
    return (← popInts site count) ++ [last]

/-- Takes values that make up exactly a number of words, and gives them bottom first. -/
def popWords (site : Site) : (words : Nat) → Simulation (List (Kind × Variable))
  | 0 => pure []
  | 1 => do
    let (kind, value) ← popAny site
    if kind.isWide then site.malformed "instruction splits a long or double"
    else return [(kind, value)]
  | words + 2 => do
    let (kind, value) ← popAny site
    let below ← if kind.isWide then popWords site words else popWords site (words + 1)
    return below ++ [(kind, value)]

/-- Puts the values of variables on the stack, one after the other. -/
def pushCopies : List (Kind × Variable) → Simulation (List Statement)
  | [] => pure []
  | (kind, value) :: rest => do
    let first ← pushExpression kind (.read value)
    return first :: (← pushCopies rest)

/-- Puts values back on the stack that are still in their variables. -/
def pushBack : List (Kind × Variable) → Simulation Unit
  | [] => pure ()
  | (kind, _) :: rest => do
    let _value ← push kind
    pushBack rest

/-- Puts values aside, and pairs their kinds with where they are. -/
def setAside (values : List (Kind × Variable)) :
    List Statement × List (Kind × Variable) :=
  let numbered := values.zipIdx
  (numbered.map fun ((_, value), number) => .assign (.temporary number) (.read value),
    numbered.map fun ((kind, _), number) => (kind, .temporary number))

/-! ## Rearranging -/

/-- How many words an instruction takes from the top, how many from under these, and whether the
top values end up both below and above the others. -/
structure Rearrangement where
  top : Nat
  under : Nat
  duplicates : Bool

/-- The rearrangement of each instruction that moves values around. -/
def Rearrangement.ofShuffle : Shuffle → Rearrangement
  | .dup => ⟨1, 0, true⟩
  | .dupX1 => ⟨1, 1, true⟩
  | .dupX2 => ⟨1, 2, true⟩
  | .dup2 => ⟨2, 0, true⟩
  | .dup2X1 => ⟨2, 1, true⟩
  | .dup2X2 => ⟨2, 2, true⟩
  | .swap => ⟨1, 1, false⟩

/-- Rearranges the top of the stack.  Values that only get copied stay where they are; otherwise
all values concerned are put aside and then put back in their new order. -/
def rearrange (site : Site) (how : Rearrangement) : Simulation Effect := do
  let top ← popWords site how.top
  let under ← popWords site how.under
  if under.isEmpty && how.duplicates then
    pushBack top
    return .plain (← pushCopies top)
  else
    let (saves, saved) := setAside (under ++ top)
    let lower := saved.take under.length
    let upper := saved.drop under.length
    let copies ← pushCopies (if how.duplicates then upper ++ lower ++ upper else upper ++ lower)
    return .plain (saves ++ copies)

/-- Drops a value of one word. -/
def dropOne (site : Site) : Simulation Effect := do
  let (kind, _) ← popAny site
  if kind.isWide then site.malformed "pop of a long or double" else return .plain []

/-- Drops two words. -/
def dropTwo (site : Site) : Simulation Effect := do
  let _values ← popWords site 2
  return .plain []

end Translation

end Bytescript
