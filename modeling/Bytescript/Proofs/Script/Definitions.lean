import Bytescript.Proofs.Script.Names
import Bytescript.Script.Literal

/-!
# Lines that define classes

A class is defined by its constructor function and by a line that registers this function under the
name of the class.  How a line begins tells whether it does either, since other lines begin with a
tab, with a sign, or with the name of a class and a point.
-/

set_option autoImplicit false

namespace Bytescript.Script

/-- Whether a line begins a function that has a name of its own. -/
def startsFunction (line : String) : Bool := "function ".toList.isPrefixOf line.toList

/-- Whether a line registers a class. -/
def isRegistration (line : String) : Bool := "$vm.defineClass(".toList.isPrefixOf line.toList

/-- The line that begins the constructor function of a class. -/
def constructorStart (name : ClassName) : String := "function " ++ classIdentifier name ++ "() \x7b"

/-- A line registers the constructor function of a class under the name of the class. -/
def Registers (name : ClassName) (line : String) : Prop :=
  ∃ rest, line =
    "$vm.defineClass(" ++ classIdentifier name ++ ", " ++ textLiteral name.text ++ ", " ++ rest

variable {line : String} {name : ClassName}

theorem startsFunction_iff : startsFunction line = true ↔ "function ".toList <+: line.toList :=
  List.isPrefixOf_iff_prefix

theorem isRegistration_iff :
    isRegistration line = true ↔ "$vm.defineClass(".toList <+: line.toList :=
  List.isPrefixOf_iff_prefix

/-! ## Constructor functions and registrations -/

theorem startsFunction_constructorStart : startsFunction (constructorStart name) = true := by
  rw [startsFunction_iff, constructorStart, String.toList_append, String.toList_append,
    List.append_assoc]
  exact List.prefix_append _ _

theorem Registers.isRegistration (registers : Registers name line) :
    isRegistration line = true := by
  obtain ⟨rest, rfl⟩ := registers
  simp only [isRegistration_iff, String.toList_append, List.append_assoc]
  exact List.prefix_append _ _

/-- A text that begins with another character does not begin so. -/
theorem isPrefixOf_of_head? {chars start : List Char} {first symbol : Char}
    (head : chars.head? = some symbol) (other : symbol ≠ first) :
    (first :: start).isPrefixOf chars = false := by
  rw [Bool.eq_false_iff, ne_eq, List.isPrefixOf_iff_prefix]
  rintro ⟨rest, rfl⟩
  exact other (Option.some.inj head).symm

theorem startsFunction_of_head? (symbol : Char) (head : line.toList.head? = some symbol)
    (other : symbol ≠ 'f') : startsFunction line = false :=
  isPrefixOf_of_head? head other

theorem isRegistration_of_head? (symbol : Char) (head : line.toList.head? = some symbol)
    (other : symbol ≠ '$') : isRegistration line = false :=
  isPrefixOf_of_head? head other

theorem isRegistration_constructorStart : isRegistration (constructorStart name) = false :=
  isRegistration_of_head? 'f' (by simp [constructorStart]) (by decide)

theorem Registers.startsFunction (registers : Registers name line) :
    startsFunction line = false := by
  obtain ⟨rest, rfl⟩ := registers
  exact startsFunction_of_head? '$' (by simp) (by decide)

/-- Classes with the same constructor function have the same name in the script. -/
theorem constructorStart_inj {other : ClassName}
    (same : constructorStart name = constructorStart other) :
    classIdentifier name = classIdentifier other := by
  have characters := congrArg String.toList same
  exact String.toList_injective (by simpa [constructorStart] using characters)

/-! ## Members of classes -/

/-- A line that begins with the name of a class and a point begins no function. -/
theorem startsFunction_of_member {rest : List Char}
    (begins : line.toList = (classIdentifier name).toList ++ '.' :: rest) :
    startsFunction line = false := by
  rw [Bool.eq_false_iff, ne_eq, startsFunction_iff, begins]
  intro function
  have apart : "function ".toList = "function".toList ++ ' ' :: [] := rfl
  rw [apart] at function
  have ends := (eq_of_prefix_append_cons (fun _ => isNameChar_of_all (by decide))
    (fun _ => isNameChar_classIdentifier) (by decide) (by decide) function).2.1
  cases ends

/-- A line that begins so registers a class only if the member is called like the function that
does so. -/
theorem isRegistration_of_member {first : Char} {rest : List Char}
    (begins : line.toList = (classIdentifier name).toList ++ '.' :: first :: rest)
    (other : first ≠ 'd') : isRegistration line = false := by
  rw [Bool.eq_false_iff, ne_eq, isRegistration_iff, begins]
  intro registers
  have apart : "$vm.defineClass(".toList = "$vm".toList ++ '.' :: "defineClass(".toList := rfl
  rw [apart] at registers
  have member := (eq_of_prefix_append_cons (fun _ => isNameChar_of_all (by decide))
    (fun _ => isNameChar_classIdentifier) (by decide) (by decide) registers).2.2
  exact other (List.cons_prefix_cons.mp member).1.symm

end Bytescript.Script
