import Bytescript.ClassFile.Bytecode

/-!
# The classes that a class refers to

A class refers to its super class and its interfaces, to the classes that its instructions name,
and to the classes of exceptions that its methods catch.  An instruction that names an array
class refers to the class of the elements.  The types in the descriptors of members are not
needed to run anything, so they do not count.
-/

set_option autoImplicit false

namespace Bytescript

/-- The class that an instruction names, which may be an array class. -/
def Instruction.namedClass? : Instruction → Option ClassName
  | getStatic field | putStatic field | getField field | putField field => some field.owner
  | invokeVirtual method | invokeInterface method => some method.owner
  | invokeSpecial method _ | invokeStatic method _ => some method.owner
  | new name | newReferenceArray name | checkCast name | instanceOf name => some name
  | newMultiArray name _ => some name
  | loadConstant (.classLiteral name) => some name
  | _ => none

/-- The class that an instruction refers to. -/
def Instruction.reference? (instruction : Instruction) : Option ClassName :=
  instruction.namedClass?.bind ClassName.elementClass?

/-- The instructions of a method of a class. -/
def ClassFile.instructionsOf (file : ClassFile) (code : Code) : Except Failure (List Placed) :=
  code.decode file.pool

/-- The classes that a method refers to, in order and with repetitions. -/
def ClassFile.methodReferences (file : ClassFile) (method : Method) :
    Except Failure (List ClassName) :=
  match method.code with
  | none => .ok []
  | some code => do
    let instructions ← during (.decodingMethod method.name method.descriptor)
      (file.instructionsOf code)
    return instructions.filterMap (fun placed => placed.instruction.reference?)
      ++ code.exceptionTable.filterMap ExceptionEntry.catchType

/-- The classes that a class refers to, in order and with repetitions. -/
def ClassFile.references (file : ClassFile) : Except Failure (List ClassName) := do
  let methods ← file.methods.mapM file.methodReferences
  return file.superClass.toList ++ file.interfaces ++ methods.flatten

end Bytescript
