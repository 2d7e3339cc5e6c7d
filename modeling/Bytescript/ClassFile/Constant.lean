import Bytescript.ClassFile.Name
import Bytescript.Text.JavaString

/-!
# Constants

A class file holds numbers and strings in fields, in annotations and as operands of
instructions.  Floating point numbers are kept as their bits, so nothing is lost by reading them.
-/

set_option autoImplicit false

namespace Bytescript

/-- A constant value. -/
inductive Constant where
  | integer (value : Int32)
  | float (bits : UInt32)
  | long (value : Int64)
  | double (bits : UInt64)
  | string (value : JavaString)
  deriving DecidableEq

/-- What an instruction can load from the constant pool.  The last three are only named by their
index in the pool. -/
inductive Loadable where
  | constant (value : Constant)
  | classLiteral (name : ClassName)
  | methodHandle (index : Nat)
  | methodType (index : Nat)
  | dynamic (index : Nat)
  deriving DecidableEq

/-- A field or method of a class, as instructions refer to it. -/
structure MemberRef where
  owner : ClassName
  name : String
  descriptor : String
  deriving DecidableEq

end Bytescript
