import Bytescript.Support.Feature
import Bytescript.Support.Source

/-!
# Functions of the support library

The functions that translated code calls, and the text of the features that define them.
-/

set_option autoImplicit false

namespace Bytescript.Support

/-- A function that translated code may call. -/
inductive Function where
  | defineClass
  | link
  | wrap
  | nonNull
  | intDiv
  | intRem
  | longDiv
  | longRem
  | toInt
  | toLong
  | compare
  | compareLess
  | compareGreater
  | coerceLong
  | isInstance
  | cast
  | newArray
  | newMultiArray
  | getElement
  | putElement
  | putByte
  | putReference
  | cloneArray
  | classOf
  deriving DecidableEq

namespace Function

/-- The name under which a function is defined. -/
def name : Function → String
  | defineClass => "defineClass"
  | link => "link"
  | wrap => "wrap"
  | nonNull => "nn"
  | intDiv => "idiv"
  | intRem => "irem"
  | longDiv => "ldiv"
  | longRem => "lrem"
  | toInt => "d2i"
  | toLong => "d2l"
  | compare => "cmp"
  | compareLess => "cmpl"
  | compareGreater => "cmpg"
  | coerceLong => "toLong"
  | isInstance => "isInst"
  | cast => "cast"
  | newArray => "newArray"
  | newMultiArray => "multiNewArray"
  | getElement => "aget"
  | putElement => "aput"
  | putByte => "baput"
  | putReference => "aaput"
  | cloneArray => "aclone"
  | classOf => "classOf"

/-- The expression that names a function. -/
def path (function : Function) : String := "$vm." ++ function.name

end Function

/-- The text of the functions of a feature. -/
def Feature.lines : Feature → List String
  | classModel => classModelLines
  | exceptions => exceptionLines
  | nullChecks => nullCheckLines
  | arithmetic => arithmeticLines
  | conversions => conversionLines
  | compares => compareLines
  | longs => longLines
  | typeChecks => typeCheckLines
  | arrays => arrayLines
  | classLiterals => classLiteralLines

end Bytescript.Support
