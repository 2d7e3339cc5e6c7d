/-!
# Names of classes

A class is named in internal form, with slashes between the packages.  The same place in a class
file may also name an array class, which is written as the descriptor of the array and therefore
begins with a bracket.
-/

set_option autoImplicit false

namespace Bytescript

/-- The name of a class or of an array class. -/
structure ClassName where
  text : String
  deriving DecidableEq, Hashable, Inhabited

namespace ClassName

/-- The root of all classes. -/
def object : ClassName := ⟨"java/lang/Object"⟩

/-- What the names of class files end in. -/
def fileExtension : String := ".class"

/-- The name of a class file without its extension, if it has that. -/
def fileStem? (file : String) : Option String :=
  let chars := file.toList
  if fileExtension.toList.isSuffixOf chars then
    some (String.ofList (chars.take (chars.length - fileExtension.length)))
  else none

/-- The class that somebody means by a text, who may write points instead of slashes, and the name
of the file instead of the name of the class. -/
def ofWritten (text : String) : ClassName :=
  let chars := ((fileStem? text).getD text).toList
  ⟨String.ofList (chars.map fun char => if char = '.' then '/' else char)⟩

/-- Whether the name is the descriptor of an array. -/
def isArray (name : ClassName) : Bool := name.text.toList.head? = some '['

/-- The text between a leading `L` and a closing `;`. -/
def unwrap? (chars : List Char) : Option (List Char) :=
  match chars with
  | 'L' :: rest => if rest.getLast? = some ';' then some rest.dropLast else none
  | _ => none

/-- The class of the innermost elements of an array class, unless those are primitive; any other
class is its own element class. -/
def elementClass? (name : ClassName) : Option ClassName :=
  if name.isArray then
    (unwrap? (name.text.toList.dropWhile (· = '['))).map fun chars => ⟨String.ofList chars⟩
  else some name

end ClassName

/-- The name of constructors. -/
def constructorName : String := "<init>"

/-- The name of static initializers. -/
def initializerName : String := "<clinit>"

/-- The descriptor of a method that takes and gives nothing. -/
def emptyDescriptor : String := "()V"

end Bytescript
