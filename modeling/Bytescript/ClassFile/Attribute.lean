/-!
# Known attributes

Classes, members and method bodies carry attributes with names.  Some names have a meaning, at
one level or at several; any other attribute may be there but says nothing.
-/

set_option autoImplicit false

namespace Bytescript

/-- The attributes that have a meaning somewhere. -/
inductive AttributeKind where
  | code
  | constantValue
  | exceptions
  | lineNumberTable
  | sourceFile
  | visibleAnnotations
  | invisibleAnnotations
  deriving DecidableEq

/-- The name of an attribute in class files. -/
def AttributeKind.name : AttributeKind → String
  | code => "Code"
  | constantValue => "ConstantValue"
  | exceptions => "Exceptions"
  | lineNumberTable => "LineNumberTable"
  | sourceFile => "SourceFile"
  | visibleAnnotations => "RuntimeVisibleAnnotations"
  | invisibleAnnotations => "RuntimeInvisibleAnnotations"

/-- All known attributes. -/
def AttributeKind.all : List AttributeKind :=
  [code, constantValue, exceptions, lineNumberTable, sourceFile, visibleAnnotations,
    invisibleAnnotations]

/-- The attribute with a name. -/
def AttributeKind.ofName? (name : String) : Option AttributeKind :=
  all.find? fun kind => kind.name = name

end Bytescript
