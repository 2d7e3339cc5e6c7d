import Bytescript.Proofs.Script.TextLines
import Bytescript.Support.Builtin
import Bytescript.Translation.Member
import Mathlib.Data.List.Forall2

/-!
# The text of the support library, character by character

The text of the support library is fixed, so what it defines and what it names can be looked
through.  It names functions and values of features behind a mark that stands in front of nothing
else, and it gives classes their methods as properties of prototypes.  The text is spelled out once,
and everything that is to be found in it is found then.
-/

set_option autoImplicit false

namespace Bytescript.Support

/-! ## What a text names -/

/-- A function or a value of the support library that a text names. -/
structure Mention where
  name : List Char
  /-- Whether the name is called where it stands. -/
  isCalled : Bool
  deriving DecidableEq

namespace Mention

/-- What stands in front of each name. -/
def mark : List Char := ['$', 'v', 'm', '.']

/-- Whether a character may stand in a name. -/
def isNameChar (char : Char) : Bool := char.isAlphanum || char = '_' || char = '$'

/-- What the text behind a mark names. -/
def behind (chars : List Char) : Mention :=
  ⟨chars.takeWhile isNameChar, (chars.dropWhile isNameChar).head? = some '('⟩

/-- The runs of characters of names in a text. -/
def words (chars : List Char) : List (List Char) := chars.splitOnP fun char => !isNameChar char

/-- Everything that a text names. -/
def allIn : List Char → List Mention
  | [] => []
  | '$' :: 'v' :: 'm' :: '.' :: rest => behind rest :: allIn rest
  | _ :: rest => allIn rest

/-- The call of a function. -/
def ofFunction (function : Function) : Mention := ⟨function.name.toList, true⟩

/-- How a line begins that defines what is named.  What is called has to be a function. -/
def definition (mention : Mention) : List Char :=
  mark ++ mention.name
    ++ if mention.isCalled then " = function(".toList else " = ".toList

end Mention

/-! ## Methods of builtin classes -/

namespace Builtin

/-- The name of the object of the script that stands for a class.  Strings are those of the
script. -/
def scriptName (builtin : Builtin) : List Char :=
  if builtin.name = ⟨"java/lang/String"⟩ then "String".toList
  else Script.escapeName builtin.name.text.toList

/-- How a line begins that defines a method of a class. -/
def methodStart (builtin : Builtin) (name : String) (type : MethodType) : List Char :=
  builtin.scriptName ++ ".prototype.".toList ++ Script.methodChars name type ++ " = ".toList

/-- The feature whose text defines a method of a class that has a text of its own. -/
def methodFeature (builtin : Builtin) (name descriptor : String) : Feature :=
  if Translation.isClassOf ⟨builtin.name, name, descriptor⟩ then .classLiterals
  else builtin.feature

/-- Whether a class has a text of its own. -/
def hasText (builtin : Builtin) : Bool :=
  match builtin.definition with
  | .text _ => true
  | .interface | .exception => false

end Builtin

/-- Whether a text begins as the constructor function of a class does, or its registration, or the
first method of strings, which have no constructor function. -/
def startsClass (chars : List Char) : Bool :=
  "function ".toList.isPrefixOf chars || "$vm.defineClass(".toList.isPrefixOf chars
    || "String.prototype.lengthI ".toList.isPrefixOf chars

/-- Whether each builtin class whose constructor function is a word of a text is the root class, or
one that the functions of the library use, and belongs to a feature that the text can rely on. -/
def namesOnlyUsed (feature : Feature) (chars : List Char) : Bool :=
  ((Mention.words chars).filter fun word => word.contains '_').all fun word =>
    Builtin.all.all fun builtin => word ≠ Script.escapeName builtin.name.text.toList ||
      ((builtin.isUsedBySupport || builtin.name = .object)
        && feature.closure.contains builtin.feature)

/-- Whether a line gives a class the method that tells the class of an object. -/
def givesClass (chars : List Char) : Bool :=
  ".prototype.getClass".toList.isPrefixOf (chars.dropWhile (· ≠ '.'))

/-! ## Spelling -/

/-- The lines that define functions and values, each with its feature. -/
def functionTexts : List (Feature × String) :=
  Feature.all.flatMap fun feature => feature.lines.map (Prod.mk feature)

/-- The lines of the classes that have a text of their own, each with the feature of the class. -/
def classTexts : List (Feature × String) :=
  Builtin.all.flatMap fun builtin =>
    match builtin.definition with
    | .text lines => lines.map (Prod.mk builtin.feature)
    | .interface | .exception => []

/-- A line and its characters, both with the same feature. -/
inductive IsSpelled : Feature × String → Feature × List Char → Prop where
  | line (feature : Feature) (chars : List Char) :
    IsSpelled (feature, String.ofList chars) (feature, chars)

/-- Whether a line on which a feature can rely defines what is named. -/
def isDefinedFor (spellings : List (Feature × List Char)) (feature : Feature)
    (mention : Mention) : Bool :=
  spellings.any fun (other, chars) =>
    mention.definition.isPrefixOf chars && feature.closure.contains other

/-- The feature that defines a function. -/
def Function.feature : Function → Feature
  | .defineClass | .link => .classModel
  | .wrap => .exceptions
  | .nonNull => .nullChecks
  | .intDiv | .intRem | .longDiv | .longRem => .arithmetic
  | .toInt | .toLong => .conversions
  | .compare | .compareLess | .compareGreater => .compares
  | .coerceLong => .longs
  | .isInstance | .cast => .typeChecks
  | .newArray | .newMultiArray | .getElement | .putElement | .putByte | .putReference
  | .cloneArray => .arrays
  | .classOf => .classLiterals

/-- All functions that translated code may call. -/
def Function.all : List Function :=
  [defineClass, link, wrap, nonNull, intDiv, intRem, longDiv, longRem, toInt, toLong, compare,
    compareLess, compareGreater, coerceLong, isInstance, cast, newArray, newMultiArray, getElement,
    putElement, putByte, putReference, cloneArray, classOf]

/-- Whether a line of the right feature defines each method of a class. -/
def definesMethods (spellings : List (Feature × List Char)) (builtin : Builtin) : Bool :=
  builtin.methods.all fun (name, descriptor) =>
    match MethodType.parse descriptor with
    | .error _ => false
    | .ok type => spellings.any fun (feature, chars) =>
      feature = builtin.methodFeature name descriptor
        && (builtin.methodStart name type).isPrefixOf chars

/-- What is found in the text: all that it names and all functions that translated code may call
are defined, classes with a text of their own have their methods, and only the class literals give
classes the method that tells the class of an object.  No function is defined as classes are, and
the constructor functions that the text names are those of classes that it can rely on.  No line
ends inside of another one, and nothing is defined under the name of the method of all functions
that calls them. -/
structure Checked (spellings more : List (Feature × List Char)) : Prop where
  names : ((spellings ++ more).all fun (feature, chars) =>
    (Mention.allIn chars).all (isDefinedFor spellings feature)) = true
  functions : (Function.all.all fun function =>
    isDefinedFor spellings function.feature (.ofFunction function)) = true
  methods : ((Builtin.all.filter Builtin.hasText).all (definesMethods (spellings ++ more))) = true
  classes : ((spellings ++ more).all fun (feature, chars) =>
    feature = .classLiterals || !givesClass chars) = true
  starts : (spellings.all fun (_, chars) => !startsClass chars) = true
  constructors : ((spellings ++ more).all fun (feature, chars) =>
    namesOnlyUsed feature chars) = true
  single : ((spellings ++ more).all fun (_, chars) =>
    chars.all fun char => !Script.isLineEnd char) = true
  call : (spellings.all fun (_, chars) =>
    !(Mention.mark ++ "call ".toList).isPrefixOf chars) = true

set_option maxRecDepth 100000 in
theorem exists_spellings : ∃ spellings more, List.Forall₂ IsSpelled functionTexts spellings ∧
    List.Forall₂ IsSpelled classTexts more ∧ Checked spellings more := by
  apply Exists.intro
  apply Exists.intro
  refine ⟨?_, ?_, ?_⟩
  · simp only [functionTexts, Feature.all, List.flatMap_cons, List.flatMap_nil, Feature.lines,
      classModelLines, exceptionLines, nullCheckLines, arithmeticLines, conversionLines,
      compareLines, longLines, typeCheckLines, arrayLines, classLiteralLines, List.map_cons,
      List.map_nil, List.cons_append, List.nil_append, List.append_nil]
    repeat apply List.Forall₂.cons (.line _ _)
    exact .nil
  · simp only [classTexts, Builtin.all, Builtin.interface, Builtin.exception, List.flatMap_cons,
      List.flatMap_nil, objectLines, stringLines, throwableLines, classLines, List.map_cons,
      List.map_nil, List.cons_append, List.nil_append, List.append_nil]
    repeat apply List.Forall₂.cons (.line _ _)
    exact .nil
  · exact ⟨by decide +kernel, by decide +kernel, by decide +kernel, by decide +kernel,
      by decide +kernel, by decide +kernel, by decide +kernel, by decide +kernel⟩

end Bytescript.Support
