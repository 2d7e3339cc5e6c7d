import Bytescript.ClassFile.Name
import Bytescript.Script.Name
import Bytescript.Support.Feature
import Bytescript.Support.Source

/-!
# Classes of the support library

The support library defines some classes itself.  Each belongs to a feature and knows its super
class and the instance methods it declares; none has fields or static methods.  Exceptions and
interfaces all look alike, so only the few other classes have a text of their own.
-/

set_option autoImplicit false

namespace Bytescript.Support

/-- How the text of a builtin class comes about. -/
inductive Definition where
  | text (lines : List String)
  | interface
  | exception

/-- A class that the support library defines. -/
structure Builtin where
  name : ClassName
  superClass : Option ClassName
  feature : Feature
  definition : Definition
  /-- The instance methods that the class declares itself, by name and descriptor. -/
  methods : List (String × String)
  /-- Whether the functions of the library throw the class or make instances of it. -/
  isUsedBySupport : Bool

namespace Builtin

/-- A builtin interface. -/
def interface (name : String) (methods : List (String × String)) : Builtin :=
  ⟨⟨name⟩, some .object, .classModel, .interface, methods, false⟩

/-- The constructors of every throwable. -/
def throwableConstructors : List (String × String) :=
  [(constructorName, "()V"),
    (constructorName, "(Ljava/lang/String;)V"),
    (constructorName, "(Ljava/lang/String;Ljava/lang/Throwable;)V"),
    (constructorName, "(Ljava/lang/Throwable;)V")]

/-- A builtin exception. -/
def exception (name superClass : String) (isUsedBySupport : Bool) : Builtin :=
  ⟨⟨name⟩, some ⟨superClass⟩, .exceptions, .exception, throwableConstructors, isUsedBySupport⟩

/-- The methods of the root class. -/
def objectMethods : List (String × String) :=
  [(constructorName, "()V"),
    ("hashCode", "()I"),
    ("equals", "(Ljava/lang/Object;)Z"),
    ("toString", "()Ljava/lang/String;"),
    ("getClass", "()Ljava/lang/Class;")]

/-- The methods of strings. -/
def stringMethods : List (String × String) :=
  [("length", "()I"),
    ("charAt", "(I)C"),
    ("isEmpty", "()Z"),
    ("equals", "(Ljava/lang/Object;)Z"),
    ("hashCode", "()I"),
    ("concat", "(Ljava/lang/String;)Ljava/lang/String;"),
    ("toString", "()Ljava/lang/String;"),
    ("compareTo", "(Ljava/lang/String;)I"),
    ("compareTo", "(Ljava/lang/Object;)I"),
    ("getClass", "()Ljava/lang/Class;")]

/-- The methods of the class of throwables. -/
def throwableMethods : List (String × String) :=
  throwableConstructors ++
  [("getMessage", "()Ljava/lang/String;"),
    ("getCause", "()Ljava/lang/Throwable;"),
    ("toString", "()Ljava/lang/String;")]

/-- All builtin classes, in the order they are written within their features. -/
def all : List Builtin :=
  [⟨.object, none, .classModel, .text objectLines, objectMethods, false⟩,
    ⟨⟨"java/lang/String"⟩, some .object, .classModel, .text stringLines, stringMethods, false⟩,
    interface "java/lang/Cloneable" [],
    interface "java/io/Serializable" [],
    interface "java/lang/Comparable" [("compareTo", "(Ljava/lang/Object;)I")],
    interface "java/lang/CharSequence"
      [("length", "()I"), ("charAt", "(I)C"), ("toString", "()Ljava/lang/String;")],
    ⟨⟨"java/lang/Throwable"⟩, some .object, .exceptions, .text throwableLines,
      throwableMethods, true⟩,
    exception "java/lang/Exception" "java/lang/Throwable" true,
    exception "java/lang/Error" "java/lang/Throwable" true,
    exception "java/lang/RuntimeException" "java/lang/Exception" true,
    exception "java/lang/ArithmeticException" "java/lang/RuntimeException" true,
    exception "java/lang/NullPointerException" "java/lang/RuntimeException" true,
    exception "java/lang/IndexOutOfBoundsException" "java/lang/RuntimeException" true,
    exception "java/lang/ArrayIndexOutOfBoundsException"
      "java/lang/IndexOutOfBoundsException" true,
    exception "java/lang/NegativeArraySizeException" "java/lang/RuntimeException" true,
    exception "java/lang/ClassCastException" "java/lang/RuntimeException" true,
    exception "java/lang/ArrayStoreException" "java/lang/RuntimeException" true,
    exception "java/lang/IllegalArgumentException" "java/lang/RuntimeException" false,
    exception "java/lang/IllegalStateException" "java/lang/RuntimeException" false,
    exception "java/lang/UnsupportedOperationException" "java/lang/RuntimeException" false,
    ⟨⟨"java/lang/Class"⟩, some .object, .classLiterals, .text classLines,
      [("getName", "()Ljava/lang/String;"), ("toString", "()Ljava/lang/String;")], true⟩]

/-- The builtin class with a name. -/
def find? (name : ClassName) : Option Builtin := all.find? fun builtin => builtin.name = name

/-- The names of all builtin classes. -/
def names : List ClassName := all.map Builtin.name

/-- The feature that defines a class, if it is builtin. -/
def featureOf? (name : ClassName) : Option Feature := (find? name).map Builtin.feature

/-- Whether a builtin class declares an instance method itself. -/
def declares (builtin : Builtin) (name descriptor : String) : Bool :=
  builtin.methods.contains (name, descriptor)

/-- Whether a builtin class or a super class of it declares a method, looking at most `fuel`
classes up.  Constructors are not inherited. -/
def declaresUp (name descriptor : String) : (fuel : Nat) → Builtin → Bool
  | 0, builtin => builtin.declares name descriptor
  | fuel + 1, builtin =>
    if builtin.declares name descriptor then true
    else if name = constructorName then false
    else
      match builtin.superClass.bind find? with
      | some superClass => declaresUp name descriptor fuel superClass
      | none => false

/-- Whether a builtin class has an instance method.  No line of super classes is longer than the
list of all builtin classes.  There is no answer for a class that is not builtin. -/
def hasMethod? (owner : ClassName) (name descriptor : String) : Option Bool :=
  (find? owner).map (declaresUp name descriptor all.length)

/-- The text of a builtin class. -/
def lines (builtin : Builtin) : List String :=
  let constructor := Script.classIdentifier builtin.name
  match builtin.definition with
  | .text lines => lines
  | .interface =>
    ["function " ++ constructor ++ "() \x7b",
      "\x7d",
      "$vm.defineClass(" ++ constructor ++ ", \"" ++ builtin.name.text
        ++ "\", null, [], true);"]
  | .exception =>
    let parent :=
      Script.classIdentifier (builtin.superClass.getD ⟨"java/lang/Throwable"⟩)
    ["function " ++ constructor ++ "() \x7b",
      "\t" ++ parent ++ ".call(this);",
      "\x7d",
      "$vm.defineClass(" ++ constructor ++ ", \"" ++ builtin.name.text ++ "\", "
        ++ parent ++ ", [], false);"]

end Builtin

end Bytescript.Support
