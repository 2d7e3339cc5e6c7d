import Bytescript.ClassFile.Annotations
import Bytescript.Text.Hex

/-!
# What can go wrong

Every stage fails with the same shape of value: a cause, and the trail of what was being done
when it arose, from the outside in.  The causes are grouped by what they are about.  The two
groups that callers tell apart are the malformed class files and the programs that cannot be
compiled; the rest are faults of the surrounding input.

All wording is in this module.  The message of a failure lists the trail and then the cause.
-/

set_option autoImplicit false

namespace Bytescript

/-! ## Causes -/

/-- The ways a class file can be malformed. -/
inductive DecodeError where
  | badMagic (found : Nat)
  | unsupportedVersion (major minor : Nat)
  | truncated (position : Nat)
  | poolIndexOutOfRange (index count : Nat)
  | poolTagMismatch (index : Nat) (expected found : String)
  | unknownPoolTag (tag index : Nat)
  | malformedUtf8 (index : Nat)
  | unknownAnnotationTag (tag : Nat)
  | annotationTooDeep (limit : Nat)
  | attributeLength (name : String) (declared consumed : Nat)
  | malformedExceptionRange (start stop handler codeLength : Nat)
  | unknownOpcode (opcode offset : Nat)
  | branchOutOfRange (offset : Nat) (target : Int)
  deriving DecidableEq

/-- The ways a set of well formed classes can resist being compiled. -/
inductive CompileError where
  | missingDependency (name : ClassName) (member : Option String) (referencedFrom : Option ClassName)
  | unsupportedInstruction (owner : ClassName) (method : String) (offset opcode : Nat)
  | malformedControlFlow (offset : Nat) (reason : String)
  | missingNativeBody (owner : ClassName) (method descriptor : String)
  deriving DecidableEq

/-- The ways a text can fail to be a descriptor. -/
inductive DescriptorError where
  | trailingAfterField (descriptor : String)
  | trailingAfterResult
  | missingParenthesis
  | tooManyDimensions (count : Nat)
  | abruptEnd
  | emptyClassName
  | unexpectedChar (char : Char)
  deriving DecidableEq

/-- Rules of class files beyond the decoding of single items. -/
inductive ClassFormatError where
  | trailingBytes (name : ClassName)
  | duplicateCode
  | codeLength (length : Nat)
  | unknownArrayType (tag : Nat)
  | switchRange (low high : Int)
  | switchCount (count : Int)
  | wrongClass (expected found : ClassName)
  | methodWithoutCode (name descriptor : String)
  deriving DecidableEq

/-- Annotations that should carry a native body but do not. -/
inductive NativeBodyError where
  | argumentsNotArray (type : String)
  | missingBody (type : String)
  | notString (value : AnnotationValue)
  | notUnicode (value : AnnotationValue)

/-- Labels of assembled code that cannot be resolved. -/
inductive AssemblyError where
  | labelNotBound (label : Nat)
  | labelNeverBound (label : Nat)
  | branchTooFar (source target : Nat)
  deriving DecidableEq

/-- Faults of the files a command line names. -/
inductive InputError where
  | noClasses
  | unreadableFile (path : String)
  | unreadableArchive (path : String)
  | encryptedFile
  | missingHeader
  | packedFile
  | sealedFile
  | wrongCheck
  | missingNatives (path : String)
  | malformedNatives (path : String)
  | unwritableOutput (path : String)
  deriving DecidableEq

/-- Why something failed. -/
inductive Cause where
  | decode (error : DecodeError)
  | compile (error : CompileError)
  | descriptor (error : DescriptorError)
  | format (error : ClassFormatError)
  | native (error : NativeBodyError)
  | assembly (error : AssemblyError)
  | input (error : InputError)

/-! ## The trail -/

/-- A number of fixed width as it lies in a file. -/
structure WordType where
  bytes : Nat
  isSigned : Bool
  deriving DecidableEq

/-- What was being done when a failure arose. -/
inductive Activity where
  | readingWord (type : WordType)
  | poolEntry (index : Nat)
  | thisClass
  | superClass
  | fieldsOf (name : ClassName)
  | methodsOf (name : ClassName)
  | attributesOf (name : ClassName)
  | field (name descriptor : String)
  | method (name descriptor : String)
  | attribute (name : String)
  | annotationElement (name type : String)
  | instructionAt (offset : Nat)
  | fieldDescriptor (descriptor : String)
  | methodDescriptor (descriptor : String)
  | readingClass (name : ClassName)
  | collectingReferences (name : ClassName)
  | decodingMethod (name descriptor : String)
  | decodingMethodOf (owner : ClassName) (name descriptor : String)
  | translatingClass (name : ClassName)
  | translatingMethod (owner : ClassName) (name descriptor : String)
  | readingEntry (name path : String)

/-- A cause and the trail of activities around it, the outermost first. -/
structure Failure where
  trail : List Activity
  cause : Cause

namespace Failure

/-- A failure with no trail yet. -/
def of (cause : Cause) : Failure := ⟨[], cause⟩

/-- Adds an activity around a failure. -/
def within (activity : Activity) (failure : Failure) : Failure :=
  ⟨activity :: failure.trail, failure.cause⟩

end Failure

/-- Adds an activity to the failure of a computation. -/
def during {α : Type} (activity : Activity) : Except Failure α → Except Failure α
  | .ok value => .ok value
  | .error failure => .error (failure.within activity)

/-- Fails because of a malformed class file. -/
def failDecode {α : Type} (error : DecodeError) : Except Failure α :=
  .error (.of (.decode error))

/-- Fails because a program cannot be compiled. -/
def failCompile {α : Type} (error : CompileError) : Except Failure α :=
  .error (.of (.compile error))

/-! ## Wording -/

/-- The message of a malformed class file. -/
def DecodeError.message : DecodeError → String
  | .badMagic found =>
    "wrong magic: got 0x" ++ Text.hex found ++ ", expected 0xcafebabe"
  | .unsupportedVersion major minor =>
    s!"unsupported class file version {major}.{minor}"
  | .truncated position => s!"unexpected end of data at byte {position}"
  | .poolIndexOutOfRange index count =>
    s!"pool index {index} doesn't point to a usable entry, the pool has {count} slots"
  | .poolTagMismatch index expected found =>
    s!"pool entry at index {index} is `{found}`, expected `{expected}`"
  | .unknownPoolTag tag index =>
    s!"unknown constant pool tag {tag} at pool index {index}"
  | .malformedUtf8 index => s!"pool entry at index {index} is not valid utf8"
  | .unknownAnnotationTag tag =>
    "unknown annotation element value tag " ++ Text.quoteChar (Char.ofNat tag)
  | .annotationTooDeep limit => s!"annotations are nested deeper than {limit} levels"
  | .attributeLength name declared consumed =>
    s!"attribute `{name}` has length {declared}, but {consumed} bytes were read"
  | .malformedExceptionRange start stop handler codeLength =>
    s!"exception handler range {start}..{stop} (handler at {handler}) doesn't fit into code of length {codeLength}"
  | .unknownOpcode opcode offset =>
    "unknown opcode 0x" ++ Text.hex opcode ++ s!" at offset {offset}"
  | .branchOutOfRange offset target =>
    s!"instruction at offset {offset} branches to {target}, which is outside of the code"

/-- The message of a program that cannot be compiled. -/
def CompileError.message : CompileError → String
  | .missingDependency name member referencedFrom =>
    (match member with
      | some member => "provided class " ++ name.text ++ " has no member " ++ member
      | none => "class " ++ name.text ++ " could not be found")
    ++ ", it's referenced from "
    ++ (match referencedFrom with
      | some origin => origin.text
      | none => "the entry classes")
  | .unsupportedInstruction owner method offset opcode =>
    "instruction 0x" ++ Text.paddedHex 2 opcode ++ s!" at offset {offset} in " ++ owner.text
      ++ "." ++ method ++ " can't be translated"
  | .malformedControlFlow offset reason =>
    s!"malformed control flow at offset {offset}: " ++ reason
  | .missingNativeBody owner method descriptor =>
    "native method " ++ owner.text ++ "." ++ method ++ descriptor ++ " has no body"

/-- The message of a malformed descriptor. -/
def DescriptorError.message : DescriptorError → String
  | .trailingAfterField descriptor =>
    "trailing characters in field descriptor " ++ Text.quote descriptor
  | .trailingAfterResult => "trailing characters after return type"
  | .missingParenthesis => "must start with `(`"
  | .tooManyDimensions count => s!"array dimension {count} is larger than 255"
  | .abruptEnd => "unexpected abrupt ending of descriptor"
  | .emptyClassName => "empty class name in descriptor"
  | .unexpectedChar char => "unexpected char " ++ Text.quoteChar char ++ " in descriptor"

/-- The message of a broken rule of class files. -/
def ClassFormatError.message : ClassFormatError → String
  | .trailingBytes name => "trailing bytes after the end of class " ++ name.text
  | .duplicateCode => "only one `Code` attribute is allowed"
  | .codeLength length =>
    s!"`code_length` must be greater than zero and less than 65536, got {length}"
  | .unknownArrayType tag => s!"unknown `atype` {tag} for `newarray`"
  | .switchRange low high =>
    s!"in tableswitch `low` must be lower or equal to `high`, it's low={low} and high={high}"
  | .switchCount count =>
    s!"in lookupswitch the `npairs` must be positive, it's npairs={count}"
  | .wrongClass expected found =>
    "class file for " ++ expected.text ++ " contains class " ++ found.text
  | .methodWithoutCode name descriptor => "method " ++ name ++ descriptor ++ " has no code"

/-- The message of an annotation without a usable native body. -/
def NativeBodyError.message : NativeBodyError → String
  | .argumentsNotArray type => "`args` of " ++ type ++ " must be an array"
  | .missingBody type => type ++ " is missing `body`"
  | .notString value => "expected a string, got " ++ value.shown
  | .notUnicode value => "javascript must be valid unicode, got " ++ value.shown

/-- The message of a label that cannot be resolved. -/
def AssemblyError.message : AssemblyError → String
  | .labelNotBound label => s!"label Label({label}) isn't bound"
  | .labelNeverBound label => s!"label Label({label}) is used but never bound"
  | .branchTooFar source target =>
    s!"branch at {source} to {target} doesn't fit into an i16"

/-- The message of a fault in the files a command line names. -/
def InputError.message : InputError → String
  | .noClasses =>
    "no classes to translate: give some entry classes, or a classpath directory containing class files"
  | .unreadableFile path => "could not open file " ++ Text.quote path
  | .unreadableArchive path => "failed to read zip archive from " ++ Text.quote path
  | .encryptedFile => "unsupported Zip archive: Password required to decrypt file"
  | .missingHeader => "invalid Zip archive: Invalid local file header"
  | .packedFile => "unsupported Zip archive: Compression method not supported"
  | .sealedFile => "provided password is incorrect"
  | .wrongCheck => "Invalid checksum"
  | .missingNatives path => "failed to open natives file " ++ Text.quote path
  | .malformedNatives path => "failed to parse natives file " ++ Text.quote path
  | .unwritableOutput path => "failed to create output file " ++ Text.quote path

/-- The message of a cause. -/
def Cause.message : Cause → String
  | .decode error => error.message
  | .compile error => error.message
  | .descriptor error => error.message
  | .format error => error.message
  | .native error => error.message
  | .assembly error => error.message
  | .input error => error.message

/-- The short name of a type of words, by its signedness and its bits. -/
def WordType.name (type : WordType) : String :=
  (if type.isSigned then "i" else "u") ++ toString (8 * type.bytes)

/-- How a message names an activity. -/
def Activity.message : Activity → String
  | .readingWord type => "couldn't read " ++ type.name
  | .poolEntry index => s!"in constant pool entry {index}"
  | .thisClass => "in `this_class`"
  | .superClass => "in `super_class`"
  | .fieldsOf name => "in fields of class " ++ name.text
  | .methodsOf name => "in methods of class " ++ name.text
  | .attributesOf name => "in attributes of class " ++ name.text
  | .field name descriptor => "in field " ++ Text.quote name ++ " " ++ Text.quote descriptor
  | .method name descriptor => "in method " ++ Text.quote name ++ " " ++ Text.quote descriptor
  | .attribute name => "in attribute " ++ Text.quote name
  | .annotationElement name type =>
    "in element " ++ Text.quote name ++ " of annotation " ++ Text.quote type
  | .instructionAt offset => s!"at bytecode offset {offset}"
  | .fieldDescriptor descriptor => "invalid field descriptor " ++ Text.quote descriptor
  | .methodDescriptor descriptor => "invalid method descriptor " ++ Text.quote descriptor
  | .readingClass name => "failed to read class " ++ name.text
  | .collectingReferences name => "failed to collect the references of class " ++ name.text
  | .decodingMethod name descriptor => "failed to decode method " ++ name ++ descriptor
  | .decodingMethodOf owner name descriptor =>
    "failed to decode method " ++ owner.text ++ "." ++ name ++ descriptor
  | .translatingClass name => "failed to translate class " ++ name.text
  | .translatingMethod owner name descriptor =>
    "failed to translate method " ++ name ++ descriptor ++ " of class " ++ owner.text
  | .readingEntry name path =>
    "failed to read " ++ Text.quote name ++ " from " ++ Text.quote path

/-- The messages of the trail, and the message of the cause at the end. -/
def Failure.messages (failure : Failure) : List String :=
  failure.trail.map Activity.message ++ [failure.cause.message]

/-- The whole message of a failure, from the outermost activity to the cause. -/
def Failure.message (failure : Failure) : String :=
  String.intercalate ": " failure.messages

end Bytescript
