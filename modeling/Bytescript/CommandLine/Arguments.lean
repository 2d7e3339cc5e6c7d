/-!
# The arguments of the program

An argument is a word.  Words that begin with a dash are options, and the others name the entry
classes.  An option is spelled out after two dashes, or, if it has a letter, given by the letter
after one dash; letters may be put together.  Some options take a value: what is left of their
word, with or without an equals sign after a letter and with one after the long form, or else the
whole next word, which must not look like an option then.  After a word of just two dashes, all
words name entry classes.

Reading goes from left to right, and the first word that asks for something else than compiling,
or that is not understood, decides.
-/

set_option autoImplicit false

namespace Bytescript.CommandLine

/-! ## Options -/

/-- Options that stand alone. -/
inductive Flag where
  | verbose
  | noDefaultProvided
  | help
  | version
  deriving DecidableEq

/-- Options that take a value. -/
inductive Parameter where
  | classPath
  | output
  | natives
  | provided
  deriving DecidableEq

/-- An option. -/
inductive Choice where
  | flag (flag : Flag)
  | parameter (parameter : Parameter)
  deriving DecidableEq

namespace Choice

/-- All options. -/
def all : List Choice :=
  [.flag .verbose, .parameter .classPath, .parameter .output, .parameter .natives,
    .parameter .provided, .flag .noDefaultProvided, .flag .help, .flag .version]

/-- The name of an option after two dashes. -/
def name : Choice → String
  | flag .verbose => "verbose"
  | flag .noDefaultProvided => "no-default-provided"
  | flag .help => "help"
  | flag .version => "version"
  | parameter .classPath => "classpath"
  | parameter .output => "output"
  | parameter .natives => "natives"
  | parameter .provided => "provided"

/-- The letter of an option after one dash. -/
def letter? : Choice → Option Char
  | flag .verbose => some 'v'
  | flag .help => some 'h'
  | flag .version => some 'V'
  | parameter .classPath => some 'c'
  | parameter .output => some 'o'
  | flag .noDefaultProvided | parameter .natives | parameter .provided => none

/-- The option of a name. -/
def named? (name : String) : Option Choice := all.find? fun choice => choice.name = name

/-- The option of a letter. -/
def lettered? (letter : Char) : Option Choice :=
  all.find? fun choice => choice.letter? = some letter

end Choice

/-! ## What the arguments say -/

/-- What is to be compiled, and how. -/
structure Arguments where
  /-- How often verbosity was asked for. -/
  verbosity : Nat
  /-- The directories and archives, in the order in which they are asked for classes. -/
  classPath : List String
  output : Option String
  natives : Option String
  /-- More classes that are there when the script runs. -/
  provided : List String
  /-- Whether the classes that the support library defines are not translated. -/
  keepsDefaults : Bool
  entries : List String
  deriving DecidableEq

/-- Nothing was said yet. -/
def Arguments.initial : Arguments := ⟨0, [], none, none, [], true, []⟩

/-- Why nothing is compiled. -/
inductive Interruption where
  | misuse
  | help ( isLong : Bool)
  | version
  deriving DecidableEq

/-- What an option that stands alone does. -/
def Flag.apply ( isLong : Bool) (arguments : Arguments) : Flag → Except Interruption Arguments
  | verbose => .ok { arguments with verbosity := arguments.verbosity + 1 }
  | noDefaultProvided =>
    if arguments.keepsDefaults then .ok { arguments with keepsDefaults := false }
    else .error .misuse
  | help => .error (.help isLong)
  | version => .error .version

/-- What the value of an option does.  Paths are not empty, and at most one output and one file of
native bodies can be named. -/
def Parameter.assign (arguments : Arguments) (value : String) :
    Parameter → Except Interruption Arguments
  | classPath =>
    if value = "" then .error .misuse
    else .ok { arguments with classPath := arguments.classPath ++ [value] }
  | output =>
    if value = "" ∨ arguments.output.isSome then .error .misuse
    else .ok { arguments with output := some value }
  | natives =>
    if value = "" ∨ arguments.natives.isSome then .error .misuse
    else .ok { arguments with natives := some value }
  | provided => .ok { arguments with provided := arguments.provided ++ [value] }

/-! ## Reading words -/

/-- What the words so far say, and how the next one is to be taken. -/
structure Reading where
  arguments : Arguments
  /-- The option whose value is the next word. -/
  waiting : Option Parameter
  /-- Whether all further words name entry classes. -/
  onlyEntries : Bool

/-- A reading that can take any word next. -/
def Reading.ready (arguments : Arguments) : Reading := ⟨arguments, none, false⟩

/-- Whether a word has the form of an option.  A single dash has not. -/
def looksLikeOption (word : String) : Bool :=
  match word.toList with
  | '-' :: _ :: _ => true
  | _ => false

/-- Reads the letters of a word, up to one that takes what is left as its value. -/
def readLetters (arguments : Arguments) : List Char → Except Interruption Reading
  | [] => .ok (.ready arguments)
  | letter :: rest =>
    match Choice.lettered? letter with
    | none => .error .misuse
    | some (.flag flag) => do readLetters (← flag.apply false arguments) rest
    | some (.parameter parameter) =>
      match rest with
      | [] => .ok ⟨arguments, some parameter, false⟩
      | '=' :: value => (parameter.assign arguments (String.ofList value)).map .ready
      | value => (parameter.assign arguments (String.ofList value)).map .ready

/-- Reads what stands after two dashes: a name, and perhaps a value after an equals sign. -/
def readLong (arguments : Arguments) (chars : List Char) : Except Interruption Reading :=
  let value := (chars.dropWhile (· ≠ '=')).tail?
  match Choice.named? (String.ofList (chars.takeWhile (· ≠ '='))), value with
  | none, _ => .error .misuse
  | some (.flag flag), none => (flag.apply true arguments).map .ready
  | some (.flag _), some _ => .error .misuse
  | some (.parameter parameter), none => .ok ⟨arguments, some parameter, false⟩
  | some (.parameter parameter), some value =>
    (parameter.assign arguments (String.ofList value)).map .ready

/-- Adds an entry class. -/
def Arguments.addEntry (arguments : Arguments) (word : String) : Arguments :=
  { arguments with entries := arguments.entries ++ [word] }

/-- Reads a word. -/
def Reading.step (reading : Reading) (word : String) : Except Interruption Reading :=
  let arguments := reading.arguments
  if reading.onlyEntries then .ok { reading with arguments := arguments.addEntry word }
  else
    match reading.waiting with
    | some parameter =>
      if looksLikeOption word then .error .misuse
      else (parameter.assign arguments word).map .ready
    | none =>
      match word.toList with
      | ['-', '-'] => .ok ⟨arguments, none, true⟩
      | '-' :: '-' :: name => readLong arguments name
      | '-' :: letter :: letters => readLetters arguments (letter :: letters)
      | _ => .ok (.ready (arguments.addEntry word))

/-- Reads all arguments.  No option may lack its value, and there must be a class path. -/
def Arguments.ofWords (words : List String) : Except Interruption Arguments := do
  let reading ← words.foldlM Reading.step (.ready .initial)
  if reading.waiting.isSome || reading.arguments.classPath.isEmpty then .error .misuse
  else .ok reading.arguments

end Bytescript.CommandLine
