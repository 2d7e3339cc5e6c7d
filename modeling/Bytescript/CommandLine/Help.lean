import Bytescript.CommandLine.Arguments

/-!
# The help text

The help lists the options with their descriptions.  In its short form a description stands
beside its option, and in its long form below it.
-/

set_option autoImplicit false

namespace Bytescript.CommandLine

/-- What the program calls itself. -/
def programName : String := "vm4brwsr"

/-- The version of the program. -/
def versionLine : String := programName ++ " 0.1.0"

/-- What an option does, in a sentence. -/
def Choice.description ( isLong : Bool) : Choice → String
  | flag .verbose => "Be verbose. Give it twice to also see every translated method"
  | flag .noDefaultProvided =>
    "Translate the classes the runtime defines too, if they're found on the classpath"
  | flag .help =>
    if isLong then "Print help (see a summary with '-h')" else "Print help (see more with '--help')"
  | flag .version => "Print version"
  | parameter .classPath => "A directory or a jar to load classes from, searched in the order given"
  | parameter .output => "Where to write the javascript to. Standard output if not given"
  | parameter .natives => "A json file with javascript bodies for native methods"
  | parameter .provided => "A class that already exists at run time, and is not translated"

/-- How an option is written, by its letter and its name and with its value. -/
def Choice.heading (choice : Choice) : String :=
  (match choice.letter? with
    | some letter => String.ofList ['-', letter, ',', ' ']
    | none => "    ")
  ++ "--" ++ choice.name
  ++ (match choice with
    | flag .verbose => "..."
    | flag _ => ""
    | parameter _ => " <" ++ String.ofList (choice.name.toList.map Char.toUpper) ++ ">")

/-- How the entry classes are written. -/
def entriesHeading : String := "[ENTRIES]..."

/-- What the entry classes are. -/
def entriesDescription : String :=
  "The classes to start from, like `org.example.Main` or `org/example/Main`"

/-- What happens without entry classes. -/
def entriesDefault : String :=
  "If none are given, every class in the classpath directories is used."

/-- Fills a text up with blanks. -/
def padTo (width : Nat) (text : String) : String :=
  text ++ String.ofList (List.replicate (width - text.length) ' ')

/-- The lines that both forms of the help begin with. -/
def helpTitle : List String :=
  ["Translates java class files into a single javascript program", "",
    "Usage: " ++ programName ++ " [OPTIONS] --classpath <CLASSPATH> " ++ entriesHeading, ""]

/-- The help with descriptions beside what they describe. -/
def shortHelp : List String :=
  let width := (Choice.all.map fun choice => choice.heading.length).foldl max 0
  helpTitle
    ++ ["Arguments:", "  " ++ entriesHeading ++ "  " ++ entriesDescription, "", "Options:"]
    ++ Choice.all.map fun choice =>
      "  " ++ padTo width choice.heading ++ "  " ++ choice.description false

/-- The help with descriptions below what they describe. -/
def longHelp : List String :=
  let indent := padTo 10 ""
  helpTitle
    ++ ["Arguments:", "  " ++ entriesHeading, indent ++ entriesDescription ++ ".", indent,
      indent ++ entriesDefault, "", "Options:"]
    ++ List.intercalate [""]
      (Choice.all.map fun choice =>
        ["  " ++ choice.heading, indent ++ choice.description true])

end Bytescript.CommandLine
