import Bytescript.Assembly.Assembler
import Bytescript.Assembly.Sketch
import Bytescript.ClassFile.Listing
import Bytescript.Main
import Bytescript.Proofs.Assembly.AnnotationDepth
import Bytescript.Proofs.Assembly.Decoding
import Bytescript.Proofs.Assembly.Indices
import Bytescript.Proofs.Assembly.RoundTrip
import Bytescript.Proofs.ClassFile.Accessors
import Bytescript.Proofs.ClassFile.Ignored
import Bytescript.Proofs.Flow.Acceptance
import Bytescript.Proofs.Flow.Reducible
import Bytescript.Proofs.Program.Asking
import Bytescript.Proofs.Program.BuiltinDefinitions
import Bytescript.Proofs.Program.Closure
import Bytescript.Proofs.Program.DeclaredNames
import Bytescript.Proofs.Program.InitializerCalls
import Bytescript.Proofs.Program.LinkedUse
import Bytescript.Proofs.Program.Missing
import Bytescript.Proofs.Program.Reclosing
import Bytescript.Proofs.Program.WrittenClasses
import Bytescript.Proofs.Script.Overloads
import Bytescript.Proofs.Script.StringLiteral
import Bytescript.Proofs.Translation.Computation
import Bytescript.Proofs.Translation.Declarations
import Bytescript.Proofs.Translation.EntryStacks
import Bytescript.Proofs.Translation.FieldAccess
import Bytescript.Proofs.Translation.Labels
import Bytescript.Proofs.Translation.Rearranging
import Bytescript.Proofs.Translation.Recursion
import Bytescript.Proofs.Translation.Repetition
import Bytescript.Proofs.Translation.SpecialCalls
import Bytescript.Proofs.Translation.Switches
