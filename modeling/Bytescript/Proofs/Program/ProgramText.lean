import Bytescript.Program.Compile
import Bytescript.Proofs.Support.Mention
import Bytescript.Proofs.Translation.ClassText

/-!
# The text of a program, line by line

The script of a program is the text of the support library, the texts of its classes, the line that
links them, and the calls of static initializers.  What is written as one line is one line of the
script, apart from names of classes in comments and from bodies that are given.
-/

set_option autoImplicit false

namespace Bytescript.Program

open Script Support Translation

/-- The features of everything that a program uses: those of the builtin classes that it refers to
and those that its classes record. -/
def usedFeatures (reach : Reachability) (pieces : List Written) : FeatureSet :=
  .insertAll .empty (.classModel :: reach.provided.filterMap Builtin.featureOf?
    ++ pieces.flatMap Written.features)

/-- A program is made of the pieces that its classes are translated to. -/
structure IsMadeOf (program : Program) (reach : Reachability) (settings : Settings)
    (pieces : List Written) : Prop where
  translated : List.Forall₂
    (fun file piece => translateClass reach.classes settings.natives file = .ok piece)
    reach.classes.files pieces
  support : program.support = (usedFeatures reach pieces).lines settings.provided.contains
    reach.classes.contains
  classes : program.classes = pieces.flatMap Written.lines

variable {reach : Reachability} {settings : Settings} {program : Program} {pieces : List Written}
  {line : String}

theorem exists_isMadeOf (made : ofReachability reach settings = .ok program) :
    ∃ pieces, program.IsMadeOf reach settings pieces := by
  obtain ⟨pieces, translated, made⟩ := bind_eq_ok.mp made
  obtain ⟨order, _, made⟩ := bind_eq_ok.mp made
  cases made
  exact ⟨pieces, (mapM_eq_ok.mp translated).imp fun file piece => during_eq_ok.mp, rfl, rfl⟩

/-! ## Behind the classes -/

/-- A static initializer is no function of the library, so its call calls nothing there. -/
theorem leads_startLine {names : List Char → Prop} (name : ClassName) :
    Leads names .between (startLine name) .between :=
  (leads_word fun _ => isNameChar_staticFunction).append
    (Place.leads_ofWord _ rfl (.fixed (by decide)))

theorem exists_startLine_of_mem_starts (made : ofReachability reach settings = .ok program)
    (listed : line ∈ program.starts) : ∃ name, line = startLine name := by
  obtain ⟨pieces, _, made⟩ := bind_eq_ok.mp made
  obtain ⟨order, _, made⟩ := bind_eq_ok.mp made
  cases made
  obtain ⟨name, _, rfl⟩ := List.mem_map.mp listed
  exact ⟨name, rfl⟩

/-! ## Texts -/

/-- The lines of the script of a program, where those of its classes are in parts. -/
def HasTexts (program : Program) (texts : List ClassText) : Prop :=
  textLines program.text = program.support ++ texts.flatMap ClassText.lines
    ++ linkLine :: program.starts ++ [""]

/-- The lines of whatever is written are lines of the script. -/
theorem textLines_subset_text (listed : line ∈ program.lines) :
    textLines line ⊆ textLines program.text := by
  intro part inside
  rw [text, textLines_unlines]
  exact List.mem_append_left _ (List.mem_flatMap.mpr ⟨line, listed, inside⟩)

/-- The texts of several classes, one behind the other. -/
theorem exists_classTexts {related : ClassFile → ClassText → Prop} {files : List ClassFile}
    (translated : List.Forall₂ (fun file piece => ∃ text : ClassText,
      text.lines = allTextLines piece.lines ∧ related file text) files pieces) :
    ∃ texts : List ClassText, texts.flatMap ClassText.lines =
      allTextLines (pieces.flatMap Written.lines) ∧ List.Forall₂ related files texts := by
  induction translated with
  | nil => exact ⟨[], rfl, .nil⟩
  | cons here _ ih =>
    obtain ⟨text, lines, holds⟩ := here
    obtain ⟨texts, others, all⟩ := ih
    refine ⟨text :: texts, ?_, .cons holds all⟩
    rw [List.flatMap_cons, List.flatMap_cons, lines, others, allTextLines, allTextLines,
      allTextLines, List.flatMap_append]

/-- The script of a program has a text for each of its classes. -/
theorem IsMadeOf.exists_hasTexts {related : ClassFile → ClassText → Prop}
    (made : program.IsMadeOf reach settings pieces)
    (compiled : ofReachability reach settings = .ok program)
    (each : ∀ file ∈ reach.classes.files, ∀ piece ∈ pieces,
      translateClass reach.classes settings.natives file = .ok piece →
        ∃ text : ClassText, text.lines = allTextLines piece.lines ∧ related file text) :
    ∃ texts, program.HasTexts texts ∧ List.Forall₂ related reach.classes.files texts := by
  have both := (List.forall₂_and_left _ _).mpr ⟨each, made.translated⟩
  have members : ∀ piece ∈ pieces, piece ∈ pieces := fun _ => id
  have all := ((List.forall₂_and_left _ _).mpr ⟨members, both.flip⟩).flip
  obtain ⟨texts, lines, holds⟩ := exists_classTexts <| all.imp fun file piece written =>
    written.2.1 piece written.1 written.2.2
  refine ⟨texts, ?_, holds⟩
  have library : allTextLines program.support = program.support :=
    allTextLines_of_oneLine fun line written =>
      FeatureSet.oneLine_of_mem_lines (made.support ▸ written)
  have behind : allTextLines (linkLine :: program.starts) = linkLine :: program.starts := by
    refine allTextLines_of_oneLine (List.forall_mem_cons.mpr ⟨by decide, fun line listed => ?_⟩)
    obtain ⟨name, rfl⟩ := exists_startLine_of_mem_starts compiled listed
    have leads : Leads (fun _ => True) .between (startLine name) .between := leads_startLine name
    exact leads.oneLine
  rw [HasTexts, text, textLines_unlines, Program.lines, lines, ← made.classes]
  rw [allTextLines, List.flatMap_append, List.flatMap_append, ← allTextLines, ← allTextLines,
    ← allTextLines, library, behind]

end Bytescript.Program
