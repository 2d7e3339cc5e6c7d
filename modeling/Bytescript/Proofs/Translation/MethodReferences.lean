import Bytescript.Proofs.Translation.EntryStacks
import Bytescript.Proofs.Translation.InstructionReferences
import Bytescript.Proofs.Translation.Method
import Bytescript.Proofs.Translation.Parts

/-!
# What methods refer to

The blocks of a method use values that other blocks left on the stack.  Such a value was assigned
by the block that left it or, since the first block begins with an empty stack, by one before that;
and the exception that a handler finds is assigned where it is caught.  So the code of a method only
uses variables that its blocks introduce.  It refers to nothing but what its instructions refer to
and the functions for handlers and parameters, and the features of all functions are recorded.
-/

set_option autoImplicit false

namespace Bytescript.Translation

open Bytescript.Flow Script

variable {scope : Scope} {pool : ConstantPool} {code : Code} {flow : ControlFlow} {codes : Codes}
  {block : Nat} {allowed : Reference → Prop} {parameters : List (Nat × FieldType)}

/-! ## What a method introduces -/

theorem mem_translated {code : BlockCode} :
    (block, code) ∈ translated codes ↔ codes.getD block none = some code := by
  rw [translated, Array.getD_eq_getD_getElem?, ← Array.getElem?_toList]
  constructor
  · intro member
    obtain ⟨⟨found, place⟩, listed, same⟩ := List.mem_filterMap.mp member
    obtain ⟨other, rfl, same⟩ := Option.map_eq_some_iff.mp same
    cases same
    rw [List.mem_zipIdx_iff_getElem?] at listed
    rw [listed]
    rfl
  · intro here
    refine List.mem_filterMap.mpr ⟨(some code, block), ?_, rfl⟩
    rw [List.mem_zipIdx_iff_getElem?]
    cases listed : codes.toList[block]? with
    | none =>
      rw [listed] at here
      cases here
    | some found =>
      rw [listed] at here
      exact congrArg some here

theorem mem_introduced_of_block {source : Variable} {code : BlockCode}
    (coded : codes.getD block none = some code) (found : source ∈ code.introduced) :
    source ∈ introduced flow codes := by
  have listed : source ∈ (translated codes).flatMap fun entry => entry.2.introduced :=
    List.mem_flatMap.mpr ⟨_, mem_translated.mpr coded, found⟩
  rw [introduced]
  split
  · exact listed
  · exact List.mem_cons_of_mem _ listed

/-- A handler makes the variable known in which it finds the exception. -/
theorem caught_mem_introduced {code : BlockCode} {handler : Handler}
    (coded : codes.getD block none = some code) (listed : handler ∈ flow.covering block) :
    .stack .reference 0 ∈ introduced flow codes := by
  have active : handler ∈ activeHandlers flow codes :=
    List.mem_flatMap.mpr ⟨(block, code), mem_translated.mpr coded, listed⟩
  rw [introduced, if_neg (by simpa using List.ne_nil_of_mem active)]
  exact List.mem_cons_self

/-- All values that a block is entered with are in variables that the method introduces. -/
theorem held_of_reachable (wellBuilt : flow.WellBuilt) {assigned : Nat → Stack}
    (consistent : Consistent scope flow assigned) (exact : Exact scope flow codes)
    (reachable : flow.shape.graph.Reachable block) :
    Held (· ∈ introduced flow codes) (assigned block) := by
  induction reachable with
  | entry _ _ =>
    rw [show assigned 0 = [] from consistent.entry]
    exact held_nil
  | step reachable edge _ ih =>
    obtain ⟨code, coded⟩ := (exact.coded _).mpr reachable
    obtain ⟨content, code', left, here, translated, passes⟩ := consistent.passes reachable
    obtain ⟨content', left', here', translated'⟩ := exact.translated consistent coded
    cases here.symm.trans here'
    cases translated.symm.trans translated'
    obtain ⟨stack, passed⟩ := exists_passes left wellBuilt edge
    rw [passes passed]
    cases passed with
    | next listed =>
      exact (refersOnly_of_translateBlock translated ih
        (fun _ => mem_introduced_of_block coded) fun _ _ => allows_true _ _).2
    | handler listed =>
      exact held_cons.mpr ⟨caught_mem_introduced coded listed, held_nil⟩

/-- A variable that a method introduces, or in which an exception is caught. -/
def IsIntroduced (flow : ControlFlow) (codes : Codes) (source : Variable) : Prop :=
  source = .caught ∨ source ∈ introduced flow codes

/-! ## What is recorded -/

/-- What an instruction of a translated block needs is recorded. -/
theorem instructionFeatures_subset {code : BlockCode} {content : Block} {placed : Placed}
    (coded : codes.getD block none = some code) (here : flow.blocks[block]? = some content)
    (member : placed ∈ content.body) :
    instructionFeatures placed.instruction ⊆ featuresOf parameters flow codes := by
  intro feature needed
  refine List.mem_append_left _ (List.mem_flatMap.mpr ⟨_, mem_translated.mpr coded, ?_⟩)
  refine List.mem_append_left _ (List.mem_flatMap.mpr ⟨placed, ?_, needed⟩)
  rwa [Array.getD_eq_getD_getElem?, here]

/-- What a handler of a translated block needs is recorded. -/
theorem handlerFeatures_subset {code : BlockCode} {handler : Handler}
    (coded : codes.getD block none = some code) (listed : handler ∈ flow.covering block) :
    handlerFeatures handler ⊆ featuresOf parameters flow codes := by
  intro feature needed
  refine List.mem_append_left _ (List.mem_flatMap.mpr ⟨_, mem_translated.mpr coded, ?_⟩)
  exact List.mem_append_right _ (List.mem_flatMap.mpr ⟨handler, listed, needed⟩)

/-- What a parameter needs is recorded. -/
theorem coercionFeatures_subset {parameter : Nat × FieldType} (listed : parameter ∈ parameters) :
    coercionFeatures parameter.2 ⊆ featuresOf parameters flow codes :=
  fun _ needed => List.mem_append_right _ (List.mem_flatMap.mpr ⟨parameter, listed, needed⟩)

/-! ## Blocks and handlers -/

/-- What is done with any exception uses nothing but the exception and the variable in which a
handler finds it, and calls the function that makes it one of the program. -/
theorem handlingIs_refersOnly (wraps : allowed (.function .wrap))
    (found : .stack .reference 0 ∈ introduced flow codes) :
    HandlingIs (Part.RefersOnly (IsIntroduced flow codes) allowed) := by
  have here : IsIntroduced flow codes .caught := .inl rfl
  have reads : (Expression.read .caught).RefersOnly (IsIntroduced flow codes) allowed :=
    Expression.refersOnly_read.mpr here
  rintro _ (_ | _ | _)
  · have wrapped : (Expression.support .wrap [.read .caught]).RefersOnly _ allowed :=
      Expression.refersOnly_support.mpr ⟨wraps, List.forall_mem_singleton.mpr reads⟩
    exact ⟨List.forall_mem_cons.mpr ⟨here, wrapped.used⟩, wrapped.referred⟩
  · exact ⟨List.forall_mem_cons.mpr ⟨.inr found, reads.used⟩, reads.referred⟩
  · exact ⟨reads.used, reads.referred⟩

/-- A test for classes uses the exception and calls the function that tests for one. -/
theorem refersOnly_isCaught (tests : allowed (.function .isInstance)) (classes : List ClassName) :
    (Part.condition (isCaught classes)).RefersOnly (IsIntroduced flow codes) allowed := by
  refine (Expression.refersOnly_anyOf.mpr (List.forall_mem_map.mpr fun name _ => ?_)).condition
  simp [tests, IsIntroduced]

/-- The code of a method only uses variables that the method introduces, and only refers to what its
instructions refer to and to functions whose features are recorded for its handlers. -/
theorem linesShow_of_bodyOf (prepared : prepare scope pool code = .ok (flow, codes))
    (allows : ∀ {block : Nat} {code : BlockCode} {content : Block},
      codes.getD block none = some code → flow.blocks[block]? = some content →
        ∀ placed ∈ content.body, Allows scope.classes allowed placed.instruction)
    (handles : ∀ {block : Nat} {code : BlockCode}, codes.getD block none = some code →
      ∀ handler ∈ flow.covering block, CallsAllowed allowed (handlerFeatures handler))
    {body : Body} (made : bodyOf flow codes = .ok body) :
    LinesShow (Part.RefersOnly (IsIntroduced flow codes) allowed) body.lines := by
  have wellBuilt := wellBuilt_of_prepare prepared
  obtain ⟨_, _, _, done⟩ := prepare_eq_ok.mp prepared
  have exact := translateBlocks_exact wellBuilt done
  obtain ⟨progress, steps, empty, _⟩ := steps_of_translateBlocks wellBuilt done
  have sound := Progress.Steps.sound wellBuilt (Progress.start_sound wellBuilt) steps
  have consistent := sound.consistent wellBuilt empty
  refine linesShow_body (all_bodyOf ⟨fun {block code} coded part member => ?_,
    fun coded some => ?_, fun coded handler listed named classes => ?_⟩ made)
  · obtain ⟨content, left, here, translated⟩ := exact.translated consistent coded
    have held := held_of_reachable wellBuilt consistent exact ((exact.coded block).mp ⟨code, coded⟩)
    have refers := (refersOnly_of_translateBlock translated held
      (fun _ => mem_introduced_of_block coded) (allows coded here)).1 part member
    exact ⟨fun source used => .inr (refers.used source used), refers.referred⟩
  · obtain ⟨handler, listed⟩ := List.exists_mem_of_ne_nil _ some
    refine handlingIs_refersOnly (handles coded handler listed .wrap ?_)
      (caught_mem_introduced coded listed)
    rw [handlerFeatures]
    split <;> exact List.mem_cons_self
  · refine refersOnly_isCaught (handles coded handler listed .isInstance ?_) classes
    rw [handlerFeatures, if_pos named]
    exact List.mem_cons_of_mem _ List.mem_cons_self

/-! ## Parameters -/

/-- Bringing a parameter into its range uses nothing else, and calls what is recorded for it. -/
theorem refersOnly_of_mem_coercions {statement : Statement}
    (calls : ∀ parameter ∈ parameters, CallsAllowed allowed (coercionFeatures parameter.2))
    (listed : statement ∈ coercions parameters) :
    (Part.statement statement).RefersOnly
      (· ∈ parameters.map fun (slot, _) => Variable.slot slot) allowed := by
  obtain ⟨⟨slot, type⟩, member, made⟩ := List.mem_filterMap.mp listed
  obtain ⟨value, coerced, rfl⟩ := Option.map_eq_some_iff.mp made
  have own : Variable.slot slot ∈ parameters.map fun (slot, _) => Variable.slot slot :=
    List.mem_map_of_mem member
  have refers : value.RefersOnly
      (· ∈ parameters.map fun (slot, _) => Variable.slot slot) allowed := by
    rw [coercion?.eq_def] at coerced
    split at coerced <;> cases coerced
    case h_2 =>
      have coerces := calls _ member .coerceLong (List.mem_singleton_self _)
      simpa [coerces] using own
    all_goals simpa [roundFloat, wrapInt] using own
  exact ⟨List.forall_mem_cons.mpr ⟨own, refers.used⟩, refers.referred⟩

end Bytescript.Translation
