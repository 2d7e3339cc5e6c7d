import Bytescript.Proofs.Translation.Waiting
import Bytescript.Translation.Method

/-!
# Methods that are ready to be written

Before the code of a method is written, its instructions are decoded, its flow is built, and all
blocks that can be reached are translated.  What is known of the flow and of the code of blocks
after that is all that the form of the code depends on.
-/

set_option autoImplicit false

namespace Bytescript.Translation

open Bytescript.Flow

/-- The flow of a method and the code of its blocks. -/
def prepare (scope : Scope) (pool : ConstantPool) (code : Code) :
    Except Failure (ControlFlow × Codes) := do
  let instructions ← code.decode pool
  let flow ← ControlFlow.build instructions code.exceptionTable code.bytecode.length
  let codes ← translateBlocks scope flow
  return (flow, codes)

variable {scope : Scope} {pool : ConstantPool} {code : Code} {flow : ControlFlow} {codes : Codes}

theorem prepare_eq_ok : prepare scope pool code = .ok (flow, codes) ↔
    ∃ instructions, code.decode pool = .ok instructions ∧
      ControlFlow.build instructions code.exceptionTable code.bytecode.length = .ok flow ∧
      translateBlocks scope flow = .ok codes := by
  constructor
  · intro prepared
    obtain ⟨instructions, decoded, prepared⟩ := bind_eq_ok.mp prepared
    obtain ⟨_, built, prepared⟩ := bind_eq_ok.mp prepared
    obtain ⟨_, translated, prepared⟩ := bind_eq_ok.mp prepared
    cases prepared
    exact ⟨instructions, decoded, built, translated⟩
  · rintro ⟨instructions, decoded, built, translated⟩
    exact bind_eq_ok.mpr ⟨instructions, decoded,
      bind_eq_ok.mpr ⟨flow, built, bind_eq_ok.mpr ⟨codes, translated, rfl⟩⟩⟩

theorem wellBuilt_of_prepare (prepared : prepare scope pool code = .ok (flow, codes)) :
    flow.WellBuilt := by
  obtain ⟨_, decoded, built, _⟩ := prepare_eq_ok.mp prepared
  exact ControlFlow.wellBuilt_of_decode decoded built

theorem translated_of_prepare (prepared : prepare scope pool code = .ok (flow, codes)) :
    Translated flow codes := by
  obtain ⟨_, _, _, translated⟩ := prepare_eq_ok.mp prepared
  exact translateBlocks_translated (wellBuilt_of_prepare prepared) translated

/-- Whatever can be computed of the flow and the code of a method shows that both exist. -/
theorem exists_prepare (scope : Scope) (pool : ConstantPool) (code : Code)
    (holds : ControlFlow → Codes → Bool)
    (computed : ((prepare scope pool code).map fun (flow, codes) => holds flow codes).toOption =
      some true) :
    ∃ flow codes, prepare scope pool code = .ok (flow, codes) ∧ holds flow codes = true := by
  cases prepared : prepare scope pool code with
  | error failure =>
    rw [prepared] at computed
    cases computed
  | ok result =>
    rw [prepared] at computed
    exact ⟨result.1, result.2, rfl, Option.some.inj computed⟩

/-- What a translated method is made of: its own name and type, its flow, and the code of its
blocks. -/
structure MethodCode.IsMadeOf (result : MethodCode) (classes : ClassTable) (file : ClassFile)
    (method : Method) (code : Code) (flow : ControlFlow) (codes : Codes) : Prop where
  present : method.code = some code
  prepared : prepare ⟨classes, file.name, method.name⟩ file.pool code = .ok (flow, codes)
  owner : result.owner = file.name
  name : result.name = method.name
  typed : MethodType.parse method.descriptor = .ok result.type
  isStatic : result.isStatic = method.access.isStatic
  body : bodyOf flow codes = .ok result.body
  declared : result.declared = declaredVariables result.isStatic
    (parametersOf result.isStatic result.type) flow codes
  features : result.features =
    featuresOf (parametersOf result.isStatic result.type) flow codes

theorem exists_isMadeOf_of_translateMethod {classes : ClassTable} {file : ClassFile}
    {method : Method} {result : MethodCode}
    (translated : translateMethod classes file method = .ok result) :
    ∃ code flow codes, result.IsMadeOf classes file method code flow codes := by
  rw [translateMethod] at translated
  split at translated
  next code present =>
    obtain ⟨_, same, translated⟩ := bind_eq_ok.mp translated
    cases same
    obtain ⟨instructions, decoded, translated⟩ := bind_eq_ok.mp translated
    obtain ⟨flow, built, translated⟩ := bind_eq_ok.mp translated
    obtain ⟨type, typed, translated⟩ := bind_eq_ok.mp translated
    obtain ⟨codes, blocks, translated⟩ := bind_eq_ok.mp translated
    obtain ⟨body, made, translated⟩ := bind_eq_ok.mp translated
    cases translated
    have prepared := prepare_eq_ok.mpr ⟨instructions, decoded, built, blocks⟩
    exact ⟨code, flow, codes, present, prepared, rfl, rfl, typed, rfl, made, rfl, rfl⟩
  · cases translated

end Bytescript.Translation
