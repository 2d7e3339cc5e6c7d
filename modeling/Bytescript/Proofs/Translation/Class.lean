import Bytescript.Proofs.Failure
import Bytescript.Translation.Class

/-!
# The pieces of a class

The lines of a class are those of its constructor function, of its registration and of its static
fields, and then those of its methods.  A method has the lines of the body that is given for it, or
of what its code is translated to, or none at all.
-/

set_option autoImplicit false

namespace Bytescript.Translation

open Script

variable {classes : ClassTable} {natives : NativeBodies} {file : ClassFile} {method : Method}
  {written : Written}

/-! ## Methods -/

/-- The function of a method with a given body. -/
def givenLines (owner : ClassName) (method : Method) (body : NativeBody) (type : MethodType) :
    List String :=
  [functionHead owner method.name type method.access.isStatic body.parameters,
    withoutLineBreak body.text, functionEnd method.access.isStatic]

/-- What a method becomes. -/
inductive Becomes (classes : ClassTable) (natives : NativeBodies) (file : ClassFile)
    (method : Method) : Written → Prop where
  | given {body : NativeBody} {type : MethodType}
      (found : natives.find file.name method = .ok (some body))
      (parsed : MethodType.parse method.descriptor = .ok type) :
    Becomes classes natives file method ⟨givenLines file.name method body type, []⟩
  | missing (found : natives.find file.name method = .ok none) (empty : method.code = none) :
    Becomes classes natives file method .nothing
  | translated {code : MethodCode} (found : natives.find file.name method = .ok none)
      (translated : translateMethod classes file method = .ok code) :
    Becomes classes natives file method ⟨code.text, code.features⟩

theorem becomes_of_methodFunction
    (made : methodFunction classes natives file method = .ok written) :
    Becomes classes natives file method written := by
  obtain ⟨body, found, made⟩ := bind_eq_ok.mp made
  cases body with
  | some body =>
    obtain ⟨type, parsed, made⟩ := bind_eq_ok.mp made
    cases made
    exact .given found parsed
  | none =>
    dsimp only at made
    split at made
    · cases made
    split at made
    next empty =>
      cases made
      exact .missing found (Option.isNone_iff_eq_none.mp empty)
    · obtain ⟨code, translated, made⟩ := bind_eq_ok.mp made
      cases made
      exact .translated found translated

/-! ## Classes -/

theorem superClass_of_parentOf {parent : ClassName} (above : parentOf file = some parent) :
    file.superClass = some parent := by
  rw [parentOf] at above
  split at above
  · cases above
  · exact above

theorem foldl_append (pieces : List Written) (first : Written) :
    pieces.foldl Written.append first =
      ⟨first.lines ++ (pieces.map Written.lines).flatten,
        first.features ++ pieces.flatMap Written.features⟩ := by
  induction pieces generalizing first with
  | nil => simp
  | cons piece rest ih => simp [ih, Written.append]

/-- The pieces of a class: the constructor function, the static fields, and the methods. -/
structure HasPieces (classes : ClassTable) (natives : NativeBodies) (file : ClassFile)
    (written : Written) (constructor statics : List Line) (methods : List Written) : Prop where
  constructed : constructorLines classes file = .ok constructor
  stored : List.Forall₂ (fun field line => staticFieldLine file.name field = .ok line)
    (file.fields.filter fun field => field.access.isStatic) statics
  become : List.Forall₂ (Becomes classes natives file) file.methods methods
  lines : written.lines = Line.indentAll 0 (Line.plain ("// " ++ file.name.text) :: constructor
    ++ registrationLine file :: statics) ++ (methods.map Written.lines).flatten
  features : written.features = methods.flatMap Written.features

theorem exists_hasPieces (made : translateClass classes natives file = .ok written) :
    ∃ constructor statics methods,
      HasPieces classes natives file written constructor statics methods := by
  obtain ⟨constructor, constructed, made⟩ := bind_eq_ok.mp made
  obtain ⟨statics, stored, made⟩ := bind_eq_ok.mp made
  obtain ⟨methods, translated, made⟩ := bind_eq_ok.mp made
  cases made
  refine ⟨constructor, statics, methods, constructed, mapM_eq_ok.mp stored, ?_, ?_, ?_⟩
  · exact (mapM_eq_ok.mp translated).imp fun _ _ made =>
      becomes_of_methodFunction (during_eq_ok.mp made)
  · rw [foldl_append]
  · rw [foldl_append]
    rfl

end Bytescript.Translation
