import Bytescript.Proofs.Script.Parts
import Mathlib.Tactic.Tauto

/-!
# What expressions refer to

An expression reads variables, calls functions of the support library, names properties, and names
classes: those that it makes objects of, and those that own the static members and the exact methods
that it uses.  A method gets to know a variable from the statement that assigns it, or from any
statement that uses it if it is a local variable; whatever else a statement reads must be known
already.
-/

set_option autoImplicit false

namespace Bytescript.Script

/-! ## References -/

/-- What an expression refers to, apart from variables. -/
inductive Reference where
  /-- A function of the support library that is called. -/
  | function (function : Support.Function)
  /-- A class that an object is made of, or that has a static member. -/
  | owner (name : ClassName)
  /-- A method that is called as a given class has it. -/
  | exact (owner : ClassName) (method : String) (type : MethodType)
  /-- A super class, whose constructor function is called. -/
  | parent (name : ClassName)
  /-- A property of an object. -/
  | property (name : String)

/-- The class whose constructor function a reference names, if it names one. -/
def Reference.class? : Reference → Option ClassName
  | owner name | exact name _ _ | parent name => some name
  | function _ | property _ => none

namespace Expression

mutual

/-- What an expression refers to. -/
def references : Expression → List Reference
  | read _ | null | constant _ => []
  | new type => [.owner type]
  | staticField owner _ => [.owner owner]
  | negate operand => operand.references
  | binary _ left right => left.references ++ right.references
  | conditional test yes no => test.references ++ yes.references ++ no.references
  | property object name => .property name :: object.references
  | anyOf items | array items | intrinsic _ items => allReferences items
  | support function items => .function function :: allReferences items
  | staticCall owner _ _ items => .owner owner :: allReferences items
  | exactCall owner method type items => .exact owner method type :: allReferences items
  | methodCall receiver _ _ items => receiver.references ++ allReferences items

/-- What several expressions refer to. -/
def allReferences : List Expression → List Reference
  | [] => []
  | first :: rest => first.references ++ allReferences rest

end

end Expression

/-- What a statement refers to. -/
def Statement.references : Statement → List Reference
  | assign _ value => value.references
  | store place value => place.references ++ value.references
  | evaluate expression | throw expression => expression.references

/-- What a part refers to. -/
def Part.references : Part → List Reference
  | .statement done => done.references
  | .condition test => test.references
  | .key _ | .result _ => []

/-! ## Expressions -/

variable {reads : Variable → Prop} {allowed : Reference → Prop}

namespace Expression

/-- An expression only reads variables with a property, and only refers to what is allowed. -/
structure RefersOnly (reads : Variable → Prop) (allowed : Reference → Prop)
    (expression : Expression) : Prop where
  used : ∀ source ∈ expression.usedVariables, reads source
  referred : ∀ reference ∈ expression.references, allowed reference

theorem refersOnly_iff {expression : Expression} : expression.RefersOnly reads allowed ↔
    (∀ source ∈ expression.usedVariables, reads source) ∧
      ∀ reference ∈ expression.references, allowed reference :=
  ⟨fun ⟨used, referred⟩ => ⟨used, referred⟩, fun ⟨used, referred⟩ => ⟨used, referred⟩⟩

variable {source : Variable} {name : ClassName} {first second third : Expression}
  {items : List Expression} {method : String} {type : MethodType}

theorem forall_refersOnly_iff : (∀ item ∈ items, item.RefersOnly reads allowed) ↔
    (∀ source ∈ allUsedVariables items, reads source) ∧
      ∀ reference ∈ allReferences items, allowed reference := by
  induction items with
  | nil => simp [allUsedVariables, allReferences]
  | cons first rest ih =>
    rw [List.forall_mem_cons, ih, refersOnly_iff, allUsedVariables, allReferences,
      List.forall_mem_append, List.forall_mem_append, and_and_and_comm]

theorem refersOnly_and_iff : first.RefersOnly reads allowed ∧ second.RefersOnly reads allowed ↔
    (∀ source ∈ first.usedVariables ++ second.usedVariables, reads source) ∧
      ∀ reference ∈ first.references ++ second.references, allowed reference := by
  rw [refersOnly_iff, refersOnly_iff, List.forall_mem_append, List.forall_mem_append,
    and_and_and_comm]

@[simp] theorem refersOnly_read : (read source).RefersOnly reads allowed ↔ reads source :=
  ⟨fun refers => refers.used source List.mem_cons_self,
    fun here => ⟨List.forall_mem_singleton.mpr here, List.forall_mem_nil _⟩⟩

@[simp] theorem refersOnly_null : null.RefersOnly reads allowed :=
  ⟨List.forall_mem_nil _, List.forall_mem_nil _⟩

@[simp] theorem refersOnly_constant {value : Constant} :
    (constant value).RefersOnly reads allowed :=
  ⟨List.forall_mem_nil _, List.forall_mem_nil _⟩

@[simp] theorem refersOnly_int {value : Int} : (int value).RefersOnly reads allowed :=
  refersOnly_constant

@[simp] theorem refersOnly_string {text : String} : (string text).RefersOnly reads allowed :=
  refersOnly_constant

@[simp] theorem refersOnly_classString : (classString name).RefersOnly reads allowed :=
  refersOnly_string

@[simp] theorem refersOnly_new : (new name).RefersOnly reads allowed ↔ allowed (.owner name) :=
  ⟨fun refers => refers.referred _ List.mem_cons_self,
    fun here => ⟨List.forall_mem_nil _, List.forall_mem_singleton.mpr here⟩⟩

@[simp] theorem refersOnly_staticField {field : String} :
    (staticField name field).RefersOnly reads allowed ↔ allowed (.owner name) :=
  ⟨fun refers => refers.referred _ List.mem_cons_self,
    fun here => ⟨List.forall_mem_nil _, List.forall_mem_singleton.mpr here⟩⟩

@[simp] theorem refersOnly_negate :
    (negate first).RefersOnly reads allowed ↔ first.RefersOnly reads allowed :=
  ⟨fun ⟨used, referred⟩ => ⟨used, referred⟩, fun ⟨used, referred⟩ => ⟨used, referred⟩⟩

@[simp] theorem refersOnly_property {property' : String} :
    (property first property').RefersOnly reads allowed ↔
      allowed (.property property') ∧ first.RefersOnly reads allowed := by
  rw [refersOnly_iff, refersOnly_iff, usedVariables, references, List.forall_mem_cons,
    and_left_comm]

@[simp] theorem refersOnly_binary {operator : Operator} :
    (binary operator first second).RefersOnly reads allowed ↔
      first.RefersOnly reads allowed ∧ second.RefersOnly reads allowed :=
  refersOnly_iff.trans refersOnly_and_iff.symm

@[simp] theorem refersOnly_conditional :
    (conditional first second third).RefersOnly reads allowed ↔
      first.RefersOnly reads allowed ∧ second.RefersOnly reads allowed ∧
        third.RefersOnly reads allowed := by
  simp only [refersOnly_iff, usedVariables, references, List.forall_mem_append]
  tauto

@[simp] theorem refersOnly_anyOf :
    (anyOf items).RefersOnly reads allowed ↔ ∀ item ∈ items, item.RefersOnly reads allowed :=
  refersOnly_iff.trans forall_refersOnly_iff.symm

@[simp] theorem refersOnly_array :
    (array items).RefersOnly reads allowed ↔ ∀ item ∈ items, item.RefersOnly reads allowed :=
  refersOnly_iff.trans forall_refersOnly_iff.symm

@[simp] theorem refersOnly_intrinsic {function : Intrinsic} :
    (intrinsic function items).RefersOnly reads allowed ↔
      ∀ item ∈ items, item.RefersOnly reads allowed :=
  refersOnly_iff.trans forall_refersOnly_iff.symm

@[simp] theorem refersOnly_support {function : Support.Function} :
    (support function items).RefersOnly reads allowed ↔
      allowed (.function function) ∧ ∀ item ∈ items, item.RefersOnly reads allowed := by
  rw [refersOnly_iff, forall_refersOnly_iff, usedVariables, references, List.forall_mem_cons,
    and_left_comm]

@[simp] theorem refersOnly_staticCall :
    (staticCall name method type items).RefersOnly reads allowed ↔
      allowed (.owner name) ∧ ∀ item ∈ items, item.RefersOnly reads allowed := by
  rw [refersOnly_iff, forall_refersOnly_iff, usedVariables, references, List.forall_mem_cons,
    and_left_comm]

@[simp] theorem refersOnly_exactCall :
    (exactCall name method type items).RefersOnly reads allowed ↔
      allowed (.exact name method type) ∧ ∀ item ∈ items, item.RefersOnly reads allowed := by
  rw [refersOnly_iff, forall_refersOnly_iff, usedVariables, references, List.forall_mem_cons,
    and_left_comm]

@[simp] theorem refersOnly_methodCall :
    (methodCall first method type items).RefersOnly reads allowed ↔
      first.RefersOnly reads allowed ∧ ∀ item ∈ items, item.RefersOnly reads allowed := by
  rw [refersOnly_iff, refersOnly_iff, forall_refersOnly_iff, usedVariables, references,
    List.forall_mem_append, List.forall_mem_append, and_and_and_comm]

end Expression

/-! ## Statements and parts -/

/-- A part only uses variables with a property, and only refers to what is allowed. -/
structure Part.RefersOnly (uses : Variable → Prop) (allowed : Reference → Prop) (part : Part) :
    Prop where
  used : ∀ source ∈ part.usedVariables, uses source
  referred : ∀ reference ∈ part.references, allowed reference

theorem Part.refersOnly_key {source : Variable} (here : reads source) :
    (Part.key source).RefersOnly reads allowed :=
  ⟨List.forall_mem_singleton.mpr here, List.forall_mem_nil _⟩

theorem Part.refersOnly_result {source : Variable} (here : reads source) :
    (Part.result source).RefersOnly reads allowed :=
  ⟨List.forall_mem_singleton.mpr here, List.forall_mem_nil _⟩

theorem Expression.RefersOnly.condition {condition : Expression}
    (refers : condition.RefersOnly reads allowed) :
    (Part.condition condition).RefersOnly reads allowed :=
  ⟨refers.used, refers.referred⟩

/-- The expressions of a statement only read variables with a property, and only refer to what is
allowed. -/
def Statement.RefersOnly (reads : Variable → Prop) (allowed : Reference → Prop) : Statement → Prop
  | assign _ value => value.RefersOnly reads allowed
  | store place value => place.RefersOnly reads allowed ∧ value.RefersOnly reads allowed
  | evaluate expression | throw expression => expression.RefersOnly reads allowed

theorem Statement.RefersOnly.referred {statement : Statement}
    (refers : statement.RefersOnly reads allowed) :
    ∀ reference ∈ statement.references, allowed reference := by
  cases statement with
  | assign | evaluate | throw => exact Expression.RefersOnly.referred refers
  | store place value => exact List.forall_mem_append.mpr ⟨refers.1.referred, refers.2.referred⟩

/-- A variable that may be read where some variables are known: one of them, or a local variable of
the method. -/
def Readable (known : Variable → Prop) (source : Variable) : Prop :=
  source.isSlot = true ∨ known source

/-- A statement that only reads what may be read uses nothing but what is known, if it is known
what it introduces. -/
theorem Statement.RefersOnly.part {known : Variable → Prop} {statement : Statement}
    (refers : statement.RefersOnly (Readable known) allowed)
    (introduced : ∀ source ∈ statement.introduced, known source) :
    (Part.statement statement).RefersOnly known allowed := by
  have readable {source : Variable} (used : source ∈ statement.usedVariables)
      (may : Readable known source) : known source := by
    rcases may with slot | found
    · exact introduced _ (List.mem_append_right _ (List.mem_filter.mpr ⟨used, slot⟩))
    · exact found
  refine ⟨fun source used => ?_, refers.referred⟩
  cases statement with
  | assign target value =>
    rcases List.mem_cons.mp used with rfl | read
    · exact introduced _ List.mem_cons_self
    · exact readable used (Expression.RefersOnly.used refers _ read)
  | store place value =>
    rcases List.mem_append.mp used with read | read
    · exact readable used (refers.1.used _ read)
    · exact readable used (refers.2.used _ read)
  | evaluate | throw => exact readable used (Expression.RefersOnly.used refers _ used)

end Bytescript.Script
