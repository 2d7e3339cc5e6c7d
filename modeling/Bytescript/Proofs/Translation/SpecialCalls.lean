import Bytescript.Proofs.Classes.FieldProperty
import Bytescript.Proofs.Classes.MethodSearch
import Bytescript.Proofs.Translation.Instruction

/-!
# The classes whose methods are called exactly

An exact call goes to the class where the search for the method ends.  If that is a class of the
support library, it should have the method, or else there is nothing to call.

A call for which the class of the receiver chooses may be translated although the search ends in
vain: a subclass may have the method, or an interface may give it to the receiver.  So an abstract
class and a class that gets the method from an interface are excused.  The same excuse counts for
exact calls, where it does not help, and there are no other calls of methods that are missing.
-/

set_option autoImplicit false

namespace Bytescript

open Script Support Translation ClassTable
open Relation (ReflTransGen)

namespace ClassTable

variable {table : ClassTable} {method : MemberRef} {target : ClassName} {name descriptor : String}

/-- A class may have a method: it is known, or it comes from elsewhere and is not one of the support
library, or it is such a class and has the method. -/
def MayAnswer (table : ClassTable) (target : ClassName) (name descriptor : String) : Prop :=
  (∃ file, table.find? target = some file) ∨ Builtin.find? target = none ∨
    Builtin.hasMethod? target name descriptor = some true

/-- A known class is abstract. -/
def IsAbstract (table : ClassTable) (name : ClassName) : Prop :=
  ∃ file, table.find? name = some file ∧ file.access.isAbstract = true

/-- The search for a method leads out of the table, to a class of the support library that lacks
it. -/
def SearchesInVain (table : ClassTable) (method : MemberRef) : Prop :=
  ∃ last, ReflTransGen (table.PassesUp method.name method.descriptor) method.owner last ∧
    table.find? last = none ∧ Builtin.hasMethod? last method.name method.descriptor = some false

/-- The class that a method is asked of may get it from a subclass or from an interface. -/
def Excuses (table : ClassTable) (method : MemberRef) : Prop :=
  table.IsAbstract method.owner ∨
    table.InheritsMethod method.name method.descriptor method.owner

theorem not_mayAnswer_iff : ¬ table.MayAnswer target name descriptor ↔
    table.find? target = none ∧ Builtin.hasMethod? target name descriptor = some false := by
  rw [MayAnswer, ← Option.isSome_iff_exists, Option.isSome_iff_ne_none, Builtin.hasMethod?]
  cases Builtin.find? target <;> simp

/-- Only the end of the search can lack the method. -/
theorem searchesInVain_iff (founded : table.IsFounded) : table.SearchesInVain method ↔
    ¬ table.MayAnswer (table.resolveMethod method.owner method.name method.descriptor)
      method.name method.descriptor := by
  rw [not_mayAnswer_iff]
  constructor
  · rintro ⟨last, way, missing, lacks⟩
    rw [(resolveMethod_eq_iff founded missing).mpr way]
    exact ⟨missing, lacks⟩
  · rintro ⟨missing, lacks⟩
    exact ⟨_, (resolveMethod_eq_iff founded missing).mp rfl, missing, lacks⟩

/-- The search does not lead anywhere from a known interface. -/
theorem SearchesInVain.isClass (vain : table.SearchesInVain method) {file : ClassFile}
    (found : table.find? method.owner = some file) : file.access.isInterface = false := by
  obtain ⟨last, way, missing, _⟩ := vain
  rcases way.cases_head with same | ⟨_, ⟨first, known, _, isClass, _⟩, _⟩
  · cases found.symm.trans (same ▸ missing)
  · cases found.symm.trans known
    exact isClass

end ClassTable

namespace Translation

variable {site : Site} {method : MemberRef} {target : ClassName} {stack rest : Stack}
  {effect : Effect} {name descriptor : String} {type : MethodType}

/-! ## What is accepted -/

/-- A class is let through if it is excused. -/
theorem Site.excuses_of_mayInherit (founded : site.classes.IsFounded)
    (vain : site.classes.SearchesInVain method)
    (inherits : site.mayInherit method.owner method.name method.descriptor = true) :
    site.classes.Excuses method := by
  rw [Site.mayInherit] at inherits
  split at inherits
  · cases inherits
  next file found =>
    rw [vain.isClass found, Bool.or_false, Bool.or_eq_true, interfaceDeclares_iff founded]
      at inherits
    exact inherits.imp_left fun isAbstract => ⟨file, found, isAbstract⟩

/-- A method that passed the check may be there, or its class is excused. -/
theorem Site.mayAnswer_or_mayInherit {referenced : ClassName}
    (passed : site.checkMethod referenced target name descriptor = .ok ()) :
    site.classes.MayAnswer target name descriptor ∨
      site.mayInherit referenced name descriptor = true := by
  by_cases answers : site.classes.MayAnswer target name descriptor
  · exact .inl answers
  · obtain ⟨missing, lacks⟩ := not_mayAnswer_iff.mp answers
    have outside : site.classes.contains target = false := by
      rw [ClassTable.contains, missing]
      rfl
    cases inherits : site.mayInherit referenced name descriptor with
    | true => exact .inr rfl
    | false =>
      -- Nothing speaks for the method, so the check fails.
      rw [Site.checkMethod, outside, lacks, inherits] at passed
      cases passed

/-! ## What is written -/

/-- An effect is an exact call of a method of a class, and may keep its result. -/
inductive Effect.CallsExactly (target : ClassName) (name : String) (type : MethodType) :
    Effect → Prop where
  | evaluates (arguments : List Expression) :
    CallsExactly target name type (.plain [.evaluate (.exactCall target name type arguments)])
  | keeps (result : Variable) (arguments : List Expression) :
    CallsExactly target name type (.plain [.assign result (.exactCall target name type arguments)])

theorem pushExpression_assigns (kind : Kind) (expression : Expression) :
    (pushExpression kind expression).Gives fun statement =>
      ∃ result, statement = .assign result expression :=
  gives_after fun result => gives_pure ⟨result, rfl⟩

theorem call_callsExactly (arguments : List Expression) :
    (call type (.exactCall target name type arguments)).Gives
      (Effect.CallsExactly target name type) := by
  rw [call]
  split
  · refine gives_bind (pushExpression_assigns _ _) ?_
    rintro _ ⟨result, rfl⟩
    exact gives_pure (.keeps result arguments)
  · exact gives_pure (.evaluates arguments)

/-- An exact call that is translated passed the check, and goes to where the search ended. -/
theorem invokeSpecial_callsExactly : (invokeSpecial site method).Gives fun effect =>
    let target := site.classes.resolveMethod method.owner method.name method.descriptor
    ∃ type, MethodType.parse method.descriptor = .ok type ∧
      site.checkMethod method.owner target method.name method.descriptor = .ok () ∧
      effect.CallsExactly target method.name type := by
  refine gives_bind (gives_lift fun _ parsed => parsed) fun type parsed => ?_
  refine gives_after fun arguments => gives_after fun receiver => ?_
  refine gives_bind (gives_lift fun _ passed => passed) fun _ passed => ?_
  intro stack effect rest called
  exact ⟨type, parsed, passed, call_callsExactly _ stack effect rest called⟩

/-- **Exact calls go to classes that may have the method, unless the named class is excused.**
The call is translated, and no class inherits from itself. -/
theorem invokeSpecial_mayAnswer_iff {onInterface : Bool} (founded : site.classes.IsFounded)
    (accepted : translate site (.invokeSpecial method onInterface) stack = .ok (effect, rest)) :
    ∃ target type, MethodType.parse method.descriptor = .ok type ∧
      effect.CallsExactly target method.name type ∧
      (site.classes.MayAnswer target method.name method.descriptor ↔
        ¬ (site.classes.SearchesInVain method ∧ site.classes.Excuses method)) := by
  obtain ⟨type, parsed, passed, calls⟩ := invokeSpecial_callsExactly stack effect rest accepted
  refine ⟨_, type, parsed, calls, ?_⟩
  constructor
  · exact fun answers ⟨vain, _⟩ => (searchesInVain_iff founded).mp vain answers
  · intro unexcused
    by_contra missing
    have vain := (searchesInVain_iff founded).mpr missing
    have inherits := (Site.mayAnswer_or_mayInherit passed).resolve_left missing
    exact unexcused ⟨vain, Site.excuses_of_mayInherit founded vain inherits⟩

/-! ## A super class that gets a method from an interface -/

/-- The interface `I`, with a method that is not abstract. -/
def defaultInterface : ClassFile :=
  { fieldsClass "I" "java/lang/Object" [] with
    access := .ofFlags 0x601
    methods := [⟨.ofFlags 1, "m", "()V", some ⟨0, 1, [0xb1], [], []⟩, [], .empty⟩] }

/-- The class `A`, which gets the method from the interface. -/
def implementingClass : ClassFile :=
  { fieldsClass "A" "java/lang/Object" [] with interfaces := [⟨"I"⟩] }

/-- Both of them, and the class `B` below `A`. -/
def defaulting : ClassTable :=
  .ofList [defaultInterface, implementingClass, fieldsClass "B" "A" []]

/-- An instruction of a method of `B`. -/
def defaultingSite : Site := ⟨⟨defaulting, ⟨"B"⟩, "m"⟩, 1, 0xb7, 4⟩

theorem defaulting_isFounded : defaulting.IsFounded :=
  isFounded_of_falls (fun name => if name = ⟨"B"⟩ then 3 else if name = ⟨"A"⟩ then 2
    else if name = ⟨"I"⟩ then 1 else 0) (by decide +kernel)

/-- A method of the root class that no interface declares is called there. -/
theorem invokeSpecial_hashCode_mayAnswer : ∃ effect rest target type,
    translate defaultingSite (.invokeSpecial ⟨⟨"A"⟩, "hashCode", "()I"⟩ false) [.reference] =
      .ok (effect, rest) ∧
    effect.CallsExactly target "hashCode" type ∧
      defaulting.MayAnswer target "hashCode" "()I" := by
  obtain ⟨⟨effect, rest⟩, accepted⟩ := Option.isSome_iff_exists.mp (show
    (translate defaultingSite (.invokeSpecial ⟨⟨"A"⟩, "hashCode", "()I"⟩ false)
      [.reference]).toOption.isSome = true by decide +kernel)
  have accepted := ok_of_toOption accepted
  obtain ⟨target, type, _, calls, answers⟩ :=
    invokeSpecial_mayAnswer_iff defaulting_isFounded accepted
  refine ⟨effect, rest, target, type, accepted, calls, answers.mpr ?_⟩
  rintro ⟨_, ⟨file, found, isAbstract⟩ | inherits⟩
  · have known : defaulting.find? ⟨"A"⟩ = some implementingClass := rfl
    cases known.symm.trans found
    cases isAbstract
  · have declared := (interfaceDeclares_iff defaulting_isFounded).mpr inherits
    exact absurd declared (by decide +kernel)

/-- The method that `A` gets from the interface is called as one of the root class, which lacks
it. -/
theorem invokeSpecial_default_unanswered : ∃ effect rest type,
    translate defaultingSite (.invokeSpecial ⟨⟨"A"⟩, "m", "()V"⟩ false) [.reference] =
      .ok (effect, rest) ∧
    effect.CallsExactly .object "m" type ∧ ¬ defaulting.MayAnswer .object "m" "()V" ∧
      defaulting.IsFounded ∧ defaulting.InheritsMethod "m" "()V" ⟨"A"⟩ := by
  obtain ⟨⟨effect, rest⟩, accepted⟩ := Option.isSome_iff_exists.mp (show
    (translate defaultingSite (.invokeSpecial ⟨⟨"A"⟩, "m", "()V"⟩ false)
      [.reference]).toOption.isSome = true by decide +kernel)
  have accepted := ok_of_toOption accepted
  obtain ⟨type, _, _, calls⟩ := invokeSpecial_callsExactly _ effect rest accepted
  have ended : defaulting.resolveMethod ⟨"A"⟩ "m" "()V" = .object := by decide +kernel
  have declared : defaulting.interfaceDeclares ⟨"A"⟩ "m" "()V" = true := by decide +kernel
  refine ⟨effect, rest, type, accepted, ended ▸ calls, not_mayAnswer_iff.mpr ⟨rfl, ?_⟩,
    defaulting_isFounded, (interfaceDeclares_iff defaulting_isFounded).mp declared⟩
  decide +kernel

end Translation

end Bytescript
