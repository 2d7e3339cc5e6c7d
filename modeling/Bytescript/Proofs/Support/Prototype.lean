import Bytescript.Proofs.Support.Mention
import Mathlib.Logic.Relation

/-!
# The methods of builtin classes are there

The table of builtin classes lists the methods that each class declares, and a method may be
inherited.  Wherever the search for a concrete method ends, a line of the text defines it there or
further up: exceptions have no text of their own, so all of them get their constructors from the
class of throwables.  These lines belong to the features of the classes, apart from the method
that tells the class of an object, which belongs to the class literals alone.
-/

set_option autoImplicit false

namespace Bytescript.Support

open Translation

namespace Builtin

variable {builtin superClass declarer ancestor : Builtin} {name descriptor : String}

/-! ## Inheritance -/

/-- The super class of a builtin class, which is builtin as well. -/
def Extends (builtin superClass : Builtin) : Prop :=
  builtin.superClass.bind find? = some superClass

/-- Whether the strings of the script stand for the objects of a class. -/
def isString (builtin : Builtin) : Bool := builtin.name = ⟨"java/lang/String"⟩

/-- A class whose properties the objects of a class have as well.  Strings have none but their
own. -/
def Inherits (builtin superClass : Builtin) : Prop :=
  builtin.isString = false ∧ builtin.Extends superClass

/-- Whether the methods of a class are abstract. -/
def isInterface (builtin : Builtin) : Bool :=
  match builtin.definition with
  | .interface => true
  | .text _ | .exception => false

/-- The class that declares a method, searching a class and its super classes.  Constructors are
not inherited. -/
inductive FindsMethod (name descriptor : String) : Builtin → Builtin → Prop where
  | here {builtin : Builtin} (declared : builtin.declares name descriptor = true) :
    FindsMethod name descriptor builtin builtin
  | above {builtin superClass declarer : Builtin}
    (undeclared : builtin.declares name descriptor = false) (inherited : name ≠ constructorName)
    (up : builtin.Extends superClass) (found : FindsMethod name descriptor superClass declarer) :
    FindsMethod name descriptor builtin declarer

theorem FindsMethod.declares (finds : FindsMethod name descriptor builtin declarer) :
    declarer.declares name descriptor = true := by
  induction finds with
  | here declared => exact declared
  | above _ _ _ _ ih => exact ih

/-- A method that a class has is found. -/
theorem exists_findsMethod {fuel : Nat} (has : declaresUp name descriptor fuel builtin = true) :
    ∃ declarer, FindsMethod name descriptor builtin declarer := by
  fun_induction declaresUp name descriptor fuel builtin with
  | case1 builtin => exact ⟨builtin, .here has⟩
  | case2 fuel builtin declared => exact ⟨builtin, .here declared⟩
  | case3 => cases has
  | case4 fuel builtin undeclared inherited superClass up ih =>
    obtain ⟨declarer, found⟩ := ih has
    exact ⟨declarer, .above (Bool.not_eq_true _ ▸ undeclared) inherited up found⟩
  | case5 => cases has

theorem mem_all_of_find? {className : ClassName} (found : find? className = some builtin) :
    builtin ∈ all :=
  List.mem_of_find?_eq_some found

theorem mem_all_of_extends (up : builtin.Extends superClass) : superClass ∈ all := by
  obtain ⟨_, _, found⟩ := Option.bind_eq_some_iff.mp up
  exact mem_all_of_find? found

theorem mem_all_of_inherits (listed : builtin ∈ all)
    (up : Relation.ReflTransGen Inherits builtin ancestor) : ancestor ∈ all := by
  induction up with
  | refl => exact listed
  | tail _ up _ => exact mem_all_of_extends up.2

/-- Strings declare all methods themselves. -/
theorem FindsMethod.eq_of_isString (listed : builtin ∈ all) (string : builtin.isString = true)
    (finds : FindsMethod name descriptor builtin declarer) : declarer = builtin := by
  have checked : ∀ builtin ∈ all, builtin.isString = true →
      ((builtin.superClass.bind find?).all fun superClass =>
        superClass.superClass.isNone && superClass.methods.all fun method =>
          method.1 = constructorName || builtin.methods.contains method) = true := by
    decide +kernel
  cases finds with
  | here => rfl
  | above undeclared inherited up found =>
    have here := checked builtin listed string
    rw [up] at here
    obtain ⟨last, own⟩ := (Bool.and_eq_true _ _).mp here
    cases found with
    | here declared =>
      have method := List.all_eq_true.mp own _ (List.contains_iff_mem.mp declared)
      rw [Bool.or_eq_true, decide_eq_true_eq] at method
      rcases method with same | declared
      · exact absurd same inherited
      · cases undeclared.symm.trans declared
    | above _ _ further _ =>
      rw [Extends, Option.isNone_iff_eq_none.mp last] at further
      cases further

/-- The objects of a class have all properties of the class that declares a method. -/
theorem FindsMethod.inherits (listed : builtin ∈ all)
    (finds : FindsMethod name descriptor builtin declarer) :
    Relation.ReflTransGen Inherits builtin declarer := by
  induction finds with
  | here => exact .refl
  | @above builtin superClass declarer undeclared inherited up found ih =>
    cases string : builtin.isString with
    | true =>
      cases FindsMethod.eq_of_isString listed string (.above undeclared inherited up found)
      exact .refl
    | false => exact .head ⟨string, up⟩ (ih (mem_all_of_extends up))

/-- A class needs what its super class needs. -/
theorem closure_subset_of_extends (listed : builtin ∈ all) (up : builtin.Extends superClass) :
    superClass.feature ∈ builtin.feature.closure := by
  have checked : ∀ builtin ∈ all, ((builtin.superClass.bind find?).all fun superClass =>
      builtin.feature.closure.contains superClass.feature) = true := by
    decide +kernel
  have here := checked builtin listed
  rw [up] at here
  exact List.contains_iff_mem.mp here

theorem feature_mem_closure (listed : builtin ∈ all)
    (up : Relation.ReflTransGen Inherits builtin ancestor) :
    ancestor.feature ∈ builtin.feature.closure := by
  induction up with
  | refl => exact builtin.feature.mem_closure_self
  | tail before up ih =>
    exact Feature.closure_subset ih
      (closure_subset_of_extends (mem_all_of_inherits listed before) up.2)

/-! ## Where the text defines a method -/

/-- A class and at most as many of those whose properties it has as there is fuel. -/
def lineage : (fuel : Nat) → Builtin → List Builtin
  | 0, _ => []
  | fuel + 1, builtin =>
    builtin :: if builtin.isString then []
      else (builtin.superClass.bind find?).toList.flatMap (lineage fuel)

theorem inherits_of_mem_lineage {fuel : Nat} (member : ancestor ∈ lineage fuel builtin) :
    Relation.ReflTransGen Inherits builtin ancestor := by
  induction fuel generalizing builtin with
  | zero => cases member
  | succ fuel ih =>
    rcases List.mem_cons.mp member with rfl | above
    · exact .refl
    · split at above
      · cases above
      next other =>
        obtain ⟨superClass, up, member⟩ := List.mem_flatMap.mp above
        exact .head ⟨Bool.not_eq_true _ ▸ other, Option.mem_toList.mp up⟩ (ih member)

/-- A class whose methods are not abstract takes them from a class with a text of its own. -/
theorem exists_hasText (listed : declarer ∈ all) (concrete : declarer.isInterface = false)
    (declared : declarer.declares name descriptor = true) :
    ∃ ancestor, Relation.ReflTransGen Inherits declarer ancestor ∧ ancestor.hasText = true ∧
      (name, descriptor) ∈ ancestor.methods := by
  have checked : ∀ builtin ∈ all, builtin.isInterface = false → ∀ method ∈ builtin.methods,
      ((lineage all.length builtin).any fun ancestor =>
        ancestor.hasText && ancestor.methods.contains method) = true := by
    decide +kernel
  obtain ⟨ancestor, above, here⟩ := List.any_eq_true.mp
    (checked declarer listed concrete _ (List.contains_iff_mem.mp declared))
  rw [Bool.and_eq_true, List.contains_iff_mem] at here
  exact ⟨ancestor, inherits_of_mem_lineage above, here⟩

/-- Every concrete method has a line of the right feature. -/
theorem exists_methodStart (listed : declarer ∈ all) (concrete : declarer.isInterface = false)
    (declared : declarer.declares name descriptor = true) :
    ∃ type ancestor line, MethodType.parse descriptor = .ok type ∧
      Relation.ReflTransGen Inherits declarer ancestor ∧
      (ancestor.methodFeature name descriptor, line) ∈ functionTexts ++ classTexts ∧
      ancestor.methodStart name type <+: line.toList := by
  obtain ⟨ancestor, up, text, method⟩ := exists_hasText listed concrete declared
  obtain ⟨spellings, more, spelled, spelled', checked⟩ := exists_spellings
  have here := List.all_eq_true.mp (List.all_eq_true.mp checked.methods ancestor
    (List.mem_filter.mpr ⟨mem_all_of_inherits listed up, text⟩)) _ method
  dsimp only at here
  split at here
  · cases here
  next type parsed =>
    obtain ⟨⟨feature, chars⟩, member, here⟩ := List.any_eq_true.mp here
    simp only [Bool.and_eq_true, decide_eq_true_eq, List.isPrefixOf_iff_prefix] at here
    obtain ⟨text, listed, same⟩ := exists_of_forall₂_right (List.rel_append spelled spelled') member
    cases same with
    | line =>
      refine ⟨type, ancestor, String.ofList chars, parsed, up, here.1 ▸ listed, ?_⟩
      rw [String.toList_ofList]
      exact here.2

end Builtin

/-- All classes but that of strings have their own names in the script. -/
theorem Builtin.scriptName_eq_iff {builtin : Builtin} :
    builtin.scriptName = (Script.classIdentifier builtin.name).toList ↔
      builtin.isString = false := by
  rw [Builtin.scriptName, Builtin.isString, Script.classIdentifier, String.toList_ofList]
  split
  next string =>
    rw [string]
    decide
  next other => simp [other]

/-- Lines answer the calls of a method of a class if one of them defines the property that is read,
for the class or for one whose properties its objects have as well.  An exact call reads the
property of the class itself, by its name. -/
def Builtin.Answers (builtin : Builtin) (isExact : Bool) (lines : List String) (name : String)
    (type : MethodType) : Prop :=
  (isExact = true → builtin.scriptName = (Script.classIdentifier builtin.name).toList) ∧
    ∃ ancestor, Relation.ReflTransGen Builtin.Inherits builtin ancestor ∧
      ∃ line ∈ lines, ancestor.methodStart name type <+: line.toList

/-! ## The class of an object -/

section ClassOf

variable {builtin : Builtin} {type : MethodType} {line : String}

theorem point_notMem_scriptName (listed : builtin ∈ Builtin.all) : '.' ∉ builtin.scriptName := by
  cases string : builtin.isString with
  | true =>
    rw [Builtin.scriptName, if_pos (of_decide_eq_true string)]
    decide
  | false =>
    rw [Builtin.scriptName_eq_iff.mpr string]
    exact Builtin.notMem_classIdentifier '.' (by decide) (List.mem_map_of_mem listed)

/-- Only what follows the first point of a line matters. -/
theorem givesClass_append {front : List Char} (missing : '.' ∉ front) (rest : List Char) :
    givesClass (front ++ rest) = givesClass rest := by
  have before : ∀ char ∈ front, decide (char ≠ '.') = true := by
    intro char member
    exact decide_eq_true fun same => missing (same ▸ member)
  rw [givesClass, List.dropWhile_append_of_pos before, givesClass]

/-- A line that defines the method that tells the class of an object looks like that. -/
theorem givesClass_of_methodStart (listed : builtin ∈ Builtin.all) {method : MemberRef}
    (asks : isClassOf method = true) (parsed : MethodType.parse method.descriptor = .ok type)
    {chars : List Char} (begins : builtin.methodStart method.name type <+: chars) :
    givesClass chars = true := by
  simp only [isClassOf, Bool.and_eq_true, decide_eq_true_eq] at asks
  rw [asks.2] at parsed
  rw [asks.1] at begins
  have known : MethodType.parse classOfDescriptor = .ok ⟨[], some (.object ⟨"java/lang/Class"⟩)⟩ :=
    ok_of_toOption (by decide +kernel)
  cases known.symm.trans parsed
  obtain ⟨rest, rfl⟩ := begins
  have word : Script.methodChars "getClass" ⟨[], some (.object ⟨"java/lang/Class"⟩)⟩ =
      "getClass".toList ++ "Ljava_lang_Class".toList := by
    decide +kernel
  simp only [Builtin.methodStart, word, List.append_assoc]
  rw [givesClass_append (point_notMem_scriptName listed)]
  rfl

theorem givesClass_of_notMem {chars : List Char} (missing : '.' ∉ chars) :
    givesClass chars = false := by
  rw [← List.append_nil chars, givesClass_append missing]
  rfl

/-- Only the class literals give classes this method. -/
theorem givesClass_of_mem_texts {feature : Feature}
    (listed : (feature, line) ∈ functionTexts ++ classTexts) (other : feature ≠ .classLiterals) :
    givesClass line.toList = false := by
  obtain ⟨spellings, more, spelled, spelled', checked⟩ := exists_spellings
  obtain ⟨⟨feature, chars⟩, member, same⟩ :=
    exists_of_forall₂_left (List.rel_append spelled spelled') listed
  cases same with
  | line =>
    rw [String.toList_ofList]
    have here := List.all_eq_true.mp checked.classes _ member
    simpa [other] using here

/-- The lines of builtin classes do not give it to any class. -/
theorem givesClass_of_mem_builtin_lines (listed : builtin ∈ Builtin.all)
    (other : builtin.feature ≠ .classLiterals) (written : line ∈ builtin.lines) :
    givesClass line.toList = false := by
  rcases Builtin.mem_classTexts_or_isFrame listed written with own | frame
  · exact givesClass_of_mem_texts (List.mem_append_right _ own) other
  cases frame with
  | opening known =>
    have ctor := Builtin.notMem_classIdentifier '.' (by decide) known
    exact givesClass_of_notMem (by simp [ctor])
  | parent known =>
    have parent := Builtin.notMem_classIdentifier '.' (by decide) known
    rw [String.toList_append, String.toList_append, givesClass_append (by simp [parent])]
    decide
  | closing => decide
  | registration =>
    rw [String.toList_append]
    rfl

/-- Without the class literals, no line defines the method that tells the class of an object. -/
theorem givesClass_of_mem_lines {set : FeatureSet} {provided translated : ClassName → Bool}
    (missing : .classLiterals ∉ set.members) (written : line ∈ set.lines provided translated) :
    givesClass line.toList = false := by
  obtain ⟨feature, member, written⟩ := List.mem_flatMap.mp written
  have other : feature ≠ .classLiterals := fun same => missing (same ▸ member)
  rw [Feature.written, List.cons_append, List.mem_cons, List.mem_append] at written
  rcases written with rfl | own | inClass
  · cases feature <;> decide
  · exact givesClass_of_mem_texts (List.mem_append_left _ (Feature.mem_functionTexts.mpr own)) other
  · obtain ⟨builtin, included, inside⟩ := List.mem_flatMap.mp inClass
    obtain ⟨listed, chosen⟩ := List.mem_filter.mp included
    rw [Bool.and_eq_true, decide_eq_true_eq] at chosen
    exact givesClass_of_mem_builtin_lines listed (chosen.1 ▸ other) inside

end ClassOf

/-! ## Sets of features -/

namespace FeatureSet

variable {features : List Feature} {feature : Feature} {set : FeatureSet} {line : String}
  {provided translated : ClassName → Bool}

theorem closure_subset_members (member : feature ∈ (empty.insertAll features).members) :
    feature.closure ⊆ (empty.insertAll features).members := by
  obtain ⟨listed, known, depends⟩ := mem_insertAll.mp member
  intro other needed
  exact mem_insertAll.mpr ⟨listed, known, Feature.closure_subset depends needed⟩

/-- If all builtin classes are left to the library, the whole text of a feature is written. -/
theorem mem_lines_of_mem_texts (left : ∀ builtin ∈ Builtin.all, provided builtin.name = true)
    (member : feature ∈ set.members) (listed : (feature, line) ∈ functionTexts ++ classTexts) :
    line ∈ set.lines provided translated := by
  refine List.mem_flatMap.mpr ⟨feature, member, ?_⟩
  rcases List.mem_append.mp listed with function | inClass
  · exact List.mem_append_left _ (.tail _ (Feature.mem_functionTexts.mp function))
  · obtain ⟨builtin, known, inside⟩ := List.mem_flatMap.mp inClass
    refine List.mem_append_right _ ?_
    split at inside
    next lines same =>
      obtain ⟨line, here, same'⟩ := List.mem_map.mp inside
      cases same'
      refine List.mem_flatMap.mpr ⟨builtin, List.mem_filter.mpr ⟨known, ?_⟩, ?_⟩
      · simp [Builtin.isIncluded, left builtin known]
      · rw [Builtin.lines, same]
        exact here
    · cases inside
    · cases inside

/-- With the feature of a class, a set of features answers all calls of its concrete methods.  Only
the method that tells the class of an object needs the class literals as well, and an exact call of
a method of strings finds nothing, since the script has no class of that name. -/
theorem answers_iff {builtin declarer : Builtin} {method : MemberRef} {isExact : Bool}
    (left : ∀ builtin ∈ Builtin.all, provided builtin.name = true) (listed : builtin ∈ Builtin.all)
    (member : builtin.feature ∈ (empty.insertAll features).members)
    (finds : Builtin.FindsMethod method.name method.descriptor builtin declarer)
    (concrete : declarer.isInterface = false) :
    ∃ type, MethodType.parse method.descriptor = .ok type ∧
      (builtin.Answers isExact ((empty.insertAll features).lines provided translated) method.name
          type ↔
        (isExact = true → builtin.isString = false) ∧
          (isClassOf method = true → .classLiterals ∈ (empty.insertAll features).members)) := by
  have inherits := finds.inherits listed
  obtain ⟨type, ancestor, line, parsed, up, text, begins⟩ := Builtin.exists_methodStart
    (Builtin.mem_all_of_inherits listed inherits) concrete finds.declares
  refine ⟨type, parsed, ?_⟩
  rw [Builtin.Answers, Builtin.scriptName_eq_iff]
  refine and_congr_right fun _ => ⟨?_, fun literals => ?_⟩
  · rintro ⟨ancestor, up, line, written, begins⟩ asks
    by_contra missing
    have known := Builtin.mem_all_of_inherits listed up
    have gives := givesClass_of_methodStart known asks parsed begins
    cases gives.symm.trans (givesClass_of_mem_lines missing written)
  · have whole := inherits.trans up
    refine ⟨ancestor, whole, line, mem_lines_of_mem_texts left ?_ text, begins⟩
    rw [Builtin.methodFeature]
    split
    next asks => exact literals asks
    · exact closure_subset_members member (Builtin.feature_mem_closure listed whole)

end FeatureSet

end Bytescript.Support
