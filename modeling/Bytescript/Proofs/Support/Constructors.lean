import Bytescript.Proofs.Distinct
import Bytescript.Proofs.Script.Definitions
import Bytescript.Proofs.Support.Prototype

/-!
# Constructor functions of builtin classes

The text of a builtin class begins with its constructor function, which is registered then, or with
the first method of strings, which are those of the script.  Nothing else in the text of the support
library begins like one of these lines.  So the lines that begin so tell which classes are written,
and that none is written twice.
-/

set_option autoImplicit false

namespace Bytescript.Support

open Script Translation

/-- Whether a line begins like the constructor function of a class, its registration, or the methods
of strings. -/
def isStart (line : String) : Bool := startsClass line.toList

theorem isStart_of_startsFunction {line : String} (starts : startsFunction line = true) :
    isStart line = true := by
  rw [isStart, startsClass, Bool.or_eq_true, Bool.or_eq_true]
  exact .inl (.inl starts)

theorem isStart_of_isRegistration {line : String} (registers : isRegistration line = true) :
    isStart line = true := by
  rw [isStart, startsClass, Bool.or_eq_true, Bool.or_eq_true]
  exact .inl (.inr registers)

/-- A line that begins with another character. -/
theorem isStart_of_head? {line : String} (symbol : Char)
    (head : line.toList.head? = some symbol) (function : symbol ≠ 'f') (registration : symbol ≠ '$')
    (string : symbol ≠ 'S') : isStart line = false := by
  have other : "String.prototype.lengthI ".toList.isPrefixOf line.toList = false :=
    isPrefixOf_of_head? head string
  rw [isStart, startsClass, other, Bool.or_false]
  exact (Bool.or_eq_false_iff).mpr
    ⟨startsFunction_of_head? symbol head function, isRegistration_of_head? symbol head registration⟩

/-- No function of the library begins so. -/
theorem Feature.isStart_of_mem_lines {feature : Feature} {line : String}
    (listed : line ∈ feature.lines) : isStart line = false := by
  obtain ⟨spellings, _, spelled, _, checked⟩ := exists_spellings
  obtain ⟨⟨other, chars⟩, member, same⟩ :=
    exists_of_forall₂_left spelled (mem_functionTexts.mpr listed)
  cases same with
  | line =>
    rw [isStart, String.toList_ofList]
    simpa using List.all_eq_true.mp checked.starts _ member

/-! ## Classes -/

namespace Builtin

variable {builtin other : Builtin}

/-- The line that the text of strings begins with. -/
def stringStart : String := "String.prototype.lengthI = function() \x7b"

/-- The line that the text of a class begins with. -/
def firstLine (builtin : Builtin) : String :=
  if builtin.isString then stringStart else constructorStart builtin.name

/-- The class whose constructor function the text of a class holds.  Strings have none. -/
def constructed (builtin : Builtin) : List ClassName :=
  if builtin.isString then [] else [builtin.name]

theorem mem_constructed {name : ClassName} :
    name ∈ builtin.constructed ↔ builtin.isString = false ∧ builtin.name = name := by
  rw [constructed]
  cases builtin.isString <;> simp [eq_comm]

/-- The lines of a class that begin like none of the others: its constructor function and its
registration, unless the class is that of strings. -/
inductive Begins (builtin : Builtin) : List String → Prop where
  | string (isString : builtin.isString = true) : Begins builtin [stringStart]
  | own {registration : String} (isOwn : builtin.isString = false)
      (registers : Registers builtin.name registration) :
    Begins builtin [constructorStart builtin.name, registration]

/-- Letters and slashes need no escapes in literals. -/
theorem escapePoint_ofChar {char : Char} (plain : char.isAlpha = true ∨ char = '/') :
    escapePoint (.ofChar char) = [char] := by
  have range : (65 ≤ char.toNat ∧ char.toNat ≤ 90) ∨ (97 ≤ char.toNat ∧ char.toNat ≤ 122) ∨
      char.toNat = 47 := by
    rcases plain with letter | rfl
    · exact (range_of_isAlpha letter).imp_right .inl
    · exact .inr (.inr rfl)
  have value : (CodePoint.ofChar char).val = char.toNat := rfl
  rw [escapePoint, value, if_neg (by omega), if_neg (by omega), if_neg (by omega),
    if_neg (by omega), if_neg (by omega), if_pos (by omega), Char.ofNat_toNat]

theorem textLiteral_name (listed : builtin ∈ all) :
    textLiteral builtin.name.text = "\"" ++ builtin.name.text ++ "\"" := by
  have plain : (builtin.name.text.toList.map CodePoint.ofChar).flatMap escapePoint =
      builtin.name.text.toList := by
    rw [List.flatMap_map]
    conv_rhs => rw [← List.flatMap_singleton' builtin.name.text.toList]
    exact List.flatMap_congr fun char member =>
      escapePoint_ofChar (isAlpha_or_slash listed member)
  apply String.toList_injective
  rw [textLiteral, stringLiteral, JavaString.ofString, plain]
  simp

/-! ### Classes with a text of their own -/

/-- A text and its characters. -/
inductive SpelledAs : String → List Char → Prop where
  | intro (chars : List Char) : SpelledAs (String.ofList chars) chars

theorem filter_isStart_of_spelled {lines : List String} {spelled : List (List Char)}
    (same : List.Forall₂ SpelledAs lines spelled) :
    lines.filter isStart = (spelled.filter startsClass).map String.ofList := by
  induction same with
  | nil => rfl
  | @cons line chars lines spelled here _ ih =>
    cases here
    have starts : isStart (String.ofList chars) = startsClass chars := by
      rw [isStart, String.toList_ofList]
    rw [List.filter_cons, List.filter_cons, starts, ih]
    split <;> rfl

/-- The texts of classes, and the lines of each that begin like none of the others. -/
def textStarts : List (ClassName × List String × List String) :=
  [(.object, objectLines, ["function java_lang_Object() \x7b",
      "$vm.defineClass(java_lang_Object, \"java/lang/Object\", null, [], false);"]),
    (⟨"java/lang/String"⟩, stringLines, [stringStart]),
    (⟨"java/lang/Throwable"⟩, throwableLines, ["function java_lang_Throwable() \x7b",
      "$vm.defineClass(java_lang_Throwable, \"java/lang/Throwable\", java_lang_Object, " ++
        "[], false);"]),
    (⟨"java/lang/Class"⟩, classLines, ["function java_lang_Class() \x7b",
      "$vm.defineClass(java_lang_Class, \"java/lang/Class\", java_lang_Object, [], false);"])]

set_option maxRecDepth 100000 in
theorem exists_spelled_textStarts : ∀ text ∈ textStarts, ∃ spelled,
    List.Forall₂ SpelledAs text.2.1 spelled ∧
      (spelled.filter startsClass).map String.ofList = text.2.2 := by
  simp only [textStarts, List.forall_mem_cons, objectLines, stringLines, throwableLines, classLines]
  refine ⟨?_, ?_, ?_, ?_, fun _ none => absurd none List.not_mem_nil⟩
  all_goals
    apply Exists.intro
    refine ⟨?_, ?_⟩
    · repeat apply List.Forall₂.cons (.intro _)
      exact .nil
    · decide +kernel

theorem exists_textStarts : ∀ builtin ∈ all, ∀ lines, builtin.definition = .text lines →
    ∃ starts, (builtin.name, lines, starts) ∈ textStarts := by
  simp [all, interface, exception, textStarts]

theorem begins_of_textStarts : ∀ text ∈ textStarts, ∀ builtin : Builtin, builtin.name = text.1 →
    builtin.Begins text.2.2 := by
  have own (name : ClassName) (other : name ≠ ⟨"java/lang/String"⟩) (start registration : String)
      (starts : start = constructorStart name) (registers : Registers name registration) :
      ∀ builtin : Builtin, builtin.name = name → builtin.Begins [start, registration] := by
    rintro builtin rfl
    rw [starts]
    exact .own (decide_eq_false other) registers
  simp only [textStarts, List.forall_mem_cons]
  refine ⟨own _ (by decide) _ _ (by decide +kernel) ⟨"null, [], false);", by decide +kernel⟩,
    fun _ string => .string (decide_eq_true string),
    own _ (by decide) _ _ (by decide +kernel) ⟨"java_lang_Object, [], false);", by decide +kernel⟩,
    own _ (by decide) _ _ (by decide +kernel) ⟨"java_lang_Object, [], false);", by decide +kernel⟩,
    fun _ none => absurd none List.not_mem_nil⟩

/-! ### All classes -/

theorem isString_eq_false : ∀ builtin ∈ all, builtin.hasText = false →
    builtin.isString = false := by
  decide

/-- A constructor function whose lines begin with other signs, and its registration. -/
theorem begins_filter_isStart_frame (inside : List String) {registration : String}
    (own : builtin.isString = false) (registers : Registers builtin.name registration)
    (others : ∀ line ∈ inside, isStart line = false) :
    builtin.Begins
      ((constructorStart builtin.name :: inside ++ [registration]).filter isStart) := by
  have nothing : inside.filter isStart = [] :=
    List.filter_eq_nil_iff.mpr fun line listed => by rw [others line listed]; decide
  have constructor : isStart (constructorStart builtin.name) = true :=
    isStart_of_startsFunction startsFunction_constructorStart
  have starts := isStart_of_isRegistration registers.isRegistration
  rw [List.cons_append, List.filter_cons_of_pos constructor, List.filter_append, nothing,
    List.nil_append, List.filter_cons_of_pos starts, List.filter_nil]
  exact .own own registers

theorem begins_filter_isStart (listed : builtin ∈ all) :
    builtin.Begins (builtin.lines.filter isStart) := by
  have closing : isStart "\x7d" = false :=
    isStart_of_head? '}' rfl (by decide) (by decide) (by decide)
  rw [lines]
  split
  next lines same =>
    obtain ⟨starts, member⟩ := exists_textStarts builtin listed lines same
    obtain ⟨spelled, found, starts⟩ := exists_spelled_textStarts _ member
    rw [filter_isStart_of_spelled found, starts]
    exact begins_of_textStarts _ member builtin rfl
  next same =>
    have own : builtin.isString = false := isString_eq_false _ listed (by rw [hasText, same])
    refine begins_filter_isStart_frame ["\x7d"] own ⟨"null, [], true);", ?_⟩
      (List.forall_mem_singleton.mpr closing)
    rw [textLiteral_name listed]
    apply String.toList_injective
    simp
  next same =>
    have own : builtin.isString = false := isString_eq_false _ listed (by rw [hasText, same])
    generalize classIdentifier (builtin.superClass.getD _) = parent
    have call : isStart ("\t" ++ parent ++ ".call(this);") = false :=
      isStart_of_head? '\t' (by simp) (by decide) (by decide) (by decide)
    refine begins_filter_isStart_frame ["\t" ++ parent ++ ".call(this);", "\x7d"] own
      ⟨parent ++ ", [], false);", ?_⟩
      (List.forall_mem_cons.mpr ⟨call, List.forall_mem_singleton.mpr closing⟩)
    rw [textLiteral_name listed]
    apply String.toList_injective
    simp

/-! ## Names -/

theorem nodup_names : names.Nodup := by
  decide +kernel

theorem eq_of_name_eq (listed : builtin ∈ all) (listed' : other ∈ all)
    (same : builtin.name = other.name) : builtin = other :=
  List.inj_on_of_nodup_map nodup_names listed listed' same

/-- No other class has the name of a builtin class in the script. -/
theorem eq_name_of_classIdentifier_eq {name : ClassName} (listed : builtin ∈ all)
    (same : classIdentifier name = classIdentifier builtin.name) : name = builtin.name := by
  have texts := escapeName_inj_of_letters (fun _ => isAlpha_or_slash listed)
    (String.ofList_injective same)
  exact congrArg ClassName.mk (String.toList_injective texts)

set_option maxRecDepth 10000 in
/-- The names of builtin classes have several parts and end in small letters. -/
theorem exists_spelled_names : ∃ spelled,
    List.Forall₂ SpelledAs (all.map fun builtin => builtin.name.text) spelled ∧
      ∀ chars ∈ spelled, '_' ∈ escapeName chars ∧ EndsSmall (escapeName chars) := by
  simp only [all, interface, exception, ClassName.object, List.map_cons, List.map_nil]
  apply Exists.intro
  refine ⟨?_, ?_⟩
  · repeat apply List.Forall₂.cons (.intro _)
    exact .nil
  · decide +kernel

theorem spelling_classIdentifier (listed : builtin ∈ all) :
    '_' ∈ (classIdentifier builtin.name).toList ∧
      EndsSmall (classIdentifier builtin.name).toList := by
  obtain ⟨spelled, same, holds⟩ := exists_spelled_names
  obtain ⟨chars, member, here⟩ := exists_of_forall₂_left same (List.mem_map_of_mem listed)
  rw [classIdentifier, String.toList_ofList]
  generalize builtin.name.text = text at here
  cases here
  rw [String.toList_ofList]
  exact holds chars member

theorem stringStart_ne_constructorStart (name : ClassName) :
    stringStart ≠ constructorStart name := by
  intro same
  have heads := congrArg (fun line => line.toList.head?) same
  simp [stringStart, constructorStart] at heads

theorem eq_of_firstLine_eq (listed : builtin ∈ all) (listed' : other ∈ all)
    (same : builtin.firstLine = other.firstLine) : builtin = other := by
  refine eq_of_name_eq listed listed' ?_
  rw [firstLine, firstLine] at same
  split at same <;> split at same
  next string string' =>
    exact (of_decide_eq_true string).trans (of_decide_eq_true string').symm
  next => exact absurd same (stringStart_ne_constructorStart _)
  next => exact absurd same.symm (stringStart_ne_constructorStart _)
  next => exact eq_name_of_classIdentifier_eq listed' (constructorStart_inj same)

/-! ## Lines of a class -/

/-- Whether a line begins the text of a class. -/
def isFirst (line : String) : Bool := isStart line && !isRegistration line

theorem isStart_stringStart : isStart stringStart = true := by
  have begins : "String.prototype.lengthI ".toList.isPrefixOf stringStart.toList = true := by
    decide +kernel
  rw [isStart, startsClass, begins, Bool.or_true]

theorem startsFunction_stringStart : startsFunction stringStart = false :=
  startsFunction_of_head? 'S' (by simp [stringStart]) (by decide)

theorem isRegistration_stringStart : isRegistration stringStart = false :=
  isRegistration_of_head? 'S' (by simp [stringStart]) (by decide)

section Begins

variable {starts : List String}

theorem Begins.filter_isFirst (begins : builtin.Begins starts) :
    starts.filter isFirst = [builtin.firstLine] := by
  cases begins with
  | string isString =>
    have first : isFirst stringStart = true := by
      rw [isFirst, isStart_stringStart, isRegistration_stringStart]
      rfl
    rw [List.filter_cons_of_pos first, firstLine, if_pos isString, List.filter_nil]
  | @own registration isOwn registers =>
    have first : isFirst (constructorStart builtin.name) = true := by
      rw [isFirst, isStart_of_startsFunction startsFunction_constructorStart,
        isRegistration_constructorStart]
      rfl
    have later : isFirst registration = false := by
      rw [isFirst, registers.isRegistration, Bool.not_true, Bool.and_false]
    rw [List.filter_cons_of_pos first, List.filter_cons_of_neg (by rw [later]; decide), firstLine,
      isOwn, List.filter_nil]
    rfl

theorem Begins.filter_startsFunction (begins : builtin.Begins starts) :
    starts.filter startsFunction = builtin.constructed.map constructorStart := by
  cases begins with
  | string isString => simp [constructed, isString, startsFunction_stringStart]
  | own isOwn registers =>
    simp [constructed, isOwn, startsFunction_constructorStart, registers.startsFunction]

theorem Begins.filter_isRegistration (begins : builtin.Begins starts) :
    List.Forall₂ Registers builtin.constructed (starts.filter isRegistration) := by
  cases begins with
  | string isString => simp [constructed, isString, isRegistration_stringStart]
  | own isOwn registers =>
    simp [constructed, isOwn, isRegistration_constructorStart, registers.isRegistration, registers]

end Begins

/-- Lines that begin so are found among those that begin like no others. -/
theorem filter_isStart_filter {holds : String → Bool}
    (starts : ∀ line, holds line = true → isStart line = true) (lines : List String) :
    lines.filter holds = (lines.filter isStart).filter holds := by
  rw [List.filter_filter]
  refine List.filter_congr fun line _ => ?_
  cases holding : holds line with
  | false => rfl
  | true => rw [starts line holding, Bool.and_self]

theorem isStart_of_isFirst {line : String} (first : isFirst line = true) : isStart line = true :=
  ((Bool.and_eq_true _ _).mp first).1

theorem filter_isFirst_lines (listed : builtin ∈ all) :
    builtin.lines.filter isFirst = [builtin.firstLine] := by
  rw [filter_isStart_filter fun _ => isStart_of_isFirst]
  exact (begins_filter_isStart listed).filter_isFirst

theorem firstLine_mem_lines (listed : builtin ∈ all) : builtin.firstLine ∈ builtin.lines :=
  List.mem_of_mem_filter (filter_isFirst_lines listed ▸ List.mem_singleton_self _)

theorem isFirst_firstLine (listed : builtin ∈ all) : isFirst builtin.firstLine = true :=
  (List.mem_filter.mp (filter_isFirst_lines listed ▸ List.mem_singleton_self _)).2

theorem filter_startsFunction_lines (listed : builtin ∈ all) :
    builtin.lines.filter startsFunction = builtin.constructed.map constructorStart := by
  rw [filter_isStart_filter fun _ => isStart_of_startsFunction]
  exact (begins_filter_isStart listed).filter_startsFunction

theorem filter_isRegistration_lines (listed : builtin ∈ all) :
    List.Forall₂ Registers builtin.constructed
      (builtin.lines.filter isRegistration) := by
  rw [filter_isStart_filter fun _ => isStart_of_isRegistration]
  exact (begins_filter_isStart listed).filter_isRegistration

end Builtin

/-! ## Sets of features -/

/-- Only classes have lines that begin so. -/
theorem Feature.filter_written {holds : String → Bool}
    (starts : ∀ line, holds line = true → isStart line = true) (feature : Feature)
    (provided translated : ClassName → Bool) :
    (feature.written provided translated).filter holds =
      (feature.builtins provided translated).flatMap fun builtin => builtin.lines.filter holds := by
  have none {line : String} (other : isStart line = false) : ¬ holds line = true :=
    fun holding => absurd (starts line holding) (by rw [other]; decide)
  have heading : isStart ("// " ++ feature.heading) = false :=
    isStart_of_head? '/' (by simp) (by decide) (by decide) (by decide)
  have functions : feature.lines.filter holds = [] :=
    List.filter_eq_nil_iff.mpr fun line listed => none (isStart_of_mem_lines listed)
  rw [Feature.written, List.cons_append, List.filter_cons_of_neg (none heading),
    List.filter_append, functions, List.nil_append, List.filter_flatMap]

namespace FeatureSet

variable {set : FeatureSet} {features : List Feature} {provided translated : ClassName → Bool}
  {builtin : Builtin}

/-- The builtin classes that are written for a set of features. -/
def builtins (set : FeatureSet) (provided translated : ClassName → Bool) : List Builtin :=
  set.members.flatMap fun feature => feature.builtins provided translated

theorem mem_builtins : builtin ∈ set.builtins provided translated ↔
    builtin ∈ Builtin.all ∧ builtin.feature ∈ set.members ∧
      builtin.isIncluded provided translated = true := by
  simp only [builtins, Feature.builtins, List.mem_flatMap, List.mem_filter, Bool.and_eq_true,
    decide_eq_true_eq]
  constructor
  · rintro ⟨_, member, listed, rfl, included⟩
    exact ⟨listed, member, included⟩
  · rintro ⟨listed, member, included⟩
    exact ⟨_, member, listed, rfl, included⟩

theorem nodup_members : (empty.insertAll features).members.Nodup := by
  have folded (set : FeatureSet) (distinct : set.members.Nodup) :
      (features.foldl insert set).members.Nodup := by
    induction features generalizing set with
    | nil => exact distinct
    | cons feature rest ih =>
      have all : Feature.all.Nodup := by decide
      exact ih _ (all.sublist List.filter_sublist)
  exact folded empty List.nodup_nil

/-- No class is written twice, since each belongs to one feature. -/
theorem nodup_builtins : ((empty.insertAll features).builtins provided translated).Nodup := by
  refine List.nodup_flatMap.mpr ⟨fun feature _ => ?_, nodup_members.imp fun apart => ?_⟩
  · exact (List.Nodup.of_map _ Builtin.nodup_names).filter _
  · intro builtin here there
    have feature {feature : Feature} (written : builtin ∈ feature.builtins provided translated) :
        builtin.feature = feature :=
      of_decide_eq_true ((Bool.and_eq_true _ _).mp (List.mem_filter.mp written).2).1
    exact apart ((feature here).symm.trans (feature there))

theorem nodup_map_builtins {α : Type} {key : Builtin → α}
    (injective : ∀ builtin ∈ Builtin.all, ∀ other ∈ Builtin.all, key builtin = key other →
      builtin = other) :
    (((empty.insertAll features).builtins provided translated).map key).Nodup :=
  nodup_builtins.map_on fun builtin member other member' =>
    injective builtin (mem_builtins.mp member).1 other (mem_builtins.mp member').1

theorem filter_lines {holds : String → Bool}
    (starts : ∀ line, holds line = true → isStart line = true) :
    (set.lines provided translated).filter holds =
      (set.builtins provided translated).flatMap fun builtin => builtin.lines.filter holds := by
  rw [lines, builtins, List.filter_flatMap, List.flatMap_assoc]
  exact List.flatMap_congr fun feature _ => feature.filter_written starts provided translated

/-- The classes whose constructor functions are written for a set of features. -/
def constructed (set : FeatureSet) (provided translated : ClassName → Bool) : List ClassName :=
  (set.builtins provided translated).flatMap Builtin.constructed

theorem mem_constructed {name : ClassName} : name ∈ set.constructed provided translated ↔
    ∃ builtin ∈ set.builtins provided translated,
      builtin.isString = false ∧ builtin.name = name := by
  simp only [constructed, List.mem_flatMap, Builtin.mem_constructed]

theorem nodup_constructed :
    ((empty.insertAll features).constructed provided translated).Nodup := by
  have names : (((empty.insertAll features).builtins provided translated).map
      Builtin.name).Nodup :=
    nodup_map_builtins fun _ listed _ listed' => Builtin.eq_of_name_eq listed listed'
  refine List.nodup_flatMap.mpr ⟨fun builtin _ => ?_, (List.pairwise_map.mp names).imp ?_⟩
  · rw [Builtin.constructed]
    split
    · exact List.nodup_nil
    · exact List.nodup_singleton _
  · intro builtin other apart name here there
    have same := (Builtin.mem_constructed.mp here).2.trans (Builtin.mem_constructed.mp there).2.symm
    exact apart same

/-- **The functions with names of their own in the text are the constructor functions.** -/
theorem filter_startsFunction_lines :
    (set.lines provided translated).filter startsFunction =
      (set.constructed provided translated).map constructorStart := by
  rw [filter_lines fun _ => isStart_of_startsFunction, constructed, List.map_flatMap]
  exact List.flatMap_congr fun builtin written =>
    Builtin.filter_startsFunction_lines (mem_builtins.mp written).1

/-- **The classes that the text registers are those of the constructor functions.** -/
theorem filter_isRegistration_lines :
    List.Forall₂ Registers (set.constructed provided translated)
      ((set.lines provided translated).filter isRegistration) := by
  rw [filter_lines fun _ => isStart_of_isRegistration, constructed]
  have each : List.Forall₂ (fun one other : Builtin =>
      List.Forall₂ Registers one.constructed (other.lines.filter isRegistration))
      (set.builtins provided translated) (set.builtins provided translated) :=
    List.forall₂_same.mpr fun _ written =>
      Builtin.filter_isRegistration_lines (mem_builtins.mp written).1
  exact List.rel_flatten (List.forall₂_map_left_iff.mpr (List.forall₂_map_right_iff.mpr each))

theorem lines_infix_lines (written : builtin ∈ set.builtins provided translated) :
    builtin.lines <:+: set.lines provided translated := by
  obtain ⟨feature, member, inside⟩ := List.mem_flatMap.mp written
  have inFeature : builtin.lines <:+: feature.written provided translated :=
    (List.infix_of_mem_flatten (List.mem_map_of_mem inside)).trans (List.suffix_append _ _).isInfix
  exact inFeature.trans (List.infix_of_mem_flatten (List.mem_map_of_mem member))

/-- **The text of a class is written once.** -/
theorem existsUnique_split
    (written : builtin ∈ (empty.insertAll features).builtins provided translated) :
    ∃! split : List String × List String,
      (empty.insertAll features).lines provided translated =
        split.1 ++ builtin.lines ++ split.2 := by
  have listed := (mem_builtins.mp written).1
  have firsts : ((empty.insertAll features).lines provided translated).filter Builtin.isFirst =
      ((empty.insertAll features).builtins provided translated).map Builtin.firstLine := by
    rw [filter_lines fun _ => Builtin.isStart_of_isFirst, List.map_eq_flatMap]
    exact List.flatMap_congr fun builtin written =>
      Builtin.filter_isFirst_lines (mem_builtins.mp written).1
  refine existsUnique_append (lines_infix_lines written) (Builtin.firstLine_mem_lines listed) ?_
  rw [← List.count_filter (Builtin.isFirst_firstLine listed), firsts]
  refine List.count_eq_one_of_mem (nodup_map_builtins ?_) (List.mem_map_of_mem written)
  exact fun builtin listed other listed' => Builtin.eq_of_firstLine_eq listed listed'

end FeatureSet

end Bytescript.Support
