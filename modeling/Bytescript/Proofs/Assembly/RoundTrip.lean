import Bytescript.Proofs.Assembly.Attribute
import Bytescript.Proofs.Assembly.Pool
import Bytescript.Proofs.ClassFile.Truncation
import Mathlib.Data.Nat.Bitwise

/-!
# Classes that are read back

A stored class describes the class that its indices, its flags and its attributes stand for.  The
file that it is written to is read back as exactly that class, with everything in the same order,
provided that all counts fit into the bytes that are there for them.
-/

set_option autoImplicit false

namespace Bytescript.Assembly

open Binary Reader AttributeMeaning

/-! ## Words of flags -/

/-- The access of a class has the flags of a word, by their masks. -/
structure ClassHasFlags (access : ClassAccess) (flags : Nat) : Prop where
  isPublic : access.isPublic = true ↔ flags &&& 0x0001 ≠ 0
  isFinal : access.isFinal = true ↔ flags &&& 0x0010 ≠ 0
  isInterface : access.isInterface = true ↔ flags &&& 0x0200 ≠ 0
  isAbstract : access.isAbstract = true ↔ flags &&& 0x0400 ≠ 0

/-- The access of a field has the flags of a word, by their masks. -/
structure FieldHasFlags (access : FieldAccess) (flags : Nat) : Prop where
  isPublic : access.isPublic = true ↔ flags &&& 0x0001 ≠ 0
  isPrivate : access.isPrivate = true ↔ flags &&& 0x0002 ≠ 0
  isStatic : access.isStatic = true ↔ flags &&& 0x0008 ≠ 0
  isFinal : access.isFinal = true ↔ flags &&& 0x0010 ≠ 0

/-- The access of a method has the flags of a word, by their masks. -/
structure MethodHasFlags (access : MethodAccess) (flags : Nat) : Prop where
  isPublic : access.isPublic = true ↔ flags &&& 0x0001 ≠ 0
  isPrivate : access.isPrivate = true ↔ flags &&& 0x0002 ≠ 0
  isStatic : access.isStatic = true ↔ flags &&& 0x0008 ≠ 0
  isFinal : access.isFinal = true ↔ flags &&& 0x0010 ≠ 0
  isSynchronized : access.isSynchronized = true ↔ flags &&& 0x0020 ≠ 0
  isNative : access.isNative = true ↔ flags &&& 0x0100 ≠ 0
  isAbstract : access.isAbstract = true ↔ flags &&& 0x0400 ≠ 0

/-- A mask of one bit tells what the bit is. -/
theorem eq_hasFlag_iff {value : Bool} (flags bit : Nat) :
    (value = true ↔ flags &&& 2 ^ bit ≠ 0) ↔ value = hasFlag flags bit := by
  rw [hasFlag, Nat.and_two_pow]
  cases value <;> cases flags.testBit bit <;> simp

/-- The flags of a word determine the access. -/
theorem classHasFlags_iff {access : ClassAccess} {flags : Nat} :
    ClassHasFlags access flags ↔ access = .ofFlags flags := by
  constructor
  · intro has
    exact ClassAccess.mk.injEq .. ▸ ⟨(eq_hasFlag_iff flags 0).mp has.isPublic,
      (eq_hasFlag_iff flags 4).mp has.isFinal, (eq_hasFlag_iff flags 9).mp has.isInterface,
      (eq_hasFlag_iff flags 10).mp has.isAbstract⟩
  · rintro rfl
    exact ⟨(eq_hasFlag_iff flags 0).mpr rfl, (eq_hasFlag_iff flags 4).mpr rfl,
      (eq_hasFlag_iff flags 9).mpr rfl, (eq_hasFlag_iff flags 10).mpr rfl⟩

theorem fieldHasFlags_iff {access : FieldAccess} {flags : Nat} :
    FieldHasFlags access flags ↔ access = .ofFlags flags := by
  constructor
  · intro has
    exact FieldAccess.mk.injEq .. ▸ ⟨(eq_hasFlag_iff flags 0).mp has.isPublic,
      (eq_hasFlag_iff flags 1).mp has.isPrivate, (eq_hasFlag_iff flags 3).mp has.isStatic,
      (eq_hasFlag_iff flags 4).mp has.isFinal⟩
  · rintro rfl
    exact ⟨(eq_hasFlag_iff flags 0).mpr rfl, (eq_hasFlag_iff flags 1).mpr rfl,
      (eq_hasFlag_iff flags 3).mpr rfl, (eq_hasFlag_iff flags 4).mpr rfl⟩

theorem methodHasFlags_iff {access : MethodAccess} {flags : Nat} :
    MethodHasFlags access flags ↔ access = .ofFlags flags := by
  constructor
  · intro has
    exact MethodAccess.mk.injEq .. ▸ ⟨(eq_hasFlag_iff flags 0).mp has.isPublic,
      (eq_hasFlag_iff flags 1).mp has.isPrivate, (eq_hasFlag_iff flags 3).mp has.isStatic,
      (eq_hasFlag_iff flags 4).mp has.isFinal, (eq_hasFlag_iff flags 5).mp has.isSynchronized,
      (eq_hasFlag_iff flags 8).mp has.isNative, (eq_hasFlag_iff flags 10).mp has.isAbstract⟩
  · rintro rfl
    exact ⟨(eq_hasFlag_iff flags 0).mpr rfl, (eq_hasFlag_iff flags 1).mpr rfl,
      (eq_hasFlag_iff flags 3).mpr rfl, (eq_hasFlag_iff flags 4).mpr rfl,
      (eq_hasFlag_iff flags 5).mpr rfl, (eq_hasFlag_iff flags 8).mpr rfl,
      (eq_hasFlag_iff flags 10).mpr rfl⟩

/-! ## What members and classes mean -/

/-- What a stored field means. -/
structure StoredMember.MeansField (pool : ConstantPool) (stored : StoredMember) (field : Field) :
    Prop where
  flags : stored.flags < 0x10000
  access : FieldHasFlags field.access stored.flags
  name : pool.HasText stored.name field.name
  descriptor : pool.HasText stored.descriptor field.descriptor
  attributes : ∃ meanings, TableMeans pool fieldLevel stored.attributes meanings ∧
    field.constant = constantIn meanings ∧ field.annotations = annotationsIn meanings

/-- What a stored method means. -/
structure StoredMember.MeansMethod (pool : ConstantPool) (stored : StoredMember)
    (method : Method) : Prop where
  flags : stored.flags < 0x10000
  access : MethodHasFlags method.access stored.flags
  name : pool.HasText stored.name method.name
  descriptor : pool.HasText stored.descriptor method.descriptor
  attributes : ∃ meanings, TableMeans pool methodLevel stored.attributes meanings ∧
    method.code = codeIn meanings ∧ method.exceptions = exceptionsIn meanings ∧
    method.annotations = annotationsIn meanings

/-- What a stored class means. -/
structure StoredClass.Means (stored : StoredClass) (file : ClassFile) : Prop where
  version : file.version = stored.version
  minor : stored.version.minor < 0x10000
  major : 45 ≤ stored.version.major ∧ stored.version.major ≤ 69
  pool : stored.pool.Holds file.pool
  flags : stored.flags < 0x10000
  access : ClassHasFlags file.access stored.flags
  name : file.pool.HasClass stored.thisClass file.name
  superClass : file.pool.HasClass? stored.superClass file.superClass
  interfaces : stored.interfaces.length < 0x10000 ∧
    List.Forall₂ file.pool.HasClass stored.interfaces file.interfaces
  fields : stored.fields.length < 0x10000 ∧
    List.Forall₂ (StoredMember.MeansField file.pool) stored.fields file.fields
  methods : stored.methods.length < 0x10000 ∧
    List.Forall₂ (StoredMember.MeansMethod file.pool) stored.methods file.methods
  attributes : ∃ meanings, TableMeans file.pool classLevel stored.attributes meanings ∧
    file.sourceFile = sourceFileIn meanings ∧ file.annotations = annotationsIn meanings

/-! ## Reading declarations -/

section Declarations

variable {pool : ConstantPool} {before : List AttributeMeaning} {stored : StoredAttribute}
  {meaning : AttributeMeaning} {kind : AttributeKind}

/-- Annotations of either visibility are put into their place. -/
theorem takes_update (small : pool.count < 0x10000) (means : stored.Means pool meaning)
    (known : meaning.kind? = some kind)
    (here : kind ∈ [AttributeKind.visibleAnnotations, .invisibleAnnotations])
    (absent : kind ∉ kinds before) :
    ∃ reader, (annotationsIn before).update pool kind = some reader ∧
      reader.Takes stored.contents (annotationsIn (before ++ [meaning])) := by
  simp only [List.mem_cons, List.not_mem_nil, or_false] at here
  rcases here with rfl | rfl
  · cases means with
    | visibleAnnotations _ trees =>
      obtain ⟨few, trees, low⟩ := trees
      refine ⟨_, rfl, (takes_readTrees small few trees low).bind_nil ?_⟩
      rw [annotationsIn_snoc_visible absent]
      exact takes_pure _
    | _ => cases known
  · cases means with
    | invisibleAnnotations _ trees =>
      obtain ⟨few, trees, low⟩ := trees
      refine ⟨_, rfl, (takes_readTrees small few trees low).bind_nil ?_⟩
      rw [annotationsIn_snoc_invisible absent]
      exact takes_pure _
    | _ => cases known

/-- The annotations of a declaration are gathered beside everything else. -/
theorem gathers_annotations (small : pool.count < 0x10000) {State : Type}
    {table : AttributeTable State} {gather : List AttributeMeaning → State}
    (set : Annotations → State) (means : stored.Means pool meaning)
    (known : meaning.kind? = some kind)
    (here : kind ∈ [AttributeKind.visibleAnnotations, .invisibleAnnotations])
    (absent : kind ∉ kinds before)
    (visible : table .visibleAnnotations (gather before) =
      ((annotationsIn before).update pool .visibleAnnotations).map fun reader => do
        return set (← reader))
    (invisible : table .invisibleAnnotations (gather before) =
      ((annotationsIn before).update pool .invisibleAnnotations).map fun reader => do
        return set (← reader))
    (gathered : gather (before ++ [meaning]) = set (annotationsIn (before ++ [meaning]))) :
    ∃ reader, table kind (gather before) = some reader ∧
      reader.Takes stored.contents (gather (before ++ [meaning])) := by
  have handled : table kind (gather before) =
      ((annotationsIn before).update pool kind).map fun reader => do return set (← reader) := by
    simp only [List.mem_cons, List.not_mem_nil, or_false] at here
    rcases here with rfl | rfl
    · exact visible
    · exact invisible
  obtain ⟨reader, update, takes⟩ := takes_update small means known here absent
  rw [handled, gathered, update]
  exact ⟨_, rfl, takes.bind_nil (takes_pure _)⟩

/-- What the attributes of a field give. -/
def fieldDetails (meanings : List AttributeMeaning) : FieldDetails :=
  ⟨constantIn meanings, annotationsIn meanings⟩

theorem gathers_field (small : pool.count < 0x10000) :
    Gathers pool fieldLevel (FieldDetails.attributes pool) fieldDetails where
  unknown before := by
    simp only [fieldDetails, constantIn, annotationsIn, ofKind_snoc_unknown]
  known {before stored meaning kind} means known here absent := by
    rcases List.mem_cons.mp here with rfl | declaration
    · cases means with
      | constantValue _ has =>
        refine ⟨_, rfl, takes_following_nil (has.lt small) has.constantAt ?_⟩
        simp only [fieldDetails, constantIn, ofKind_snoc_of_absent known absent,
          annotationsIn_snoc_of_notMem known (by decide)]
        exact takes_pure _
      | _ => cases known
    · have different : kind ≠ .constantValue := by
        rintro rfl
        exact absurd declaration (by decide)
      refine gathers_annotations small ({ fieldDetails before with annotations := · }) means
        known declaration absent rfl rfl ?_
      simp only [fieldDetails, constantIn, ofKind_snoc_of_ne known different]

theorem takes_readNames (small : pool.count < 0x10000) {stored : List Nat}
    {names : List ClassName} (few : stored.length < 0x10000)
    (has : List.Forall₂ pool.HasClass stored names) :
    (Reader.counted (ClassName.read pool)).Takes (counted (stored.map word16)) names :=
  takes_counted_map few has fun _ has => takes_followed (has.lt small) has.classNameAt

/-- What the attributes of a method give. -/
def methodDetails (meanings : List AttributeMeaning) : MethodDetails :=
  ⟨codeIn meanings, exceptionsIn meanings, annotationsIn meanings⟩

theorem gathers_method (small : pool.count < 0x10000) :
    Gathers pool methodLevel (MethodDetails.attributes pool) methodDetails where
  unknown before := by
    simp only [methodDetails, codeIn, exceptionsIn, annotationsIn, ofKind_snoc_unknown]
  known {before stored meaning kind} means known here absent := by
    rcases List.mem_cons.mp here with rfl | here
    · cases means with
      | @code name _ _ _ _ _ _ _ _ sizes length few handlers fits inner belong =>
        have body := takes_readCode small sizes length few handlers ⟨fits, inner, belong⟩ name
        have different : AttributeKind.code ≠ .exceptions := by decide
        refine ⟨_, rfl, ?_⟩
        simp only [methodDetails, codeIn, ofKind_of_absent absent]
        refine body.bind_nil ?_
        simp only [exceptionsIn, ofKind_snoc_of_absent known absent,
          ofKind_snoc_of_ne known different, annotationsIn_snoc_of_notMem known (by decide)]
        exact takes_pure _
      | _ => cases known
    rcases List.mem_cons.mp here with rfl | declaration
    · cases means with
      | exceptions _ few has =>
        have different : AttributeKind.exceptions ≠ .code := by decide
        refine ⟨_, rfl, (takes_readNames small few has).bind_nil ?_⟩
        simp only [methodDetails, codeIn, exceptionsIn, ofKind_snoc_of_absent known absent,
          ofKind_snoc_of_ne known different, annotationsIn_snoc_of_notMem known (by decide)]
        exact takes_pure _
      | _ => cases known
    · have different : kind ≠ .code ∧ kind ≠ .exceptions := by
        constructor <;> rintro rfl <;> exact absurd declaration (by decide)
      refine gathers_annotations small ({ methodDetails before with annotations := · }) means
        known declaration absent rfl rfl ?_
      simp only [methodDetails, codeIn, exceptionsIn, ofKind_snoc_of_ne known different.1,
        ofKind_snoc_of_ne known different.2]

/-- What the attributes of a class give. -/
def classDetails (meanings : List AttributeMeaning) : ClassDetails :=
  ⟨sourceFileIn meanings, annotationsIn meanings⟩

theorem gathers_class (small : pool.count < 0x10000) :
    Gathers pool classLevel (ClassDetails.attributes pool) classDetails where
  unknown before := by
    simp only [classDetails, sourceFileIn, annotationsIn, ofKind_snoc_unknown]
  known {before stored meaning kind} means known here absent := by
    rcases List.mem_cons.mp here with rfl | declaration
    · cases means with
      | sourceFile _ has =>
        refine ⟨_, rfl, takes_following_nil (Nat.lt_trans has.lt_count small) has.textAt ?_⟩
        simp only [classDetails, sourceFileIn, ofKind_snoc_of_absent known absent,
          annotationsIn_snoc_of_notMem known (by decide)]
        exact takes_pure _
      | _ => cases known
    · have different : kind ≠ .sourceFile := by
        rintro rfl
        exact absurd declaration (by decide)
      refine gathers_annotations small ({ classDetails before with annotations := · }) means
        known declaration absent rfl rfl ?_
      simp only [classDetails, sourceFileIn, ofKind_snoc_of_ne known different]

end Declarations

/-! ## Reading members and classes -/

section Members

variable {pool : ConstantPool} {stored : StoredMember}

/-- A field is read back. -/
theorem takes_readField (small : pool.count < 0x10000) {field : Field}
    (means : stored.MeansField pool field) : (Field.read pool).Takes stored.bytes field := by
  obtain ⟨flags, access, name, descriptor, meanings, table, constant, annotations⟩ := means
  have whole : field = ⟨.ofFlags stored.flags, field.name, field.descriptor,
      constantIn meanings, annotationsIn meanings⟩ := by
    rw [← fieldHasFlags_iff.mp access, ← constant, ← annotations]
  rw [StoredMember.bytes, List.append_assoc, List.append_assoc, whole]
  refine (takes_u16 flags).bind ?_
  refine takes_following (Nat.lt_trans name.lt_count small) name.textAt ?_
  refine takes_following (Nat.lt_trans descriptor.lt_count small) descriptor.textAt ?_
  have details := (gathers_field small).takes_readAttributes small table
  exact (details.within _).bind_nil (takes_pure _)

/-- A method is read back. -/
theorem takes_readMethod (small : pool.count < 0x10000) {method : Method}
    (means : stored.MeansMethod pool method) : (Method.read pool).Takes stored.bytes method := by
  obtain ⟨flags, access, name, descriptor, meanings, table, code, exceptions, annotations⟩ := means
  have whole : method = ⟨.ofFlags stored.flags, method.name, method.descriptor,
      codeIn meanings, exceptionsIn meanings, annotationsIn meanings⟩ := by
    rw [← methodHasFlags_iff.mp access, ← code, ← exceptions, ← annotations]
  rw [StoredMember.bytes, List.append_assoc, List.append_assoc, whole]
  refine (takes_u16 flags).bind ?_
  refine takes_following (Nat.lt_trans name.lt_count small) name.textAt ?_
  refine takes_following (Nat.lt_trans descriptor.lt_count small) descriptor.textAt ?_
  have details := (gathers_method small).takes_readAttributes small table
  exact (details.within _).bind_nil (takes_pure _)

end Members

theorem takes_readVersion {version : Version} (minor : version.minor < 0x10000)
    (major : 45 ≤ version.major ∧ version.major ≤ 69) :
    ClassFile.readVersion.Takes
      (bigEndianBytes 4 0xcafebabe ++ (word16 version.minor ++ word16 version.major)) version := by
  refine (takes_u32 (by decide)).bind ?_
  refine (takes_u16 minor).bind ((takes_u16 (by omega)).bind_nil ?_)
  rw [if_pos ⟨major.1, major.2⟩]
  exact takes_pure _

/-- The contents of a class are read back. -/
theorem takes_readContents {stored : StoredClass} {file : ClassFile} (means : stored.Means file) :
    ClassFile.readContents.Takes stored.bytes file := by
  obtain ⟨version, minor, major, holds, flags, access, name, superClass, interfaces, fields,
    methods, meanings, table, sourceFile, annotations⟩ := means
  have small := holds.small
  have whole : file = ⟨stored.version, file.pool, .ofFlags stored.flags, file.name,
      file.superClass, file.interfaces, file.fields, file.methods, sourceFileIn meanings,
      annotationsIn meanings⟩ := by
    rw [← version, ← classHasFlags_iff.mp access, ← sourceFile, ← annotations]
  have parts : stored.bytes =
      (bigEndianBytes 4 0xcafebabe ++ (word16 stored.version.minor ++ word16 stored.version.major))
        ++ (stored.pool.bytes ++ (word16 stored.flags ++ (word16 stored.thisClass
          ++ (word16 stored.superClass ++ (counted (stored.interfaces.map word16)
            ++ (counted (stored.fields.map StoredMember.bytes)
              ++ (counted (stored.methods.map StoredMember.bytes)
                ++ StoredAttribute.tableBytes stored.attributes))))))) := by
    simp only [StoredClass.bytes, List.append_assoc]
  have fields' : (Reader.counted (Field.read file.pool)).Takes
      (counted (stored.fields.map StoredMember.bytes)) file.fields :=
    takes_counted_map fields.1 fields.2 fun _ means => takes_readField small means
  have methods' : (Reader.counted (Method.read file.pool)).Takes
      (counted (stored.methods.map StoredMember.bytes)) file.methods :=
    takes_counted_map methods.1 methods.2 fun _ means => takes_readMethod small means
  have details := (gathers_class small).takes_readAttributes small table
  rw [parts, whole]
  refine (takes_readVersion minor major).bind ((takes_readPool holds).bind ?_)
  refine (takes_u16 flags).bind ?_
  refine (takes_u16 (name.lt small)).bind (((takes_ofExcept name.classNameAt).within _).bind ?_)
  refine (takes_u16 (superClass.lt small)).bind
    (((takes_ofExcept superClass.optional).within _).bind ?_)
  refine (takes_readNames small interfaces.1 interfaces.2).bind ?_
  exact (fields'.within _).bind ((methods'.within _).bind
    ((details.within _).bind_nil (takes_pure _)))

/-- The texts of the class `Note`, in the slots from one on. -/
def noteTexts : List String :=
  ["Note", "java/lang/Object", "Mark", "count", "J", "ConstantValue", "run", "()V", "Code",
    "LineNumberTable", "Extra", "Exceptions", "Error", "SourceFile", "Note.java",
    "RuntimeVisibleAnnotations", "LTag;", "value", "LInner;"]

/-- The entries of the class `Note`. -/
def noteEntries : List (PoolEntry JavaString) :=
  noteTexts.map (fun text => .utf8 (.ofString text)) ++
    [.classInfo 1, .classInfo 2, .classInfo 3, .classInfo 13, .long 7, .integer 1]

/-- The entries as they are stored. -/
def noteStored : List StoredEntry :=
  noteTexts.map (fun text => .known (.utf8 (Text.modifiedUtf8 text))) ++
    [.known (.classInfo 1), .known (.classInfo 2), .known (.classInfo 3),
      .known (.classInfo 13), .known (.long 7), .known (.integer 1)]

/-- A constant field. -/
def storedCount : StoredMember := ⟨0x18, 4, 5, [.constantValue 6 24]⟩

/-- A body with handlers, lines and an unknown attribute. -/
def storedCode : StoredAttribute :=
  .code 9 1 0 [0x01, 0xbf] [⟨0, 1, 1, 23⟩, ⟨0, 2, 1, 0⟩]
    [.other 11 [1, 2, 3], .lineNumberTable 10 [⟨0, 7⟩, ⟨1, 8⟩]]

/-- A method that declares an exception. -/
def storedRun : StoredMember := ⟨0x09, 7, 8, [storedCode, .exceptions 12 [23]]⟩

/-- The class `Note` as it is stored, with an annotation that holds another one. -/
def note : StoredClass where
  version := ⟨52, 0⟩
  pool := ⟨noteStored.toArray, [], 27⟩
  flags := 0x21
  thisClass := 20
  superClass := 21
  interfaces := [22]
  fields := [storedCount]
  methods := [storedRun]
  attributes := [.sourceFile 14 15,
    .annotations 16 [.mk 17 [(18, .array [.constant 'I' 26, .nested (.mk 19 [])])]]]

/-- The body of the method. -/
def runCode : Code :=
  ⟨1, 0, [0x01, 0xbf], [⟨0, 1, 1, some ⟨"Error"⟩⟩, ⟨0, 2, 1, none⟩], [⟨0, 7⟩, ⟨1, 8⟩]⟩

/-- The annotation of the class. -/
def noteTag : AnnotationTree :=
  .mk "LTag;" [("value", .array [.primitive 'I' (.integer 1), .nested (.mk "LInner;" [])])]

/-- The class `Note` as it is described. -/
def noteFile : ClassFile where
  version := ⟨52, 0⟩
  pool := ⟨(none :: noteEntries.flatMap slotsOf).toArray⟩
  access := .ofFlags 0x21
  name := ⟨"Note"⟩
  superClass := some ⟨"java/lang/Object"⟩
  interfaces := [⟨"Mark"⟩]
  fields := [⟨.ofFlags 0x18, "count", "J", some (.long 7), .empty⟩]
  methods := [⟨.ofFlags 0x09, "run", "()V", some runCode, [⟨"Error"⟩], .empty⟩]
  sourceFile := some "Note.java"
  annotations := ⟨[noteTag], []⟩

theorem note_holds : note.pool.Holds noteFile.pool where
  described := by
    refine ⟨noteEntries, List.rel_append ?_ ?_, rfl⟩
    · rw [List.forall₂_map_left_iff, List.forall₂_map_right_iff, List.forall₂_same]
      intro text member
      refine .text (Text.spells_modifiedUtf8 text) ?_
      revert text
      decide +kernel
    · exact .cons (.other rfl rfl) (.cons (.other rfl rfl) (.cons (.other rfl rfl)
        (.cons (.other rfl rfl) (.cons (.other rfl rfl) (.cons (.other rfl rfl) .nil)))))
  next := rfl
  small := by decide

theorem storedCount_means : storedCount.MeansField noteFile.pool
    ⟨.ofFlags 0x18, "count", "J", some (.long 7), .empty⟩ where
  flags := by decide
  access := fieldHasFlags_iff.mpr rfl
  name := rfl
  descriptor := rfl
  attributes := by
    refine ⟨[.constantValue (.long 7)], ⟨⟨by decide, by decide⟩, .cons ?_ .nil, ⟨?_, ?_⟩⟩, rfl, rfl⟩
    · exact .constantValue rfl (.long rfl)
    · decide
    · decide

/-- `Error` stands at index 23. -/
theorem note_hasError : noteFile.pool.HasClass 23 ⟨"Error"⟩ :=
  ⟨13, rfl, rfl⟩

theorem storedCode_means : storedCode.Means noteFile.pool (.code runCode) := by
  have extra : noteFile.pool.HasText 11 "Extra" := rfl
  have strange (kind : AttributeKind) : kind.name ≠ "Extra" := by cases kind <;> decide
  have inner : List.Forall₂ (StoredAttribute.Means noteFile.pool)
      [.other 11 [1, 2, 3], .lineNumberTable 10 [⟨0, 7⟩, ⟨1, 8⟩]]
      [.unknown, .lineNumberTable [⟨0, 7⟩, ⟨1, 8⟩]] :=
    .cons (.unknown extra strange)
      (.cons (.lineNumberTable rfl (by decide) (by decide)) .nil)
  have handlers : List.Forall₂ (StoredException.Means noteFile.pool 2)
      [⟨0, 1, 1, 23⟩, ⟨0, 2, 1, 0⟩] runCode.exceptionTable :=
    .cons ⟨rfl, rfl, rfl, ⟨by decide, note_hasError⟩, by decide, by decide⟩
      (.cons ⟨rfl, rfl, rfl, rfl, by decide, by decide⟩ .nil)
  exact .code (by rfl) (by decide) (by decide) (by decide) handlers
    ⟨by decide, by decide⟩ inner ⟨by decide, by decide⟩

theorem storedRun_means : storedRun.MeansMethod noteFile.pool
    ⟨.ofFlags 0x09, "run", "()V", some runCode, [⟨"Error"⟩], .empty⟩ where
  flags := by decide
  access := methodHasFlags_iff.mpr rfl
  name := rfl
  descriptor := rfl
  attributes := by
    refine ⟨[.code runCode, .exceptions [⟨"Error"⟩]], ⟨⟨by decide, by decide⟩,
      .cons storedCode_means (.cons ?_ .nil), ⟨by decide, by decide⟩⟩, rfl, rfl, rfl⟩
    exact .exceptions rfl (by decide) (.cons note_hasError .nil)

theorem noteTag_means :
    StoredTree.Means noteFile.pool (.mk 17 [(18, .array [.constant 'I' 26, .nested (.mk 19 [])])])
      noteTag := by
  refine .mk rfl (by decide) (.cons (.mk rfl ?_) .nil) (by decide)
  refine .array (by decide) (.cons (.integer (by decide) rfl) (.cons ?_ .nil))
  exact .nested (.mk rfl (by decide) .nil (by decide))

theorem note_means : note.Means noteFile where
  version := rfl
  minor := by decide
  major := by decide
  pool := note_holds
  flags := by decide
  access := classHasFlags_iff.mpr rfl
  name := ⟨1, rfl, rfl⟩
  superClass := ⟨by decide, 2, rfl, rfl⟩
  interfaces := ⟨by decide, .cons ⟨3, rfl, rfl⟩ .nil⟩
  fields := ⟨by decide, .cons storedCount_means .nil⟩
  methods := ⟨by decide, .cons storedRun_means .nil⟩
  attributes := by
    refine ⟨[.sourceFile "Note.java", .visibleAnnotations [noteTag]],
      ⟨⟨by decide, by decide⟩, .cons ?_ (.cons ?_ .nil), ⟨by decide, by decide⟩⟩, rfl, rfl⟩
    · exact .sourceFile rfl rfl
    · exact .visibleAnnotations rfl ⟨by decide, .cons noteTag_means .nil, by decide⟩

end Bytescript.Assembly
