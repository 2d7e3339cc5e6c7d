import Bytescript.ClassFile.Reader
import Bytescript.Proofs.Assembly.Annotation

/-!
# Attributes that are read back

Every attribute says something about what it belongs to, or nothing if its name is unknown.  What a
whole table says is gathered from what its attributes say, of which no two are of the same known
kind.  A table is read back as what it says if only kinds stand in it that belong there, and
everything fits into the bytes that are there for it.
-/

set_option autoImplicit false

namespace Bytescript

/-! ## What attributes say -/

/-- What an attribute says about what it belongs to. -/
inductive AttributeMeaning where
  | constantValue (value : Constant)
  | code (body : Code)
  | exceptions (classes : List ClassName)
  | sourceFile (name : String)
  | lineNumberTable (lines : List LineNumber)
  | visibleAnnotations (trees : List AnnotationTree)
  | invisibleAnnotations (trees : List AnnotationTree)
  | unknown

namespace AttributeMeaning

/-- The kind of an attribute, if it is a known one. -/
def kind? : AttributeMeaning → Option AttributeKind
  | constantValue _ => some .constantValue
  | code _ => some .code
  | exceptions _ => some .exceptions
  | sourceFile _ => some .sourceFile
  | lineNumberTable _ => some .lineNumberTable
  | visibleAnnotations _ => some .visibleAnnotations
  | invisibleAnnotations _ => some .invisibleAnnotations
  | unknown => none

/-- The known kinds among some attributes. -/
def kinds (meanings : List AttributeMeaning) : List AttributeKind := meanings.filterMap kind?

/-- The attribute of a known kind among some attributes. -/
def ofKind (kind : AttributeKind) (meanings : List AttributeMeaning) : Option AttributeMeaning :=
  meanings.find? fun meaning => meaning.kind? = some kind

/-- The value of a field. -/
def constantIn (meanings : List AttributeMeaning) : Option Constant :=
  match ofKind .constantValue meanings with
  | some (constantValue value) => some value
  | _ => none

/-- The body of a method. -/
def codeIn (meanings : List AttributeMeaning) : Option Code :=
  match ofKind .code meanings with
  | some (code body) => some body
  | _ => none

/-- The exceptions that a method declares. -/
def exceptionsIn (meanings : List AttributeMeaning) : List ClassName :=
  match ofKind .exceptions meanings with
  | some (exceptions classes) => classes
  | _ => []

/-- The source file of a class. -/
def sourceFileIn (meanings : List AttributeMeaning) : Option String :=
  match ofKind .sourceFile meanings with
  | some (sourceFile name) => some name
  | _ => none

/-- The line numbers of a body. -/
def linesIn (meanings : List AttributeMeaning) : List LineNumber :=
  match ofKind .lineNumberTable meanings with
  | some (lineNumberTable lines) => lines
  | _ => []

/-- The annotations of a declaration. -/
def annotationsIn (meanings : List AttributeMeaning) : Annotations where
  visible :=
    match ofKind .visibleAnnotations meanings with
    | some (visibleAnnotations trees) => trees
    | _ => []
  invisible :=
    match ofKind .invisibleAnnotations meanings with
    | some (invisibleAnnotations trees) => trees
    | _ => []

/-- Attributes that may stand in one table: all known ones belong there, and are different. -/
structure Belong (level : List AttributeKind) (meanings : List AttributeMeaning) : Prop where
  once : (kinds meanings).Nodup
  here : ∀ kind ∈ kinds meanings, kind ∈ level

end AttributeMeaning

namespace Assembly

open Binary Reader AttributeMeaning

/-- What a stored entry of an exception table means, for a body with the given length. -/
structure StoredException.Means (pool : ConstantPool) (length : Nat) (stored : StoredException)
    (entry : ExceptionEntry) : Prop where
  start : entry.start = stored.start
  stop : entry.stop = stored.stop
  handler : entry.handler = stored.handler
  catchType : pool.HasClass? stored.catchType entry.catchType
  ordered : stored.start ≤ stored.stop
  inside : stored.stop ≤ length ∧ stored.handler < length

/-- A table of attributes that can be written down. -/
structure TableFits (attributes : List StoredAttribute) : Prop where
  few : attributes.length < 0x10000
  short : ∀ stored ∈ attributes, stored.contents.length < 0x100000000

/-- The attributes that belong to the body of a method. -/
def codeLevel : List AttributeKind := [.lineNumberTable]

/-- The attributes that belong to a field. -/
def fieldLevel : List AttributeKind := [.constantValue, .visibleAnnotations, .invisibleAnnotations]

/-- The attributes that belong to a method. -/
def methodLevel : List AttributeKind :=
  [.code, .exceptions, .visibleAnnotations, .invisibleAnnotations]

/-- The attributes that belong to a class. -/
def classLevel : List AttributeKind := [.sourceFile, .visibleAnnotations, .invisibleAnnotations]

/-- Stored annotations that mean a list of trees. -/
structure TreesMean (pool : ConstantPool) (stored : List StoredTree)
    (trees : List AnnotationTree) : Prop where
  few : stored.length < 0x10000
  means : List.Forall₂ (StoredTree.Means pool) stored trees
  low : ∀ tree ∈ stored, tree.height ≤ annotationDepthLimit

/-- What a stored attribute means. -/
inductive StoredAttribute.Means (pool : ConstantPool) :
    StoredAttribute → AttributeMeaning → Prop where
  | constantValue {name value : Nat} {constant : Constant}
    (named : pool.HasText name AttributeKind.constantValue.name)
    (has : pool.HasConstant value constant) :
    Means pool (.constantValue name value) (.constantValue constant)
  | code {name maxStack maxLocals : Nat} {bytecode : List UInt8} {stored : List StoredException}
    {entries : List ExceptionEntry} {attributes : List StoredAttribute}
    {meanings : List AttributeMeaning} (named : pool.HasText name AttributeKind.code.name)
    (sizes : maxStack < 0x10000 ∧ maxLocals < 0x10000)
    (length : 0 < bytecode.length ∧ bytecode.length < 0x10000)
    (few : stored.length < 0x10000)
    (handlers : List.Forall₂ (StoredException.Means pool bytecode.length) stored entries)
    (fits : TableFits attributes) (inner : List.Forall₂ (Means pool) attributes meanings)
    (belong : Belong codeLevel meanings) :
    Means pool (.code name maxStack maxLocals bytecode stored attributes)
      (.code ⟨maxStack, maxLocals, bytecode, entries, linesIn meanings⟩)
  | exceptions {name : Nat} {stored : List Nat} {classes : List ClassName}
    (named : pool.HasText name AttributeKind.exceptions.name) (few : stored.length < 0x10000)
    (has : List.Forall₂ pool.HasClass stored classes) :
    Means pool (.exceptions name stored) (.exceptions classes)
  | sourceFile {name text : Nat} {file : String}
    (named : pool.HasText name AttributeKind.sourceFile.name) (has : pool.HasText text file) :
    Means pool (.sourceFile name text) (.sourceFile file)
  | lineNumberTable {name : Nat} {lines : List LineNumber}
    (named : pool.HasText name AttributeKind.lineNumberTable.name)
    (few : lines.length < 0x10000)
    (small : ∀ line ∈ lines, line.start < 0x10000 ∧ line.line < 0x10000) :
    Means pool (.lineNumberTable name lines) (.lineNumberTable lines)
  | visibleAnnotations {name : Nat} {stored : List StoredTree} {trees : List AnnotationTree}
    (named : pool.HasText name AttributeKind.visibleAnnotations.name)
    (means : TreesMean pool stored trees) :
    Means pool (.annotations name stored) (.visibleAnnotations trees)
  | invisibleAnnotations {name : Nat} {stored : List StoredTree} {trees : List AnnotationTree}
    (named : pool.HasText name AttributeKind.invisibleAnnotations.name)
    (means : TreesMean pool stored trees) :
    Means pool (.annotations name stored) (.invisibleAnnotations trees)
  | unknown {name : Nat} {text : String} {contents : List UInt8}
    (named : pool.HasText name text) (strange : ∀ kind : AttributeKind, kind.name ≠ text) :
    Means pool (.other name contents) .unknown

/-- What a stored table of attributes at some level means. -/
structure TableMeans (pool : ConstantPool) (level : List AttributeKind)
    (attributes : List StoredAttribute) (meanings : List AttributeMeaning) : Prop where
  fits : TableFits attributes
  means : List.Forall₂ (StoredAttribute.Means pool) attributes meanings
  belong : Belong level meanings

/-! ## Gathering -/

section Gathering

variable {before : List AttributeMeaning} {meaning : AttributeMeaning}
  {kind other : AttributeKind}

theorem ofKind_of_absent (absent : kind ∉ kinds before) : ofKind kind before = none := by
  refine List.find?_eq_none.mpr fun other member same => absent ?_
  exact List.mem_filterMap.mpr ⟨other, member, of_decide_eq_true same⟩

/-- The first attribute of a kind is the one of that kind. -/
theorem ofKind_snoc_of_absent (known : meaning.kind? = some kind) (absent : kind ∉ kinds before) :
    ofKind kind (before ++ [meaning]) = some meaning := by
  have none := ofKind_of_absent absent
  rw [ofKind] at none ⊢
  simp [List.find?_append, none, known]

/-- An attribute of another kind makes no difference. -/
theorem ofKind_snoc_of_ne (known : meaning.kind? = some kind) (different : kind ≠ other) :
    ofKind other (before ++ [meaning]) = ofKind other before := by
  simp [ofKind, List.find?_append, known, different]

/-- Nor does an unknown attribute. -/
theorem ofKind_snoc_unknown : ofKind other (before ++ [.unknown]) = ofKind other before := by
  simp [ofKind, List.find?_append, kind?]

theorem annotationsIn_snoc_of_notMem (known : meaning.kind? = some kind)
    (different : kind ∉ [AttributeKind.visibleAnnotations, .invisibleAnnotations]) :
    annotationsIn (before ++ [meaning]) = annotationsIn before := by
  simp only [List.mem_cons, List.not_mem_nil, or_false, not_or] at different
  simp only [annotationsIn, ofKind_snoc_of_ne known different.1,
    ofKind_snoc_of_ne known different.2]

theorem annotationsIn_snoc_visible {trees : List AnnotationTree}
    (absent : .visibleAnnotations ∉ kinds before) :
    annotationsIn (before ++ [.visibleAnnotations trees]) =
      { annotationsIn before with visible := trees } := by
  have known : (visibleAnnotations trees).kind? = some .visibleAnnotations := rfl
  have invisible : ofKind .invisibleAnnotations (before ++ [.visibleAnnotations trees]) = _ :=
    ofKind_snoc_of_ne known nofun
  simp only [annotationsIn, ofKind_snoc_of_absent known absent, invisible]

theorem annotationsIn_snoc_invisible {trees : List AnnotationTree}
    (absent : .invisibleAnnotations ∉ kinds before) :
    annotationsIn (before ++ [.invisibleAnnotations trees]) =
      { annotationsIn before with invisible := trees } := by
  have known : (invisibleAnnotations trees).kind? = some .invisibleAnnotations := rfl
  have visible : ofKind .visibleAnnotations (before ++ [.invisibleAnnotations trees]) = _ :=
    ofKind_snoc_of_ne known nofun
  simp only [annotationsIn, ofKind_snoc_of_absent known absent, visible]

end Gathering

/-! ## Reading attributes -/

section Reading

variable {pool : ConstantPool} {State : Type} {table : AttributeTable State} {state state' : State}

theorem ofName?_name (kind : AttributeKind) : AttributeKind.ofName? kind.name = some kind := by
  cases kind <;> decide

/-- A known attribute is cut out and read on its own. -/
theorem takes_readKnown (small : pool.count < 0x10000) {kind : AttributeKind} {name : Nat}
    {contents : List UInt8} {reader : Reader State} (named : pool.HasText name kind.name)
    (short : contents.length < 0x100000000) (handled : table kind state = some reader)
    (reads : reader.Takes contents state') :
    (readAttribute pool table state).Takes (StoredAttribute.framed name contents) state' := by
  have inside : during (.attribute kind.name) (reader.runOn contents) =
      .ok (state', ⟨contents.length, []⟩) := by
    have whole := reads 0 []
    rw [List.append_nil, Nat.zero_add] at whole
    exact during_eq_ok.mpr whole
  rw [StoredAttribute.framed, List.append_assoc]
  refine takes_following (Nat.lt_trans named.lt_count small) named.textAt
    ((takes_u32 short).bind ?_)
  rw [ofName?_name]
  refine (takes_take contents).bind_nil ?_
  rw [handled]
  exact (takes_ofExcept inside).bind ((takes_ofExcept (if_pos rfl)).bind (takes_pure _))

/-- An unknown attribute is passed over. -/
theorem takes_readUnknown (small : pool.count < 0x10000) {name : Nat} {text : String}
    {contents : List UInt8} (named : pool.HasText name text)
    (strange : ∀ kind : AttributeKind, kind.name ≠ text)
    (short : contents.length < 0x100000000) :
    (readAttribute pool table state).Takes (StoredAttribute.framed name contents) state := by
  have unknown : AttributeKind.ofName? text = none :=
    List.find?_eq_none.mpr fun kind _ => by simpa using strange kind
  rw [StoredAttribute.framed, List.append_assoc]
  refine takes_following (Nat.lt_trans named.lt_count small) named.textAt
    ((takes_u32 short).bind ?_)
  rw [unknown]
  exact (takes_skip contents).bind_nil (takes_pure _)

/-- A known attribute has the name of its kind. -/
theorem StoredAttribute.Means.named {stored : StoredAttribute} {meaning : AttributeMeaning}
    {kind : AttributeKind} (means : stored.Means pool meaning) (known : meaning.kind? = some kind) :
    pool.HasText stored.name kind.name := by
  cases means <;> cases known <;> assumption

/-- A table gathers what its attributes say one after the other. -/
structure Gathers (pool : ConstantPool) (level : List AttributeKind) (table : AttributeTable State)
    (gather : List AttributeMeaning → State) : Prop where
  unknown : ∀ before, gather (before ++ [.unknown]) = gather before
  known : ∀ {before : List AttributeMeaning} {stored : StoredAttribute}
    {meaning : AttributeMeaning} {kind : AttributeKind}, stored.Means pool meaning →
    meaning.kind? = some kind → kind ∈ level → kind ∉ kinds before →
    ∃ reader, table kind (gather before) = some reader ∧
      reader.Takes stored.contents (gather (before ++ [meaning]))

variable {level : List AttributeKind} {gather : List AttributeMeaning → State}

theorem Gathers.takes_readAttribute (small : pool.count < 0x10000)
    (gathers : Gathers pool level table gather) {before : List AttributeMeaning}
    {stored : StoredAttribute} {meaning : AttributeMeaning} (means : stored.Means pool meaning)
    (short : stored.contents.length < 0x100000000)
    (new : ∀ kind, meaning.kind? = some kind → kind ∈ level ∧ kind ∉ kinds before) :
    (readAttribute pool table (gather before)).Takes
      (StoredAttribute.framed stored.name stored.contents) (gather (before ++ [meaning])) := by
  cases known : meaning.kind? with
  | some kind =>
    obtain ⟨here, absent⟩ := new kind known
    obtain ⟨reader, handled, reads⟩ := gathers.known means known here absent
    exact takes_readKnown small (means.named known) short handled reads
  | none =>
    cases means with
    | unknown named strange =>
      rw [gathers.unknown]
      exact takes_readUnknown small named strange short
    | _ => cases known

theorem Gathers.takes_readAttributeList (small : pool.count < 0x10000)
    (gathers : Gathers pool level table gather) {attributes : List StoredAttribute}
    {meanings : List AttributeMeaning}
    (means : List.Forall₂ (StoredAttribute.Means pool) attributes meanings)
    (short : ∀ stored ∈ attributes, stored.contents.length < 0x100000000)
    (before : List AttributeMeaning) (belong : Belong level (before ++ meanings)) :
    (readAttributeList pool table attributes.length (gather before)).Takes
      (StoredAttribute.allBytes attributes).flatten (gather (before ++ meanings)) := by
  induction means generalizing before with
  | nil =>
    rw [List.append_nil]
    exact takes_pure _
  | @cons stored meaning attributes meanings first rest ih =>
    rw [List.forall_mem_cons] at short
    have new (kind : AttributeKind) (known : meaning.kind? = some kind) :
        kind ∈ level ∧ kind ∉ kinds before := by
      have split : kinds (before ++ meaning :: meanings) =
          kinds before ++ kind :: kinds meanings := by
        simp [kinds, known]
      obtain ⟨once, here⟩ := belong
      rw [split] at once here
      refine ⟨here kind (by simp), fun member => ?_⟩
      exact (List.nodup_append.mp once).2.2 _ member _ (List.mem_cons_self ..) rfl
    have later : before ++ meaning :: meanings = (before ++ [meaning]) ++ meanings := by simp
    rw [later] at belong ⊢
    exact (gathers.takes_readAttribute small first short.1 new).bind (ih short.2 _ belong)

theorem StoredAttribute.length_allBytes (attributes : List StoredAttribute) :
    (allBytes attributes).length = attributes.length := by
  induction attributes with
  | nil => rfl
  | cons first rest ih => simp [allBytes, ih]

/-- A table of attributes is read back as what it says. -/
theorem Gathers.takes_readAttributes (small : pool.count < 0x10000)
    (gathers : Gathers pool level table gather) {attributes : List StoredAttribute}
    {meanings : List AttributeMeaning} (means : TableMeans pool level attributes meanings) :
    (readAttributes pool table (gather [])).Takes (StoredAttribute.tableBytes attributes)
      (gather meanings) := by
  obtain ⟨⟨few, short⟩, means, belong⟩ := means
  rw [StoredAttribute.tableBytes, counted, StoredAttribute.length_allBytes]
  exact (takes_u16 few).bind (gathers.takes_readAttributeList small means short [] belong)

end Reading

/-! ## Bodies -/

section Bodies

variable {pool : ConstantPool}

theorem takes_readLine {line : LineNumber} (small : line.start < 0x10000 ∧ line.line < 0x10000) :
    LineNumber.read.Takes (lineNumberBytes line) line :=
  (takes_u16 small.1).bind ((takes_u16 small.2).bind_nil (takes_pure _))

theorem takes_readLines {lines : List LineNumber} (few : lines.length < 0x10000)
    (small : ∀ line ∈ lines, line.start < 0x10000 ∧ line.line < 0x10000) :
    (Reader.counted LineNumber.read).Takes (counted (lines.map lineNumberBytes)) lines := by
  refine takes_counted ?_ (by rwa [List.length_map])
  rw [List.forall₂_map_left_iff, List.forall₂_same]
  exact fun line member => takes_readLine (small line member)

/-- A body gathers its line numbers. -/
theorem gathers_lines : Gathers pool codeLevel Code.attributes linesIn where
  unknown before := by rw [linesIn, ofKind_snoc_unknown, linesIn]
  known {before stored meaning kind} means known here absent := by
    cases List.mem_singleton.mp here
    cases means with
    | lineNumberTable _ few lines =>
      refine ⟨_, rfl, (takes_readLines few lines).bind_nil ?_⟩
      simp only [linesIn, ofKind_of_absent absent, ofKind_snoc_of_absent known absent,
        List.nil_append]
      exact takes_pure _
    | _ => cases known

/-- The entry of an exception table is read back if its ranges lie in the body. -/
theorem takes_readException (small : pool.count < 0x10000) {length : Nat}
    (short : length < 0x10000) {stored : StoredException} {entry : ExceptionEntry}
    (means : stored.Means pool length entry) :
    (ExceptionEntry.read pool length).Takes stored.bytes entry := by
  obtain ⟨start, stop, handler, catchType, ordered, inside, handled⟩ := means
  have whole : entry = ⟨stored.start, stored.stop, stored.handler, entry.catchType⟩ := by
    rw [← start, ← stop, ← handler]
  rw [StoredException.bytes, List.append_assoc, List.append_assoc, whole]
  refine (takes_u16 (by omega)).bind ((takes_u16 (by omega)).bind ((takes_u16 (by omega)).bind ?_))
  refine takes_following_nil (catchType.lt small) catchType.optional ?_
  rw [if_pos ⟨ordered, inside, handled⟩]
  exact takes_pure _

/-- The body of a method is read back with its line numbers. -/
theorem takes_readCode (small : pool.count < 0x10000) {maxStack maxLocals : Nat}
    {bytecode : List UInt8} {stored : List StoredException} {entries : List ExceptionEntry}
    {attributes : List StoredAttribute} {meanings : List AttributeMeaning}
    (sizes : maxStack < 0x10000 ∧ maxLocals < 0x10000)
    (length : 0 < bytecode.length ∧ bytecode.length < 0x10000) (few : stored.length < 0x10000)
    (handlers : List.Forall₂ (StoredException.Means pool bytecode.length) stored entries)
    (table : TableMeans pool codeLevel attributes meanings) (name : Nat) :
    (Code.read pool).Takes
      (StoredAttribute.contents (.code name maxStack maxLocals bytecode stored attributes))
      ⟨maxStack, maxLocals, bytecode, entries, linesIn meanings⟩ := by
  have table' : (Reader.counted (ExceptionEntry.read pool bytecode.length)).Takes
      (counted (stored.map StoredException.bytes)) entries :=
    takes_counted_map few handlers fun _ means => takes_readException small length.2 means
  rw [StoredAttribute.contents]
  simp only [List.append_assoc]
  refine (takes_u16 sizes.1).bind ((takes_u16 sizes.2).bind ((takes_u32 (by omega)).bind ?_))
  rw [if_neg (by omega)]
  refine (takes_take bytecode).bind (table'.bind ?_)
  exact (gathers_lines.takes_readAttributes small table).bind_nil (takes_pure _)

end Bodies

end Assembly

end Bytescript
