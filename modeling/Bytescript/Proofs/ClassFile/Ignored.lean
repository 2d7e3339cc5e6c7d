import Bytescript.Proofs.ClassFile.Layout
import Bytescript.Proofs.ClassFile.Lookup
import Mathlib

/-!
# Attributes that are ignored

Each level knows some attributes: classes, fields, methods and bodies of methods.  Any other
attribute of a level may be named like something without a meaning, or like something that only
has a meaning at another level; either way it makes no difference that it is there, whatever it
contains.  What an attribute may not be is nameless: its name has to be a text.
-/

set_option autoImplicit false

namespace Bytescript

open Binary Reader Assembly

/-! ## Levels -/

/-- The levels at which attributes stand. -/
inductive AttributeLevel where
  | classFile
  | field
  | method
  | body

/-- The attributes that have a meaning at a level. -/
def AttributeLevel.handled : AttributeLevel → List AttributeKind
  | classFile => [.sourceFile, .visibleAnnotations, .invisibleAnnotations]
  | field => [.constantValue, .visibleAnnotations, .invisibleAnnotations]
  | method => [.code, .exceptions, .visibleAnnotations, .invisibleAnnotations]
  | body => [.lineNumberTable]

/-- A table reads the attributes of a level and no others. -/
def AttributeTable.Handles {State : Type} (table : AttributeTable State)
    (level : AttributeLevel) : Prop :=
  ∀ kind state, (table kind state).isSome = true ↔ kind ∈ level.handled

theorem ClassDetails.handles_attributes (pool : ConstantPool) :
    (ClassDetails.attributes pool).Handles .classFile := by
  intro kind state
  cases kind <;> simp [attributes, Annotations.update, AttributeLevel.handled]

theorem FieldDetails.handles_attributes (pool : ConstantPool) :
    (FieldDetails.attributes pool).Handles .field := by
  intro kind state
  cases kind <;> simp [attributes, Annotations.update, AttributeLevel.handled]

theorem MethodDetails.handles_attributes (pool : ConstantPool) :
    (MethodDetails.attributes pool).Handles .method := by
  intro kind state
  cases kind <;> simp [attributes, Annotations.update, AttributeLevel.handled]

theorem Code.handles_attributes : Code.attributes.Handles .body := by
  intro kind state
  cases kind <;> simp [attributes, AttributeLevel.handled]

/-- The name of the attribute is a text, and nothing of that name has a meaning at the level. -/
def AttributeLayout.Ignored (pool : ConstantPool) (level : AttributeLevel)
    (layout : AttributeLayout) : Prop :=
  ∃ name, pool.textAt layout.name = .ok name ∧ ∀ kind ∈ level.handled, kind.name ≠ name

/-- The same for an attribute of a method, which is not laid out as a body then. -/
def MethodAttributeLayout.Ignored (pool : ConstantPool) (layout : MethodAttributeLayout) : Prop :=
  ∃ other, layout = .plain other ∧ other.Ignored pool .method

/-- A list with one more item of a certain kind. -/
inductive Inserted {α : Type} (extra : α → Prop) : List α → List α → Prop where
  | between (before after : List α) {item : α} (here : extra item) :
    Inserted extra (before ++ after) (before ++ item :: after)

/-! ## Tables of attributes -/

section Tables

variable {State : Type} {pool : ConstantPool} {table : AttributeTable State}

theorem AttributeKind.name_of_ofName? {name : String} {kind : AttributeKind}
    (found : AttributeKind.ofName? name = some kind) : kind.name = name := by
  simpa using List.find?_some found

/-- What is ignored changes nothing. -/
theorem AttributeLayout.Ignored.apply_eq {level : AttributeLevel} {layout : AttributeLayout}
    (ignored : layout.Ignored pool level) (handles : table.Handles level) (state : State) :
    layout.apply pool table state = .ok state := by
  obtain ⟨name, found, other⟩ := ignored
  refine bind_eq_ok.mpr ⟨name, found, ?_⟩
  cases known : AttributeKind.ofName? name with
  | none => rfl
  | some kind =>
    have unhandled : table kind state = none := by
      refine Option.not_isSome_iff_eq_none.mp fun answers => ?_
      exact other kind ((handles kind state).mp answers) (AttributeKind.name_of_ofName? known)
    dsimp only
    rw [unhandled]
    rfl

/-- What is done with an attribute that has a meaning depends on what is made of its contents. -/
theorem AttributeLayout.apply_eq_during {layout : AttributeLayout} {state : State}
    {kind : AttributeKind} {reader : Reader State} {result : Except Failure State}
    (found : pool.textAt layout.name = .ok kind.name) (handled : table kind state = some reader)
    (computes : reader.Computes layout.contents result) :
    layout.apply pool table state = during (.attribute kind.name) result := by
  have inside : reader.runOn layout.contents =
      result.map fun value => (value, ⟨0 + layout.contents.length, []⟩) := by
    have whole := computes 0 []
    rwa [List.append_nil] at whole
  rw [AttributeLayout.apply_eq found handled, inside]
  cases result with
  | error failure => rfl
  | ok value =>
    exact check_eq_ok.mpr ⟨checkConsumed_eq_ok.mpr (Nat.zero_add _), rfl⟩

theorem computes_readAttributeList {layouts : List AttributeLayout}
    (fits : ∀ layout ∈ layouts, layout.Fits) (start : State) :
    (readAttributeList pool table layouts.length start).Computes
      (layouts.map AttributeLayout.bytes).flatten
      (layouts.foldlM (AttributeLayout.apply pool table) start) := by
  induction layouts generalizing start with
  | nil => exact takes_pure start
  | cons layout layouts ih =>
    obtain ⟨here, others⟩ := List.forall_mem_cons.mp fits
    exact (here.computes start).bind (ih others)

/-- A table of attributes computes what they do one after the other. -/
theorem computes_readAttributes {layouts : List AttributeLayout}
    (isTable : IsTable AttributeLayout.Fits layouts) (start : State) :
    (readAttributes pool table start).Computes (counted (layouts.map AttributeLayout.bytes))
      (layouts.foldlM (AttributeLayout.apply pool table) start) := by
  rw [Assembly.counted, List.length_map]
  exact (takes_u16 isTable.few).bind_computes (computes_readAttributeList isTable.all start)

theorem agrees_readAttributes {layouts layouts' : List AttributeLayout}
    (isTable : IsTable AttributeLayout.Fits layouts)
    (isTable' : IsTable AttributeLayout.Fits layouts') {start : State}
    (same : layouts.foldlM (AttributeLayout.apply pool table) start =
      layouts'.foldlM (AttributeLayout.apply pool table) start) :
    (readAttributes pool table start).Agrees (counted (layouts.map AttributeLayout.bytes))
      (counted (layouts'.map AttributeLayout.bytes)) :=
  ⟨_, computes_readAttributes isTable start, same ▸ computes_readAttributes isTable' start⟩

/-- Items that change nothing may stand anywhere. -/
theorem foldlM_inserted {α : Type} {extra : α → Prop} {apply : State → α → Except Failure State}
    (neutral : ∀ item, extra item → ∀ state, apply state item = .ok state) {items items' : List α}
    (inserted : Inserted extra items items') (start : State) :
    items.foldlM apply start = items'.foldlM apply start := by
  cases inserted with
  | between before after here =>
    rw [List.foldlM_append, List.foldlM_append]
    refine congrArg _ (funext fun state => ?_)
    rw [List.foldlM_cons, neutral _ here]
    rfl

end Tables

/-! ## Lists with one item that was changed -/

section Lists

variable {α Layout : Type} {item : Reader α} {bytes : Layout → List UInt8}

theorem agrees_counted_self {layouts : List Layout} (few : layouts.length < 0x10000)
    (agree : ∀ layout ∈ layouts, item.Agrees (bytes layout) (bytes layout)) :
    (Reader.counted item).Agrees (counted (layouts.map bytes)) (counted (layouts.map bytes)) := by
  refine agrees_counted ?_ (by rwa [List.length_map])
  rw [List.forall₂_map_left_iff, List.forall₂_map_right_iff, List.forall₂_same]
  exact agree

theorem agrees_counted_changed {layouts before after : List Layout} {layout layout' : Layout}
    (found : layouts = before ++ layout :: after) (few : layouts.length < 0x10000)
    (agree : ∀ other ∈ layouts, item.Agrees (bytes other) (bytes other))
    (changed : item.Agrees (bytes layout) (bytes layout')) :
    (Reader.counted item).Agrees (counted (layouts.map bytes))
      (counted ((before ++ layout' :: after).map bytes)) := by
  subst found
  refine agrees_counted ?_ (by rwa [List.length_map])
  obtain ⟨front, back⟩ := List.forall_mem_append.mp agree
  rw [List.forall₂_map_left_iff, List.forall₂_map_right_iff]
  exact List.rel_append (List.forall₂_same.mpr front)
    (.cons changed (List.forall₂_same.mpr (List.forall_mem_cons.mp back).2))

end Lists

variable {pool : ConstantPool}

/-! ## Bodies -/

theorem agrees_readException (pool : ConstantPool) (codeLength : Nat) {entry : StoredException}
    (fits : entry.Fits) :
    (ExceptionEntry.read pool codeLength).Agrees entry.bytes entry.bytes := by
  rw [StoredException.bytes, List.append_assoc, List.append_assoc]
  refine (takes_u16 fits.start).bind_agrees ((takes_u16 fits.stop).bind_agrees
    ((takes_u16 fits.handler).bind_agrees ((takes_u16 fits.catchType).agrees.bind_nil fun _ => ?_)))
  refine (agrees_ofExcept _).nil_bind fun _ => ?_
  split
  · exact agrees_pure _
  · exact agrees_ofExcept _

theorem agrees_readBody (pool : ConstantPool) {layout : BodyLayout}
    {attributes : List AttributeLayout} (fits : layout.Fits)
    (fits' : BodyLayout.Fits { layout with attributes })
    (same : ∀ start, layout.attributes.foldlM (AttributeLayout.apply pool Code.attributes) start =
      attributes.foldlM (AttributeLayout.apply pool Code.attributes) start) :
    (Code.read pool).Agrees layout.bytes { layout with attributes }.bytes := by
  refine (takes_u16 fits.maxStack).bind_agrees ((takes_u16 fits.maxLocals).bind_agrees
    ((takes_u32 fits.length).bind_agrees ?_))
  split
  · exact agrees_of_error _ _
  refine (takes_take _).bind_agrees ?_
  have handlers := agrees_counted_self fits.handlers.few fun entry member =>
    agrees_readException pool layout.bytecode.length (fits.handlers.all entry member)
  exact handlers.bind fun _ =>
    (agrees_readAttributes fits.attributes fits'.attributes (same _)).bind_nil
      fun _ => agrees_pure _

/-- Two bodies of which the same is made change a method in the same way. -/
theorem apply_body_eq {name : Nat} {body body' : BodyLayout} {state : MethodDetails}
    (found : pool.textAt name = .ok AttributeKind.code.name)
    (agrees : (Code.read pool).Agrees body.bytes body'.bytes) :
    AttributeLayout.apply pool (MethodDetails.attributes pool) state ⟨name, body.bytes⟩ =
      AttributeLayout.apply pool (MethodDetails.attributes pool) state ⟨name, body'.bytes⟩ := by
  obtain ⟨result, computes, computes'⟩ : Reader.Agrees (if state.code.isSome
      then Reader.reject .duplicateCode
      else do return { state with code := some (← Code.read pool) }) body.bytes body'.bytes := by
    split
    · exact agrees_of_error _ _
    · exact agrees.bind_nil fun _ => agrees_pure _
  rw [AttributeLayout.apply_eq_during found rfl computes,
    AttributeLayout.apply_eq_during found rfl computes']

/-! ## Members -/

theorem agrees_readMember {Details Member Attribute : Type}
    {details : String → String → Reader Details}
    {make : Nat → String → String → Details → Member} {bytes : Attribute → List UInt8}
    {fits : Attribute → Prop} {layout : MemberLayout Attribute} {attributes : List Attribute}
    (fit : layout.Fits fits)
    (agree : ∀ name descriptor, (details name descriptor).Agrees
      (counted (layout.attributes.map bytes)) (counted (attributes.map bytes))) :
    (readMember pool details make).Agrees (layout.bytes bytes)
      (MemberLayout.bytes bytes { layout with attributes }) := by
  refine (takes_u16 fit.flags).bind_agrees ((takes_u16 fit.name).bind_agrees ?_)
  refine (agrees_ofExcept _).nil_bind fun name => (takes_u16 fit.descriptor).bind_agrees ?_
  refine (agrees_ofExcept _).nil_bind fun descriptor => ?_
  exact (agree name descriptor).bind_nil fun _ => agrees_pure _

theorem agrees_readField {layout : MemberLayout AttributeLayout}
    {attributes : List AttributeLayout} (fit : layout.Fits AttributeLayout.Fits)
    (fit' : IsTable AttributeLayout.Fits attributes)
    (same : ∀ start,
      layout.attributes.foldlM (AttributeLayout.apply pool (FieldDetails.attributes pool)) start =
        attributes.foldlM (AttributeLayout.apply pool (FieldDetails.attributes pool)) start) :
    (Field.read pool).Agrees (layout.bytes AttributeLayout.bytes)
      (MemberLayout.bytes AttributeLayout.bytes { layout with attributes }) := by
  rw [Field.read_eq]
  exact agrees_readMember fit fun _ _ =>
    (agrees_readAttributes fit.attributes fit' (same _)).within _

/-- What an attribute of a method does, as a body or not. -/
def MethodAttributeLayout.apply (pool : ConstantPool) (state : MethodDetails)
    (layout : MethodAttributeLayout) : Except Failure MethodDetails :=
  layout.toAttribute.apply pool (MethodDetails.attributes pool) state

theorem MethodAttributeLayout.Fits.toAttribute {layout : MethodAttributeLayout}
    (fits : layout.Fits pool) : layout.toAttribute.Fits := by
  cases layout <;> exact fits.1

theorem agrees_readMethod {layout : MemberLayout MethodAttributeLayout}
    {attributes : List MethodAttributeLayout} (fit : layout.Fits (MethodAttributeLayout.Fits pool))
    (fit' : IsTable (MethodAttributeLayout.Fits pool) attributes)
    (same : ∀ start, layout.attributes.foldlM (MethodAttributeLayout.apply pool) start =
      attributes.foldlM (MethodAttributeLayout.apply pool) start) :
    (Method.read pool).Agrees (layout.bytes MethodAttributeLayout.bytes)
      (MemberLayout.bytes MethodAttributeLayout.bytes { layout with attributes }) := by
  have asAttributes {items : List MethodAttributeLayout}
      (isTable : IsTable (MethodAttributeLayout.Fits pool) items) :
      IsTable AttributeLayout.Fits (items.map MethodAttributeLayout.toAttribute) := by
    refine ⟨by rw [List.length_map]; exact isTable.few, fun one member => ?_⟩
    obtain ⟨item, listed, rfl⟩ := List.mem_map.mp member
    exact (isTable.all item listed).toAttribute
  have asBytes (items : List MethodAttributeLayout) : items.map MethodAttributeLayout.bytes =
      (items.map MethodAttributeLayout.toAttribute).map AttributeLayout.bytes :=
    List.map_map.symm
  rw [Method.read_eq]
  refine agrees_readMember fit fun name descriptor => Agrees.within ?_ _
  rw [asBytes, asBytes]
  refine agrees_readAttributes (asAttributes fit.attributes) (asAttributes fit') ?_
  rw [List.foldlM_map, List.foldlM_map]
  exact same _

/-! ## Classes -/

/-- A layout with other members and attributes. -/
def ClassLayout.withTables (layout : ClassLayout) (fields : List (MemberLayout AttributeLayout))
    (methods : List (MemberLayout MethodAttributeLayout)) (attributes : List AttributeLayout) :
    ClassLayout :=
  { layout with fields, methods, attributes }

/-- Another layout is read in the same way if its tables are. -/
theorem agrees_readContents {layout : ClassLayout} {fields : List (MemberLayout AttributeLayout)}
    {methods : List (MemberLayout MethodAttributeLayout)} {attributes : List AttributeLayout}
    (fits : layout.Fits pool)
    (fieldsAgree : (Reader.counted (Field.read pool)).Agrees
      (counted (layout.fields.map (MemberLayout.bytes AttributeLayout.bytes)))
      (counted (fields.map (MemberLayout.bytes AttributeLayout.bytes))))
    (methodsAgree : (Reader.counted (Method.read pool)).Agrees
      (counted (layout.methods.map (MemberLayout.bytes MethodAttributeLayout.bytes)))
      (counted (methods.map (MemberLayout.bytes MethodAttributeLayout.bytes))))
    (attributesAgree : ∀ start, (readAttributes pool (ClassDetails.attributes pool) start).Agrees
      (counted (layout.attributes.map AttributeLayout.bytes))
      (counted (attributes.map AttributeLayout.bytes))) :
    ClassFile.readContents.Agrees layout.bytes
      (layout.withTables fields methods attributes).bytes := by
  have version : ClassFile.readVersion.Agrees
      (bigEndianBytes 4 classFileMagic ++ (word16 layout.minor ++ word16 layout.major))
      (bigEndianBytes 4 classFileMagic ++ (word16 layout.minor ++ word16 layout.major)) := by
    refine (takes_u32 (by decide)).bind_agrees ?_
    rw [if_neg (not_not.mpr rfl)]
    refine (takes_u16 fits.minor).bind_agrees ((takes_u16 fits.major).agrees.bind_nil fun _ => ?_)
    split
    · exact agrees_pure _
    · exact agrees_ofExcept _
  have interfaces : (Reader.counted (ClassName.read pool)).Agrees
      (counted (layout.interfaces.map word16)) (counted (layout.interfaces.map word16)) :=
    agrees_counted_self fits.interfaces.few fun index member =>
      (takes_u16 (fits.interfaces.all index member)).agrees.bind_nil fun _ => agrees_ofExcept _
  refine version.bind fun _ => fits.pool.bind_agrees ((takes_u16 fits.flags).bind_agrees ?_)
  refine (takes_u16 fits.thisClass).bind_agrees ?_
  refine ((agrees_ofExcept _).within _).nil_bind fun name => ?_
  refine (takes_u16 fits.superClass).bind_agrees ?_
  refine ((agrees_ofExcept _).within _).nil_bind fun _ => interfaces.bind fun _ => ?_
  refine (fieldsAgree.within _).bind fun _ => (methodsAgree.within _).bind fun _ => ?_
  exact ((attributesAgree _).within _).bind_nil fun _ => agrees_pure _

/-- One layout is another one with one more attribute, which is ignored, in one of its tables: that
of the class, of a field, of a method or of a body. -/
inductive ClassLayout.Inserts (pool : ConstantPool) (layout : ClassLayout) :
    ClassLayout → Prop where
  | ofClass {attributes : List AttributeLayout}
    (inserted : Inserted (AttributeLayout.Ignored pool .classFile) layout.attributes attributes) :
    Inserts pool layout (layout.withTables layout.fields layout.methods attributes)
  | ofField {before after : List (MemberLayout AttributeLayout)}
    {field : MemberLayout AttributeLayout} {attributes : List AttributeLayout}
    (found : layout.fields = before ++ field :: after)
    (inserted : Inserted (AttributeLayout.Ignored pool .field) field.attributes attributes) :
    Inserts pool layout (layout.withTables (before ++ { field with attributes } :: after)
      layout.methods layout.attributes)
  | ofMethod {before after : List (MemberLayout MethodAttributeLayout)}
    {method : MemberLayout MethodAttributeLayout} {attributes : List MethodAttributeLayout}
    (found : layout.methods = before ++ method :: after)
    (inserted : Inserted (MethodAttributeLayout.Ignored pool) method.attributes attributes) :
    Inserts pool layout (layout.withTables layout.fields
      (before ++ { method with attributes } :: after) layout.attributes)
  | ofBody {before after : List (MemberLayout MethodAttributeLayout)}
    {method : MemberLayout MethodAttributeLayout} {front back : List MethodAttributeLayout}
    {name : Nat} {body : BodyLayout} {attributes : List AttributeLayout}
    (found : layout.methods = before ++ method :: after)
    (bodied : method.attributes = front ++ .body name body :: back)
    (inserted : Inserted (AttributeLayout.Ignored pool .body) body.attributes attributes) :
    Inserts pool layout (layout.withTables layout.fields
      (before ++ { method with attributes := front ++ .body name { body with attributes } :: back }
        :: after) layout.attributes)

section Classes

variable {layout layout' : ClassLayout}

theorem ClassLayout.Fits.agrees_fields (fits : layout.Fits pool) :
    ∀ field ∈ layout.fields, (Field.read pool).Agrees (field.bytes AttributeLayout.bytes)
      (field.bytes AttributeLayout.bytes) := fun field member =>
  have fit := fits.fields.all field member
  agrees_readField fit fit.attributes fun _ => rfl

theorem ClassLayout.Fits.agrees_methods (fits : layout.Fits pool) :
    ∀ method ∈ layout.methods, (Method.read pool).Agrees (method.bytes MethodAttributeLayout.bytes)
      (method.bytes MethodAttributeLayout.bytes) := fun method member =>
  have fit := fits.methods.all method member
  agrees_readMethod fit fit.attributes fun _ => rfl

theorem ClassLayout.Fits.agrees_attributes (fits : layout.Fits pool) (start : ClassDetails) :
    (readAttributes pool (ClassDetails.attributes pool) start).Agrees
      (counted (layout.attributes.map AttributeLayout.bytes))
      (counted (layout.attributes.map AttributeLayout.bytes)) :=
  agrees_readAttributes fits.attributes fits.attributes rfl

/-- A class is read in the same way with one more attribute that is ignored. -/
theorem ClassLayout.Inserts.agrees (inserts : layout.Inserts pool layout')
    (fits : layout.Fits pool) (fits' : layout'.Fits pool) :
    ClassFile.readContents.Agrees layout.bytes layout'.bytes := by
  have fields := agrees_counted_self fits.fields.few fits.agrees_fields
  have methods := agrees_counted_self fits.methods.few fits.agrees_methods
  cases inserts with
  | ofClass inserted =>
    refine agrees_readContents fits fields methods fun start => ?_
    exact agrees_readAttributes fits.attributes fits'.attributes (foldlM_inserted
      (fun _ ignored => ignored.apply_eq (ClassDetails.handles_attributes pool)) inserted start)
  | @ofField before after field attributes found inserted =>
    have fit := fits.fields.all field (found ▸ List.mem_append_cons_self)
    have fit' := (fits'.fields.all _ List.mem_append_cons_self).attributes
    have changed := agrees_readField fit fit' fun start => foldlM_inserted
      (fun _ ignored => ignored.apply_eq (FieldDetails.handles_attributes pool)) inserted start
    exact agrees_readContents fits
      (agrees_counted_changed found fits.fields.few fits.agrees_fields changed) methods
      fits.agrees_attributes
  | @ofMethod before after method attributes found inserted =>
    have fit := fits.methods.all method (found ▸ List.mem_append_cons_self)
    have fit' := (fits'.methods.all _ List.mem_append_cons_self).attributes
    have neutral (item : MethodAttributeLayout) (ignored : item.Ignored pool)
        (state : MethodDetails) : item.apply pool state = .ok state := by
      obtain ⟨other, rfl, ignored⟩ := ignored
      exact ignored.apply_eq (MethodDetails.handles_attributes pool) state
    have changed := agrees_readMethod fit fit' (foldlM_inserted neutral inserted)
    exact agrees_readContents fits fields
      (agrees_counted_changed found fits.methods.few fits.agrees_methods changed)
      fits.agrees_attributes
  | @ofBody before after method front back name body attributes found bodied inserted =>
    have fit := fits.methods.all method (found ▸ List.mem_append_cons_self)
    have fit' := (fits'.methods.all _ List.mem_append_cons_self).attributes
    refine agrees_readContents fits fields (agrees_counted_changed found fits.methods.few
      fits.agrees_methods (agrees_readMethod fit fit' fun start => ?_)) fits.agrees_attributes
    obtain ⟨-, bodyFits, called⟩ := fit.attributes.all (.body name body)
      (bodied ▸ List.mem_append_cons_self)
    obtain ⟨-, bodyFits', -⟩ := fit'.all (.body name { body with attributes })
      List.mem_append_cons_self
    have agrees := agrees_readBody pool bodyFits bodyFits' fun start => foldlM_inserted
      (fun _ ignored => ignored.apply_eq Code.handles_attributes) inserted start
    rw [bodied, List.foldlM_append, List.foldlM_append]
    refine congrArg _ (funext fun state => ?_)
    rw [List.foldlM_cons, List.foldlM_cons]
    exact congrArg (· >>= _) (apply_body_eq called agrees)

end Classes

namespace ClassFile

/-- Parts of which the same is made are the same class, or fail in the same way. -/
theorem parse_eq_of_agrees {bytes bytes' : List UInt8} (agrees : readContents.Agrees bytes bytes')
    {file : ClassFile} (accepted : parse bytes = .ok file) : parse bytes' = .ok file := by
  obtain ⟨position, contents⟩ := parse_eq_ok.mp accepted
  obtain ⟨result, computes, computes'⟩ := agrees
  have here := computes 0 []
  have there := computes' 0 []
  rw [List.append_nil] at here there
  obtain ⟨found, rfl, same⟩ := map_eq_ok.mp (here.symm.trans contents)
  cases same
  exact parse_eq_ok.mpr ⟨_, there⟩

/-- **Attributes without a meaning have no effect.**  Every class file that is accepted has a
layout.  If one more attribute is put into any table of any of its layouts, whose name is a text
that has no meaning at the level of this table, then the result is accepted as the same class, as
long as all counts and lengths fit into their bytes. -/
theorem parse_inserted {bytes : List UInt8} {file : ClassFile}
    (accepted : parse bytes = .ok file) :
    (∃ layout : ClassLayout, layout.Fits file.pool ∧ layout.bytes = bytes) ∧
    ∀ layout layout' : ClassLayout, layout.Fits file.pool → layout.bytes = bytes →
      layout.Inserts file.pool layout' → layout'.Fits file.pool →
        parse layout'.bytes = .ok file := by
  refine ⟨exists_layout_of_parse accepted, fun layout layout' fits same inserts fits' => ?_⟩
  subst same
  exact parse_eq_of_agrees (inserts.agrees fits fits') accepted

/-- The class `D` with a method that only returns, as it was read. -/
def plainFile : ClassFile where
  version := ⟨52, 0⟩
  pool := ⟨#[none, some (.utf8 (.ofString "D")), some (.classInfo 1), some (.utf8 (.ofString "m")),
    some (.utf8 (.ofString "()V")), some (.utf8 (.ofString "Code"))]⟩
  access := .ofFlags 0x21
  name := ⟨"D"⟩
  superClass := none
  interfaces := []
  fields := []
  methods := [⟨.ofFlags 8, "m", "()V", some ⟨0, 0, [0xb1], [], []⟩, [], .empty⟩]
  sourceFile := none
  annotations := .empty

/-- Where the class has its parts. -/
def plainLayout : ClassLayout where
  minor := 0
  major := 52
  pool := [0, 6, 1, 0, 1, 68, 7, 0, 1, 1, 0, 1, 109, 1, 0, 3, 40, 41, 86,
    1, 0, 4, 67, 111, 100, 101]
  flags := 0x21
  thisClass := 2
  superClass := 0
  interfaces := []
  fields := []
  methods := [⟨8, 3, 4, [.body 5 ⟨0, 0, [0xb1], [], []⟩]⟩]
  attributes := []

/-- The layout with other attributes of the body. -/
def plainLayoutWith (attributes : List AttributeLayout) : ClassLayout :=
  plainLayout.withTables [] [⟨8, 3, 4, [.body 5 ⟨0, 0, [0xb1], [], attributes⟩]⟩] []

theorem plainLayoutWith_fits {attributes : List AttributeLayout}
    (isTable : IsTable AttributeLayout.Fits attributes)
    (short : (BodyLayout.bytes ⟨0, 0, [0xb1], [], attributes⟩).length < 0x100000000) :
    (plainLayoutWith attributes).Fits plainFile.pool := by
  have word : ∀ number ≤ 0x21, number < 0x10000 := fun _ small =>
    Nat.lt_of_le_of_lt small (by decide)
  have nothing {α : Type} {fits : α → Prop} : IsTable fits [] :=
    ⟨Nat.zero_lt_succ _, List.forall_mem_nil _⟩
  have single {α : Type} {fits : α → Prop} {item : α} (fit : fits item) : IsTable fits [item] :=
    ⟨(by decide : 1 < 0x10000), List.forall_mem_singleton.mpr fit⟩
  have read : ConstantPool.read ⟨0, plainLayout.pool⟩ = .ok (plainFile.pool, ⟨26, []⟩) := by cbv
  obtain ⟨bytes, whole, takes, -⟩ := ConstantPool.selfDelimiting_read _ _ _ read
  have pool : plainLayout.pool = bytes := by simpa using whole
  have body : MethodAttributeLayout.Fits plainFile.pool
      (.body 5 ⟨0, 0, [0xb1], [], attributes⟩) :=
    ⟨⟨word 5 (by decide), short⟩, ⟨word 0 (by decide), word 0 (by decide),
      (by decide : 1 < 0x100000000), nothing, isTable⟩, ConstantPool.HasText.textAt rfl⟩
  exact ⟨word 0 (by decide), (by decide : 52 < 0x10000), pool ▸ takes, word 0x21 (by decide),
    word 2 (by decide), word 0 (by decide), nothing, nothing,
    single ⟨word 8 (by decide), word 3 (by decide), word 4 (by decide), single body⟩, nothing⟩

/-- An attribute `Code` has no meaning inside of a body. -/
theorem parse_inserted_nestedCode :
    parse plainClassBytes = .ok plainFile ∧ plainLayout.bytes = plainClassBytes ∧
      plainLayout.Inserts plainFile.pool (plainLayoutWith [⟨5, [1, 2, 3]⟩]) ∧
      parse (plainLayoutWith [⟨5, [1, 2, 3]⟩]).bytes = .ok plainFile := by
  have accepted : parse plainClassBytes = .ok plainFile := by cbv
  have same : plainLayout.bytes = plainClassBytes := by decide
  have inserted : Inserted (AttributeLayout.Ignored plainFile.pool .body) [] [⟨5, [1, 2, 3]⟩] :=
    .between [] [] ⟨AttributeKind.code.name, ConstantPool.HasText.textAt rfl, by decide⟩
  have inserts : plainLayout.Inserts plainFile.pool (plainLayoutWith [⟨5, [1, 2, 3]⟩]) :=
    @ClassLayout.Inserts.ofBody plainFile.pool plainLayout [] [] ⟨8, 3, 4, _⟩ [] [] 5
      ⟨0, 0, [0xb1], [], []⟩ _ rfl rfl inserted
  have fits : plainLayout.Fits plainFile.pool :=
    plainLayoutWith_fits ⟨by decide, List.forall_mem_nil _⟩ (by decide)
  have fits' : (plainLayoutWith [⟨5, [1, 2, 3]⟩]).Fits plainFile.pool :=
    plainLayoutWith_fits
      ⟨by decide, List.forall_mem_singleton.mpr ⟨by decide, by decide⟩⟩ (by decide)
  exact ⟨accepted, same, inserts,
    (parse_inserted accepted).2 plainLayout _ fits same inserts fits'⟩

/-- A class with a text in its pool that is a lone surrogate. -/
def surrogateLayout : ClassLayout where
  minor := 0
  major := 52
  pool := [0, 4, 1, 0, 1, 65, 7, 0, 1, 1, 0, 3, 0xed, 0xa0, 0x80]
  flags := 0x21
  thisClass := 2
  superClass := 0
  interfaces := []
  fields := []
  methods := []
  attributes := []

/-- An attribute may not be named by a lone surrogate, which is no text, although nothing that has
a meaning is named like that. -/
theorem parse_inserted_surrogate :
    (∃ file, parse surrogateLayout.bytes = .ok file ∧ file.pool.Has 3 (.utf8 ⟨[0xd800]⟩)) ∧
      ∃ failure, parse (surrogateLayout.withTables [] [] [⟨3, []⟩]).bytes = .error failure ∧
        failure.cause = .decode (.malformedUtf8 3) := by
  constructor
  · refine ⟨_, by cbv, ?_⟩
    rfl
  · exact ⟨_, by cbv, rfl⟩

end ClassFile

end Bytescript
