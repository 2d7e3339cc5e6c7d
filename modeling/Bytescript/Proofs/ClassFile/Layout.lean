import Bytescript.Proofs.Binary.Computing
import Bytescript.Proofs.ClassFile.Truncation

/-!
# How class files are laid out

A class file consists of the version, the pool, a few words, and tables: of interfaces, fields,
methods and attributes.  Fields and methods have tables of attributes of their own, and so has the
body of a method, which is itself the contents of an attribute.  A layout says which bytes belong
to which of these parts, without a word on what the parts mean.  Counts and lengths are not part
of it, as they follow from the rest.  Every class file that is accepted has a layout.
-/

set_option autoImplicit false

namespace Bytescript

open Binary Reader Assembly

/-! ## Layouts -/

/-- Where an attribute has its parts. -/
structure AttributeLayout where
  name : Nat
  contents : List UInt8

/-- Where the body of a method has its parts. -/
structure BodyLayout where
  maxStack : Nat
  maxLocals : Nat
  bytecode : List UInt8
  handlers : List StoredException
  attributes : List AttributeLayout

/-- An attribute of a method, which may be its body. -/
inductive MethodAttributeLayout where
  | plain (layout : AttributeLayout)
  | body (name : Nat) (layout : BodyLayout)

/-- Where a field or a method has its parts. -/
structure MemberLayout (Attribute : Type) where
  flags : Nat
  name : Nat
  descriptor : Nat
  attributes : List Attribute

/-- Where a class file has its parts. -/
structure ClassLayout where
  minor : Nat
  major : Nat
  pool : List UInt8
  flags : Nat
  thisClass : Nat
  superClass : Nat
  interfaces : List Nat
  fields : List (MemberLayout AttributeLayout)
  methods : List (MemberLayout MethodAttributeLayout)
  attributes : List AttributeLayout

/-! ## Layouts as bytes -/

def AttributeLayout.bytes (layout : AttributeLayout) : List UInt8 :=
  StoredAttribute.framed layout.name layout.contents

def BodyLayout.bytes (layout : BodyLayout) : List UInt8 :=
  word16 layout.maxStack ++ (word16 layout.maxLocals ++
    (bigEndianBytes 4 layout.bytecode.length ++ (layout.bytecode ++
      (counted (layout.handlers.map StoredException.bytes) ++
        counted (layout.attributes.map AttributeLayout.bytes)))))

/-- An attribute of a method like any other. -/
def MethodAttributeLayout.toAttribute : MethodAttributeLayout → AttributeLayout
  | plain layout => layout
  | body name layout => ⟨name, layout.bytes⟩

def MethodAttributeLayout.bytes (layout : MethodAttributeLayout) : List UInt8 :=
  layout.toAttribute.bytes

def MemberLayout.bytes {Attribute : Type} (bytes : Attribute → List UInt8)
    (layout : MemberLayout Attribute) : List UInt8 :=
  word16 layout.flags ++ (word16 layout.name ++ (word16 layout.descriptor ++
    counted (layout.attributes.map bytes)))

def ClassLayout.bytes (layout : ClassLayout) : List UInt8 :=
  (bigEndianBytes 4 classFileMagic ++ (word16 layout.minor ++ word16 layout.major)) ++
    (layout.pool ++ (word16 layout.flags ++ (word16 layout.thisClass ++ (word16 layout.superClass ++
      (counted (layout.interfaces.map word16) ++
        (counted (layout.fields.map (MemberLayout.bytes AttributeLayout.bytes)) ++
          (counted (layout.methods.map (MemberLayout.bytes MethodAttributeLayout.bytes)) ++
            counted (layout.attributes.map AttributeLayout.bytes))))))))

/-! ## Layouts that fit -/

/-- The words of an entry fit into their bytes. -/
structure Assembly.StoredException.Fits (entry : StoredException) : Prop where
  start : entry.start < 0x10000
  stop : entry.stop < 0x10000
  handler : entry.handler < 0x10000
  catchType : entry.catchType < 0x10000

/-- The index and the length fit into their bytes. -/
structure AttributeLayout.Fits (layout : AttributeLayout) : Prop where
  name : layout.name < 0x10000
  length : layout.contents.length < 0x100000000

/-- The words, counts and lengths of a body fit into their bytes. -/
structure BodyLayout.Fits (layout : BodyLayout) : Prop where
  maxStack : layout.maxStack < 0x10000
  maxLocals : layout.maxLocals < 0x10000
  length : layout.bytecode.length < 0x100000000
  handlers : IsTable StoredException.Fits layout.handlers
  attributes : IsTable AttributeLayout.Fits layout.attributes

/-- An attribute fits, and it is laid out as a body if and only if that is what it is called. -/
def MethodAttributeLayout.Fits (pool : ConstantPool) : MethodAttributeLayout → Prop
  | plain layout => layout.Fits ∧ pool.textAt layout.name ≠ .ok AttributeKind.code.name
  | body name layout =>
    (AttributeLayout.mk name layout.bytes).Fits ∧ layout.Fits ∧
      pool.textAt name = .ok AttributeKind.code.name

/-- The words of a member fit into their bytes, and so do its attributes. -/
structure MemberLayout.Fits {Attribute : Type} (fits : Attribute → Prop)
    (layout : MemberLayout Attribute) : Prop where
  flags : layout.flags < 0x10000
  name : layout.name < 0x10000
  descriptor : layout.descriptor < 0x10000
  attributes : IsTable fits layout.attributes

/-- Everything fits into its bytes, and the bytes of the pool are those of a given one. -/
structure ClassLayout.Fits (constants : ConstantPool) (layout : ClassLayout) : Prop where
  minor : layout.minor < 0x10000
  major : layout.major < 0x10000
  pool : ConstantPool.read.Takes layout.pool constants
  flags : layout.flags < 0x10000
  thisClass : layout.thisClass < 0x10000
  superClass : layout.superClass < 0x10000
  interfaces : IsTable (· < 0x10000) layout.interfaces
  fields : IsTable (MemberLayout.Fits AttributeLayout.Fits) layout.fields
  methods : IsTable (MemberLayout.Fits (MethodAttributeLayout.Fits constants)) layout.methods
  attributes : IsTable AttributeLayout.Fits layout.attributes

/-! ## Single attributes -/

section Attributes

variable {State : Type} {pool : ConstantPool} {table : AttributeTable State}

/-- What an attribute does to what was gathered before it. -/
def AttributeLayout.apply (pool : ConstantPool) (table : AttributeTable State) (state : State)
    (layout : AttributeLayout) : Except Failure State := do
  let name ← pool.textAt layout.name
  match AttributeKind.ofName? name with
  | none => return state
  | some kind =>
    match table kind state with
    | none => return state
    | some reader =>
      let (state, cursor) ← during (.attribute name) (reader.runOn layout.contents)
      checkConsumed name layout.contents.length cursor
      return state

theorem checkConsumed_eq_ok {name : String} {declared : Nat} {cursor : Cursor} :
    checkConsumed name declared cursor = .ok () ↔ cursor.position = declared := by
  rw [checkConsumed]
  by_cases used : cursor.position = declared
  · rw [if_pos used]
    exact iff_of_true rfl used
  · rw [if_neg used]
    exact iff_of_false nofun used

theorem AttributeKind.ofName?_name (kind : AttributeKind) : ofName? kind.name = some kind := by
  cases kind <;> decide

/-- An attribute with a meaning at a level is read on its own, and it must be used up. -/
theorem AttributeLayout.apply_eq {layout : AttributeLayout} {state : State} {kind : AttributeKind}
    {reader : Reader State} (found : pool.textAt layout.name = .ok kind.name)
    (handled : table kind state = some reader) :
    layout.apply pool table state =
      (do
        let (state, cursor) ← during (.attribute kind.name) (reader.runOn layout.contents)
        checkConsumed kind.name layout.contents.length cursor
        return state) := by
  rw [apply, found]
  show (match AttributeKind.ofName? kind.name with
    | none => Except.ok state
    | some kind => _) = _
  rw [kind.ofName?_name]
  dsimp only
  rw [handled]

/-- An attribute is taken as a whole, whatever comes of it. -/
theorem AttributeLayout.Fits.computes {layout : AttributeLayout} (fits : layout.Fits)
    (state : State) :
    (readAttribute pool table state).Computes layout.bytes (layout.apply pool table state) := by
  obtain ⟨index, contents⟩ := layout
  rw [AttributeLayout.bytes, StoredAttribute.framed, List.append_assoc]
  refine (takes_u16 fits.name).bind_computes (computes_ofExcept_bind fun name => ?_)
  refine (takes_u32 fits.length).bind_computes ?_
  cases AttributeKind.ofName? name with
  | none => exact (takes_skip contents).bind_computes_nil (takes_pure state)
  | some kind =>
    refine (takes_take contents).bind_computes_nil ?_
    dsimp only
    cases table kind state with
    | none => exact takes_pure state
    | some reader =>
      refine computes_ofExcept_bind fun (state, cursor) => ?_
      exact computes_ofExcept_bind fun _ => takes_pure state

theorem forms_readAttribute (state : State) :
    (readAttribute pool table state).Forms AttributeLayout.bytes AttributeLayout.Fits := by
  intro cursor value after read
  obtain ⟨index, one, first, read⟩ := bindState_eq_ok.mp read
  obtain ⟨small, passes⟩ := u16_eq_ok first
  obtain ⟨name, two, found, read⟩ := bindState_eq_ok.mp read
  obtain ⟨-, rfl⟩ := ofExcept_eq_ok found
  obtain ⟨length, three, second, read⟩ := bindState_eq_ok.mp read
  obtain ⟨small', passes'⟩ := u32_eq_ok second
  have whole {contents : List UInt8} {last : Cursor} (same : contents.length = length)
      (passes'' : three.Passes contents last) :
      ∃ layout : AttributeLayout, layout.Fits ∧ cursor.Passes layout.bytes last := by
    refine ⟨⟨index, contents⟩, ⟨small, same ▸ small'⟩, ?_⟩
    subst same
    exact (passes.append passes').append passes''
  cases known : AttributeKind.ofName? name with
  | none =>
    rw [known] at read
    obtain ⟨_, _, skipped, read⟩ := bindState_eq_ok.mp read
    cases read
    obtain ⟨contents, same, passes''⟩ := skip_eq_ok skipped
    exact whole same passes''
  | some kind =>
    rw [known] at read
    obtain ⟨contents, last, taken, read⟩ := bindState_eq_ok.mp read
    obtain ⟨same, passes''⟩ := take_eq_ok taken
    obtain rfl : last = after := by
      dsimp only at read
      cases answer : table kind state with
      | none =>
        rw [answer] at read
        cases read
        rfl
      | some reader =>
        rw [answer] at read
        obtain ⟨_, _, inside, read⟩ := bindState_eq_ok.mp read
        obtain ⟨-, rfl⟩ := ofExcept_eq_ok inside
        obtain ⟨_, _, consumed, read⟩ := bindState_eq_ok.mp read
        obtain ⟨-, rfl⟩ := ofExcept_eq_ok consumed
        cases read
        rfl
    exact whole same passes''

/-! ## Tables of attributes -/

variable {Layout : Type} {bytes : Layout → List UInt8} {fits : Layout → Prop}

theorem forms_readAttributeList
    (forms : ∀ state, (readAttribute pool table state).Forms bytes fits) {count : Nat}
    {start last : State} {cursor after : Cursor}
    (read : readAttributeList pool table count start cursor = .ok (last, after)) :
    ∃ layouts : List Layout, layouts.length = count ∧ (∀ layout ∈ layouts, fits layout) ∧
      cursor.Passes (layouts.map bytes).flatten after := by
  induction count generalizing start cursor with
  | zero =>
    cases read
    exact ⟨[], rfl, List.forall_mem_nil _, Cursor.passes_nil _⟩
  | succ count ih =>
    obtain ⟨state, middle, first, read⟩ := bindState_eq_ok.mp read
    obtain ⟨layout, fits, passes⟩ := forms start cursor state middle first
    obtain ⟨layouts, rfl, all, passes'⟩ := ih read
    exact ⟨layout :: layouts, rfl, List.forall_mem_cons.mpr ⟨fits, all⟩, passes.append passes'⟩

theorem forms_readAttributes
    (forms : ∀ state, (readAttribute pool table state).Forms bytes fits) (start : State) :
    (readAttributes pool table start).Forms (fun items => counted (items.map bytes))
      (IsTable fits) := by
  intro cursor last after read
  obtain ⟨count, middle, first, read⟩ := bindState_eq_ok.mp read
  obtain ⟨few, passes⟩ := u16_eq_ok first
  obtain ⟨layouts, rfl, all, passes'⟩ := forms_readAttributeList forms read
  refine ⟨layouts, ⟨few, all⟩, ?_⟩
  show cursor.Passes (counted (layouts.map bytes)) after
  rw [Assembly.counted, List.length_map]
  exact passes.append passes'

end Attributes

/-! ## Bodies -/

theorem forms_readException (pool : ConstantPool) (codeLength : Nat) :
    (ExceptionEntry.read pool codeLength).Forms StoredException.bytes StoredException.Fits := by
  intro cursor entry after read
  obtain ⟨start, _, first, read⟩ := bindState_eq_ok.mp read
  obtain ⟨stop, _, second, read⟩ := bindState_eq_ok.mp read
  obtain ⟨handler, _, third, read⟩ := bindState_eq_ok.mp read
  obtain ⟨catchType, last, fourth, read⟩ := bindState_eq_ok.mp read
  obtain ⟨caught, _, found, read⟩ := bindState_eq_ok.mp read
  obtain ⟨-, rfl⟩ := ofExcept_eq_ok found
  obtain rfl : last = after := by
    split at read
    · cases read
      rfl
    · cases read
  obtain ⟨startFits, one⟩ := u16_eq_ok first
  obtain ⟨stopFits, two⟩ := u16_eq_ok second
  obtain ⟨handlerFits, three⟩ := u16_eq_ok third
  obtain ⟨catchFits, four⟩ := u16_eq_ok fourth
  exact ⟨⟨start, stop, handler, catchType⟩, ⟨startFits, stopFits, handlerFits, catchFits⟩,
    ((one.append two).append three).append four⟩

theorem forms_readBody (pool : ConstantPool) :
    (Code.read pool).Forms BodyLayout.bytes BodyLayout.Fits := by
  intro cursor code after read
  obtain ⟨maxStack, _, first, read⟩ := bindState_eq_ok.mp read
  obtain ⟨maxLocals, _, second, read⟩ := bindState_eq_ok.mp read
  obtain ⟨length, _, third, read⟩ := bindState_eq_ok.mp read
  split at read
  · cases read
  obtain ⟨bytecode, _, taken, read⟩ := bindState_eq_ok.mp read
  obtain ⟨_, _, handled, read⟩ := bindState_eq_ok.mp read
  obtain ⟨_, _, attributed, read⟩ := bindState_eq_ok.mp read
  cases read
  obtain ⟨stackFits, one⟩ := u16_eq_ok first
  obtain ⟨localsFit, two⟩ := u16_eq_ok second
  obtain ⟨lengthFits, three⟩ := u32_eq_ok third
  obtain ⟨rfl, four⟩ := take_eq_ok taken
  obtain ⟨handlers, handlersFit, five⟩ := (forms_readException pool _).counted _ _ _ handled
  obtain ⟨attributes, attributesFit, six⟩ :=
    forms_readAttributes forms_readAttribute [] _ _ _ attributed
  exact ⟨⟨maxStack, maxLocals, bytecode, handlers, attributes⟩,
    ⟨stackFits, localsFit, lengthFits, handlersFit, attributesFit⟩,
    one.append (two.append (three.append (four.append (five.append six))))⟩

/-! ## Members -/

/-- Reads a field or a method, given what becomes of its attributes. -/
def readMember {Details Member : Type} (pool : ConstantPool)
    (details : String → String → Reader Details)
    (make : Nat → String → String → Details → Member) : Reader Member := do
  let flags ← u16
  let name ← Reader.ofExcept (pool.textAt (← u16))
  let descriptor ← Reader.ofExcept (pool.textAt (← u16))
  return make flags name descriptor (← details name descriptor)

theorem Field.read_eq (pool : ConstantPool) : Field.read pool =
    readMember pool
      (fun name descriptor =>
        (readAttributes pool (FieldDetails.attributes pool) ⟨none, .empty⟩).within
          (.field name descriptor))
      fun flags name descriptor details =>
        ⟨.ofFlags flags, name, descriptor, details.constant, details.annotations⟩ :=
  rfl

theorem Method.read_eq (pool : ConstantPool) : Method.read pool =
    readMember pool
      (fun name descriptor =>
        (readAttributes pool (MethodDetails.attributes pool) ⟨none, [], .empty⟩).within
          (.method name descriptor))
      fun flags name descriptor details =>
        ⟨.ofFlags flags, name, descriptor, details.code, details.exceptions,
          details.annotations⟩ :=
  rfl

theorem forms_readMember {Details Member Attribute : Type} {pool : ConstantPool}
    {details : String → String → Reader Details}
    {make : Nat → String → String → Details → Member} {bytes : Attribute → List UInt8}
    {fits : Attribute → Prop}
    (forms : ∀ name descriptor, (details name descriptor).Forms
      (fun items => counted (items.map bytes)) (IsTable fits)) :
    (readMember pool details make).Forms (MemberLayout.bytes bytes) (MemberLayout.Fits fits) := by
  intro cursor member after read
  obtain ⟨flags, _, first, read⟩ := bindState_eq_ok.mp read
  obtain ⟨index, _, second, read⟩ := bindState_eq_ok.mp read
  obtain ⟨name, _, found, read⟩ := bindState_eq_ok.mp read
  obtain ⟨-, rfl⟩ := ofExcept_eq_ok found
  obtain ⟨index', _, third, read⟩ := bindState_eq_ok.mp read
  obtain ⟨descriptor, _, found', read⟩ := bindState_eq_ok.mp read
  obtain ⟨-, rfl⟩ := ofExcept_eq_ok found'
  obtain ⟨_, _, attributed, read⟩ := bindState_eq_ok.mp read
  cases read
  obtain ⟨flagsFit, one⟩ := u16_eq_ok first
  obtain ⟨nameFits, two⟩ := u16_eq_ok second
  obtain ⟨descriptorFits, three⟩ := u16_eq_ok third
  obtain ⟨attributes, attributesFit, four⟩ := forms _ _ _ _ _ attributed
  exact ⟨⟨flags, index, index', attributes⟩,
    ⟨flagsFit, nameFits, descriptorFits, attributesFit⟩,
    one.append (two.append (three.append four))⟩

/-- The contents of an attribute called like a body are laid out as one. -/
theorem exists_body {pool : ConstantPool} {layout : AttributeLayout} {state after : MethodDetails}
    (code : pool.textAt layout.name = .ok AttributeKind.code.name)
    (applied : layout.apply pool (MethodDetails.attributes pool) state = .ok after) :
    ∃ body : BodyLayout, body.Fits ∧ layout.contents = body.bytes := by
  rw [AttributeLayout.apply_eq code rfl] at applied
  obtain ⟨⟨_, cursor⟩, inside, consumed⟩ := bind_eq_ok.mp applied
  obtain ⟨position, -⟩ := check_eq_ok.mp consumed
  have inside := during_eq_ok.mp inside
  rw [runOn] at inside
  split at inside
  · cases inside
  obtain ⟨_, _, read, same⟩ := bindState_eq_ok.mp inside
  cases same
  obtain ⟨body, fits, rest, behind⟩ := forms_readBody pool _ _ _ read
  refine ⟨body, fits, ?_⟩
  -- The attribute was used up, so nothing of it is behind the body.
  have whole : layout.contents = body.bytes ++ cursor.rest := rest
  have used : layout.contents.length = body.bytes.length :=
    (checkConsumed_eq_ok.mp position).symm.trans (behind.trans (Nat.zero_add _))
  rw [whole, List.length_append] at used
  rw [whole, List.eq_nil_of_length_eq_zero (Nat.add_eq_left.mp used), List.append_nil]

theorem forms_readMethodAttribute (pool : ConstantPool) (state : MethodDetails) :
    (readAttribute pool (MethodDetails.attributes pool) state).Forms MethodAttributeLayout.bytes
      (MethodAttributeLayout.Fits pool) := by
  intro cursor value after read
  obtain ⟨layout, fits, passes⟩ := forms_readAttribute _ _ _ _ read
  by_cases code : pool.textAt layout.name = .ok AttributeKind.code.name
  · obtain ⟨body, bodyFits, same⟩ := exists_body code ((fits.computes state).eq_ok passes read)
    obtain ⟨name, contents⟩ := layout
    cases same
    exact ⟨.body name body, ⟨fits, bodyFits, code⟩, passes⟩
  · exact ⟨.plain layout, ⟨fits, code⟩, passes⟩

/-! ## Classes -/

theorem forms_readName (pool : ConstantPool) :
    (ClassName.read pool).Forms word16 (· < 0x10000) := by
  intro cursor name after read
  obtain ⟨index, _, first, read⟩ := bindState_eq_ok.mp read
  obtain ⟨-, rfl⟩ := ofExcept_eq_ok read
  exact ⟨index, u16_eq_ok first⟩

theorem forms_readField (pool : ConstantPool) :
    (Field.read pool).Forms (MemberLayout.bytes AttributeLayout.bytes)
      (MemberLayout.Fits AttributeLayout.Fits) := by
  rw [Field.read_eq]
  exact forms_readMember fun _ _ => (forms_readAttributes forms_readAttribute _).within _

theorem forms_readMethod (pool : ConstantPool) :
    (Method.read pool).Forms (MemberLayout.bytes MethodAttributeLayout.bytes)
      (MemberLayout.Fits (MethodAttributeLayout.Fits pool)) := by
  rw [Method.read_eq]
  exact forms_readMember fun _ _ =>
    (forms_readAttributes (forms_readMethodAttribute pool) _).within _

theorem passes_readVersion {cursor after : Cursor} {version : Version}
    (read : ClassFile.readVersion cursor = .ok (version, after)) :
    ∃ minor major, (minor < 0x10000 ∧ major < 0x10000) ∧ cursor.Passes
      (bigEndianBytes 4 classFileMagic ++ (word16 minor ++ word16 major)) after := by
  obtain ⟨magic, _, first, read⟩ := bindState_eq_ok.mp read
  by_cases right : magic = classFileMagic
  · rw [if_neg (not_not.mpr right)] at read
    obtain ⟨minor, _, second, read⟩ := bindState_eq_ok.mp read
    obtain ⟨major, last, third, read⟩ := bindState_eq_ok.mp read
    obtain rfl : last = after := by
      split at read
      · cases read
        rfl
      · cases read
    subst right
    obtain ⟨-, one⟩ := u32_eq_ok first
    obtain ⟨minorFits, two⟩ := u16_eq_ok second
    obtain ⟨majorFits, three⟩ := u16_eq_ok third
    exact ⟨minor, major, ⟨minorFits, majorFits⟩, one.append (two.append three)⟩
  · rw [if_pos right] at read
    cases read

/-- The bytes of a pool that was read. -/
theorem passes_readPool {cursor after : Cursor} {pool : ConstantPool}
    (read : ConstantPool.read cursor = .ok (pool, after)) :
    ∃ bytes, ConstantPool.read.Takes bytes pool ∧ cursor.Passes bytes after :=
  ConstantPool.selfDelimiting_read.relates _ _ _ read

theorem ConstantPool.length_readSlots (count : Nat) :
    ∀ (remaining : Nat) {cursor after : Cursor} {slots : List (Option (PoolEntry JavaString))},
      readSlots count remaining cursor = .ok (slots, after) → slots.length = remaining
  | 0, _, _, _, read => by
    cases read
    rfl
  | 1, _, _, _, read => by
    obtain ⟨entry, _, _, read⟩ := bindState_eq_ok.mp read
    split at read <;> cases read
    rfl
  | remaining + 2, _, _, _, read => by
    obtain ⟨entry, _, _, read⟩ := bindState_eq_ok.mp read
    split at read
    · obtain ⟨rest, _, later, read⟩ := bindState_eq_ok.mp read
      cases read
      rw [List.length_cons, List.length_cons, length_readSlots count remaining later]
    · obtain ⟨rest, _, later, read⟩ := bindState_eq_ok.mp read
      cases read
      rw [List.length_cons, length_readSlots count (remaining + 1) later]

/-- A pool that is read has as many slots as it says, which fit into two bytes. -/
theorem ConstantPool.count_lt_of_read {pool : ConstantPool} {cursor after : Cursor}
    (read : ConstantPool.read cursor = .ok (pool, after)) : pool.count < 0x10000 := by
  obtain ⟨count, _, first, read⟩ := bindState_eq_ok.mp read
  obtain ⟨small, -⟩ := u16_eq_ok first
  split at read
  · cases read
  next written =>
    obtain ⟨slots, _, later, read⟩ := bindState_eq_ok.mp read
    cases read
    have length := length_readSlots _ _ later
    show (none :: slots).toArray.size < 0x10000
    rw [List.size_toArray, List.length_cons]
    omega

/-- A class that was read is laid out with the bytes of its pool. -/
theorem ClassFile.exists_layout {cursor after : Cursor} {file : ClassFile}
    (read : readContents cursor = .ok (file, after)) :
    ∃ layout : ClassLayout, layout.Fits file.pool ∧ cursor.Passes layout.bytes after := by
  obtain ⟨version, _, versioned, read⟩ := bindState_eq_ok.mp read
  obtain ⟨pool, _, pooled, read⟩ := bindState_eq_ok.mp read
  obtain ⟨flags, _, flagged, read⟩ := bindState_eq_ok.mp read
  obtain ⟨thisClass, _, this, read⟩ := bindState_eq_ok.mp read
  obtain ⟨_, _, named, read⟩ := bindState_eq_ok.mp read
  obtain ⟨-, rfl⟩ := ofExcept_eq_ok (during_eq_ok.mp named)
  obtain ⟨superClass, _, extended, read⟩ := bindState_eq_ok.mp read
  obtain ⟨_, _, named, read⟩ := bindState_eq_ok.mp read
  obtain ⟨-, rfl⟩ := ofExcept_eq_ok (during_eq_ok.mp named)
  obtain ⟨_, _, implemented, read⟩ := bindState_eq_ok.mp read
  obtain ⟨_, _, fielded, read⟩ := bindState_eq_ok.mp read
  obtain ⟨_, _, methoded, read⟩ := bindState_eq_ok.mp read
  obtain ⟨_, _, attributed, read⟩ := bindState_eq_ok.mp read
  cases read
  obtain ⟨minor, major, ⟨minorFits, majorFits⟩, one⟩ := passes_readVersion versioned
  obtain ⟨poolBytes, takes, two⟩ := passes_readPool pooled
  obtain ⟨flagsFit, three⟩ := u16_eq_ok flagged
  obtain ⟨thisFits, four⟩ := u16_eq_ok this
  obtain ⟨superFits, five⟩ := u16_eq_ok extended
  obtain ⟨interfaces, interfacesFit, six⟩ := (forms_readName pool).counted _ _ _ implemented
  obtain ⟨fields, fieldsFit, seven⟩ := (forms_readField pool).counted.within _ _ _ _ fielded
  obtain ⟨methods, methodsFit, eight⟩ := (forms_readMethod pool).counted.within _ _ _ _ methoded
  obtain ⟨attributes, attributesFit, nine⟩ :=
    (forms_readAttributes forms_readAttribute _).within _ _ _ _ attributed
  refine ⟨⟨minor, major, poolBytes, flags, thisClass, superClass, interfaces, fields, methods,
    attributes⟩, ⟨minorFits, majorFits, takes, flagsFit, thisFits, superFits, interfacesFit,
    fieldsFit, methodsFit, attributesFit⟩, ?_⟩
  exact one.append (two.append (three.append (four.append (five.append (six.append
    (seven.append (eight.append nine)))))))

/-- Every class file that is accepted has a layout. -/
theorem ClassFile.exists_layout_of_parse {bytes : List UInt8} {file : ClassFile}
    (accepted : parse bytes = .ok file) :
    ∃ layout : ClassLayout, layout.Fits file.pool ∧ layout.bytes = bytes := by
  obtain ⟨position, contents⟩ := parse_eq_ok.mp accepted
  obtain ⟨layout, fits, passes⟩ := exists_layout contents
  exact ⟨layout, fits, by simpa [Cursor.start] using passes.rest.symm⟩

end Bytescript
