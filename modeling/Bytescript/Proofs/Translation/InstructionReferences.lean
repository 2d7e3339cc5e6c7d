import Bytescript.Proofs.Support.Text
import Bytescript.Proofs.Translation.Block
import Bytescript.Proofs.Translation.Holders

/-!
# What instructions refer to

Every instruction takes values from the variables that hold them, and puts values into variables
that it assigns, so the effect of any instruction is closed, and so is that of a run of them.  An
instruction only calls functions of the support library whose features are recorded for it.  The
classes that it names in the script are not always those that it names in the class file: static
members and methods that are called exactly belong to the classes that declare them.
-/

set_option autoImplicit false

namespace Bytescript

/-- An instruction calls a method, either exactly or as the class of the receiver chooses. -/
inductive Instruction.CallsMethod : Instruction → MemberRef → (isExact : Bool) → Prop where
  | virtual (method : MemberRef) : CallsMethod (.invokeVirtual method) method false
  | interface (method : MemberRef) : CallsMethod (.invokeInterface method) method false
  | special (method : MemberRef) (onInterface : Bool) :
    CallsMethod (.invokeSpecial method onInterface) method true

namespace Translation

open Bytescript.Flow Script Expression

/-- What the code of an instruction refers to, apart from functions of the support library.  Methods
of arrays are those of the root class, apart from the one that clones them. -/
inductive RefersTo (table : ClassTable) : Instruction → Reference → Prop where
  | new (name : ClassName) : RefersTo table (.new name) (.owner name)
  | getStatic (field : MemberRef) :
    RefersTo table (.getStatic field) (.owner (table.resolveField field.owner field.name))
  | putStatic (field : MemberRef) :
    RefersTo table (.putStatic field) (.owner (table.resolveField field.owner field.name))
  | getField (field : MemberRef) : RefersTo table (.getField field)
    (.property (table.instanceProperty (table.resolveField field.owner field.name) field.name))
  | putField (field : MemberRef) : RefersTo table (.putField field)
    (.property (table.instanceProperty (table.resolveField field.owner field.name) field.name))
  | length : RefersTo table .arrayLength (.property "length")
  | static (method : MemberRef) (onInterface : Bool) :
    RefersTo table (.invokeStatic method onInterface)
      (.owner (table.resolveMethod method.owner method.name method.descriptor))
  | exact {method : MemberRef} {type : MethodType} (onInterface : Bool)
      (parsed : MethodType.parse method.descriptor = .ok type) :
    RefersTo table (.invokeSpecial method onInterface)
      (.exact (table.resolveMethod method.owner method.name method.descriptor) method.name type)
  | array {instruction : Instruction} {method : MemberRef} {type : MethodType}
      (calls : instruction.CallsMethod method false) (isArray : method.owner.isArray = true)
      (other : method.name ≠ "clone") (parsed : MethodType.parse method.descriptor = .ok type) :
    RefersTo table instruction (.exact .object method.name type)

variable {known reads : Variable → Prop} {allowed : Reference → Prop} {first second : Expression}
  {site : Site}

/-- All functions with one of some features are allowed. -/
def CallsAllowed (allowed : Reference → Prop) (features : List Support.Feature) : Prop :=
  ∀ function : Support.Function, function.feature ∈ features → allowed (.function function)

/-- All that the code of an instruction refers to is allowed, and all functions whose features are
recorded for it. -/
structure Allows (table : ClassTable) (allowed : Reference → Prop) (instruction : Instruction) :
    Prop where
  calls : CallsAllowed allowed (instructionFeatures instruction)
  members : ∀ reference, RefersTo table instruction reference → allowed reference

theorem callsAllowed_true (features : List Support.Feature) :
    CallsAllowed (fun _ => True) features :=
  fun _ _ => trivial

theorem allows_true (table : ClassTable) (instruction : Instruction) :
    Allows table (fun _ => True) instruction :=
  ⟨callsAllowed_true _, fun _ _ => trivial⟩

/-! ## Arithmetic -/

theorem refersOnly_arithmetic {op : ArithmeticOp} {on : Numeric}
    (calls : CallsAllowed allowed (arithmeticFeatures op on))
    (left : first.RefersOnly reads allowed) (right : second.RefersOnly reads allowed) :
    (arithmetic op on first second).RefersOnly reads allowed := by
  cases on <;> cases op <;> simp [arithmetic, wrapInt, wrapLong, roundFloat, left, right]
  all_goals exact calls _ (List.mem_singleton_self _)

theorem refersOnly_negation (on : Numeric) (operand : first.RefersOnly reads allowed) :
    (negation on first).RefersOnly reads allowed := by
  cases on <;> simp [negation, wrapInt, wrapLong, operand]

theorem refersOnly_shifted (op : ShiftOp) (on : Integral) (value : first.RefersOnly reads allowed)
    (amount : second.RefersOnly reads allowed) :
    (shifted op on first second).RefersOnly reads allowed := by
  cases on <;> cases op <;> simp [shifted, wrapInt, wrapLong, longShiftAmount, value, amount]

theorem refersOnly_bitwise (op : BitwiseOp) (left : first.RefersOnly reads allowed)
    (right : second.RefersOnly reads allowed) :
    (bitwise op first second).RefersOnly reads allowed := by
  cases op <;> simp [bitwise, left, right]

theorem refersOnly_converted {conversion : Conversion}
    (calls : CallsAllowed allowed (conversionFeatures conversion))
    (value : first.RefersOnly reads allowed) :
    (converted conversion first).RefersOnly reads allowed := by
  cases conversion <;> simp [converted, roundFloat, narrow, low16, value]
  all_goals exact calls _ (List.mem_singleton_self _)

/-! ## Arrays and objects -/

theorem refersOnly_asElement (element : ElementKind) (value : first.RefersOnly reads allowed) :
    (asElement element first).RefersOnly reads allowed := by
  cases element <;> simp [asElement, low16, narrow, value]

theorem refersOnly_nonNull {reference : Variable} (checks : allowed (.function .nonNull))
    (here : reads reference) : (nonNull reference).RefersOnly reads allowed := by
  simp [nonNull, checks, here]

theorem loadConstant_closes {value : Loadable}
    (calls : CallsAllowed allowed (loadableFeatures value)) :
    (loadConstant site value).Closes known allowed := by
  cases value with
  | constant value => exact pushes_closes refersOnly_constant
  | classLiteral name =>
    have literal := calls .classOf (List.mem_singleton_self _)
    exact pushes_closes (by simp [literal])
  | methodHandle | methodType | dynamic => exact closes_failure

theorem storeElement_closes {element : ElementKind}
    (stores : allowed (.function (storeFunction element))) :
    (storeElement site element).Closes known allowed := by
  refine closes_after (takes_pop _) fun value here => closes_after (takes_pop _) fun _ index =>
    closes_after (takes_pop _) fun _ array => closes_single (refersOnly_support.mpr ⟨stores, ?_⟩)
  have read : (Expression.read value).RefersOnly (Readable known) allowed :=
    refersOnly_read.mpr (.inr here)
  simp [Readable, index, array, refersOnly_asElement element read]

theorem dropOne_closes : (dropOne site).Closes known allowed := by
  refine closes_after takes_popAny fun ⟨kind, _⟩ _ => ?_
  dsimp only
  split
  · exact closes_failure
  · exact closes_nil

/-- A value whose variable stays where it is. -/
theorem checkCast_closes (name : ClassName) (checks : allowed (.function .cast)) :
    (checkCast site name).Closes known allowed := by
  intro stack effect after held finished
  obtain ⟨object, rest, popped, ended⟩ := bindState_eq_ok.mp finished
  obtain ⟨rfl, rfl⟩ := eq_cons_of_pop popped
  have checked : (Statement.evaluate (.support .cast [.read (.stack .reference rest.length),
      .classString name])).RefersOnly (Readable known) allowed :=
    refersOnly_support.mpr ⟨checks, by simp [Readable, (held_cons.mp held).1]⟩
  exact closes_single checked _ _ _ held ended

/-! ## Members -/

theorem refersOnly_of_staticField {field : MemberRef} {place : Expression}
    (owner : allowed (.owner (site.classes.resolveField field.owner field.name)))
    (found : site.staticField field = .ok place) : place.RefersOnly reads allowed := by
  obtain ⟨_, checked, same⟩ := bind_eq_ok.mp found
  obtain ⟨_, _, named⟩ := bind_eq_ok.mp checked
  cases named
  cases same
  exact refersOnly_staticField.mpr owner

theorem refersOnly_of_instanceField {object : Variable} {field : MemberRef} {place : Expression}
    (checks : allowed (.function .nonNull))
    (property : allowed (.property (site.classes.instanceProperty
      (site.classes.resolveField field.owner field.name) field.name)))
    (here : reads object) (found : site.instanceField object field = .ok place) :
    place.RefersOnly reads allowed := by
  obtain ⟨_, checked, same⟩ := bind_eq_ok.mp found
  obtain ⟨_, _, named⟩ := bind_eq_ok.mp checked
  cases named
  cases same
  exact refersOnly_property.mpr ⟨property, refersOnly_nonNull checks here⟩

theorem getStatic_closes {field : MemberRef}
    (owner : allowed (.owner (site.classes.resolveField field.owner field.name))) :
    (getStatic site field).Closes known allowed :=
  closes_lift fun _ _ => closes_after (takes_lift fun _ => refersOnly_of_staticField owner)
    fun _ place => pushes_closes place

theorem putStatic_closes {field : MemberRef}
    (owner : allowed (.owner (site.classes.resolveField field.owner field.name))) :
    (putStatic site field).Closes known allowed :=
  closes_lift fun _ _ => closes_after (takes_pop _) fun _ value =>
    closes_after (takes_lift fun _ => refersOnly_of_staticField owner) fun _ place =>
      closes_single ⟨place, refersOnly_read.mpr (.inr value)⟩

section InstanceFields

variable {field : MemberRef} (checks : allowed (.function .nonNull))
  (property : allowed (.property (site.classes.instanceProperty
    (site.classes.resolveField field.owner field.name) field.name)))

include checks property

theorem getField_closes : (getField site field).Closes known allowed :=
  closes_lift fun _ _ => closes_after (takes_pop _) fun _ object =>
    closes_after (takes_lift fun _ => refersOnly_of_instanceField checks property (.inr object))
      fun _ place => pushes_closes place

theorem putField_closes : (putField site field).Closes known allowed :=
  closes_lift fun _ _ => closes_after (takes_pop _) fun _ value =>
    closes_after (takes_pop _) fun _ object =>
      closes_after (takes_lift fun _ => refersOnly_of_instanceField checks property (.inr object))
        fun _ place => closes_single ⟨place, refersOnly_read.mpr (.inr value)⟩

end InstanceFields

theorem call_closes (type : MethodType) (refers : first.RefersOnly (Readable known) allowed) :
    (call type first).Closes known allowed := by
  rw [call]
  split
  · exact pushes_closes refers
  · exact closes_single refers

theorem refersOnly_arguments {arguments : List Variable}
    (all : ∀ argument ∈ arguments, known argument) :
    ∀ item ∈ arguments.map Expression.read, item.RefersOnly (Readable known) allowed :=
  List.forall_mem_map.mpr fun argument member => refersOnly_read.mpr (.inr (all argument member))

/-- The call of a method of an array clones it or is an exact call, and all others only check the
receiver. -/
theorem refersOnly_virtualCall {method : MemberRef} {type : MethodType} {receiver : Variable}
    {arguments : List Variable} (calls : CallsAllowed allowed (virtualCallFeatures method))
    (array : method.owner.isArray = true → method.name ≠ "clone" →
      allowed (.exact .object method.name type))
    (here : known receiver) (others : ∀ argument ∈ arguments, known argument) :
    (virtualCall method type receiver arguments).RefersOnly (Readable known) allowed := by
  have items : ∀ item ∈ arguments.map Expression.read, item.RefersOnly (Readable known) allowed :=
    refersOnly_arguments others
  have object (notCloned : ¬ (method.owner.isArray && method.name = "clone") = true) :
      (nonNull receiver).RefersOnly (Readable known) allowed :=
    refersOnly_nonNull (calls .nonNull (by simp [virtualCallFeatures, notCloned,
      Support.Function.feature])) (.inr here)
  rw [virtualCall]
  split
  next isArray =>
    split
    next clone =>
      refine refersOnly_support.mpr ⟨calls .cloneArray ?_, ?_⟩
      · simp [virtualCallFeatures, isArray, clone, Support.Function.feature]
      · exact List.forall_mem_singleton.mpr (refersOnly_read.mpr (.inr here))
    next other =>
      exact refersOnly_exactCall.mpr ⟨array isArray other,
        List.forall_mem_cons.mpr ⟨object (by simp [other]), items⟩⟩
  next notArray => exact refersOnly_methodCall.mpr ⟨object (by simp [notArray]), items⟩

theorem invokeVirtual_closes {method : MemberRef}
    (calls : CallsAllowed allowed (virtualCallFeatures method))
    (array : ∀ type, MethodType.parse method.descriptor = .ok type →
      method.owner.isArray = true → method.name ≠ "clone" →
        allowed (.exact .object method.name type)) :
    (invokeVirtual site method).Closes known allowed :=
  closes_lift fun type parsed => closes_after (takes_popArguments _) fun _ others =>
    closes_after (takes_pop _) fun _ here => closes_lift fun _ _ =>
      call_closes type (refersOnly_virtualCall calls (array type parsed) here others)

theorem invokeSpecial_closes {method : MemberRef}
    (calls : CallsAllowed allowed (specialCallFeatures method))
    (owner : ∀ type, MethodType.parse method.descriptor = .ok type →
      allowed (.exact (site.classes.resolveMethod method.owner method.name method.descriptor)
        method.name type)) :
    (invokeSpecial site method).Closes known allowed := by
  refine closes_lift fun type parsed => closes_after (takes_popArguments _) fun arguments others =>
    closes_after (takes_pop _) fun receiver here => closes_lift fun _ _ => call_closes type ?_
  refine refersOnly_exactCall.mpr
    ⟨owner type parsed, List.forall_mem_cons.mpr ⟨?_, refersOnly_arguments others⟩⟩
  split
  · exact refersOnly_read.mpr (.inr here)
  next other =>
    exact refersOnly_nonNull (calls .nonNull (by simp [specialCallFeatures, other,
      Support.Function.feature])) (.inr here)

theorem invokeStatic_closes {method : MemberRef}
    (owner : allowed
      (.owner (site.classes.resolveMethod method.owner method.name method.descriptor))) :
    (invokeStatic site method).Closes known allowed :=
  closes_lift fun type _ => closes_after (takes_popArguments _) fun _ others =>
    closes_lift fun _ _ =>
      call_closes type (refersOnly_staticCall.mpr ⟨owner, refersOnly_arguments others⟩)

/-! ## All instructions -/

theorem branches_closes {condition : Expression} {target : Nat}
    (refers : condition.RefersOnly known allowed) :
    Simulation.Closes known allowed (pure (branches site condition target)) :=
  closes_ends (List.forall_mem_singleton.mpr refers.condition)

theorem branchUnary_closes {kind : Kind} {operator : Operator} {target : Nat}
    (against : first.RefersOnly known allowed) :
    (branchUnary site kind operator first target).Closes known allowed :=
  closes_after (takes_pop _) fun _ here =>
    branches_closes (refersOnly_binary.mpr ⟨refersOnly_read.mpr here, against⟩)

theorem branchBinary_closes {kind : Kind} {operator : Operator} {target : Nat} :
    (branchBinary site kind operator target).Closes known allowed :=
  closes_after (takes_pop _) fun _ there => closes_after (takes_pop _) fun _ here =>
    branches_closes (refersOnly_binary.mpr ⟨refersOnly_read.mpr here, refersOnly_read.mpr there⟩)

theorem switches_closes {cases : List (Int32 × Nat)} {default : Nat} :
    (switches site cases default).Closes known allowed :=
  closes_after (takes_pop _) fun _ here =>
    closes_ends (List.forall_mem_singleton.mpr (Part.refersOnly_key here))

theorem leaves_closes (kind : Option Kind) : (leaves site kind).Closes known allowed := by
  cases kind with
  | none => exact closes_ends (List.forall_mem_nil _)
  | some kind =>
    exact closes_after (takes_pop _) fun _ here =>
      closes_ends (List.forall_mem_singleton.mpr (Part.refersOnly_result here))

theorem throws_closes (checks : allowed (.function .nonNull)) :
    (throws site).Closes known allowed := by
  refine closes_after (takes_pop _) fun _ here => closes_pure ?_ ?_
  · exact List.forall_mem_singleton.mpr (refersOnly_nonNull checks (.inr here))
  · intro exit same
    cases same
    exact List.forall_mem_nil _

/-- The effect of every instruction is closed, and refers to nothing that is not allowed for the
instruction. -/
theorem translate_closes (instruction : Instruction)
    (all : Allows site.classes allowed instruction) :
    (translate site instruction).Closes known allowed := by
  obtain ⟨calls, allows⟩ := all
  cases instruction with
  | nop => exact closes_nil
  | constNull => exact pushes_closes refersOnly_null
  | constInt | constLong | constFloat | constDouble => exact pushes_closes refersOnly_constant
  | loadConstant value => exact loadConstant_closes calls
  | load kind index => exact pushes_closes (refersOnly_read.mpr (.inl rfl))
  | store kind index =>
    exact closes_after (takes_pop _) fun _ here => closes_single (refersOnly_read.mpr (.inr here))
  | arrayLoad element =>
    have loads := calls .getElement (List.mem_singleton_self _)
    exact closes_after (takes_pop _) fun _ index => closes_after (takes_pop _) fun _ array =>
      pushes_closes (by simp [Readable, loads, index, array])
  | arrayStore element =>
    refine storeElement_closes (calls _ (List.mem_singleton.mpr ?_))
    cases element <;> rfl
  | pop => exact dropOne_closes
  | pop2 => exact closes_after (takes_popWords 2) fun _ _ => closes_nil
  | shuffle how => exact rearrange_closes _
  | arithmetic op on => exact binary_closes (refersOnly_arithmetic calls)
  | negate on => exact unary_closes (refersOnly_negation on)
  | shift op on => exact binary_closes (refersOnly_shifted op on)
  | bitwise op on => exact binary_closes (refersOnly_bitwise op)
  | increment index delta =>
    exact closes_single (refersOnly_binary.mpr (by simp [Readable, Variable.isSlot]))
  | convert conversion => exact unary_closes (refersOnly_converted calls)
  | compare how =>
    have compares : allowed (.function (comparisonFunction how)) := by
      refine calls _ (List.mem_singleton.mpr ?_)
      cases how <;> rfl
    rw [translate]
    refine binary_closes ?_
    intro first second one other
    simp [compares, one, other]
  | ifZero condition target => exact branchUnary_closes refersOnly_int
  | ifNull equal target => exact branchUnary_closes refersOnly_null
  | ifCompare | ifSame => exact branchBinary_closes
  | goto target => exact closes_ends (List.forall_mem_nil _)
  | jumpSubroutine | returnSubroutine | invokeDynamic => exact closes_failure
  | tableSwitch | lookupSwitch => exact switches_closes
  | leave kind => exact leaves_closes kind
  | getStatic field => exact getStatic_closes (allows _ (.getStatic field))
  | putStatic field => exact putStatic_closes (allows _ (.putStatic field))
  | getField field =>
    exact getField_closes (calls .nonNull (List.mem_singleton_self _)) (allows _ (.getField field))
  | putField field =>
    exact putField_closes (calls .nonNull (List.mem_singleton_self _)) (allows _ (.putField field))
  | invokeVirtual method | invokeInterface method =>
    refine invokeVirtual_closes calls fun type parsed isArray other => allows _ ?_
    exact .array (by constructor) isArray other parsed
  | invokeSpecial method onInterface =>
    exact invokeSpecial_closes calls fun type parsed => allows _ (.exact onInterface parsed)
  | invokeStatic method onInterface =>
    exact invokeStatic_closes (allows _ (.static method onInterface))
  | new name => exact pushes_closes (refersOnly_new.mpr (allows _ (.new name)))
  | newArray | newReferenceArray =>
    have makes := calls .newArray (List.mem_singleton_self _)
    rw [translate]
    refine unary_closes ?_
    intro operand length
    simp [makes, length]
  | newMultiArray type dimensions =>
    have makes := calls .newMultiArray (List.mem_singleton_self _)
    refine closes_after (takes_popInts _) fun lengths all => pushes_closes ?_
    simpa [makes, Readable] using fun length member => .inr (all length member)
  | arrayLength =>
    have checks := calls .nonNull (List.mem_singleton_self _)
    rw [translate]
    refine unary_closes ?_
    intro operand array
    simp [checks, array, allows _ .length]
  | throw => exact throws_closes (calls .nonNull (List.mem_singleton_self _))
  | checkCast name => exact checkCast_closes name (calls .cast (List.mem_singleton_self _))
  | instanceOf name =>
    have tests := calls .isInstance (List.mem_singleton_self _)
    rw [translate]
    refine unary_closes ?_
    intro operand object
    simp [tests, object]
  | monitorEnter | monitorExit =>
    have checks := calls .nonNull (List.mem_singleton_self _)
    exact closes_after (takes_pop _) fun _ here =>
      closes_single (refersOnly_nonNull checks (.inr here))

/-! ## Blocks -/

theorem translateRun_closes (scope : Scope) (block : Block) (run : List Placed)
    (allows : ∀ placed ∈ run, Allows scope.classes allowed placed.instruction) :
    (translateRun scope block run).Closes known allowed := by
  fun_induction translateRun scope block run with
  | case1 => exact closes_nil
  | case2 last => exact translate_closes _ (allows last List.mem_cons_self)
  | case3 placed rest more ih =>
    intro stack effect after held finished introduced
    obtain ⟨first, between, here, ended⟩ := bindState_eq_ok.mp finished
    obtain ⟨later, left, there, same⟩ := bindState_eq_ok.mp ended
    cases same
    obtain ⟨allowsFirst, allowsLater⟩ := List.forall_mem_cons.mp allows
    obtain ⟨introducedFirst, introducedLater⟩ := List.forall_mem_append.mp introduced
    obtain ⟨used, _, held'⟩ :=
      translate_closes _ allowsFirst stack first between held here introducedFirst
    obtain ⟨used', exits, left⟩ := ih allowsLater between later _ held' there introducedLater
    exact ⟨List.forall_mem_append.mpr ⟨used, used'⟩, exits, left⟩

/-- If the values that a block is entered with are in known variables, and everything is known that
its code introduces, then its code uses nothing else, and leaves values in known variables.  It only
refers to what its instructions refer to. -/
theorem refersOnly_of_translateBlock {scope : Scope} {block : Block} {stack after : Stack}
    {code : BlockCode} (translated : translateBlock scope block stack = .ok (code, after))
    (held : Held known stack) (introduced : ∀ source ∈ code.introduced, known source)
    (allows : ∀ placed ∈ block.body, Allows scope.classes allowed placed.instruction) :
    (∀ part ∈ code.parts, part.RefersOnly known allowed) ∧ Held known after := by
  obtain ⟨⟨effect, rest⟩, run, same⟩ := bind_eq_ok.mp translated
  cases same
  have each : ∀ statement ∈ effect.statements, ∀ source ∈ statement.introduced, known source :=
    fun statement member source found =>
      introduced source (List.mem_flatMap.mpr ⟨statement, member, found⟩)
  obtain ⟨used, exits, left⟩ :=
    translateRun_closes scope block _ allows stack effect _ held run each
  refine ⟨List.forall_mem_append.mpr ⟨List.forall_mem_map.mpr used, ?_⟩, left⟩
  cases stated : effect.exit with
  | none => exact List.forall_mem_nil _
  | some exit => exact exits exit stated

end Translation

end Bytescript
