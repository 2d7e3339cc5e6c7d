import Bytescript.Program.StartOrder
import Bytescript.Proofs.Failure
import Mathlib.Logic.Relation

/-!
# Which classes the initializer of a class uses

The static initializer of a class calls static methods and constructors, which are followed into
their code where that is found in the class they are named with.  On the way, static members are
touched and instances are made.  A class uses its super class, the classes named there, and
whatever those use.

Put in single steps, a class leads to its super class and to its static initializer, and a method
leads to the methods that it calls and to the classes that it touches.  A class uses another one
exactly if there is a chain of such steps from the one to the other, and the search for an order
takes exactly these steps.
-/

set_option autoImplicit false

namespace Bytescript.StartOrder

/-! ## Uses -/

/-- A method, if its code is found in the class that it is named with, has an instruction. -/
def Runs (table : ClassTable) (method : MemberRef) (instruction : Instruction) : Prop :=
  ∃ file code instructions, table.find? method.owner = some file ∧
    (file.method? method.name method.descriptor).bind Method.code = some code ∧
    file.instructionsOf code = .ok instructions ∧
    instruction ∈ instructions.map Placed.instruction

/-- Instructions that call a static method or a constructor. -/
inductive Calls : Instruction → MemberRef → Prop where
  | invokeStatic (method : MemberRef) (isInterface : Bool) :
    Calls (.invokeStatic method isInterface) method
  | construct {method : MemberRef} (isInterface : Bool) (named : method.name = constructorName) :
    Calls (.invokeSpecial method isInterface) method

/-- Instructions that touch a static member of a class, or make an instance of it. -/
inductive Touches : Instruction → ClassName → Prop where
  | getStatic (field : MemberRef) : Touches (.getStatic field) field.owner
  | putStatic (field : MemberRef) : Touches (.putStatic field) field.owner
  | invokeStatic (method : MemberRef) (isInterface : Bool) :
    Touches (.invokeStatic method isInterface) method.owner
  | new (name : ClassName) : Touches (.new name) name

/-- One method calls another. -/
def CallsFrom (table : ClassTable) (method called : MemberRef) : Prop :=
  ∃ instruction, Runs table method instruction ∧ Calls instruction called

/-- A method is reached by calls from the static initializer of a class. -/
def Followed (table : ClassTable) (name : ClassName) : MemberRef → Prop :=
  Relation.ReflTransGen (CallsFrom table) (initializerOf name)

/-- What a class uses itself. -/
inductive UsesDirectly (table : ClassTable) : ClassName → ClassName → Prop where
  | super {name other : ClassName} {file : ClassFile} (found : table.find? name = some file)
    (above : file.superClass = some other) : UsesDirectly table name other
  | touched {name other : ClassName} {method : MemberRef} {instruction : Instruction}
    (followed : Followed table name method) (runs : Runs table method instruction)
    (touches : Touches instruction other) : UsesDirectly table name other

/-- What a class uses itself, and what the classes use that it uses. -/
def Uses (table : ClassTable) : ClassName → ClassName → Prop :=
  Relation.TransGen (UsesDirectly table)

/-- A class is there and has a static initializer. -/
def Starts (table : ClassTable) (name : ClassName) : Prop :=
  ∃ file, table.find? name = some file ∧ hasInitializer file = true

/-! ## Single steps -/

/-- One step of a chain of uses. -/
inductive Leads (table : ClassTable) : Task → Task → Prop where
  | super {name other : ClassName} {file : ClassFile} (found : table.find? name = some file)
    (above : file.superClass = some other) : Leads table (.prepare name) (.prepare other)
  | initializer {name : ClassName} (starts : Starts table name) :
    Leads table (.prepare name) (.follow (initializerOf name))
  | calls {method called : MemberRef} (calls : CallsFrom table method called) :
    Leads table (.follow method) (.follow called)
  | touches {method : MemberRef} {instruction : Instruction} {name : ClassName}
    (runs : Runs table method instruction) (touches : Touches instruction name) :
    Leads table (.follow method) (.prepare name)

variable {table : ClassTable}

/-- An instruction asks for what it calls and what it touches. -/
theorem mem_tasksOfInstruction {instruction : Instruction} {task : Task} :
    task ∈ tasksOfInstruction instruction ↔
      (∃ called, Calls instruction called ∧ task = .follow called) ∨
        ∃ name, Touches instruction name ∧ task = .prepare name := by
  constructor
  · intro member
    rw [tasksOfInstruction.eq_def] at member
    split at member
    next field => exact .inr ⟨_, .getStatic field, List.mem_singleton.mp member⟩
    next field => exact .inr ⟨_, .putStatic field, List.mem_singleton.mp member⟩
    next method isInterface =>
      rcases List.mem_cons.mp member with rfl | member
      · exact .inr ⟨_, .invokeStatic method isInterface, rfl⟩
      · exact .inl ⟨_, .invokeStatic method isInterface, List.mem_singleton.mp member⟩
    next name => exact .inr ⟨_, .new name, List.mem_singleton.mp member⟩
    next method isInterface =>
      split at member
      next named => exact .inl ⟨_, .construct isInterface named, List.mem_singleton.mp member⟩
      next => cases member
    next => cases member
  · rintro (⟨called, calls, rfl⟩ | ⟨name, touches, rfl⟩)
    · cases calls with
      | invokeStatic => simp [tasksOfInstruction]
      | construct _ named => simp [tasksOfInstruction, named]
    · cases touches <;> simp [tasksOfInstruction]

/-- The code of a method asks for what its instructions ask for. -/
theorem mem_tasksOfMethod {file : ClassFile} {method : MemberRef} {tasks : List Task} {task : Task}
    (found : table.find? method.owner = some file)
    (asked : tasksOfMethod file method.name method.descriptor = .ok tasks) :
    task ∈ tasks ↔
      ∃ instruction, Runs table method instruction ∧ task ∈ tasksOfInstruction instruction := by
  rw [tasksOfMethod] at asked
  split at asked
  next missing =>
    cases asked
    refine iff_of_false List.not_mem_nil ?_
    rintro ⟨_, ⟨file', code, _, found', present, _⟩, _⟩
    cases found.symm.trans found'
    rw [missing] at present
    cases present
  next code present =>
    obtain ⟨instructions, decoded, asked⟩ := bind_eq_ok.mp asked
    rw [during_eq_ok] at decoded
    cases asked
    constructor
    · intro member
      obtain ⟨placed, listed, member⟩ := List.mem_flatMap.mp member
      exact ⟨placed.instruction,
        ⟨file, code, instructions, found, present, decoded, List.mem_map_of_mem listed⟩, member⟩
    · rintro ⟨_, ⟨file', code', _, found', present', decoded', listed⟩, member⟩
      cases found.symm.trans found'
      cases present.symm.trans present'
      cases decoded.symm.trans decoded'
      obtain ⟨placed, here, rfl⟩ := List.mem_map.mp listed
      exact List.mem_flatMap.mpr ⟨placed, here, member⟩

theorem leads_prepare_iff {name : ClassName} {task : Task} : Leads table (.prepare name) task ↔
    ∃ file, table.find? name = some file ∧
      ((∃ above, file.superClass = some above ∧ task = .prepare above) ∨
        (hasInitializer file = true ∧ task = .follow (initializerOf name))) := by
  constructor
  · intro leads
    cases leads with
    | super found above => exact ⟨_, found, .inl ⟨_, above, rfl⟩⟩
    | initializer starts =>
      obtain ⟨file, found, has⟩ := starts
      exact ⟨file, found, .inr ⟨has, rfl⟩⟩
  · rintro ⟨file, found, ⟨_, above, rfl⟩ | ⟨has, rfl⟩⟩
    · exact .super found above
    · exact .initializer ⟨file, found, has⟩

theorem leads_follow_iff {method : MemberRef} {task : Task} : Leads table (.follow method) task ↔
    ∃ instruction, Runs table method instruction ∧ task ∈ tasksOfInstruction instruction := by
  constructor
  · intro leads
    cases leads with
    | calls calls =>
      obtain ⟨instruction, runs, calls⟩ := calls
      exact ⟨instruction, runs, mem_tasksOfInstruction.mpr (.inl ⟨_, calls, rfl⟩)⟩
    | touches runs touches =>
      exact ⟨_, runs, mem_tasksOfInstruction.mpr (.inr ⟨_, touches, rfl⟩)⟩
  · rintro ⟨instruction, runs, member⟩
    rcases mem_tasksOfInstruction.mp member with ⟨called, calls, rfl⟩ | ⟨name, touches, rfl⟩
    · exact .calls ⟨instruction, runs, calls⟩
    · exact .touches runs touches

/-- What is asked for is what single steps lead to. -/
theorem mem_tasksOf {task other : Task} {tasks : List Task}
    (asked : tasksOf table task = .ok tasks) : other ∈ tasks ↔ Leads table task other := by
  cases task with
  | prepare name =>
    rw [leads_prepare_iff]
    rw [tasksOf] at asked
    split at asked
    next missing =>
      cases asked
      simp [missing]
    next file found =>
      cases asked
      have above : other ∈ file.superClass.toList.map Task.prepare ↔
          ∃ above, file.superClass = some above ∧ other = .prepare above := by
        simp [eq_comm]
      by_cases has : hasInitializer file = true <;> simp [found, above, has]
  | follow method =>
    rw [leads_follow_iff]
    rw [tasksOf] at asked
    split at asked
    next missing =>
      cases asked
      refine iff_of_false List.not_mem_nil ?_
      rintro ⟨_, ⟨file, _, _, found, _⟩, _⟩
      cases missing.symm.trans found
    next file found => exact mem_tasksOfMethod found asked

/-! ## Chains of steps -/

/-- What runs at all in the initializer of a class shows that the class has one. -/
theorem Runs.starts {name : ClassName} {instruction : Instruction}
    (runs : Runs table (initializerOf name) instruction) : Starts table name := by
  obtain ⟨file, code, _, found, present, _⟩ := runs
  refine ⟨file, found, ?_⟩
  obtain ⟨method, here, _⟩ := Option.bind_eq_some_iff.mp present
  exact Option.isSome_iff_exists.mpr ⟨method, here⟩

theorem leads_of_followed {name : ClassName} {method : MemberRef}
    (followed : Followed table name method) :
    Relation.ReflTransGen (Leads table) (.follow (initializerOf name)) (.follow method) :=
  followed.lift Task.follow fun _ _ => .calls

/-- If anything runs in a method that is followed from a class, the class has a static
initializer. -/
theorem Followed.starts {name : ClassName} {method : MemberRef} {instruction : Instruction}
    (followed : Followed table name method) (runs : Runs table method instruction) :
    Starts table name := by
  rcases Relation.ReflTransGen.cases_head followed with rfl | ⟨_, ⟨_, first, _⟩, _⟩
  · exact runs.starts
  · exact first.starts

theorem leads_of_usesDirectly {name other : ClassName} (uses : UsesDirectly table name other) :
    Relation.TransGen (Leads table) (.prepare name) (.prepare other) := by
  cases uses with
  | super found above => exact .single (.super found above)
  | touched followed runs touches =>
    have chain := (leads_of_followed followed).tail (.touches runs touches)
    exact .head' (.initializer (followed.starts runs)) chain

/-- A chain of steps comes to a class that the first class uses, and then perhaps to a method that
this class follows. -/
theorem reaches_of_leads {name : ClassName} {task : Task}
    (chain : Relation.ReflTransGen (Leads table) (.prepare name) task) :
    (∃ other, task = .prepare other ∧ Relation.ReflTransGen (UsesDirectly table) name other) ∨
      ∃ other method, task = .follow method ∧
        Relation.ReflTransGen (UsesDirectly table) name other ∧ Followed table other method := by
  induction chain with
  | refl => exact .inl ⟨name, rfl, .refl⟩
  | tail _ leads ih =>
    rcases ih with ⟨other, rfl, uses⟩ | ⟨other, method, rfl, uses, followed⟩
    · cases leads with
      | super found above => exact .inl ⟨_, rfl, uses.tail (.super found above)⟩
      | initializer => exact .inr ⟨other, _, rfl, uses, .refl⟩
    · cases leads with
      | calls calls => exact .inr ⟨other, _, rfl, uses, followed.tail calls⟩
      | touches runs touches => exact .inl ⟨_, rfl, uses.tail (.touched followed runs touches)⟩

/-- A class uses exactly the classes that chains of steps come to. -/
theorem uses_iff_leads {name other : ClassName} :
    Uses table name other ↔ Relation.TransGen (Leads table) (.prepare name) (.prepare other) := by
  constructor
  · intro uses
    induction uses with
    | single uses => exact leads_of_usesDirectly uses
    | tail _ uses ih => exact ih.trans (leads_of_usesDirectly uses)
  · intro chain
    obtain ⟨last, chain, leads⟩ := Relation.TransGen.tail'_iff.mp chain
    rcases reaches_of_leads chain with ⟨last, rfl, uses⟩ | ⟨last, method, rfl, uses, followed⟩
    · cases leads with
      | super found above => exact .tail' uses (.super found above)
    · cases leads with
      | touches runs touches => exact .tail' uses (.touched followed runs touches)

end Bytescript.StartOrder
