import Bytescript.Classes.Inheritance
import Bytescript.Proofs.Program.InitializerOrder

/-!
# Uses through inherited members

When a program runs, a static method or a constructor is called where the class that is named
inherits it, and a static field is touched where it is declared.  The search for an order only
looks into the class that an instruction names.  Both agree as long as the code of every method
that is called stands in the class it is named with, and every static field is declared by that
class or one of its super classes.

So the order of the initializers follows all uses, unless the code of an inherited method or a
field of an interface is on the way.  Such a use may be missed, also if no class uses itself.
-/

set_option autoImplicit false

namespace Bytescript.StartOrder

variable {table : ClassTable} {name other : ClassName} {method called : MemberRef}
  {instruction : Instruction}

/-! ## Uses of what is linked -/

/-- The method that a call runs: the one that the named class declares or inherits. -/
def linked (table : ClassTable) (method : MemberRef) : MemberRef :=
  { method with owner := table.resolveMethod method.owner method.name method.descriptor }

/-- One method runs another one when it makes a call. -/
def LinkedCallsFrom (table : ClassTable) (method called : MemberRef) : Prop :=
  ∃ instruction, Runs table method instruction ∧
    ∃ named, Calls instruction named ∧ called = linked table named

/-- A method is reached from the static initializer of a class when calls run what is linked. -/
def LinkedFollowed (table : ClassTable) (name : ClassName) : MemberRef → Prop :=
  Relation.ReflTransGen (LinkedCallsFrom table) (initializerOf name)

/-- Instructions that read or write a static field. -/
inductive Accesses : Instruction → MemberRef → Prop where
  | getStatic (field : MemberRef) : Accesses (.getStatic field) field
  | putStatic (field : MemberRef) : Accesses (.putStatic field) field

/-- Instructions that touch a class: the one that they name, or the one that declares the static
field. -/
inductive LinkedTouches (table : ClassTable) : Instruction → ClassName → Prop where
  | named {instruction : Instruction} {name : ClassName} (touches : Touches instruction name) :
    LinkedTouches table instruction name
  | field {instruction : Instruction} {field : MemberRef} (accesses : Accesses instruction field) :
    LinkedTouches table instruction (table.resolveField field.owner field.name)

/-- What a class uses itself, when members are looked up as they are linked. -/
inductive LinkedUsesDirectly (table : ClassTable) : ClassName → ClassName → Prop where
  | super {name other : ClassName} {file : ClassFile} (found : table.find? name = some file)
    (above : file.superClass = some other) : LinkedUsesDirectly table name other
  | touched {name other : ClassName} {method : MemberRef} {instruction : Instruction}
    (followed : LinkedFollowed table name method) (runs : Runs table method instruction)
    (touches : LinkedTouches table instruction other) : LinkedUsesDirectly table name other

/-- What a class uses itself, and what the classes use that it uses. -/
def LinkedUses (table : ClassTable) : ClassName → ClassName → Prop :=
  Relation.TransGen (LinkedUsesDirectly table)

/-! ## What is inherited -/

/-- One class has another one as its super class. -/
def Above (table : ClassTable) (name other : ClassName) : Prop :=
  ∃ file, table.find? name = some file ∧ file.superClass = some other

/-- Instructions whose effect depends on another class than the named one and its super classes. -/
inductive Inherits (table : ClassTable) : Instruction → Prop where
  /-- The code that is called stands in another class than the named one. -/
  | call {instruction next : Instruction} {method : MemberRef} (calls : Calls instruction method)
    (elsewhere : linked table method ≠ method) (runs : Runs table (linked table method) next) :
    Inherits table instruction
  /-- The field is declared by none of the super classes, and so by an interface. -/
  | field {instruction : Instruction} {field : MemberRef} (accesses : Accesses instruction field)
    (aside : ¬ Relation.ReflTransGen (Above table) field.owner
      (table.resolveField field.owner field.name)) : Inherits table instruction

/-- Something inherited is on the way of what a class uses. -/
def ReachesInherited (table : ClassTable) (name : ClassName) : Prop :=
  ∃ user method instruction, Relation.ReflTransGen (LinkedUsesDirectly table) name user ∧
    LinkedFollowed table user method ∧ Runs table method instruction ∧ Inherits table instruction

/-- A method with code in the class it is named with is not inherited. -/
theorem Runs.linked_eq (runs : Runs table method instruction) : linked table method = method := by
  obtain ⟨file, code, _, found, present, _⟩ := runs
  obtain ⟨declared, here, _⟩ := Option.bind_eq_some_iff.mp present
  have resolved : table.resolveMethod method.owner method.name method.descriptor =
      method.owner := by
    rw [ClassTable.resolveMethod, ClassTable.findMethod, found]
    exact if_pos (Option.isSome_iff_exists.mpr ⟨declared, here⟩)
  rw [linked, resolved]

/-! ## Named uses are linked uses -/

/-- What is followed by name is also reached when calls run what is linked, if it has any code. -/
theorem Followed.linkedFollowed (followed : Followed table name method)
    (runs : Runs table method instruction) : LinkedFollowed table name method := by
  induction followed generalizing instruction with
  | refl => exact .refl
  | tail _ calls ih =>
    obtain ⟨caller, before, calls⟩ := calls
    exact (ih before).tail ⟨caller, before, _, calls, runs.linked_eq.symm⟩

theorem UsesDirectly.linked (uses : UsesDirectly table name other) :
    LinkedUsesDirectly table name other := by
  cases uses with
  | super found above => exact .super found above
  | touched followed runs touches =>
    exact .touched (followed.linkedFollowed runs) runs (.named touches)

theorem Uses.linked (uses : Uses table name other) : LinkedUses table name other :=
  Relation.TransGen.mono (fun _ _ => UsesDirectly.linked) _ _ uses

/-! ## Linked uses are named uses if nothing is inherited -/

theorem usesDirectly_of_above (above : Above table name other) :
    UsesDirectly table name other := by
  obtain ⟨file, found, above⟩ := above
  exact .super found above

/-- If nothing is inherited on the way, everything with code that is reached is followed by
name. -/
theorem LinkedFollowed.followed {user : ClassName} (declared : ¬ ReachesInherited table name)
    (uses : Relation.ReflTransGen (LinkedUsesDirectly table) name user)
    (followed : LinkedFollowed table user method) (runs : Runs table method instruction) :
    Followed table user method := by
  induction followed generalizing instruction with
  | refl => exact .refl
  | tail before calls ih =>
    obtain ⟨caller, ran, named, calls, rfl⟩ := calls
    have same : linked table named = named := by
      by_contra elsewhere
      exact declared ⟨user, _, caller, uses, before, ran, .call calls elsewhere runs⟩
    rw [same]
    exact (ih ran).tail ⟨caller, ran, calls⟩

/-- A static field of a super class is touched through the classes in between. -/
theorem uses_of_accesses {user : ClassName} {field : MemberRef}
    (followed : Followed table user method) (runs : Runs table method instruction)
    (accesses : Accesses instruction field)
    (above : Relation.ReflTransGen (Above table) field.owner other) : Uses table user other := by
  have touches : Touches instruction field.owner := by
    cases accesses with
    | getStatic => exact .getStatic field
    | putStatic => exact .putStatic field
  have steps : Relation.ReflTransGen (UsesDirectly table) field.owner other := by
    induction above with
    | refl => exact .refl
    | tail _ above ih => exact ih.tail (usesDirectly_of_above above)
  exact .head' (.touched followed runs touches) steps

/-- If nothing is inherited on the way, a direct linked use is a chain of named uses. -/
theorem LinkedUsesDirectly.uses {user : ClassName} (declared : ¬ ReachesInherited table name)
    (before : Relation.ReflTransGen (LinkedUsesDirectly table) name user)
    (uses : LinkedUsesDirectly table user other) : Uses table user other := by
  cases uses with
  | super found above => exact .single (.super found above)
  | touched followed runs touches =>
    have named := followed.followed declared before runs
    cases touches with
    | named touches => exact .single (.touched named runs touches)
    | field accesses =>
      rename_i field
      by_cases above : Relation.ReflTransGen (Above table) field.owner
          (table.resolveField field.owner field.name)
      · exact uses_of_accesses named runs accesses above
      · exact absurd ⟨user, _, _, before, followed, runs, .field accesses above⟩ declared

/-- If nothing is inherited on the way, the linked uses of a class are its named uses. -/
theorem LinkedUses.uses (declared : ¬ ReachesInherited table name)
    (uses : LinkedUses table name other) : Uses table name other := by
  induction uses with
  | single uses => exact uses.uses declared .refl
  | tail before uses ih => exact ih.trans (uses.uses declared before.to_reflTransGen)

/-! ## The order -/

/-- In an order of the initializers, a class comes after another one that it uses, unless it uses
itself. -/
theorem sublist_of_uses {order : List ClassName} (ordered : orderOf table = .ok order)
    (starts : Starts table name) (starts' : Starts table other)
    (acyclic : ¬ LinkedUses table name name) (uses : Uses table name other) :
    [other, name].Sublist order := by
  obtain ⟨progress, searched, rfl⟩ := map_eq_ok.mp ordered
  obtain ⟨sound, _, done⟩ := search_sound searched
  have different : name ≠ other := by
    rintro rfl
    exact acyclic uses.linked
  refine sublist_of_chain searched different starts starts'
    (chain_of_leads (fun outer surrounds leads => ?_) (uses_iff_leads.mp uses))
  -- What is open at a class leads to it, so the class would use itself.
  obtain ⟨file, found, _⟩ := starts
  have opened := sound.nested _ (done found) outer surrounds
  exact acyclic (Uses.linked (uses_iff_leads.mpr (leads.trans opened)))

/-- An order of all static initializers that follows the uses of what is linked, as far as nothing
inherited is on the way. -/
structure FollowsLinkedUses (table : ClassTable) (order : List ClassName) : Prop where
  once : order.Nodup
  listed : ∀ {name : ClassName}, name ∈ order ↔ Starts table name
  /-- Chains of uses through the classes that are named are always followed. -/
  named : ∀ {name other : ClassName}, Starts table name → Starts table other →
    ¬ LinkedUses table name name → Uses table name other → [other, name].Sublist order
  /-- All chains are followed that come to nothing inherited. -/
  declared : ∀ {name other : ClassName}, Starts table name → Starts table other →
    ¬ LinkedUses table name name → ¬ ReachesInherited table name →
    LinkedUses table name other → [other, name].Sublist order

/-- **Static initializers run after those of the classes whose members are linked to**, unless
inherited code or a field of an interface is on the way.  If no class uses itself, that makes the
order a topological one as far as members are declared where they are named. -/
theorem orderOf_followsLinkedUses {order : List ClassName} (ordered : orderOf table = .ok order) :
    FollowsLinkedUses table order := by
  have once_listed : order.Nodup ∧ ∀ {name : ClassName}, name ∈ order ↔ Starts table name := by
    obtain ⟨progress, searched, rfl⟩ := map_eq_ok.mp ordered
    obtain ⟨sound, _, done⟩ := search_sound searched
    refine ⟨nodup_filterMap_startedBy sound.distinct, fun {name} => ?_⟩
    constructor
    · intro listed
      obtain ⟨_, _, started⟩ := List.mem_filterMap.mp listed
      exact (startedBy_eq_some.mp started).1
    · rintro ⟨file, found, has⟩
      have started := startedBy_eq_some.mpr ⟨⟨file, found, has⟩, rfl⟩
      exact List.mem_filterMap.mpr ⟨_, done found, started⟩
  refine ⟨once_listed.1, once_listed.2, sublist_of_uses ordered, ?_⟩
  intro name other starts starts' acyclic declared uses
  exact sublist_of_uses ordered starts starts' acyclic (uses.uses declared)

/-! ## Programs without circles -/

/-- All methods with the instructions that run in them. -/
def running (table : ClassTable) : List (MemberRef × Instruction) :=
  table.files.flatMap fun file => file.methods.flatMap fun method =>
    method.code.toList.flatMap fun code =>
      ((file.instructionsOf code).toOption.getD []).map fun placed =>
        (⟨file.name, method.name, method.descriptor⟩, placed.instruction)

theorem Runs.mem_running (runs : Runs table method instruction) :
    (method, instruction) ∈ running table := by
  obtain ⟨file, code, instructions, found, present, decoded, listed⟩ := runs
  obtain ⟨member, named⟩ := mem_of_find? found
  obtain ⟨declared, here, present⟩ := Option.bind_eq_some_iff.mp present
  have matches' := List.find?_some here
  simp only [Bool.and_eq_true, decide_eq_true_eq] at matches'
  obtain ⟨placed, placed_mem, rfl⟩ := List.mem_map.mp listed
  refine List.mem_flatMap.mpr ⟨file, member, List.mem_flatMap.mpr ⟨declared,
    List.mem_of_find?_eq_some here, List.mem_flatMap.mpr ⟨code, by simp [present], ?_⟩⟩⟩
  refine List.mem_map.mpr ⟨placed, by simpa [decoded, Except.toOption] using placed_mem, ?_⟩
  rw [named, matches'.1, matches'.2]

/-- What an instruction asks for when it is linked. -/
def linkedTasks (table : ClassTable) (instruction : Instruction) : List Task :=
  ((tasksOfInstruction instruction).map fun
    | .follow method => .follow (linked table method)
    | .prepare name => .prepare name) ++
  match instruction with
  | .getStatic field | .putStatic field => [.prepare (table.resolveField field.owner field.name)]
  | _ => []

theorem Calls.mem_linkedTasks (calls : Calls instruction called) :
    .follow (linked table called) ∈ linkedTasks table instruction := by
  have asked := mem_tasksOfInstruction.mpr (.inl ⟨_, calls, rfl⟩)
  exact List.mem_append_left _ (List.mem_map.mpr ⟨_, asked, rfl⟩)

theorem LinkedTouches.mem_linkedTasks (touches : LinkedTouches table instruction name) :
    .prepare name ∈ linkedTasks table instruction := by
  cases touches with
  | named touches =>
    have asked := mem_tasksOfInstruction.mpr (.inr ⟨_, touches, rfl⟩)
    exact List.mem_append_left _ (List.mem_map.mpr ⟨_, asked, rfl⟩)
  | field accesses =>
    refine List.mem_append_right _ ?_
    cases accesses <;> exact List.mem_singleton.mpr rfl

/-- If calls and touched classes are always below, no class uses itself. -/
theorem not_linkedUses_of_rank (rank : Task → Nat)
    (initial : ∀ name, rank (.follow (initializerOf name)) ≤ rank (.prepare name))
    (above : ∀ file ∈ table.files, ∀ other ∈ file.superClass,
      rank (.prepare other) < rank (.prepare file.name))
    (asked : ∀ ran ∈ running table, ∀ task ∈ linkedTasks table ran.2,
      rank task < rank (.follow ran.1)) : ¬ LinkedUses table name name := by
  have followed {name : ClassName} {method : MemberRef}
      (followed : LinkedFollowed table name method) :
      rank (.follow method) ≤ rank (.prepare name) := by
    induction followed with
    | refl => exact initial name
    | tail _ calls ih =>
      obtain ⟨instruction, runs, named, calls, rfl⟩ := calls
      exact (asked _ runs.mem_running _ calls.mem_linkedTasks).le.trans ih
  have step {name other : ClassName} (uses : LinkedUsesDirectly table name other) :
      rank (.prepare other) < rank (.prepare name) := by
    cases uses with
    | super found above' =>
      obtain ⟨member, rfl⟩ := mem_of_find? found
      exact above _ member _ above'
    | touched before runs touches =>
      exact (asked _ runs.mem_running _ touches.mem_linkedTasks).trans_le (followed before)
  have below {other : ClassName} (uses : LinkedUses table name other) :
      rank (.prepare other) < rank (.prepare name) := by
    induction uses with
    | single uses => exact step uses
    | tail _ uses ih => exact (step uses).trans ih
  exact fun uses => (below uses).false

/-! ## An inherited method -/

/-- A class over a pool with the field `x` of `Leaf` and the method `compute` of `Base` and
`Sub`. -/
def lineClass (name above : String) (fields : List String)
    (methods : List (String × String × List UInt8)) : ClassFile where
  version := ⟨52, 0⟩
  pool := ⟨#[none, some (.utf8 (.ofString "x")), some (.utf8 (.ofString "I")),
    some (.nameAndType 1 2), some (.utf8 (.ofString "Leaf")), some (.classInfo 4),
    some (.fieldRef 5 3), some (.utf8 (.ofString "compute")), some (.utf8 (.ofString "()I")),
    some (.nameAndType 7 8), some (.utf8 (.ofString "Base")), some (.classInfo 10),
    some (.methodRef 11 9), some (.utf8 (.ofString "Sub")), some (.classInfo 13),
    some (.methodRef 14 9)]⟩
  access := .ofFlags 0x21
  name := ⟨name⟩
  superClass := some ⟨above⟩
  interfaces := []
  fields := fields.map fun name =>
    { access := .ofFlags 8, name, descriptor := "I", constant := none, annotations := .empty }
  methods := methods.map fun (name, descriptor, bytecode) =>
    { access := .ofFlags 8, name, descriptor, code := some ⟨1, 0, bytecode, [], []⟩,
      exceptions := [], annotations := .empty }
  sourceFile := none
  annotations := .empty

/-- The initializer of `Main` calls the method `compute`, named with a class.  The method is
declared by `Base`, and inherited by `Sub`.  It reads the field `x` of `Leaf`, which `Helper`
declares. -/
def line (called : UInt8) : ClassTable :=
  .ofList [
    lineClass "Main" "java/lang/Object" [] [("<clinit>", "()V", [0xb8, 0, called, 0x57, 0xb1])],
    lineClass "Sub" "Base" [] [],
    lineClass "Base" "java/lang/Object" [] [("compute", "()I", [0xb2, 0, 6, 0xac])],
    lineClass "Leaf" "Helper" [] [],
    lineClass "Helper" "java/lang/Object" ["x"] [("<clinit>", "()V", [0xb1])]]

/-- Calls name the class with the method. -/
def declaredLine : ClassTable := line 12

/-- Calls name the class that inherits the method. -/
def inheritedLine : ClassTable := line 15

/-- How high a class stands above all that it uses. -/
def lineHeight (name : ClassName) : Nat :=
  match name.text with
  | "Main" => 4
  | "Sub" => 3
  | "Base" | "Leaf" => 2
  | "Helper" => 1
  | _ => 0

/-- Everything in the line leads downwards. -/
def lineRank : Task → Nat
  | .prepare name => lineHeight name
  | .follow method => if method.name = initializerName then lineHeight method.owner else 3

theorem not_linkedUses_declaredLine : ¬ LinkedUses declaredLine name name :=
  not_linkedUses_of_rank lineRank (fun _ => le_rfl) (by decide) (by decide)

theorem not_linkedUses_inheritedLine : ¬ LinkedUses inheritedLine name name :=
  not_linkedUses_of_rank lineRank (fun _ => le_rfl) (by decide) (by decide)

theorem orderOf_declaredLine : orderOf declaredLine = .ok [⟨"Helper"⟩, ⟨"Main"⟩] :=
  ok_of_toOption rfl

theorem orderOf_inheritedLine : orderOf inheritedLine = .ok [⟨"Main"⟩, ⟨"Helper"⟩] :=
  ok_of_toOption rfl

/-- What stands above a class can be computed. -/
theorem above_of_bind (computed : (table.find? name).bind ClassFile.superClass = some other) :
    Above table name other :=
  Option.bind_eq_some_iff.mp computed

/-- Nothing inherited is on the way if all code stands in the named classes, and all fields in
those or above. -/
theorem not_reachesInherited
    (plain : ∀ ran ∈ running table, ¬ Inherits table ran.2) : ¬ ReachesInherited table name := by
  rintro ⟨_, _, _, _, _, runs, inherits⟩
  exact plain _ runs.mem_running inherits

/-- The method that is called is declared by the class it is named with, and the field by a super
class. -/
theorem not_reachesInherited_declaredLine : ¬ ReachesInherited declaredLine name := by
  refine not_reachesInherited fun ran here inherits => ?_
  have listed : (running declaredLine).map Prod.snd =
      [.invokeStatic ⟨⟨"Base"⟩, "compute", "()I"⟩ false, .pop, .leave none,
        .getStatic ⟨⟨"Leaf"⟩, "x", "I"⟩, .leave (some .int), .leave none] := by
    rfl
  have member : ran.2 ∈ (running declaredLine).map Prod.snd := List.mem_map_of_mem here
  rw [listed] at member
  generalize ran.2 = instruction at member inherits
  cases inherits with
  | call calls elsewhere runs =>
    rename_i called
    cases calls with
    | invokeStatic _ isInterface =>
      have named : called = ⟨⟨"Base"⟩, "compute", "()I"⟩ ∧ isInterface = false := by
        simpa using member
      exact elsewhere (by rw [named.1]; rfl)
    | construct => simp at member
  | field accesses aside =>
    rename_i field
    cases accesses with
    | getStatic =>
      have named : field = ⟨⟨"Leaf"⟩, "x", "I"⟩ := by simpa using member
      subst named
      have resolved : declaredLine.resolveField ⟨"Leaf"⟩ "x" = ⟨"Helper"⟩ := rfl
      exact aside (resolved ▸ .single (above_of_bind rfl))
    | putStatic => simp at member

/-- `Main` uses `Helper` through the method of `Base` and the field of `Leaf`, so `Helper` comes
first. -/
theorem orderOf_declaredLine_followsLinkedUses :
    orderOf declaredLine = .ok [⟨"Helper"⟩, ⟨"Main"⟩] ∧
      FollowsLinkedUses declaredLine [⟨"Helper"⟩, ⟨"Main"⟩] ∧
      LinkedUses declaredLine ⟨"Main"⟩ ⟨"Helper"⟩ ∧
      [(⟨"Helper"⟩ : ClassName), ⟨"Main"⟩].Sublist [⟨"Helper"⟩, ⟨"Main"⟩] := by
  have follows := orderOf_followsLinkedUses orderOf_declaredLine
  have uses : Uses declaredLine ⟨"Main"⟩ ⟨"Helper"⟩ := by
    refine uses_iff_leads.mpr (.head (b := .follow (initializerOf ⟨"Main"⟩)) ?_
      (.head (b := .follow ⟨⟨"Base"⟩, "compute", "()I"⟩) ?_
        (.head (b := .prepare ⟨"Leaf"⟩) ?_ (.single ?_)))) <;>
      exact leads_of_toOption rfl
  refine ⟨orderOf_declaredLine, follows, uses.linked, ?_⟩
  exact follows.declared (starts_of_startedBy rfl)
    (starts_of_startedBy rfl) not_linkedUses_declaredLine
    not_reachesInherited_declaredLine uses.linked

/-- `Main` uses `Helper` through the method that `Sub` inherits from `Base`, and no class uses
itself.  But the search looks for the method in `Sub`, so `Main` comes before `Helper`. -/
theorem orderOf_inheritedLine_misses :
    (∀ name, ¬ Relation.TransGen (Above inheritedLine) name name) ∧
      (∀ name, ¬ LinkedUses inheritedLine name name) ∧
      orderOf inheritedLine = .ok [⟨"Main"⟩, ⟨"Helper"⟩] ∧
      Starts inheritedLine ⟨"Main"⟩ ∧ Starts inheritedLine ⟨"Helper"⟩ ∧
      LinkedUses inheritedLine ⟨"Main"⟩ ⟨"Helper"⟩ ∧
      ¬ [(⟨"Helper"⟩ : ClassName), ⟨"Main"⟩].Sublist [⟨"Main"⟩, ⟨"Helper"⟩] := by
  have calls : LinkedFollowed inheritedLine ⟨"Main"⟩ ⟨⟨"Base"⟩, "compute", "()I"⟩ := by
    have leads : Leads inheritedLine (.follow (initializerOf ⟨"Main"⟩))
        (.follow ⟨⟨"Sub"⟩, "compute", "()I"⟩) := leads_of_toOption rfl
    have resolved : ⟨⟨"Base"⟩, "compute", "()I"⟩ =
        linked inheritedLine ⟨⟨"Sub"⟩, "compute", "()I"⟩ := rfl
    cases leads with
    | calls calls =>
      obtain ⟨instruction, runs, calls⟩ := calls
      exact .single ⟨instruction, runs, _, calls, resolved⟩
  have touches : LinkedUsesDirectly inheritedLine ⟨"Main"⟩ ⟨"Leaf"⟩ := by
    have leads : Leads inheritedLine (.follow ⟨⟨"Base"⟩, "compute", "()I"⟩)
        (.prepare ⟨"Leaf"⟩) := leads_of_toOption rfl
    cases leads with
    | touches runs touches => exact .touched calls runs (.named touches)
  have above : Above inheritedLine ⟨"Leaf"⟩ ⟨"Helper"⟩ := above_of_bind rfl
  refine ⟨fun name circle => @not_linkedUses_inheritedLine name ?_,
    fun _ => not_linkedUses_inheritedLine, orderOf_inheritedLine,
    starts_of_startedBy rfl, starts_of_startedBy rfl,
    .tail (.single touches) (usesDirectly_of_above above).linked, by decide⟩
  exact Relation.TransGen.mono (fun _ _ above => (usesDirectly_of_above above).linked) _ _ circle

end Bytescript.StartOrder
