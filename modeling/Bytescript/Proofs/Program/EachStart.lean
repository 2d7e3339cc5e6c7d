import Bytescript.Proofs.Program.InitializerOrder

/-!
# Every static initializer runs once

The search for an order is bounded in its depth, and so are the chains of classes and methods that
it goes along: whatever asks for anything is a class or a method of the program, and nothing is
looked into twice.  So the bound plays no part.  If all code can be decoded, a search without it
ends as well and with the same result, however classes and methods refer to each other; and every
class with a static initializer is in the result, once.
-/

set_option autoImplicit false

namespace Bytescript

/-- All methods of the classes of a table can be decoded. -/
def ClassTable.IsDecodable (table : ClassTable) : Prop :=
  ∀ file ∈ table.files, ∀ method ∈ file.methods, ∀ code, method.code = some code →
    ∃ instructions, file.instructionsOf code = .ok instructions

/-- A class of a table declares a static initializer. -/
def ClassTable.DeclaresInitializer (table : ClassTable) (name : ClassName) : Prop :=
  ∃ file ∈ table.files, file.name = name ∧ ∃ method ∈ file.methods,
    method.name = initializerName ∧ method.descriptor = emptyDescriptor

namespace StartOrder

variable {table : ClassTable} {before middle after : Progress} {task : Task}
  {tasks rest : List Task}

/-! ## The search without a bound -/

/-- Looks into tasks one after the other, each unless it was reached before, and first into all that
it asks for. -/
inductive LooksInto (table : ClassTable) : Progress → List Task → Progress → Prop where
  | nothing (progress : Progress) : LooksInto table progress [] progress
  | known {before after : Progress} {task : Task} {rest : List Task}
    (reached : task ∈ before.reached) (later : LooksInto table before rest after) :
    LooksInto table before (task :: rest) after
  | new {before middle after : Progress} {task : Task} {tasks rest : List Task}
    (unreached : task ∉ before.reached) (asked : tasksOf table task = .ok tasks)
    (inside : LooksInto table (before.reach task) tasks middle)
    (later : LooksInto table (middle.finish task) rest after) :
    LooksInto table before (task :: rest) after

namespace LooksInto

theorem append (first : LooksInto table before tasks middle)
    (second : LooksInto table middle rest after) :
    LooksInto table before (tasks ++ rest) after := by
  induction first with
  | nothing => exact second
  | known reached _ ih => exact .known reached (ih second)
  | new unreached asked inside _ _ ih => exact .new unreached asked inside (ih second)

/-- There is one way only to look into tasks. -/
theorem unique {other : Progress} (one : LooksInto table before tasks after)
    (two : LooksInto table before tasks other) : other = after := by
  induction one generalizing other with
  | nothing =>
    cases two
    rfl
  | known reached _ ih =>
    cases two with
    | known _ later => exact ih later
    | new unreached => exact absurd reached unreached
  | new unreached asked _ _ ihInside ihLater =>
    cases two with
    | known reached => exact absurd reached unreached
    | new _ asked' inside later =>
      cases asked.symm.trans asked'
      cases ihInside inside
      exact ihLater later

theorem reached (looks : LooksInto table before tasks after) :
    before.reached <+: after.reached := by
  induction looks with
  | nothing => exact List.prefix_rfl
  | known _ _ ih => exact ih
  | new _ _ _ _ ihInside ihLater =>
    exact (List.prefix_append _ _).trans (ihInside.trans ihLater)

end LooksInto

/-! ## The bound is enough -/

/-- Nothing that has to be looked into makes the search fail. -/
theorem exists_tasksOf (decodable : table.IsDecodable) (task : Task) :
    ∃ tasks, tasksOf table task = .ok tasks := by
  cases task with
  | prepare name =>
    rw [tasksOf]
    split <;> exact ⟨_, rfl⟩
  | follow method =>
    rw [tasksOf]
    split
    next => exact ⟨_, rfl⟩
    next file found =>
      rw [tasksOfMethod]
      split
      next => exact ⟨_, rfl⟩
      next code present =>
        obtain ⟨declared, here, body⟩ := Option.bind_eq_some_iff.mp present
        obtain ⟨instructions, decoded⟩ := decodable file (mem_of_find? found).1 declared
          (List.mem_of_find?_eq_some here) code body
        exact ⟨_, bind_eq_ok.mpr ⟨instructions, during_eq_ok.mpr decoded, rfl⟩⟩

/-- A bounded visit does what one without a bound does. -/
def VisitsFreely (table : ClassTable) (fuel : Nat) : Prop :=
  ∀ {before : Progress} {task : Task}, (before.free table).card < fuel →
    ∃ after, visit table fuel before task = .ok after ∧ LooksInto table before [task] after

/-- Several bounded visits, one after the other. -/
theorem exists_foldlM_visit {fuel : Nat} (visits : VisitsFreely table fuel)
    (enough : tasks ≠ [] → (before.free table).card < fuel) :
    ∃ after, tasks.foldlM (fun progress task => visit table fuel progress task) before =
        .ok after ∧
      LooksInto table before tasks after := by
  induction tasks generalizing before with
  | nil => exact ⟨before, rfl, .nothing before⟩
  | cons task rest ih =>
    have enough := enough (List.cons_ne_nil task rest)
    obtain ⟨middle, visited, first⟩ := visits enough
    have less := (Progress.card_free_le_of_reached first.reached).trans_lt enough
    obtain ⟨after, others, second⟩ := ih fun _ => less
    exact ⟨after, List.foldlM_cons.trans (bind_eq_ok.mpr ⟨middle, visited, others⟩),
      first.append second⟩

theorem visitsFreely (decodable : table.IsDecodable) (fuel : Nat) : VisitsFreely table fuel := by
  induction fuel with
  | zero => exact fun enough => absurd enough (Nat.not_lt_zero _)
  | succ fuel ih =>
    intro before task enough
    rw [visit]
    split
    next reached => exact ⟨before, rfl, .known (List.contains_iff_mem.mp reached) (.nothing _)⟩
    next new =>
      have new : task ∉ before.reached := new ∘ List.contains_iff_mem.mpr
      obtain ⟨tasks, asked⟩ := exists_tasksOf decodable task
      have less : tasks ≠ [] → ((before.reach task).free table).card < fuel := fun some =>
        (Progress.card_free_reach_of_asked asked some new).trans_le (Nat.le_of_lt_succ enough)
      obtain ⟨middle, visited, inside⟩ := exists_foldlM_visit ih less
      exact ⟨middle.finish task,
        bind_eq_ok.mpr ⟨tasks, asked, bind_eq_ok.mpr ⟨middle, visited, rfl⟩⟩,
        .new new asked inside (.nothing _)⟩

/-- The search comes to an end without a failure, and its bound does not show. -/
theorem exists_search (decodable : table.IsDecodable) : ∃ progress,
    search table = .ok progress ∧
      LooksInto table .start (table.names.map .prepare) progress :=
  exists_foldlM_visit (visitsFreely decodable _) fun _ => Progress.card_free_start table

/-! ## The classes in the order -/

theorem starts_iff_declaresInitializer {name : ClassName} :
    Starts table name ↔ table.DeclaresInitializer name := by
  have has (file : ClassFile) : hasInitializer file = true ↔ ∃ method ∈ file.methods,
      method.name = initializerName ∧ method.descriptor = emptyDescriptor := by
    simp [hasInitializer, ClassFile.method?]
  constructor
  · rintro ⟨file, found, starts⟩
    obtain ⟨listed, named⟩ := mem_of_find? found
    exact ⟨file, listed, named, (has file).mp starts⟩
  · rintro ⟨file, listed, rfl, declared⟩
    exact ⟨file, find?_of_mem listed, (has file).mpr declared⟩

/-- An order has exactly the classes that declare a static initializer. -/
theorem mem_orderOf_iff {order : List ClassName} (ordered : orderOf table = .ok order)
    {name : ClassName} : name ∈ order ↔ table.DeclaresInitializer name := by
  obtain ⟨progress, searched, rfl⟩ := map_eq_ok.mp ordered
  obtain ⟨_, _, done⟩ := search_sound searched
  rw [← starts_iff_declaresInitializer, List.mem_filterMap]
  constructor
  · rintro ⟨task, _, started⟩
    exact (startedBy_eq_some.mp started).1
  · intro starts
    have ⟨file, found, _⟩ := starts
    exact ⟨_, done found, startedBy_eq_some.mpr ⟨starts, rfl⟩⟩

/-- **Every static initializer runs once.**  If all methods of some classes can be decoded, the
search for an order ends without a failure, as it does without a bound on its depth.  The order that
it gives has no repetitions, and has exactly the classes that declare a static initializer. -/
theorem orderOf_startsEachOnce (decodable : table.IsDecodable) : ∃ progress order,
    LooksInto table .start (table.names.map .prepare) progress ∧
      (∀ other, LooksInto table .start (table.names.map .prepare) other → other = progress) ∧
      order = progress.finished.filterMap (startedBy table) ∧
      orderOf table = .ok order ∧ order.Nodup ∧
      ∀ name, name ∈ order ↔ table.DeclaresInitializer name := by
  obtain ⟨progress, searched, looks⟩ := exists_search decodable
  have ordered : orderOf table = .ok (progress.finished.filterMap (startedBy table)) :=
    map_eq_ok.mpr ⟨progress, searched, rfl⟩
  exact ⟨progress, _, looks, fun other => looks.unique, rfl, ordered,
    nodup_filterMap_startedBy (search_sound searched).1.distinct, fun name =>
      mem_orderOf_iff ordered⟩

/-! ## Classes that call each other -/

/-- A class whose static initializer and whose method `m` have some code, over a pool with the
methods `A.m`, `B.m` and `A.gone`. -/
def callingClass (name superClass : String) (initializer body : List UInt8) : ClassFile where
  version := ⟨52, 0⟩
  pool := ⟨#[none, some (.utf8 (.ofString "()V")), some (.utf8 (.ofString "A")),
    some (.classInfo 2), some (.utf8 (.ofString "B")), some (.classInfo 4),
    some (.utf8 (.ofString "m")), some (.nameAndType 6 1), some (.methodRef 3 7),
    some (.methodRef 5 7), some (.utf8 (.ofString "gone")), some (.nameAndType 10 1),
    some (.methodRef 3 11)]⟩
  access := .ofFlags 0x21
  name := ⟨name⟩
  superClass := some ⟨superClass⟩
  interfaces := []
  fields := []
  methods := [
    { access := .ofFlags 8
      name := initializerName
      descriptor := emptyDescriptor
      code := some ⟨0, 0, initializer, [], []⟩
      exceptions := []
      annotations := .empty },
    { access := .ofFlags 8
      name := "m"
      descriptor := emptyDescriptor
      code := some ⟨0, 0, body, [], []⟩
      exceptions := []
      annotations := .empty }]
  sourceFile := none
  annotations := .empty

/-- `A` and `B` extend each other, and their initializers and methods call those of the other class.
`A.m` also calls a method that is not there. -/
def circling : ClassTable :=
  .ofList [callingClass "A" "B" [0xb8, 0, 9, 0xb1] [0xb8, 0, 9, 0xb8, 0, 12, 0xb1],
    callingClass "B" "A" [0xb8, 0, 8, 0xb1] [0xb8, 0, 8, 0xb1]]

theorem orderOf_circling : orderOf circling = .ok [⟨"B"⟩, ⟨"A"⟩] :=
  ok_of_toOption (by decide +kernel)

/-- Whether all methods can be decoded can be computed. -/
theorem isDecodable_of_all (checked : (table.files.all fun file => file.methods.all fun method =>
    method.code.all fun code => (file.instructionsOf code).toOption.isSome) = true) :
    table.IsDecodable := by
  intro file listed method declared code body
  have methods := List.all_eq_true.mp checked file listed
  have codes := List.all_eq_true.mp methods method declared
  have decodes := (Option.all_eq_true _ _).mp codes code body
  obtain ⟨instructions, decoded⟩ := Option.isSome_iff_exists.mp decodes
  exact ⟨instructions, ok_of_toOption decoded⟩

/-- Each of the two classes leads to the other one, and both are initialized once. -/
theorem orderOf_circling_startsEachOnce :
    circling.IsDecodable ∧ Leads circling (.prepare ⟨"A"⟩) (.prepare ⟨"B"⟩) ∧
      Leads circling (.prepare ⟨"B"⟩) (.prepare ⟨"A"⟩) ∧
      (∃ progress, LooksInto circling .start [.prepare ⟨"A"⟩, .prepare ⟨"B"⟩] progress) ∧
      orderOf circling = .ok [⟨"B"⟩, ⟨"A"⟩] ∧
      ∀ name, name ∈ [(⟨"B"⟩ : ClassName), ⟨"A"⟩] ↔ circling.DeclaresInitializer name := by
  have decodable : circling.IsDecodable := isDecodable_of_all (by decide +kernel)
  obtain ⟨progress, order, looks, _, _, ordered, _, members⟩ := orderOf_startsEachOnce decodable
  cases orderOf_circling.symm.trans ordered
  exact ⟨decodable, leads_of_toOption (by decide +kernel), leads_of_toOption (by decide +kernel),
    ⟨progress, looks⟩, ordered, members⟩

end StartOrder

end Bytescript
