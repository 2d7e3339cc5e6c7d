import Bytescript.Proofs.Program.Search

/-!
# Initializers run after those they use

The order in which static initializers run is the order in which the search is done with their
classes.  So the initializer of a class comes after those of all classes that chains of uses lead
to, as long as they do not come back to something that was open when the class was reached.  On a
circle of uses, such chains end at the class that was reached first, and the classes behind them
may have to wait until that class is looked into further.
-/

set_option autoImplicit false

namespace Bytescript.StartOrder

variable {table : ClassTable}

theorem startedBy_eq_some {task : Task} {name : ClassName} :
    startedBy table task = some name ↔ Starts table name ∧ task = .prepare name := by
  cases task with
  | prepare other =>
    simp only [startedBy, Option.any_eq_true, Task.prepare.injEq]
    constructor
    · intro started
      split at started
      next starts =>
        cases started
        exact ⟨starts, rfl⟩
      next => cases started
    · rintro ⟨starts, rfl⟩
      exact if_pos starts
  | follow method => simp [startedBy]

theorem starts_of_startedBy {name : ClassName}
    (started : startedBy table (.prepare name) = some name) : Starts table name :=
  (startedBy_eq_some.mp started).1

theorem nodup_filterMap_startedBy {tasks : List Task} (distinct : tasks.Nodup) :
    (tasks.filterMap (startedBy table)).Nodup := by
  refine distinct.filterMap fun one other name here there => ?_
  exact (startedBy_eq_some.mp here).2.trans (startedBy_eq_some.mp there).2.symm

/-- A chain of uses that does not come back to anything open leads to a class whose initializer
runs earlier. -/
theorem sublist_of_chain {progress : Progress} (searched : search table = .ok progress)
    {name other : ClassName} (different : name ≠ other) (starts : Starts table name)
    (starts' : Starts table other)
    (chain : progress.Chain table (.prepare name) (.prepare other)) :
    [other, name].Sublist (progress.finished.filterMap (startedBy table)) := by
  obtain ⟨sound, _, done⟩ := search_sound searched
  have finished : .prepare name ∈ progress.finished := by
    obtain ⟨file, found, _⟩ := starts
    exact done found
  rcases sound.ordered _ finished _ chain with same | pair
  · cases same
    exact absurd rfl different
  · have names := pair.filterMap (startedBy table)
    rwa [List.filterMap_cons_some (startedBy_eq_some.mpr ⟨starts', rfl⟩),
      List.filterMap_cons_some (startedBy_eq_some.mpr ⟨starts, rfl⟩), List.filterMap_nil] at names

/-- If nothing open is used, chains of uses do not come back to it. -/
theorem chain_of_leads {progress : Progress} {task other : Task}
    (unused : ∀ outer, progress.Surrounds outer task →
      ¬ Relation.TransGen (Leads table) task outer)
    (leads : Relation.TransGen (Leads table) task other) : progress.Chain table task other := by
  induction leads with
  | single next => exact .single ⟨next, fun open' => unused _ open' (.single next)⟩
  | tail before next ih => exact ih.tail ⟨next, fun open' => unused _ open' (before.tail next)⟩

/-- An order in which the initializer of a class comes after those of the classes that it uses,
except around circles, which are broken where the search entered them. -/
structure FollowsUses (table : ClassTable) (progress : Progress) (order : List ClassName) :
    Prop where
  once : order.Nodup
  /-- What is open at a class leads to it, so a chain that comes back there closes a circle. -/
  opened : ∀ {name : ClassName}, Starts table name → ∀ outer,
    progress.Surrounds outer (.prepare name) →
      Relation.TransGen (Leads table) outer (.prepare name)
  /-- All other chains lead to classes that come earlier. -/
  chains : ∀ {name other : ClassName}, name ≠ other → Starts table name → Starts table other →
    progress.Chain table (.prepare name) (.prepare other) → [other, name].Sublist order
  /-- A class at which a circle is broken comes after everything that it uses. -/
  outermost : ∀ {name other : ClassName}, name ≠ other → Starts table name → Starts table other →
    (∀ outer, progress.Surrounds outer (.prepare name) →
      ¬ Relation.TransGen (Leads table) (.prepare name) outer) →
    Uses table name other → [other, name].Sublist order
  /-- So does a class that is on no circle. -/
  acyclic : ∀ {name other : ClassName}, name ≠ other → Starts table name → Starts table other →
    ¬ Uses table name name → Uses table name other → [other, name].Sublist order

/-- **Static initializers run after those of the classes that they use.**  The initializer of a
class comes after that of every other class which a chain of uses leads to, unless the chain comes
back to a class or a method that was reached earlier and was not finished when this one was. -/
theorem orderOf_followsUses {order : List ClassName} (ordered : orderOf table = .ok order) :
    ∃ progress, search table = .ok progress ∧ FollowsUses table progress order := by
  obtain ⟨progress, searched, rfl⟩ := map_eq_ok.mp ordered
  obtain ⟨sound, _, done⟩ := search_sound searched
  have opened {name : ClassName} (starts : Starts table name) (outer : Task)
      (surrounds : progress.Surrounds outer (.prepare name)) :
      Relation.TransGen (Leads table) outer (.prepare name) := by
    obtain ⟨file, found, _⟩ := starts
    exact sound.nested _ (done found) outer surrounds
  have outermost {name other : ClassName} (different : name ≠ other) (starts : Starts table name)
      (starts' : Starts table other)
      (unused : ∀ outer, progress.Surrounds outer (.prepare name) →
        ¬ Relation.TransGen (Leads table) (.prepare name) outer)
      (uses : Uses table name other) :=
    sublist_of_chain searched different starts starts'
      (chain_of_leads unused (uses_iff_leads.mp uses))
  refine ⟨progress, searched, nodup_filterMap_startedBy sound.distinct, opened,
    sublist_of_chain searched, outermost, fun different starts starts' acyclic uses => ?_⟩
  refine outermost different starts starts' (fun outer surrounds leads => acyclic ?_) uses
  exact uses_iff_leads.mpr (leads.trans (opened starts outer surrounds))

/-! ## A circle -/

/-- A class whose static initializer has some code, over a pool with a field for each of three
classes. -/
def circleClass (name : String) (bytecode : List UInt8) : ClassFile where
  version := ⟨52, 0⟩
  pool := ⟨#[none, some (.utf8 (.ofString "x")), some (.utf8 (.ofString "I")),
    some (.nameAndType 1 2), some (.utf8 (.ofString "A")), some (.classInfo 4),
    some (.fieldRef 5 3), some (.utf8 (.ofString "B")), some (.classInfo 7),
    some (.fieldRef 8 3), some (.utf8 (.ofString "D")), some (.classInfo 10),
    some (.fieldRef 11 3)]⟩
  access := .ofFlags 0x21
  name := ⟨name⟩
  superClass := some .object
  interfaces := []
  fields := []
  methods := [{
    access := .ofFlags 8
    name := initializerName
    descriptor := emptyDescriptor
    code := some ⟨1, 0, bytecode, [], []⟩
    exceptions := []
    annotations := .empty }]
  sourceFile := none
  annotations := .empty

/-- The initializer of `A` reads fields of `B` and `D`, and the one of `B` reads one of `A`. -/
def circle : ClassTable :=
  .ofList [circleClass "A" [0xb2, 0, 9, 0x57, 0xb2, 0, 12, 0x57, 0xb1],
    circleClass "B" [0xb2, 0, 6, 0x57, 0xb1], circleClass "D" [0xb1]]

theorem orderOf_circle : orderOf circle = .ok [⟨"B"⟩, ⟨"D"⟩, ⟨"A"⟩] :=
  ok_of_toOption (by decide +kernel)

/-- What is asked for can be computed. -/
theorem leads_of_toOption {task other : Task}
    (computed : ((tasksOf table task).toOption.any fun tasks => tasks.contains other) = true) :
    Leads table task other := by
  obtain ⟨tasks, asked, listed⟩ := (Option.any_eq_true _ _).mp computed
  exact (mem_tasksOf (ok_of_toOption asked)).mp (List.contains_iff_mem.mp listed)

/-- A class uses nothing outside of what is closed under all steps. -/
theorem not_uses_of_closed {name other : ClassName} (tasks : List Task)
    (here : .prepare name ∈ tasks) (away : .prepare other ∉ tasks)
    (closed : (tasks.all fun task => (tasksOf table task).toOption.any fun next =>
      next.all tasks.contains) = true) : ¬ Uses table name other := by
  have step {task next : Task} (inside : task ∈ tasks) (leads : Leads table task next) :
      next ∈ tasks := by
    obtain ⟨asked, computed, listed⟩ :=
      (Option.any_eq_true _ _).mp (List.all_eq_true.mp closed task inside)
    have member := (mem_tasksOf (ok_of_toOption computed)).mpr leads
    exact List.contains_iff_mem.mp (List.all_eq_true.mp listed next member)
  have inside {task : Task} (chain : Relation.TransGen (Leads table) (.prepare name) task) :
      task ∈ tasks := by
    induction chain with
    | single leads => exact step here leads
    | tail _ leads ih => exact step ih leads
  exact fun uses => away (inside (uses_iff_leads.mp uses))

/-- `A` is reached first and uses `D`, so `D` comes before `A`. -/
theorem orderOf_circle_followsUses :
    orderOf circle = .ok [⟨"B"⟩, ⟨"D"⟩, ⟨"A"⟩] ∧
      ∃ progress, search circle = .ok progress ∧
        FollowsUses circle progress [⟨"B"⟩, ⟨"D"⟩, ⟨"A"⟩] ∧
        (∀ outer, ¬ progress.Surrounds outer (.prepare ⟨"A"⟩)) ∧
        Uses circle ⟨"A"⟩ ⟨"D"⟩ ∧
        [(⟨"D"⟩ : ClassName), ⟨"A"⟩].Sublist [⟨"B"⟩, ⟨"D"⟩, ⟨"A"⟩] := by
  obtain ⟨progress, searched, follows⟩ := orderOf_followsUses orderOf_circle
  have first : ((search circle).toOption.any fun progress =>
      progress.reached.head? = some (.prepare ⟨"A"⟩)) = true := by decide +kernel
  have outermost (outer : Task) : ¬ progress.Surrounds outer (.prepare ⟨"A"⟩) := by
    rw [searched] at first
    exact (search_sound searched).1.not_surrounds_first (of_decide_eq_true first) outer
  have uses : Uses circle ⟨"A"⟩ ⟨"D"⟩ := by
    refine uses_iff_leads.mpr (.head (b := .follow (initializerOf ⟨"A"⟩)) ?_ (.single ?_)) <;>
      exact leads_of_toOption (by decide +kernel)
  refine ⟨orderOf_circle, progress, searched, follows, outermost, uses, ?_⟩
  exact follows.outermost (by decide) (starts_of_startedBy (by decide +kernel))
    (starts_of_startedBy (by decide +kernel))
    (fun outer surrounds => absurd surrounds (outermost outer)) uses

/-- `B` uses `D` through `A`, but it is looked into when `A` is open.  So `B` comes before `D`,
though `D` does not use `B`. -/
theorem circle_before_used :
    (∀ file ∈ circle.files, ∀ above ∈ file.superClass, circle.contains above = false) ∧
      orderOf circle = .ok [⟨"B"⟩, ⟨"D"⟩, ⟨"A"⟩] ∧
      Starts circle ⟨"B"⟩ ∧ Starts circle ⟨"D"⟩ ∧
      Uses circle ⟨"B"⟩ ⟨"D"⟩ ∧ ¬ Uses circle ⟨"D"⟩ ⟨"B"⟩ ∧
      ¬ [(⟨"D"⟩ : ClassName), ⟨"B"⟩].Sublist [⟨"B"⟩, ⟨"D"⟩, ⟨"A"⟩] := by
  refine ⟨by decide +kernel, orderOf_circle, starts_of_startedBy (by decide +kernel),
    starts_of_startedBy (by decide +kernel), ?_, ?_, by decide⟩
  · refine uses_iff_leads.mpr (.head (b := .follow (initializerOf ⟨"B"⟩)) ?_
      (.head (b := .prepare ⟨"A"⟩) ?_
        (.head (b := .follow (initializerOf ⟨"A"⟩)) ?_ (.single ?_)))) <;>
      exact leads_of_toOption (by decide +kernel)
  · exact not_uses_of_closed
      [.prepare ⟨"D"⟩, .prepare .object, .follow (initializerOf ⟨"D"⟩)]
      (by decide) (by decide) (by decide +kernel)

end Bytescript.StartOrder
