import Bytescript.Proofs.Program.Use
import Mathlib.Data.Finset.Card

/-!
# The search for an order

The search looks into all classes, and before it is done with a class or a method, into all that
these lead to.  Whatever was reached earlier is left alone: either it is finished, or it is open,
since the search came from there.

So when something is finished, it stands behind all that it leads to by steps which do not come
back to what was open then.  That is all that an order can promise on a circle of uses, where
something has to come before what it uses.
-/

set_option autoImplicit false

namespace Bytescript.StartOrder

variable {table : ClassTable}

/-! ## What can ask for anything -/

/-- The classes of a table, and their methods. -/
def askers (table : ClassTable) : List Task :=
  table.names.map Task.prepare ++ table.files.flatMap fun file =>
    file.methods.map fun method => .follow ⟨file.name, method.name, method.descriptor⟩

theorem length_askers (table : ClassTable) : (askers table).length + 1 = depthBound table := by
  have methods : ∀ (files : List ClassFile) (bound : Nat),
      files.foldr (fun file bound => file.methods.length + bound) bound =
        (files.flatMap fun file => file.methods.map fun method =>
          Task.follow ⟨file.name, method.name, method.descriptor⟩).length + bound := by
    intro files bound
    induction files with
    | nil => simp
    | cons file rest ih => simp [ih, Nat.add_assoc]
  simp only [askers, depthBound, methods, List.length_append, List.length_map, ClassTable.names,
    ClassTable.size]
  omega

theorem mem_of_find? {name : ClassName} {file : ClassFile}
    (found : table.find? name = some file) : file ∈ table.files ∧ file.name = name := by
  have named := List.find?_some found
  exact ⟨List.mem_of_find?_eq_some found, by simpa using named⟩

/-- The classes of a table have different names, so each is found by its own. -/
theorem find?_of_mem {file : ClassFile} (listed : file ∈ table.files) :
    table.find? file.name = some file := by
  have found {files : List ClassFile} (distinct : (files.map ClassFile.name).Nodup)
      (listed : file ∈ files) : files.find? (fun other => other.name = file.name) = some file := by
    induction files with
    | nil => cases listed
    | cons other rest ih =>
      rw [List.map_cons, List.nodup_cons] at distinct
      rcases List.mem_cons.mp listed with rfl | later
      · exact List.find?_cons_of_pos (by simp)
      · have apart : other.name ≠ file.name := fun same =>
          distinct.1 (same ▸ List.mem_map_of_mem later)
        rw [List.find?_cons_of_neg (by simpa using apart)]
        exact ih distinct.2 later
  exact found table.distinct listed

theorem prepare_mem_askers {name : ClassName} {file : ClassFile}
    (found : table.find? name = some file) : Task.prepare name ∈ askers table := by
  obtain ⟨member, rfl⟩ := mem_of_find? found
  exact List.mem_append_left _ (List.mem_map_of_mem (List.mem_map_of_mem member))

theorem Runs.mem_askers {method : MemberRef} {instruction : Instruction}
    (runs : Runs table method instruction) : Task.follow method ∈ askers table := by
  obtain ⟨file, code, _, found, present, _⟩ := runs
  obtain ⟨member, named⟩ := mem_of_find? found
  obtain ⟨declared, here, _⟩ := Option.bind_eq_some_iff.mp present
  have matches' := List.find?_some here
  simp only [Bool.and_eq_true, decide_eq_true_eq] at matches'
  refine List.mem_append_right _ (List.mem_flatMap.mpr ⟨file, member, List.mem_map.mpr
    ⟨declared, List.mem_of_find?_eq_some here, ?_⟩⟩)
  rw [named, matches'.1, matches'.2]

theorem Leads.mem_askers {task other : Task} (leads : Leads table task other) :
    task ∈ askers table := by
  cases leads with
  | super found => exact prepare_mem_askers found
  | initializer starts =>
    obtain ⟨_, found, _⟩ := starts
    exact prepare_mem_askers found
  | calls calls =>
    obtain ⟨_, runs, _⟩ := calls
    exact runs.mem_askers
  | touches runs => exact runs.mem_askers

/-! ## Pairs in lists without repetitions -/

section Pairs

variable {list more : List Task} {one other : Task}

theorem nodup_append_singleton (distinct : list.Nodup) (new : other ∉ list) :
    (list ++ [other]).Nodup :=
  List.nodup_append.mpr ⟨distinct, List.nodup_singleton other, fun _ here _ last same =>
    new (List.mem_singleton.mp last ▸ same ▸ here)⟩

theorem pair_sublist_append (here : one ∈ list) : [one, other].Sublist (list ++ [other]) :=
  (List.singleton_sublist.mpr here).append (List.Sublist.refl [other])

theorem mem_of_pair_sublist (pair : [one, other].Sublist (list ++ [other]))
    (distinct : (list ++ [other]).Nodup) : one ∈ list := by
  have apart : one ≠ other := by simpa using pair.nodup distinct
  exact (List.mem_append.mp (pair.subset List.mem_cons_self)).resolve_right (by simpa using apart)

/-- A pair whose second part is not in the rest of a list stands in the list before. -/
theorem pair_sublist_of_notMem (pair : [one, other].Sublist (list ++ more))
    (apart : other ∉ more) : [one, other].Sublist list := by
  obtain ⟨front, back, split, here, there⟩ := List.sublist_append_iff.mp pair
  cases back with
  | nil => rwa [split, List.append_nil]
  | cons first rest =>
    refine absurd (there.subset ?_) apart
    have last := congrArg List.getLast? split
    rw [List.getLast?_append_of_ne_nil _ (List.cons_ne_nil first rest)] at last
    exact List.mem_of_getLast? last.symm

/-- What stands before something in a list does not change when the list grows. -/
theorem pair_sublist_iff_of_grows (grows : list <+: more) (distinct : more.Nodup)
    (here : other ∈ list) : [one, other].Sublist list ↔ [one, other].Sublist more := by
  refine ⟨(·.trans grows.sublist), fun pair => ?_⟩
  obtain ⟨rest, rfl⟩ := grows
  exact pair_sublist_of_notMem pair fun again =>
    (List.nodup_append.mp distinct).2.2 other here other again rfl

end Pairs

namespace Progress

variable {before after progress : Progress} {task other : Task}

theorem mem_reach : other ∈ (progress.reach task).reached ↔
    other ∈ progress.reached ∨ other = task := by
  simp [reach]

theorem mem_finish : other ∈ (progress.finish task).finished ↔
    other ∈ progress.finished ∨ other = task := by
  simp [finish]

/-! ## What is left -/

/-- What can ask for anything and was not reached yet. -/
def free (table : ClassTable) (progress : Progress) : Finset Task :=
  (askers table).toFinset \ progress.reached.toFinset

theorem card_free_reach (asks : task ∈ askers table)
    (new : task ∉ progress.reached) :
    ((progress.reach task).free table).card < (progress.free table).card := by
  refine Finset.card_lt_card (Finset.ssubset_iff_of_subset ?_ |>.mpr ⟨task, ?_, ?_⟩)
  · intro other
    simp only [free, reach, Finset.mem_sdiff, List.mem_toFinset, List.mem_append]
    exact fun ⟨here, unreached⟩ => ⟨here, unreached ∘ .inl⟩
  · simp [free, asks, new]
  · simp [free, reach]

/-- What asks for something at all is no longer free once it is reached. -/
theorem card_free_reach_of_asked {tasks : List Task} (asked : tasksOf table task = .ok tasks)
    (some : tasks ≠ []) (new : task ∉ progress.reached) :
    ((progress.reach task).free table).card < (progress.free table).card := by
  obtain ⟨first, member⟩ := List.exists_mem_of_ne_nil tasks some
  exact card_free_reach ((mem_tasksOf asked).mp member).mem_askers new

theorem card_free_le_of_reached (reached : before.reached <+: after.reached) :
    (after.free table).card ≤ (before.free table).card := by
  refine Finset.card_le_card (Finset.sdiff_subset_sdiff le_rfl ?_)
  intro task
  simpa using (reached.subset ·)

/-! ## Chains that avoid what is open -/

/-- Something was reached before something else and was not finished before it, so the search came
from the one to the other, or it is still looking into the one. -/
def Surrounds (progress : Progress) (outer inner : Task) : Prop :=
  [outer, inner].Sublist progress.reached ∧ ¬ [outer, inner].Sublist progress.finished

/-- A chain of steps that does not come back to what surrounds its start. -/
def Chain (table : ClassTable) (progress : Progress) (task : Task) : Task → Prop :=
  Relation.TransGen (fun here there => Leads table here there ∧ ¬ progress.Surrounds there task)
    task

/-- All that chains from a task lead to is finished before it. -/
def Ordered (table : ClassTable) (progress : Progress) (task : Task) : Prop :=
  ∀ other, progress.Chain table task other →
    other = task ∨ [other, task].Sublist progress.finished

/-- What surrounds a task leads to it. -/
def Nested (table : ClassTable) (progress : Progress) (task : Task) : Prop :=
  ∀ outer, progress.Surrounds outer task → Relation.TransGen (Leads table) outer task

/-- What holds while the search goes on. -/
structure Sound (table : ClassTable) (progress : Progress) : Prop where
  once : progress.reached.Nodup
  distinct : progress.finished.Nodup
  begun : ∀ task ∈ progress.finished, task ∈ progress.reached
  closed : ∀ task ∈ progress.finished, ∀ other, Leads table task other →
    other ∈ progress.reached
  ordered : ∀ task ∈ progress.finished, progress.Ordered table task
  nested : ∀ task ∈ progress.finished, progress.Nested table task

/-- Everything that was reached is finished, or the search comes from there. -/
def ComesTo (table : ClassTable) (progress : Progress) (task : Task) : Prop :=
  ∀ outer ∈ progress.reached,
    outer ∈ progress.finished ∨ Relation.TransGen (Leads table) outer task

/-- How the search goes on: what it reaches gets finished, and only that. -/
structure Extends (before after : Progress) : Prop where
  reached : before.reached <+: after.reached
  finished : before.finished <+: after.finished
  done : ∀ task ∈ after.reached, task ∈ before.reached ∨ task ∈ after.finished
  fresh : ∀ task ∈ after.finished, task ∈ before.finished ∨ task ∉ before.reached

theorem Extends.refl (progress : Progress) : Extends progress progress :=
  ⟨List.prefix_rfl, List.prefix_rfl, fun _ => .inl, fun _ => .inl⟩

theorem Extends.trans {middle : Progress} (one : Extends before middle)
    (two : Extends middle after) : Extends before after where
  reached := one.reached.trans two.reached
  finished := one.finished.trans two.finished
  done task here := by
    rcases two.done task here with early | late
    · exact (one.done task early).imp_right (two.finished.subset ·)
    · exact .inr late
  fresh task here := by
    rcases two.fresh task here with early | late
    · exact one.fresh task early
    · exact .inr (late <| one.reached.subset ·)

theorem Extends.card_free_le (extended : Extends before after) :
    (after.free table).card ≤ (before.free table).card :=
  card_free_le_of_reached extended.reached

/-- What surrounds something that is finished stays the same when the search goes on. -/
theorem surrounds_iff {outer : Task} (reached : before.reached <+: after.reached)
    (finished : before.finished <+: after.finished) (once : after.reached.Nodup)
    (distinct : after.finished.Nodup) (begun : task ∈ before.reached)
    (done : task ∈ before.finished) :
    before.Surrounds outer task ↔ after.Surrounds outer task := by
  rw [Surrounds, Surrounds, pair_sublist_iff_of_grows reached once begun,
    pair_sublist_iff_of_grows finished distinct done]

/-- What is known of something that is finished stays so when the search goes on. -/
theorem Sound.mono (sound : before.Sound table)
    (reached : before.reached <+: after.reached) (finished : before.finished <+: after.finished)
    (once : after.reached.Nodup) (distinct : after.finished.Nodup)
    (done : task ∈ before.finished) : after.Ordered table task ∧ after.Nested table task := by
  have same (outer : Task) : before.Surrounds outer task ↔ after.Surrounds outer task :=
    surrounds_iff reached finished once distinct (sound.begun task done) done
  constructor
  · intro other chain
    have early : before.Chain table task other :=
      Relation.TransGen.mono (fun _ _ ⟨leads, free⟩ => ⟨leads, free ∘ (same _).mp⟩) _ _ chain
    exact (sound.ordered task done other early).imp_right (·.trans finished.sublist)
  · exact fun outer surrounds => sound.nested task done outer ((same outer).mpr surrounds)

/-- Nothing was open when the first thing was reached. -/
theorem Sound.not_surrounds_first (sound : progress.Sound table)
    (first : progress.reached.head? = some task) (outer : Task) :
    ¬ progress.Surrounds outer task := by
  rintro ⟨pair, _⟩
  obtain ⟨rest, whole⟩ := List.head?_eq_some_iff.mp first
  have once := sound.once
  rw [whole] at pair once
  have again : task ∈ rest := by
    cases pair with
    | cons _ pair => exact pair.subset (by simp)
    | cons_cons _ pair => exact pair.subset (by simp)
  exact (List.nodup_cons.mp once).1 again

/-! ## Steps of the search -/

theorem sound_start : Progress.start.Sound table := by
  constructor <;> simp [start]

theorem Sound.reach (sound : progress.Sound table) (new : task ∉ progress.reached) :
    (progress.reach task).Sound table := by
  have once := nodup_append_singleton sound.once new
  have kept (other : Task) (done : other ∈ progress.finished) :
      (progress.reach task).Ordered table other ∧ (progress.reach task).Nested table other :=
    sound.mono (List.prefix_append _ [task]) List.prefix_rfl once sound.distinct done
  exact {
    once
    distinct := sound.distinct
    begun := fun other done => List.mem_append_left _ (sound.begun other done)
    closed := fun other done next leads =>
      List.mem_append_left _ (sound.closed other done next leads)
    ordered := fun other done => (kept other done).1
    nested := fun other done => (kept other done).2 }

/-- When a task is done, whatever was finished leads to other things that are finished, unless they
were reached before the task and are still open. -/
theorem mem_finish_of_leads {here there : Task} (sound : after.Sound table)
    (extended : Extends (before.reach task) after)
    (taken : ∀ other, Leads table task other → other ∈ after.reached)
    (done : here ∈ (after.finish task).finished) (leads : Leads table here there)
    (free : ¬ (after.finish task).Surrounds there task) :
    there ∈ (after.finish task).finished := by
  have reached : there ∈ after.reached := by
    rcases mem_finish.mp done with done | rfl
    · exact sound.closed here done there leads
    · exact taken there leads
  by_contra unfinished
  refine free ⟨?_, fun pair => unfinished (pair.subset List.mem_cons_self)⟩
  rcases extended.done there reached with early | late
  · rcases mem_reach.mp early with early | rfl
    · exact (pair_sublist_append early).trans extended.reached.sublist
    · exact absurd (mem_finish.mpr (.inr rfl)) unfinished
  · exact absurd (mem_finish.mpr (.inl late)) unfinished

/-- When a task is done, it stands behind all that its chains lead to. -/
theorem ordered_finish (sound : after.Sound table) (extended : Extends (before.reach task) after)
    (taken : ∀ other, Leads table task other → other ∈ after.reached) :
    (after.finish task).Ordered table task := by
  intro other chain
  have done : other ∈ (after.finish task).finished := by
    induction chain with
    | single next =>
      exact mem_finish_of_leads sound extended taken (mem_finish.mpr (.inr rfl)) next.1 next.2
    | tail _ next ih => exact mem_finish_of_leads sound extended taken ih next.1 next.2
  exact (mem_finish.mp done).elim (fun done => .inr (pair_sublist_append done)) .inl

/-- What surrounds a task when it is done was reached before it and is still open, so the search
came from there. -/
theorem nested_finish (sound : after.Sound table) (comes : before.ComesTo table task)
    (extended : Extends (before.reach task) after) : (after.finish task).Nested table task := by
  rintro outer ⟨pair, unfinished⟩
  have begun : task ∈ (before.reach task).reached := mem_reach.mpr (.inr rfl)
  have first := (pair_sublist_iff_of_grows extended.reached sound.once begun).mpr pair
  have early : outer ∈ before.reached :=
    mem_of_pair_sublist first (sound.once.sublist extended.reached.sublist)
  refine (comes outer early).resolve_left fun done => unfinished ?_
  exact pair_sublist_append (extended.finished.subset done)

theorem Sound.finish (sound : after.Sound table) (old : before.Sound table)
    (comes : before.ComesTo table task) (new : task ∉ before.reached)
    (extended : Extends (before.reach task) after)
    (taken : ∀ other, Leads table task other → other ∈ after.reached) :
    (after.finish task).Sound table := by
  have begun : task ∈ (before.reach task).reached := mem_reach.mpr (.inr rfl)
  have reached : task ∈ after.reached := extended.reached.subset begun
  have unfinished : task ∉ after.finished := by
    intro done
    rcases extended.fresh task done with early | late
    · exact new (old.begun task early)
    · exact late begun
  have distinct := nodup_append_singleton sound.distinct unfinished
  have kept (other : Task) (done : other ∈ after.finished) :
      (after.finish task).Ordered table other ∧ (after.finish task).Nested table other :=
    sound.mono List.prefix_rfl (List.prefix_append _ [task]) sound.once distinct done
  exact {
    once := sound.once
    distinct
    begun := List.forall_mem_append.mpr ⟨sound.begun, List.forall_mem_singleton.mpr reached⟩
    closed := List.forall_mem_append.mpr ⟨sound.closed, List.forall_mem_singleton.mpr taken⟩
    ordered := List.forall_mem_append.mpr ⟨fun other done => (kept other done).1,
      List.forall_mem_singleton.mpr (ordered_finish sound extended taken)⟩
    nested := List.forall_mem_append.mpr ⟨fun other done => (kept other done).2,
      List.forall_mem_singleton.mpr (nested_finish sound comes extended)⟩ }

theorem Extends.finish (extended : Extends (before.reach task) after)
    (new : task ∉ before.reached) : Extends before (after.finish task) where
  reached := (List.prefix_append _ _).trans extended.reached
  finished := extended.finished.trans (List.prefix_append _ _)
  done other reached := by
    rcases extended.done other reached with early | done
    · exact (mem_reach.mp early).imp_right (mem_finish.mpr ∘ .inr)
    · exact .inr (mem_finish.mpr (.inl done))
  fresh other done := by
    rcases mem_finish.mp done with done | rfl
    · exact (extended.fresh other done).imp_right fun late early =>
        late (mem_reach.mpr (.inl early))
    · exact .inr new

/-! ## The whole search -/

/-- What a visit guarantees, as long as there is fuel for everything that is free. -/
def Visits (table : ClassTable) (fuel : Nat) : Prop :=
  ∀ {before after : Progress} {task : Task}, before.Sound table → before.ComesTo table task →
    (before.free table).card < fuel → visit table fuel before task = .ok after →
      Extends before after ∧ after.Sound table ∧ task ∈ after.reached

theorem ComesTo.mono (comes : before.ComesTo table task)
    (extended : Extends before after) : after.ComesTo table task := by
  intro outer reached
  rcases extended.done outer reached with early | done
  · exact (comes outer early).imp_left (extended.finished.subset ·)
  · exact .inl done

theorem ComesTo.reach (comes : before.ComesTo table task)
    (leads : Leads table task other) : (before.reach task).ComesTo table other := by
  refine List.forall_mem_append.mpr ⟨fun outer early => ?_, ?_⟩
  · exact (comes outer early).imp_right (·.tail leads)
  · exact List.forall_mem_singleton.mpr (.inr (.single leads))

/-- Several visits, one after the other. -/
theorem foldlM_visit {fuel : Nat} (visits : Visits table fuel) {tasks : List Task}
    (sound : before.Sound table) (comes : ∀ task ∈ tasks, before.ComesTo table task)
    (enough : tasks ≠ [] → (before.free table).card < fuel)
    (visited : tasks.foldlM (fun progress task => visit table fuel progress task) before =
      .ok after) :
    Extends before after ∧ after.Sound table ∧ ∀ task ∈ tasks, task ∈ after.reached := by
  induction tasks generalizing before with
  | nil =>
    cases visited
    exact ⟨.refl _, sound, by simp⟩
  | cons task rest ih =>
    rw [List.foldlM_cons, bind_eq_ok] at visited
    obtain ⟨middle, here, visited⟩ := visited
    have enough := enough (List.cons_ne_nil task rest)
    obtain ⟨comesFirst, comesRest⟩ := List.forall_mem_cons.mp comes
    obtain ⟨extended, sound', reached⟩ := visits sound comesFirst enough here
    obtain ⟨further, sound'', others⟩ :=
      ih sound' (fun other listed => (comesRest other listed).mono extended)
        (fun _ => extended.card_free_le.trans_lt enough) visited
    exact ⟨extended.trans further, sound'',
      List.forall_mem_cons.mpr ⟨further.reached.subset reached, others⟩⟩

theorem visits (table : ClassTable) (fuel : Nat) : Visits table fuel := by
  induction fuel with
  | zero => exact fun _ _ enough => absurd enough (Nat.not_lt_zero _)
  | succ fuel ih =>
    intro before after task sound comes enough visited
    rw [visit] at visited
    split at visited
    next reached =>
      cases visited
      exact ⟨.refl before, sound, List.contains_iff_mem.mp reached⟩
    next new =>
      have new : task ∉ before.reached := new ∘ List.contains_iff_mem.mpr
      obtain ⟨tasks, asked, visited⟩ := bind_eq_ok.mp visited
      obtain ⟨middle, walked, same⟩ := bind_eq_ok.mp visited
      cases same
      have less : tasks ≠ [] → ((before.reach task).free table).card < fuel := by
        intro some
        exact (card_free_reach_of_asked asked some new).trans_le (Nat.le_of_lt_succ enough)
      obtain ⟨extended, sound', taken⟩ := foldlM_visit ih (sound.reach new)
        (fun other listed => comes.reach ((mem_tasksOf asked).mp listed)) less walked
      refine ⟨extended.finish new, sound'.finish sound comes new extended fun other leads => ?_, ?_⟩
      · exact taken other ((mem_tasksOf asked).mpr leads)
      · exact extended.reached.subset (List.mem_append_right _ (by simp))

theorem card_free_start (table : ClassTable) :
    (Progress.start.free table).card < depthBound table := by
  rw [← length_askers, Nat.lt_succ_iff]
  exact (Finset.card_le_card Finset.sdiff_subset).trans (List.toFinset_card_le _)

end Progress

/-- The search reaches all classes, and in the end everything is finished that was reached. -/
theorem search_sound {progress : Progress} (searched : search table = .ok progress) :
    progress.Sound table ∧ (∀ task ∈ progress.reached, task ∈ progress.finished) ∧
      ∀ {name file}, table.find? name = some file → .prepare name ∈ progress.finished := by
  obtain ⟨extended, sound, taken⟩ := Progress.foldlM_visit (Progress.visits table _)
    Progress.sound_start (fun _ _ outer reached => absurd reached List.not_mem_nil)
    (fun _ => Progress.card_free_start table) searched
  have done : ∀ task ∈ progress.reached, task ∈ progress.finished := fun task reached =>
    (extended.done task reached).resolve_left (by simp [Progress.start])
  refine ⟨sound, done, fun found => done _ (taken _ ?_)⟩
  obtain ⟨member, rfl⟩ := mem_of_find? found
  exact List.mem_map_of_mem (List.mem_map_of_mem member)

end Bytescript.StartOrder
