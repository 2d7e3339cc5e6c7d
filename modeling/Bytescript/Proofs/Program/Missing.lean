import Bytescript.Proofs.Program.Closure

/-!
# Classes that are missing

If every class file that is found can be read, a search only fails because nothing is found for a
class.  The class that it reports is the first such one in the order in which a breadth first walk
discovers the names, and it is blamed on the class that mentions it first.

The order of the walk does not depend on the search: every round of it lists the entries and then
what each name of the round before leads to, where a class that is missing leads to nothing.
-/

set_option autoImplicit false

namespace Bytescript.Reachability

variable {lookup : Lookup} {entries provided front : List ClassName} {name other : ClassName}

/-! ## Names that are reached -/

/-- No class is found for a name that is not provided. -/
def IsMissing (lookup : Lookup) (provided : List ClassName) (name : ClassName) : Prop :=
  name ∉ provided ∧ lookup name = .ok none

/-- The look-up never fails, and what it finds is a class of the right name with decodable code. -/
structure IsReadable (lookup : Lookup) : Prop where
  answers : ∀ name, ∃ found, lookup name = .ok found
  parses : ∀ {name : ClassName} {bytes : List UInt8}, lookup name = .ok (some bytes) →
    ∃ file, ClassFile.parse bytes = .ok file ∧ file.name = name ∧
      ∀ method ∈ file.methods, ∀ code, method.code = some code →
        ∃ instructions, file.instructionsOf code = .ok instructions

/-- A name is an entry, or a class that was loaded for a reached name refers to it. -/
inductive Reached (lookup : Lookup) (entries provided : List ClassName) : ClassName → Prop where
  | entry {name : ClassName} (listed : name ∈ entries) : Reached lookup entries provided name
  | reference {name other : ClassName} {file : ClassFile}
    (reached : Reached lookup entries provided name) (own : name ∉ provided)
    (loads : Loads lookup name file) (refers : file.RefersTo other) :
    Reached lookup entries provided other

theorem isClosed_reached (lookup : Lookup) (entries provided : List ClassName) :
    IsClosed lookup entries provided {name | Reached lookup entries provided name} where
  entry _ listed := .entry listed
  reference _ reached own _ loads _ refers := .reference reached own loads refers

theorem Reached.mem_of_isClosed {names : Set ClassName}
    (reached : Reached lookup entries provided name)
    (closed : IsClosed lookup entries provided names) : name ∈ names := by
  induction reached with
  | entry listed => exact closed.entry _ listed
  | reference _ own loads refers ih => exact closed.reference _ ih own _ loads _ refers

theorem Expands.not_isMissing {references : List ClassName}
    (expands : Expands lookup provided name references) : ¬ IsMissing lookup provided name := by
  rintro ⟨own, nothing⟩
  cases expands with
  | provided here => exact own here
  | loaded _ loads _ =>
    obtain ⟨_, found, _⟩ := loads
    cases nothing.symm.trans found

theorem exists_references {file : ClassFile}
    (decodes : ∀ method ∈ file.methods, ∀ code, method.code = some code →
      ∃ instructions, file.instructionsOf code = .ok instructions) :
    ∃ references, file.references = .ok references := by
  have each : ∀ method ∈ file.methods, ∃ list, file.methodReferences method = .ok list := by
    intro method declared
    rw [ClassFile.methodReferences]
    split
    · exact ⟨_, rfl⟩
    next code body =>
      obtain ⟨instructions, decoded⟩ := decodes method declared code body
      exact ⟨_, bind_eq_ok.mpr ⟨instructions, during_eq_ok.mpr decoded, rfl⟩⟩
  obtain ⟨lists, collected⟩ := exists_mapM_eq_ok each
  exact ⟨_, bind_eq_ok.mpr ⟨lists, collected, rfl⟩⟩

/-- A name is taken without a failure unless its class is missing. -/
theorem IsReadable.exists_expands (readable : IsReadable lookup)
    (found : ¬ IsMissing lookup provided name) :
    ∃ references, Expands lookup provided name references := by
  by_cases own : name ∉ provided
  · obtain ⟨_ | bytes, answer⟩ := readable.answers name
    · exact absurd ⟨own, answer⟩ found
    · obtain ⟨file, parsed, named, decodes⟩ := readable.parses answer
      obtain ⟨references, collected⟩ := exists_references decodes
      exact ⟨references, .loaded own ⟨bytes, answer, parsed, named⟩ collected⟩
  · exact ⟨[], .provided (not_not.mp own)⟩

/-! ## The order of discovery -/

/-- What a name leads to: the references of its class, and nothing if it is provided or missing. -/
def followed (lookup : Lookup) (provided : List ClassName) (name : ClassName) : List ClassName :=
  if name ∈ provided then []
  else
    match lookup name with
    | .ok (some bytes) => (ClassFile.parse bytes >>= ClassFile.references).toOption.getD []
    | _ => []

theorem Expands.followed_eq {references : List ClassName}
    (expands : Expands lookup provided name references) :
    followed lookup provided name = references := by
  rw [followed]
  cases expands with
  | provided here => rw [if_pos here]
  | loaded own loads collected =>
    obtain ⟨bytes, found, parsed, _⟩ := loads
    rw [if_neg own, found]
    exact congrArg (fun result => result.toOption.getD []) (bind_eq_ok.mpr ⟨_, parsed, collected⟩)

theorem expansions_eq_map_followed {walk : List ClassName} {expansions : List (List ClassName)}
    (expanded : List.Forall₂ (Expands lookup provided) walk expansions) :
    expansions = walk.map (followed lookup provided) := by
  induction expanded with
  | nil => rfl
  | cons first _ ih => rw [List.map_cons, first.followed_eq, ← ih]

/-- The names in the order in which a walk discovers them, as far as it gets in some rounds. -/
def discovered (lookup : Lookup) (entries provided : List ClassName) : Nat → List ClassName
  | 0 => []
  | rounds + 1 =>
    (entries ++ (discovered lookup entries provided rounds).flatMap
      (followed lookup provided)).eraseDups

theorem eraseDups_isPrefix {list list' : List ClassName} (begins : list <+: list') :
    list.eraseDups <+: list'.eraseDups := by
  obtain ⟨rest, rfl⟩ := begins
  rw [List.eraseDups_append]
  exact List.prefix_append _ _

theorem round_isPrefix {list list' : List ClassName} (begins : list <+: list') :
    (entries ++ list.flatMap (followed lookup provided)).eraseDups <+:
      (entries ++ list'.flatMap (followed lookup provided)).eraseDups := by
  obtain ⟨rest, rfl⟩ := begins
  rw [List.flatMap_append, ← List.append_assoc]
  exact eraseDups_isPrefix (List.prefix_append _ _)

/-- A round only adds names at the end. -/
theorem discovered_isPrefix {rounds rounds' : Nat} (earlier : rounds ≤ rounds') :
    discovered lookup entries provided rounds <+: discovered lookup entries provided rounds' := by
  have next (rounds : Nat) : discovered lookup entries provided rounds <+:
      discovered lookup entries provided (rounds + 1) := by
    induction rounds with
    | zero => exact List.nil_prefix
    | succ rounds ih => exact round_isPrefix ih
  induction earlier with
  | refl => exact List.prefix_rfl
  | step _ ih => exact ih.trans (next _)

theorem Reached.exists_discovered (reached : Reached lookup entries provided name)
    (readable : IsReadable lookup) :
    ∃ rounds, name ∈ discovered lookup entries provided rounds := by
  induction reached with
  | entry listed => exact ⟨1, List.mem_eraseDups.mpr (List.mem_append_left _ listed)⟩
  | @reference name other file _ own loads refers ih =>
    obtain ⟨rounds, here⟩ := ih
    have present : ¬IsMissing lookup provided name := fun missing => by
      obtain ⟨_, found, _⟩ := loads
      cases missing.2.symm.trans found
    obtain ⟨references, expands⟩ := readable.exists_expands present
    have follows : other ∈ followed lookup provided name :=
      expands.followed_eq ▸ expands.mem_of_refersTo own loads refers
    exact ⟨rounds + 1, List.mem_eraseDups.mpr
      (List.mem_append_right _ (List.mem_flatMap.mpr ⟨name, here, follows⟩))⟩

/-- Where a name is mentioned first: among the entries, or by the first one of some names that
leads to it. -/
inductive Mentioned (lookup : Lookup) (entries provided front : List ClassName)
    (name : ClassName) : Option ClassName → Prop where
  | entry (listed : name ∈ entries) : Mentioned lookup entries provided front name none
  | reference {before after : List ClassName} {origin : ClassName} (new : name ∉ entries)
    (whole : front = before ++ origin :: after)
    (follows : name ∈ followed lookup provided origin)
    (first : ∀ earlier ∈ before, name ∉ followed lookup provided earlier) :
    Mentioned lookup entries provided front name (some origin)

/-- Behind some names in the order of discovery comes the first one that is missing, with the class
that mentions it first. -/
structure FirstMissing (lookup : Lookup) (entries provided front : List ClassName)
    (name : ClassName) (origin : Option ClassName) : Prop where
  discovered : ∃ rounds, front ++ [name] <+: discovered lookup entries provided rounds
  present : ∀ earlier ∈ front, ¬ IsMissing lookup provided earlier
  missing : IsMissing lookup provided name
  mentioned : Mentioned lookup entries provided front name origin

theorem Mentioned.append {origin : Option ClassName}
    (mentioned : Mentioned lookup entries provided front name origin) (last : ClassName) :
    Mentioned lookup entries provided (front ++ [last]) name origin := by
  cases mentioned with
  | entry listed => exact .entry listed
  | reference new whole follows first =>
    exact .reference new (by rw [whole, List.append_assoc, List.cons_append]) follows first

/-! ## What a search knows -/

namespace Search

variable {search next : Search} {taken : List ClassName} {expansions : List (List ClassName)}

/-- Every name that was taken has its references. -/
theorem Sound.not_isMissing (sound : search.Sound lookup entries provided taken expansions)
    (took : name ∈ taken) : ¬ IsMissing lookup provided name := by
  obtain ⟨references, _, expands⟩ := exists_of_forall₂_left sound.expanded took
  exact expands.not_isMissing

theorem Sound.expansions_eq (sound : search.Sound lookup entries provided taken expansions) :
    expansions = taken.map (followed lookup provided) :=
  expansions_eq_map_followed sound.expanded

/-- What was taken and what waits is one round ahead of what was taken. -/
theorem Sound.walk_eq (sound : search.Sound lookup entries provided taken expansions) :
    taken ++ search.waiting.map Discovery.name =
      (entries ++ taken.flatMap (followed lookup provided)).eraseDups := by
  rw [sound.lists.2, sound.expansions_eq, List.flatMap_def]

/-- A search takes names in the order of discovery. -/
theorem Sound.exists_rounds (sound : search.Sound lookup entries provided taken expansions) :
    ∃ rounds, taken <+: discovered lookup entries provided rounds := by
  have each (part : List ClassName) : ∀ rest, taken = part ++ rest →
      ∃ rounds, part <+: discovered lookup entries provided rounds := by
    induction part using List.reverseRecOn with
    | nil => exact fun _ _ => ⟨0, List.nil_prefix⟩
    | append_singleton part name ih =>
      intro rest whole
      rw [List.append_assoc, List.singleton_append] at whole
      obtain ⟨rounds, walked⟩ := ih (name :: rest) whole
      have arose : name ∈ (entries ++ part.flatMap (followed lookup provided)).eraseDups := by
        rw [List.mem_eraseDups, List.mem_append, List.mem_flatMap]
        refine (sound.arises part name rest whole).imp_right ?_
        rintro ⟨other, here, references, expands, listed⟩
        exact ⟨other, here, expands.followed_eq ▸ listed⟩
      have begins : (entries ++ part.flatMap (followed lookup provided)).eraseDups <+:
          taken ++ search.waiting.map Discovery.name :=
        sound.walk_eq ▸ round_isPrefix ⟨_, whole.symm⟩
      have front : part ++ [name] <+: taken ++ search.waiting.map Discovery.name := by
        rw [whole, List.append_cons part name rest, List.append_assoc (part ++ [name])]
        exact List.prefix_append _ _
      -- A round that ended before the name would not have it.
      have ahead : part ++ [name] <+:
          (entries ++ part.flatMap (followed lookup provided)).eraseDups := by
        rcases List.prefix_or_prefix_of_prefix front begins with ahead | behind
        · exact ahead
        · rcases List.prefix_concat_iff.mp behind with same | shorter
          · exact same ▸ List.prefix_rfl
          · have distinct := (List.nodup_append.mp sound.nodup).1
            rw [whole] at distinct
            exact absurd rfl ((List.nodup_append.mp distinct).2.2 name (shorter.subset arose) name
              List.mem_cons_self)
      exact ⟨rounds + 1, ahead.trans (round_isPrefix walked)⟩
  exact each taken [] (List.append_nil taken).symm

/-- The name that comes next is also the next one in the order of discovery. -/
theorem Sound.exists_rounds_next (sound : search.Sound lookup entries provided taken expansions)
    {discovery : Discovery} {rest : List Discovery} (waits : search.waiting = discovery :: rest) :
    ∃ rounds, taken ++ [discovery.name] <+: discovered lookup entries provided rounds := by
  obtain ⟨rounds, walked⟩ := sound.exists_rounds
  have ahead : taken ++ search.waiting.map Discovery.name <+:
      discovered lookup entries provided (rounds + 1) := sound.walk_eq ▸ round_isPrefix walked
  rw [waits, List.map_cons, List.append_cons] at ahead
  exact ⟨rounds + 1, (List.prefix_append _ _).trans ahead⟩

/-- A search keeps where the names that wait are mentioned first. -/
def Tracked (lookup : Lookup) (entries provided : List ClassName) (search : Search)
    (taken : List ClassName) : Prop :=
  ∀ discovery ∈ search.waiting,
    Mentioned lookup entries provided taken discovery.name discovery.origin

/-- What waits after some names were discovered: what waited before, and those names that were not
found before. -/
theorem mem_waiting_foldl_discover {origin : Option ClassName} {names : List ClassName}
    {discovery : Discovery}
    (waits : discovery ∈ (names.foldl (Search.discover origin) search).waiting) :
    discovery ∈ search.waiting ∨
      discovery.origin = origin ∧ discovery.name ∈ names ∧ discovery.name ∉ search.found := by
  induction names generalizing search with
  | nil => exact .inl waits
  | cons name names ih =>
    have later := ih waits
    rw [Search.discover] at later
    split at later
    next =>
      rcases later with before | ⟨same, listed, new⟩
      · exact .inl before
      · exact .inr ⟨same, .tail _ listed, new⟩
    next unknown =>
      rcases later with here | ⟨same, listed, new⟩
      · rcases List.mem_append.mp here with before | last
        · exact .inl before
        · obtain rfl := List.mem_singleton.mp last
          exact .inr ⟨rfl, List.mem_cons_self, fun found =>
            unknown (List.contains_iff_mem.mpr found)⟩
      · exact .inr ⟨same, .tail _ listed, fun found => new (.tail _ found)⟩

theorem tracked_start (lookup : Lookup) (entries provided : List ClassName) :
    (Search.start entries).Tracked lookup entries provided [] := by
  intro discovery waits
  rcases mem_waiting_foldl_discover waits with none | ⟨same, listed, _⟩
  · cases none
  · exact same ▸ .entry listed

/-- A name that a visit discovers is mentioned by the class that is visited and by none before. -/
theorem Tracked.visit (tracked : search.Tracked lookup entries provided taken)
    (sound : search.Sound lookup entries provided taken expansions) {discovery : Discovery}
    {rest : List Discovery} (waits : search.waiting = discovery :: rest)
    (visited : Search.visit lookup provided discovery { search with waiting := rest } = .ok next) :
    next.Tracked lookup entries provided (taken ++ [discovery.name]) := by
  have before : ∀ other ∈ rest,
      Mentioned lookup entries provided taken other.name other.origin :=
    fun other later => tracked other (waits ▸ .tail _ later)
  intro other there
  obtain ⟨references, visits⟩ := visit_eq_ok.mp visited
  cases visits with
  | provided => exact (before other there).append _
  | loaded own loads collected =>
    rcases mem_waiting_foldl_discover there with earlier | ⟨same, listed, new⟩
    · exact (before other earlier).append _
    · have unknown : other.name ∉ entries ++ expansions.flatten :=
        (sound.lists.1 other.name).not.mp new
      rw [sound.expansions_eq, List.mem_append, not_or, ← List.flatMap_def,
        List.mem_flatMap] at unknown
      rw [same]
      refine .reference unknown.1 rfl ?_ fun earlier took follows =>
        unknown.2 ⟨earlier, took, follows⟩
      rwa [(Expands.loaded own loads collected).followed_eq]

/-- A run that fails does so at a name that it came to without a failure. -/
theorem Tracked.exists_failure {fuel : Nat} {failure : Failure}
    (tracked : search.Tracked lookup entries provided taken)
    (sound : search.Sound lookup entries provided taken expansions)
    (ran : Search.run lookup provided fuel search = .error failure) :
    ∃ (middle : Search) (taken' : List ClassName) (expansions' : List (List ClassName))
      (discovery : Discovery) (rest : List Discovery),
      middle.Tracked lookup entries provided taken' ∧
      middle.Sound lookup entries provided taken' expansions' ∧
      middle.waiting = discovery :: rest ∧
      Search.visit lookup provided discovery { middle with waiting := rest } =
        .error failure := by
  induction fuel generalizing search taken expansions with
  | zero => cases ran
  | succ fuel ih =>
    rw [Search.run] at ran
    split at ran
    next => cases ran
    next discovery rest waits =>
      rcases bind_eq_error.mp ran with failed | ⟨middle, visited, ran⟩
      · exact ⟨search, taken, expansions, discovery, rest, tracked, sound, waits, failed⟩
      · obtain ⟨references, sound'⟩ := sound.visit waits visited
        exact ih (tracked.visit sound waits visited) sound' ran

end Search

/-! ## Searches that fail -/

/-- A search that starts at some entries fails. -/
def Fails (lookup : Lookup) (entries provided : List ClassName) (failure : Failure) : Prop :=
  ∃ fuel, Search.run lookup provided fuel (.start entries) = .error failure

/-- The failure for a class that is missing, with the class that mentions it. -/
def missingClass (name : ClassName) (origin : Option ClassName) : Failure :=
  .of (.compile (.missingDependency name none origin))

/-- If classes can be read, a visit only fails because the class is missing. -/
theorem IsReadable.visit_eq_error (readable : IsReadable lookup) {discovery : Discovery}
    {search : Search} {failure : Failure}
    (failed : Search.visit lookup provided discovery search = .error failure) :
    IsMissing lookup provided discovery.name ∧
      failure = missingClass discovery.name discovery.origin := by
  by_cases missing : IsMissing lookup provided discovery.name
  · refine ⟨missing, ?_⟩
    rw [Search.visit, if_neg fun listed => missing.1 (List.contains_iff_mem.mp listed), loadClass,
      missing.2] at failed
    cases failed
    rfl
  · obtain ⟨references, expands⟩ := readable.exists_expands missing
    obtain ⟨next, visited⟩ := Search.exists_visit expands search
    cases visited.symm.trans failed

theorem run_eq_error_of_le {fuel bound : Nat} {search : Search} {failure : Failure}
    (ran : Search.run lookup provided fuel search = .error failure) (enough : fuel ≤ bound) :
    Search.run lookup provided bound search = .error failure := by
  rw [← Nat.add_sub_of_le enough, Search.run_add, ran]
  rfl

/-- For a loader, a search fails within the bound on its steps or not at all. -/
theorem closeOver_eq_error {loader : Loader} {failure : Failure} :
    closeOver entries loader provided = .error failure ↔
      Fails loader.load entries provided failure := by
  constructor
  · intro failed
    exact ⟨_, map_eq_error.mp failed⟩
  · rintro ⟨fuel, failed⟩
    cases closed : closeOver entries loader provided with
    | ok reach =>
      obtain ⟨enough, search, ran, done, _⟩ := closeOver_eq_ok.mp closed
      rcases Nat.le_total fuel enough with short | long
      · cases ran.symm.trans (run_eq_error_of_le failed short)
      · cases (run_eq_of_le ran done long).symm.trans failed
    | error other =>
      have bounded := map_eq_error.mp closed
      rcases Nat.le_total fuel (provided.length + loader.size + 1) with short | long
      · cases bounded.symm.trans (run_eq_error_of_le failed short)
        rfl
      · cases (run_eq_error_of_le bounded long).symm.trans failed
        rfl

/-- A search only fails at the first class that is missing. -/
theorem Fails.exists_firstMissing {failure : Failure} (readable : IsReadable lookup)
    (fails : Fails lookup entries provided failure) :
    ∃ front name origin, Reached lookup entries provided name ∧
      FirstMissing lookup entries provided front name origin ∧
      failure = missingClass name origin := by
  obtain ⟨fuel, ran⟩ := fails
  obtain ⟨middle, taken, expansions, discovery, rest, tracked, sound, waits, failed⟩ :=
    (Search.tracked_start lookup entries provided).exists_failure
      (Search.sound_start lookup entries provided) ran
  obtain ⟨missing, rfl⟩ := readable.visit_eq_error failed
  have here : discovery ∈ middle.waiting := waits ▸ List.mem_cons_self
  have reached := (sound.mem_of_isClosed (isClosed_reached lookup entries provided)).2 _ here
  exact ⟨taken, discovery.name, discovery.origin, reached, {
    discovered := sound.exists_rounds_next waits
    present := fun _ => sound.not_isMissing
    missing
    mentioned := tracked discovery here }, rfl⟩

/-- A search that comes to a missing class fails. -/
theorem exists_fails (readable : IsReadable lookup) (reached : Reached lookup entries provided name)
    (missing : IsMissing lookup provided name) :
    ∃ failure, Fails lookup entries provided failure := by
  obtain ⟨rounds, here⟩ := reached.exists_discovered readable
  cases ran : Search.run lookup provided (discovered lookup entries provided rounds).length
      (.start entries) with
  | error failure => exact ⟨failure, _, ran⟩
  | ok search =>
    exfalso
    obtain ⟨taken, expansions, sound, ended⟩ :=
      (Search.sound_start lookup entries provided).run ran
    have took : name ∈ taken := by
      rcases ended with done | length
      · have closed := reached.mem_of_isClosed (sound.isClosure done).least.1
        rw [Set.mem_ofPred_eq, sound.classes, sound.provided] at closed
        exact closed.elim List.mem_of_mem_filter List.mem_of_mem_filter
      · obtain ⟨rounds', walked⟩ := sound.exists_rounds
        rw [List.length_nil, Nat.zero_add] at length
        have ahead := List.prefix_of_prefix_length_le
          (discovered_isPrefix (Nat.le_max_left rounds rounds'))
          (walked.trans (discovered_isPrefix (Nat.le_max_right rounds rounds')))
          (Nat.le_of_eq length.symm)
        exact ahead.subset here
    exact sound.not_isMissing took missing

/-- **Missing classes are reported exactly and at their first use.**  A search in a loader fails
exactly if a search without a bound on its steps does.  Where all classes can be read that are
found, such a search fails exactly if it reaches a missing class; and the failure names the first
one in the order of discovery, and the class that mentions it first. -/
theorem closeOver_reportsMissing (entries provided : List ClassName) :
    (∀ loader failure, closeOver entries loader provided = .error failure ↔
      Fails loader.load entries provided failure) ∧
    ∀ lookup, IsReadable lookup →
      ((∃ failure, Fails lookup entries provided failure) ↔
        ∃ name, Reached lookup entries provided name ∧ IsMissing lookup provided name) ∧
      ∀ failure, Fails lookup entries provided failure → ∃ front name origin,
        FirstMissing lookup entries provided front name origin ∧
          failure = missingClass name origin := by
  refine ⟨fun _ _ => closeOver_eq_error, fun lookup readable => ⟨⟨?_, ?_⟩, ?_⟩⟩
  · rintro ⟨failure, fails⟩
    obtain ⟨front, name, origin, reached, first, _⟩ := fails.exists_firstMissing readable
    exact ⟨name, reached, first.missing⟩
  · rintro ⟨name, reached, missing⟩
    exact exists_fails readable reached missing
  · intro failure fails
    obtain ⟨front, name, origin, _, first, same⟩ := fails.exists_firstMissing readable
    exact ⟨front, name, origin, first, same⟩

/-! ## Two classes without files -/

/-- A class file can be read by its name, and its methods can be decoded. -/
def entryIsReadable (entry : ClassName × List UInt8) : Bool :=
  (ClassFile.parse entry.2).toOption.any fun file =>
    file.name = entry.1 && file.methods.all fun method =>
      method.code.all fun code => (file.instructionsOf code).toOption.isSome

/-- What a store finds by a name is one of its entries. -/
theorem load_store (store : ClassStore) (name : ClassName) :
    store.loader.load name = .ok none ∨
      ∃ bytes, (name, bytes) ∈ store.entries ∧ store.loader.load name = .ok (some bytes) := by
  rw [Loader.load]
  split
  next => exact .inl rfl
  next index found =>
    obtain ⟨place, here, rfl⟩ := Option.map_eq_some_iff.mp found
    obtain ⟨named, _⟩ := List.finIdxOf?_eq_some_iff.mp here
    have inside : place.val < store.entries.length := by
      simpa [ClassStore.names] using place.isLt
    have named : store.entries[place.val].1 = name :=
      (List.getElem_map Prod.fst).symm.trans named
    refine .inr ⟨store.entries[place.val].2, ?_, by simp [ClassStore.loader, Except.map]⟩
    rw [← named]
    exact List.getElem_mem inside

theorem isReadable_of_entries {store : ClassStore}
    (each : store.entries.all entryIsReadable = true) : IsReadable store.loader.load where
  answers name := by
    rcases load_store store name with none | ⟨bytes, _, found⟩
    · exact ⟨_, none⟩
    · exact ⟨_, found⟩
  parses {name bytes} found := by
    rcases load_store store name with none | ⟨_, listed, found'⟩
    · cases none.symm.trans found
    · cases found'.symm.trans found
      obtain ⟨file, parsed, holds⟩ :=
        (Option.any_eq_true _ _).mp (List.all_eq_true.mp each _ listed)
      rw [Bool.and_eq_true, List.all_eq_true] at holds
      obtain ⟨named, decodes⟩ := holds
      refine ⟨file, ok_of_toOption parsed, of_decide_eq_true named,
        fun method declared code body => ?_⟩
      have decoded := (Option.all_eq_true _ _).mp (decodes method declared) code body
      obtain ⟨instructions, decoded⟩ := Option.isSome_iff_exists.mp decoded
      exact ⟨instructions, ok_of_toOption decoded⟩

/-- `A` extends `B` and implements `C`.  `B` catches `Gone`, and `C` implements `Lost` and
`Gone`. -/
def forked : ClassStore :=
  let catching : Assembly.MemberSketch := ⟨0x09, "run", "()V",
    [.code 1 1 [0xb1, 0xbf] [⟨0, 1, 1, some ⟨"Gone"⟩⟩] []]⟩
  .ofList [(⟨"A"⟩, heirBytes ⟨"A"⟩ ⟨"B"⟩ [⟨"C"⟩]),
    (⟨"B"⟩, Assembly.ClassSketch.bytes
      { Assembly.ClassSketch.empty ⟨"B"⟩ (some .object) with methods := [catching] }),
    (⟨"C"⟩, heirBytes ⟨"C"⟩ .object [⟨"Lost"⟩, ⟨"Gone"⟩])]

/-- The class that a failed search misses, and the one that refers to it. -/
def reported? : Except Failure Reachability → Option (ClassName × Option ClassName)
  | .error ⟨[], .compile (.missingDependency name none origin)⟩ => some (name, origin)
  | _ => none

theorem eq_of_reported? {result : Except Failure Reachability} {origin : Option ClassName}
    (reports : reported? result = some (name, origin)) :
    result = .error (missingClass name origin) := by
  rw [reported?.eq_def] at reports
  split at reports
  · cases reports
    rfl
  · cases reports

/-- Neither `Gone` nor `Lost` is found, and `B` comes before `C`. -/
theorem closeOver_forked_reportsMissing : IsReadable forked.loader.load ∧
    closeOver [⟨"A"⟩] forked.loader [.object] = .error (missingClass ⟨"Gone"⟩ (some ⟨"B"⟩)) ∧
    ∃ front, FirstMissing forked.loader.load [⟨"A"⟩] [.object] front ⟨"Gone"⟩ (some ⟨"B"⟩) := by
  have readable : IsReadable forked.loader.load := isReadable_of_entries (by decide +kernel)
  have reports : reported? (closeOver [⟨"A"⟩] forked.loader [.object]) =
      some (⟨"Gone"⟩, some ⟨"B"⟩) := by decide +kernel
  have failed := eq_of_reported? reports
  obtain ⟨bounded, faithful⟩ := closeOver_reportsMissing [⟨"A"⟩] [.object]
  obtain ⟨front, name, origin, first, same⟩ :=
    (faithful _ readable).2 _ ((bounded forked.loader _).mp failed)
  cases same
  exact ⟨readable, failed, front, first⟩

end Bytescript.Reachability
