import Bytescript.Proofs.Assembly.Annotation
import Bytescript.Proofs.ClassFile.Layout
import Bytescript.Proofs.Distinct

/-!
# Annotations as a list of elements

The contents of an attribute store annotations one after the other, and each annotation stores
its elements pair by pair.  Some bytes store at most one list of annotations, and if they are
decoded at all, they do.  But an annotation keeps its elements by name.  Of the pairs with one name
only the last value is listed, in the place of the first, so every pair is listed exactly if no
annotation repeats a name.
-/

set_option autoImplicit false

namespace Bytescript

open Binary Reader Assembly

/-! ## Readers that delimit themselves -/

/-- Annotations and values say themselves where they end. -/
theorem selfDelimiting_readAnnotations (pool : ConstantPool) (levels : Nat) :
    (AnnotationTree.read pool levels).SelfDelimiting ∧
      (AnnotationValue.read pool levels).SelfDelimiting := by
  induction levels with
  | zero =>
    rw [AnnotationTree.read, AnnotationValue.read]
    exact ⟨selfDelimiting_ofExcept _, selfDelimiting_ofExcept _⟩
  | succ levels ih =>
    obtain ⟨trees, values⟩ := ih
    have constant {α : Type} {follow : Nat → Except Failure α} {make : α → AnnotationValue} :
        (u16 >>= fun index => Reader.ofExcept (follow index) >>= fun value =>
          pure (make value)).SelfDelimiting :=
      (selfDelimiting_word _).bind fun _ => (selfDelimiting_ofExcept _).bind fun _ =>
        selfDelimiting_pure _
    constructor
    · rw [AnnotationTree.read]
      refine (selfDelimiting_word _).bind fun _ => (selfDelimiting_ofExcept _).bind fun type => ?_
      refine SelfDelimiting.bind (SelfDelimiting.counted ?_) fun _ => selfDelimiting_pure _
      exact (selfDelimiting_word _).bind fun _ => (selfDelimiting_ofExcept _).bind fun name =>
        (values.within _).bind fun _ => selfDelimiting_pure _
    · rw [AnnotationValue.read]
      refine (selfDelimiting_word _).bind fun tag => ?_
      dsimp only
      split
      -- the tags of constants: five for ints, and four others
      iterate 9 exact constant
      · exact (selfDelimiting_word _).bind fun _ => (selfDelimiting_ofExcept _).bind fun _ =>
          constant
      · exact constant
      · exact trees.bind fun _ => selfDelimiting_pure _
      · exact values.counted.bind fun _ => selfDelimiting_pure _
      · exact selfDelimiting_ofExcept _

/-! ## Elements by name -/

namespace AnnotationTree

/-- The last element with a name. -/
def lastNamed (elements : List (String × AnnotationValue)) (name : String) :
    Option (String × AnnotationValue) :=
  elements.reverse.find? fun element => element.1 = name

/-- For each name the last element with it, in the order in which the names first occur. -/
def lastByName (elements : List (String × AnnotationValue)) : List (String × AnnotationValue) :=
  (elements.map Prod.fst).eraseDups.filterMap (lastNamed elements)

section Names

variable {elements : List (String × AnnotationValue)} {name : String} {value : AnnotationValue}

theorem lastNamed_append_singleton (other : String) :
    lastNamed (elements ++ [(name, value)]) other =
      if other = name then some (name, value) else lastNamed elements other := by
  rw [lastNamed, List.reverse_append, List.reverse_singleton, List.singleton_append,
    List.find?_cons]
  by_cases same : other = name
  · simp [same]
  · simp [same, Ne.symm same, lastNamed]

theorem exists_lastNamed (known : name ∈ elements.map Prod.fst) :
    ∃ value, lastNamed elements name = some (name, value) := by
  induction elements using List.reverseRecOn with
  | nil => cases known
  | append_singleton elements last ih =>
    obtain ⟨other, value⟩ := last
    rw [lastNamed_append_singleton]
    by_cases same : name = other
    · exact ⟨value, by rw [if_pos same, same]⟩
    · rw [if_neg same]
      rw [List.map_append, List.mem_append] at known
      exact ih (known.resolve_right fun last => same (List.mem_singleton.mp last))

theorem map_fst_lastByName (elements : List (String × AnnotationValue)) :
    (lastByName elements).map Prod.fst = (elements.map Prod.fst).eraseDups := by
  have each : ∀ name ∈ (elements.map Prod.fst).eraseDups,
      (lastNamed elements name).map Prod.fst = some name := by
    intro name member
    obtain ⟨value, found⟩ := exists_lastNamed (List.mem_eraseDups.mp member)
    rw [found, Option.map_some]
  rw [lastByName, List.map_filterMap, List.filterMap_congr each, List.filterMap_some]

/-- An element whose name is known takes the place of the one with that name. -/
theorem insertElement_filterMap {names : List String}
    {find : String → Option (String × AnnotationValue)} (distinct : names.Nodup)
    (each : ∀ other ∈ names, ∃ old, find other = some (other, old)) (known : name ∈ names) :
    insertElement name value (names.filterMap find) =
      names.filterMap fun other => if other = name then some (name, value) else find other := by
  induction names with
  | nil => cases known
  | cons first names ih =>
    rw [List.forall_mem_cons] at each
    obtain ⟨⟨old, found⟩, each⟩ := each
    obtain ⟨apart, distinct⟩ := List.nodup_cons.mp distinct
    rw [List.filterMap_cons_some found, insertElement]
    by_cases here : first = name
    · subst here
      have others : ∀ other ∈ names,
          (if other = first then some (first, value) else find other) = find other := by
        intro other member
        refine if_neg ?_
        rintro rfl
        exact apart member
      rw [if_pos rfl, List.filterMap_cons, List.filterMap_congr others]
      simp only [if_true]
    · have later := (List.mem_cons.mp known).resolve_left (Ne.symm here)
      rw [if_neg here, ih distinct each later, List.filterMap_cons]
      simp only [if_neg here, found]

/-- Putting elements in by name, one after the other, keeps the last one with each name. -/
theorem foldl_insertElement_eq_lastByName (elements : List (String × AnnotationValue)) :
    elements.foldl (fun known (name, value) => insertElement name value known) [] =
      lastByName elements := by
  induction elements using List.reverseRecOn with
  | nil => rfl
  | append_singleton elements last ih =>
    obtain ⟨name, value⟩ := last
    have updated : lastNamed (elements ++ [(name, value)]) = fun other =>
        if other = name then some (name, value) else lastNamed elements other :=
      funext lastNamed_append_singleton
    rw [List.foldl_append, ih, List.foldl_cons, List.foldl_nil, lastByName, lastByName, updated,
      List.map_append, List.map_singleton, eraseDups_append_singleton]
    by_cases known : name ∈ elements.map Prod.fst
    · rw [if_pos known]
      exact insertElement_filterMap (nodup_eraseDups _)
        (fun other member => exists_lastNamed (List.mem_eraseDups.mp member))
        (List.mem_eraseDups.mpr known)
    · have others : ∀ other ∈ (elements.map Prod.fst).eraseDups,
          (if other = name then some (name, value) else lastNamed elements other) =
            lastNamed elements other := by
        intro other member
        refine if_neg ?_
        rintro rfl
        exact known (List.mem_eraseDups.mp member)
      have new : name ∉ (lastByName elements).map Prod.fst := by
        rwa [map_fst_lastByName, List.mem_eraseDups]
      rw [if_neg known, List.filterMap_append, List.filterMap_congr others, List.filterMap_cons,
        List.filterMap_nil]
      simp only [if_true]
      exact insertElement_of_new new

end Names

/-- What is kept of an annotation. -/
def keepLast : AnnotationTree → AnnotationTree
  | mk type elements => mk type (lastByName elements)

/-- No two elements of an annotation have the same name. -/
def HasDistinctNames (tree : AnnotationTree) : Prop := (tree.elements.map Prod.fst).Nodup

instance (tree : AnnotationTree) : Decidable tree.HasDistinctNames :=
  inferInstanceAs (Decidable (List.Nodup _))

theorem keepLast_eq_self {tree : AnnotationTree} (distinct : tree.HasDistinctNames) :
    tree.keepLast = tree := by
  obtain ⟨type, elements⟩ := tree
  rw [keepLast, ← foldl_insertElement_eq_lastByName]
  exact congrArg (mk type) (foldl_insertElement distinct)

theorem length_elements_keepLast (tree : AnnotationTree) :
    tree.keepLast.elements.length = (tree.elements.map Prod.fst).eraseDups.length := by
  obtain ⟨type, elements⟩ := tree
  show (lastByName elements).length = (elements.map Prod.fst).eraseDups.length
  rw [← map_fst_lastByName, List.length_map]

theorem length_elements_keepLast_le (tree : AnnotationTree) :
    tree.keepLast.elements.length ≤ tree.elements.length := by
  have shorter := (eraseDups_sublist (tree.elements.map Prod.fst)).length_le
  rwa [← length_elements_keepLast, List.length_map] at shorter

theorem length_elements_keepLast_eq_iff {tree : AnnotationTree} :
    tree.keepLast.elements.length = tree.elements.length ↔ tree.HasDistinctNames := by
  rw [HasDistinctNames, ← length_eraseDups_eq_iff, length_elements_keepLast, List.length_map]

theorem flatten_cons (tree : AnnotationTree) (trees : List AnnotationTree) :
    flatten (tree :: trees) =
      (tree.elements.map fun (name, value) => ⟨tree.type, name, value⟩) ++ flatten trees :=
  List.flatMap_cons

theorem length_flatten_cons (tree : AnnotationTree) (trees : List AnnotationTree) :
    (flatten (tree :: trees)).length = tree.elements.length + (flatten trees).length := by
  rw [flatten_cons, List.length_append, List.length_map]

theorem length_flatten_keepLast_le (trees : List AnnotationTree) :
    (flatten (trees.map keepLast)).length ≤ (flatten trees).length := by
  induction trees with
  | nil => exact Nat.le_refl _
  | cons tree trees ih =>
    rw [List.map_cons, length_flatten_cons, length_flatten_cons]
    exact Nat.add_le_add (length_elements_keepLast_le tree) ih

/-- As many elements are listed as there are exactly if no annotation repeats a name. -/
theorem length_flatten_keepLast_eq_iff {trees : List AnnotationTree} :
    (flatten (trees.map keepLast)).length = (flatten trees).length ↔
      ∀ tree ∈ trees, tree.HasDistinctNames := by
  induction trees with
  | nil => exact iff_of_true rfl (List.forall_mem_nil _)
  | cons tree trees ih =>
    rw [List.forall_mem_cons, ← ih, ← length_elements_keepLast_eq_iff, List.map_cons,
      length_flatten_cons, length_flatten_cons]
    have here := length_elements_keepLast_le tree
    have there := length_flatten_keepLast_le trees
    omega

theorem flatten_keepLast_eq_iff {trees : List AnnotationTree} :
    flatten (trees.map keepLast) = flatten trees ↔ ∀ tree ∈ trees, tree.HasDistinctNames := by
  constructor
  · intro same
    exact length_flatten_keepLast_eq_iff.mp (congrArg List.length same)
  · intro distinct
    have kept : ∀ tree ∈ trees, keepLast tree = id tree := fun tree member =>
      keepLast_eq_self (distinct tree member)
    rw [List.map_congr_left kept, List.map_id]

/-! ## Stored pairs -/

/-- Some bytes store a pair: the index of its name, and what its value is read from. -/
inductive StoresPair (pool : ConstantPool) (levels : Nat) :
    List UInt8 → String × AnnotationValue → Prop where
  | mk {index : Nat} {contents : List UInt8} {name : String} {value : AnnotationValue}
    (small : index < 0x10000) (named : pool.textAt index = .ok name)
    (takes : (AnnotationValue.read pool levels).Takes contents value) :
    StoresPair pool levels (word16 index ++ contents) (name, value)

/-- Some bytes store an annotation: the index of its type, and its pairs in order. -/
inductive StoresTree (pool : ConstantPool) (levels : Nat) :
    List UInt8 → AnnotationTree → Prop where
  | mk {index : Nat} {type : String} {parts : List (List UInt8)}
    {pairs : List (String × AnnotationValue)} (small : index < 0x10000)
    (typed : pool.textAt index = .ok type) (few : parts.length < 0x10000)
    (stored : List.Forall₂ (StoresPair pool levels) parts pairs) :
    StoresTree pool levels (word16 index ++ Assembly.counted parts) (.mk type pairs)

/-- Some bytes store annotations with all of their pairs.  The values have one level less than the
annotations themselves. -/
inductive StoresTrees (pool : ConstantPool) : List UInt8 → List AnnotationTree → Prop where
  | mk {parts : List (List UInt8)} {trees : List AnnotationTree} (few : parts.length < 0x10000)
    (stored : List.Forall₂ (StoresTree pool (annotationDepthLimit - 1)) parts trees) :
    StoresTrees pool (Assembly.counted parts) trees

section Pairs

variable {pool : ConstantPool} {levels : Nat} {type : String} {bytes : List UInt8}
  {pair : String × AnnotationValue} {tree : AnnotationTree} {trees : List AnnotationTree}

/-- Reads a pair of an annotation of a given type. -/
def readPair (pool : ConstantPool) (levels : Nat) (type : String) :
    Reader (String × AnnotationValue) := do
  let name ← Reader.ofExcept (pool.textAt (← Reader.u16))
  let value ← (AnnotationValue.read pool levels).within (.annotationElement name type)
  return (name, value)

/-- Reads an annotation with all of its pairs. -/
def readPairs (pool : ConstantPool) (levels : Nat) : Reader AnnotationTree := do
  let type ← Reader.ofExcept (pool.textAt (← Reader.u16))
  return .mk type (← Reader.counted (readPair pool levels type))

/-- An annotation is read with all of its pairs, and then some are dropped. -/
theorem read_eq_readPairs (pool : ConstantPool) (levels : Nat) :
    AnnotationTree.read pool (levels + 1) =
      readPairs pool levels >>= fun tree => pure tree.keepLast := by
  rw [AnnotationTree.read]
  simp only [readPairs, readPair, bind_assoc, pure_bind, keepLast,
    foldl_insertElement_eq_lastByName]

theorem relates_readPair : (readPair pool levels type).Relates (StoresPair pool levels) := by
  intro cursor pair after read
  obtain ⟨index, _, first, read⟩ := bindState_eq_ok.mp read
  obtain ⟨small, passes⟩ := u16_eq_ok first
  obtain ⟨name, _, found, read⟩ := bindState_eq_ok.mp read
  obtain ⟨named, rfl⟩ := ofExcept_eq_ok found
  obtain ⟨value, _, second, read⟩ := bindState_eq_ok.mp read
  cases read
  have delimited := (selfDelimiting_readAnnotations pool levels).2
  obtain ⟨contents, takes, passes'⟩ := delimited.relates.within _ _ _ _ second
  exact ⟨_, .mk small named takes, passes.append passes'⟩

theorem relates_readPairs : (readPairs pool levels).Relates (StoresTree pool levels) := by
  intro cursor tree after read
  obtain ⟨index, _, first, read⟩ := bindState_eq_ok.mp read
  obtain ⟨small, passes⟩ := u16_eq_ok first
  obtain ⟨type, _, found, read⟩ := bindState_eq_ok.mp read
  obtain ⟨typed, rfl⟩ := ofExcept_eq_ok found
  obtain ⟨pairs, _, second, read⟩ := bindState_eq_ok.mp read
  cases read
  obtain ⟨_, ⟨parts, rfl, few, stored⟩, passes'⟩ := relates_readPair.counted _ _ _ second
  exact ⟨_, .mk small typed few stored, passes.append passes'⟩

theorem StoresPair.takes (stores : StoresPair pool levels bytes pair) (type : String) :
    (readPair pool levels type).Takes bytes pair := by
  cases stores with
  | mk small named takes =>
    exact takes_following small named ((takes.within _).bind_nil (takes_pure _))

theorem StoresTree.takes (stores : StoresTree pool levels bytes tree) :
    (readPairs pool levels).Takes bytes tree := by
  cases stores with
  | mk small typed few stored =>
    refine takes_following small typed ((takes_counted ?_ few).bind_nil (takes_pure _))
    exact stored.imp fun part pair stores => stores.takes _

/-- Where an annotation is read, it is what is kept of one that is stored. -/
theorem relates_read : (AnnotationTree.read pool (levels + 1)).Relates fun bytes tree =>
    ∃ all, StoresTree pool levels bytes all ∧ all.keepLast = tree := by
  intro cursor tree after read
  rw [read_eq_readPairs] at read
  obtain ⟨all, _, first, read⟩ := bindState_eq_ok.mp read
  cases read
  obtain ⟨bytes, stores, passes⟩ := relates_readPairs _ _ _ first
  exact ⟨bytes, ⟨all, stores, rfl⟩, passes⟩

theorem StoresTree.takes_keepLast (stores : StoresTree pool levels bytes tree) :
    (AnnotationTree.read pool (levels + 1)).Takes bytes tree.keepLast := by
  rw [read_eq_readPairs]
  exact stores.takes.bind_nil (takes_pure _)

/-- Bytes store at most one list of annotations. -/
theorem StoresTrees.unique {trees' : List AnnotationTree} (stores : StoresTrees pool bytes trees)
    (stores' : StoresTrees pool bytes trees') : trees' = trees := by
  have takes {trees : List AnnotationTree} (stores : StoresTrees pool bytes trees) :
      (Reader.counted (readPairs pool (annotationDepthLimit - 1))).Takes bytes trees := by
    cases stores with
    | mk few stored => exact takes_counted (stored.imp fun part tree stores => stores.takes) few
  exact (takes stores').unique (takes stores)

end Pairs

/-! ## Payloads -/

section Payload

variable {pool : ConstantPool} {payload : List UInt8} {listing : List AnnotationElement}
  {trees : List AnnotationTree}

theorem decodePayload_of_takes (takes : (readList pool).Takes payload trees) :
    decodePayload payload pool = .ok (flatten trees) := by
  have read := takes 0 []
  rw [List.append_nil, Nat.zero_add] at read
  exact bind_eq_ok.mpr ⟨_, read, check_eq_ok.mpr ⟨checkConsumed_eq_ok.mpr rfl, rfl⟩⟩

theorem decodePayload_of_refuses {cause : Cause} (refuses : (readList pool).Refuses payload cause) :
    ∃ failure, decodePayload payload pool = .error failure ∧ failure.cause = cause := by
  obtain ⟨failure, computes, same⟩ := refuses
  have read := computes 0 []
  rw [List.append_nil] at read
  exact ⟨failure, bind_eq_error.mpr (.inl read), same⟩

/-- A payload is decoded exactly if it stores annotations, and what is kept of them is listed. -/
theorem decodePayload_eq_ok :
    decodePayload payload pool = .ok listing ↔
      ∃ trees, StoresTrees pool payload trees ∧ listing = flatten (trees.map keepLast) := by
  constructor
  · intro decoded
    obtain ⟨⟨kept, cursor⟩, read, later⟩ := bind_eq_ok.mp decoded
    obtain ⟨consumed, same⟩ := check_eq_ok.mp later
    cases same
    obtain ⟨_, ⟨parts, rfl, few, kept⟩, front, behind⟩ := relates_read.counted _ _ _ read
    obtain ⟨trees, stored, rfl⟩ := exists_of_forall₂_map kept
    -- All of the payload was used, so nothing is left behind the annotations.
    have used := (checkConsumed_eq_ok.mp consumed).symm.trans (behind.trans (Nat.zero_add _))
    have nothing : payload = Assembly.counted parts ++ cursor.rest := front
    rw [nothing, List.length_append, Nat.add_eq_left, List.length_eq_zero_iff] at used
    rw [used, List.append_nil] at nothing
    exact ⟨trees, nothing ▸ .mk few stored, rfl⟩
  · rintro ⟨trees, ⟨few, stored⟩, rfl⟩
    refine decodePayload_of_takes (takes_counted ?_ few)
    rw [List.forall₂_map_right_iff]
    exact stored.imp fun part tree stores => stores.takes_keepLast

end Payload

/-! ## Repeated names -/

/-- A pool with the names and values of an annotation. -/
def repeatingPool : ConstantPool :=
  ⟨#[none, some (.utf8 (.ofString "A")), some (.classInfo 1), some (.utf8 (.ofString "LX;")),
    some (.utf8 (.ofString "v")), some (.integer 1), some (.integer 2)]⟩

/-- An annotation that stores two values under one name. -/
def repeatingTree : AnnotationTree :=
  .mk "LX;" [("v", .primitive 'I' (.integer 1)), ("v", .primitive 'I' (.integer 2))]

/-- The contents of an attribute with just this annotation. -/
def repeatingPayload : List UInt8 :=
  [0, 1, 0, 3, 0, 2, 0, 4, 0x49, 0, 5, 0, 4, 0x49, 0, 6]

/-- The element that is left of it. -/
def remainingElement : AnnotationElement := ⟨"LX;", "v", .primitive 'I' (.integer 2)⟩

theorem stores_repeatingPayload :
    StoresTrees repeatingPool repeatingPayload [repeatingTree] := by
  have pair {index : Nat} {value : Int32} (has : repeatingPool.Has index (.integer value)) :
      StoresPair repeatingPool (annotationDepthLimit - 1) (word16 4 ++ 0x49 :: word16 index)
        ("v", .primitive 'I' (.integer value)) := by
    have means : (StoredValue.constant 'I' index).Means repeatingPool
        (.primitive 'I' (.integer value)) := .integer (by decide) has
    refine .mk (by decide) (ConstantPool.HasText.textAt rfl) ?_
    exact (takes_readLevels (by decide) (annotationDepthLimit - 1)).2 means
      (show 1 ≤ annotationDepthLimit - 1 by decide)
  have tree : StoresTree repeatingPool (annotationDepthLimit - 1)
      (word16 3 ++ Assembly.counted [word16 4 ++ 0x49 :: word16 5, word16 4 ++ 0x49 :: word16 6])
      repeatingTree :=
    .mk (by decide) (ConstantPool.HasText.textAt rfl) (by decide)
      (.cons (pair rfl) (.cons (pair rfl) .nil))
  exact .mk (by decide) (.cons tree .nil)

end AnnotationTree

end Bytescript
