import Bytescript.ClassFile.AnnotationReader
import Bytescript.Proofs.Binary.Word
import Bytescript.Proofs.ClassFile.Lookup

/-!
# Annotations that are read back

A stored annotation means the tree that its indices stand for.  It is read back if its counts fit
into their bytes, it is not nested deeper than there are levels for, and no two elements of an
annotation have the same name.
-/

set_option autoImplicit false

namespace Bytescript.Assembly

open Binary Reader

/-! ## What annotations mean -/

/-- The tags of the constants that are stored as ints. -/
def intTags : List Char := ['B', 'C', 'I', 'S', 'Z']

mutual

/-- What a stored annotation means. -/
inductive StoredTree.Means (pool : ConstantPool) : StoredTree → AnnotationTree → Prop where
  | mk {type : Nat} {text : String} {stored : List (Nat × StoredValue)}
    {elements : List (String × AnnotationValue)} (named : pool.HasText type text)
    (few : stored.length < 0x10000)
    (means : List.Forall₂ (StoredElement.Means pool) stored elements)
    (distinct : (elements.map Prod.fst).Nodup) :
    StoredTree.Means pool (.mk type stored) (.mk text elements)

/-- What a stored element of an annotation means. -/
inductive StoredElement.Means (pool : ConstantPool) :
    Nat × StoredValue → String × AnnotationValue → Prop where
  | mk {name : Nat} {text : String} {stored : StoredValue} {value : AnnotationValue}
    (named : pool.HasText name text) (means : StoredValue.Means pool stored value) :
    StoredElement.Means pool (name, stored) (text, value)

/-- What a stored value means. -/
inductive StoredValue.Means (pool : ConstantPool) : StoredValue → AnnotationValue → Prop where
  | integer {tag : Char} {index : Nat} {value : Int32} (known : tag ∈ intTags)
    (has : pool.Has index (.integer value)) :
    StoredValue.Means pool (.constant tag index) (.primitive tag (.integer value))
  | long {index : Nat} {value : Int64} (has : pool.Has index (.long value)) :
    StoredValue.Means pool (.constant 'J' index) (.primitive 'J' (.long value))
  | float {index : Nat} {bits : UInt32} (has : pool.Has index (.float bits)) :
    StoredValue.Means pool (.constant 'F' index) (.primitive 'F' (.float bits))
  | double {index : Nat} {bits : UInt64} (has : pool.Has index (.double bits)) :
    StoredValue.Means pool (.constant 'D' index) (.primitive 'D' (.double bits))
  | string {index : Nat} {value : JavaString} (has : pool.Has index (.utf8 value)) :
    StoredValue.Means pool (.constant 's' index) (.primitive 's' (.string value))
  | classLiteral {index : Nat} {descriptor : String} (has : pool.HasText index descriptor) :
    StoredValue.Means pool (.constant 'c' index) (.classLiteral descriptor)
  | enumConstant {type name : Nat} {text constant : String} (typed : pool.HasText type text)
    (named : pool.HasText name constant) :
    StoredValue.Means pool (.enumConstant type name) (.enumConstant text constant)
  | nested {stored : StoredTree} {tree : AnnotationTree} (means : stored.Means pool tree) :
    StoredValue.Means pool (.nested stored) (.nested tree)
  | array {stored : List StoredValue} {values : List AnnotationValue}
    (few : stored.length < 0x10000)
    (means : List.Forall₂ (StoredValue.Means pool) stored values) :
    StoredValue.Means pool (.array stored) (.array values)

end

mutual

/-- How many levels an annotation needs. -/
def StoredTree.height : StoredTree → Nat
  | .mk _ elements => StoredTree.elementsHeight elements + 1

/-- How many levels the elements of an annotation need. -/
def StoredTree.elementsHeight : List (Nat × StoredValue) → Nat
  | [] => 0
  | (_, value) :: rest => max value.height (StoredTree.elementsHeight rest)

/-- How many levels a value needs. -/
def StoredValue.height : StoredValue → Nat
  | .constant _ _ | .enumConstant _ _ | .raw _ _ => 1
  | .nested tree => tree.height + 1
  | .array values => StoredValue.allHeight values + 1

/-- How many levels several values need. -/
def StoredValue.allHeight : List StoredValue → Nat
  | [] => 0
  | value :: rest => max value.height (StoredValue.allHeight rest)

end

theorem StoredTree.height_le_elementsHeight {name : Nat} {value : StoredValue}
    {elements : List (Nat × StoredValue)} (member : (name, value) ∈ elements) :
    value.height ≤ elementsHeight elements := by
  induction elements with
  | nil => cases member
  | cons first rest ih =>
    obtain ⟨_, other⟩ := first
    rw [elementsHeight]
    rcases List.mem_cons.mp member with same | member
    · cases same
      exact Nat.le_max_left _ _
    · exact Nat.le_trans (ih member) (Nat.le_max_right _ _)

theorem StoredValue.height_le_allHeight {value : StoredValue} {values : List StoredValue}
    (member : value ∈ values) : value.height ≤ allHeight values := by
  induction values with
  | nil => cases member
  | cons first rest ih =>
    rw [allHeight]
    rcases List.mem_cons.mp member with rfl | member
    · exact Nat.le_max_left _ _
    · exact Nat.le_trans (ih member) (Nat.le_max_right _ _)

/-! ## Elements by name -/

/-- An element with a new name is put at the end. -/
theorem insertElement_of_new {name : String} {value : AnnotationValue}
    {known : List (String × AnnotationValue)} (new : name ∉ known.map Prod.fst) :
    AnnotationTree.insertElement name value known = known ++ [(name, value)] := by
  induction known with
  | nil => rfl
  | cons first rest ih =>
    rw [List.map_cons, List.mem_cons, not_or] at new
    rw [AnnotationTree.insertElement, if_neg (Ne.symm new.1), ih new.2, List.cons_append]

/-- Elements with different names are all kept, in their order. -/
theorem foldl_insertElement {elements : List (String × AnnotationValue)}
    (distinct : (elements.map Prod.fst).Nodup) :
    elements.foldl (fun known (name, value) => AnnotationTree.insertElement name value known) [] =
      elements := by
  suffices inserted : ∀ known : List (String × AnnotationValue),
      ((known ++ elements).map Prod.fst).Nodup →
      elements.foldl (fun known (name, value) => AnnotationTree.insertElement name value known)
        known = known ++ elements from inserted [] distinct
  clear distinct
  intro known distinct
  induction elements generalizing known with
  | nil => exact (List.append_nil known).symm
  | cons first rest ih =>
    obtain ⟨name, value⟩ := first
    have new : name ∉ known.map Prod.fst := by
      intro member
      rw [List.map_append] at distinct
      exact (List.nodup_append.mp distinct).2.2 _ member _ (List.mem_cons_self ..) rfl
    have more := ih (known ++ [(name, value)]) (by rwa [List.append_assoc])
    rw [List.append_assoc, List.singleton_append] at more
    rw [← more, List.foldl_cons]
    exact congrArg (List.foldl _ · rest) (insertElement_of_new new)

/-! ## Reading annotations -/

section Reading

variable {pool : ConstantPool} {levels : Nat}

theorem StoredTree.elementBytes_eq_map (elements : List (Nat × StoredValue)) :
    elementBytes elements = elements.map fun (name, value) => word16 name ++ value.bytes := by
  induction elements with
  | nil => rfl
  | cons first rest ih => rw [elementBytes, ih, List.map_cons]

theorem StoredValue.allBytes_eq_map (values : List StoredValue) :
    allBytes values = values.map StoredValue.bytes := by
  induction values with
  | nil => rfl
  | cons first rest ih => rw [allBytes, ih, List.map_cons]

/-- An annotation is read back if the values below it are. -/
theorem takes_readTree (small : pool.count < 0x10000)
    (values : ∀ {stored : StoredValue} {value : AnnotationValue}, stored.Means pool value →
      stored.height ≤ levels → (AnnotationValue.read pool levels).Takes stored.bytes value)
    {stored : StoredTree} {tree : AnnotationTree} (means : stored.Means pool tree)
    (low : stored.height ≤ levels + 1) :
    (AnnotationTree.read pool (levels + 1)).Takes stored.bytes tree := by
  cases means with
  | @mk type text stored elements named few means distinct =>
    rw [StoredTree.height, Nat.add_le_add_iff_right] at low
    rw [AnnotationTree.read, StoredTree.bytes, StoredTree.elementBytes_eq_map]
    refine takes_following (named.lt small) named.textAt
      ((takes_counted_map few means ?_).bind_nil ?_)
    · rintro ⟨name, value⟩ _ member ⟨named, means⟩
      have below := Nat.le_trans (StoredTree.height_le_elementsHeight member) low
      exact takes_following (named.lt small) named.textAt
        (((values means below).within _).bind_nil (takes_pure _))
    · rw [foldl_insertElement distinct]
      exact takes_pure _

/-- A value is read back if the values and annotations below it are. -/
theorem takes_readValue (small : pool.count < 0x10000)
    (values : ∀ {stored : StoredValue} {value : AnnotationValue}, stored.Means pool value →
      stored.height ≤ levels → (AnnotationValue.read pool levels).Takes stored.bytes value)
    (trees : ∀ {stored : StoredTree} {tree : AnnotationTree}, stored.Means pool tree →
      stored.height ≤ levels → (AnnotationTree.read pool levels).Takes stored.bytes tree)
    {stored : StoredValue} {value : AnnotationValue} (means : stored.Means pool value)
    (low : stored.height ≤ levels + 1) :
    (AnnotationValue.read pool (levels + 1)).Takes stored.bytes value := by
  cases means with
  | @integer tag index value known has =>
    have takes (tag : Char) : (do
        let value ← Reader.ofExcept (pool.integerAt (← u16))
        return .primitive tag (.integer value) : Reader AnnotationValue).Takes (word16 index)
          (.primitive tag (.integer value)) :=
      takes_following_nil (Nat.lt_trans has.lt_count small) has.integerAt (takes_pure _)
    simp only [intTags, List.mem_cons, List.not_mem_nil, or_false] at known
    rcases known with rfl | rfl | rfl | rfl | rfl <;> exact takes_announced (takes _)
  | long has =>
    exact takes_announced
      (takes_following_nil (Nat.lt_trans has.lt_count small) has.longAt (takes_pure _))
  | float has =>
    exact takes_announced
      (takes_following_nil (Nat.lt_trans has.lt_count small) has.floatAt (takes_pure _))
  | double has =>
    exact takes_announced
      (takes_following_nil (Nat.lt_trans has.lt_count small) has.doubleAt (takes_pure _))
  | string has =>
    exact takes_announced
      (takes_following_nil (Nat.lt_trans has.lt_count small) has.utf8At (takes_pure _))
  | classLiteral has =>
    exact takes_announced
      (takes_following_nil (Nat.lt_trans has.lt_count small) has.textAt (takes_pure _))
  | enumConstant typed named =>
    refine takes_announced (takes_following (Nat.lt_trans typed.lt_count small) typed.textAt ?_)
    exact takes_following_nil (Nat.lt_trans named.lt_count small) named.textAt (takes_pure _)
  | nested means =>
    rw [StoredValue.height, Nat.add_le_add_iff_right] at low
    exact takes_announced ((trees means low).bind_nil (takes_pure _))
  | array few means =>
    rw [StoredValue.height, Nat.add_le_add_iff_right] at low
    rw [StoredValue.bytes, StoredValue.allBytes_eq_map]
    refine takes_announced ((takes_counted_map few means ?_).bind_nil (takes_pure _))
    intro value meaning member means
    exact values means (Nat.le_trans (StoredValue.height_le_allHeight member) low)

/-- Annotations and values are read back with as many levels as they need. -/
theorem takes_readLevels (small : pool.count < 0x10000) (levels : Nat) :
    (∀ {stored : StoredTree} {tree : AnnotationTree}, stored.Means pool tree →
      stored.height ≤ levels → (AnnotationTree.read pool levels).Takes stored.bytes tree) ∧
    ∀ {stored : StoredValue} {value : AnnotationValue}, stored.Means pool value →
      stored.height ≤ levels → (AnnotationValue.read pool levels).Takes stored.bytes value := by
  induction levels with
  | zero =>
    constructor
    · intro stored tree _ low
      cases stored
      cases low
    · intro stored value _ low
      cases stored <;> cases low
  | succ levels ih =>
    obtain ⟨trees, values⟩ := ih
    exact ⟨takes_readTree small values, takes_readValue small values trees⟩

/-- A list of annotations is read back if none is nested too deep. -/
theorem takes_readTrees (small : pool.count < 0x10000) {stored : List StoredTree}
    {trees : List AnnotationTree} (few : stored.length < 0x10000)
    (means : List.Forall₂ (StoredTree.Means pool) stored trees)
    (low : ∀ tree ∈ stored, tree.height ≤ annotationDepthLimit) :
    (AnnotationTree.readList pool).Takes (treeListBytes stored) trees :=
  takes_counted_map few means fun member means => (takes_readLevels small _).1 means (low _ member)

end Reading

end Bytescript.Assembly
