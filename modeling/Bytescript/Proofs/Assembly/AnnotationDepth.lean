import Bytescript.Proofs.ClassFile.AnnotationPayload

/-!
# How deep annotations may be nested

The values of an annotation are one deeper than the annotation, and so are the items of an array
than the array and a nested annotation than the value that holds it.  Reading counts the levels
down instead, and fails where none is left.  So stored annotations are read back exactly if
everything in them is less deep than the limit, and otherwise that is what decoding fails on: what
stands before the first value that is too deep is read without complaint, and nothing behind it is
looked at.
-/

set_option autoImplicit false

namespace Bytescript.Assembly

open Binary Reader

/-! ## Depths -/

mutual

/-- The depths of all values and nested annotations in an annotation that has a given depth. -/
def StoredTree.depths (depth : Nat) : StoredTree → List Nat
  | .mk _ elements => StoredTree.elementDepths (depth + 1) elements

/-- The depths in elements whose values have a given depth. -/
def StoredTree.elementDepths (depth : Nat) : List (Nat × StoredValue) → List Nat
  | [] => []
  | (_, value) :: rest => value.depths depth ++ StoredTree.elementDepths depth rest

/-- The depths in a value that has a given depth, with its own. -/
def StoredValue.depths (depth : Nat) : StoredValue → List Nat
  | .constant _ _ | .enumConstant _ _ | .raw _ _ => [depth]
  | .nested tree => depth :: (depth + 1) :: tree.depths (depth + 1)
  | .array values => depth :: StoredValue.allDepths (depth + 1) values

/-- The depths in several values that have a given depth. -/
def StoredValue.allDepths (depth : Nat) : List StoredValue → List Nat
  | [] => []
  | value :: rest => value.depths depth ++ StoredValue.allDepths depth rest

end

theorem StoredTree.height_pos (tree : StoredTree) : 0 < tree.height := by
  obtain ⟨type, elements⟩ := tree
  rw [height]
  exact Nat.succ_pos _

mutual

/-- Below an annotation everything is less deep than a limit exactly if the annotation needs no
more levels than there are from its own depth to the limit. -/
theorem StoredTree.depths_lt_iff {depth limit : Nat} (low : depth < limit) : (tree : StoredTree) →
    ((∀ other ∈ tree.depths depth, other < limit) ↔ depth + tree.height ≤ limit)
  | .mk _ elements => by
    rw [StoredTree.depths, StoredTree.height, StoredTree.elementDepths_lt_iff low elements]
    omega

theorem StoredTree.elementDepths_lt_iff {depth limit : Nat} (low : depth ≤ limit) :
    (elements : List (Nat × StoredValue)) →
      ((∀ other ∈ StoredTree.elementDepths depth elements, other < limit) ↔
        depth + StoredTree.elementsHeight elements ≤ limit)
  | [] => by
    rw [StoredTree.elementDepths, StoredTree.elementsHeight]
    exact iff_of_true (List.forall_mem_nil _) low
  | (_, value) :: rest => by
    rw [StoredTree.elementDepths, StoredTree.elementsHeight, List.forall_mem_append,
      value.depths_lt_iff, StoredTree.elementDepths_lt_iff low rest]
    omega

theorem StoredValue.depths_lt_iff {depth limit : Nat} : (value : StoredValue) →
    ((∀ other ∈ value.depths depth, other < limit) ↔ depth + value.height ≤ limit)
  | .constant _ _ | .enumConstant _ _ | .raw _ _ => by
    rw [StoredValue.depths, StoredValue.height, List.forall_mem_singleton]
    rfl
  | .nested tree => by
    have levels := tree.height_pos
    rw [StoredValue.depths, StoredValue.height, List.forall_mem_cons, List.forall_mem_cons]
    by_cases low : depth + 1 < limit
    · rw [tree.depths_lt_iff low]
      omega
    · exact iff_of_false (fun all => low all.2.1) (by omega)
  | .array values => by
    rw [StoredValue.depths, StoredValue.height, List.forall_mem_cons]
    by_cases low : depth < limit
    · rw [StoredValue.allDepths_lt_iff low values]
      omega
    · exact iff_of_false (fun all => low all.1) (by omega)

theorem StoredValue.allDepths_lt_iff {depth limit : Nat} (low : depth ≤ limit) :
    (values : List StoredValue) →
      ((∀ other ∈ StoredValue.allDepths depth values, other < limit) ↔
        depth + StoredValue.allHeight values ≤ limit)
  | [] => by
    rw [StoredValue.allDepths, StoredValue.allHeight]
    exact iff_of_true (List.forall_mem_nil _) low
  | value :: rest => by
    rw [StoredValue.allDepths, StoredValue.allHeight, List.forall_mem_append,
      value.depths_lt_iff, StoredValue.allDepths_lt_iff low rest]
    omega

end

/-! ## Too few levels -/

theorem StoredTree.exists_of_lt_elementsHeight {levels : Nat}
    {elements : List (Nat × StoredValue)} (high : levels < elementsHeight elements) :
    ∃ element ∈ elements, levels < element.2.height := by
  induction elements with
  | nil => cases high
  | cons first rest ih =>
    obtain ⟨name, value⟩ := first
    rw [elementsHeight] at high
    by_cases here : levels < value.height
    · exact ⟨(name, value), List.mem_cons_self, here⟩
    · obtain ⟨element, member, above⟩ := ih (by omega)
      exact ⟨element, .tail _ member, above⟩

theorem StoredValue.exists_of_lt_allHeight {levels : Nat} {values : List StoredValue}
    (high : levels < allHeight values) : ∃ value ∈ values, levels < value.height := by
  induction values with
  | nil => cases high
  | cons first rest ih =>
    rw [allHeight] at high
    by_cases here : levels < first.height
    · exact ⟨first, List.mem_cons_self, here⟩
    · obtain ⟨value, member, above⟩ := ih (by omega)
      exact ⟨value, .tail _ member, above⟩

/-- Nesting was too deep. -/
def tooDeep : Cause := .decode (.annotationTooDeep annotationDepthLimit)

section Refusing

variable {pool : ConstantPool} {levels : Nat}

/-- An annotation is too deep if a value below it is. -/
theorem refuses_readTree (small : pool.count < 0x10000)
    (values : ∀ {stored : StoredValue} {value : AnnotationValue}, stored.Means pool value →
      levels < stored.height → (AnnotationValue.read pool levels).Refuses stored.bytes tooDeep)
    {stored : StoredTree} {tree : AnnotationTree} (means : stored.Means pool tree)
    (high : levels + 1 < stored.height) :
    (AnnotationTree.read pool (levels + 1)).Refuses stored.bytes tooDeep := by
  cases means with
  | @mk type text stored elements named few means distinct =>
    rw [StoredTree.height, Nat.add_lt_add_iff_right] at high
    rw [AnnotationTree.read, StoredTree.bytes, StoredTree.elementBytes_eq_map]
    refine (takes_u16 (named.lt small)).bind_refuses
      ((takes_ofExcept named.textAt).bind_nil_refuses (Refuses.bind_nil ?_))
    refine refuses_counted_map (fun element => element.2.height) few means ?_ ?_
      (StoredTree.exists_of_lt_elementsHeight high)
    · rintro _ _ ⟨named, means⟩ low
      exact takes_following (named.lt small) named.textAt
        ((((takes_readLevels small levels).2 means low).within _).bind_nil (takes_pure _))
    · rintro _ _ ⟨named, means⟩ high
      exact (takes_u16 (named.lt small)).bind_refuses
        ((takes_ofExcept named.textAt).bind_nil_refuses ((values means high).within _).bind_nil)

/-- A value is too deep if something in it is. -/
theorem refuses_readValue (small : pool.count < 0x10000)
    (values : ∀ {stored : StoredValue} {value : AnnotationValue}, stored.Means pool value →
      levels < stored.height → (AnnotationValue.read pool levels).Refuses stored.bytes tooDeep)
    (trees : ∀ {stored : StoredTree} {tree : AnnotationTree}, stored.Means pool tree →
      levels < stored.height → (AnnotationTree.read pool levels).Refuses stored.bytes tooDeep)
    {stored : StoredValue} {value : AnnotationValue} (means : stored.Means pool value)
    (high : levels + 1 < stored.height) :
    (AnnotationValue.read pool (levels + 1)).Refuses stored.bytes tooDeep := by
  cases means with
  | integer | long | float | double | string | classLiteral | enumConstant =>
    rw [StoredValue.height] at high
    omega
  | nested means =>
    rw [StoredValue.height, Nat.add_lt_add_iff_right] at high
    exact (takes_byte (tagByte '@')).bind_refuses (trees means high).bind_nil
  | array few means =>
    rw [StoredValue.height, Nat.add_lt_add_iff_right] at high
    rw [StoredValue.bytes, StoredValue.allBytes_eq_map]
    refine (takes_byte (tagByte '[')).bind_refuses (Refuses.bind_nil ?_)
    exact refuses_counted_map StoredValue.height few means (takes_readLevels small levels).2 values
      (StoredValue.exists_of_lt_allHeight high)

/-- With fewer levels than they need, annotations and values are too deep. -/
theorem refuses_readLevels (small : pool.count < 0x10000) (levels : Nat) :
    (∀ {stored : StoredTree} {tree : AnnotationTree}, stored.Means pool tree →
      levels < stored.height → (AnnotationTree.read pool levels).Refuses stored.bytes tooDeep) ∧
    ∀ {stored : StoredValue} {value : AnnotationValue}, stored.Means pool value →
      levels < stored.height →
        (AnnotationValue.read pool levels).Refuses stored.bytes tooDeep := by
  induction levels with
  | zero =>
    rw [AnnotationTree.read, AnnotationValue.read]
    exact ⟨fun _ _ => refuses_malformed _ _, fun _ _ => refuses_malformed _ _⟩
  | succ levels ih =>
    obtain ⟨trees, values⟩ := ih
    exact ⟨refuses_readTree small values, refuses_readValue small values trees⟩

end Refusing

/-! ## Payloads -/

section Payload

variable {pool : ConstantPool} {stored : List StoredTree} {trees : List AnnotationTree}

theorem StoredTree.exists_depth_ge_iff {limit : Nat} (written : 0 < limit) {tree : StoredTree} :
    (∃ depth ∈ tree.depths 0, limit ≤ depth) ↔ limit < tree.height := by
  have levels := tree.depths_lt_iff written
  rw [Nat.zero_add] at levels
  rw [← Nat.not_le, ← levels]
  simp only [not_forall, Nat.not_lt, exists_prop]

/-- An array in an array and so on, around an empty one. -/
def nestedArrays : Nat → StoredValue
  | 0 => .array []
  | count + 1 => .array [nestedArrays count]

/-- What nested arrays mean. -/
def nestedValues : Nat → AnnotationValue
  | 0 => .array []
  | count + 1 => .array [nestedValues count]

/-- An annotation with nested arrays. -/
def nestedTree (count : Nat) : StoredTree := .mk 3 [(4, nestedArrays count)]

theorem nestedArrays_means (count : Nat) :
    (nestedArrays count).Means pool (nestedValues count) := by
  induction count with
  | zero => exact .array (by decide) .nil
  | succ count ih => exact .array (show 1 < 0x10000 by decide) (.cons ih .nil)

theorem nestedTree_means (count : Nat) :
    (nestedTree count).Means AnnotationTree.repeatingPool (.mk "LX;" [("v", nestedValues count)]) :=
  .mk rfl (show 1 < 0x10000 by decide) (.cons (.mk rfl (nestedArrays_means count)) .nil)
    (List.nodup_singleton "v")

theorem depths_nestedArrays (count depth : Nat) :
    (nestedArrays count).depths depth = List.range' depth (count + 1) := by
  induction count generalizing depth with
  | zero => rfl
  | succ count ih =>
    rw [nestedArrays, StoredValue.depths, StoredValue.allDepths, StoredValue.allDepths, ih,
      List.append_nil]
    rfl

/-- Each array is one deeper than the one around it, and the outermost one has depth one. -/
theorem depths_nestedTree (count : Nat) :
    (nestedTree count).depths 0 = List.range' 1 (count + 1) := by
  rw [nestedTree, StoredTree.depths, StoredTree.elementDepths, StoredTree.elementDepths,
    List.append_nil, depths_nestedArrays]

end Payload

end Bytescript.Assembly
