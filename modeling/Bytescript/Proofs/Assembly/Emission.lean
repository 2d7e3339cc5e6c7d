import Bytescript.Assembly.Assembler
import Bytescript.Proofs.Binary.Word
import Mathlib.Algebra.GroupWithZero.Nat

/-!
# Calls of an assembler

A program is assembled by a row of calls.  Some make a label or bind one, and each of the others
emits one instruction.  An instruction becomes a few pieces of code, which depend on the labels it
names and on where it stands, since distances count from there and switches are padded.

The finished code is the code of these pieces in order, once all labels have their positions.  The
positions of later instructions follow from the sizes of the earlier ones.
-/

set_option autoImplicit false

namespace Bytescript.Assembly

open Binary

/-! ## Calls -/

/-- A call that emits an instruction. -/
inductive Emission where
  | op (opcode : UInt8)
  | opByte (opcode operand : UInt8)
  | opWord (opcode : UInt8) (operand : UInt16)
  | byteConstant (value : Int8)
  | shortConstant (value : Int16)
  | increment (index : UInt8) (delta : Int8)
  | invokeInterface (index : UInt16) (count : UInt8)
  | branch (opcode : UInt8) (label : Label)
  | wideBranch (opcode : UInt8) (label : Label)
  | tableSwitch (default : Label) (low : Int32) (targets : List Label)
  | lookupSwitch (default : Label) (pairs : List (Int32 × Label))

/-- A call of an assembler. -/
inductive Call where
  | newLabel
  | bind (label : Label)
  | emit (emission : Emission)

namespace Emission

/-- The opcode that is emitted. -/
def opcode : Emission → UInt8
  | op opcode | opByte opcode _ | opWord opcode _ | branch opcode _ | wideBranch opcode _ => opcode
  | byteConstant _ => Assembler.byteOpcode
  | shortConstant _ => Assembler.shortOpcode
  | increment _ _ => Assembler.incrementOpcode
  | invokeInterface _ _ => Assembler.interfaceCallOpcode
  | tableSwitch _ _ _ => Assembler.tableSwitchOpcode
  | lookupSwitch _ _ => Assembler.lookupSwitchOpcode

/-- The labels that an instruction names. -/
def labels : Emission → List Label
  | branch _ label | wideBranch _ label => [label]
  | tableSwitch default _ targets => default :: targets
  | lookupSwitch default pairs => default :: pairs.map Prod.snd
  | _ => []

/-- The assembler after the call. -/
def perform (assembler : Assembler) : Emission → Assembler
  | op opcode => assembler.op opcode
  | opByte opcode operand => assembler.opByte opcode operand
  | opWord opcode operand => assembler.opWord opcode operand
  | byteConstant value => assembler.byteConstant value
  | shortConstant value => assembler.shortConstant value
  | increment index delta => assembler.increment index delta
  | invokeInterface index count => assembler.invokeInterface index count
  | branch opcode label => assembler.branch opcode label
  | wideBranch opcode label => assembler.wideBranch opcode label
  | tableSwitch default low targets => assembler.tableSwitch default low targets
  | lookupSwitch default pairs => assembler.lookupSwitch default pairs

/-- The pieces of an instruction that stands at a position. -/
def pieces (origin : Nat) : Emission → List Piece
  | op opcode => [.bytes [opcode]]
  | opByte opcode operand => [.bytes [opcode, operand]]
  | opWord opcode operand => [.bytes (opcode :: bigEndianBytes 2 operand.toNat)]
  | byteConstant value => [.bytes [Assembler.byteOpcode, value.toUInt8]]
  | shortConstant value =>
    [.bytes (Assembler.shortOpcode :: bigEndianBytes 2 value.toUInt16.toNat)]
  | increment index delta => [.bytes [Assembler.incrementOpcode, index, delta.toUInt8]]
  | invokeInterface index count =>
    [.bytes (Assembler.interfaceCallOpcode ::
      (bigEndianBytes 2 index.toNat ++ [count, 0]))]
  | branch opcode label => [.bytes [opcode], .distance origin label false]
  | wideBranch opcode label => [.bytes [opcode], .distance origin label true]
  | tableSwitch default low targets =>
    [.bytes (Assembler.tableSwitchOpcode :: Assembler.padding origin),
      .distance origin default true, Assembler.word low,
      Assembler.word (low + Int32.ofNat targets.length - 1)]
      ++ targets.map fun target => .distance origin target true
  | lookupSwitch default pairs =>
    [.bytes (Assembler.lookupSwitchOpcode :: Assembler.padding origin),
      .distance origin default true, Assembler.word (Int32.ofNat pairs.length)]
      ++ pairs.flatMap fun (key, target) => [Assembler.word key, .distance origin target true]

theorem perform_eq_addAll (assembler : Assembler) (emission : Emission) :
    emission.perform assembler = assembler.addAll (emission.pieces assembler.position) := by
  cases emission <;> rfl

end Emission

/-- The assembler after a call. -/
def Call.perform (assembler : Assembler) : Call → Assembler
  | newLabel => assembler.newLabel.2
  | bind label => assembler.bind label
  | emit emission => emission.perform assembler

namespace Assembler

variable {assembler : Assembler}

/-- The assembler after several calls. -/
def performAll (assembler : Assembler) (calls : List Call) : Assembler :=
  calls.foldl Call.perform assembler

/-- The instructions that calls emit, each with the position before its call. -/
def emissions (assembler : Assembler) : List Call → List (Nat × Emission)
  | [] => []
  | .newLabel :: rest => emissions assembler.newLabel.2 rest
  | .bind label :: rest => emissions (assembler.bind label) rest
  | .emit emission :: rest =>
    (assembler.position, emission) :: emissions (emission.perform assembler) rest

/-! ## Pieces and positions -/

theorem toList_pieces_addAll (assembler : Assembler) (pieces : List Piece) :
    (assembler.addAll pieces).pieces.toList = assembler.pieces.toList ++ pieces := by
  induction pieces generalizing assembler with
  | nil => exact (List.append_nil _).symm
  | cons piece rest ih =>
    rw [addAll, List.foldl_cons, ← addAll, ih, add, Array.toList_push, List.append_assoc,
      List.singleton_append]

theorem position_eq_sum (assembler : Assembler) :
    assembler.position = (assembler.pieces.toList.map Piece.size).sum := by
  have folded (pieces : List Piece) (start : Nat) :
      pieces.foldl (fun position piece => position + piece.size) start =
        start + (pieces.map Piece.size).sum := by
    induction pieces generalizing start with
    | nil => rfl
    | cons piece rest ih => rw [List.foldl_cons, ih, List.map_cons, List.sum_cons, Nat.add_assoc]
  rw [position, folded, Nat.zero_add]

theorem position_perform (assembler : Assembler) (emission : Emission) :
    (emission.perform assembler).position =
      assembler.position + ((emission.pieces assembler.position).map Piece.size).sum := by
  rw [emission.perform_eq_addAll, position_eq_sum (assembler.addAll _), toList_pieces_addAll,
    List.map_append, List.sum_append, ← position_eq_sum]

/-- The pieces of a program are those of its instructions, each where it stands. -/
theorem toList_pieces_performAll (assembler : Assembler) (calls : List Call) :
    (assembler.performAll calls).pieces.toList =
      assembler.pieces.toList ++
        (assembler.emissions calls).flatMap fun entry => entry.2.pieces entry.1 := by
  induction calls generalizing assembler with
  | nil => exact (List.append_nil _).symm
  | cons call rest ih =>
    rw [performAll, List.foldl_cons, ← performAll, ih]
    cases call with
    | newLabel => rfl
    | bind label => rfl
    | emit emission =>
      rw [Call.perform, emission.perform_eq_addAll, toList_pieces_addAll, emissions,
        List.flatMap_cons, List.append_assoc, emission.perform_eq_addAll]

/-! ## The finished code -/

/-- The bytes of an instruction at a position. -/
def Encodes (assembler : Assembler) (entry : Nat × Emission) (bytes : List UInt8) : Prop :=
  ∃ parts, List.Forall₂ (fun piece part => assembler.resolve piece = .ok part)
    (entry.2.pieces entry.1) parts ∧ bytes = parts.flatten

/-- A distance is written in two or four bytes. -/
theorem resolve_distance_eq_ok {origin : Nat} {label : Label} { isWide : Bool}
    {part : List UInt8} :
    assembler.resolve (.distance origin label isWide) = .ok part ↔
      ∃ target, assembler.offset? label = some target ∧
        (( isWide = true ∧
            part = bigEndianBytes 4 (wordOfInt 32 (target - origin))) ∨
          ( isWide = false ∧ -0x8000 ≤ (target - origin : Int) ∧
            (target - origin : Int) < 0x8000 ∧
            part = bigEndianBytes 2 (wordOfInt 16 (target - origin)))) := by
  cases bound : assembler.offset? label with
  | none =>
    refine iff_of_false (fun resolved => ?_) ?_
    · rw [resolve, bound] at resolved
      cases resolved
    · rintro ⟨_, found, _⟩
      cases found
  | some target =>
    cases isWide with
    | true =>
      have wide : assembler.resolve (.distance origin label true) =
          .ok (bigEndianBytes 4 (wordOfInt 32 (target - origin))) := by
        rw [resolve, bound]
        rfl
      simp only [wide, Option.some.injEq, exists_eq_left', true_and, Bool.false_eq_true, false_and,
        or_false, Except.ok.injEq, eq_comm]
    | false =>
      have narrow : assembler.resolve (.distance origin label false) =
          if -0x8000 ≤ (target - origin : Int) ∧ (target - origin : Int) < 0x8000 then
            .ok (bigEndianBytes 2 (wordOfInt 16 (target - origin)))
          else reject (.branchTooFar origin target) := by
        rw [resolve, bound]
        rfl
      simp only [narrow, Option.some.injEq, exists_eq_left', true_and, Bool.false_eq_true,
        false_and, false_or]
      split
      next near => simp only [near.1, near.2, true_and, Except.ok.injEq, eq_comm]
      next far =>
        refine iff_of_false (fun resolved => by cases resolved) ?_
        exact fun near => far ⟨near.1, near.2.1⟩

theorem length_of_resolve {piece : Piece} {part : List UInt8}
    (resolved : assembler.resolve piece = .ok part) : part.length = piece.size := by
  cases piece with
  | bytes contents =>
    cases resolved
    rfl
  | distance origin label isWide =>
    obtain ⟨_, _, ⟨rfl, rfl⟩ | ⟨rfl, _, _, rfl⟩⟩ := resolve_distance_eq_ok.mp resolved
    · exact length_bigEndianBytes _ _
    · exact length_bigEndianBytes _ _

theorem Encodes.length_eq {entry : Nat × Emission} {bytes : List UInt8}
    (encodes : assembler.Encodes entry bytes) :
    bytes.length = ((entry.2.pieces entry.1).map Piece.size).sum := by
  obtain ⟨parts, resolved, rfl⟩ := encodes
  generalize entry.2.pieces entry.1 = pieces at resolved
  induction resolved with
  | nil => rfl
  | cons here _ ih =>
    rw [List.flatten_cons, List.length_append, ih, List.map_cons, List.sum_cons,
      length_of_resolve here]

/-- What is related to a list in two parts is in two parts as well. -/
theorem forall₂_append_left {α β : Type} {related : α → β → Prop} {front back : List α}
    {whole : List β} (lists : List.Forall₂ related (front ++ back) whole) :
    ∃ first second, whole = first ++ second ∧ List.Forall₂ related front first ∧
      List.Forall₂ related back second := by
  induction front generalizing whole with
  | nil => exact ⟨[], whole, rfl, .nil, lists⟩
  | cons item front ih =>
    cases lists with
    | cons here later =>
      obtain ⟨first, second, rfl, one, two⟩ := ih later
      exact ⟨_ :: first, second, rfl, .cons here one, two⟩

/-- The pieces of several instructions resolve to the bytes of each. -/
theorem exists_encodes {entries : List (Nat × Emission)} {parts : List (List UInt8)}
    (resolved : List.Forall₂ (fun piece part => assembler.resolve piece = .ok part)
      (entries.flatMap fun entry => entry.2.pieces entry.1) parts) :
    ∃ chunks, List.Forall₂ assembler.Encodes entries chunks ∧ parts.flatten = chunks.flatten := by
  induction entries generalizing parts with
  | nil =>
    cases resolved
    exact ⟨[], .nil, rfl⟩
  | cons entry rest ih =>
    rw [List.flatMap_cons] at resolved
    obtain ⟨first, others, rfl, here, later⟩ := forall₂_append_left resolved
    obtain ⟨chunks, encodes, same⟩ := ih later
    exact ⟨first.flatten :: chunks, .cons ⟨first, here, rfl⟩ encodes,
      by rw [List.flatten_append, same, List.flatten_cons]⟩

/-- The bytes of all instructions are as many as their pieces say. -/
theorem length_flatten_of_encodes {entries : List (Nat × Emission)} {chunks : List (List UInt8)}
    (encodes : List.Forall₂ assembler.Encodes entries chunks) :
    chunks.flatten.length =
      ((entries.flatMap fun entry => entry.2.pieces entry.1).map Piece.size).sum := by
  induction encodes with
  | nil => rfl
  | cons here _ ih =>
    rw [List.flatten_cons, List.length_append, here.length_eq, ih, List.flatMap_cons,
      List.map_append, List.sum_append]

/-- The finished code of a program is the code of its instructions. -/
theorem exists_encodes_of_finish {calls : List Call} {bytes : List UInt8}
    (finished : (empty.performAll calls).finish = .ok bytes) :
    ∃ chunks, List.Forall₂ (empty.performAll calls).Encodes (empty.emissions calls) chunks ∧
      bytes = chunks.flatten := by
  obtain ⟨parts, resolved, same⟩ := bind_eq_ok.mp finished
  cases same
  have pieces := toList_pieces_performAll empty calls
  rw [mapM_eq_ok, pieces] at resolved
  exact exists_encodes resolved

end Assembler

end Bytescript.Assembly
