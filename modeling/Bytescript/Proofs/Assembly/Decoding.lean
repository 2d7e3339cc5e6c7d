import Bytescript.ClassFile.Bytecode
import Bytescript.Proofs.Assembly.Emission
import Bytescript.Proofs.Binary.Extent
import Bytescript.Proofs.Binary.Signed
import Bytescript.Proofs.ClassFile.OpcodeNumbers

/-!
# Assembled bytecode is decoded

An instruction that is emitted with an opcode of the right shape means the instruction that the
opcode stands for, with its operands followed into the pool and its labels replaced by the offsets
they are bound to.  Decoding the finished code gives back these instructions.

Both sides count on their own: the assembler pads a switch from the size of all code before it, and
the decoder from what it has read.  So a reader is described here by what it takes where it stands,
and the whole code by induction on the calls, with the position of the assembler as the position of
the decoder.
-/

set_option autoImplicit false

namespace Bytescript

open Binary

namespace Assembly

open Bytecode Assembler

/-! ## What is meant -/

/-- What an emitted instruction means, in a pool and with offsets for the labels.  The opcode has
the shape of the call, operands that name pool entries can be followed, and a table has at least
one target and a last key that fits into a word. -/
inductive Emission.Means (pool : ConstantPool) (place : Label → Option Nat) :
    Emission → Instruction → Prop where
  | plain {opcode : UInt8} {instruction : Instruction}
    (form : Form.HasOpcode (.plain instruction) opcode.toNat) :
    Means pool place (.op opcode) instruction
  | smallConstant {opcode operand : UInt8}
    (form : Form.HasOpcode .byteConstant opcode.toNat) :
    Means pool place (.opByte opcode operand) (.constInt operand.toInt8.toInt32)
  | smallPoolIndex {opcode operand : UInt8} {value : Loadable}
    (form : Form.HasOpcode .smallPoolIndex opcode.toNat)
    (found : pool.loadableAt operand.toNat = .ok value) :
    Means pool place (.opByte opcode operand) (.loadConstant value)
  | localVariable {opcode operand : UInt8} {make : Nat → Instruction}
    (form : Form.HasOpcode (.localVariable make) opcode.toNat) :
    Means pool place (.opByte opcode operand) (make operand.toNat)
  | primitiveArray {opcode operand : UInt8} {element : ArrayType}
    (form : Form.HasOpcode .primitiveArray opcode.toNat)
    (known : ArrayType.ofTag? operand.toNat = some element) :
    Means pool place (.opByte opcode operand) (.newArray element)
  | largeConstant {opcode : UInt8} {operand : UInt16}
    (form : Form.HasOpcode .shortConstant opcode.toNat) :
    Means pool place (.opWord opcode operand) (.constInt operand.toInt16.toInt32)
  | poolIndex {opcode : UInt8} {operand : UInt16} {value : Loadable}
    (form : Form.HasOpcode .poolIndex opcode.toNat)
    (found : pool.loadableAt operand.toNat = .ok value) :
    Means pool place (.opWord opcode operand) (.loadConstant value)
  | field {opcode : UInt8} {operand : UInt16} {make : MemberRef → Instruction} {field : MemberRef}
    (form : Form.HasOpcode (.field make) opcode.toNat)
    (found : pool.fieldRefAt operand.toNat = .ok field) :
    Means pool place (.opWord opcode operand) (make field)
  | method {opcode : UInt8} {operand : UInt16} {make : MemberRef → Bool → Instruction}
    {method : MemberRef} { isInterface : Bool}
    (form : Form.HasOpcode (.method make) opcode.toNat)
    (found : pool.methodRefAt operand.toNat = .ok (method, isInterface)) :
    Means pool place (.opWord opcode operand) (make method isInterface)
  | classOperand {opcode : UInt8} {operand : UInt16} {make : ClassName → Instruction}
    {name : ClassName} (form : Form.HasOpcode (.classOperand make) opcode.toNat)
    (found : pool.classNameAt operand.toNat = .ok name) :
    Means pool place (.opWord opcode operand) (make name)
  | byteConstant (value : Int8) : Means pool place (.byteConstant value) (.constInt value.toInt32)
  | shortConstant (value : Int16) :
    Means pool place (.shortConstant value) (.constInt value.toInt32)
  | increment (index : UInt8) (delta : Int8) :
    Means pool place (.increment index delta) (.increment index.toNat delta.toInt)
  | invokeInterface {index : UInt16} {count : UInt8} {method : MemberRef}
    (found : pool.interfaceMethodRefAt index.toNat = .ok method) :
    Means pool place (.invokeInterface index count) (.invokeInterface method)
  | branch {opcode : UInt8} {label : Label} {target : Nat} {make : Nat → Instruction}
    (form : Form.HasOpcode (.branch make) opcode.toNat)
    (placed : place label = some target) : Means pool place (.branch opcode label) (make target)
  | wideBranch {opcode : UInt8} {label : Label} {target : Nat} {make : Nat → Instruction}
    (form : Form.HasOpcode (.wideBranch make) opcode.toNat)
    (placed : place label = some target) :
    Means pool place (.wideBranch opcode label) (make target)
  | tableSwitch {default : Label} {low high : Int32} {targets : List Label} {offset : Nat}
    {offsets : List Nat} (filled : targets ≠ [])
    (last : high.toInt = low.toInt + targets.length - 1) (placed : place default = some offset)
    (allPlaced : List.Forall₂ (fun target offset => place target = some offset) targets offsets) :
    Means pool place (.tableSwitch default low targets) (.tableSwitch offset low high offsets)
  | lookupSwitch {default : Label} {pairs : List (Int32 × Label)} {offset : Nat}
    {cases : List (Int32 × Nat)} (placed : place default = some offset)
    (allPlaced : List.Forall₂
      (fun pair case => case.1 = pair.1 ∧ place pair.2 = some case.2) pairs cases) :
    Means pool place (.lookupSwitch default pairs) (.lookupSwitch offset cases)

/-! ## Operands -/

section Operands

variable {assembler : Assembler} {site : Site} {position : Nat} {opcode : UInt8} {form : Form}
  {instruction : Instruction} {entry : Nat × Emission} {bytes operands contents : List UInt8}
  {label : Label} {target : Nat}

theorem Assembler.Encodes.eq_of_single (encodes : assembler.Encodes entry bytes)
    (single : entry.2.pieces entry.1 = [.bytes contents]) : bytes = contents := by
  obtain ⟨parts, resolved, rfl⟩ := encodes
  rw [single] at resolved
  obtain _ | ⟨here, ⟨⟩⟩ := resolved
  cases here
  exact List.append_nil _

/-- The pieces after the first one, which begins with the opcode. -/
theorem Assembler.Encodes.eq_cons (encodes : assembler.Encodes entry bytes) {more : List Piece}
    (split : entry.2.pieces entry.1 = .bytes (opcode :: contents) :: more) :
    ∃ parts, List.Forall₂ (fun piece part => assembler.resolve piece = .ok part) more parts ∧
      bytes = opcode :: (contents ++ parts.flatten) := by
  obtain ⟨parts, resolved, rfl⟩ := encodes
  rw [split] at resolved
  obtain _ | ⟨here, later⟩ := resolved
  cases here
  exact ⟨_, later, rfl⟩

/-- The operands are read as the form of the opcode says. -/
theorem takesAt_operands_of_form (has : form.HasOpcode opcode.toNat)
    (takes : (readForm site form).TakesAt position operands instruction) :
    (readOperands site opcode.toNat).TakesAt position operands instruction := by
  rw [readOperands, Form.hasOpcode_iff.mp has]
  exact takes

/-- A distance leads back to the target that it was made for. -/
theorem takes_branch { isWide : Bool} {part : List UInt8}
    (resolved : assembler.resolve (.distance site.offset label isWide) = .ok part)
    (placed : assembler.offset? label = some target) (inside : target < site.codeLength)
    (standing : site.offset < site.codeLength) (short : site.codeLength ≤ 0xffff) :
    (readBranch site (Piece.distance site.offset label isWide).size).Takes part target := by
  have near : -0x80000000 ≤ (target - site.offset : Int) ∧
      (target - site.offset : Int) < 0x80000000 := by omega
  have arrives : site.target (target - site.offset) = .ok target := by
    have sum : (site.offset : Int) + (target - site.offset) = target := by omega
    simp only [Site.target, sum]
    rw [if_neg (by omega), Int.toNat_natCast, Nat.mod_eq_of_lt (by omega)]
  obtain ⟨bound, found, ⟨rfl, rfl⟩ | ⟨rfl, low, high, rfl⟩⟩ := resolve_distance_eq_ok.mp resolved
  all_goals
    obtain rfl : bound = target := Option.some.inj (found.symm.trans placed)
    generalize (bound - site.offset : Int) = distance at *
  · have takes : (Reader.signed 4).Takes (bigEndianBytes 4 (wordOfInt 32 distance)) distance :=
      Reader.takes_signed_wordOfInt (by decide) (by omega) (by omega)
    exact takes.bind_nil (Reader.takes_ofExcept arrives)
  · have takes : (Reader.signed 2).Takes (bigEndianBytes 2 (wordOfInt 16 distance)) distance :=
      Reader.takes_signed_wordOfInt (by decide) (by omega) (by omega)
    exact takes.bind_nil (Reader.takes_ofExcept arrives)

/-- The decoder passes over what the assembler pads with. -/
theorem takesAt_align (origin : Nat) : align.TakesAt (origin + 1) (padding origin) () := by
  intro rest
  refine bindState_eq_ok.mpr ⟨origin + 1, ⟨origin + 1, padding origin ++ rest⟩, rfl, ?_⟩
  have length : (padding origin).length = (4 - (origin + 1) % 4) % 4 := List.length_replicate
  have takes := Reader.takes_skip (padding origin) (origin + 1) rest
  rwa [length] at takes ⊢

/-- The last key of a table is the one that the assembler counts up to. -/
theorem last_eq {low high : Int32} {count : Nat} (last : high.toInt = low.toInt + count - 1) :
    low + Int32.ofNat count - 1 = high := by
  apply Int32.toInt_inj.mp
  have one : (1 : Int32).toInt = 1 := rfl
  rw [Int32.toInt_sub, Int32.toInt_add, Int32.toInt_ofNat', one, Int.add_bmod_bmod,
    Int.bmod_sub_bmod, ← last]
  exact Int32.toInt_bmod _

theorem takes_targets {targets : List Label} {offsets : List Nat} {parts : List (List UInt8)}
    (resolved : List.Forall₂ (fun piece part => assembler.resolve piece = .ok part)
      (targets.map fun target => .distance site.offset target true) parts)
    (placed : List.Forall₂ (fun target offset => assembler.offset? target = some offset) targets
      offsets)
    (inside : ∀ label ∈ targets, ∀ target, assembler.offset? label = some target →
      target < site.codeLength)
    (standing : site.offset < site.codeLength) (short : site.codeLength ≤ 0xffff) :
    List.Forall₂ (readBranch site 4).Takes parts offsets := by
  induction placed generalizing parts with
  | nil =>
    cases resolved
    exact .nil
  | cons here _ ih =>
    obtain _ | ⟨first, later⟩ := resolved
    obtain ⟨near, others⟩ := List.forall_mem_cons.mp inside
    exact .cons (takes_branch first here (near _ here) standing short) (ih later others)

/-- Each key is followed by where it leads. -/
theorem takes_cases {pairs : List (Int32 × Label)} {found : List (Int32 × Nat)}
    {parts : List (List UInt8)}
    (resolved : List.Forall₂ (fun piece part => assembler.resolve piece = .ok part)
      (pairs.flatMap fun pair => [word pair.1, .distance site.offset pair.2 true]) parts)
    (placed : List.Forall₂
      (fun pair case => case.1 = pair.1 ∧ assembler.offset? pair.2 = some case.2) pairs found)
    (inside : ∀ label ∈ pairs.map Prod.snd, ∀ target, assembler.offset? label = some target →
      target < site.codeLength)
    (standing : site.offset < site.codeLength) (short : site.codeLength ≤ 0xffff) :
    ∃ chunks, List.Forall₂ (readCase site).Takes chunks found ∧
      parts.flatten = chunks.flatten ∧ pairs.length ≤ parts.flatten.length := by
  induction placed generalizing parts with
  | nil =>
    cases resolved
    exact ⟨[], .nil, rfl, Nat.le_refl _⟩
  | @cons pair case _ _ here _ ih =>
    obtain _ | ⟨key, _ | ⟨first, later⟩⟩ := resolved
    cases key
    obtain ⟨near, others⟩ := List.forall_mem_cons.mp inside
    obtain ⟨chunks, takes, same, enough⟩ := ih later others
    obtain ⟨key, target⟩ := case
    obtain ⟨rfl, placed⟩ := here
    have branch := takes_branch first placed (near _ placed) standing short
    refine ⟨_ :: chunks,
      .cons ((Reader.takes_i32 pair.1).bind (branch.bind_nil (Reader.takes_pure _))) takes, ?_, ?_⟩
    · rw [List.flatten_cons, List.flatten_cons, same, List.flatten_cons, List.append_assoc]
    · simp only [List.flatten_cons, List.length_append, List.length_cons, length_bigEndianBytes]
      omega

/-- A table is read after the padding: the default, the first and the last key, and the targets. -/
theorem takesAt_tableSwitch {default : Label} {low high : Int32} {targets : List Label}
    {offset : Nat} {offsets : List Nat} {parts : List (List UInt8)}
    (resolved : List.Forall₂ (fun piece part => assembler.resolve piece = .ok part)
      (.distance site.offset default true :: word low ::
        word (low + Int32.ofNat targets.length - 1) ::
        targets.map fun target => .distance site.offset target true) parts)
    (filled : targets ≠ []) (last : high.toInt = low.toInt + targets.length - 1)
    (placed : assembler.offset? default = some offset)
    (allPlaced : List.Forall₂ (fun target offset => assembler.offset? target = some offset) targets
      offsets)
    (inside : ∀ label ∈ default :: targets, ∀ target, assembler.offset? label = some target →
      target < site.codeLength)
    (standing : site.offset < site.codeLength) (short : site.codeLength ≤ 0xffff) :
    (readTableSwitch site).TakesAt (site.offset + 1) (padding site.offset ++ parts.flatten)
      (.tableSwitch offset low high offsets) := by
  obtain _ | ⟨first, _ | ⟨least, _ | ⟨greatest, others⟩⟩⟩ := resolved
  cases least
  cases greatest
  obtain ⟨near, each⟩ := List.forall_mem_cons.mp inside
  have entries := takes_targets others allPlaced each standing short
  have positive : 0 < targets.length := List.length_pos_of_ne_nil filled
  have lengths := allPlaced.length_eq.trans entries.length_eq.symm
  have count : (high.toInt - low.toInt + 1).toNat = targets.length := by omega
  refine (takesAt_align site.offset).bind (Reader.Takes.at ?_ _)
  refine (takes_branch first placed (near _ placed) standing short).bind ?_
  rw [last_eq last]
  refine (Reader.takes_i32 low).bind ((Reader.takes_i32 high).bind ?_)
  rw [if_neg (by omega), count, lengths]
  exact (Reader.takes_times entries).making

/-- Listed keys are read after the padding: the default, their count, and each with its target.
The code is so short that the count fits into its word. -/
theorem takesAt_lookupSwitch {default : Label} {pairs : List (Int32 × Label)} {offset : Nat}
    {found : List (Int32 × Nat)} {parts : List (List UInt8)}
    (resolved : List.Forall₂ (fun piece part => assembler.resolve piece = .ok part)
      (.distance site.offset default true :: word (Int32.ofNat pairs.length) ::
        pairs.flatMap fun pair => [word pair.1, .distance site.offset pair.2 true]) parts)
    (few : parts.flatten.length ≤ 0xffff) (placed : assembler.offset? default = some offset)
    (allPlaced : List.Forall₂
      (fun pair case => case.1 = pair.1 ∧ assembler.offset? pair.2 = some case.2) pairs found)
    (inside : ∀ label ∈ default :: pairs.map Prod.snd, ∀ target,
      assembler.offset? label = some target → target < site.codeLength)
    (standing : site.offset < site.codeLength) (short : site.codeLength ≤ 0xffff) :
    (readLookupSwitch site).TakesAt (site.offset + 1) (padding site.offset ++ parts.flatten)
      (.lookupSwitch offset found) := by
  obtain _ | ⟨first, _ | ⟨counted, others⟩⟩ := resolved
  cases counted
  obtain ⟨near, each⟩ := List.forall_mem_cons.mp inside
  obtain ⟨chunks, entries, same, enough⟩ := takes_cases others allPlaced each standing short
  have lengths := allPlaced.length_eq.trans entries.length_eq.symm
  simp only [List.length_append, List.flatten_cons] at few
  have count : (Int32.ofNat pairs.length).toInt = pairs.length :=
    Int32.toInt_ofNat_of_lt (by omega)
  refine (takesAt_align site.offset).bind (Reader.Takes.at ?_ _)
  refine (takes_branch first placed (near _ placed) standing short).bind ?_
  refine (Reader.takes_i32 (Int32.ofNat pairs.length)).bind ?_
  rw [count, if_neg (by omega), Int.toNat_natCast, lengths, same]
  exact (Reader.takes_times entries).making

/-- Operands that are the same wherever the instruction stands are read by the form alone. -/
theorem exists_operands_of_single {emission : Emission}
    (encodes : assembler.Encodes (site.offset, emission) bytes)
    (single : emission.pieces site.offset = [.bytes (emission.opcode :: operands)])
    (has : form.HasOpcode emission.opcode.toNat)
    (takes : (readForm site form).Takes operands instruction) :
    ∃ operands, bytes = emission.opcode :: operands ∧
      (readOperands site emission.opcode.toNat).TakesAt (site.offset + 1) operands instruction :=
  ⟨operands, encodes.eq_of_single single, takesAt_operands_of_form has (takes.at _)⟩

/-- A branch of either size is read as one to the offset of its label. -/
theorem exists_operands_of_branch {emission : Emission} { isWide : Bool}
    {make : Nat → Instruction} (encodes : assembler.Encodes (site.offset, emission) bytes)
    (split : emission.pieces site.offset =
      [.bytes [emission.opcode], .distance site.offset label isWide])
    (has : form.HasOpcode emission.opcode.toNat)
    (reads : readForm site form =
      (do return make (← readBranch site (Piece.distance site.offset label isWide).size)))
    (placed : assembler.offset? label = some target) (inside : target < site.codeLength)
    (standing : site.offset < site.codeLength) (short : site.codeLength ≤ 0xffff) :
    ∃ operands, bytes = emission.opcode :: operands ∧
      (readOperands site emission.opcode.toNat).TakesAt (site.offset + 1) operands
        (make target) := by
  obtain ⟨parts, resolved, split⟩ := encodes.eq_cons split
  obtain _ | ⟨here, ⟨⟩⟩ := resolved
  refine ⟨_, split, takesAt_operands_of_form has ?_⟩
  rw [reads, List.nil_append, List.flatten_cons, List.flatten_nil, List.append_nil]
  exact (takes_branch here placed inside standing short).making.at _

/-- The decoder makes of an instruction's bytes what it means. -/
theorem exists_operands (site : Site) {emission : Emission}
    (encodes : assembler.Encodes (site.offset, emission) bytes)
    (means : emission.Means site.pool assembler.offset? instruction)
    (inside : ∀ label ∈ emission.labels, ∀ target, assembler.offset? label = some target →
      target < site.codeLength)
    (standing : site.offset < site.codeLength) (short : site.codeLength ≤ 0xffff)
    (part : bytes.length ≤ site.codeLength) :
    ∃ operands, bytes = emission.opcode :: operands ∧
      (readOperands site emission.opcode.toNat).TakesAt (site.offset + 1) operands
        instruction := by
  cases means with
  | plain form => exact exists_operands_of_single encodes rfl form (Reader.takes_pure _)
  | smallConstant form =>
    rw [← Int32.ofInt_int8ToInt]
    exact exists_operands_of_single encodes rfl form (Reader.takes_signedByte _).making
  | smallPoolIndex form found =>
    exact exists_operands_of_single encodes rfl form
      ((Reader.takes_byte _).bind_nil (Reader.takes_ofExcept found).making)
  | localVariable form =>
    exact exists_operands_of_single encodes rfl form (Reader.takes_byte _).making
  | primitiveArray form known =>
    refine exists_operands_of_single encodes rfl form ((Reader.takes_byte _).bind_nil ?_)
    rw [known]
    exact Reader.takes_pure _
  | @largeConstant opcode operand form =>
    rw [← Int32.ofInt_int16ToInt]
    exact exists_operands_of_single encodes rfl form (Reader.takes_signedShort operand).making
  | @poolIndex opcode operand value form found =>
    exact exists_operands_of_single encodes rfl form
      (Reader.takes_followed operand.toNat_lt found).making
  | @field opcode operand make field form found =>
    exact exists_operands_of_single encodes rfl form
      (Reader.takes_followed operand.toNat_lt found).making
  | @method opcode operand make method isInterface form found =>
    exact exists_operands_of_single encodes rfl form
      (Reader.takes_followed operand.toNat_lt found).making
  | @classOperand opcode operand make name form found =>
    exact exists_operands_of_single encodes rfl form
      (Reader.takes_followed operand.toNat_lt found).making
  | byteConstant value =>
    have form : Form.HasOpcode .byteConstant byteOpcode.toNat := .byteConstant
    rw [← Int32.ofInt_int8ToInt]
    exact exists_operands_of_single encodes rfl form (Reader.takes_signedByte value.toUInt8).making
  | shortConstant value =>
    have form : Form.HasOpcode .shortConstant shortOpcode.toNat := .shortConstant
    rw [← Int32.ofInt_int16ToInt]
    exact exists_operands_of_single encodes rfl form
      (Reader.takes_signedShort value.toUInt16).making
  | increment index delta =>
    have form : Form.HasOpcode .increment incrementOpcode.toNat := .increment
    exact exists_operands_of_single encodes rfl form
      ((Reader.takes_byte index).bind (Reader.takes_signedByte delta.toUInt8).making)
  | @invokeInterface index count method found =>
    have form : Form.HasOpcode .interfaceMethod interfaceCallOpcode.toNat := .invokeInterface
    exact exists_operands_of_single encodes rfl form
      ((Reader.takes_followed index.toNat_lt found).bind
        ((Reader.takes_byte count).bind (Reader.takes_byte 0).making))
  | @branch opcode label target make form placed =>
    have near := inside label List.mem_cons_self target placed
    exact exists_operands_of_branch encodes rfl form rfl placed near standing short
  | @wideBranch opcode label target make form placed =>
    have near := inside label List.mem_cons_self target placed
    exact exists_operands_of_branch encodes rfl form rfl placed near standing short
  | tableSwitch filled last placed allPlaced =>
    obtain ⟨parts, resolved, split⟩ := encodes.eq_cons rfl
    have form : Form.HasOpcode .tableSwitch tableSwitchOpcode.toNat := .tableSwitch
    refine ⟨_, split, takesAt_operands_of_form form ?_⟩
    exact takesAt_tableSwitch resolved filled last placed allPlaced inside standing short
  | lookupSwitch placed allPlaced =>
    obtain ⟨parts, resolved, split⟩ := encodes.eq_cons rfl
    have form : Form.HasOpcode .lookupSwitch lookupSwitchOpcode.toNat := .lookupSwitch
    refine ⟨_, split, takesAt_operands_of_form form ?_⟩
    rw [split, List.length_cons, List.length_append] at part
    exact takesAt_lookupSwitch resolved (by omega) placed allPlaced inside standing short

/-- An instruction is read where it stands. -/
theorem takesAt_instruction (standing : site.offset < 0x10000)
    (takes : (readOperands site opcode.toNat).TakesAt (site.offset + 1) operands instruction) :
    (readInstruction site.pool site.codeLength).TakesAt site.offset (opcode :: operands)
      ⟨site.offset, opcode.toNat, instruction⟩ := by
  intro rest
  refine bindState_eq_ok.mpr ⟨_, _, rfl, ?_⟩
  rw [Nat.mod_eq_of_lt standing]
  have operand := takes.within (.instructionAt site.offset)
  exact (((Reader.takes_byte opcode).at site.offset).bind operand.making) rest

end Operands

/-! ## Programs -/

section Programs

variable {pool : ConstantPool} {calls : List Call} {bytes : List UInt8}

/-- The positions at which instructions start. -/
def Assembler.starts (assembler : Assembler) (calls : List Call) : List Nat :=
  (assembler.emissions calls).map Prod.fst

/-- Every instruction means something, and names only labels that are bound to the start of an
instruction. -/
def IsWellFormed (pool : ConstantPool) (calls : List Call) : Prop :=
  ∀ entry ∈ empty.emissions calls,
    (∃ instruction, entry.2.Means pool (empty.performAll calls).offset? instruction) ∧
      ∀ label ∈ entry.2.labels, ∃ start ∈ empty.starts calls,
        (empty.performAll calls).offset? label = some start

/-- What the decoder finds at an instruction of a program. -/
def IsDecoded (pool : ConstantPool) (calls : List Call) (entry : Nat × Emission)
    (placed : Placed) : Prop :=
  placed.offset = entry.1 ∧ placed.opcode = entry.2.opcode.toNat ∧
    entry.2.Means pool (empty.performAll calls).offset? placed.instruction

theorem one_le_size (origin : Nat) (emission : Emission) :
    1 ≤ ((emission.pieces origin).map Piece.size).sum := by
  cases emission <;> simp [Emission.pieces, Piece.size] <;> omega

theorem position_le_performAll (assembler : Assembler) (calls : List Call) :
    assembler.position ≤ (assembler.performAll calls).position := by
  rw [position_eq_sum, position_eq_sum, toList_pieces_performAll, List.map_append,
    List.sum_append]
  exact Nat.le_add_right _ _

/-- Instructions start inside of the code. -/
theorem start_lt {assembler : Assembler} {start : Nat}
    (member : start ∈ assembler.starts calls) :
    start < (assembler.performAll calls).position := by
  induction calls generalizing assembler with
  | nil => cases member
  | cons call rest ih =>
    cases call with
    | newLabel => exact ih member
    | bind label => exact ih member
    | emit emission =>
      rcases List.mem_cons.mp member with rfl | later
      · have advance := position_perform assembler emission
        have enough := one_le_size assembler.position emission
        have onward := position_le_performAll (emission.perform assembler) rest
        exact Nat.lt_of_lt_of_le (by omega) onward
      · exact ih later

/-- Each instruction of a program is read from its bytes. -/
theorem exists_takesAt_instruction {origin codeLength : Nat} {emission : Emission}
    {chunk : List UInt8} (formed : IsWellFormed pool calls)
    (whole : codeLength = (empty.performAll calls).position) (short : codeLength ≤ 0xffff)
    (member : (origin, emission) ∈ empty.emissions calls)
    (encodes : (empty.performAll calls).Encodes (origin, emission) chunk)
    (part : chunk.length ≤ codeLength) :
    ∃ placed, (readInstruction pool codeLength).TakesAt origin chunk placed ∧
      IsDecoded pool calls (origin, emission) placed := by
  obtain ⟨⟨instruction, means⟩, bound⟩ := formed _ member
  have standing : origin < codeLength := whole ▸ start_lt (List.mem_map_of_mem member)
  have inside (label : Label) (named : label ∈ emission.labels) (target : Nat)
      (placed : (empty.performAll calls).offset? label = some target) : target < codeLength := by
    obtain ⟨start, begins, found⟩ := bound label named
    obtain rfl : start = target := Option.some.inj (found.symm.trans placed)
    exact whole ▸ start_lt begins
  have small : origin < 0x10000 := Nat.lt_of_lt_of_le standing (Nat.le_succ_of_le short)
  obtain ⟨operands, rfl, takes⟩ :=
    exists_operands ⟨pool, codeLength, origin⟩ encodes means inside standing short part
  have read := takesAt_instruction small takes
  exact ⟨_, read, rfl, rfl, means⟩

/-- An instruction that stands in front is read before the others. -/
theorem readAll_of_takesAt {codeLength fuel position : Nat} {chunk rest : List UInt8}
    {placed : Placed} {listing : List Placed} {after : Cursor} (filled : chunk ≠ [])
    (takes : (readInstruction pool codeLength).TakesAt position chunk placed)
    (read : readAll pool codeLength fuel ⟨position + chunk.length, rest⟩ = .ok (listing, after)) :
    readAll pool codeLength (fuel + 1) ⟨position, chunk ++ rest⟩ =
      .ok (placed :: listing, after) := by
  have unfinished : (chunk ++ rest).isEmpty = false := by simp [filled]
  rw [readAll]
  refine bindState_eq_ok.mpr ⟨false, ⟨position, chunk ++ rest⟩, ?_, ?_⟩
  · rw [Reader.atEnd, unfinished]
  rw [if_neg Bool.false_ne_true]
  refine bindState_eq_ok.mpr ⟨placed, _, takes _, ?_⟩
  exact bindState_eq_ok.mpr ⟨listing, after, read, rfl⟩

/-- Instructions that are read from their bytes are read one after the other. -/
theorem exists_readAll {codeLength fuel : Nat} {assembler : Assembler}
    {related : Nat × Emission → Placed → Prop} {chunks : List (List UInt8)}
    (chunked : List.Forall₂ (fun entry chunk =>
      chunk.length = ((entry.2.pieces entry.1).map Piece.size).sum ∧
        ∃ placed, (readInstruction pool codeLength).TakesAt entry.1 chunk placed ∧
          related entry placed) (assembler.emissions calls) chunks)
    (enough : chunks.flatten.length ≤ fuel) :
    ∃ listing after,
      readAll pool codeLength fuel ⟨assembler.position, chunks.flatten⟩ = .ok (listing, after) ∧
        List.Forall₂ related (assembler.emissions calls) listing := by
  induction calls generalizing assembler chunks fuel with
  | nil =>
    cases chunked
    refine ⟨[], ⟨assembler.position, []⟩, ?_, .nil⟩
    cases fuel <;> rfl
  | cons call rest ih =>
    cases call with
    | newLabel => exact ih chunked enough
    | bind label => exact ih chunked enough
    | emit emission =>
      obtain _ | @⟨_, chunk, _, chunks, ⟨length, placed, takes, here⟩, later⟩ := chunked
      have advance := position_perform assembler emission
      have filled : 1 ≤ chunk.length := length ▸ one_le_size assembler.position emission
      rw [List.flatten_cons, List.length_append] at enough
      obtain ⟨fuel, rfl⟩ : ∃ less, fuel = less + 1 := ⟨fuel - 1, by omega⟩
      obtain ⟨listing, after, read, others⟩ :=
        ih later (show chunks.flatten.length ≤ fuel by omega)
      refine ⟨placed :: listing, after, ?_, .cons here others⟩
      rw [advance, ← length] at read
      exact readAll_of_takesAt (List.ne_nil_of_length_pos filled) takes read

/-- **Assembling and then decoding gives back the program.**  Every instruction that was emitted is
decoded, in order and at the position before its call, with its operands and with the offsets that
its labels are bound to. -/
theorem decode_of_finish (formed : IsWellFormed pool calls) (short : bytes.length ≤ 0xffff)
    (finished : (empty.performAll calls).finish = .ok bytes) :
    ∃ listing, Bytecode.decode bytes pool = .ok listing ∧
      List.Forall₂ (IsDecoded pool calls) (empty.emissions calls) listing := by
  obtain ⟨chunks, encodes, rfl⟩ := exists_encodes_of_finish finished
  have whole : chunks.flatten.length = (empty.performAll calls).position := by
    rw [length_flatten_of_encodes encodes, position_eq_sum, toList_pieces_performAll]
    rfl
  have chunked : List.Forall₂ (fun entry chunk =>
      chunk.length = ((entry.2.pieces entry.1).map Piece.size).sum ∧
        ∃ placed, (readInstruction pool chunks.flatten.length).TakesAt entry.1 chunk placed ∧
          IsDecoded pool calls entry placed) (empty.emissions calls) chunks := by
    obtain ⟨lengths, each⟩ := List.forall₂_iff_zip.mp encodes
    refine List.forall₂_iff_zip.mpr ⟨lengths, fun {entry chunk} paired => ?_⟩
    obtain ⟨member, listed⟩ := List.of_mem_zip paired
    have part := (List.sublist_flatten_of_mem listed).length_le
    exact ⟨(each paired).length_eq,
      exists_takesAt_instruction formed whole short member (each paired) part⟩
  obtain ⟨listing, after, read, decoded⟩ := exists_readAll chunked (Nat.le_refl _)
  refine ⟨listing, ?_, decoded⟩
  have start : Cursor.start chunks.flatten = ⟨empty.position, chunks.flatten⟩ := rfl
  rw [Bytecode.decode, Reader.runOn, start, read]

end Programs

/-! ## A program with switches and branches -/

/-- A pool with a class. -/
def switchingPool : ConstantPool :=
  ⟨#[none, some (.utf8 (.ofString "A")), some (.classInfo 1)]⟩

/-- Two switches that are padded differently, and branches in both directions. -/
def switching : List Call :=
  [.newLabel, .newLabel, .newLabel,
    .bind 0,
    .emit (.byteConstant 1),
    .emit (.tableSwitch 1 (-1) [0, 2]),
    .bind 1,
    .emit (.op 0x04),
    .emit (.lookupSwitch 2 [(7, 0)]),
    .bind 2,
    .emit (.opWord 0xbb 2),
    .emit (.branch 0xc6 0),
    .emit (.wideBranch 0xc8 1),
    .emit (.op 0xb1)]

/-- Its code. -/
def switchingBytes : List UInt8 :=
  [0x10, 1,
    0xaa, 0, 0, 0, 0, 22, 0xff, 0xff, 0xff, 0xff, 0, 0, 0, 0,
      0xff, 0xff, 0xff, 0xfe, 0, 0, 0, 42,
    0x04,
    0xab, 0, 0, 0, 0, 0, 19, 0, 0, 0, 1, 0, 0, 0, 7, 0xff, 0xff, 0xff, 0xe7,
    0xbb, 0, 2,
    0xc6, 0xff, 0xd1,
    0xc8, 0xff, 0xff, 0xff, 0xe6,
    0xb1]

theorem emissions_switching : empty.emissions switching =
    [(0, .byteConstant 1), (2, .tableSwitch 1 (-1) [0, 2]), (24, .op 0x04),
      (25, .lookupSwitch 2 [(7, 0)]), (44, .opWord 0xbb 2), (47, .branch 0xc6 0),
      (50, .wideBranch 0xc8 1), (55, .op 0xb1)] :=
  rfl

theorem isWellFormed_switching : IsWellFormed switchingPool switching := by
  have table : Emission.Means switchingPool (empty.performAll switching).offset?
      (.tableSwitch 1 (-1) [0, 2]) (.tableSwitch 24 (-1) 0 [0, 44]) :=
    .tableSwitch (by decide) (by decide) rfl (.cons rfl (.cons rfl .nil))
  rw [IsWellFormed, starts, emissions_switching]
  simp only [List.forall_mem_cons]
  refine ⟨⟨⟨_, .byteConstant 1⟩, by decide⟩, ⟨⟨_, table⟩, by decide⟩,
    ⟨⟨.constInt 1, .plain (.constInt (by decide) (by decide) rfl)⟩, by decide⟩,
    ⟨⟨_, .lookupSwitch rfl (.cons ⟨rfl, rfl⟩ .nil)⟩, by decide⟩,
    ⟨⟨_, .classOperand .new rfl⟩, by decide⟩, ⟨⟨_, .branch .ifNull rfl⟩, by decide⟩,
    ⟨⟨_, .wideBranch .wideGoto rfl⟩, by decide⟩, ⟨⟨_, .plain .leave⟩, by decide⟩, by simp⟩

theorem finish_switching : (empty.performAll switching).finish = .ok switchingBytes :=
  ok_of_toOption (by decide +kernel)

/-- All of it is decoded. -/
theorem decode_of_finish_switching :
    IsWellFormed switchingPool switching ∧ switchingBytes.length ≤ 0xffff ∧
      (empty.performAll switching).finish = .ok switchingBytes ∧
      ∃ listing, Bytecode.decode switchingBytes switchingPool = .ok listing ∧
        List.Forall₂ (IsDecoded switchingPool switching) (empty.emissions switching) listing :=
  ⟨isWellFormed_switching, by decide, finish_switching,
    decode_of_finish isWellFormed_switching (by decide) finish_switching⟩

end Assembly

end Bytescript
