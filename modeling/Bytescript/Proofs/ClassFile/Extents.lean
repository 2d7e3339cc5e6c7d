import Bytescript.ClassFile.Bytecode
import Bytescript.Proofs.Binary.Extent

/-!
# The extents of instructions

An opcode says how many bytes of operands follow it.  Only the switches, which have tables, and the
instructions with wide operands, which name another opcode, say so by their operands.  Decoding puts
the instructions of a method one behind the other, each over as many bytes as that, from the first
byte of the code to the last one.

Every target that is decoded lies inside of the code, and a switch over a range of keys has a target
for each of them.
-/

set_option autoImplicit false

namespace Bytescript

open Binary

/-! ## Offsets -/

/-- Offsets that grow from one instruction to the next. -/
def Ascending (instructions : List Placed) : Prop :=
  instructions.Pairwise fun one other => one.offset < other.offset

section Ascending

variable {instructions : List Placed} {place other : Nat} {one two : Placed}

theorem Ascending.offset_lt (ascending : Ascending instructions)
    (here : instructions[place]? = some one) (there : instructions[other]? = some two)
    (earlier : place < other) : one.offset < two.offset := by
  obtain ⟨_, rfl⟩ := List.getElem?_eq_some_iff.mp here
  obtain ⟨_, rfl⟩ := List.getElem?_eq_some_iff.mp there
  exact List.pairwise_iff_getElem.mp ascending place other _ _ earlier

/-- Different instructions stand at different offsets. -/
theorem Ascending.place_inj (ascending : Ascending instructions)
    (here : instructions[place]? = some one) (there : instructions[other]? = some two)
    (same : one.offset = two.offset) : place = other := by
  rcases Nat.lt_trichotomy place other with earlier | equal | later
  · exact absurd same (Nat.ne_of_lt (ascending.offset_lt here there earlier))
  · exact equal
  · exact absurd same.symm (Nat.ne_of_lt (ascending.offset_lt there here later))

end Ascending

/-! ## Sizes -/

/-- How the operands of an opcode are stored. -/
inductive Width where
  | fixed (bytes : Nat)
  | range
  | listed
  | widened
  deriving DecidableEq

/-- The bytes of operands that follow each opcode. -/
def Width.ofOpcode (opcode : Nat) : Width :=
  if opcode = 0xaa then range
  else if opcode = 0xab then listed
  else if opcode = 0xc4 then widened
  else if opcode = 0x10 ∨ opcode = 0x12 ∨ 0x15 ≤ opcode ∧ opcode ≤ 0x19 ∨
      0x36 ≤ opcode ∧ opcode ≤ 0x3a ∨ opcode = 0xa9 ∨ opcode = 0xbc then fixed 1
  else if 0x11 ≤ opcode ∧ opcode ≤ 0x14 ∨ opcode = 0x84 ∨ 0x99 ≤ opcode ∧ opcode ≤ 0xa8 ∨
      0xb2 ≤ opcode ∧ opcode ≤ 0xb8 ∨ opcode = 0xbb ∨ opcode = 0xbd ∨
      0xc0 ≤ opcode ∧ opcode ≤ 0xc1 ∨ 0xc6 ≤ opcode ∧ opcode ≤ 0xc7 then fixed 2
  else if opcode = 0xc5 then fixed 3
  else if 0xb9 ≤ opcode ∧ opcode ≤ 0xba ∨ 0xc8 ≤ opcode ∧ opcode ≤ 0xc9 then fixed 4
  else fixed 0

/-- The bytes of operands behind an opcode at an offset.  The operands of a switch begin at a
multiple of four with its default target. -/
def Width.bytes (offset : Nat) : Width → Instruction → Nat
  | fixed bytes, _ => bytes
  | range, .tableSwitch _ _ _ targets => 3 - offset % 4 + 12 + 4 * targets.length
  | listed, .lookupSwitch _ pairs => 3 - offset % 4 + 8 + 8 * pairs.length
  | widened, .increment _ _ => 5
  | widened, _ => 3
  | _, _ => 0

/-- How many bytes an instruction takes, the opcode included. -/
def Placed.size (placed : Placed) : Nat :=
  1 + (Width.ofOpcode placed.opcode).bytes placed.offset placed.instruction

theorem Placed.size_pos (placed : Placed) : 0 < placed.size := Nat.lt_add_right _ Nat.one_pos

/-- The width of each form. -/
def Form.width : Form → Width
  | plain _ => .fixed 0
  | byteConstant | smallPoolIndex | localVariable _ | primitiveArray => .fixed 1
  | shortConstant | poolIndex | increment | branch _ | field _ | method _ | classOperand _ =>
    .fixed 2
  | multiArray => .fixed 3
  | wideBranch _ | interfaceMethod | dynamicCall => .fixed 4
  | tableSwitch => .range
  | lookupSwitch => .listed
  | wide => .widened

/-- The forms are listed so that each opcode has its width. -/
theorem Form.width_of_ofOpcode? {opcode : Nat} {form : Form}
    (found : Form.ofOpcode? opcode = some form) : form.width = Width.ofOpcode opcode := by
  have all : Form.all.map Form.width = (List.range 202).map Width.ofOpcode := by decide +kernel
  have here := congrArg (fun widths => widths[opcode]?) all
  rw [Form.ofOpcode?] at found
  have inside : opcode < 202 := (List.getElem?_eq_some_iff.mp found).1
  simpa [found, List.getElem?_range inside] using here

/-! ## What forms make -/

/-- What is made of the operands of a form goes where the form says, and nowhere else. -/
def Form.IsProper : Form → Prop
  | plain instruction => instruction.branchTargets = []
  | localVariable make => ∀ index, (make index).branchTargets = [] ∧
    ∀ other delta, make index ≠ .increment other delta
  | branch make | wideBranch make => ∀ target, (make target).branchTargets = [target] ∧
    ∀ default low high targets, make target ≠ .tableSwitch default low high targets
  | field make => ∀ field, (make field).branchTargets = []
  | method make => ∀ method isInterface, (make method isInterface).branchTargets = []
  | classOperand make => ∀ name, (make name).branchTargets = []
  | _ => True

namespace Form

theorem isProper_constants : ∀ form ∈ constants, form.IsProper := by
  simp [constants, IsProper, Instruction.branchTargets]

theorem isProper_accesses : ∀ form ∈ accesses, form.IsProper := by
  simp [accesses, shortAccess, kinds, elements, IsProper, Instruction.branchTargets]

theorem isProper_stackForms : ∀ form ∈ stackForms, form.IsProper := by
  simp [stackForms, IsProper, Instruction.branchTargets]

theorem isProper_computations : ∀ form ∈ computations, form.IsProper := by
  simp [computations, numerics, integrals, IsProper, Instruction.branchTargets]

theorem isProper_transfers : ∀ form ∈ transfers, form.IsProper := by
  simp [transfers, comparisons, kinds, IsProper, Instruction.branchTargets]

theorem isProper_objects : ∀ form ∈ objects, form.IsProper := by
  simp [objects, IsProper, Instruction.branchTargets]

theorem isProper_of_ofOpcode? {opcode : Nat} {form : Form} (found : ofOpcode? opcode = some form) :
    form.IsProper := by
  have member : form ∈ all := List.mem_of_getElem? found
  rw [all] at member
  simp only [List.mem_append] at member
  rcases member with ((((member | member) | member) | member) | member) | member
  · exact isProper_constants form member
  · exact isProper_accesses form member
  · exact isProper_stackForms form member
  · exact isProper_computations form member
  · exact isProper_transfers form member
  · exact isProper_objects form member

end Form

/-! ## Operands -/

namespace Bytecode

open Reader

/-- An instruction that was made of a number of bytes of operands. -/
structure Fits (site : Site) (width : Width) (size : Nat) (instruction : Instruction) : Prop where
  size : size = width.bytes site.offset instruction
  targets : ∀ target ∈ instruction.branchTargets, target < site.codeLength
  complete : ∀ {default : Nat} {low high : Int32} {targets : List Nat},
    instruction = .tableSwitch default low high targets →
      low ≤ high ∧ (targets.length : Int) = high.toInt - low.toInt + 1

variable {site : Site} {position size : Nat} {instruction : Instruction} {width : Width}

/-- An instruction that does not branch. -/
theorem fits_of_straight (straight : instruction.branchTargets = [])
    (exact : size = width.bytes site.offset instruction) : Fits site width size instruction where
  size := exact
  targets target member := by
    rw [straight] at member
    cases member
  complete same := by
    subst same
    cases straight

/-- An instruction with one target. -/
theorem fits_of_branch {target : Nat} (goes : instruction.branchTargets = [target])
    (single : ∀ default low high targets, instruction ≠ .tableSwitch default low high targets)
    (inside : target < site.codeLength) (exact : size = width.bytes site.offset instruction) :
    Fits site width size instruction where
  size := exact
  targets other member := by
    rw [goes, List.mem_singleton] at member
    exact member ▸ inside
  complete same := absurd same (single _ _ _ _)

theorem Width.bytes_widened {offset : Nat}
    (plain : ∀ index delta, instruction ≠ .increment index delta) :
    Width.widened.bytes offset instruction = 3 := by
  cases instruction with
  | increment index delta => exact absurd rfl (plain index delta)
  | _ => rfl

theorem lt_of_target {distance : Int} {target : Nat} (found : site.target distance = .ok target) :
    target < site.codeLength := by
  simp only [Site.target] at found
  split at found
  · cases found
  · cases found
    have := Nat.mod_le ((site.offset : Int) + distance).toNat 0x10000
    omega

theorem occupies_readBranch (site : Site) (bytes position : Nat) :
    (readBranch site bytes).Occupies position fun size target =>
      size = bytes ∧ target < site.codeLength :=
  (occupies_signed bytes).bind fun _ _ same => occupies_ofExcept fun _ found =>
    ⟨same, lt_of_target found⟩

theorem occupies_readPool {α : Type} (resolve : Nat → Except Failure α) (position : Nat) :
    (readPool resolve).Occupies position fun size _ => size = 2 :=
  (occupies_word _).bind fun _ _ same => occupies_ofExcept fun _ _ => same

/-- The padding leads to the next multiple of four. -/
theorem occupies_align (offset : Nat) :
    align.Occupies (offset + 1) fun size _ => size = 3 - offset % 4 := by
  intro rest value after read
  obtain ⟨_, _, here, read⟩ := bindState_eq_ok.mp read
  cases here
  obtain ⟨bytes, passes, takes, length⟩ := occupies_skip _ rest value after read
  refine ⟨bytes, passes, fun other => bindState_eq_ok.mpr ⟨_, _, rfl, takes other⟩, ?_⟩
  rw [length]
  show (4 - (offset + 1) % 4) % 4 = 3 - offset % 4
  omega

theorem occupies_readTableSwitch (site : Site) : (readTableSwitch site).Occupies (site.offset + 1)
    (Fits site .range) := by
  refine (occupies_align _).bind fun padding _ aligned => (occupies_readBranch site 4 _).bind
    fun first default ⟨one, inside⟩ => occupies_i32.bind fun second low two =>
      occupies_i32.bind fun third high three => ?_
  split
  · exact occupies_ofExcept fun _ none => nomatch none
  next ordered =>
    refine (Occupies.times (occupies_readBranch site 4) _ _).bind fun others targets filled => ?_
    obtain ⟨four, length, within⟩ := filled
    refine occupies_pure ⟨?_, List.forall_mem_cons.mpr ⟨inside, within⟩, ?_⟩
    · rw [aligned, one, two, three, four, Width.bytes, length]
      omega
    · rintro _ _ _ _ ⟨⟩
      refine ⟨Int32.le_iff_toInt_le.mpr (Int.not_lt.mp ordered), ?_⟩
      rw [length]
      omega

theorem occupies_readLookupSwitch (site : Site) :
    (readLookupSwitch site).Occupies (site.offset + 1) (Fits site .listed) := by
  have case (position : Nat) : (readCase site).Occupies position fun size pair =>
      size = 8 ∧ pair.2 < site.codeLength :=
    occupies_i32.bind fun _ key one => (occupies_readBranch site 4 _).bind
      fun _ target ⟨two, inside⟩ => occupies_pure ⟨by rw [one, two], inside⟩
  refine (occupies_align _).bind fun padding _ aligned => (occupies_readBranch site 4 _).bind
    fun first default ⟨one, inside⟩ => occupies_i32.bind fun second count two => ?_
  split
  · exact occupies_ofExcept fun _ none => nomatch none
  · refine (Occupies.times case _ _).bind fun others pairs filled => ?_
    obtain ⟨three, length, within⟩ := filled
    refine occupies_pure ⟨?_, ?_, fun same => nomatch same⟩
    · rw [aligned, one, two, three, Width.bytes, length]
      omega
    · refine List.forall_mem_cons.mpr ⟨inside, List.forall_mem_map.mpr within⟩

theorem occupies_readWide (site : Site) :
    (readWide site).Occupies (site.offset + 1) (Fits site .widened) := by
  refine (occupies_word _).bind fun first opcode one => ?_
  split
  next make found =>
    have proper := Form.isProper_of_ofOpcode? found
    refine (occupies_word _).bind fun second index two => occupies_pure ?_
    refine fits_of_straight (proper index).1 ?_
    rw [Width.bytes_widened (proper index).2, one, two]
    rfl
  next =>
    refine (occupies_word _).bind fun second index two =>
      (occupies_signed 2).bind fun third delta three => occupies_pure ?_
    exact fits_of_straight rfl (by rw [one, two, three]; rfl)
  next => exact occupies_ofExcept fun _ none => nomatch none

/-- The operands of a form are as many as its width tells, and make an instruction that stays
inside of the code. -/
theorem occupies_readForm {form : Form} (proper : form.IsProper) :
    (readForm site form).Occupies (site.offset + 1) (Fits site form.width) := by
  cases form with
  | plain instruction => exact occupies_pure (fits_of_straight proper rfl)
  | byteConstant | shortConstant =>
    exact (occupies_signed _).bind fun _ _ same => occupies_pure (fits_of_straight rfl same)
  | smallPoolIndex =>
    exact (occupies_word _).bind fun _ _ same => (occupies_nothing _).bind
      fun _ _ none => occupies_pure (fits_of_straight rfl (by rw [same, none]; rfl))
  | poolIndex =>
    exact (occupies_readPool _ _).bind fun _ _ same => occupies_pure (fits_of_straight rfl same)
  | localVariable make =>
    exact (occupies_word _).bind fun _ index same =>
      occupies_pure (fits_of_straight (proper index).1 same)
  | increment =>
    exact (occupies_word _).bind fun _ _ one => (occupies_signed 1).bind fun _ _ two =>
      occupies_pure (fits_of_straight rfl (by rw [one, two]; rfl))
  | branch make | wideBranch make =>
    exact (occupies_readBranch site _ _).bind fun _ target ⟨same, inside⟩ =>
      occupies_pure (fits_of_branch (proper target).1 (proper target).2 inside same)
  | tableSwitch => exact occupies_readTableSwitch site
  | lookupSwitch => exact occupies_readLookupSwitch site
  | field make | classOperand make =>
    exact (occupies_readPool _ _).bind fun _ operand same =>
      occupies_pure (fits_of_straight (proper operand) same)
  | method make =>
    exact (occupies_readPool _ _).bind fun _ operand same =>
      occupies_pure (fits_of_straight (proper operand.1 operand.2) same)
  | interfaceMethod =>
    exact (occupies_readPool _ _).bind fun _ _ one => (occupies_word _).bind fun _ _ two =>
      (occupies_word _).bind fun _ _ three =>
        occupies_pure (fits_of_straight rfl (by rw [one, two, three]; rfl))
  | dynamicCall =>
    exact (occupies_word _).bind fun _ _ one => (occupies_nothing _).bind
      fun _ _ none => (occupies_word _).bind fun _ _ two => (occupies_word _).bind
        fun _ _ three => occupies_pure (fits_of_straight rfl (by rw [one, none, two, three]; rfl))
  | primitiveArray =>
    refine (occupies_word _).bind fun _ tag same => ?_
    split
    · exact occupies_pure (fits_of_straight rfl same)
    · exact occupies_ofExcept fun _ none => nomatch none
  | multiArray =>
    exact (occupies_readPool _ _).bind fun _ _ one => (occupies_word _).bind fun _ _ two =>
      occupies_pure (fits_of_straight rfl (by rw [one, two]; rfl))
  | wide => exact occupies_readWide site

theorem occupies_readOperands (site : Site) (opcode : Nat) :
    (readOperands site opcode).Occupies (site.offset + 1) (Fits site (.ofOpcode opcode)) := by
  rw [readOperands]
  split
  next form found =>
    rw [← Form.width_of_ofOpcode? found]
    exact occupies_readForm (Form.isProper_of_ofOpcode? found)
  next => exact occupies_ofExcept fun _ none => nomatch none

/-! ## Instructions in a row -/

variable {pool : ConstantPool} {codeLength : Nat} {bytes rest : List UInt8} {placed : Placed}
  {instructions : List Placed} {after : Cursor}

/-- An instruction that is decoded of some bytes of the code, where these stand. -/
structure Stands (pool : ConstantPool) (codeLength position : Nat) (bytes : List UInt8)
    (placed : Placed) : Prop where
  offset : placed.offset = position
  takes : (readInstruction pool codeLength).TakesAt position bytes placed
  opcode : bytes.head?.map UInt8.toNat = some placed.opcode
  size : bytes.length = placed.size
  targets : ∀ target ∈ placed.instruction.branchTargets, target < codeLength
  complete : ∀ {default : Nat} {low high : Int32} {targets : List Nat},
    placed.instruction = .tableSwitch default low high targets →
      low ≤ high ∧ (targets.length : Int) = high.toInt - low.toInt + 1

/-- What is read as an instruction stands there. -/
theorem stands_of_readInstruction (standing : position < 0x10000)
    (read : readInstruction pool codeLength ⟨position, rest⟩ = .ok (placed, after)) :
    ∃ bytes, Cursor.Passes ⟨position, rest⟩ bytes after ∧
      Stands pool codeLength position bytes placed := by
  rw [readInstruction, bindState_eq_ok] at read
  obtain ⟨_, _, here, read⟩ := read
  cases here
  rw [Nat.mod_eq_of_lt standing] at read
  obtain ⟨opcode, between, first, read⟩ := bindState_eq_ok.mp read
  obtain ⟨instruction, last, operands, made⟩ := bindState_eq_ok.mp read
  cases made
  obtain ⟨small, passes⟩ := word_eq_ok first
  have place := passes.position
  rw [length_bigEndianBytes] at place
  obtain ⟨_, left⟩ := between
  obtain rfl : _ = position + 1 := place
  obtain ⟨bytes, passes', takes, fits⟩ :=
    ((occupies_readOperands ⟨pool, codeLength, position⟩ opcode).within _) left _ _ operands
  refine ⟨_, passes.append passes', rfl, fun other => ?_, ?_, ?_, fits.targets, fits.complete⟩
  · refine bindState_eq_ok.mpr ⟨_, _, rfl, ?_⟩
    rw [Nat.mod_eq_of_lt standing]
    exact (((takes_word_bigEndianBytes ⟨1, false⟩ small).at position).bind takes.making) other
  · have byte : (UInt8.ofNat (opcode % 0x100)).toNat = opcode := by
      rw [UInt8.toNat_ofNat']
      exact (Nat.mod_mod _ _).trans (Nat.mod_eq_of_lt small)
    exact congrArg some byte
  · rw [List.length_append, length_bigEndianBytes, fits.size]
    rfl

/-- Instructions that stand one behind the other, from a position on to the end of some bytes. -/
inductive Row (pool : ConstantPool) (codeLength : Nat) :
    (position : Nat) → List UInt8 → List Placed → Prop where
  | nil {position : Nat} : Row pool codeLength position [] []
  | cons {position : Nat} {bytes rest : List UInt8} {placed : Placed} {others : List Placed}
    (first : Stands pool codeLength position bytes placed)
    (later : Row pool codeLength (position + bytes.length) rest others) :
    Row pool codeLength position (bytes ++ rest) (placed :: others)

/-- All bytes are read, each step taking at least one of them. -/
theorem row_of_readAll {fuel : Nat} (short : position + rest.length ≤ 0xffff)
    (enough : rest.length ≤ fuel)
    (read : readAll pool codeLength fuel ⟨position, rest⟩ = .ok (instructions, after)) :
    Row pool codeLength position rest instructions := by
  induction fuel generalizing position rest instructions with
  | zero =>
    cases read
    rw [List.length_eq_zero_iff.mp (Nat.le_zero.mp enough)]
    exact .nil
  | succ fuel ih =>
    rw [readAll, bindState_eq_ok] at read
    obtain ⟨_, _, here, read⟩ := read
    cases here
    cases rest with
    | nil =>
      cases read
      exact .nil
    | cons byte rest =>
      obtain ⟨placed, between, first, read⟩ := bindState_eq_ok.mp read
      obtain ⟨others, last, later, made⟩ := bindState_eq_ok.mp read
      cases made
      rw [List.length_cons] at short enough
      obtain ⟨bytes, passes, stands⟩ := stands_of_readInstruction (by omega) first
      obtain ⟨place, left⟩ := between
      obtain rfl : place = position + bytes.length := passes.position
      have whole : byte :: rest = bytes ++ left := passes.rest
      have filled : 0 < bytes.length := stands.size.symm ▸ placed.size_pos
      have length := congrArg List.length whole
      rw [List.length_cons, List.length_append] at length
      rw [whole]
      exact .cons stands (ih (by omega) (by omega) later)

/-- Where an instruction ends: at the next one, or at the end of the code. -/
def endOf (instructions : List Placed) (codeLength index : Nat) : Nat :=
  (instructions[index + 1]?.map Placed.offset).getD codeLength

theorem Row.head? (row : Row pool codeLength position bytes instructions) :
    instructions.head?.map Placed.offset = bytes.head?.map fun _ => position := by
  cases row with
  | nil => rfl
  | cons first later =>
    rename_i bytes rest placed others
    cases bytes with
    | nil => cases first.opcode
    | cons byte bytes => exact congrArg some first.offset

/-- Each instruction of a row stands over a part of the bytes, up to where it ends. -/
theorem Row.exists_part (row : Row pool codeLength position bytes instructions) {index : Nat}
    (here : instructions[index]? = some placed) :
    ∃ front part back, bytes = front ++ part ++ back ∧
      placed.offset = position + front.length ∧
      Stands pool codeLength placed.offset part placed ∧
      endOf instructions (position + bytes.length) index = placed.offset + placed.size := by
  induction row generalizing index with
  | nil => cases here
  | @cons position part rest first others stands later ih =>
    cases index with
    | zero =>
      cases here
      refine ⟨[], part, rest, rfl, stands.offset, stands.offset.symm ▸ stands, ?_⟩
      rw [endOf, List.getElem?_cons_succ, ← List.head?_eq_getElem?, later.head?, stands.offset,
        ← stands.size]
      cases rest <;> simp
    | succ index =>
      obtain ⟨front, inner, back, split, place, stands', ends⟩ := ih here
      refine ⟨part ++ front, inner, back, by rw [split]; simp, ?_, stands', ?_⟩
      · rw [place, List.length_append, Nat.add_assoc]
      · rw [List.length_append, ← Nat.add_assoc]
        exact ends

theorem Row.le_offset (row : Row pool codeLength position bytes instructions) :
    ∀ placed ∈ instructions, position ≤ placed.offset := by
  induction row with
  | nil => exact List.forall_mem_nil _
  | cons first later ih =>
    refine List.forall_mem_cons.mpr ⟨Nat.le_of_eq first.offset.symm, fun placed member => ?_⟩
    exact Nat.le_trans (Nat.le_add_right _ _) (ih placed member)

/-- Every instruction takes at least a byte, so the next one stands behind it. -/
theorem Row.ascending (row : Row pool codeLength position bytes instructions) :
    Ascending instructions := by
  induction row with
  | nil => exact .nil
  | @cons position bytes _ first _ stands later ih =>
    refine .cons (fun placed member => ?_) ih
    have filled : 0 < bytes.length := stands.size.symm ▸ first.size_pos
    have behind := later.le_offset placed member
    rw [stands.offset]
    omega

/-! ## Whole methods -/

/-- Instructions that cover bytecode from its first byte to its last one. -/
structure Covers (pool : ConstantPool) (bytecode : List UInt8) (instructions : List Placed) :
    Prop where
  /-- The first instruction is at the first byte, and there is one if there is any code. -/
  first : instructions.head?.map Placed.offset = bytecode.head?.map fun _ => 0
  ascending : Ascending instructions
  /-- As many bytes as an instruction takes lie between its offset and the next one. -/
  extent : ∀ {index : Nat} {placed : Placed}, instructions[index]? = some placed →
    endOf instructions bytecode.length index = placed.offset + placed.size
  /-- It is these bytes that are read as the instruction, whatever stands behind them. -/
  bytes : ∀ placed ∈ instructions, (readInstruction pool bytecode.length).TakesAt placed.offset
    ((bytecode.drop placed.offset).take placed.size) placed
  opcode : ∀ placed ∈ instructions,
    bytecode[placed.offset]?.map UInt8.toNat = some placed.opcode
  targets : ∀ placed ∈ instructions, ∀ target ∈ placed.instruction.branchTargets,
    target < bytecode.length
  /-- A switch has a target for each key of its range. -/
  complete : ∀ placed ∈ instructions, ∀ {default : Nat} {low high : Int32} {targets : List Nat},
    placed.instruction = .tableSwitch default low high targets →
      low ≤ high ∧ (targets.length : Int) = high.toInt - low.toInt + 1

theorem Row.covers {bytecode : List UInt8}
    (row : Row pool bytecode.length 0 bytecode instructions) :
    Covers pool bytecode instructions := by
  have each {placed : Placed} (member : placed ∈ instructions) :
      ∃ front part back, bytecode = front ++ part ++ back ∧ placed.offset = front.length ∧
        Stands pool bytecode.length placed.offset part placed := by
    obtain ⟨index, here⟩ := List.getElem?_of_mem member
    obtain ⟨front, part, back, split, place, stands, _⟩ := row.exists_part here
    exact ⟨front, part, back, split, place.trans (Nat.zero_add _), stands⟩
  exact {
    first := row.head?
    ascending := row.ascending
    extent := fun here => by
      obtain ⟨_, _, _, _, _, _, ends⟩ := row.exists_part here
      rwa [Nat.zero_add] at ends
    bytes := fun placed member => by
      obtain ⟨front, part, back, split, place, stands⟩ := each member
      have cut : (bytecode.drop placed.offset).take placed.size = part := by
        rw [split, place, List.append_assoc, List.drop_left, ← stands.size, List.take_left]
      exact cut ▸ stands.takes
    opcode := fun placed member => by
      obtain ⟨front, part, back, split, place, stands⟩ := each member
      have begins := stands.opcode
      cases part with
      | nil => cases begins
      | cons byte part =>
        rw [split, place, List.append_assoc, List.getElem?_append_right (Nat.le_refl _),
          Nat.sub_self]
        exact begins
    targets := fun placed member => by
      obtain ⟨_, _, _, _, _, stands⟩ := each member
      exact stands.targets
    complete := fun placed member => by
      obtain ⟨_, _, _, _, _, stands⟩ := each member
      exact stands.complete }

theorem row_of_decode {bytecode : List UInt8} (short : bytecode.length ≤ 0xffff)
    (decoded : decode bytecode pool = .ok instructions) :
    Row pool bytecode.length 0 bytecode instructions := by
  rw [decode] at decoded
  split at decoded
  next read =>
    cases decoded
    exact row_of_readAll (by rwa [Nat.zero_add]) (Nat.le_refl _) read
  · cases decoded

theorem decode_ascending {bytecode : List UInt8}
    (decoded : decode bytecode pool = .ok instructions) (short : bytecode.length ≤ 0xffff) :
    Ascending instructions :=
  (row_of_decode short decoded).ascending

/-- **Decoded instructions cover the bytecode.**  They stand one behind the other from the first
byte to the last one, each over the bytes that it was decoded of, and only branch inside of the
code. -/
theorem decode_covers {bytecode : List UInt8} (short : bytecode.length ≤ 0xffff)
    (decoded : decode bytecode pool = .ok instructions) : Covers pool bytecode instructions :=
  (row_of_decode short decoded).covers

/-- A switch that is padded, and counts up a variable or returns. -/
def countingSwitch : List UInt8 :=
  [0x1a,
    0xaa, 0, 0, 0, 0, 0, 32, 0, 0, 0, 0, 0, 0, 0, 1, 0, 0, 0, 23, 0, 0, 0, 32,
    0xc4, 0x84, 0, 1, 0xff, 0xff,
    0xa7, 0xff, 0xfa,
    0xb1]

/-- All of it is covered. -/
theorem decode_countingSwitch_covers : countingSwitch.length ≤ 0xffff ∧
    ∃ instructions, decode countingSwitch ⟨#[]⟩ = .ok instructions ∧
      instructions.map Placed.offset = [0, 1, 24, 30, 33] ∧
      Covers ⟨#[]⟩ countingSwitch instructions := by
  have decoded : decode countingSwitch ⟨#[]⟩ = .ok
      [⟨0, 0x1a, .load .int 0⟩, ⟨1, 0xaa, .tableSwitch 33 0 1 [24, 33]⟩,
        ⟨24, 0xc4, .increment 1 (-1)⟩, ⟨30, 0xa7, .goto 24⟩, ⟨33, 0xb1, .leave none⟩] :=
    ok_of_toOption (by decide +kernel)
  exact ⟨by decide, _, decoded, rfl, decode_covers (by decide) decoded⟩

end Bytecode

end Bytescript
