import Bytescript.Proofs.ClassFile.SwitchTables
import Bytescript.Proofs.Flow.Tiling
import Bytescript.Proofs.Translation.Body
import Bytescript.Proofs.Translation.Holders

/-!
# What switches choose

The table of a switch is transformed three times: it is decoded into targets for a range of keys or
for listed keys, the keys of a range are numbered by additions to the least one, and the cases are
grouped by the blocks that they lead to.  After all of that the switch still does what the bytes of
the method say.  It lists the keys that they list, each of them once, it has one default, and for
every value of its key variable it goes on with the block at the target that they give.
-/

set_option autoImplicit false

namespace Bytescript

open Bytescript.Flow Script Execution
open Bytecode (RangeAt ListedAt SwitchAt lowAt countAt rangeKeys rangeTarget listedKeys
  listedTarget nodup_rangeKeys rangeTarget_of_mem rangeTarget_of_notMem listedTarget_keyAt
  listedTarget_of_notMem)

/-! ## The labels of cases -/

/-- The keys of all cases, in the order in which they are written. -/
def Script.Cases.keys : Cases → List Int32
  | .nil => []
  | .cons keys _ _ rest => keys ++ rest.keys

/-- How many of the cases are the default. -/
def Script.Cases.defaults : Cases → Nat
  | .nil => 0
  | .cons _ isDefault _ rest => rest.defaults + isDefault.toNat

namespace Translation

namespace CaseGroup

variable {key : Int32} {target default : Nat} {groups : List CaseGroup} {jump : Jump}

theorem flatMap_keys_insert : ((insert key target groups).flatMap CaseGroup.keys).Perm
    (groups.flatMap CaseGroup.keys ++ [key]) := by
  fun_induction insert key target groups with
  | case1 => exact .refl _
  | case2 group rest same =>
    rw [List.flatMap_cons, List.flatMap_cons, List.append_assoc, List.append_assoc]
    exact List.perm_append_comm.append_left _
  | case3 group rest different ih =>
    rw [List.flatMap_cons, List.flatMap_cons, List.append_assoc]
    exact ih.append_left _

theorem flatMap_keys_foldl (cases : List (Int32 × Nat)) (groups : List CaseGroup) :
    ((cases.foldl (fun groups (key, target) => insert key target groups) groups).flatMap
      CaseGroup.keys).Perm (groups.flatMap CaseGroup.keys ++ cases.map Prod.fst) := by
  induction cases generalizing groups with
  | nil =>
    rw [List.map_nil, List.append_nil]
    exact .refl _
  | cons first rest ih =>
    rw [List.map_cons, List.append_cons]
    exact (ih _).trans (flatMap_keys_insert.append_right _)

theorem flatMap_keys_insertDefault :
    (insertDefault target groups).flatMap CaseGroup.keys = groups.flatMap CaseGroup.keys := by
  fun_induction insertDefault target groups with
  | case1 => rfl
  | case2 group rest same => rfl
  | case3 group rest different ih => rw [List.flatMap_cons, List.flatMap_cons, ih]

/-- Grouping the cases only puts their keys into another order. -/
theorem flatMap_keys_ofCases (cases : List (Int32 × Nat)) (default : Nat) :
    ((ofCases cases default).flatMap CaseGroup.keys).Perm (cases.map Prod.fst) := by
  rw [ofCases, flatMap_keys_insertDefault]
  exact flatMap_keys_foldl cases []

theorem countP_insertDefault (plain : ∀ group ∈ groups, group.isDefault = false) :
    (insertDefault target groups).countP CaseGroup.isDefault = 1 := by
  have none {others : List CaseGroup} (plain : ∀ group ∈ others, group.isDefault = false) :
      others.countP CaseGroup.isDefault = 0 :=
    List.countP_eq_zero.mpr fun group member => by rw [plain group member]; exact Bool.false_ne_true
  fun_induction insertDefault target groups with
  | case1 => rfl
  | case2 group rest same =>
    rw [List.countP_cons_of_pos rfl, none (List.forall_mem_cons.mp plain).2]
  | case3 group rest different ih =>
    obtain ⟨here, plain⟩ := List.forall_mem_cons.mp plain
    rw [List.countP_cons_of_neg (by rw [here]; exact Bool.false_ne_true), ih plain]

theorem keys_casesOf {code : Cases} (made : casesOf jump groups = .ok code) :
    code.keys = groups.flatMap CaseGroup.keys := by
  induction groups generalizing code with
  | nil =>
    cases made
    rfl
  | cons group rest ih =>
    obtain ⟨body, _, made⟩ := bind_eq_ok.mp made
    obtain ⟨behind, there, made⟩ := bind_eq_ok.mp made
    cases made
    rw [Cases.keys, List.flatMap_cons, ih there]

theorem defaults_casesOf {code : Cases} (made : casesOf jump groups = .ok code) :
    code.defaults = groups.countP CaseGroup.isDefault := by
  induction groups generalizing code with
  | nil =>
    cases made
    rfl
  | cons group rest ih =>
    obtain ⟨body, _, made⟩ := bind_eq_ok.mp made
    obtain ⟨behind, there, made⟩ := bind_eq_ok.mp made
    cases made
    rw [Cases.defaults, ih there, List.countP_cons]
    cases group.isDefault <;> rfl

end CaseGroup

/-! ## Cases that mean what bytes say -/

/-- Cases and a default with some keys that lead where a function says. -/
structure CasesMean (keys : List Int) (target : Int → Int) (cases : List (Int32 × Nat))
    (default : Nat) : Prop where
  keys : cases.map (fun entry => entry.1.toInt) = keys
  distinct : (cases.map Prod.fst).Nodup
  target : ∀ value : Int32, (switchTarget cases default value : Int) = target value.toInt

section Meaning

variable {bytecode : List UInt8} {offset default : Nat} {keys : List Int} {target : Int → Int}
  {cases pairs : List (Int32 × Nat)} {low high : Int32} {targets : List Nat}

/-- It is enough to know where each case leads, and that all other values lead to the default. -/
theorem casesMean_of_listed (same : cases.map (fun entry => entry.1.toInt) = keys)
    (distinct : keys.Nodup) (listed : ∀ entry ∈ cases, (entry.2 : Int) = target entry.1.toInt)
    (other : ∀ value ∉ keys, target value = default) : CasesMean keys target cases default := by
  have each : (cases.map Prod.fst).map Int32.toInt = keys := by
    rw [← same, List.map_map]
    rfl
  have once : (cases.map Prod.fst).Nodup := .of_map Int32.toInt (each ▸ distinct)
  refine ⟨same, once, fun value => ?_⟩
  by_cases known : value ∈ cases.map Prod.fst
  · obtain ⟨entry, member, rfl⟩ := List.mem_map.mp known
    rw [switchTarget_of_mem once member, listed entry member]
  · rw [switchTarget_of_not_mem known, other]
    rw [← each, List.mem_map_of_injective fun _ _ => Int32.toInt_inj.mp]
    exact known

/-- Numbering the keys of a range never wraps around. -/
theorem toInt_add_ofNat (low high : Int32) {index : Nat}
    (inside : (index : Int) ≤ high.toInt - low.toInt) :
    (low + Int32.ofNat index).toInt = low.toInt + index := by
  have least := low.le_toInt
  have greatest := high.toInt_lt
  have size : Int32.size = 2 ^ 32 := rfl
  rw [Int32.toInt_add, Int32.toInt_ofNat', Int.add_bmod_bmod, size]
  apply Int.bmod_eq_of_le <;> omega

theorem getElem?_tableCases (low : Int32) (targets : List Nat) (index : Nat) :
    (tableCases low targets)[index]? =
      targets[index]?.map fun target => (low + Int32.ofNat index, target) := by
  simp [tableCases, List.getElem?_zipIdx, Function.comp_def]

theorem casesMean_range (stands : RangeAt bytecode offset default low high targets) :
    CasesMean (rangeKeys bytecode offset) (rangeTarget bytecode offset) (tableCases low targets)
      default := by
  obtain ⟨first, least, greatest, length, leads⟩ := stands
  -- The case at an index has the key at that index of the range.
  have key {index : Nat} (inside : index < targets.length) :
      (low + Int32.ofNat index).toInt = lowAt bytecode offset + index := by
    rw [← least]
    exact toInt_add_ofNat low high (by omega)
  have same : (tableCases low targets).map (fun entry => entry.1.toInt) =
      rangeKeys bytecode offset := by
    refine List.ext_getElem? fun index => ?_
    rw [rangeKeys, List.getElem?_map, List.getElem?_map, getElem?_tableCases, ← length]
    by_cases inside : index < targets.length
    · simp [inside, key inside]
    · simp [inside]
  refine casesMean_of_listed same nodup_rangeKeys (fun entry member => ?_) fun value => ?_
  · obtain ⟨index, here⟩ := List.getElem?_of_mem member
    have listed : entry.1.toInt ∈ rangeKeys bytecode offset :=
      same ▸ List.mem_map_of_mem member
    rw [getElem?_tableCases] at here
    obtain ⟨target, there, rfl⟩ := Option.map_eq_some_iff.mp here
    rw [key (List.getElem?_eq_some_iff.mp there).1] at listed ⊢
    rw [leads index target there, rangeTarget_of_mem listed]
  · intro outside
    rw [first, rangeTarget_of_notMem outside]

theorem casesMean_listed (stands : ListedAt bytecode offset default pairs)
    (distinct : (listedKeys bytecode offset).Nodup) :
    CasesMean (listedKeys bytecode offset) (listedTarget bytecode offset) pairs default := by
  obtain ⟨first, length, leads⟩ := stands
  have same : pairs.map (fun entry => entry.1.toInt) = listedKeys bytecode offset := by
    refine List.ext_getElem? fun index => ?_
    rw [listedKeys, List.getElem?_map, List.getElem?_map, ← length]
    by_cases inside : index < pairs.length
    · have key := (leads index _ (List.getElem?_eq_getElem inside)).1
      simp [inside, key]
    · simp [inside]
  refine casesMean_of_listed same distinct (fun entry member => ?_) fun value outside => ?_
  · obtain ⟨index, here⟩ := List.getElem?_of_mem member
    obtain ⟨key, target⟩ := leads index entry here
    have inside : index < (countAt bytecode offset).toNat :=
      length ▸ (List.getElem?_eq_some_iff.mp here).1
    rw [key, target, listedTarget_keyAt distinct inside]
  · rw [first, listedTarget_of_notMem outside]

end Meaning

/-! ## The code of a switch -/

variable {scope : Scope} {flow : ControlFlow} {codes : Codes} {jump : Jump} {skeleton : Skeleton}
  {keys : List Int} {target : Int → Int} {cases : List (Int32 × Nat)} {default : Nat}

/-- Cases of a switch that list some keys, each of them once, with one default among them.  For
every value, code goes on with the block that starts where a function says. -/
structure Chooses (flow : ControlFlow) (jump : Jump) (keys : List Int) (target : Int → Int)
    (code : Cases) : Prop where
  keys : (code.keys.map Int32.toInt).Perm keys
  distinct : code.keys.Nodup
  default : code.defaults = 1
  selects : ∀ value : Int32, ∃ (offset block : Nat) (body : Skeleton) (behind : Cases),
    (offset : Int) = target value.toInt ∧ blockAt? flow.blocks offset = some block ∧
      jump block = .ok body ∧ selectCase value code = some (body, behind)

theorem exists_chooses (mean : CasesMean keys target cases default) {key : Variable}
    (made : exitSkeleton flow jump (.switch key cases default) = .ok skeleton) :
    ∃ code, skeleton = .switch key code ∧ Chooses flow jump keys target code := by
  obtain ⟨located, same, made⟩ := bind_eq_ok.mp made
  obtain ⟨first, last, made⟩ := bind_eq_ok.mp made
  obtain ⟨code, grouped, made⟩ := bind_eq_ok.mp made
  cases made
  have same := locate_eq_ok.mp same
  have last := blockStarting_eq_ok.mp last
  have named : cases.map Prod.fst = located.map Prod.fst :=
    List.forall₂_eq_eq_eq ▸ List.forall₂_map_left_iff.mpr (List.forall₂_map_right_iff.mpr
      (same.imp fun _ _ here => here.1))
  have written : code.keys.Perm (cases.map Prod.fst) := by
    rw [CaseGroup.keys_casesOf grouped, named]
    exact CaseGroup.flatMap_keys_ofCases located first
  refine ⟨code, rfl, ?_, written.nodup_iff.mpr mean.distinct, ?_, fun value => ?_⟩
  · have all := written.map Int32.toInt
    rw [List.map_map] at all
    exact mean.keys ▸ all
  · rw [CaseGroup.defaults_casesOf grouped]
    exact CaseGroup.countP_insertDefault (CaseGroup.group_cases located).plain
  · obtain ⟨body, behind, selected, jumps⟩ := CaseGroup.selectCase_casesOf grouped value
    exact ⟨_, _, body, behind, mean.target value, blockAt?_switchTarget same last value, jumps,
      selected⟩

/-! ## Blocks that end with a switch -/

/-- The cases of a switch and its default. -/
def switchCases? : Instruction → Option (List (Int32 × Nat) × Nat)
  | .tableSwitch default low _ targets => some (tableCases low targets, default)
  | .lookupSwitch default pairs => some (pairs, default)
  | _ => none

variable {instruction : Instruction} {instructions : List Placed} {placed : Placed}

theorem translate_of_switchCases? (site : Site)
    (found : switchCases? instruction = some (cases, default)) :
    translate site instruction = switches site cases default := by
  cases instruction <;> cases found <;> rfl

theorem fallsThrough_of_switchCases? (found : switchCases? instruction = some (cases, default)) :
    instruction.fallsThrough = false := by
  cases instruction <;> cases found <;> rfl

/-- The code of a block comes from the stack that the block is entered with. -/
theorem exists_translateBlock (wellBuilt : flow.WellBuilt)
    (translated : translateBlocks scope flow = .ok codes) {block : Nat} {code : BlockCode}
    (coded : codes.getD block none = some code) :
    ∃ content entry left, flow.blocks[block]? = some content ∧
      translateBlock scope content entry = .ok (code, left) := by
  obtain ⟨progress, steps, _, rfl⟩ := steps_of_translateBlocks wellBuilt translated
  have sound := steps.sound wellBuilt (Progress.start_sound wellBuilt)
  obtain ⟨content, entry, left, here, _, made, _⟩ := sound.settled coded
  exact ⟨content, entry, left, here, made⟩

/-- A run of instructions is left as its last instruction says, and with the stack that this one
leaves. -/
theorem exists_translate_last {block : Block} {run : List Placed} {last : Placed}
    {stack after : Stack} {effect : Effect} (ends : run.getLast? = some last)
    (finished : translateRun scope block run stack = .ok (effect, after)) :
    ∃ before final, translate (scope.site block last) last.instruction before =
      .ok (final, after) ∧ effect.exit = final.exit := by
  fun_induction translateRun scope block run generalizing stack effect with
  | case1 => cases ends
  | case2 only =>
    cases ends
    exact ⟨stack, effect, finished, rfl⟩
  | case3 placed rest more ih =>
    rw [List.getLast?_cons_of_ne_nil more] at ends
    obtain ⟨first, middle, _, finished⟩ := bindState_eq_ok.mp finished
    obtain ⟨later, _, ran, made⟩ := bindState_eq_ok.mp finished
    cases made
    obtain ⟨before, final, last, exit⟩ := ih ends ran
    exact ⟨before, final, last, exit⟩

/-- A block that ends with a switch is left by the value that the switch takes from the stack. -/
theorem exit_of_translateBlock {content : Block} {entry left : Stack} {code : BlockCode}
    (ends : content.body.getLast? = some placed)
    (found : switchCases? placed.instruction = some (cases, default))
    (translated : translateBlock scope content entry = .ok (code, left)) :
    code.exit = .switch (.stack .int left.length) cases default := by
  obtain ⟨⟨effect, after⟩, finished, made⟩ := bind_eq_ok.mp translated
  cases made
  obtain ⟨before, final, last, exit⟩ := exists_translate_last ends finished
  rw [translate_of_switchCases? _ found] at last
  obtain ⟨key, rest, popped, ended⟩ := bindState_eq_ok.mp last
  obtain ⟨_, rfl⟩ := eq_cons_of_pop popped
  cases ended
  rw [exit]
  rfl

/-- An instruction after which execution never goes on with the next one is the last one of its
block. -/
theorem exists_block_of_fallsThrough {table : List ExceptionEntry} {codeLength : Nat}
    (builtFrom : flow.BuiltFrom instructions table codeLength) (member : placed ∈ instructions)
    (stays : placed.instruction.fallsThrough = false) :
    ∃ (block : Nat) (content : Block), flow.blocks[block]? = some content ∧
      content.body.getLast? = some placed := by
  obtain ⟨place, found⟩ := List.getElem?_of_mem member
  obtain ⟨block, content, here, holds⟩ :=
    builtFrom.exists_holds (List.getElem?_eq_some_iff.mp found).1
  have ends : ¬content.Holds (place + 1) := fun more =>
    Bool.false_ne_true (stays.symm.trans (builtFrom.straight here holds more found).2)
  exact ⟨block, content, here, (builtFrom.getLast?_of_holds here holds ends).trans found⟩

/-! ## From bytes to script -/

/-- What is decoded of a switch means what its bytes say. -/
theorem exists_casesMean {pool : ConstantPool} {bytecode : List UInt8}
    (covers : Bytecode.Covers pool bytecode instructions) (short : bytecode.length ≤ 0xffff)
    (member : placed ∈ instructions) (stands : SwitchAt bytecode placed.offset keys target) :
    ∃ cases default, switchCases? placed.instruction = some (cases, default) ∧
      CasesMean keys target cases default := by
  cases stands with
  | range opens =>
    obtain ⟨default, low, high, targets, same, decoded⟩ :=
      covers.exists_rangeAt short member opens
    exact ⟨_, default, by rw [same]; rfl, casesMean_range decoded⟩
  | listed opens distinct =>
    obtain ⟨default, pairs, same, decoded⟩ := covers.exists_listedAt short member opens
    exact ⟨pairs, default, by rw [same]; rfl, casesMean_listed decoded distinct⟩

/-- The code of a block ends with a switch over a variable, in whatever form it is written.  The
cases list some keys and go on where a function leads, and so do the walks that runs follow. -/
structure EndsWithSwitch (flow : ControlFlow) (codes : Codes) (block : Nat) (code : BlockCode)
    (key : Variable) (keys : List Int) (target : Int → Int) : Prop where
  nested : ∀ {jump : Jump} {skeleton : Skeleton},
    guardedBlock flow codes jump block = .ok skeleton →
      ∃ recovery cases, Chooses flow jump keys target cases ∧
        skeleton = .andThen (.block block code.statements recovery) (.switch key cases)
  beside : ∃ cases, Chooses flow (dispatchJump flow) keys target cases ∧
    dispatchCase flow codes block = .ok (flow.start block,
      .andThen (.block block code.statements .rethrow) (.switch key cases))
  walks : ∀ {Thrown : Type} (oracle : Oracle Thrown) (history : History Thrown),
    ∃ offset next : Nat, (offset : Int) = target (oracle.value history key).toInt ∧
      blockAt? flow.blocks offset = some next ∧
      afterExit flow oracle history code.exit = .inside next

/-- How a switch with some keys and a function for its targets is translated. -/
structure KeepsSwitch (scope : Scope) (flow : ControlFlow) (codes : Codes) (placed : Placed)
    (keys : List Int) (target : Int → Int) : Prop where
  /-- The keys of a range are numbered without wrapping around. -/
  numbered : ∀ {default : Nat} {low high : Int32} {targets : List Nat},
    placed.instruction = .tableSwitch default low high targets →
      ∀ index < targets.length, (low + Int32.ofNat index).toInt = low.toInt + index
  /-- The switch ends a block.  If that is translated, its code ends with a switch over the variable
  of the value that is taken from the stack. -/
  written : ∃ (block : Nat) (content : Block), flow.blocks[block]? = some content ∧
    content.body.getLast? = some placed ∧ ∀ code, codes.getD block none = some code →
      ∃ entry left, translateBlock scope content entry = .ok (code, left) ∧
        EndsWithSwitch flow codes block code (.stack .int left.length) keys target
  body : ∃ body, bodyOf flow codes = .ok body

theorem endsWithSwitch (wellBuilt : flow.WellBuilt) (translated : Translated flow codes)
    {block : Nat} {code : BlockCode} {key : Variable} (coded : codes.getD block none = some code)
    (exits : code.exit = .switch key cases default) (mean : CasesMean keys target cases default) :
    EndsWithSwitch flow codes block code key keys target where
  nested := by
    intro jump skeleton made
    obtain ⟨code', recovery, exit, coded', _, left, rfl⟩ := guardedBlock_eq_ok.mp made
    cases coded.symm.trans coded'
    rw [exits] at left
    obtain ⟨cases, rfl, chooses⟩ := exists_chooses mean left
    exact ⟨recovery, cases, chooses, rfl⟩
  beside := by
    have jumps : ∀ offset ∈ code.exit.targets, ∃ target, blockAt? flow.blocks offset = some target ∧
        ∃ body, dispatchJump flow target = .ok body := fun offset member => by
      obtain ⟨next, _, here⟩ := translated.exists_next wellBuilt coded member
      exact ⟨next, here, _, rfl⟩
    obtain ⟨exit, left⟩ := exists_exitSkeleton jumps
    have whole := left
    rw [exits] at left
    obtain ⟨cases, rfl, chooses⟩ := exists_chooses mean left
    exact ⟨cases, chooses, bind_eq_ok.mpr ⟨code, codeOf_eq_ok.mpr coded,
      bind_eq_ok.mpr ⟨_, whole, rfl⟩⟩⟩
  walks := by
    intro Thrown oracle history
    have member : switchTarget cases default (oracle.value history key) ∈ code.exit.targets := by
      rw [exits]
      exact switchTarget_mem_targets ..
    obtain ⟨next, _, here⟩ := translated.exists_next wellBuilt coded member
    refine ⟨_, next, mean.target _, here, ?_⟩
    rw [exits]
    exact arriveAt_of_blockAt? here

/-- **Switches keep their meaning.**  A switch in the bytes of a method that is translated becomes a
switch that lists the same keys, each of them once, with one default, and that goes on with the
block at the same target for every value. -/
theorem prepare_keepsSwitch {pool : ConstantPool} {code : Code}
    (prepared : prepare scope pool code = .ok (flow, codes))
    (decoded : code.decode pool = .ok instructions) (member : placed ∈ instructions)
    (stands : SwitchAt code.bytecode placed.offset keys target) :
    KeepsSwitch scope flow codes placed keys target := by
  have wellBuilt := wellBuilt_of_prepare prepared
  obtain ⟨_, decoded', built, translated⟩ := prepare_eq_ok.mp prepared
  cases decoded.symm.trans decoded'
  have builtFrom := ControlFlow.build_builtFrom built
  have covers := Bytecode.decode_covers builtFrom.short decoded
  have coded := translated_of_prepare prepared
  obtain ⟨cases, default, found, mean⟩ :=
    exists_casesMean covers builtFrom.short member stands
  obtain ⟨block, content, here, ends⟩ :=
    exists_block_of_fallsThrough builtFrom member (fallsThrough_of_switchCases? found)
  refine ⟨?_, ⟨block, content, here, ends, fun code known => ?_⟩, exists_bodyOf wellBuilt coded⟩
  · intro default low high targets same index inside
    obtain ⟨_, length⟩ := covers.complete placed member same
    exact toInt_add_ofNat low high (by omega)
  · obtain ⟨content', entry, left, here', made⟩ := exists_translateBlock wellBuilt translated known
    cases here.symm.trans here'
    have exits := exit_of_translateBlock ends found made
    exact ⟨entry, left, made, endsWithSwitch wellBuilt coded known exits mean⟩

/-- A switch over the two greatest keys, and one over listed keys that are not in order.  In both of
them, a key leads to the default. -/
def twoSwitches : Code where
  maxStack := 1
  maxLocals := 1
  bytecode := [0x1a,
    0xaa, 0, 0, 0, 0, 0, 51, 0x7f, 0xff, 0xff, 0xfe, 0x7f, 0xff, 0xff, 0xff,
    0, 0, 0, 23, 0, 0, 0, 51,
    0x1a,
    0xab, 0, 0, 0, 0, 0, 28, 0, 0, 0, 2,
    0, 0, 0, 5, 0, 0, 0, 28, 0xff, 0xff, 0xff, 0xff, 0, 0, 0, 27,
    0xb1,
    0xb1]
  exceptionTable := []
  lineNumbers := []

/-- Every block is translated, and both switches keep their meaning. -/
theorem prepare_twoSwitches_keepsSwitch :
    ∃ flow codes, prepare lone .empty twoSwitches = .ok (flow, codes) ∧
      (codes.all Option.isSome = true ∧ codes.size = 4) ∧
      (KeepsSwitch lone flow codes ⟨1, 0xaa, .tableSwitch 52 0x7ffffffe 0x7fffffff [24, 52]⟩
        [0x7ffffffe, 0x7fffffff] (rangeTarget twoSwitches.bytecode 1)) ∧
      KeepsSwitch lone flow codes ⟨25, 0xab, .lookupSwitch 53 [(5, 53), (-1, 52)]⟩
        [5, -1] (listedTarget twoSwitches.bytecode 25) := by
  obtain ⟨flow, codes, prepared, coded⟩ := exists_prepare lone .empty twoSwitches
    (fun _ codes => codes.all Option.isSome && codes.size == 4) (by decide +kernel)
  have decoded : twoSwitches.decode .empty = .ok
      [⟨0, 0x1a, .load .int 0⟩, ⟨1, 0xaa, .tableSwitch 52 0x7ffffffe 0x7fffffff [24, 52]⟩,
        ⟨24, 0x1a, .load .int 0⟩, ⟨25, 0xab, .lookupSwitch 53 [(5, 53), (-1, 52)]⟩,
        ⟨52, 0xb1, .leave none⟩, ⟨53, 0xb1, .leave none⟩] :=
    ok_of_toOption (by decide +kernel)
  have range : rangeKeys twoSwitches.bytecode 1 = [0x7ffffffe, 0x7fffffff] := by decide +kernel
  have listed : listedKeys twoSwitches.bytecode 25 = [5, -1] := by decide +kernel
  refine ⟨flow, codes, prepared, by simpa using coded, ?_, ?_⟩
  · exact prepare_keepsSwitch prepared decoded (by simp) (range ▸ .range (by decide +kernel))
  · refine prepare_keepsSwitch prepared decoded (by simp) ?_
    rw [← listed]
    exact .listed (by decide +kernel) (by rw [listed]; decide)

/-- The greatest key leads to the default, and the one below it to the second switch. -/
example : [0, 0x7ffffffe, 0x7fffffff].map (rangeTarget twoSwitches.bytecode 1) = [52, 24, 52] ∧
    [-1, 0, 5].map (listedTarget twoSwitches.bytecode 25) = [52, 53, 53] := by decide +kernel

end Translation

end Bytescript
