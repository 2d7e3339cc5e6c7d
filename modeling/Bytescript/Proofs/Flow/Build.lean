import Bytescript.Flow.ControlFlow
import Bytescript.Proofs.ClassFile.Extents
import Bytescript.Proofs.Flow.Shape
import Mathlib.Data.List.SplitBy

/-!
# What a flow that was built guarantees

Blocks are runs of consecutive instructions, none of them empty, so different blocks start at
different offsets.  The successors of a block are the blocks at the targets of its last
instruction, and the block behind it if that instruction can fall through.  The graph that is
analysed has an edge for each successor, and one more for each block that handles exceptions.
-/

set_option autoImplicit false

namespace Bytescript.Flow

/-! ## Blocks -/

theorem map_body_blocksOfRuns (codeEnd : Nat) (first : Nat) (runs : List (List Placed)) :
    (blocksOfRuns codeEnd first runs).map Block.body = runs := by
  fun_induction blocksOfRuns codeEnd first runs with
  | case1 => rfl
  | case2 first run => rfl
  | case3 first run next rest ih => rw [List.map_cons, ih]

theorem map_start_blocksOfRuns (codeEnd : Nat) (first : Nat) (runs : List (List Placed)) :
    (blocksOfRuns codeEnd first runs).map Block.start = runs.map startOf := by
  fun_induction blocksOfRuns codeEnd first runs with
  | case1 => rfl
  | case2 first run => rfl
  | case3 first run next rest ih => rw [List.map_cons, ih]; rfl

theorem startOf_eq {run : List Placed} (nonempty : run ≠ []) :
    ∃ placed ∈ run, startOf run = placed.offset := by
  cases run with
  | nil => exact absurd rfl nonempty
  | cons placed rest => exact ⟨placed, List.mem_cons_self, rfl⟩

/-- Blocks are listed by the offsets at which they start. -/
theorem cut_pairwise {codeEnd : Nat} {leaders : List Nat} {instructions : List Placed}
    (ascending : Ascending instructions) :
    (cut codeEnd leaders instructions).Pairwise fun one other => one.start < other.start := by
  rw [← List.pairwise_map, cut, map_start_blocksOfRuns, List.pairwise_map]
  have runs : (instructions.splitBy fun _ next => !leaders.contains next.offset).Pairwise
      fun one other => ∀ first ∈ one, ∀ second ∈ other, first.offset < second.offset := by
    rw [Ascending, ← List.flatten_splitBy (fun _ next => !leaders.contains next.offset)
      instructions, List.pairwise_flatten] at ascending
    exact ascending.2
  refine runs.imp_of_mem fun {one other} here there ordered => ?_
  obtain ⟨first, member, start⟩ := startOf_eq (List.ne_nil_of_mem_splitBy here)
  obtain ⟨second, member', start'⟩ := startOf_eq (List.ne_nil_of_mem_splitBy there)
  rw [start, start']
  exact ordered first member second member'

theorem body_ne_nil {codeEnd : Nat} {leaders : List Nat} {instructions : List Placed}
    {block : Block} (member : block ∈ cut codeEnd leaders instructions) : block.body ≠ [] := by
  have run := List.mem_map_of_mem (f := Block.body) member
  rw [cut, map_body_blocksOfRuns] at run
  exact List.ne_nil_of_mem_splitBy run

theorem cut_ne_nil {codeEnd : Nat} {leaders : List Nat} {instructions : List Placed}
    (nonempty : instructions ≠ []) : cut codeEnd leaders instructions ≠ [] := by
  intro none
  have runs := map_body_blocksOfRuns codeEnd 0
    (instructions.splitBy fun _ next => !leaders.contains next.offset)
  rw [← cut, none] at runs
  exact nonempty (List.splitBy_eq_nil.mp runs.symm)

/-! ## Where blocks lead to -/

theorem blockAt_eq_ok {blocks : Array Block} {offset index : Nat} :
    blockAt blocks offset = .ok index ↔ blockAt? blocks offset = some index := by
  rw [blockAt]
  split
  · simp_all
  · simp_all [malformed, failCompile]

theorem blockAt?_lt {blocks : Array Block} {offset index : Nat}
    (found : blockAt? blocks offset = some index) : index < blocks.size :=
  (Array.findIdx?_eq_some_iff_findIdx_eq.mp found).1

/-- The offsets at which execution may go on after a block, exceptions apart. -/
def Block.Continues (block : Block) (offset : Nat) : Prop :=
  ∃ last, block.body.getLast? = some last ∧
    (offset ∈ last.instruction.branchTargets ∨
      (last.instruction.fallsThrough = true ∧ offset = block.stop))

theorem blockAt?_of_forall₂ {blocks : Array Block} {offsets indices : List Nat}
    (found : List.Forall₂ (fun offset index => blockAt blocks offset = .ok index) offsets indices) :
    (∀ index ∈ indices, ∃ offset ∈ offsets, blockAt? blocks offset = some index) ∧
      ∀ offset ∈ offsets, ∃ index ∈ indices, blockAt? blocks offset = some index := by
  induction found with
  | nil => simp
  | @cons offset index _ _ here _ ih =>
    have here := blockAt_eq_ok.mp here
    refine ⟨List.forall_mem_cons.mpr ⟨⟨offset, List.mem_cons_self, here⟩, ?_⟩,
      List.forall_mem_cons.mpr ⟨⟨index, List.mem_cons_self, here⟩, ?_⟩⟩
    · intro other member
      obtain ⟨offset, listed, there⟩ := ih.1 other member
      exact ⟨offset, .tail _ listed, there⟩
    · intro other member
      obtain ⟨target, listed, there⟩ := ih.2 other member
      exact ⟨target, .tail _ listed, there⟩

/-- The successors of a block are exactly the blocks at which execution may go on after it. -/
theorem successorsOf_spec {blocks : Array Block} {count : Nat} {block : Block}
    {successors : List Nat} (found : successorsOf blocks count block = .ok successors) :
    (∀ target ∈ successors, ∃ offset, block.Continues offset ∧
        blockAt? blocks offset = some target) ∧
      ∀ offset, block.Continues offset →
        ∃ target ∈ successors, blockAt? blocks offset = some target := by
  rw [successorsOf] at found
  split at found
  next empty =>
    cases found
    refine ⟨by simp, ?_⟩
    rintro offset ⟨last, here, _⟩
    rw [empty] at here
    cases here
  next last here =>
    obtain ⟨targets, branches, found⟩ := bind_eq_ok.mp found
    obtain ⟨starts, reached⟩ := blockAt?_of_forall₂ (mapM_eq_ok.mp branches)
    have branch {target : Nat} (member : target ∈ targets) :
        ∃ offset, block.Continues offset ∧ blockAt? blocks offset = some target := by
      obtain ⟨offset, listed, found⟩ := starts target member
      exact ⟨offset, ⟨last, here, .inl listed⟩, found⟩
    split at found
    next falls =>
      split at found
      · cases found
      · obtain ⟨next, behind, found⟩ := bind_eq_ok.mp found
        cases found
        have behind := blockAt_eq_ok.mp behind
        constructor
        · intro target member
          rcases List.mem_append.mp (List.mem_eraseDups.mp member) with member | member
          · exact branch member
          · cases List.mem_singleton.mp member
            exact ⟨block.stop, ⟨last, here, .inr ⟨falls, rfl⟩⟩, behind⟩
        · rintro offset ⟨other, there, member | ⟨_, rfl⟩⟩
          · cases here.symm.trans there
            obtain ⟨target, listed, found⟩ := reached offset member
            exact ⟨target, List.mem_eraseDups.mpr (List.mem_append_left _ listed), found⟩
          · exact ⟨next, List.mem_eraseDups.mpr (by simp), behind⟩
    next stays =>
      cases found
      constructor
      · exact fun target member => branch (List.mem_eraseDups.mp member)
      · rintro offset ⟨other, there, member | ⟨falls, _⟩⟩
        · cases here.symm.trans there
          obtain ⟨target, listed, found⟩ := reached offset member
          exact ⟨target, List.mem_eraseDups.mpr listed, found⟩
        · cases here.symm.trans there
          exact absurd falls stays

/-- If execution falls out of a block, that is not the last one. -/
theorem last_ne_of_successorsOf {blocks : Array Block} {count : Nat} {block : Block}
    {successors : List Nat} (found : successorsOf blocks count block = .ok successors)
    {last : Placed} (ends : block.body.getLast? = some last)
    (falls : last.instruction.fallsThrough = true) : block.last ≠ count := by
  intro whole
  rw [successorsOf, ends] at found
  obtain ⟨targets, _, found⟩ := bind_eq_ok.mp found
  rw [if_pos falls, if_pos whole] at found
  cases found

/-- The handlers of a block are those of the entries that cover its start, one by one. -/
theorem handlersOf_spec {blocks : Array Block} {table : List ExceptionEntry} {block : Block}
    {handlers : List Handler} (found : handlersOf blocks table block = .ok handlers) :
    List.Forall₂ (fun entry handler => handler.catchType = entry.catchType ∧
        blockAt? blocks entry.handler = some handler.target)
      (table.filter fun entry => entry.covers block.start) handlers := by
  refine (mapM_eq_ok.mp found).imp fun entry handler here => ?_
  obtain ⟨target, found, same⟩ := bind_eq_ok.mp here
  cases same
  exact ⟨rfl, blockAt_eq_ok.mp found⟩

theorem blockEdges_eq_ok {blocks : Array Block} {count : Nat} {table : List ExceptionEntry}
    {block : Block} {edges : List Nat × List Handler} :
    blockEdges blocks count table block = .ok edges ↔
      successorsOf blocks count block = .ok edges.1 ∧
        handlersOf blocks table block = .ok edges.2 := by
  rw [blockEdges, bind_eq_ok]
  constructor
  · rintro ⟨successors, here, rest⟩
    obtain ⟨handlers, there, same⟩ := bind_eq_ok.mp rest
    cases same
    exact ⟨here, there⟩
  · rintro ⟨here, there⟩
    exact ⟨edges.1, here, bind_eq_ok.mpr ⟨edges.2, there, rfl⟩⟩

/-! ## Checks -/

/-- An instruction stands at an offset. -/
def Starts (instructions : List Placed) (offset : Nat) : Prop :=
  ∃ placed ∈ instructions, placed.offset = offset

theorem checkStart_eq_ok {instructions : List Placed} {offset site : Nat} {what : String} :
    checkStart instructions offset site what = .ok () ↔ Starts instructions offset := by
  have any : (instructions.any fun placed => placed.offset = offset) = true ↔
      Starts instructions offset := by simp [Starts]
  rw [checkStart]
  split
  next found => exact iff_of_true rfl (any.mp found)
  next missing => exact iff_of_false (by simp [malformed, failCompile]) (missing ∘ any.mpr)

theorem checkTargets_eq_ok {instructions : List Placed} :
    checkTargets instructions = .ok () ↔ ∀ placed ∈ instructions,
      ∀ target ∈ placed.instruction.branchTargets, Starts instructions target := by
  simp only [checkTargets, forM_eq_ok, checkStart_eq_ok]

theorem checkEntry_eq_ok {instructions : List Placed} {codeEnd : Nat} {entry : ExceptionEntry} :
    checkEntry instructions codeEnd entry = .ok () ↔
      ∀ offset ∈ boundaries codeEnd entry, Starts instructions offset := by
  rw [checkEntry, boundaries, check_eq_ok, checkStart_eq_ok]
  split
  next inside => simp [check_eq_ok, checkStart_eq_ok]
  next beyond => simp [checkStart_eq_ok]

/-! ## The flow of a method -/

namespace ControlFlow

/-- The entries of an exception table that cover anything. -/
def coveringEntries (table : List ExceptionEntry) : List ExceptionEntry :=
  table.filter fun entry => entry.start < entry.stop

/-- How a flow comes from instructions and an exception table. -/
structure BuiltFrom (flow : ControlFlow) (instructions : List Placed)
    (table : List ExceptionEntry) (codeLength : Nat) : Prop where
  occupied : instructions ≠ []
  short : codeLength ≤ 0xffff
  targets : ∀ placed ∈ instructions, ∀ target ∈ placed.instruction.branchTargets,
    Starts instructions target
  boundaries : ∀ entry ∈ coveringEntries table, ∀ offset ∈ boundaries codeLength entry,
    Starts instructions offset
  blocks : flow.blocks.toList =
    cut codeLength (leaders codeLength instructions (coveringEntries table)) instructions
  next : ∀ {index : Nat} {block : Block}, flow.blocks[index]? = some block →
    successorsOf flow.blocks instructions.length block = .ok (flow.next index)
  covering : ∀ {index : Nat} {block : Block}, flow.blocks[index]? = some block →
    handlersOf flow.blocks (coveringEntries table) block = .ok (flow.covering index)
  /-- There are no edges from anywhere but the blocks. -/
  nowhere : ∀ {index : Nat}, flow.size ≤ index → flow.next index = [] ∧ flow.covering index = []
  shape : flow.shape = .of flow.shape.graph
  size : flow.shape.graph.size = flow.size
  edges : ∀ block, flow.shape.graph.next block = edgesOf (flow.next block) (flow.covering block)

/-- What the edges of each block are computed to, block by block. -/
theorem builtFrom_of_blockEdges {instructions : List Placed} {table : List ExceptionEntry}
    {codeLength : Nat} {blocks : List Block} {edges : List (List Nat × List Handler)}
    {graph : Graph} (occupied : instructions ≠ []) (short : codeLength ≤ 0xffff)
    (targets : checkTargets instructions = .ok ())
    (entries : (coveringEntries table).forM (checkEntry instructions codeLength) = .ok ())
    (cuts : blocks =
      cut codeLength (leaders codeLength instructions (coveringEntries table)) instructions)
    (computed : blocks.mapM
      (blockEdges blocks.toArray instructions.length (coveringEntries table)) = .ok edges)
    (recorded : graph = ⟨(edges.map fun (successors, handlers) =>
      edgesOf successors handlers).toArray⟩) :
    BuiltFrom { blocks := blocks.toArray
                successors := (edges.map Prod.fst).toArray
                handlers := (edges.map Prod.snd).toArray
                shape := .of graph } instructions table codeLength := by
  have length := length_of_mapM_eq_ok computed
  have source {index : Nat} {block : Block} (here : blocks.toArray[index]? = some block) :
      ∃ both, edges[index]? = some both ∧
        successorsOf blocks.toArray instructions.length block = .ok both.1 ∧
        handlersOf blocks.toArray (coveringEntries table) block = .ok both.2 := by
    obtain ⟨both, there, computed⟩ := getElem?_of_mapM_eq_ok computed (by simpa using here)
    exact ⟨both, there, blockEdges_eq_ok.mp computed⟩
  exact {
    occupied, short
    targets := checkTargets_eq_ok.mp targets
    boundaries := fun entry member => checkEntry_eq_ok.mp (forM_eq_ok.mp entries entry member)
    blocks := cuts
    next := fun here => by
      obtain ⟨both, there, computed, _⟩ := source here
      simpa [next, there] using computed
    covering := fun here => by
      obtain ⟨both, there, _, computed⟩ := source here
      simpa [covering, there] using computed
    nowhere := fun {index} beyond => by
      have beyond : edges.length ≤ index := length ▸ beyond
      simp [next, covering, List.getElem?_eq_none beyond]
    shape := rfl
    size := by simp [ControlFlow.size, Analysis.of, Graph.size, recorded, length]
    edges := fun block => by
      rw [show (Analysis.of graph).graph = graph from rfl, recorded]
      rcases here : edges[block]? with _ | both <;>
        simp [Graph.next, next, covering, here, edgesOf] }

theorem build_builtFrom {instructions : List Placed} {table : List ExceptionEntry}
    {codeLength : Nat} {flow : ControlFlow}
    (built : build instructions table codeLength = .ok flow) :
    flow.BuiltFrom instructions table codeLength := by
  rw [build] at built
  split at built
  · cases built
  next some =>
    split at built
    · cases built
    next short =>
      obtain ⟨_, targets, built⟩ := bind_eq_ok.mp built
      obtain ⟨_, entries, built⟩ := bind_eq_ok.mp built
      obtain ⟨edges, computed, built⟩ := bind_eq_ok.mp built
      cases built
      exact builtFrom_of_blockEdges (fun empty => some (List.isEmpty_iff.mpr empty))
        (Nat.not_lt.mp short) targets entries rfl computed rfl

/-- What holds of every flow that is built from instructions with ascending offsets. -/
structure WellBuilt (flow : ControlFlow) : Prop where
  shape : flow.shape = .of flow.shape.graph
  size : flow.shape.graph.size = flow.size
  nonempty : 0 < flow.size
  /-- Different blocks start at different offsets. -/
  starts : flow.blocks.toList.Pairwise fun one other => one.start < other.start
  occupied : ∀ {index : Nat} {block : Block}, flow.blocks[index]? = some block → block.body ≠ []
  edges : ∀ block, flow.shape.graph.next block = edgesOf (flow.next block) (flow.covering block)
  next_lt : ∀ {block target : Nat}, target ∈ flow.next block → target < flow.size
  covering_lt : ∀ {block : Nat} {handler : Handler},
    handler ∈ flow.covering block → handler.target < flow.size
  continues : ∀ {index : Nat} {block : Block} {offset : Nat}, flow.blocks[index]? = some block →
    block.Continues offset → ∃ target ∈ flow.next index, blockAt? flow.blocks offset = some target
  comes : ∀ {index target : Nat} {block : Block}, flow.blocks[index]? = some block →
    target ∈ flow.next index →
      ∃ offset, block.Continues offset ∧ blockAt? flow.blocks offset = some target

namespace BuiltFrom

variable {flow : ControlFlow} {instructions : List Placed} {table : List ExceptionEntry}
  {codeLength : Nat}

theorem nonempty (builtFrom : flow.BuiltFrom instructions table codeLength) : 0 < flow.size := by
  rw [ControlFlow.size, ← Array.length_toList, builtFrom.blocks]
  exact List.length_pos_iff.mpr (cut_ne_nil builtFrom.occupied)

/-- A block with edges is one of the blocks. -/
theorem exists_block (builtFrom : flow.BuiltFrom instructions table codeLength) {index : Nat}
    (leads : flow.next index ≠ [] ∨ flow.covering index ≠ []) :
    ∃ block, flow.blocks[index]? = some block := by
  have inside : index < flow.size := by
    by_contra beyond
    obtain ⟨next, covering⟩ := builtFrom.nowhere (Nat.not_lt.mp beyond)
    exact leads.elim (· next) (· covering)
  exact ⟨_, Array.getElem?_eq_getElem inside⟩

theorem next_lt (builtFrom : flow.BuiltFrom instructions table codeLength) {index target : Nat}
    (member : target ∈ flow.next index) : target < flow.size := by
  obtain ⟨block, here⟩ := builtFrom.exists_block (.inl (List.ne_nil_of_mem member))
  obtain ⟨_, _, found⟩ := (successorsOf_spec (builtFrom.next here)).1 target member
  exact blockAt?_lt found

theorem covering_lt (builtFrom : flow.BuiltFrom instructions table codeLength) {index : Nat}
    {handler : Handler} (member : handler ∈ flow.covering index) : handler.target < flow.size := by
  obtain ⟨block, here⟩ := builtFrom.exists_block (.inr (List.ne_nil_of_mem member))
  obtain ⟨_, _, _, found⟩ :=
    exists_of_forall₂_right (handlersOf_spec (builtFrom.covering here)) member
  exact blockAt?_lt found

theorem wellBuilt (builtFrom : flow.BuiltFrom instructions table codeLength)
    (ascending : Ascending instructions) : flow.WellBuilt where
  shape := builtFrom.shape
  size := builtFrom.size
  nonempty := builtFrom.nonempty
  starts := builtFrom.blocks ▸ cut_pairwise ascending
  occupied here := by
    have member := Array.mem_toList_iff.mpr (Array.mem_of_getElem? here)
    exact body_ne_nil (builtFrom.blocks ▸ member)
  edges := builtFrom.edges
  next_lt := builtFrom.next_lt
  covering_lt := builtFrom.covering_lt
  continues here goes := (successorsOf_spec (builtFrom.next here)).2 _ goes
  comes here listed := (successorsOf_spec (builtFrom.next here)).1 _ listed

end BuiltFrom

/-- The flow of decoded instructions is well built. -/
theorem wellBuilt_of_decode {code : Code} {pool : ConstantPool} {instructions : List Placed}
    {flow : ControlFlow} (decoded : code.decode pool = .ok instructions)
    (built : build instructions code.exceptionTable code.bytecode.length = .ok flow) :
    flow.WellBuilt :=
  (build_builtFrom built).wellBuilt
    (Bytecode.decode_ascending decoded (build_builtFrom built).short)

/-! ## Edges -/

namespace WellBuilt

variable {flow : ControlFlow} {block target : Nat}

theorem edge_of_next (wellBuilt : flow.WellBuilt) (member : target ∈ flow.next block) :
    flow.shape.graph.Edge block target := by
  refine ⟨?_, wellBuilt.size ▸ wellBuilt.next_lt member⟩
  rw [wellBuilt.edges, edgesOf]
  exact List.mem_append_left _ member

theorem edge_of_covering (wellBuilt : flow.WellBuilt) {handler : Handler}
    (member : handler ∈ flow.covering block) : flow.shape.graph.Edge block handler.target := by
  refine ⟨?_, wellBuilt.size ▸ wellBuilt.covering_lt member⟩
  rw [wellBuilt.edges, edgesOf]
  exact List.mem_append_right _ (List.mem_eraseDups.mpr (List.mem_map_of_mem member))

theorem reachable_entry (wellBuilt : flow.WellBuilt) :
    flow.shape.graph.Reachable ControlFlow.entry :=
  .entry (wellBuilt.size ▸ wellBuilt.nonempty) trivial

end WellBuilt

/-! ## Offsets and blocks -/

theorem exists_block_of_blockAt? {flow : ControlFlow} {offset index : Nat}
    (found : blockAt? flow.blocks offset = some index) :
    ∃ block, flow.blocks[index]? = some block ∧ block.start = offset := by
  obtain ⟨inside, here, _⟩ := Array.findIdx?_eq_some_iff_getElem.mp found
  exact ⟨_, Array.getElem?_eq_getElem inside, of_decide_eq_true here⟩

theorem start_of_blockAt? {flow : ControlFlow} {offset index : Nat}
    (found : blockAt? flow.blocks offset = some index) : flow.start index = offset := by
  obtain ⟨block, here, starts⟩ := exists_block_of_blockAt? found
  rw [start, Array.getD_eq_getD_getElem?, here]
  exact starts

theorem WellBuilt.blockAt?_start {flow : ControlFlow} (wellBuilt : flow.WellBuilt) {index : Nat}
    (inside : index < flow.size) : blockAt? flow.blocks (flow.start index) = some index := by
  have starts := List.pairwise_iff_getElem.mp wellBuilt.starts
  rw [start, Array.getD_eq_getD_getElem?, Array.getElem?_eq_getElem inside]
  refine Array.findIdx?_eq_some_iff_getElem.mpr ⟨inside, decide_eq_true rfl, ?_⟩
  intro other earlier same
  exact absurd (of_decide_eq_true same)
    (starts other index (earlier.trans inside) inside earlier).ne

theorem WellBuilt.start_inj {flow : ControlFlow} (wellBuilt : flow.WellBuilt) {one other : Nat}
    (inside : one < flow.size) (inside' : other < flow.size)
    (same : flow.start one = flow.start other) : one = other := by
  have found := wellBuilt.blockAt?_start inside
  rw [same, wellBuilt.blockAt?_start inside'] at found
  exact (Option.some.inj found).symm

end ControlFlow

end Bytescript.Flow
