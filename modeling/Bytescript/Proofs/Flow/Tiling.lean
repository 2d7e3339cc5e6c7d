import Bytescript.Proofs.Flow.Build
import Bytescript.Proofs.Flow.Transfers

/-!
# Blocks and the instructions in them

The blocks of a flow and the edges between them say the same about a method as its instructions
and its exception table do.  Put one behind the other, the blocks are the instructions; execution
only enters a block at the top and, exceptions apart, only leaves it at the bottom; it goes on
from a block to its successors exactly as it goes on from an instruction to another one that does
not stand behind it in the same block; and wherever it is in a block, the same handlers cover it.

All of that comes down to one property of the cut: an instruction at a leader begins a block.
-/

set_option autoImplicit false

namespace Bytescript.Flow

/-! ## What is to be shown -/

/-- An instruction, by its index in the method, stands in a block. -/
def Block.Holds (block : Block) (place : Nat) : Prop :=
  block.first ≤ place ∧ place < block.last

/-- The instruction at one index may be followed by the one at another: it branches there, or
falls through to it. -/
inductive MayFollow (instructions : List Placed) (place next : Nat) : Prop where
  | branch {source target : Placed} : instructions[place]? = some source →
      instructions[next]? = some target → source.instruction.BranchesTo target.offset →
        MayFollow instructions place next
  | fall {source : Placed} : instructions[place]? = some source →
      ¬ source.instruction.Diverts → next = place + 1 → next < instructions.length →
        MayFollow instructions place next

/-- An offset that a branch leads to, or at which a range of the exception table begins or ends,
or its handler begins.  An empty range has no boundaries. -/
def IsBoundary (instructions : List Placed) (table : List ExceptionEntry) (offset : Nat) : Prop :=
  (∃ placed ∈ instructions, placed.instruction.BranchesTo offset) ∨
    ∃ entry ∈ table, entry.start < entry.stop ∧
      (offset = entry.start ∨ offset = entry.stop ∨ offset = entry.handler)

namespace ControlFlow

/-- A flow is the flow of instructions under an exception table, as far as single instructions
can tell. -/
structure Refines (flow : ControlFlow) (instructions : List Placed) (table : List ExceptionEntry)
    (codeLength : Nat) : Prop where
  occupied : ∀ {index : Nat} {block : Block}, flow.blocks[index]? = some block → block.body ≠ []
  tiles : flow.blocks.toList.flatMap Block.body = instructions
  first : ∀ {index : Nat} {block : Block}, flow.blocks[index]? = some block →
    block.first = ((flow.blocks.toList.take index).flatMap Block.body).length
  start : ∀ {index : Nat} {block : Block}, flow.blocks[index]? = some block →
    block.body.head?.map Placed.offset = some block.start
  stop : ∀ {index : Nat} {block : Block}, flow.blocks[index]? = some block →
    block.stop = (flow.blocks[index + 1]?.map Block.start).getD codeLength
  ordered : flow.blocks.toList.Pairwise fun one other => one.stop ≤ other.start
  /-- Nothing of interest happens strictly inside of a block. -/
  uncut : ∀ {index : Nat} {block : Block}, flow.blocks[index]? = some block →
    ∀ offset, IsBoundary instructions table offset →
      ¬ (block.start < offset ∧ offset < block.stop)
  /-- Every instruction but the last one of a block only leads to the next one. -/
  straight : ∀ {index : Nat} {block : Block}, flow.blocks[index]? = some block →
    ∀ {place : Nat} {placed : Placed}, block.Holds place → block.Holds (place + 1) →
      instructions[place]? = some placed →
        (∀ target, ¬ placed.instruction.BranchesTo target) ∧ ¬ placed.instruction.Diverts
  /-- Every instruction stands in a block. -/
  held : ∀ {place : Nat}, place < instructions.length →
    ∃ (index : Nat) (block : Block), flow.blocks[index]? = some block ∧ block.Holds place
  /-- Whatever may follow an instruction stands behind it in its block or begins a successor. -/
  follows : ∀ {index : Nat} {block : Block}, flow.blocks[index]? = some block →
    ∀ {place next : Nat}, block.Holds place → MayFollow instructions place next →
      (next = place + 1 ∧ block.Holds next) ∨
        ∃ target other, target ∈ flow.next index ∧ flow.blocks[target]? = some other ∧
          other.first = next
  /-- Successors only come from instructions that may follow others. -/
  arises : ∀ {index : Nat} {block : Block}, flow.blocks[index]? = some block →
    ∀ {target : Nat}, target ∈ flow.next index →
      ∃ other place, flow.blocks[target]? = some other ∧ block.Holds place ∧
        MayFollow instructions place other.first
  /-- The handlers of a block are, in order, those of the entries that cover an instruction of
  it, whichever instruction that is. -/
  handled : ∀ {index : Nat} {block : Block}, flow.blocks[index]? = some block →
    ∀ placed ∈ block.body, List.Forall₂ (fun entry handler =>
        handler.catchType = entry.catchType ∧
          ∃ other, flow.blocks[handler.target]? = some other ∧ other.start = entry.handler)
      (table.filter fun entry => entry.start < entry.stop && entry.covers placed.offset)
      (flow.covering index)

end ControlFlow

/-! ## The place of a block -/

theorem Block.holds_iff {block : Block} {place : Nat} :
    block.Holds place ↔ block.first ≤ place ∧ place < block.first + block.body.length :=
  Iff.rfl

/-- A block of runs is one of them, and knows what stands around it. -/
theorem getElem?_blocksOfRuns {codeEnd first : Nat} {runs : List (List Placed)} {index : Nat}
    {block : Block} (here : (blocksOfRuns codeEnd first runs)[index]? = some block) :
    ∃ before after, runs = before ++ block.body :: after ∧ before.length = index ∧
      block.first = first + before.flatten.length ∧ block.start = startOf block.body ∧
      block.stop = (after.head?.map startOf).getD codeEnd := by
  fun_induction blocksOfRuns codeEnd first runs generalizing index with
  | case1 => cases here
  | case2 first run =>
    cases index with
    | zero =>
      cases here
      exact ⟨[], [], rfl, rfl, rfl, rfl, rfl⟩
    | succ index => cases here
  | case3 first run next rest ih =>
    cases index with
    | zero =>
      cases here
      exact ⟨[], next :: rest, rfl, rfl, rfl, rfl, rfl⟩
    | succ index =>
      obtain ⟨before, after, split, length, place, start, stop⟩ := ih here
      refine ⟨run :: before, after, by rw [split]; rfl, congrArg (· + 1) length, ?_, start, stop⟩
      rw [place, List.flatten_cons, List.length_append, Nat.add_assoc]

theorem exists_holds_blocksOfRuns {codeEnd first : Nat} {runs : List (List Placed)} {place : Nat}
    (behind : first ≤ place) (before : place < first + runs.flatten.length) :
    ∃ (index : Nat) (block : Block),
      (blocksOfRuns codeEnd first runs)[index]? = some block ∧ block.Holds place := by
  fun_induction blocksOfRuns codeEnd first runs with
  | case1 => exact absurd before (Nat.not_lt.mpr behind)
  | case2 first run => exact ⟨0, _, rfl, behind, by simpa [Block.last] using before⟩
  | case3 first run next rest ih =>
    by_cases here : place < first + run.length
    · exact ⟨0, _, rfl, behind, here⟩
    · rw [List.flatten_cons, List.length_append, ← Nat.add_assoc] at before
      obtain ⟨index, block, found, holds⟩ := ih (Nat.not_lt.mp here) before
      exact ⟨index + 1, block, found, holds⟩

theorem exists_holds_cut (codeEnd : Nat) (leaders : List Nat) {instructions : List Placed}
    {place : Nat} (inside : place < instructions.length) :
    ∃ (index : Nat) (block : Block),
      (cut codeEnd leaders instructions)[index]? = some block ∧ block.Holds place :=
  exists_holds_blocksOfRuns (Nat.zero_le place) (by rwa [List.flatten_splitBy, Nat.zero_add])

/-! ## Leaders -/

/-- What stands behind an instruction that ends a block is a leader. -/
theorem mem_followers {instructions : List Placed} {place : Nat} {placed next : Placed}
    (here : instructions[place]? = some placed) (there : instructions[place + 1]? = some next)
    (ends : endsBlock placed.instruction = true) : next.offset ∈ followers instructions := by
  fun_induction followers instructions generalizing place with
  | case1 first second rest stops ih =>
    cases place with
    | zero =>
      cases there
      exact List.mem_cons_self
    | succ place => exact List.mem_cons_of_mem _ (ih here there)
  | case2 first second rest goes ih =>
    cases place with
    | zero =>
      cases here
      exact absurd ends goes
    | succ place => exact ih here there
  | case3 instructions short =>
    match instructions, place with
    | [], place => cases here
    | [_], place => cases there
    | first :: second :: rest, _ => exact absurd rfl (short first second rest)

theorem mem_leaders_of_branch {codeEnd : Nat} {instructions : List Placed}
    {table : List ExceptionEntry} {placed : Placed} (member : placed ∈ instructions)
    {target : Nat} (listed : target ∈ placed.instruction.branchTargets) :
    target ∈ leaders codeEnd instructions table :=
  List.mem_append_left _ (List.mem_append_left _ (List.mem_flatMap.mpr ⟨placed, member, listed⟩))

theorem mem_leaders_of_ends {codeEnd : Nat} {instructions : List Placed}
    {table : List ExceptionEntry} {place : Nat} {placed next : Placed}
    (here : instructions[place]? = some placed) (there : instructions[place + 1]? = some next)
    (ends : endsBlock placed.instruction = true) :
    next.offset ∈ leaders codeEnd instructions table :=
  List.mem_append_left _ (List.mem_append_right _ (mem_followers here there ends))

theorem mem_leaders_of_boundary {codeEnd : Nat} {instructions : List Placed}
    {table : List ExceptionEntry} {entry : ExceptionEntry} (member : entry ∈ table)
    {offset : Nat} (listed : offset ∈ boundaries codeEnd entry) :
    offset ∈ leaders codeEnd instructions table :=
  List.mem_append_right _ (List.mem_flatMap.mpr ⟨entry, member, listed⟩)

/-! ## Blocks in the method -/

namespace ControlFlow.BuiltFrom

variable {flow : ControlFlow} {instructions : List Placed} {table : List ExceptionEntry}
  {codeLength index : Nat} {block : Block}

theorem getElem?_cut (builtFrom : flow.BuiltFrom instructions table codeLength)
    (here : flow.blocks[index]? = some block) :
    (cut codeLength (leaders codeLength instructions (coveringEntries table)) instructions)[index]?
      = some block := by
  rw [← builtFrom.blocks, Array.getElem?_toList, here]

theorem body_mem_splitBy (builtFrom : flow.BuiltFrom instructions table codeLength)
    (here : flow.blocks[index]? = some block) :
    block.body ∈ instructions.splitBy fun _ next =>
      !(leaders codeLength instructions (coveringEntries table)).contains next.offset := by
  obtain ⟨before, after, split, _⟩ := getElem?_blocksOfRuns (builtFrom.getElem?_cut here)
  rw [split]
  exact List.mem_append_right _ List.mem_cons_self

/-- What stands around a block in the method. -/
theorem exists_around (builtFrom : flow.BuiltFrom instructions table codeLength)
    (here : flow.blocks[index]? = some block) :
    ∃ front back, instructions = front ++ block.body ++ back ∧ block.first = front.length ∧
      block.body.head?.map Placed.offset = some block.start ∧
      block.stop = (back.head?.map Placed.offset).getD codeLength := by
  obtain ⟨before, after, split, _, place, start, stop⟩ :=
    getElem?_blocksOfRuns (builtFrom.getElem?_cut here)
  have whole := List.flatten_splitBy (fun _ next =>
    !(leaders codeLength instructions (coveringEntries table)).contains next.offset) instructions
  have occupied {run : List Placed} (member : run ∈ before ++ block.body :: after) : run ≠ [] :=
    List.ne_nil_of_mem_splitBy (split ▸ member)
  refine ⟨before.flatten, after.flatten, ?_, ?_, ?_, ?_⟩
  · rw [← whole, split, List.flatten_append, List.flatten_cons, List.append_assoc]
  · rw [place, Nat.zero_add]
  · obtain ⟨first, rest, body⟩ := List.exists_cons_of_ne_nil
      (occupied (List.mem_append_right _ List.mem_cons_self))
    rw [start, body]
    rfl
  · rw [stop]
    cases after with
    | nil => rfl
    | cons next after =>
      obtain ⟨first, rest, rfl⟩ := List.exists_cons_of_ne_nil
        (occupied (List.mem_append_right _ (.tail _ List.mem_cons_self)))
      rfl

theorem map_body (builtFrom : flow.BuiltFrom instructions table codeLength) :
    flow.blocks.toList.map Block.body = instructions.splitBy fun _ next =>
      !(leaders codeLength instructions (coveringEntries table)).contains next.offset := by
  rw [builtFrom.blocks, cut, map_body_blocksOfRuns]

theorem tiles (builtFrom : flow.BuiltFrom instructions table codeLength) :
    flow.blocks.toList.flatMap Block.body = instructions := by
  rw [List.flatMap_def, builtFrom.map_body, List.flatten_splitBy]

theorem first_eq (builtFrom : flow.BuiltFrom instructions table codeLength)
    (here : flow.blocks[index]? = some block) :
    block.first = ((flow.blocks.toList.take index).flatMap Block.body).length := by
  obtain ⟨before, after, split, length, first, _⟩ :=
    getElem?_blocksOfRuns (builtFrom.getElem?_cut here)
  rw [first, Nat.zero_add, List.flatMap_def, List.map_take, builtFrom.map_body, split,
    List.take_left' length]

theorem stop_eq (builtFrom : flow.BuiltFrom instructions table codeLength)
    (here : flow.blocks[index]? = some block) :
    block.stop = (flow.blocks[index + 1]?.map Block.start).getD codeLength := by
  obtain ⟨before, after, split, rfl, _, _, stop⟩ :=
    getElem?_blocksOfRuns (builtFrom.getElem?_cut here)
  have starts : (flow.blocks.toList.map Block.start)[before.length + 1]? =
      after.head?.map startOf := by
    rw [builtFrom.blocks, cut, map_start_blocksOfRuns, split, List.map_append, List.map_cons,
      List.getElem?_append_right (by simp)]
    simp [List.head?_eq_getElem?]
  rw [stop, ← starts, List.getElem?_map, Array.getElem?_toList]

/-- A block stops before all later blocks start. -/
theorem ordered (builtFrom : flow.BuiltFrom instructions table codeLength)
    (ascending : Ascending instructions) :
    flow.blocks.toList.Pairwise fun one other => one.stop ≤ other.start := by
  have starts := List.pairwise_iff_getElem.mp (builtFrom.wellBuilt ascending).starts
  refine List.pairwise_iff_getElem.mpr fun place other inside inside' earlier => ?_
  have next : place + 1 < flow.blocks.size := Nat.lt_of_le_of_lt earlier (by simpa using inside')
  rw [Array.getElem_toList, Array.getElem_toList,
    builtFrom.stop_eq (Array.getElem?_eq_getElem (by simpa using inside)),
    Array.getElem?_eq_getElem next]
  rcases Nat.eq_or_lt_of_le (Nat.succ_le_of_lt earlier) with same | later
  · subst same
    exact le_rfl
  · exact (starts (place + 1) other (by simpa using next) inside' later).le

theorem exists_holds (builtFrom : flow.BuiltFrom instructions table codeLength) {place : Nat}
    (inside : place < instructions.length) :
    ∃ (index : Nat) (block : Block), flow.blocks[index]? = some block ∧ block.Holds place := by
  obtain ⟨index, block, here, holds⟩ := exists_holds_cut codeLength
    (leaders codeLength instructions (coveringEntries table)) inside
  rw [← builtFrom.blocks, Array.getElem?_toList] at here
  exact ⟨index, block, here, holds⟩

/-- A block holds the instructions of the method from its first one on. -/
theorem getElem?_of_holds (builtFrom : flow.BuiltFrom instructions table codeLength)
    (here : flow.blocks[index]? = some block) {place : Nat} (holds : block.Holds place) :
    instructions[place]? = block.body[place - block.first]? := by
  obtain ⟨front, back, whole, first, _⟩ := builtFrom.exists_around here
  rw [Block.holds_iff] at holds
  rw [whole, List.append_assoc, List.getElem?_append_right (by omega),
    List.getElem?_append_left (by omega), first]

theorem body_ne_nil (builtFrom : flow.BuiltFrom instructions table codeLength)
    (here : flow.blocks[index]? = some block) : block.body ≠ [] :=
  List.ne_nil_of_mem_splitBy (builtFrom.body_mem_splitBy here)

theorem holds_first (builtFrom : flow.BuiltFrom instructions table codeLength)
    (here : flow.blocks[index]? = some block) : block.Holds block.first :=
  ⟨le_rfl, Nat.lt_add_of_pos_right (List.length_pos_iff.mpr (builtFrom.body_ne_nil here))⟩

/-- The first instruction of a block stands where the block starts. -/
theorem exists_first (builtFrom : flow.BuiltFrom instructions table codeLength)
    (here : flow.blocks[index]? = some block) :
    ∃ placed, instructions[block.first]? = some placed ∧ placed.offset = block.start := by
  obtain ⟨_, _, _, _, start, _⟩ := builtFrom.exists_around here
  obtain ⟨placed, head, offset⟩ := Option.map_eq_some_iff.mp start
  refine ⟨placed, ?_, offset⟩
  rw [builtFrom.getElem?_of_holds here (builtFrom.holds_first here), Nat.sub_self,
    ← List.head?_eq_getElem?, head]

theorem last_le_length (builtFrom : flow.BuiltFrom instructions table codeLength)
    (here : flow.blocks[index]? = some block) : block.last ≤ instructions.length := by
  obtain ⟨front, back, whole, first, _⟩ := builtFrom.exists_around here
  have length := congrArg List.length whole
  simp only [List.length_append] at length
  rw [Block.last]
  omega

/-- The instruction behind a block stands where the block stops. -/
theorem exists_behind (builtFrom : flow.BuiltFrom instructions table codeLength)
    (here : flow.blocks[index]? = some block) (more : block.last < instructions.length) :
    ∃ placed, instructions[block.last]? = some placed ∧ placed.offset = block.stop := by
  obtain ⟨front, back, whole, first, _, stop⟩ := builtFrom.exists_around here
  have length : (front ++ block.body).length = block.last := by
    rw [List.length_append, Block.last, first]
  have behind : instructions[block.last]? = back.head? := by
    rw [whole, ← length, List.getElem?_append_right le_rfl, Nat.sub_self,
      List.head?_eq_getElem?]
  obtain ⟨placed, found⟩ : ∃ placed, instructions[block.last]? = some placed :=
    ⟨_, List.getElem?_eq_getElem more⟩
  refine ⟨placed, found, ?_⟩
  rw [stop, ← behind, found]
  rfl

/-- The last instruction that a block holds is the last one of its body. -/
theorem getLast?_of_holds (builtFrom : flow.BuiltFrom instructions table codeLength)
    (here : flow.blocks[index]? = some block) {place : Nat} (holds : block.Holds place)
    (ends : ¬ block.Holds (place + 1)) : block.body.getLast? = instructions[place]? := by
  have last : place + 1 = block.last := by
    by_contra other
    exact ends ⟨holds.1.trans (Nat.le_succ _), Nat.lt_of_le_of_ne holds.2 other⟩
  rw [Block.last] at last
  rw [builtFrom.getElem?_of_holds here holds, List.getLast?_eq_getElem?]
  congr 1
  omega

/-! ## Inside of a block -/

/-- No instruction that a block holds stands at a leader, unless it is the first one. -/
theorem first_of_mem_leaders (builtFrom : flow.BuiltFrom instructions table codeLength)
    (here : flow.blocks[index]? = some block) {place : Nat} (holds : block.Holds place)
    {placed : Placed} (found : instructions[place]? = some placed)
    (leads : placed.offset ∈ leaders codeLength instructions (coveringEntries table)) :
    place = block.first := by
  by_contra later
  have chain := List.isChain_iff_getElem.mp
    (List.isChain_of_mem_splitBy (builtFrom.body_mem_splitBy here))
  rw [builtFrom.getElem?_of_holds here holds] at found
  obtain ⟨before, step⟩ : ∃ before, place - block.first = before + 1 :=
    ⟨place - block.first - 1, by have := holds.1; omega⟩
  rw [step] at found
  obtain ⟨inside, rfl⟩ := List.getElem?_eq_some_iff.mp found
  simpa [leads] using chain before inside

/-- Only the last instruction of a block can end it. -/
theorem straight (builtFrom : flow.BuiltFrom instructions table codeLength)
    (here : flow.blocks[index]? = some block) {place : Nat} {placed : Placed}
    (holds : block.Holds place) (more : block.Holds (place + 1))
    (found : instructions[place]? = some placed) :
    placed.instruction.branchTargets = [] ∧ placed.instruction.fallsThrough = true := by
  have inside := Nat.lt_of_lt_of_le more.2 (builtFrom.last_le_length here)
  have next := List.getElem?_eq_getElem inside
  have stays : endsBlock placed.instruction ≠ true := by
    intro ends
    have := builtFrom.first_of_mem_leaders here more next (mem_leaders_of_ends found next ends)
    exact absurd holds.1 (by omega)
  simpa [endsBlock] using stays

/-! ## Boundaries -/

theorem stop_le (builtFrom : flow.BuiltFrom instructions table codeLength)
    (inside : ∀ placed ∈ instructions, placed.offset < codeLength)
    (here : flow.blocks[index]? = some block) : block.stop ≤ codeLength := by
  obtain ⟨front, back, whole, _, _, stop⟩ := builtFrom.exists_around here
  cases back with
  | nil => exact stop.le
  | cons placed rest =>
    exact stop.trans_le (inside placed (whole ▸ by simp)).le

/-- An instruction between the ends of a block is one that it holds. -/
theorem holds_of_offset (builtFrom : flow.BuiltFrom instructions table codeLength)
    (ascending : Ascending instructions) (here : flow.blocks[index]? = some block) {place : Nat}
    {placed : Placed} (found : instructions[place]? = some placed)
    (behind : block.start ≤ placed.offset) (before : placed.offset < block.stop) :
    block.Holds place := by
  constructor
  · obtain ⟨first, here, start⟩ := builtFrom.exists_first here
    by_contra early
    have := ascending.offset_lt found here (Nat.not_le.mp early)
    omega
  · by_contra late
    have inside : place < instructions.length := (List.getElem?_eq_some_iff.mp found).1
    obtain ⟨next, there, stop⟩ := builtFrom.exists_behind here (by omega)
    rcases Nat.eq_or_lt_of_le (Nat.not_lt.mp late) with same | later
    · subst same
      cases there.symm.trans found
      omega
    · have := ascending.offset_lt there found later
      omega

theorem mem_leaders_of_isBoundary (builtFrom : flow.BuiltFrom instructions table codeLength)
    {offset : Nat} (boundary : IsBoundary instructions table offset)
    (inside : offset < codeLength) :
    Starts instructions offset ∧
      offset ∈ leaders codeLength instructions (coveringEntries table) := by
  rcases boundary with ⟨placed, member, listed⟩ | ⟨entry, member, covers, at'⟩
  · have listed := Instruction.branchesTo_iff.mp listed
    exact ⟨builtFrom.targets placed member offset listed, mem_leaders_of_branch member listed⟩
  · have member : entry ∈ coveringEntries table :=
      List.mem_filter.mpr ⟨member, decide_eq_true covers⟩
    have listed : offset ∈ Flow.boundaries codeLength entry := by
      rw [Flow.boundaries]
      rcases at' with rfl | rfl | rfl
      · split <;> simp
      · simp [inside]
      · split <;> simp
    exact ⟨builtFrom.boundaries entry member offset listed, mem_leaders_of_boundary member listed⟩

theorem uncut (builtFrom : flow.BuiltFrom instructions table codeLength)
    (ascending : Ascending instructions)
    (inside : ∀ placed ∈ instructions, placed.offset < codeLength)
    (here : flow.blocks[index]? = some block) {offset : Nat}
    (boundary : IsBoundary instructions table offset) :
    ¬ (block.start < offset ∧ offset < block.stop) := by
  rintro ⟨behind, before⟩
  have stop := builtFrom.stop_le inside here
  obtain ⟨⟨placed, member, rfl⟩, leads⟩ :=
    builtFrom.mem_leaders_of_isBoundary boundary (before.trans_le stop)
  obtain ⟨place, found⟩ := List.getElem?_of_mem member
  have holds := builtFrom.holds_of_offset ascending here found behind.le before
  obtain ⟨first, starts, start⟩ := builtFrom.exists_first here
  rw [builtFrom.first_of_mem_leaders here holds found leads, starts] at found
  cases found
  omega

theorem offset_of_mem_body (builtFrom : flow.BuiltFrom instructions table codeLength)
    (ascending : Ascending instructions)
    (inside : ∀ placed ∈ instructions, placed.offset < codeLength)
    (here : flow.blocks[index]? = some block) {placed : Placed} (member : placed ∈ block.body) :
    block.start ≤ placed.offset ∧ placed.offset < block.stop := by
  obtain ⟨front, back, rfl, _, start, stop⟩ := builtFrom.exists_around here
  rw [Ascending, List.append_assoc, List.pairwise_append, List.pairwise_append] at ascending
  obtain ⟨_, ⟨body, _, behind⟩, _⟩ := ascending
  constructor
  · obtain ⟨first, head, same⟩ := Option.map_eq_some_iff.mp start
    obtain ⟨rest, whole⟩ := List.head?_eq_some_iff.mp head
    rw [whole] at body member
    rcases List.mem_cons.mp member with rfl | later
    · exact same.ge
    · exact same ▸ ((List.pairwise_cons.mp body).1 placed later).le
  · cases back with
    | nil => exact stop ▸ inside placed (by simp [member])
    | cons next back => exact stop ▸ behind placed member next List.mem_cons_self

/-- An entry that covers one instruction of a block covers all of them. -/
theorem covers_eq (builtFrom : flow.BuiltFrom instructions table codeLength)
    (ascending : Ascending instructions)
    (inside : ∀ placed ∈ instructions, placed.offset < codeLength)
    (here : flow.blocks[index]? = some block) {placed : Placed} (member : placed ∈ block.body)
    {entry : ExceptionEntry} (listed : entry ∈ table) (covers : entry.start < entry.stop) :
    entry.covers placed.offset = entry.covers block.start := by
  have between := builtFrom.offset_of_mem_body ascending inside here member
  have start := builtFrom.uncut ascending inside here
    (.inr ⟨entry, listed, covers, .inl rfl⟩ : IsBoundary instructions table entry.start)
  have stop := builtFrom.uncut ascending inside here
    (.inr ⟨entry, listed, covers, .inr (.inl rfl)⟩ : IsBoundary instructions table entry.stop)
  rw [ExceptionEntry.covers, ExceptionEntry.covers, Bool.eq_iff_iff]
  simp only [Bool.and_eq_true, decide_eq_true_eq]
  omega

theorem handled (builtFrom : flow.BuiltFrom instructions table codeLength)
    (ascending : Ascending instructions)
    (inside : ∀ placed ∈ instructions, placed.offset < codeLength)
    (here : flow.blocks[index]? = some block) {placed : Placed} (member : placed ∈ block.body) :
    List.Forall₂ (fun entry handler => handler.catchType = entry.catchType ∧
        ∃ other, flow.blocks[handler.target]? = some other ∧ other.start = entry.handler)
      (table.filter fun entry => entry.start < entry.stop && entry.covers placed.offset)
      (flow.covering index) := by
  have same : (table.filter fun entry => entry.start < entry.stop && entry.covers placed.offset) =
      (coveringEntries table).filter fun entry => entry.covers block.start := by
    rw [coveringEntries, List.filter_filter]
    refine List.filter_congr fun entry listed => ?_
    by_cases covers : entry.start < entry.stop
    · rw [builtFrom.covers_eq ascending inside here member listed covers, Bool.and_comm]
    · simp [covers]
  rw [same]
  exact (handlersOf_spec (builtFrom.covering here)).imp fun entry handler ⟨type, found⟩ =>
    ⟨type, exists_block_of_blockAt? found⟩

/-! ## From one instruction to the next -/

/-- A block that starts where an instruction stands begins with that instruction. -/
theorem first_eq_of_start (builtFrom : flow.BuiltFrom instructions table codeLength)
    (ascending : Ascending instructions) (here : flow.blocks[index]? = some block) {place : Nat}
    {placed : Placed} (found : instructions[place]? = some placed)
    (start : block.start = placed.offset) : block.first = place := by
  obtain ⟨first, there, same⟩ := builtFrom.exists_first here
  exact ascending.place_inj there found (same.trans start)

theorem follows (builtFrom : flow.BuiltFrom instructions table codeLength)
    (ascending : Ascending instructions) (here : flow.blocks[index]? = some block)
    {place next : Nat} (holds : block.Holds place) (follow : MayFollow instructions place next) :
    (next = place + 1 ∧ block.Holds next) ∨
      ∃ target other, target ∈ flow.next index ∧ flow.blocks[target]? = some other ∧
        other.first = next := by
  -- A successor starts wherever the last instruction of the block leads to.
  have successor {placed : Placed} (found : instructions[next]? = some placed)
      (continues : block.Continues placed.offset) : ∃ target other,
      target ∈ flow.next index ∧ flow.blocks[target]? = some other ∧ other.first = next := by
    obtain ⟨target, listed, starts⟩ :=
      (successorsOf_spec (builtFrom.next here)).2 placed.offset continues
    obtain ⟨other, there, start⟩ := exists_block_of_blockAt? starts
    exact ⟨target, other, listed, there, builtFrom.first_eq_of_start ascending there found start⟩
  by_cases more : block.Holds (place + 1)
  · cases follow with
    | branch found there branches =>
      have listed := Instruction.branchesTo_iff.mp branches
      rw [(builtFrom.straight here holds more found).1] at listed
      cases listed
    | fall _ _ behind _ =>
      subst behind
      exact .inl ⟨rfl, more⟩
  · right
    have ends := builtFrom.getLast?_of_holds here holds more
    cases follow with
    | branch found there branches =>
      exact successor there ⟨_, ends.trans found, .inl (Instruction.branchesTo_iff.mp branches)⟩
    | @fall source found falls behind inside =>
      have whole : next = block.last := by
        have := holds.1
        have := holds.2
        by_contra other
        exact more ⟨by omega, by omega⟩
      obtain ⟨placed, there, stop⟩ := builtFrom.exists_behind here (whole ▸ inside)
      exact successor (whole ▸ there)
        ⟨source, ends.trans found, .inr ⟨Instruction.not_diverts_iff.mp falls, stop⟩⟩

theorem arises (builtFrom : flow.BuiltFrom instructions table codeLength)
    (ascending : Ascending instructions) (here : flow.blocks[index]? = some block)
    {target : Nat} (listed : target ∈ flow.next index) :
    ∃ other place, flow.blocks[target]? = some other ∧ block.Holds place ∧
      MayFollow instructions place other.first := by
  obtain ⟨offset, ⟨last, ends, goes⟩, found⟩ :=
    (successorsOf_spec (builtFrom.next here)).1 target listed
  obtain ⟨other, there, start⟩ := exists_block_of_blockAt? found
  obtain ⟨placed, starts, same⟩ := builtFrom.exists_first there
  have occupied := List.length_pos_iff.mpr (builtFrom.body_ne_nil here)
  have whole := builtFrom.last_le_length here
  rw [Block.last] at whole
  have holds : block.Holds (block.last - 1) := by
    rw [Block.holds_iff, Block.last]
    omega
  have source : instructions[block.last - 1]? = some last := by
    rw [← builtFrom.getLast?_of_holds here holds, ends]
    rintro ⟨_, beyond⟩
    rw [Block.last] at beyond
    omega
  refine ⟨other, block.last - 1, there, holds, ?_⟩
  rcases goes with branches | ⟨falls, stop⟩
  · exact .branch source starts (Instruction.branchesTo_iff.mpr (by rwa [same, start]))
  · have more := last_ne_of_successorsOf (builtFrom.next here) ends falls
    rw [Block.last] at more
    obtain ⟨next, behind, stops⟩ := builtFrom.exists_behind here (by rw [Block.last]; omega)
    have first := builtFrom.first_eq_of_start ascending there behind
      (start.trans (stop.trans stops.symm))
    refine .fall source (Instruction.not_diverts_iff.mpr falls) ?_
      (List.getElem?_eq_some_iff.mp starts).1
    rw [first, Block.last]
    omega

end ControlFlow.BuiltFrom

/-! ## The flow as a whole -/

namespace ControlFlow

/-- The blocks of a flow that is built are made of its instructions, and lead where these do. -/
theorem build_refines {instructions : List Placed} {table : List ExceptionEntry}
    {codeLength : Nat} {flow : ControlFlow} (ascending : Ascending instructions)
    (inside : ∀ placed ∈ instructions, placed.offset < codeLength)
    (built : build instructions table codeLength = .ok flow) :
    flow.Refines instructions table codeLength := by
  have builtFrom := build_builtFrom built
  exact {
    occupied := builtFrom.body_ne_nil
    tiles := builtFrom.tiles
    first := builtFrom.first_eq
    start := fun here => by
      obtain ⟨_, _, _, _, start, _⟩ := builtFrom.exists_around here
      exact start
    stop := builtFrom.stop_eq
    ordered := builtFrom.ordered ascending
    uncut := fun here _ => builtFrom.uncut ascending inside here
    straight := fun here _ _ holds more found => by
      obtain ⟨none, falls⟩ := builtFrom.straight here holds more found
      refine ⟨fun target branches => ?_, Instruction.not_diverts_iff.mpr falls⟩
      exact List.not_mem_nil (none ▸ Instruction.branchesTo_iff.mp branches)
    held := builtFrom.exists_holds
    follows := builtFrom.follows ascending
    arises := builtFrom.arises ascending
    handled := fun here _ => builtFrom.handled ascending inside here }

/-- Gives one unless a local variable is zero, and throws from then on.  Exceptions of the last two
blocks are thrown again, up to the very end of the code, and an empty range covers nothing. -/
def oneOrThrow : List Placed :=
  [⟨0, 0x1a, .load .int 0⟩, ⟨1, 0x99, .ifZero .equal 6⟩, ⟨4, 0x04, .constInt 1⟩,
    ⟨5, 0xac, .leave (some .int)⟩, ⟨6, 0xbf, .throw⟩]

theorem build_oneOrThrow_refines :
    Ascending oneOrThrow ∧ (∀ placed ∈ oneOrThrow, placed.offset < 7) ∧
      ∃ flow, build oneOrThrow [⟨5, 5, 0, none⟩, ⟨4, 7, 6, none⟩] 7 = .ok flow ∧
        flow.Refines oneOrThrow [⟨5, 5, 0, none⟩, ⟨4, 7, 6, none⟩] 7 := by
  have ascending : Ascending oneOrThrow := by simp [Ascending, oneOrThrow]
  have inside : ∀ placed ∈ oneOrThrow, placed.offset < 7 := by simp [oneOrThrow]
  refine ⟨ascending, inside, ?_⟩
  have computed : (build oneOrThrow [⟨5, 5, 0, none⟩, ⟨4, 7, 6, none⟩] 7).isOk = true := by
    decide +kernel
  cases built : build oneOrThrow [⟨5, 5, 0, none⟩, ⟨4, 7, 6, none⟩] 7 with
  | error failure =>
    rw [built] at computed
    cases computed
  | ok flow => exact ⟨flow, rfl, build_refines ascending inside built⟩

end ControlFlow

end Bytescript.Flow
