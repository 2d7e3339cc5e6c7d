import Bytescript.Proofs.Flow.Tiling

/-!
# Which methods have a flow

A flow can be built exactly if there are instructions, not too many bytes of them, every branch and
every boundary of a range that covers anything is the start of an instruction, and execution does
not fall off the end.  Otherwise the failure names one of these faults.

The boundaries are checked before the blocks are cut, and the end only after that, when blocks are
looked up at the offsets that were checked.  No look-up fails: each of these offsets is a leader, so
the instruction that stands there begins a block.
-/

set_option autoImplicit false

namespace Bytescript.Flow

variable {instructions : List Placed} {table : List ExceptionEntry} {codeLength : Nat}

/-! ## What can be wrong -/

/-- Instructions and an exception table that make up the code of a method. -/
structure IsSound (instructions : List Placed) (table : List ExceptionEntry) (codeLength : Nat) :
    Prop where
  occupied : instructions ≠ []
  short : codeLength ≤ 0xffff
  /-- Every branch leads to an instruction, also where the branch is never reached. -/
  branches : ∀ placed ∈ instructions, ∀ target, placed.instruction.BranchesTo target →
    Starts instructions target
  /-- A range that covers anything begins and is handled at an instruction, and it ends at one or at
  the end of the code. -/
  ranges : ∀ entry ∈ table, entry.start < entry.stop →
    Starts instructions entry.start ∧ Starts instructions entry.handler ∧
      (Starts instructions entry.stop ∨ codeLength ≤ entry.stop)
  ends : ∀ last ∈ instructions.getLast?, last.instruction.Diverts

/-- The reason of a failure at an offset that should be the start of an instruction. -/
def noStart (what : String) (offset : Nat) : String :=
  what ++ s!" {offset} is not the start of an instruction"

/-- What is wrong with instructions and an exception table: where, and in which words. -/
inductive Fault (instructions : List Placed) (table : List ExceptionEntry) (codeLength : Nat) :
    (offset : Nat) → (reason : String) → Prop where
  | empty (none : instructions = []) :
    Fault instructions table codeLength 0 "there are no instructions"
  | long (beyond : 0xffff < codeLength) :
    Fault instructions table codeLength 0 s!"code length {codeLength} is too large"
  | branch {placed : Placed} {target : Nat} (member : placed ∈ instructions)
    (branches : placed.instruction.BranchesTo target) (missing : ¬ Starts instructions target) :
    Fault instructions table codeLength placed.offset (noStart "branch target" target)
  | start {entry : ExceptionEntry} (member : entry ∈ table) (covers : entry.start < entry.stop)
    (missing : ¬ Starts instructions entry.start) :
    Fault instructions table codeLength entry.start
      (noStart "start of exception range" entry.start)
  | stop {entry : ExceptionEntry} (member : entry ∈ table) (covers : entry.start < entry.stop)
    (inside : entry.stop < codeLength) (missing : ¬ Starts instructions entry.stop) :
    Fault instructions table codeLength entry.stop (noStart "end of exception range" entry.stop)
  | handler {entry : ExceptionEntry} (member : entry ∈ table) (covers : entry.start < entry.stop)
    (missing : ¬ Starts instructions entry.handler) :
    Fault instructions table codeLength entry.handler (noStart "exception handler" entry.handler)
  | fallsOff {last : Placed} (behind : instructions.getLast? = some last)
    (falls : ¬ last.instruction.Diverts) :
    Fault instructions table codeLength last.offset "execution falls off the end of the code"

/-- Where anything is wrong, the code is not sound. -/
theorem Fault.not_isSound {offset : Nat} {reason : String}
    (fault : Fault instructions table codeLength offset reason) :
    ¬ IsSound instructions table codeLength := by
  intro sound
  cases fault with
  | empty none => exact sound.occupied none
  | long beyond => exact absurd sound.short (Nat.not_le.mpr beyond)
  | branch member branches missing => exact missing (sound.branches _ member _ branches)
  | start member covers missing => exact missing (sound.ranges _ member covers).1
  | stop member covers inside missing =>
    rcases (sound.ranges _ member covers).2.2 with starts | beyond
    · exact missing starts
    · exact absurd inside (Nat.not_lt.mpr beyond)
  | handler member covers missing => exact missing (sound.ranges _ member covers).2.1
  | fallsOff behind falls => exact falls (sound.ends _ behind)

/-- No fault is put down to the look-up of a block, which is worded differently from its first
character on. -/
theorem Fault.reason_ne {offset : Nat} {reason : String}
    (fault : Fault instructions table codeLength offset reason) :
    reason ≠ "no block starts here" := by
  suffices begins : reason.toList.head? ≠ "no block starts here".toList.head? from
    fun same => begins (congrArg (fun text => text.toList.head?) same)
  cases fault with
  | empty | fallsOff => decide
  | long => simp [String.toList_append, toString]
  | branch | start | stop | handler => simp [noStart, String.toList_append]

/-! ## Checks that fail -/

theorem fault_of_checkStart {offset site : Nat} {what : String} {failure : Failure}
    (failed : checkStart instructions offset site what = .error failure) :
    ¬ Starts instructions offset ∧
      failure = .of (.compile (.malformedControlFlow site (noStart what offset))) := by
  refine ⟨fun starts => ?_, ?_⟩
  · rw [checkStart_eq_ok.mpr starts] at failed
    cases failed
  · rw [checkStart] at failed
    split at failed
    · cases failed
    · cases failed
      rfl

/-- A failure that puts a fault into words. -/
def Reports (instructions : List Placed) (table : List ExceptionEntry) (codeLength : Nat)
    (failure : Failure) : Prop :=
  ∃ offset reason, failure = .of (.compile (.malformedControlFlow offset reason)) ∧
    Fault instructions table codeLength offset reason

theorem reports_of_checkTargets {failure : Failure}
    (failed : checkTargets instructions = .error failure) :
    Reports instructions table codeLength failure := by
  obtain ⟨placed, member, failed⟩ := exists_of_forM_eq_error failed
  obtain ⟨target, listed, failed⟩ := exists_of_forM_eq_error failed
  obtain ⟨missing, worded⟩ := fault_of_checkStart failed
  exact ⟨_, _, worded, .branch member (Instruction.branchesTo_iff.mpr listed) missing⟩

theorem reports_of_checkEntry {entry : ExceptionEntry} {failure : Failure}
    (listed : entry ∈ ControlFlow.coveringEntries table)
    (failed : checkEntry instructions codeLength entry = .error failure) :
    Reports instructions table codeLength failure := by
  obtain ⟨member, covers⟩ := List.mem_filter.mp listed
  have covers : entry.start < entry.stop := of_decide_eq_true covers
  rw [checkEntry] at failed
  rcases bind_eq_error.mp failed with failed | ⟨_, _, failed⟩
  · obtain ⟨missing, worded⟩ := fault_of_checkStart failed
    exact ⟨_, _, worded, .start member covers missing⟩
  have handler {failure : Failure} (failed : checkStart instructions entry.handler entry.handler
      "exception handler" = .error failure) : Reports instructions table codeLength failure := by
    obtain ⟨missing, worded⟩ := fault_of_checkStart failed
    exact ⟨_, _, worded, .handler member covers missing⟩
  split at failed
  next inside =>
    rcases bind_eq_error.mp failed with failed | ⟨_, _, failed⟩
    · obtain ⟨missing, worded⟩ := fault_of_checkStart failed
      exact ⟨_, _, worded, .stop member covers inside missing⟩
    · exact handler failed
  next => exact handler failed

/-! ## Blocks are found -/

section Found

variable {leading : List Nat} {block : Block} {offset : Nat}

theorem exists_blockAt_of_mem {blocks : List Block} (member : block ∈ blocks) :
    ∃ index, blockAt blocks.toArray block.start = .ok index := by
  have found : (blocks.toArray.findIdx? fun other => other.start = block.start).isSome = true := by
    rw [Array.findIdx?_isSome, Array.any_eq_true']
    exact ⟨block, List.mem_toArray.mpr member, decide_eq_true rfl⟩
  obtain ⟨index, found⟩ := Option.isSome_iff_exists.mp found
  exact ⟨index, blockAt_eq_ok.mpr found⟩

/-- Each run of instructions is a block that starts where the run does. -/
theorem exists_blockAt_startOf {run : List Placed}
    (member : run ∈ instructions.splitBy fun _ next => !leading.contains next.offset) :
    ∃ index, blockAt (cut codeLength leading instructions).toArray (startOf run) = .ok index := by
  have starts : startOf run ∈ (cut codeLength leading instructions).map Block.start := by
    rw [cut, map_start_blocksOfRuns]
    exact List.mem_map_of_mem member
  obtain ⟨block, listed, same⟩ := List.mem_map.mp starts
  rw [← same]
  exact exists_blockAt_of_mem listed

/-- An instruction at a leader is the first one of its run. -/
theorem eq_nil_of_leader {run before after : List Placed} {placed : Placed}
    (member : run ∈ instructions.splitBy fun _ next => !leading.contains next.offset)
    (split : run = before ++ placed :: after) (leads : placed.offset ∈ leading) :
    before = [] := by
  have chain := List.isChain_of_mem_splitBy member
  rcases List.eq_nil_or_concat before with empty | ⟨front, previous, rfl⟩
  · exact empty
  · rw [split, List.concat_eq_append, List.append_assoc, List.singleton_append,
      List.isChain_append_cons_cons] at chain
    simp [leads] at chain

/-- An instruction at a leader begins a block. -/
theorem exists_blockAt_of_leader (codeLength : Nat) (starts : Starts instructions offset)
    (leads : offset ∈ leading) :
    ∃ index, blockAt (cut codeLength leading instructions).toArray offset = .ok index := by
  obtain ⟨placed, member, rfl⟩ := starts
  rw [← List.flatten_splitBy (fun _ next => !leading.contains next.offset) instructions] at member
  obtain ⟨run, listed, inside⟩ := List.mem_flatten.mp member
  obtain ⟨before, after, split⟩ := List.append_of_mem inside
  have first := eq_nil_of_leader listed split leads
  have begins : startOf run = placed.offset := by rw [split, first]; rfl
  exact begins ▸ exists_blockAt_startOf listed

/-- A block is the last one, or another one starts where it stops. -/
theorem last_or_next (member : block ∈ cut codeLength leading instructions) :
    (block.last = instructions.length ∧ instructions.getLast? = block.body.getLast?) ∨
      block.last ≠ instructions.length ∧
        ∃ index, blockAt (cut codeLength leading instructions).toArray block.stop = .ok index := by
  obtain ⟨index, here⟩ := List.getElem?_of_mem member
  obtain ⟨before, after, split, _, first, _, stop⟩ := getElem?_blocksOfRuns here
  have whole := List.flatten_splitBy (fun _ next => !leading.contains next.offset) instructions
  have occupied := body_ne_nil member
  rw [split, List.flatten_append, List.flatten_cons] at whole
  rw [Nat.zero_add] at first
  cases after with
  | nil =>
    left
    rw [← whole, List.flatten_nil, List.append_nil, Block.last, first, List.length_append,
      List.getLast?_append_of_ne_nil _ occupied]
    exact ⟨rfl, rfl⟩
  | cons next rest =>
    have listed : next ∈ instructions.splitBy fun _ next => !leading.contains next.offset := by
      rw [split]
      exact List.mem_append_right _ (.tail _ List.mem_cons_self)
    have filled := List.length_pos_iff.mpr (List.ne_nil_of_mem_splitBy listed)
    refine .inr ⟨fun same => ?_, ?_⟩
    · have length := congrArg List.length whole
      simp only [List.length_append, List.flatten_cons] at length
      rw [Block.last, first] at same
      omega
    · rw [stop]
      exact exists_blockAt_startOf listed

end Found

/-! ## Edges are found -/

section Edges

variable {leading : List Nat} {block : Block} {failure : Failure}

/-- If all branches lead to leaders, the only way to have no successors is to fall off the end. -/
theorem fallsOff_of_successorsOf
    (branches : ∀ placed ∈ instructions, ∀ target ∈ placed.instruction.branchTargets,
      Starts instructions target ∧ target ∈ leading)
    (member : block ∈ cut codeLength leading instructions)
    (failed : successorsOf (cut codeLength leading instructions).toArray instructions.length block =
      .error failure) : Reports instructions table codeLength failure := by
  rw [successorsOf] at failed
  split at failed
  · cases failed
  next last ends =>
    have listed : last ∈ instructions := by
      obtain ⟨index, here⟩ := List.getElem?_of_mem member
      obtain ⟨before, after, split, _⟩ := getElem?_blocksOfRuns here
      rw [← List.flatten_splitBy (fun _ next => !leading.contains next.offset) instructions, split]
      exact List.mem_flatten.mpr
        ⟨block.body, List.mem_append_right _ List.mem_cons_self, List.mem_of_getLast? ends⟩
    rcases bind_eq_error.mp failed with failed | ⟨_, _, failed⟩
    · obtain ⟨target, branch, failed⟩ := exists_of_mapM_eq_error failed
      obtain ⟨starts, leads⟩ := branches last listed target branch
      obtain ⟨index, found⟩ := exists_blockAt_of_leader codeLength starts leads
      cases found.symm.trans failed
    split at failed
    next falls =>
      rcases last_or_next member with ⟨whole, same⟩ | ⟨inner, index, found⟩
      · rw [if_pos whole] at failed
        cases failed
        exact ⟨_, _, rfl, .fallsOff (same.trans ends) (Instruction.not_diverts_iff.mpr falls)⟩
      · rw [if_neg inner, found] at failed
        cases failed
    next => cases failed

/-- If the handlers of all entries are at leaders, they are found. -/
theorem handlersOf_ne_error {entries : List ExceptionEntry}
    (handlers : ∀ entry ∈ entries, Starts instructions entry.handler ∧ entry.handler ∈ leading) :
    handlersOf (cut codeLength leading instructions).toArray entries block ≠ .error failure := by
  intro failed
  obtain ⟨entry, listed, failed⟩ := exists_of_mapM_eq_error failed
  obtain ⟨starts, leads⟩ := handlers entry (List.mem_filter.mp listed).1
  obtain ⟨index, found⟩ := exists_blockAt_of_leader codeLength starts leads
  rw [found] at failed
  cases failed

end Edges

namespace ControlFlow

/-! ## Building -/

/-- After the checks, blocks have their edges unless execution falls off the end. -/
theorem reports_of_blockEdges {block : Block} {failure : Failure}
    (targets : checkTargets instructions = .ok ())
    (entries : (coveringEntries table).forM (checkEntry instructions codeLength) = .ok ())
    (member : block ∈ cut codeLength
      (leaders codeLength instructions (coveringEntries table)) instructions)
    (failed : blockEdges (cut codeLength (leaders codeLength instructions (coveringEntries table))
        instructions).toArray instructions.length (coveringEntries table) block = .error failure) :
    Reports instructions table codeLength failure := by
  rcases bind_eq_error.mp failed with failed | ⟨_, _, failed⟩
  · refine fallsOff_of_successorsOf (fun placed listed target branch => ?_) member failed
    exact ⟨checkTargets_eq_ok.mp targets placed listed target branch,
      mem_leaders_of_branch listed branch⟩
  · rcases bind_eq_error.mp failed with failed | ⟨_, _, done⟩
    · refine absurd failed (handlersOf_ne_error fun entry listed => ?_)
      have boundary : entry.handler ∈ Flow.boundaries codeLength entry := by
        rw [Flow.boundaries]
        split <;> simp
      exact ⟨checkEntry_eq_ok.mp (forM_eq_ok.mp entries entry listed) _ boundary,
        mem_leaders_of_boundary listed boundary⟩
    · cases done

/-- If no flow is built, the failure reports a fault. -/
theorem reports_of_build {failure : Failure}
    (failed : build instructions table codeLength = .error failure) :
    Reports instructions table codeLength failure := by
  rw [build] at failed
  split at failed
  next empty =>
    cases failed
    exact ⟨_, _, rfl, .empty (List.isEmpty_iff.mp empty)⟩
  split at failed
  next beyond =>
    cases failed
    exact ⟨_, _, rfl, .long beyond⟩
  rcases bind_eq_error.mp failed with failed | ⟨_, targets, failed⟩
  · exact reports_of_checkTargets failed
  rcases bind_eq_error.mp failed with failed | ⟨_, entries, failed⟩
  · obtain ⟨entry, listed, failed⟩ := exists_of_forM_eq_error failed
    exact reports_of_checkEntry listed failed
  rcases bind_eq_error.mp failed with failed | ⟨_, _, done⟩
  · obtain ⟨block, member, failed⟩ := exists_of_mapM_eq_error failed
    exact reports_of_blockEdges targets entries member failed
  · cases done

/-- The last instruction of a flow does not fall through. -/
theorem BuiltFrom.ends {flow : ControlFlow}
    (builtFrom : flow.BuiltFrom instructions table codeLength) {last : Placed}
    (behind : instructions.getLast? = some last) :
    last.instruction.fallsThrough = false := by
  have filled := List.length_pos_iff.mpr builtFrom.occupied
  obtain ⟨index, block, here, holds⟩ :=
    builtFrom.exists_holds (Nat.sub_lt filled Nat.one_pos)
  have bound := builtFrom.last_le_length here
  have inside := holds.2
  have ends : block.body.getLast? = some last := by
    rw [builtFrom.getLast?_of_holds here holds, ← List.getLast?_eq_getElem?, behind]
    exact fun more => absurd more.2 (by omega)
  refine Bool.eq_false_iff.mpr fun falls => ?_
  exact last_ne_of_successorsOf (builtFrom.next here) ends falls (by omega)

/-- What a flow was built from is sound. -/
theorem BuiltFrom.isSound {flow : ControlFlow}
    (builtFrom : flow.BuiltFrom instructions table codeLength) :
    IsSound instructions table codeLength where
  occupied := builtFrom.occupied
  short := builtFrom.short
  branches placed member target branches :=
    builtFrom.targets placed member target (Instruction.branchesTo_iff.mp branches)
  ranges entry member covers := by
    have starts := builtFrom.boundaries entry (List.mem_filter.mpr ⟨member, decide_eq_true covers⟩)
    rw [Flow.boundaries] at starts
    split at starts
    next => exact ⟨starts _ (by simp), starts _ (by simp), .inl (starts _ (by simp))⟩
    next beyond =>
      exact ⟨starts _ (by simp), starts _ (by simp), .inr (Nat.not_lt.mp beyond)⟩
  ends _ behind := Instruction.diverts_iff.mpr (builtFrom.ends behind)

/-- **A flow is built exactly from sound code.**  Otherwise the failure is that of malformed control
flow, and reports something that is wrong with the code; no look-up of a block ever fails. -/
theorem build_decides (instructions : List Placed) (table : List ExceptionEntry)
    (codeLength : Nat) :
    (IsSound instructions table codeLength ∧
        ∃ flow, build instructions table codeLength = .ok flow) ∨
      (¬ IsSound instructions table codeLength ∧ ∃ offset reason,
        build instructions table codeLength =
            .error (.of (.compile (.malformedControlFlow offset reason))) ∧
          Fault instructions table codeLength offset reason ∧ reason ≠ "no block starts here") := by
  cases built : build instructions table codeLength with
  | ok flow => exact .inl ⟨(build_builtFrom built).isSound, flow, rfl⟩
  | error failure =>
    obtain ⟨offset, reason, rfl, fault⟩ := reports_of_build built
    exact .inr ⟨fault.not_isSound, offset, reason, rfl, fault, fault.reason_ne⟩

/-- A handler in the middle of a branch is a fault, also if the code is sound without it. -/
example : (match build [⟨0, 0xa7, .goto 0⟩] [⟨0, 3, 1, none⟩] 3 with
    | .ok _ => "built"
    | .error failure => failure.message) = "malformed control flow at offset 1: " ++
      "exception handler 1 is not the start of an instruction" := by decide +kernel

end ControlFlow

end Bytescript.Flow
