import Bytescript.Proofs.Flow.Build

/-!
# What is in scope where a block stands

Nested code may only go on with loops and leave labelled parts that it stands inside of.  The code
of a block needs the loops of all blocks that strictly dominate it, and the labelled parts in front
of merges behind it whose immediate dominators strictly dominate it.  All of that is there wherever
nested code has a block, and it is enough: a jump from a block goes back to a block that dominates
it, or forward to a merge in front of which the block stands, or to a block that it immediately
dominates and whose code stands in place of the jump.
-/

set_option autoImplicit false

namespace Bytescript.Translation

open Bytescript.Flow Graph Analysis

variable {shape : Analysis} {loops merges : Nat → Prop} {block target : Nat}

/-- The loops and labelled parts that the code of a block needs around itself. -/
structure Provides (shape : Analysis) (loops merges : Nat → Prop) (block : Nat) : Prop where
  loops : ∀ {header : Nat}, shape.isLoopHeader header = true →
    shape.graph.StrictlyDominates header block → loops header
  merges : ∀ {merge above : Nat}, shape.isMerge merge = true →
    shape.immediateDominator merge = some above → shape.graph.StrictlyDominates above block →
      shape.graph.place block < shape.graph.place merge → merges merge

/-- The loops and labelled parts around the statements of a block: those that its code needs, the
loop of the block itself, and the parts in front of the merges that it immediately dominates. -/
structure Inside (shape : Analysis) (loops merges : Nat → Prop) (block : Nat) : Prop where
  loops : ∀ {header : Nat}, shape.isLoopHeader header = true →
    shape.graph.Dominates header block → loops header
  merges : ∀ {merge above : Nat}, shape.isMerge merge = true →
    shape.immediateDominator merge = some above → shape.graph.Dominates above block →
      shape.graph.place block < shape.graph.place merge → merges merge

/-- Around all code there is nothing, and the entry needs nothing. -/
theorem provides_entry : Provides shape loops merges ControlFlow.entry := by
  refine ⟨fun _ strict => ?_, fun _ _ strict _ => ?_⟩
  · exact absurd (eq_entry_of_dominates strict.1) strict.2
  · exact absurd (eq_entry_of_dominates strict.1) strict.2

theorem Provides.inside (provides : Provides shape loops merges block)
    {loops' merges' : Nat → Prop} (wider : ∀ {header}, loops header → loops' header)
    (own : shape.isLoopHeader block = true → loops' block)
    (wider' : ∀ {merge}, merges merge → merges' merge)
    (own' : ∀ {merge}, shape.isMerge merge = true → shape.immediateDominator merge = some block →
      merges' merge) : Inside shape loops' merges' block where
  loops {other} header dominates := by
    by_cases same : other = block
    · subst same
      exact own header
    · exact wider (provides.loops header ⟨dominates, same⟩)
  merges {merge above} isMerge immediate dominates behind := by
    by_cases same : above = block
    · subst same
      exact own' isMerge immediate
    · exact wider' (provides.merges isMerge immediate ⟨dominates, same⟩ behind)

namespace Inside

/-- The loop that a backward edge leads to stands around its source. -/
theorem loop (inside : Inside shape loops merges block) (made : shape = .of shape.graph)
    (reducible : shape.reducible = true) (edge : shape.graph.Edge block target)
    (back : shape.isBackward block target = true) :
    shape.isLoopHeader target = true ∧ loops target := by
  rw [made] at reducible back
  have header : shape.isLoopHeader target = true := by
    rw [made]
    exact isLoopHeader_iff.mpr ⟨block, edge, back⟩
  exact ⟨header, inside.loops header (dominates_of_isBackward reducible edge back)⟩

/-- A forward edge to a merge leaves a labelled part around its source. -/
theorem merge (inside : Inside shape loops merges block) (made : shape = .of shape.graph)
    (forward : Forward shape.graph block target) (isMerge : shape.isMerge target = true) :
    merges target := by
  obtain ⟨reachable, edge, behind⟩ := forward
  have later : target ≠ 0 := by
    rintro rfl
    rw [place_entry] at behind
    exact Nat.not_lt_zero _ behind
  obtain ⟨above, immediate⟩ := exists_immediateDominator (.step reachable edge trivial) later
  have strict := (immediateDominator_iff.mp immediate).1
  rw [← made] at immediate
  exact inside.merges isMerge immediate (strict.1.of_edge reachable edge strict.2) behind

/-- A block that stands in place of a jump finds around it what it needs. -/
theorem child (inside : Inside shape loops merges block) (made : shape = .of shape.graph)
    (reducible : shape.reducible = true) (forward : Forward shape.graph block target)
    (single : shape.isMerge target = false) : Provides shape loops merges target := by
  have immediate : (Analysis.of shape.graph).immediateDominator target = some block := by
    rw [made] at reducible single
    exact immediateDominator_of_not_isMerge reducible forward single
  refine ⟨fun header strict => ?_, fun isMerge above strict behind => ?_⟩
  · exact inside.loops header (dominates_immediateDominator immediate strict)
  · exact inside.merges isMerge above (dominates_immediateDominator immediate strict)
      (forward.2.2.trans behind)

/-- A merge behind a labelled part finds around it what it needs, if the merges behind it are
there. -/
theorem merged (inside : Inside shape loops merges block) (made : shape = .of shape.graph)
    (immediate : shape.immediateDominator target = some block) {merges' : Nat → Prop}
    (later : ∀ {merge}, merges merge → shape.graph.place target < shape.graph.place merge →
      merges' merge) : Provides shape loops merges' target := by
  rw [made] at immediate
  have after := (immediateDominator_iff.mp immediate).1.place_lt
  refine ⟨fun header strict => ?_, fun isMerge above strict behind => ?_⟩
  · exact inside.loops header (dominates_immediateDominator immediate strict)
  · refine later (inside.merges isMerge above ?_ (after.trans behind)) behind
    exact dominates_immediateDominator immediate strict

end Inside

end Bytescript.Translation
