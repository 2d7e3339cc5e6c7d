import Bytescript.Proofs.Flow.Build
import Bytescript.Proofs.Translation.Instruction
import Bytescript.Translation.Block

/-!
# What blocks become

The code of a block leaves it for exactly the offsets at which its instructions say that execution
goes on, and a block that ends by throwing ends with the statement that throws.
-/

set_option autoImplicit false

namespace Bytescript

open Bytescript.Flow Script

/-- The code of a block leads exactly where its instructions do, and ends with a statement that
throws if that is how it is left. -/
structure Script.BlockCode.Suits (code : BlockCode) (block : Block) : Prop where
  targets : ∀ offset, offset ∈ code.exit.targets ↔ block.Continues offset
  throws : code.exit = .throw → ∃ exception, code.statements.getLast? = some (.throw exception)
  actions : ∀ statement ∈ code.statements, statement.IsAction

namespace Translation

/-- What becomes of a run of instructions fits the last of them. -/
theorem translateRun_gives (scope : Scope) (block : Block) {run : List Placed} {last : Placed}
    (ends : run.getLast? = some last) :
    (translateRun scope block run).Gives
      (Effect.Fits (scope.site block last) last.instruction) := by
  fun_induction translateRun scope block run with
  | case1 => cases ends
  | case2 only =>
    cases ends
    exact translate_gives _ _
  | case3 placed rest more ih =>
    rw [List.getLast?_cons_of_ne_nil more] at ends
    refine gives_bind (translate_gives _ _) fun first here =>
      gives_bind (ih ends) fun later there => gives_pure ⟨there.targets, ?_, ?_⟩
    · intro throws
      obtain ⟨exception, final⟩ := there.throws throws
      exact ⟨exception, by rw [List.getLast?_append, final, Option.some_or]⟩
    · intro statement member
      rcases List.mem_append.mp member with member | member
      · exact here.actions statement member
      · exact there.actions statement member

theorem translateBlock_suits {scope : Scope} {block : Block} {stack after : Stack}
    {code : BlockCode} (occupied : block.body ≠ [])
    (translated : translateBlock scope block stack = .ok (code, after)) : code.Suits block := by
  obtain ⟨⟨effect, rest⟩, run, same⟩ := bind_eq_ok.mp translated
  cases same
  have ends := List.getLast?_eq_some_getLast occupied
  obtain ⟨targets, throws, actions⟩ := translateRun_gives scope block ends stack effect _ run
  refine ⟨fun offset => ?_, fun exit => throws ?_, actions⟩
  · refine (targets offset).trans ⟨fun goes => ⟨_, ends, goes⟩, ?_⟩
    rintro ⟨last, here, goes⟩
    cases ends.symm.trans here
    exact goes
  cases stated : effect.exit with
  | none =>
    rw [stated] at exit
    cases exit
  | some other =>
    rw [stated] at exit
    exact congrArg some exit

end Translation

end Bytescript
