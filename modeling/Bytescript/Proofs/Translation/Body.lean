import Bytescript.Proofs.Translation.Dispatch
import Bytescript.Proofs.Translation.Method
import Bytescript.Proofs.Translation.Nested

/-!
# The code of a method follows its flow

Whatever decides what happens inside of the blocks of a method, the code that the method becomes
visits the same blocks in the same order as a walk through the flow, gives the same exceptions to
handlers, and ends in the same way or does not end at all.  Reducible flows become nested code, and
all others become a dispatch.
-/

set_option autoImplicit false

namespace Bytescript.Translation

open Bytescript.Flow Script Execution

variable {scope : Scope} {pool : ConstantPool} {code : Code} {flow : ControlFlow} {codes : Codes}

theorem bodyOf_reducible (reducible : flow.shape.reducible = true) {skeleton : Skeleton}
    (made : structuredCode flow codes = .ok skeleton) :
    bodyOf flow codes = .ok (.structured skeleton) := by
  rw [bodyOf, if_pos reducible]
  exact bind_eq_ok.mpr ⟨skeleton, made, rfl⟩

theorem bodyOf_irreducible (irreducible : flow.shape.reducible = false) {dispatch : Dispatch}
    (made : dispatchedCode flow codes = .ok dispatch) :
    bodyOf flow codes = .ok (.dispatched dispatch) := by
  rw [bodyOf, if_neg (by simp [irreducible])]
  exact bind_eq_ok.mpr ⟨dispatch, made, rfl⟩

/-- Once the blocks of a method are translated, its body can be written. -/
theorem exists_bodyOf (wellBuilt : flow.WellBuilt) (translated : Translated flow codes) :
    ∃ body, bodyOf flow codes = .ok body := by
  cases reducible : flow.shape.reducible with
  | true =>
    obtain ⟨skeleton, made⟩ := exists_structuredCode wellBuilt translated
    exact ⟨_, bodyOf_reducible reducible made⟩
  | false =>
    obtain ⟨dispatch, made⟩ := exists_dispatchedCode wellBuilt translated
    exact ⟨_, bodyOf_irreducible reducible made⟩

/-- A method with a reducible flow becomes nested code that follows the flow. -/
theorem structured_body_follows (prepared : prepare scope pool code = .ok (flow, codes))
    (reducible : flow.shape.reducible = true) :
    ∃ skeleton, bodyOf flow codes = .ok (.structured skeleton) ∧
      ∀ {Thrown : Type} (oracle : Oracle Thrown),
        Follows oracle (.structured skeleton) flow codes := by
  have wellBuilt := wellBuilt_of_prepare prepared
  have translated := translated_of_prepare prepared
  obtain ⟨skeleton, made⟩ := exists_structuredCode wellBuilt translated
  exact ⟨skeleton, bodyOf_reducible reducible made,
    fun oracle => nested_follows wellBuilt translated reducible made⟩

/-- The scope of a method in a program without other classes. -/
def lone : Scope := ⟨.empty, ⟨"Lone"⟩, "run"⟩

/-- Counts a local variable down to zero.  Exceptions of the loop are thrown again. -/
def countdown : Code where
  maxStack := 1
  maxLocals := 1
  bytecode := [0x84, 0x00, 0xff, 0x1a, 0x9a, 0xff, 0xfc, 0xb1, 0xbf]
  exceptionTable := [⟨0, 7, 8, none⟩]
  lineNumbers := []

theorem structured_countdown_follows :
    ∃ flow codes, prepare lone .empty countdown = .ok (flow, codes) ∧
      flow.shape.reducible = true ∧ ∃ skeleton, bodyOf flow codes = .ok (.structured skeleton) ∧
        ∀ {Thrown : Type} (oracle : Oracle Thrown),
          Follows oracle (.structured skeleton) flow codes := by
  obtain ⟨flow, codes, prepared, reducible⟩ := exists_prepare lone .empty countdown
    (fun flow _ => flow.shape.reducible) (by decide +kernel)
  exact ⟨flow, codes, prepared, reducible, structured_body_follows prepared reducible⟩

/-- Any method can become a dispatch that follows its flow, and becomes one if the flow is not
reducible. -/
theorem dispatched_body_follows (prepared : prepare scope pool code = .ok (flow, codes)) :
    ∃ dispatch, dispatchedCode flow codes = .ok dispatch ∧
      (flow.shape.reducible = false → bodyOf flow codes = .ok (.dispatched dispatch)) ∧
      ∀ {Thrown : Type} (oracle : Oracle Thrown),
        Follows oracle (.dispatched dispatch) flow codes := by
  have wellBuilt := wellBuilt_of_prepare prepared
  have translated := translated_of_prepare prepared
  obtain ⟨dispatch, made⟩ := exists_dispatchedCode wellBuilt translated
  exact ⟨dispatch, made, fun irreducible => bodyOf_irreducible irreducible made,
    fun oracle => dispatch_follows wellBuilt translated made⟩

/-- A loop that is entered at two places.  Exceptions of one of them are thrown again. -/
def twoEntries : Code where
  maxStack := 1
  maxLocals := 1
  bytecode := [0x1a, 0x99, 0x00, 0x06, 0xa7, 0x00, 0x03, 0x1a, 0x99, 0xff, 0xfc, 0xb1, 0xbf]
  exceptionTable := [⟨4, 7, 12, none⟩]
  lineNumbers := []

theorem dispatched_twoEntries_follows :
    ∃ flow codes, prepare lone .empty twoEntries = .ok (flow, codes) ∧
      flow.shape.reducible = false ∧ ∃ dispatch, dispatchedCode flow codes = .ok dispatch ∧
        (flow.shape.reducible = false → bodyOf flow codes = .ok (.dispatched dispatch)) ∧
        ∀ {Thrown : Type} (oracle : Oracle Thrown),
          Follows oracle (.dispatched dispatch) flow codes := by
  obtain ⟨flow, codes, prepared, irreducible⟩ := exists_prepare lone .empty twoEntries
    (fun flow _ => !flow.shape.reducible) (by decide +kernel)
  exact ⟨flow, codes, prepared, by simpa using irreducible, dispatched_body_follows prepared⟩

end Bytescript.Translation
