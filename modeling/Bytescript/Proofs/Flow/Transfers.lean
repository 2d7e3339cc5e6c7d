import Bytescript.ClassFile.Instruction

/-!
# Where execution goes from an instruction

Two questions decide the shape of a flow: which offsets an instruction branches to, and whether
execution may go on with the instruction behind it.  Here they are answered by the instructions
themselves, one case for each kind that does not just go on.
-/

set_option autoImplicit false

namespace Bytescript.Instruction

variable {instruction : Instruction} {target : Nat}

/-- An instruction branches to an offset, at least under some condition. -/
inductive BranchesTo : Instruction → Nat → Prop where
  | ifZero (condition : Comparison) (target : Nat) : BranchesTo (.ifZero condition target) target
  | ifCompare (condition : Comparison) (target : Nat) :
    BranchesTo (.ifCompare condition target) target
  | ifSame (equal : Bool) (target : Nat) : BranchesTo (.ifSame equal target) target
  | ifNull (equal : Bool) (target : Nat) : BranchesTo (.ifNull equal target) target
  | goto (target : Nat) : BranchesTo (.goto target) target
  | jumpSubroutine (target : Nat) : BranchesTo (.jumpSubroutine target) target
  | tableDefault (default : Nat) (low high : Int32) (targets : List Nat) :
    BranchesTo (.tableSwitch default low high targets) default
  | tableCase {default : Nat} {low high : Int32} {targets : List Nat} {target : Nat}
    (listed : target ∈ targets) : BranchesTo (.tableSwitch default low high targets) target
  | lookupDefault (default : Nat) (pairs : List (Int32 × Nat)) :
    BranchesTo (.lookupSwitch default pairs) default
  | lookupCase {default : Nat} {pairs : List (Int32 × Nat)} {key : Int32} {target : Nat}
    (listed : (key, target) ∈ pairs) : BranchesTo (.lookupSwitch default pairs) target

/-- Execution never goes on with the instruction behind one: it jumps or selects a case, returns
from a subroutine, leaves the method, or throws. -/
inductive Diverts : Instruction → Prop where
  | goto (target : Nat) : Diverts (.goto target)
  | jumpSubroutine (target : Nat) : Diverts (.jumpSubroutine target)
  | returnSubroutine (index : Nat) : Diverts (.returnSubroutine index)
  | tableSwitch (default : Nat) (low high : Int32) (targets : List Nat) :
    Diverts (.tableSwitch default low high targets)
  | lookupSwitch (default : Nat) (pairs : List (Int32 × Nat)) :
    Diverts (.lookupSwitch default pairs)
  | leave (kind : Option Kind) : Diverts (.leave kind)
  | throw : Diverts .throw

theorem branchesTo_iff : instruction.BranchesTo target ↔ target ∈ instruction.branchTargets := by
  constructor
  · intro branches
    cases branches with
    | tableCase listed => exact List.mem_cons_of_mem _ listed
    | lookupCase listed => exact List.mem_cons_of_mem _ (List.mem_map_of_mem listed)
    | _ => exact List.mem_cons_self
  · intro listed
    cases instruction with
    | tableSwitch default low high targets =>
      rcases List.mem_cons.mp listed with rfl | other
      · exact .tableDefault ..
      · exact .tableCase other
    | lookupSwitch default pairs =>
      rcases List.mem_cons.mp listed with rfl | other
      · exact .lookupDefault ..
      · obtain ⟨⟨key, target⟩, paired, rfl⟩ := List.mem_map.mp other
        exact .lookupCase paired
    | ifZero | ifCompare | ifSame | ifNull | goto | jumpSubroutine =>
      cases List.mem_singleton.mp listed
      constructor
    | _ => cases listed

theorem diverts_iff : instruction.Diverts ↔ instruction.fallsThrough = false := by
  constructor
  · intro diverts
    cases diverts <;> rfl
  · intro stays
    cases instruction with
    | goto | jumpSubroutine | returnSubroutine | tableSwitch | lookupSwitch | leave | throw =>
      constructor
    | _ => cases stays

theorem not_diverts_iff : ¬ instruction.Diverts ↔ instruction.fallsThrough = true := by
  rw [diverts_iff, Bool.not_eq_false]

end Bytescript.Instruction
