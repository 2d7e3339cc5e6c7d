import Bytescript.Proofs.Script.Evaluation
import Bytescript.Translation.Stack

/-!
# The values of a stack

The variable of a value is named by its kind and by how many values lie below it.  So the kinds of
a stack say where its values are, and what the variables hold says which values they are.
-/

set_option autoImplicit false

namespace Bytescript.Translation

open Script

variable {Other : Type}

/-- The values of kinds that lie above a number of others, the top first, with the variables that
hold them. -/
def located (height : Nat) : Stack → List (Kind × Variable)
  | [] => []
  | kind :: rest => (kind, .stack kind (height + rest.length)) :: located height rest

/-- The values that the variables hold for kinds above a number of others. -/
def heldAbove (memory : Memory Other) (height : Nat) (kinds : Stack) :
    List (Kind × Value Other) :=
  (located height kinds).map (Prod.map id memory)

/-- The values that the variables of a stack hold, the top first, with their kinds. -/
def held (memory : Memory Other) (stack : Stack) : List (Kind × Value Other) :=
  heldAbove memory 0 stack

/-- A variable that does not hold a value of the stack at a height or above. -/
def IsBelow (height : Nat) (holder : Variable) : Prop :=
  ∀ kind depth, holder = .stack kind depth → depth < height

theorem IsBelow.mono {height height' : Nat} {holder : Variable} (below : IsBelow height holder)
    (le : height ≤ height') : IsBelow height' holder :=
  fun kind depth same => (below kind depth same).trans_le le

theorem isBelow_temporary (height number : Nat) : IsBelow height (.temporary number) :=
  fun _ _ same => nomatch same

theorem located_append {height : Nat} {upper under : Stack} :
    located height (upper ++ under) =
      located (height + under.length) upper ++ located height under := by
  induction upper with
  | nil => rfl
  | cons kind rest ih =>
    rw [List.cons_append, located, located, ih, List.length_append, List.cons_append]
    congr 3
    omega

theorem map_fst_located (height : Nat) (kinds : Stack) :
    (located height kinds).map Prod.fst = kinds := by
  induction kinds with
  | nil => rfl
  | cons kind rest ih => rw [located, List.map_cons, ih]

theorem exists_of_mem_located {height : Nat} {kinds : Stack} {value : Kind × Variable}
    (member : value ∈ located height kinds) :
    ∃ kind depth, value.2 = .stack kind depth ∧ depth < height + kinds.length := by
  induction kinds with
  | nil => cases member
  | cons kind rest ih =>
    rcases List.mem_cons.mp member with rfl | later
    · exact ⟨kind, height + rest.length, rfl, Nat.lt_succ_self _⟩
    · obtain ⟨kind', depth, holder, low⟩ := ih later
      exact ⟨kind', depth, holder, low.trans (Nat.lt_succ_self _)⟩

theorem isBelow_of_mem_located {height : Nat} {kinds : Stack} {value : Kind × Variable}
    (member : value ∈ located height kinds) : IsBelow (height + kinds.length) value.2 := by
  obtain ⟨kind, depth, holder, low⟩ := exists_of_mem_located member
  intro kind' depth' same
  cases holder.symm.trans same
  exact low

theorem not_temporary_of_mem_located {height : Nat} {kinds : Stack} {value : Kind × Variable}
    (member : value ∈ located height kinds) (number : Nat) : value.2 ≠ .temporary number := by
  obtain ⟨kind, depth, holder, _⟩ := exists_of_mem_located member
  rw [holder]
  exact nofun

theorem map_fst_heldAbove (memory : Memory Other) (height : Nat) (kinds : Stack) :
    (heldAbove memory height kinds).map Prod.fst = kinds := by
  rw [heldAbove, List.map_map]
  exact map_fst_located height kinds

theorem held_append (memory : Memory Other) (upper under : Stack) :
    held memory (upper ++ under) = heldAbove memory under.length upper ++ held memory under := by
  rw [held, heldAbove, located_append, List.map_append, Nat.zero_add]
  rfl

/-- Values are the same where the variables that hold them are. -/
theorem map_held_congr {memory memory' : Memory Other} {values : List (Kind × Variable)}
    (same : ∀ value ∈ values, memory' value.2 = memory value.2) :
    values.map (Prod.map id memory') = values.map (Prod.map id memory) :=
  List.map_congr_left fun value member => congrArg (Prod.mk value.1) (same value member)

theorem map_fst_held (memory : Memory Other) (stack : Stack) :
    (held memory stack).map Prod.fst = stack :=
  map_fst_heldAbove memory 0 stack

/-- Values only depend on the variables of their own positions. -/
theorem heldAbove_congr {memory memory' : Memory Other} {height : Nat} {kinds : Stack}
    (same : ∀ kind depth, depth < height + kinds.length →
      memory' (.stack kind depth) = memory (.stack kind depth)) :
    heldAbove memory' height kinds = heldAbove memory height kinds := by
  refine map_held_congr fun value member => ?_
  obtain ⟨kind, depth, holder, low⟩ := exists_of_mem_located member
  rw [holder]
  exact same kind depth low

theorem held_congr {memory memory' : Memory Other} {stack : Stack}
    (same : ∀ kind depth, depth < stack.length →
      memory' (.stack kind depth) = memory (.stack kind depth)) :
    held memory' stack = held memory stack :=
  heldAbove_congr fun kind depth low => same kind depth (Nat.zero_add stack.length ▸ low)

theorem heldAbove_cons (memory : Memory Other) (height : Nat) (kind : Kind) (rest : Stack) :
    heldAbove memory height (kind :: rest) =
      (kind, memory (.stack kind (height + rest.length))) :: heldAbove memory height rest := rfl

/-- A value that is put above others leaves them as they are. -/
theorem heldAbove_push (memory : Memory Other) (height : Nat) (kind : Kind) (value : Value Other)
    (kinds : Stack) :
    heldAbove (Function.update memory (.stack kind (height + kinds.length)) value) height
      (kind :: kinds) = (kind, value) :: heldAbove memory height kinds := by
  rw [heldAbove_cons, Function.update_self]
  refine congrArg ((kind, value) :: ·) (heldAbove_congr fun kind' depth low => ?_)
  exact Function.update_of_ne (fun same => Nat.ne_of_lt low (Variable.stack.inj same).2) ..

theorem held_push (memory : Memory Other) (kind : Kind) (value : Value Other) (stack : Stack) :
    held (Function.update memory (.stack kind stack.length) value) (kind :: stack) =
      (kind, value) :: held memory stack := by
  conv_lhs => rw [← Nat.zero_add stack.length]
  exact heldAbove_push memory 0 kind value stack

end Bytescript.Translation
