import Bytescript.Proofs.Failure
import Bytescript.Proofs.Script.References
import Bytescript.Translation.Block

/-!
# The variables that hold values

While instructions are translated, every value on the stack is in the variable that its kind and
depth name.  What an instruction uses is in variables of the stack before it, in local variables
of the method, or in variables that the instruction itself assigns, and the same is true of the
stack that it leaves.  So if the variables of the stack at the beginning of a block are known, and
all that its statements introduce, then every variable that the block uses is known, and so are
those of the stack at its end.
-/

set_option autoImplicit false

namespace Bytescript.Translation

open Script Expression

variable {known : Variable → Prop} {allowed : Reference → Prop} {α β : Type}

/-! ## Stacks -/

/-- The variables that hold the values of a stack, the top first. -/
def holders : Stack → List Variable
  | [] => []
  | kind :: rest => .stack kind rest.length :: holders rest

/-- All values of a stack are in variables that are known. -/
def Held (known : Variable → Prop) (stack : Stack) : Prop :=
  ∀ holder ∈ holders stack, known holder

theorem held_nil : Held known [] := List.forall_mem_nil _

theorem held_cons {kind : Kind} {rest : Stack} :
    Held known (kind :: rest) ↔ known (.stack kind rest.length) ∧ Held known rest :=
  List.forall_mem_cons

/-- From a stack of known variables, a simulation leaves such a stack, and its result has a
property. -/
def Simulation.Takes (known : Variable → Prop) (simulation : Simulation α)
    (property : α → Prop) : Prop :=
  ∀ stack value after, Held known stack → simulation stack = .ok (value, after) →
    property value ∧ Held known after

section Takes

variable {property : β → Prop} {site : Site}

theorem takes_pure {value : β} (holds : property value) :
    Simulation.Takes known (pure value) property := by
  intro _ _ _ held finished
  cases finished
  exact ⟨holds, held⟩

theorem takes_bind {first : Simulation α} {next : α → Simulation β} {between : α → Prop}
    (here : first.Takes known between)
    (there : ∀ value, between value → (next value).Takes known property) :
    Simulation.Takes known (first >>= next) property := by
  intro stack value after held finished
  obtain ⟨middle, rest, one, two⟩ := bindState_eq_ok.mp finished
  obtain ⟨holds, held⟩ := here stack middle rest held one
  exact there middle holds rest value after held two

/-- What does not look at the stack leaves it as it is. -/
theorem takes_lift {computation : Except Failure α} {between : α → Prop}
    (holds : ∀ value, computation = .ok value → between value) :
    Simulation.Takes known (liftM computation) between := by
  intro stack value after held finished
  obtain ⟨middle, made, same⟩ := bind_eq_ok.mp finished
  cases same
  exact ⟨holds value made, held⟩

theorem takes_popAny : (popAny site).Takes known fun taken => known taken.2 := by
  intro stack value after held finished
  cases stack with
  | nil => cases finished
  | cons kind rest =>
    cases finished
    exact held_cons.mp held

theorem takes_pop (kind : Kind) : (pop site kind).Takes known known := by
  refine takes_bind takes_popAny fun ⟨found, value⟩ here => ?_
  dsimp only
  split
  · exact takes_pure here
  · exact fun _ _ _ _ finished => nomatch finished

theorem takes_popArguments (types : List FieldType) :
    (popArguments site types).Takes known fun values => ∀ value ∈ values, known value := by
  induction types with
  | nil => exact takes_pure (List.forall_mem_nil _)
  | cons type rest ih =>
    exact takes_bind ih fun later others => takes_bind (takes_pop _) fun value here =>
      takes_pure (List.forall_mem_cons.mpr ⟨here, others⟩)

theorem takes_popInts (count : Nat) :
    (popInts site count).Takes known fun values => ∀ value ∈ values, known value := by
  induction count with
  | zero => exact takes_pure (List.forall_mem_nil _)
  | succ count ih =>
    refine takes_bind (takes_pop _) fun last here => takes_bind ih fun first others => ?_
    exact takes_pure (List.forall_mem_append.mpr ⟨others, List.forall_mem_singleton.mpr here⟩)

end Takes

/-! ## Moving values around -/

theorem popAny_eq_ok {site : Site} {stack after : Stack} {kind : Kind} {value : Variable} :
    popAny site stack = .ok ((kind, value), after) ↔
      stack = kind :: after ∧ value = .stack kind after.length := by
  cases stack with
  | nil => simp [popAny, Site.malformed, Flow.malformed, failCompile]
  | cons top rest =>
    constructor
    · rintro ⟨⟩
      exact ⟨rfl, rfl⟩
    · rintro ⟨⟨⟩, rfl⟩
      rfl

theorem eq_cons_of_pop {site : Site} {stack after : Stack} {kind : Kind} {value : Variable}
    (finished : pop site kind stack = .ok (value, after)) :
    stack = kind :: after ∧ value = .stack kind after.length := by
  obtain ⟨⟨found, taken⟩, rest, popped, ended⟩ := bindState_eq_ok.mp finished
  obtain ⟨rfl, rfl⟩ := popAny_eq_ok.mp popped
  dsimp only at ended
  split at ended
  next same =>
    cases ended
    exact ⟨by rw [same], by rw [same]⟩
  next => cases ended

/-- The values that are taken were at the top of the stack. -/
theorem eq_append_of_popWords {site : Site} {words : Nat} {stack after : Stack}
    {values : List (Kind × Variable)} (finished : popWords site words stack = .ok (values, after)) :
    stack = (values.map Prod.fst).reverse ++ after := by
  fun_induction popWords site words generalizing stack values after with
  | case1 =>
    cases finished
    rfl
  | case2 =>
    obtain ⟨⟨kind, value⟩, rest, popped, ended⟩ := bindState_eq_ok.mp finished
    obtain ⟨rfl, _⟩ := popAny_eq_ok.mp popped
    dsimp only at ended
    split at ended
    · cases ended
    · cases ended
      rfl
  | case3 words ih1 ih2 =>
    obtain ⟨⟨kind, value⟩, rest, popped, ended⟩ := bindState_eq_ok.mp finished
    obtain ⟨rfl, _⟩ := popAny_eq_ok.mp popped
    dsimp only at ended
    split at ended
    · obtain ⟨below, rest', others, same⟩ := bindState_eq_ok.mp ended
      cases same
      simp [ih1 others]
    · obtain ⟨below, rest', others, same⟩ := bindState_eq_ok.mp ended
      cases same
      simp [ih2 others]

theorem takes_popWords {site : Site} (words : Nat) :
    (popWords site words).Takes known fun values => ∀ value ∈ values, known value.2 := by
  fun_induction popWords site words with
  | case1 => exact takes_pure (List.forall_mem_nil _)
  | case2 =>
    refine takes_bind takes_popAny fun ⟨kind, value⟩ here => ?_
    dsimp only
    split
    · exact fun _ _ _ _ finished => nomatch finished
    · exact takes_pure (List.forall_mem_singleton.mpr here)
  | case3 words ih1 ih2 =>
    refine takes_bind takes_popAny fun ⟨kind, value⟩ here => ?_
    have all {below : List (Kind × Variable)} (others : ∀ value ∈ below, known value.2) :
        ∀ taken ∈ below ++ [(kind, value)], known taken.2 :=
      List.forall_mem_append.mpr ⟨others, List.forall_mem_singleton.mpr here⟩
    dsimp only
    split
    · exact takes_bind ih1 fun below others => takes_pure (all others)
    · exact takes_bind ih2 fun below others => takes_pure (all others)

/-- Values that are put back end up where they were. -/
theorem eq_append_of_pushBack {values : List (Kind × Variable)} {stack after : Stack}
    (finished : pushBack values stack = .ok ((), after)) :
    after = (values.map Prod.fst).reverse ++ stack := by
  induction values generalizing stack with
  | nil =>
    cases finished
    rfl
  | cons first rest ih =>
    obtain ⟨value, between, pushed, ended⟩ := bindState_eq_ok.mp finished
    cases pushed
    simp [ih ended]

/-! ## Effects -/

/-- If everything is known that an effect introduces, then so is everything that it uses, and the
values of the stack after it are in known variables.  It only refers to what is allowed. -/
def Effect.Closes (known : Variable → Prop) (allowed : Reference → Prop) (effect : Effect)
    (after : Stack) : Prop :=
  (∀ statement ∈ effect.statements, ∀ source ∈ statement.introduced, known source) →
    (∀ statement ∈ effect.statements, (Part.statement statement).RefersOnly known allowed) ∧
      (∀ exit ∈ effect.exit, ∀ part ∈ exit.parts, part.RefersOnly known allowed) ∧
      Held known after

/-- Wherever a simulation begins with a stack of known variables, its effect is closed. -/
def Simulation.Closes (known : Variable → Prop) (allowed : Reference → Prop)
    (simulation : Simulation Effect) : Prop :=
  ∀ stack effect after, Held known stack → simulation stack = .ok (effect, after) →
    effect.Closes known allowed after

section Closes

variable {site : Site}

theorem closes_after {first : Simulation α} {next : α → Simulation Effect} {between : α → Prop}
    (takes : first.Takes known between)
    (closes : ∀ value, between value → (next value).Closes known allowed) :
    Simulation.Closes known allowed (first >>= next) := by
  intro stack effect after held finished
  obtain ⟨middle, rest, one, two⟩ := bindState_eq_ok.mp finished
  obtain ⟨holds, held⟩ := takes stack middle rest held one
  exact closes middle holds rest effect after held two

/-- What does not look at the stack only decides how the simulation goes on. -/
theorem closes_lift {computation : Except Failure α} {next : α → Simulation Effect}
    (closes : ∀ value, computation = .ok value → (next value).Closes known allowed) :
    Simulation.Closes known allowed (liftM computation >>= next) :=
  have made : Simulation.Takes known (liftM computation) fun value => computation = .ok value :=
    takes_lift fun _ made => made
  closes_after made closes

theorem closes_failure {failure : Failure} :
    Simulation.Closes known allowed (fun _ => .error failure) := by
  intro _ _ _ _ finished
  cases finished

/-- An effect that leaves the stack as it is. -/
theorem closes_pure {effect : Effect}
    (refer : ∀ statement ∈ effect.statements, statement.RefersOnly (Readable known) allowed)
    (exits : ∀ exit ∈ effect.exit, ∀ part ∈ exit.parts, part.RefersOnly known allowed) :
    Simulation.Closes known allowed (pure effect) := by
  intro stack _ after held finished introduced
  cases finished
  exact ⟨fun statement member => (refer statement member).part (introduced statement member),
    exits, held⟩

theorem closes_plain {statements : List Statement}
    (refer : ∀ statement ∈ statements, statement.RefersOnly (Readable known) allowed) :
    Simulation.Closes known allowed (pure (.plain statements)) :=
  closes_pure refer fun _ none => nomatch none

theorem closes_nil : Simulation.Closes known allowed (pure (.plain [])) :=
  closes_plain (List.forall_mem_nil _)

theorem closes_single {statement : Statement}
    (refers : statement.RefersOnly (Readable known) allowed) :
    Simulation.Closes known allowed (pure (.plain [statement])) :=
  closes_plain (List.forall_mem_singleton.mpr refers)

theorem closes_ends {exit : Exit} (parts : ∀ part ∈ exit.parts, part.RefersOnly known allowed) :
    Simulation.Closes known allowed (pure (.ends exit)) := by
  refine closes_pure (List.forall_mem_nil _) fun other same => ?_
  cases same
  exact parts

/-- Several values are put on the stack, one after the other. -/
theorem pushCopies_closes {values : List (Kind × Variable)} {stack after : Stack}
    {copies : List Statement} (reads : ∀ value ∈ values, Readable known value.2)
    (held : Held known stack) (finished : pushCopies values stack = .ok (copies, after))
    (introduced : ∀ statement ∈ copies, ∀ source ∈ statement.introduced, known source) :
    (∀ statement ∈ copies, (Part.statement statement).RefersOnly known allowed) ∧
      Held known after := by
  induction values generalizing stack copies with
  | nil =>
    cases finished
    exact ⟨List.forall_mem_nil _, held⟩
  | cons first rest ih =>
    obtain ⟨copy, between, pushed, ended⟩ := bindState_eq_ok.mp finished
    obtain ⟨others, between', copied, same⟩ := bindState_eq_ok.mp ended
    cases pushed
    cases same
    obtain ⟨readFirst, readRest⟩ := List.forall_mem_cons.mp reads
    obtain ⟨here, there⟩ := List.forall_mem_cons.mp introduced
    have held' : Held known (first.1 :: stack) :=
      held_cons.mpr ⟨here _ List.mem_cons_self, held⟩
    obtain ⟨used, left⟩ := ih readRest held' copied there
    have refers : (Statement.assign (.stack first.1 stack.length) (.read first.2)).RefersOnly
        (Readable known) allowed := refersOnly_read.mpr readFirst
    exact ⟨List.forall_mem_cons.mpr ⟨refers.part here, used⟩, left⟩

theorem pushes_closes {kind : Kind} {expression : Expression}
    (refers : expression.RefersOnly (Readable known) allowed) :
    (pushes kind expression).Closes known allowed := by
  intro stack _ after held finished introduced
  cases finished
  have here := List.forall_mem_singleton.mp introduced
  have stated : (Statement.assign (.stack kind stack.length) expression).RefersOnly
      (Readable known) allowed := refers
  exact ⟨List.forall_mem_singleton.mpr (stated.part here), (fun _ none => nomatch none),
    held_cons.mpr ⟨here _ List.mem_cons_self, held⟩⟩

theorem unary_closes {source target : Kind} {make : Expression → Expression}
    (refers : ∀ {operand : Expression}, operand.RefersOnly (Readable known) allowed →
      (make operand).RefersOnly (Readable known) allowed) :
    (unary site source target make).Closes known allowed :=
  closes_after (takes_pop _) fun _ here => pushes_closes (refers (refersOnly_read.mpr (.inr here)))

theorem binary_closes {left right target : Kind} {make : Expression → Expression → Expression}
    (refers : ∀ {first second : Expression}, first.RefersOnly (Readable known) allowed →
      second.RefersOnly (Readable known) allowed →
        (make first second).RefersOnly (Readable known) allowed) :
    (binary site left right target make).Closes known allowed :=
  closes_after (takes_pop _) fun _ there => closes_after (takes_pop _) fun _ here =>
    pushes_closes (refers (refersOnly_read.mpr (.inr here)) (refersOnly_read.mpr (.inr there)))

/-! ## Rearranging -/

theorem refersOnly_setAside {values : List (Kind × Variable)}
    (held : ∀ value ∈ values, known value.2) :
    ∀ statement ∈ (setAside values).1, statement.RefersOnly (Readable known) allowed := by
  intro statement member
  obtain ⟨⟨value, number⟩, numbered, rfl⟩ := List.mem_map.mp member
  have listed : value ∈ values := List.fst_mem_of_mem_zipIdx numbered
  exact refersOnly_read.mpr (.inr (held value listed))

/-- Values that are put aside are in temporaries that get assigned. -/
theorem known_setAside {values : List (Kind × Variable)}
    (introduced : ∀ statement ∈ (setAside values).1, ∀ source ∈ statement.introduced,
      known source) : ∀ value ∈ (setAside values).2, known value.2 := by
  intro saved member
  obtain ⟨⟨value, number⟩, numbered, rfl⟩ := List.mem_map.mp member
  exact introduced _ (List.mem_map_of_mem numbered) _ List.mem_cons_self

/-- The upper values are put above the lower ones, and perhaps below them as well. -/
theorem mem_of_mem_reordered {value : Kind × Variable} {values : List (Kind × Variable)}
    {count : Nat} {duplicates : Bool}
    (member : value ∈ if duplicates then values.drop count ++ values.take count ++ values.drop count
      else values.drop count ++ values.take count) : value ∈ values := by
  have lower : value ∈ values.take count → value ∈ values := List.mem_of_mem_take
  have upper : value ∈ values.drop count → value ∈ values := List.mem_of_mem_drop
  split at member
  · rw [List.mem_append, List.mem_append] at member
    exact member.elim (·.elim upper lower) upper
  · exact (List.mem_append.mp member).elim upper lower

theorem rearrange_closes (how : Rearrangement) : (rearrange site how).Closes known allowed := by
  intro stack effect after held finished introduced
  obtain ⟨top, between, popped, ended⟩ := bindState_eq_ok.mp finished
  obtain ⟨under, below, popped', ended⟩ := bindState_eq_ok.mp ended
  obtain ⟨knownTop, held'⟩ := takes_popWords how.top stack top between held popped
  obtain ⟨knownUnder, heldBelow⟩ := takes_popWords how.under between under below held' popped'
  dsimp only at ended
  split at ended
  next copies =>
    -- Nothing was taken from under the top values, so these are put back where they were.
    obtain ⟨_, restored, back, ended⟩ := bindState_eq_ok.mp ended
    obtain ⟨copied, left, pushed, same⟩ := bindState_eq_ok.mp ended
    cases same
    have none : under = [] := by simpa using (Bool.and_eq_true_iff.mp copies).1
    have same : restored = stack := by
      rw [eq_append_of_pushBack back, eq_append_of_popWords popped, eq_append_of_popWords popped',
        none]
      rfl
    obtain ⟨used, left⟩ := pushCopies_closes (fun value member => .inr (knownTop value member))
      (same ▸ held) pushed introduced
    exact ⟨used, (fun _ none => nomatch none), left⟩
  next =>
    obtain ⟨copied, left, pushed, same⟩ := bindState_eq_ok.mp ended
    cases same
    obtain ⟨saving, copying⟩ := List.forall_mem_append.mp introduced
    have aside := known_setAside saving
    obtain ⟨used, left⟩ := pushCopies_closes
      (fun value member => .inr (aside value (mem_of_mem_reordered member)))
      heldBelow pushed copying
    refine ⟨List.forall_mem_append.mpr ⟨fun statement member => ?_, used⟩,
      (fun _ none => nomatch none), left⟩
    have held := List.forall_mem_append.mpr ⟨knownUnder, knownTop⟩
    exact (refersOnly_setAside held statement member).part (saving statement member)

end Closes

end Bytescript.Translation
