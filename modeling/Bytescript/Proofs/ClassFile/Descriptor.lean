import Bytescript.ClassFile.Descriptor
import Bytescript.Proofs.Failure
import Mathlib.Data.List.TakeWhile

/-!
# Descriptors that are read

The reader looks at one character after the other and never goes back.  From the front of a text
it takes the descriptor of a type, if one stands there, and leaves what follows untouched: a
primitive type is its letter, a class ends at the first semicolon, and an array is as deep as there
are brackets.  So no descriptor is the beginning of another one, and a list of parameters can be
read without knowing where it ends.

Not every type has a descriptor that is read.  An array may have 255 dimensions at most, and the
name of a class must not be empty or hold a semicolon.  Up to these rules reading and writing
undo each other, for single types and for methods alike.
-/

set_option autoImplicit false

namespace Bytescript

/-- A parser accepts the texts of meaningful values and nothing else, and gives each text its
value.  Then no two texts have the same value, and no accepted text is the beginning of another
accepted one, so that nothing may be missing at the end and nothing may follow. -/
structure ParsesExactly {α : Type} (parse : String → Except Failure α) (IsMeaningful : α → Prop)
    (text : α → String) : Prop where
  accepts : ∀ descriptor value,
    parse descriptor = .ok value ↔ IsMeaningful value ∧ descriptor = text value
  injective : ∀ descriptor other value,
    parse descriptor = .ok value → parse other = .ok value → descriptor = other
  whole : ∀ descriptor more value longer,
    parse descriptor = .ok value → parse (descriptor ++ more) = .ok longer → more = ""

/-- The letter of a primitive type stands for no other one. -/
theorem Primitive.eq_letter_of_ofLetter? {char : Char} {type : Primitive}
    (known : ofLetter? char = some type) : char = type.letter := by
  rw [ofLetter?.eq_def] at known
  split at known <;> cases known <;> rfl

namespace FieldType

/-! ## Types that have a descriptor -/

/-- How many dimensions an array has.  Any other type has none. -/
def dimensions : FieldType → Nat
  | array element => element.dimensions + 1
  | primitive _ | object _ => 0

/-- The type of the innermost elements of an array.  Any other type is its own. -/
def innermost : FieldType → FieldType
  | array element => element.innermost
  | primitive type => primitive type
  | object name => object name

/-- The class that is named in the descriptor of a type. -/
def className? : FieldType → Option ClassName
  | array element => element.className?
  | primitive _ => none
  | object name => some name

/-- The class of a type, if there is one, has a name that can stand in a descriptor. -/
def IsNamed (type : FieldType) : Prop :=
  ∀ name ∈ type.className?, name.text ≠ "" ∧ ';' ∉ name.text.toList

instance (type : FieldType) : Decidable type.IsNamed :=
  inferInstanceAs (Decidable (∀ name ∈ type.className?, _ ∧ _))

/-- A type whose descriptor is accepted. -/
structure IsDescribable (type : FieldType) : Prop where
  few : type.dimensions ≤ 255
  named : type.IsNamed

instance (type : FieldType) : Decidable type.IsDescribable :=
  decidable_of_iff (type.dimensions ≤ 255 ∧ type.IsNamed)
    ⟨fun ⟨few, named⟩ => ⟨few, named⟩, fun ⟨few, named⟩ => ⟨few, named⟩⟩

section

variable {type element : FieldType} {chars rest : List Char}

theorem arrayOf_innermost (type : FieldType) : type.innermost.arrayOf type.dimensions = type := by
  induction type with
  | primitive type => rfl
  | object name => rfl
  | array element ih => rw [dimensions, innermost, arrayOf, ih]

theorem dimensions_arrayOf (flat : element.dimensions = 0) (count : Nat) :
    (element.arrayOf count).dimensions = count := by
  induction count with
  | zero => exact flat
  | succ count ih => rw [arrayOf, dimensions, ih]

theorem className?_arrayOf (element : FieldType) (count : Nat) :
    (element.arrayOf count).className? = element.className? := by
  induction count with
  | zero => rfl
  | succ count ih => rw [arrayOf, className?, ih]

theorem className?_innermost (type : FieldType) :
    type.innermost.className? = type.className? := by
  rw [← className?_arrayOf type.innermost type.dimensions, arrayOf_innermost]

theorem dimensions_innermost (type : FieldType) : type.innermost.dimensions = 0 := by
  induction type with
  | primitive type => rfl
  | object name => rfl
  | array element ih => exact ih

theorem chars_arrayOf (element : FieldType) (count : Nat) :
    (element.arrayOf count).chars = List.replicate count '[' ++ element.chars := by
  induction count with
  | zero => rfl
  | succ count ih => rw [arrayOf, chars, ih, List.replicate_succ, List.cons_append]

/-- A descriptor is a row of brackets and then the descriptor of the innermost elements. -/
theorem chars_eq (type : FieldType) :
    type.chars = List.replicate type.dimensions '[' ++ type.innermost.chars := by
  rw [← chars_arrayOf, arrayOf_innermost]

/-- A descriptor begins with a letter that ends no list of parameters and is not that of methods
without a result. -/
theorem exists_chars_eq_cons (type : FieldType) :
    ∃ first later, type.chars = first :: later ∧ first ≠ ')' ∧ first ≠ 'V' := by
  cases type with
  | primitive type => exact ⟨type.letter, [], rfl, by cases type <;> decide⟩
  | object name => exact ⟨'L', _, rfl, by decide⟩
  | array element => exact ⟨'[', _, rfl, by decide⟩

/-! ## Reading one type -/

theorem readElement_primitive (type : Primitive) (rest : List Char) :
    readElement ((primitive type).chars ++ rest) = .ok (primitive type, rest) := by
  cases type <;> rfl

/-- The name of a class ends at the first semicolon. -/
theorem readElement_object {name : ClassName} (named : (object name).IsNamed) (rest : List Char) :
    readElement ((object name).chars ++ rest) = .ok (object name, rest) := by
  obtain ⟨written, whole⟩ := named name rfl
  have plain : ∀ char ∈ name.text.toList, decide (char ≠ ';') = true := by
    intro char member
    exact decide_eq_true fun same => whole (same ▸ member)
  have spelled : (object name).chars ++ rest = 'L' :: (name.text.toList ++ ';' :: rest) := by
    simp [chars]
  have present : name.text.toList ≠ [] := by simpa using written
  rw [spelled, readElement, List.dropWhile_append_of_pos plain,
    List.takeWhile_append_of_pos plain]
  simp [present]

theorem readElement_innermost (named : type.IsNamed) (rest : List Char) :
    readElement (type.innermost.chars ++ rest) = .ok (type.innermost, rest) := by
  have flat := dimensions_innermost type
  rw [IsNamed, ← className?_innermost] at named
  cases inner : type.innermost with
  | primitive primitive => exact readElement_primitive primitive rest
  | object name =>
    rw [inner] at named
    exact readElement_object named rest
  | array element =>
    rw [inner] at flat
    cases flat

/-- What stands before the first semicolon holds none. -/
theorem cut_at_semicolon {later after : List Char} {first : Char}
    (dropped : later.dropWhile (· ≠ ';') = first :: after) :
    ';' ∉ later.takeWhile (· ≠ ';') ∧ later = later.takeWhile (· ≠ ';') ++ ';' :: after := by
  have stops := List.head?_dropWhile_not (fun char => decide (char ≠ ';')) later
  have parts := List.takeWhile_append_dropWhile (p := fun char => decide (char ≠ ';')) (l := later)
  rw [dropped] at stops parts
  obtain rfl : first = ';' := by simpa using stops
  refine ⟨fun member => ?_, parts.symm⟩
  have other := List.mem_takeWhile_imp (p := fun char => decide (char ≠ ';')) member
  exact of_decide_eq_true other rfl

/-- What is read without brackets is not an array, and its descriptor stands in front. -/
theorem eq_of_readElement (read : readElement chars = .ok (element, rest)) :
    element.dimensions = 0 ∧ element.IsNamed ∧ chars = element.chars ++ rest := by
  rw [readElement.eq_def] at read
  split at read
  · cases read
  next later =>
    split at read
    · cases read
    next first after dropped =>
      obtain ⟨whole, parts⟩ := cut_at_semicolon dropped
      dsimp only at read
      generalize later.takeWhile (· ≠ ';') = name at whole parts read
      split at read
      · cases read
      next written =>
        cases read
        refine ⟨rfl, ?_, by simp [chars, parts]⟩
        rintro _ ⟨⟩
        exact ⟨by simpa using written, by simpa using whole⟩
  next char later _ =>
    split at read
    next type known =>
      cases read
      refine ⟨rfl, nofun, ?_⟩
      rw [Primitive.eq_letter_of_ofLetter? known]
      rfl
    · cases read

/-- The innermost elements are no array, so no bracket is left. -/
theorem length_brackets (type : FieldType) (rest : List Char) :
    ((type.chars ++ rest).takeWhile (· = '[')).length = type.dimensions := by
  have brackets : ∀ char ∈ List.replicate type.dimensions '[', decide (char = '[') = true := by
    intro char member
    exact decide_eq_true (List.eq_of_mem_replicate member)
  have flat := dimensions_innermost type
  rw [chars_eq, List.append_assoc, List.takeWhile_append_of_pos brackets]
  cases inner : type.innermost with
  | primitive primitive => cases primitive <;> simp [chars, Primitive.letter]
  | object name => simp [chars]
  | array element =>
    rw [inner] at flat
    cases flat

/-- The brackets at the front of a text are as many as are counted. -/
theorem brackets_append_drop (text : List Char) :
    List.replicate (text.takeWhile (· = '[')).length '[' ++
      text.drop (text.takeWhile (· = '[')).length = text := by
  have front := List.prefix_iff_eq_take.mp
    (List.takeWhile_prefix (fun char => decide (char = '[')) (l := text))
  have brackets : List.replicate (text.takeWhile (· = '[')).length '[' =
      text.takeWhile (· = '[') := by
    refine (List.eq_replicate_of_mem ?_).symm
    intro char member
    exact of_decide_eq_true (List.mem_takeWhile_imp (p := fun char => decide (char = '[')) member)
  rw [brackets]
  nth_rewrite 1 [front]
  exact List.take_append_drop _ text

/-- A type is read from the front of a text if and only if it can be described and its descriptor
stands there. -/
theorem read_eq_ok :
    read chars = .ok (type, rest) ↔ type.IsDescribable ∧ chars = type.chars ++ rest := by
  constructor
  · intro found
    have whole := brackets_append_drop chars
    rw [read] at found
    generalize (chars.takeWhile (· = '[')).length = count at found whole
    split at found
    · cases found
    next few =>
      split at found
      next element after here =>
        cases found
        obtain ⟨flat, named, same⟩ := eq_of_readElement here
        refine ⟨⟨?_, ?_⟩, ?_⟩
        · rw [dimensions_arrayOf flat]
          omega
        · rwa [IsNamed, className?_arrayOf]
        · rw [← whole, same, chars_arrayOf, List.append_assoc]
      · cases found
  · rintro ⟨⟨few, named⟩, rfl⟩
    rw [read, length_brackets, if_neg (by omega), chars_eq, List.append_assoc,
      List.drop_left' (List.length_replicate ..)]
    rw [readElement_innermost named]
    exact congrArg (fun type => Except.ok (type, rest)) (arrayOf_innermost type)

/-- Every type takes something off the text. -/
theorem length_lt_of_read (found : read chars = .ok (type, rest)) :
    rest.length < chars.length := by
  obtain ⟨_, rfl⟩ := read_eq_ok.mp found
  obtain ⟨first, later, same, _⟩ := exists_chars_eq_cons type
  rw [same, List.cons_append, List.length_cons, List.length_append]
  omega

/-- Descriptors are told apart whatever follows them. -/
theorem chars_append_inj {other : FieldType} {rest' : List Char} (described : type.IsDescribable)
    (described' : other.IsDescribable) (same : type.chars ++ rest = other.chars ++ rest') :
    type = other ∧ rest = rest' := by
  have one : read (type.chars ++ rest) = .ok (type, rest) := read_eq_ok.mpr ⟨described, rfl⟩
  have two : read (type.chars ++ rest) = .ok (other, rest') := read_eq_ok.mpr ⟨described', same⟩
  rw [one] at two
  exact Prod.mk.inj (Except.ok.inj two)

/-- No descriptor is the beginning of another one. -/
theorem eq_nil_of_chars_append {other : FieldType} (described : type.IsDescribable)
    (described' : other.IsDescribable) (same : type.chars ++ rest = other.chars) : rest = [] :=
  (chars_append_inj described described' (same.trans (List.append_nil _).symm)).2

/-- A whole text is read if it is the descriptor of a type. -/
theorem parse_eq_ok {descriptor : String} :
    parse descriptor = .ok type ↔ type.IsDescribable ∧ descriptor = type.text := by
  have whole : parse descriptor = .ok type ↔ read descriptor.toList = .ok (type, []) := by
    rw [parse]
    cases read descriptor.toList with
    | error failure => simp
    | ok found =>
      obtain ⟨other, rest⟩ := found
      cases rest with
      | nil => simp
      | cons first later => simp
  rw [whole, read_eq_ok, List.append_nil, text, ← String.toList_inj, String.toList_ofList]

end

end FieldType

namespace MethodType

open FieldType

/-- A method whose descriptor is accepted. -/
structure IsDescribable (type : MethodType) : Prop where
  parameters : ∀ parameter ∈ type.parameters, parameter.IsDescribable
  result : ∀ result ∈ type.result, result.IsDescribable

instance (type : MethodType) : Decidable type.IsDescribable :=
  decidable_of_iff ((∀ parameter ∈ type.parameters, parameter.IsDescribable) ∧
      ∀ result ∈ type.result, result.IsDescribable)
    ⟨fun ⟨parameters, result⟩ => ⟨parameters, result⟩,
      fun ⟨parameters, result⟩ => ⟨parameters, result⟩⟩

section

variable {chars rest : List Char} {types : List FieldType}

/-! ## Reading parameters -/

theorem readParameters_close (steps : Nat) (rest : List Char) :
    readParameters steps (')' :: rest) = .ok ([], rest) := by
  cases steps <;> rfl

/-- As long as the list is not closed, a type is read. -/
theorem readParameters_open (steps : Nat) (opened : ∀ rest, chars ≠ ')' :: rest) :
    readParameters (steps + 1) chars = do
      let (type, rest) ← FieldType.read chars
      let (types, rest) ← readParameters steps rest
      return (type :: types, rest) := by
  rw [readParameters.eq_def]
  split
  next rest => exact absurd rfl (opened rest)
  next same _ => cases same
  next same _ => cases same; rfl

/-- Parameters are read from the front of a text if and only if their descriptors stand there with a
parenthesis behind them. -/
theorem readParameters_eq_ok {steps : Nat} (enough : chars.length < steps) :
    readParameters steps chars = .ok (types, rest) ↔
      (∀ type ∈ types, type.IsDescribable) ∧
        chars = types.flatMap FieldType.chars ++ ')' :: rest := by
  induction steps generalizing chars types with
  | zero => cases enough
  | succ steps ih =>
    by_cases closed : ∃ later, chars = ')' :: later
    · obtain ⟨later, rfl⟩ := closed
      rw [readParameters_close]
      constructor
      · intro found
        cases found
        exact ⟨nofun, rfl⟩
      · rintro ⟨_, same⟩
        cases types with
        | nil =>
          cases same
          rfl
        | cons type types =>
          obtain ⟨first, more, begins, other, _⟩ := exists_chars_eq_cons type
          rw [List.flatMap_cons, begins] at same
          exact absurd (List.cons.inj same).1.symm other
    · have opened : ∀ later, chars ≠ ')' :: later := not_exists.mp closed
      rw [readParameters_open steps opened]
      constructor
      · intro found
        obtain ⟨⟨type, after⟩, first, found⟩ := bind_eq_ok.mp found
        obtain ⟨⟨others, last⟩, second, found⟩ := bind_eq_ok.mp found
        cases found
        have shorter := length_lt_of_read first
        obtain ⟨described, rfl⟩ := read_eq_ok.mp first
        obtain ⟨later, rfl⟩ := (ih (by omega)).mp second
        exact ⟨List.forall_mem_cons.mpr ⟨described, later⟩, by simp⟩
      · rintro ⟨described, same⟩
        cases types with
        | nil => exact absurd same (opened rest)
        | cons type types =>
          rw [List.forall_mem_cons] at described
          rw [List.flatMap_cons, List.append_assoc] at same
          have first := read_eq_ok.mpr ⟨described.1, same⟩
          have shorter := length_lt_of_read first
          have second := (ih (by omega)).mpr ⟨described.2, rfl⟩
          exact bind_eq_ok.mpr ⟨_, first, bind_eq_ok.mpr ⟨_, second, rfl⟩⟩

/-- Parameters that are written are read, whatever follows. -/
theorem readParameters_written (described : ∀ type ∈ types, type.IsDescribable)
    (rest : List Char) :
    readParameters ((types.flatMap FieldType.chars ++ ')' :: rest).length + 1)
      (types.flatMap FieldType.chars ++ ')' :: rest) = .ok (types, rest) :=
  (readParameters_eq_ok (Nat.lt_succ_self _)).mpr ⟨described, rfl⟩

/-- Another step is not needed once there are more steps than characters. -/
theorem readParameters_succ {steps : Nat} (enough : chars.length < steps) :
    readParameters (steps + 1) chars = readParameters steps chars := by
  induction steps generalizing chars with
  | zero => cases enough
  | succ steps ih =>
    by_cases closed : ∃ later, chars = ')' :: later
    · obtain ⟨later, rfl⟩ := closed
      rw [readParameters_close, readParameters_close]
    · have opened : ∀ later, chars ≠ ')' :: later := not_exists.mp closed
      rw [readParameters_open _ opened, readParameters_open _ opened]
      cases first : FieldType.read chars with
      | error failure => rfl
      | ok found =>
        obtain ⟨type, after⟩ := found
        have shorter := length_lt_of_read first
        have same : readParameters (steps + 1) after = readParameters steps after :=
          ih (by omega)
        show (readParameters (steps + 1) after >>= _) = (readParameters steps after >>= _)
        rw [same]

/-- The list of parameters ends by itself: giving the reader more steps changes nothing. -/
theorem readParameters_eq_of_lt {steps : Nat} (enough : chars.length < steps) :
    readParameters steps chars = readParameters (chars.length + 1) chars := by
  induction steps, enough using Nat.le_induction with
  | base => rfl
  | succ steps enough ih => rw [readParameters_succ enough, ih]

/-! ## Reading whole methods -/

theorem readResult_chars {type : FieldType} (described : type.IsDescribable) :
    readResult type.chars = .ok (some type) := by
  have found : FieldType.read type.chars = .ok (type, []) :=
    read_eq_ok.mpr ⟨described, (List.append_nil _).symm⟩
  obtain ⟨first, later, begins, _, other⟩ := exists_chars_eq_cons type
  rw [readResult.eq_def]
  split
  next same => exact absurd (List.cons.inj (begins.symm.trans same)).1 other
  next same => exact absurd (List.cons.inj (begins.symm.trans same)).1 other
  next => rw [found]

/-- A result is read if nothing else stands there. -/
theorem readResult_eq_ok {result : Option FieldType} :
    readResult chars = .ok result ↔
      (∀ type ∈ result, type.IsDescribable) ∧ chars = resultChars result := by
  constructor
  · intro found
    rw [readResult.eq_def] at found
    split at found
    · cases found
      exact ⟨nofun, rfl⟩
    · cases found
    · split at found
      next type here =>
        cases found
        obtain ⟨described, same⟩ := read_eq_ok.mp here
        refine ⟨?_, by rw [same, List.append_nil, resultChars]⟩
        rintro _ ⟨⟩
        exact described
      · cases found
      · cases found
  · rintro ⟨described, rfl⟩
    cases result with
    | none => rfl
    | some type => exact readResult_chars (described type rfl)

/-- A method is read if its parameters stand in parentheses and its result behind them. -/
theorem read_eq_ok {type : MethodType} :
    read chars = .ok type ↔ type.IsDescribable ∧
      chars = '(' :: type.parameters.flatMap FieldType.chars ++ ')' :: resultChars type.result := by
  constructor
  · intro found
    rw [read.eq_def] at found
    split at found
    next later =>
      obtain ⟨⟨parameters, rest⟩, first, found⟩ := bind_eq_ok.mp found
      obtain ⟨result, second, found⟩ := bind_eq_ok.mp found
      cases found
      obtain ⟨described, rfl⟩ := (readParameters_eq_ok (Nat.lt_succ_self _)).mp first
      obtain ⟨described', rfl⟩ := readResult_eq_ok.mp second
      exact ⟨⟨described, described'⟩, rfl⟩
    · cases found
  · rintro ⟨⟨described, described'⟩, rfl⟩
    have first := readParameters_written described (resultChars type.result)
    have second := readResult_eq_ok.mpr ⟨described', rfl⟩
    exact bind_eq_ok.mpr ⟨_, first, bind_eq_ok.mpr ⟨_, second, rfl⟩⟩

theorem parse_eq_ok {descriptor : String} {type : MethodType} :
    parse descriptor = .ok type ↔ type.IsDescribable ∧ descriptor = type.text := by
  have whole : parse descriptor = .ok type ↔ read descriptor.toList = .ok type := by
    rw [parse]
    cases read descriptor.toList <;> simp
  rw [whole, read_eq_ok, text, ← String.toList_inj, String.toList_ofList]

/-- What describes a result is not the beginning of what describes another one. -/
theorem eq_nil_of_resultChars_append {result other : Option FieldType}
    (described : ∀ type ∈ result, type.IsDescribable)
    (described' : ∀ type ∈ other, type.IsDescribable)
    (same : resultChars result ++ rest = resultChars other) : rest = [] := by
  cases result with
  | none =>
    cases other with
    | none => simpa [resultChars] using same
    | some type =>
      obtain ⟨first, later, begins, _, different⟩ := exists_chars_eq_cons type
      rw [resultChars, resultChars, begins] at same
      exact absurd (List.cons.inj same).1.symm different
  | some type =>
    cases other with
    | none =>
      obtain ⟨first, later, begins, _, different⟩ := exists_chars_eq_cons type
      rw [resultChars, resultChars, begins] at same
      exact absurd (List.cons.inj same).1 different
    | some other =>
      exact eq_nil_of_chars_append (described type rfl) (described' other rfl) same

/-- No descriptor of a method is the beginning of another one. -/
theorem eq_nil_of_text_append {type other : MethodType} {more : String}
    (described : type.IsDescribable) (described' : other.IsDescribable)
    (same : type.text ++ more = other.text) : more = "" := by
  have spelled := congrArg String.toList same
  simp only [text, String.toList_append, String.toList_ofList, List.cons_append,
    List.append_assoc, List.cons.injEq, true_and] at spelled
  -- both lists of parameters are read from one text, so they close at the same place
  have one := readParameters_written described.parameters (resultChars type.result ++ more.toList)
  have two := readParameters_written described'.parameters (resultChars other.result)
  rw [spelled, two] at one
  obtain ⟨_, same⟩ := Prod.mk.inj (Except.ok.inj one)
  exact String.toList_inj.mp
    (eq_nil_of_resultChars_append described.result described'.result same.symm)

end

end MethodType

/-! ## Both parsers -/

/-- What a parser accepts decides the rest, if no accepted text begins another one. -/
theorem parsesExactly {α : Type} {parse : String → Except Failure α} {IsMeaningful : α → Prop}
    {text : α → String}
    (accepts : ∀ descriptor value,
      parse descriptor = .ok value ↔ IsMeaningful value ∧ descriptor = text value)
    (ends : ∀ value longer more, IsMeaningful value → IsMeaningful longer →
      text value ++ more = text longer → more = "") :
    ParsesExactly parse IsMeaningful text where
  accepts := accepts
  injective descriptor other value one two := by
    rw [((accepts descriptor value).mp one).2, ((accepts other value).mp two).2]
  whole descriptor more value longer one two := by
    obtain ⟨meaningful, rfl⟩ := (accepts descriptor value).mp one
    obtain ⟨meaningful', same⟩ := (accepts _ longer).mp two
    exact ends value longer more meaningful meaningful' same

theorem FieldType.eq_nil_of_text_append {type other : FieldType} {more : String}
    (described : type.IsDescribable) (described' : other.IsDescribable)
    (same : type.text ++ more = other.text) : more = "" := by
  have spelled := congrArg String.toList same
  simp only [text, String.toList_append, String.toList_ofList] at spelled
  exact String.toList_inj.mp (eq_nil_of_chars_append described described' spelled)

/-- **Descriptors are parsed exactly.**  A text is accepted as the descriptor of a type, or of a
method, if and only if it is what is written for that, where arrays have 255 dimensions at most and
the names of classes are not empty and hold no semicolon.  So both parsers are injective and accept
nothing with missing or trailing characters, and the loop over the parameters ends on every text. -/
theorem descriptors_parsedExactly :
    ParsesExactly FieldType.parse FieldType.IsDescribable FieldType.text ∧
    ParsesExactly MethodType.parse MethodType.IsDescribable MethodType.text ∧
    ∀ (chars : List Char) (steps : Nat), chars.length < steps →
      MethodType.readParameters steps chars =
        MethodType.readParameters (chars.length + 1) chars := by
  refine ⟨parsesExactly ?_ ?_, parsesExactly ?_ ?_, ?_⟩
  · exact fun _ _ => FieldType.parse_eq_ok
  · exact fun _ _ _ => FieldType.eq_nil_of_text_append
  · exact fun _ _ => MethodType.parse_eq_ok
  · exact fun _ _ _ => MethodType.eq_nil_of_text_append
  · exact fun _ _ => MethodType.readParameters_eq_of_lt

/-- A method with an array of a class whose name looks like other parts of a descriptor. -/
def strangeMethod : MethodType :=
  ⟨[.array (.array (.object ⟨")[Vé/😀"⟩)), .primitive .long], some (.array (.primitive .int))⟩

/-- The strange name is taken whole, and nothing may follow the result. -/
theorem descriptors_parsedExactly_strangeMethod :
    MethodType.parse "([[L)[Vé/😀;J)[I" = .ok strangeMethod ∧
    ∀ type, MethodType.parse ("([[L)[Vé/😀;J)[I" ++ "V") ≠ .ok type := by
  obtain ⟨_, methods, _⟩ := descriptors_parsedExactly
  have accepted := (methods.accepts "([[L)[Vé/😀;J)[I" strangeMethod).mpr ⟨by decide, rfl⟩
  refine ⟨accepted, fun longer followed => ?_⟩
  exact absurd (methods.whole _ _ _ longer accepted followed) (by decide)

end Bytescript
