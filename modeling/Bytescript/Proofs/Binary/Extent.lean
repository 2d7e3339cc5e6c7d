import Bytescript.Proofs.Binary.Computing

/-!
# How far readers reach

What a reader makes of some bytes may depend on where they stand, as branches and the padding of
switches do.  Still it is these bytes and their place that decide what is made of them, and not what
comes behind them.  Their number is known from the reader and from what it made of them.

So a reader is described by the bytes that it takes where it stands, and by a property of their
number and the value.  Such descriptions are put together from one step to the next, each beginning
where the one before it ended.
-/

set_option autoImplicit false

namespace Bytescript.Binary.Reader

variable {α β : Type} {reader first : Reader α} {next : α → Reader β} {position : Nat}
  {bytes more : List UInt8} {value : α} {other : β}

/-! ## Readers that depend on where they stand -/

/-- The reader makes a value of exactly these bytes where it stands, whatever follows. -/
def TakesAt (reader : Reader α) (position : Nat) (bytes : List UInt8) (value : α) : Prop :=
  ∀ rest, reader ⟨position, bytes ++ rest⟩ = .ok (value, ⟨position + bytes.length, rest⟩)

theorem Takes.at (takes : reader.Takes bytes value) (position : Nat) :
    reader.TakesAt position bytes value :=
  takes position

theorem TakesAt.bind (here : first.TakesAt position bytes value)
    (there : (next value).TakesAt (position + bytes.length) more other) :
    (first >>= next).TakesAt position (bytes ++ more) other := by
  intro rest
  rw [List.append_assoc, List.length_append, ← Nat.add_assoc]
  exact bindState_eq_ok.mpr ⟨value, _, here _, there rest⟩

/-- What is made of a value takes the same bytes. -/
theorem TakesAt.making {make : α → β} (takes : reader.TakesAt position bytes value) :
    (do return make (← reader)).TakesAt position bytes (make value) :=
  fun rest => bindState_eq_ok.mpr ⟨value, _, takes rest, rfl⟩

theorem Takes.making {make : α → β} (takes : reader.Takes bytes value) :
    (do return make (← reader)).Takes bytes (make value) :=
  fun position => (takes.at position).making

theorem TakesAt.within (takes : reader.TakesAt position bytes value) (activity : Activity) :
    (reader.within activity).TakesAt position bytes value :=
  fun rest => during_eq_ok.mpr (takes rest)

theorem takesAt_pure (value : α) (position : Nat) :
    (pure value : Reader α).TakesAt position [] value :=
  (takes_pure value).at position

/-! ## The number of the bytes -/

/-- Where the reader succeeds at a position, it takes exactly the bytes that it passed, and their
number and the value have a property. -/
def Occupies (reader : Reader α) (position : Nat) (property : Nat → α → Prop) : Prop :=
  ∀ rest value after, reader ⟨position, rest⟩ = .ok (value, after) →
    ∃ bytes, Cursor.Passes ⟨position, rest⟩ bytes after ∧ reader.TakesAt position bytes value ∧
      property bytes.length value

section Occupies

variable {property : Nat → α → Prop} {further : Nat → β → Prop}

theorem occupies_pure {value : α} (holds : property 0 value) :
    (pure value : Reader α).Occupies position property := by
  intro rest _ after read
  cases read
  exact ⟨[], Cursor.passes_nil _, takesAt_pure value position, holds⟩

theorem occupies_ofExcept {result : Except Failure α}
    (holds : ∀ value, result = .ok value → property 0 value) :
    (ofExcept result).Occupies position property := by
  intro rest value after read
  obtain ⟨computed, rfl⟩ := ofExcept_eq_ok read
  exact ⟨[], Cursor.passes_nil _, (takes_ofExcept computed).at position, holds value computed⟩

theorem occupies_nothing (result : Except Failure α) :
    (ofExcept result).Occupies position fun size _ => size = 0 :=
  occupies_ofExcept fun _ _ => rfl

/-- The second step begins behind what the first one took. -/
theorem Occupies.bind (here : first.Occupies position property)
    (there : ∀ size value, property size value →
      (next value).Occupies (position + size) fun size' result => further (size + size') result) :
    (first >>= next).Occupies position further := by
  intro rest result after read
  obtain ⟨value, between, one, two⟩ := bindState_eq_ok.mp read
  obtain ⟨bytes, passes, takes, holds⟩ := here rest value between one
  obtain ⟨place, left⟩ := between
  obtain rfl : place = position + bytes.length := passes.position
  obtain ⟨more, passes', takes', holds'⟩ := there _ value holds left result after two
  refine ⟨bytes ++ more, passes.append passes', takes.bind takes', ?_⟩
  rwa [List.length_append]

theorem Occupies.within (occupies : reader.Occupies position property) (activity : Activity) :
    (reader.within activity).Occupies position property := by
  intro rest value after read
  obtain ⟨bytes, passes, takes, holds⟩ := occupies rest value after (during_eq_ok.mp read)
  exact ⟨bytes, passes, takes.within activity, holds⟩

theorem occupies_skip (count : Nat) :
    (skip count).Occupies position fun size _ => size = count := by
  intro rest value after read
  obtain ⟨bytes, rfl, passes⟩ := skip_eq_ok read
  exact ⟨bytes, passes, (takes_skip bytes).at position, rfl⟩

theorem occupies_word (type : WordType) :
    (word type).Occupies position fun size _ => size = type.bytes := by
  intro rest number after read
  obtain ⟨small, passes⟩ := word_eq_ok read
  exact ⟨_, passes, (takes_word_bigEndianBytes type small).at position,
    length_bigEndianBytes type.bytes number⟩

theorem occupies_signed (count : Nat) :
    (signed count).Occupies position fun size _ => size = count :=
  (occupies_word ⟨count, true⟩).bind fun _ _ same => occupies_pure same

theorem occupies_i32 : i32.Occupies position fun size _ => size = 4 :=
  (occupies_signed 4).bind fun _ _ same => occupies_pure same

/-- Items of one size fill a table. -/
theorem Occupies.times {item : Reader α} {unit : Nat} {fits : α → Prop}
    (occupies : ∀ position, item.Occupies position fun size value => size = unit ∧ fits value)
    (count position : Nat) : (times item count).Occupies position fun size values =>
      size = unit * count ∧ values.length = count ∧ ∀ value ∈ values, fits value := by
  induction count generalizing position with
  | zero => exact occupies_pure ⟨rfl, rfl, List.forall_mem_nil _⟩
  | succ count ih =>
    refine (occupies position).bind fun size first ⟨here, fit⟩ => (ih _).bind fun size' others => ?_
    rintro ⟨there, length, fits⟩
    refine occupies_pure ⟨?_, congrArg (· + 1) length, List.forall_mem_cons.mpr ⟨fit, fits⟩⟩
    rw [here, there, Nat.mul_succ, Nat.add_zero, Nat.add_comm]

end Occupies

end Bytescript.Binary.Reader
