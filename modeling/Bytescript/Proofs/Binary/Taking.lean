import Bytescript.Binary.Reader
import Bytescript.Proofs.Failure

/-!
# Which bytes a reader takes

A reader takes some bytes and makes a value of them.  Mostly these bytes alone decide how many
they are and what the value is: whatever comes behind them does not matter, and if the data ends
before the last of them, that is what the reader complains about.  Such readers are called
self-delimiting.  Everything that is put together from self-delimiting readers is so again.
-/

set_option autoImplicit false

namespace Bytescript

/-- The data ended too early. -/
def Failure.IsTruncated (failure : Failure) : Prop :=
  ∃ position, failure.cause = .decode (.truncated position)

namespace Binary

section Splitting

variable {α : Type} {count : Nat} {items front back : List α}

theorem splitExactly?_append (front back : List α) :
    splitExactly? front.length (front ++ back) = some (front, back) := by
  induction front with
  | nil => rfl
  | cons item front ih => simp [splitExactly?, ih]

theorem splitExactly?_eq_some :
    splitExactly? count items = some (front, back) ↔
      items = front ++ back ∧ front.length = count := by
  constructor
  · intro split
    fun_induction splitExactly? count items generalizing front with
    | case1 items =>
      cases split
      exact ⟨rfl, rfl⟩
    | case2 => cases split
    | case3 count item items front' back' found ih =>
      cases split
      obtain ⟨rfl, length⟩ := ih found
      exact ⟨rfl, congrArg (· + 1) length⟩
    | case4 => cases split
  · rintro ⟨rfl, rfl⟩
    exact splitExactly?_append front back

theorem splitExactly?_eq_none : splitExactly? count items = none ↔ items.length < count := by
  fun_induction splitExactly? count items with
  | case1 items => simp
  | case2 => simp
  | case3 count item items front back found ih =>
    rw [found] at ih
    simpa using ih
  | case4 count item items missing ih => simpa using ih.mp missing

end Splitting

namespace Reader

variable {α β : Type}

/-- The reader makes a value of exactly these bytes, wherever they stand and whatever follows. -/
def Takes (reader : Reader α) (bytes : List UInt8) (value : α) : Prop :=
  ∀ position rest,
    reader ⟨position, bytes ++ rest⟩ = .ok (value, ⟨position + bytes.length, rest⟩)

/-- If the data ends before the last of these bytes, the reader says so. -/
def Misses (reader : Reader α) (bytes : List UInt8) : Prop :=
  ∀ position short, short <+: bytes → short ≠ bytes →
    ∃ failure, reader ⟨position, short⟩ = .error failure ∧ failure.IsTruncated

/-- Wherever the reader succeeds, the bytes that it took decide what it made of them. -/
def SelfDelimiting (reader : Reader α) : Prop :=
  ∀ cursor value after, reader cursor = .ok (value, after) →
    ∃ bytes, cursor.rest = bytes ++ after.rest ∧ reader.Takes bytes value ∧ reader.Misses bytes

/-! ## Taking bytes -/

section Takes

variable {reader first : Reader α} {next : α → Reader β} {bytes more : List UInt8}
  {value : α} {other : β}

theorem takes_pure (value : α) : (pure value : Reader α).Takes [] value := fun _ _ => rfl

theorem Takes.bind (here : first.Takes bytes value) (there : (next value).Takes more other) :
    (first >>= next).Takes (bytes ++ more) other := by
  intro position rest
  rw [List.append_assoc, List.length_append, ← Nat.add_assoc]
  exact bindState_eq_ok.mpr ⟨value, _, here position _, there _ rest⟩

/-- A second step that takes nothing. -/
theorem Takes.bind_nil (here : first.Takes bytes value) (there : (next value).Takes [] other) :
    (first >>= next).Takes bytes other := by
  simpa using here.bind there

theorem takes_ofExcept {result : Except Failure α} (computed : result = .ok value) :
    (ofExcept result).Takes [] value := by
  subst computed
  exact fun _ _ => rfl

theorem Takes.within (takes : reader.Takes bytes value) (activity : Activity) :
    (reader.within activity).Takes bytes value :=
  fun position rest => during_eq_ok.mpr (takes position rest)

theorem takes_take (bytes : List UInt8) : (take bytes.length).Takes bytes bytes := by
  intro position rest
  simp [take, splitExactly?_append]

theorem takes_skip (bytes : List UInt8) : (skip bytes.length).Takes bytes () := by
  intro position rest
  simp [skip, splitExactly?_append]

theorem takes_word {type : WordType} (length : bytes.length = type.bytes) :
    (word type).Takes bytes (bigEndian bytes) := by
  intro position rest
  rw [word, ← length, (takes_take bytes).within]

end Takes

/-! ## Missing bytes -/

theorem misses_nil (reader : Reader α) : reader.Misses [] := fun _ _ shorter different =>
  absurd (List.prefix_nil.mp shorter) different

/-- If the data ends too early for the first step, that one fails; otherwise the second does. -/
theorem Misses.bind {first : Reader α} {next : α → Reader β} {bytes more : List UInt8} {value : α}
    (taken : first.Takes bytes value) (here : first.Misses bytes)
    (there : (next value).Misses more) : (first >>= next).Misses (bytes ++ more) := by
  intro position short shorter different
  by_cases reached : bytes <+: short
  · obtain ⟨others, rfl⟩ := reached
    obtain ⟨failure, fails, truncated⟩ := there (position + bytes.length) others
      ((List.prefix_append_right_inj bytes).mp shorter) fun same => different (same ▸ rfl)
    refine ⟨failure, ?_, truncated⟩
    show (first ⟨position, bytes ++ others⟩ >>= fun result => next result.1 result.2) = _
    rw [taken position others]
    exact fails
  · have early : short <+: bytes :=
      (List.prefix_or_prefix_of_prefix shorter (List.prefix_append bytes more)).resolve_right
        reached
    obtain ⟨failure, fails, truncated⟩ :=
      here position short early fun same => reached (same ▸ List.prefix_rfl)
    refine ⟨failure, ?_, truncated⟩
    show (first ⟨position, short⟩ >>= fun result => next result.1 result.2) = _
    rw [fails]
    rfl

theorem Misses.within {reader : Reader α} {bytes : List UInt8} (misses : reader.Misses bytes)
    (activity : Activity) : (reader.within activity).Misses bytes := by
  intro position short shorter different
  obtain ⟨failure, fails, truncated⟩ := misses position short shorter different
  exact ⟨failure.within activity, by rw [Reader.within, fails, during], truncated⟩

theorem length_lt_of_shorter {short bytes : List UInt8} (shorter : short <+: bytes)
    (different : short ≠ bytes) : short.length < bytes.length :=
  Nat.lt_of_le_of_ne shorter.length_le fun same => different (shorter.eq_of_length same)

theorem misses_take (bytes : List UInt8) : (take bytes.length).Misses bytes := by
  intro position short shorter different
  have missing := splitExactly?_eq_none.mpr (length_lt_of_shorter shorter different)
  exact ⟨_, by rw [take, missing, failDecode], position, rfl⟩

theorem misses_skip (bytes : List UInt8) : (skip bytes.length).Misses bytes := by
  intro position short shorter different
  have missing := splitExactly?_eq_none.mpr (length_lt_of_shorter shorter different)
  exact ⟨_, by rw [skip, missing, failDecode], position + short.length, rfl⟩

theorem misses_word {type : WordType} {bytes : List UInt8} (length : bytes.length = type.bytes) :
    (word type).Misses bytes := by
  intro position short shorter different
  obtain ⟨failure, fails, truncated⟩ :=
    (misses_take bytes).within (.readingWord type) position short shorter different
  exact ⟨failure, by rw [word, ← length, fails], truncated⟩

/-! ## Self-delimiting readers -/

theorem selfDelimiting_pure (value : α) : (pure value : Reader α).SelfDelimiting := by
  intro cursor _ after read
  cases read
  exact ⟨[], rfl, takes_pure value, misses_nil _⟩

theorem SelfDelimiting.bind {first : Reader α} {next : α → Reader β}
    (here : first.SelfDelimiting) (there : ∀ value, (next value).SelfDelimiting) :
    (first >>= next).SelfDelimiting := by
  intro cursor value after read
  obtain ⟨middle, between, one, two⟩ := bindState_eq_ok.mp read
  obtain ⟨bytes, front, takes, misses⟩ := here cursor middle between one
  obtain ⟨more, back, takes', misses'⟩ := there middle between value after two
  refine ⟨bytes ++ more, ?_, takes.bind takes', misses.bind takes misses'⟩
  rw [front, back, List.append_assoc]

theorem selfDelimiting_ofExcept (result : Except Failure α) :
    (ofExcept result).SelfDelimiting := by
  intro cursor value after read
  cases result with
  | error failure => cases read
  | ok result =>
    cases read
    exact ⟨[], rfl, takes_ofExcept rfl, misses_nil _⟩

theorem SelfDelimiting.within {reader : Reader α} (delimited : reader.SelfDelimiting)
    (activity : Activity) : (reader.within activity).SelfDelimiting := by
  intro cursor value after read
  obtain ⟨bytes, front, takes, misses⟩ :=
    delimited cursor value after (during_eq_ok.mp read)
  exact ⟨bytes, front, takes.within activity, misses.within activity⟩

theorem selfDelimiting_take (count : Nat) : (take count).SelfDelimiting := by
  intro cursor bytes after read
  rw [take] at read
  split at read
  next split =>
    cases read
    obtain ⟨front, rfl⟩ := splitExactly?_eq_some.mp split
    exact ⟨bytes, front, takes_take bytes, misses_take bytes⟩
  · cases read

theorem selfDelimiting_skip (count : Nat) : (skip count).SelfDelimiting := by
  intro cursor value after read
  rw [skip] at read
  split at read
  next bytes rest split =>
    cases read
    obtain ⟨front, rfl⟩ := splitExactly?_eq_some.mp split
    exact ⟨bytes, front, takes_skip bytes, misses_skip bytes⟩
  · cases read

theorem selfDelimiting_word (type : WordType) : (word type).SelfDelimiting := by
  intro cursor value after read
  rw [word] at read
  split at read
  next bytes between taken =>
    cases read
    rw [Reader.within, during_eq_ok, take] at taken
    split at taken
    next split =>
      cases taken
      obtain ⟨front, length⟩ := splitExactly?_eq_some.mp split
      exact ⟨bytes, front, takes_word length, misses_word length⟩
    · cases taken
  · cases read

theorem selfDelimiting_signed (bytes : Nat) : (signed bytes).SelfDelimiting :=
  (selfDelimiting_word _).bind fun _ => selfDelimiting_pure _

theorem SelfDelimiting.times {item : Reader α} (delimited : item.SelfDelimiting) (count : Nat) :
    (times item count).SelfDelimiting := by
  induction count with
  | zero => exact selfDelimiting_pure []
  | succ count ih => exact delimited.bind fun _ => ih.bind fun _ => selfDelimiting_pure _

theorem SelfDelimiting.counted {item : Reader α} (delimited : item.SelfDelimiting) :
    (counted item).SelfDelimiting :=
  (selfDelimiting_word _).bind delimited.times

end Reader

end Binary

end Bytescript
