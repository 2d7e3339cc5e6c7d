import Bytescript.Proofs.Binary.Word
import Mathlib.Data.List.Induction

/-!
# What a reader makes of a part

A part of some data is all that a reader looks at if what it gives, be it a value or a failure, is
the same wherever the part stands and whatever follows it.  Two parts of which a reader makes the
same can be put for each other, and a part that is refused is refused with all that follows it.
Conversely, where a reader succeeds, the bytes that it passed have the form of what it reads, and
they stand for what it made of them.
-/

set_option autoImplicit false

namespace Bytescript.Binary

/-! ## Passing bytes -/

/-- From one cursor to another that is behind some bytes. -/
structure Cursor.Passes (cursor : Cursor) (bytes : List UInt8) (after : Cursor) : Prop where
  rest : cursor.rest = bytes ++ after.rest
  position : after.position = cursor.position + bytes.length

theorem Cursor.passes_nil (cursor : Cursor) : cursor.Passes [] cursor := ⟨rfl, rfl⟩

theorem Cursor.Passes.append {cursor middle after : Cursor} {bytes more : List UInt8}
    (first : cursor.Passes bytes middle) (second : middle.Passes more after) :
    cursor.Passes (bytes ++ more) after where
  rest := by rw [first.rest, second.rest, List.append_assoc]
  position := by rw [second.position, first.position, List.length_append, Nat.add_assoc]

theorem bigEndian_lt (bytes : List UInt8) : bigEndian bytes < 0x100 ^ bytes.length := by
  induction bytes using List.reverseRecOn with
  | nil => exact Nat.one_pos
  | append_singleton bytes byte ih =>
    have small := byte.toNat_lt
    rw [bigEndian_append_singleton, List.length_append, List.length_singleton, Nat.pow_succ]
    omega

theorem bigEndianBytes_bigEndian (bytes : List UInt8) :
    bigEndianBytes bytes.length (bigEndian bytes) = bytes := by
  induction bytes using List.reverseRecOn with
  | nil => rfl
  | append_singleton bytes byte ih =>
    have small := byte.toNat_lt
    have front : (bigEndian bytes * 0x100 + byte.toNat) / 0x100 = bigEndian bytes := by omega
    have last : (bigEndian bytes * 0x100 + byte.toNat) % 0x100 = byte.toNat := by omega
    rw [bigEndian_append_singleton, List.length_append, List.length_singleton, bigEndianBytes,
      front, last, ih, UInt8.ofNat_toNat]

namespace Reader

variable {α β Layout : Type} {cursor after : Cursor}

theorem word_eq_ok {type : WordType} {number : Nat}
    (read : word type cursor = .ok (number, after)) :
    number < 0x100 ^ type.bytes ∧ cursor.Passes (bigEndianBytes type.bytes number) after := by
  rw [word] at read
  split at read
  next bytes between taken =>
    cases read
    rw [Reader.within, during_eq_ok, take] at taken
    split at taken
    next split =>
      cases taken
      obtain ⟨front, length⟩ := splitExactly?_eq_some.mp split
      rw [← length, bigEndianBytes_bigEndian]
      exact ⟨bigEndian_lt bytes, front, rfl⟩
    · cases taken
  · cases read

theorem u8_eq_ok {number : Nat} (read : u8 cursor = .ok (number, after)) :
    number < 0x100 ∧ cursor.Passes (bigEndianBytes 1 number) after :=
  word_eq_ok read

theorem u16_eq_ok {number : Nat} (read : u16 cursor = .ok (number, after)) :
    number < 0x10000 ∧ cursor.Passes (bigEndianBytes 2 number) after :=
  word_eq_ok read

theorem u32_eq_ok {number : Nat} (read : u32 cursor = .ok (number, after)) :
    number < 0x100000000 ∧ cursor.Passes (bigEndianBytes 4 number) after :=
  word_eq_ok read

theorem u64_eq_ok {number : Nat} (read : u64 cursor = .ok (number, after)) :
    number < 0x10000000000000000 ∧ cursor.Passes (bigEndianBytes 8 number) after :=
  word_eq_ok read

/-- What a reader takes from some bytes is what it gives where it passes them. -/
theorem Takes.eq_of_passes {reader : Reader α} {bytes : List UInt8} {value other : α}
    {last : Cursor} (takes : reader.Takes bytes other) (passes : cursor.Passes bytes last)
    (read : reader cursor = .ok (value, after)) : value = other := by
  obtain ⟨position, _⟩ := cursor
  obtain ⟨rfl, -⟩ := passes
  rw [takes] at read
  cases read
  rfl

/-- The bytes of a signed word are those of the value that was read. -/
theorem i32_eq_ok {value : Int32} (read : i32 cursor = .ok (value, after)) :
    cursor.Passes (bigEndianBytes 4 value.toUInt32.toNat) after := by
  obtain ⟨_, _, signed, same⟩ := bindState_eq_ok.mp read
  cases same
  obtain ⟨number, _, word, same⟩ := bindState_eq_ok.mp signed
  cases same
  obtain ⟨small, passes⟩ := word_eq_ok word
  have bits : (UInt32.ofNat number).toInt32.toUInt32.toNat = number := by
    rw [UInt32.toUInt32_toInt32]
    exact UInt32.toNat_ofNat_of_lt' small
  have takes := takes_i32 (UInt32.ofNat number).toInt32
  rw [bits] at takes
  rwa [takes.eq_of_passes passes read, bits]

theorem i64_eq_ok {value : Int64} (read : i64 cursor = .ok (value, after)) :
    cursor.Passes (bigEndianBytes 8 value.toUInt64.toNat) after := by
  obtain ⟨_, _, signed, same⟩ := bindState_eq_ok.mp read
  cases same
  obtain ⟨number, _, word, same⟩ := bindState_eq_ok.mp signed
  cases same
  obtain ⟨small, passes⟩ := word_eq_ok word
  have bits : (UInt64.ofNat number).toInt64.toUInt64.toNat = number := by
    rw [UInt64.toUInt64_toInt64]
    exact UInt64.toNat_ofNat_of_lt' small
  have takes := takes_i64 (UInt64.ofNat number).toInt64
  rw [bits] at takes
  rwa [takes.eq_of_passes passes read, bits]

theorem ofExcept_eq_ok {result : Except Failure α} {value : α}
    (read : ofExcept result cursor = .ok (value, after)) : result = .ok value ∧ cursor = after := by
  cases result with
  | error failure => cases read
  | ok result =>
    cases read
    exact ⟨rfl, rfl⟩

theorem take_eq_ok {count : Nat} {bytes : List UInt8}
    (read : take count cursor = .ok (bytes, after)) :
    bytes.length = count ∧ cursor.Passes bytes after := by
  rw [take] at read
  split at read
  next split =>
    cases read
    obtain ⟨front, rfl⟩ := splitExactly?_eq_some.mp split
    exact ⟨rfl, front, rfl⟩
  · cases read

theorem skip_eq_ok {count : Nat} (read : skip count cursor = .ok ((), after)) :
    ∃ bytes, bytes.length = count ∧ cursor.Passes bytes after := by
  rw [skip] at read
  split at read
  next bytes _ split =>
    cases read
    obtain ⟨front, rfl⟩ := splitExactly?_eq_some.mp split
    exact ⟨bytes, rfl, front, rfl⟩
  · cases read

/-! ## The meaning of what is read -/

/-- Wherever the reader succeeds, the bytes that it passed and what it made of them are related. -/
def Relates (reader : Reader α) (related : List UInt8 → α → Prop) : Prop :=
  ∀ cursor value after, reader cursor = .ok (value, after) →
    ∃ bytes, related bytes value ∧ cursor.Passes bytes after

section Relation

variable {reader item : Reader α} {related : List UInt8 → α → Prop}

/-- A self-delimiting reader takes what it passed. -/
theorem SelfDelimiting.relates (delimited : reader.SelfDelimiting) :
    reader.Relates reader.Takes := by
  rintro ⟨position, rest⟩ value ⟨behind, left⟩ read
  obtain ⟨bytes, rfl, takes, -⟩ := delimited _ value _ read
  rw [takes position left] at read
  cases read
  exact ⟨bytes, takes, rfl, rfl⟩

theorem Relates.within (relates : reader.Relates related) (activity : Activity) :
    (reader.within activity).Relates related :=
  fun cursor value after read => relates cursor value after (during_eq_ok.mp read)

theorem Relates.times (relates : item.Relates related) {count : Nat} {values : List α}
    (read : times item count cursor = .ok (values, after)) :
    ∃ parts, parts.length = count ∧ List.Forall₂ related parts values ∧
      cursor.Passes parts.flatten after := by
  induction count generalizing cursor values with
  | zero =>
    cases read
    exact ⟨[], rfl, .nil, Cursor.passes_nil _⟩
  | succ count ih =>
    obtain ⟨value, middle, first, read⟩ := bindState_eq_ok.mp read
    obtain ⟨others, last, rest, same⟩ := bindState_eq_ok.mp read
    cases same
    obtain ⟨part, here, passes⟩ := relates _ _ _ first
    obtain ⟨parts, rfl, there, passes'⟩ := ih rest
    exact ⟨part :: parts, rfl, .cons here there, passes.append passes'⟩

theorem Relates.counted (relates : item.Relates related) :
    (counted item).Relates fun bytes values => ∃ parts : List (List UInt8),
      bytes = Assembly.counted parts ∧ parts.length < 0x10000 ∧
        List.Forall₂ related parts values := by
  intro cursor values after read
  obtain ⟨count, middle, read, items⟩ := bindState_eq_ok.mp read
  obtain ⟨few, passes⟩ := u16_eq_ok read
  obtain ⟨parts, rfl, stored, passes'⟩ := relates.times items
  exact ⟨_, ⟨parts, rfl, few, stored⟩, passes.append passes'⟩

/-- If a reader takes all of some bytes, it makes one thing of them. -/
theorem Takes.unique {bytes : List UInt8} {value value' : α} (takes : reader.Takes bytes value)
    (takes' : reader.Takes bytes value') : value = value' := by
  have same := (takes 0 []).symm.trans (takes' 0 [])
  cases same
  rfl

end Relation

/-! ## The form of what is read -/

/-- Wherever the reader succeeds, the bytes that it passed are laid out in a certain way. -/
def Forms (reader : Reader α) (bytes : Layout → List UInt8) (fits : Layout → Prop) : Prop :=
  ∀ cursor value after, reader cursor = .ok (value, after) →
    ∃ layout, fits layout ∧ cursor.Passes (bytes layout) after

theorem Forms.within {reader : Reader α} {bytes : Layout → List UInt8} {fits : Layout → Prop}
    (forms : reader.Forms bytes fits) (activity : Activity) :
    (reader.within activity).Forms bytes fits :=
  fun cursor value after read => forms cursor value after (during_eq_ok.mp read)

/-- A table: few enough items to be counted, and all of them in order. -/
structure IsTable (fits : Layout → Prop) (items : List Layout) : Prop where
  few : items.length < 0x10000
  all : ∀ item ∈ items, fits item

theorem Forms.counted {item : Reader α} {bytes : Layout → List UInt8} {fits : Layout → Prop}
    (forms : item.Forms bytes fits) :
    (counted item).Forms (fun items => Assembly.counted (items.map bytes)) (IsTable fits) := by
  have relates : item.Relates fun part _ => ∃ layout, fits layout ∧ bytes layout = part := by
    intro cursor value after read
    obtain ⟨layout, fits, passes⟩ := forms cursor value after read
    exact ⟨bytes layout, ⟨layout, fits, rfl⟩, passes⟩
  intro cursor values after read
  obtain ⟨_, ⟨parts, rfl, few, stored⟩, passes⟩ := relates.counted cursor values after read
  obtain ⟨layouts, all, rfl⟩ := exists_of_forall₂_map stored.flip
  rw [List.length_map] at few
  refine ⟨layouts, ⟨few, fun layout member => ?_⟩, passes⟩
  obtain ⟨_, -, fits⟩ := exists_of_forall₂_right all member
  exact fits

/-! ## Results for parts -/

/-- What a reader gives for exactly these bytes, wherever they stand and whatever follows. -/
def Computes (reader : Reader α) (bytes : List UInt8) (result : Except Failure α) : Prop :=
  ∀ position rest, reader ⟨position, bytes ++ rest⟩ =
    result.map fun value => (value, ⟨position + bytes.length, rest⟩)

/-- The reader makes the same of two parts. -/
def Agrees (reader : Reader α) (bytes bytes' : List UInt8) : Prop :=
  ∃ result, reader.Computes bytes result ∧ reader.Computes bytes' result

section Agreement

variable {reader first : Reader α} {next : α → Reader β} {bytes bytes' more more' : List UInt8}
  {value : α} {result : Except Failure α}

theorem Computes.agrees (computes : reader.Computes bytes result) : reader.Agrees bytes bytes :=
  ⟨result, computes, computes⟩

/-- What a reader computes of the bytes that it passed is what it read. -/
theorem Computes.eq_ok (computes : reader.Computes bytes result) {cursor after last : Cursor}
    (passes : cursor.Passes bytes last) (read : reader cursor = .ok (value, after)) :
    result = .ok value := by
  obtain ⟨position, _⟩ := cursor
  obtain ⟨rfl, -⟩ := passes
  rw [computes] at read
  obtain ⟨_, found, same⟩ := map_eq_ok.mp read
  cases same
  exact found

theorem Takes.agrees (takes : reader.Takes bytes value) : reader.Agrees bytes bytes :=
  ⟨.ok value, takes, takes⟩

theorem agrees_pure (value : α) : (pure value : Reader α).Agrees [] [] :=
  (takes_pure value).agrees

theorem computes_ofExcept (result : Except Failure α) : (ofExcept result).Computes [] result := by
  intro position rest
  cases result <;> rfl

theorem agrees_ofExcept (result : Except Failure α) : (ofExcept result).Agrees [] [] :=
  (computes_ofExcept result).agrees

/-- A reader that fails without looking makes the same of everything. -/
theorem agrees_of_error {failure : Failure} (bytes bytes' : List UInt8) :
    (ofExcept (.error failure) : Reader α).Agrees bytes bytes' :=
  ⟨.error failure, fun _ _ => rfl, fun _ _ => rfl⟩

theorem Agrees.within (agrees : reader.Agrees bytes bytes') (activity : Activity) :
    (reader.within activity).Agrees bytes bytes' := by
  obtain ⟨result, here, there⟩ := agrees
  refine ⟨during activity result, fun position rest => ?_, fun position rest => ?_⟩
  · rw [Reader.within, here]
    cases result <;> rfl
  · rw [Reader.within, there]
    cases result <;> rfl

theorem Computes.bind {results : α → Except Failure β} (here : first.Computes bytes result)
    (there : ∀ value, (next value).Computes more (results value)) :
    (first >>= next).Computes (bytes ++ more) (result >>= results) := by
  intro position rest
  show (first ⟨position, bytes ++ more ++ rest⟩ >>= fun both => next both.1 both.2) = _
  rw [List.append_assoc, here]
  cases result with
  | error failure => rfl
  | ok value =>
    show next value ⟨position + bytes.length, more ++ rest⟩ = _
    rw [there, List.length_append, Nat.add_assoc]
    rfl

theorem Agrees.bind (here : first.Agrees bytes bytes')
    (there : ∀ value, (next value).Agrees more more') :
    (first >>= next).Agrees (bytes ++ more) (bytes' ++ more') := by
  obtain ⟨result, first, second⟩ := here
  choose results firsts seconds using there
  exact ⟨_, first.bind firsts, second.bind seconds⟩

/-- A second step that takes nothing. -/
theorem Agrees.bind_nil (here : first.Agrees bytes bytes')
    (there : ∀ value, (next value).Agrees [] []) : (first >>= next).Agrees bytes bytes' := by
  simpa using here.bind there

/-- A first step that takes nothing. -/
theorem Agrees.nil_bind (here : first.Agrees [] [])
    (there : ∀ value, (next value).Agrees bytes bytes') :
    (first >>= next).Agrees bytes bytes' :=
  here.bind there

/-- A first step that only takes a value. -/
theorem Takes.bind_computes {result : Except Failure β} (here : first.Takes bytes value)
    (there : (next value).Computes more result) :
    (first >>= next).Computes (bytes ++ more) result := by
  intro position rest
  show (first ⟨position, bytes ++ more ++ rest⟩ >>= fun both => next both.1 both.2) = _
  rw [List.append_assoc, here]
  show next value ⟨position + bytes.length, more ++ rest⟩ = _
  rw [there, List.length_append, Nat.add_assoc]

/-- A first step that takes everything. -/
theorem Takes.bind_computes_nil {result : Except Failure β} (here : first.Takes bytes value)
    (there : (next value).Computes [] result) : (first >>= next).Computes bytes result := by
  simpa using here.bind_computes there

theorem computes_ofExcept_bind {results : α → Except Failure β}
    (there : ∀ value, (next value).Computes bytes (results value)) :
    (ofExcept result >>= next).Computes bytes (result >>= results) := by
  intro position rest
  cases result with
  | error failure => rfl
  | ok value => exact there value position rest

/-- A first step that takes the same value from both. -/
theorem Takes.bind_agrees (here : first.Takes bytes value)
    (there : (next value).Agrees more more') :
    (first >>= next).Agrees (bytes ++ more) (bytes ++ more') := by
  obtain ⟨result, second, second'⟩ := there
  exact ⟨result, here.bind_computes second, here.bind_computes second'⟩

theorem agrees_times {item : Reader α} {parts parts' : List (List UInt8)}
    (agree : List.Forall₂ item.Agrees parts parts') :
    (times item parts.length).Agrees parts.flatten parts'.flatten := by
  induction agree with
  | nil => exact agrees_pure []
  | cons here _ ih => exact here.bind fun _ => ih.bind_nil fun _ => agrees_pure _

theorem agrees_counted {item : Reader α} {parts parts' : List (List UInt8)}
    (agree : List.Forall₂ item.Agrees parts parts') (few : parts.length < 0x10000) :
    (counted item).Agrees (Assembly.counted parts) (Assembly.counted parts') := by
  rw [Assembly.counted, Assembly.counted, ← agree.length_eq]
  exact (takes_u16 few).bind_agrees (agrees_times agree)

end Agreement

/-! ## Refused parts -/

/-- The reader fails on exactly these bytes for the given cause, wherever they stand and whatever
follows. -/
def Refuses (reader : Reader α) (bytes : List UInt8) (cause : Cause) : Prop :=
  ∃ failure, reader.Computes bytes (.error failure) ∧ failure.cause = cause

section Refusal

variable {reader first item : Reader α} {next : α → Reader β} {bytes more : List UInt8}
  {value : α} {cause : Cause} {parts : List (List UInt8)}

theorem refuses_malformed (error : DecodeError) (bytes : List UInt8) :
    (malformed error : Reader α).Refuses bytes (.decode error) :=
  ⟨.of (.decode error), fun _ _ => rfl, rfl⟩

theorem Refuses.within (refuses : reader.Refuses bytes cause) (activity : Activity) :
    (reader.within activity).Refuses bytes cause := by
  obtain ⟨failure, computes, same⟩ := refuses
  refine ⟨failure.within activity, fun position rest => ?_, same⟩
  rw [Reader.within, computes]
  rfl

/-- What would follow does not matter. -/
theorem Refuses.bind (refuses : first.Refuses bytes cause) :
    (first >>= next).Refuses (bytes ++ more) cause := by
  obtain ⟨failure, computes, same⟩ := refuses
  refine ⟨failure, fun position rest => ?_, same⟩
  show (first ⟨position, bytes ++ more ++ rest⟩ >>= fun both => next both.1 both.2) = _
  rw [List.append_assoc, computes]
  rfl

theorem Refuses.bind_nil (refuses : first.Refuses bytes cause) :
    (first >>= next).Refuses bytes cause := by
  have refuses : (first >>= next).Refuses (bytes ++ []) cause := refuses.bind
  rwa [List.append_nil] at refuses

theorem Takes.bind_refuses (here : first.Takes bytes value)
    (there : (next value).Refuses more cause) :
    (first >>= next).Refuses (bytes ++ more) cause := by
  obtain ⟨failure, computes, same⟩ := there
  exact ⟨failure, here.bind_computes computes, same⟩

theorem Takes.bind_nil_refuses (here : first.Takes [] value)
    (there : (next value).Refuses bytes cause) : (first >>= next).Refuses bytes cause :=
  here.bind_refuses there

/-- A list is refused for an item if no item before it fails for any other cause. -/
theorem refuses_times
    (each : ∀ part ∈ parts, (∃ value, item.Takes part value) ∨ item.Refuses part cause)
    (refused : ∃ part ∈ parts, item.Refuses part cause) :
    (times item parts.length).Refuses parts.flatten cause := by
  induction parts with
  | nil =>
    obtain ⟨_, member, _⟩ := refused
    cases member
  | cons part parts ih =>
    rw [List.forall_mem_cons] at each
    by_cases here : item.Refuses part cause
    · exact here.bind
    · obtain ⟨value, takes⟩ := each.1.resolve_right here
      obtain ⟨other, member, there⟩ := refused
      have later : other ∈ parts :=
        (List.mem_cons.mp member).resolve_left fun same => here (same ▸ there)
      exact takes.bind_refuses (ih each.2 ⟨other, later, there⟩).bind_nil

theorem refuses_counted (few : parts.length < 0x10000)
    (each : ∀ part ∈ parts, (∃ value, item.Takes part value) ∨ item.Refuses part cause)
    (refused : ∃ part ∈ parts, item.Refuses part cause) :
    (counted item).Refuses (Assembly.counted parts) cause :=
  (takes_u16 few).bind_refuses (refuses_times each refused)

/-- A list is refused if one of its items is too high, where items that are not are taken. -/
theorem refuses_counted_map {Stored : Type} {encode : Stored → List UInt8}
    {means : Stored → α → Prop} {items : List Stored} {values : List α} {levels : Nat}
    (height : Stored → Nat) (few : items.length < 0x10000)
    (related : List.Forall₂ means items values)
    (takes : ∀ {one : Stored} {value : α}, means one value → height one ≤ levels →
      item.Takes (encode one) value)
    (refuses : ∀ {one : Stored} {value : α}, means one value → levels < height one →
      item.Refuses (encode one) cause)
    (found : ∃ one ∈ items, levels < height one) :
    (counted item).Refuses (Assembly.counted (items.map encode)) cause := by
  obtain ⟨highest, among, high⟩ := found
  obtain ⟨_, -, meant⟩ := exists_of_forall₂_left related among
  refine refuses_counted (by rwa [List.length_map]) ?_
    ⟨encode highest, List.mem_map_of_mem among, refuses meant high⟩
  intro part encoded
  obtain ⟨one, member, rfl⟩ := List.mem_map.mp encoded
  obtain ⟨value, -, meant⟩ := exists_of_forall₂_left related member
  rcases Nat.lt_or_ge levels (height one) with high | low
  · exact .inr (refuses meant high)
  · exact .inl ⟨value, takes meant low⟩

end Refusal

end Reader

end Bytescript.Binary
