import Bytescript.ClassFile.Reader
import Bytescript.Proofs.Binary.Taking

/-!
# Class files that are cut short or continued

Every part of a class file is read in a way that only depends on its own bytes: counts and lengths
come before what they count, and a known attribute is cut out of the data as a whole before anything
looks into it.  So a class file says itself where it ends.  If it is cut short, the end of the data
is what reading it fails on, and if anything follows, that is noticed too.
-/

set_option autoImplicit false

namespace Bytescript

open Binary Reader

/-! ## The pool -/

theorem PoolEntry.selfDelimiting_readPair (make : Nat → Nat → PoolEntry JavaString) :
    (readPair make).SelfDelimiting :=
  (selfDelimiting_word _).bind fun _ => (selfDelimiting_word _).bind fun _ =>
    selfDelimiting_pure _

theorem PoolEntry.selfDelimiting_readIndex (make : Nat → PoolEntry JavaString) :
    (readIndex make).SelfDelimiting :=
  (selfDelimiting_word _).bind fun _ => selfDelimiting_pure _

theorem PoolEntry.selfDelimiting_readText (index : Nat) : (readText index).SelfDelimiting := by
  refine (selfDelimiting_word _).bind fun _ => (selfDelimiting_take _).bind fun bytes => ?_
  split
  · exact selfDelimiting_pure _
  · exact selfDelimiting_ofExcept _

theorem PoolEntry.selfDelimiting_read (index : Nat) : (PoolEntry.read index).SelfDelimiting := by
  apply (selfDelimiting_word _).bind
  intro tag
  split
  · exact selfDelimiting_readText index
  -- numbers
  · exact ((selfDelimiting_signed 4).bind fun _ => selfDelimiting_pure _).bind fun _ =>
      selfDelimiting_pure _
  · exact (selfDelimiting_word _).bind fun _ => selfDelimiting_pure _
  · exact ((selfDelimiting_signed 8).bind fun _ => selfDelimiting_pure _).bind fun _ =>
      selfDelimiting_pure _
  · exact (selfDelimiting_word _).bind fun _ => selfDelimiting_pure _
  -- references
  · exact selfDelimiting_readIndex _
  · exact selfDelimiting_readIndex _
  · exact selfDelimiting_readPair _
  · exact selfDelimiting_readPair _
  · exact selfDelimiting_readPair _
  · exact selfDelimiting_readPair _
  · exact (selfDelimiting_word _).bind fun _ => (selfDelimiting_word _).bind fun _ =>
      selfDelimiting_pure _
  · exact selfDelimiting_readIndex _
  · exact selfDelimiting_readPair _
  · exact selfDelimiting_readPair _
  · exact selfDelimiting_readIndex _
  · exact selfDelimiting_readIndex _
  · exact selfDelimiting_ofExcept _

theorem ConstantPool.selfDelimiting_readSlots (count remaining : Nat) :
    (readSlots count remaining).SelfDelimiting := by
  fun_induction readSlots count remaining with
  | case1 => exact selfDelimiting_pure []
  | case2 index =>
    refine ((PoolEntry.selfDelimiting_read _).within _).bind fun entry => ?_
    split
    · exact selfDelimiting_ofExcept _
    · exact selfDelimiting_pure _
  | case3 remaining index one two =>
    refine ((PoolEntry.selfDelimiting_read _).within _).bind fun entry => ?_
    split
    · exact one.bind fun _ => selfDelimiting_pure _
    · exact two.bind fun _ => selfDelimiting_pure _

theorem ConstantPool.selfDelimiting_read : ConstantPool.read.SelfDelimiting := by
  refine (selfDelimiting_word _).bind fun count => ?_
  split
  · exact selfDelimiting_ofExcept _
  · exact (selfDelimiting_readSlots _ _).bind fun _ => selfDelimiting_pure _

/-! ## Attributes -/

section Attributes

variable {State : Type} (pool : ConstantPool) (table : AttributeTable State)

/-- What is inside a known attribute is no matter: its bytes are taken as a whole. -/
theorem selfDelimiting_readAttribute (state : State) :
    (readAttribute pool table state).SelfDelimiting := by
  refine (selfDelimiting_word _).bind fun _ => (selfDelimiting_ofExcept _).bind fun name =>
    (selfDelimiting_word _).bind fun length => ?_
  split
  · exact (selfDelimiting_skip _).bind fun _ => selfDelimiting_pure _
  · refine (selfDelimiting_take _).bind fun contents => ?_
    split
    · exact selfDelimiting_pure _
    · exact (selfDelimiting_ofExcept _).bind fun _ => (selfDelimiting_ofExcept _).bind fun _ =>
        selfDelimiting_pure _

theorem selfDelimiting_readAttributeList (count : Nat) (state : State) :
    (readAttributeList pool table count state).SelfDelimiting := by
  induction count generalizing state with
  | zero => exact selfDelimiting_pure state
  | succ count ih => exact (selfDelimiting_readAttribute pool table state).bind ih

theorem selfDelimiting_readAttributes (start : State) :
    (readAttributes pool table start).SelfDelimiting :=
  (selfDelimiting_word _).bind fun _ => selfDelimiting_readAttributeList pool table _ start

end Attributes

/-! ## Members and classes -/

theorem selfDelimiting_readName (pool : ConstantPool) :
    (ClassName.read pool).SelfDelimiting :=
  (selfDelimiting_word _).bind fun _ => selfDelimiting_ofExcept _

theorem selfDelimiting_readField (pool : ConstantPool) : (Field.read pool).SelfDelimiting :=
  (selfDelimiting_word _).bind fun _ => (selfDelimiting_word _).bind fun _ =>
    (selfDelimiting_ofExcept _).bind fun _ => (selfDelimiting_word _).bind fun _ =>
      (selfDelimiting_ofExcept _).bind fun _ =>
        ((selfDelimiting_readAttributes pool _ _).within _).bind fun _ => selfDelimiting_pure _

theorem selfDelimiting_readMethod (pool : ConstantPool) : (Method.read pool).SelfDelimiting :=
  (selfDelimiting_word _).bind fun _ => (selfDelimiting_word _).bind fun _ =>
    (selfDelimiting_ofExcept _).bind fun _ => (selfDelimiting_word _).bind fun _ =>
      (selfDelimiting_ofExcept _).bind fun _ =>
        ((selfDelimiting_readAttributes pool _ _).within _).bind fun _ => selfDelimiting_pure _

namespace ClassFile

theorem selfDelimiting_readVersion : readVersion.SelfDelimiting := by
  refine (selfDelimiting_word _).bind fun magic => ?_
  split
  · exact selfDelimiting_ofExcept _
  · refine (selfDelimiting_word _).bind fun minor => (selfDelimiting_word _).bind fun major => ?_
    split
    · exact selfDelimiting_pure _
    · exact selfDelimiting_ofExcept _

theorem selfDelimiting_readContents : readContents.SelfDelimiting := by
  refine selfDelimiting_readVersion.bind fun _ => ?_
  refine ConstantPool.selfDelimiting_read.bind fun pool => ?_
  refine (selfDelimiting_word _).bind fun _ => ?_
  refine (selfDelimiting_word _).bind fun _ => ((selfDelimiting_ofExcept _).within _).bind
    fun _ => ?_
  refine (selfDelimiting_word _).bind fun _ => ((selfDelimiting_ofExcept _).within _).bind
    fun _ => ?_
  refine (selfDelimiting_readName pool).counted.bind fun _ => ?_
  refine ((selfDelimiting_readField pool).counted.within _).bind fun _ => ?_
  refine ((selfDelimiting_readMethod pool).counted.within _).bind fun _ => ?_
  exact ((selfDelimiting_readAttributes pool _ _).within _).bind fun _ => selfDelimiting_pure _

/-! ## Whole files -/

/-- A class file is accepted if a class can be read from it and nothing is left. -/
theorem parse_eq_ok {bytes : List UInt8} {file : ClassFile} :
    parse bytes = .ok file ↔
      ∃ position, readContents (.start bytes) = .ok (file, ⟨position, []⟩) := by
  have whole (file' : ClassFile) (after : Cursor) : read (.start bytes) = .ok (file', after) ↔
      readContents (.start bytes) = .ok (file', after) ∧ after.rest = [] := by
    rw [read, bindState_eq_ok]
    constructor
    · rintro ⟨found, between, contents, checked⟩
      obtain ⟨_, _, same, checked⟩ := bindState_eq_ok.mp checked
      cases same
      by_cases done : between.rest.isEmpty = true
      · rw [if_pos done] at checked
        cases checked
        exact ⟨contents, List.isEmpty_iff.mp done⟩
      · rw [if_neg done] at checked
        cases checked
    · rintro ⟨contents, done⟩
      refine ⟨file', after, contents, bindState_eq_ok.mpr ⟨_, _, rfl, ?_⟩⟩
      rw [done]
      rfl
  rw [parse, runOn]
  constructor
  · intro parsed
    split at parsed
    next found after done =>
      cases parsed
      obtain ⟨contents, rest⟩ := (whole file after).mp done
      obtain ⟨position, _⟩ := after
      cases rest
      exact ⟨position, contents⟩
    · cases parsed
  · rintro ⟨position, contents⟩
    rw [(whole file _).mpr ⟨contents, rfl⟩]

/-- What fails while the class is read makes the whole file fail. -/
theorem parse_eq_error {bytes : List UInt8} {failure : Failure}
    (fails : readContents (.start bytes) = .error failure) : parse bytes = .error failure := by
  have stops : read (.start bytes) = .error failure := by
    show (readContents (.start bytes) >>= fun result => _) = _
    rw [fails]
    rfl
  rw [parse, runOn, stops]

/-- Whatever is left when the class was read makes the file fail. -/
theorem parse_trailing {bytes rest : List UInt8} {file : ClassFile} {position : Nat}
    (contents : readContents (.start bytes) = .ok (file, ⟨position, rest⟩)) (left : rest ≠ []) :
    parse bytes = .error (.of (.format (.trailingBytes file.name))) := by
  have stops : read (.start bytes) = .error (.of (.format (.trailingBytes file.name))) := by
    show (readContents (.start bytes) >>= fun result => _) = _
    rw [contents]
    cases rest with
    | nil => exact absurd rfl left
    | cons => rfl
  rw [parse, runOn, stops]

/-- **A class file says itself where it ends.**  No part of an accepted file from its start is
accepted, and what is missing is found to be the end of the data; and nothing that continues an
accepted file is accepted. -/
theorem parse_decides_end {bytes : List UInt8} {file : ClassFile}
    (accepted : parse bytes = .ok file) :
    (∀ short, short <+: bytes → short ≠ bytes →
      ∃ failure, parse short = .error failure ∧ failure.IsTruncated) ∧
    ∀ more, more ≠ [] → ∃ failure, parse (bytes ++ more) = .error failure ∧
      failure.cause = .format (.trailingBytes file.name) := by
  obtain ⟨position, contents⟩ := parse_eq_ok.mp accepted
  obtain ⟨taken, whole, takes, misses⟩ := selfDelimiting_readContents _ _ _ contents
  obtain rfl : bytes = taken := by simpa [Cursor.start] using whole
  constructor
  · intro short shorter different
    obtain ⟨failure, fails, truncated⟩ := misses 0 short shorter different
    exact ⟨failure, parse_eq_error fails, truncated⟩
  · intro more left
    exact ⟨_, parse_trailing (takes 0 more) left, rfl⟩

/-- A class `D` with a method that only returns. -/
def plainClassBytes : List UInt8 :=
  [0xca, 0xfe, 0xba, 0xbe, 0, 0, 0, 52,
    0, 6, 1, 0, 1, 68, 7, 0, 1, 1, 0, 1, 109, 1, 0, 3, 40, 41, 86, 1, 0, 4, 67, 111, 100, 101,
    0, 0x21, 0, 2, 0, 0, 0, 0, 0, 0,
    0, 1, 0, 8, 0, 3, 0, 4, 0, 1, 0, 5, 0, 0, 0, 13, 0, 0, 0, 0, 0, 0, 0, 1, 0xb1, 0, 0, 0, 0,
    0, 0]

/-- The class is accepted, but not without its last byte, and not with another one behind it. -/
theorem parse_plainClass_decides_end :
    ∃ file, parse plainClassBytes = .ok file ∧
      (∃ failure, parse plainClassBytes.dropLast = .error failure ∧ failure.IsTruncated) ∧
      ∃ failure, parse (plainClassBytes ++ [0]) = .error failure ∧
        failure.cause = .format (.trailingBytes file.name) := by
  have accepted : (parse plainClassBytes).toOption.isSome = true := by decide +kernel
  obtain ⟨file, parsed⟩ := Option.isSome_iff_exists.mp accepted
  have accepted := ok_of_toOption parsed
  obtain ⟨cut, continued⟩ := parse_decides_end accepted
  exact ⟨file, accepted, cut _ (List.dropLast_prefix _) (by decide), continued [0] (by decide)⟩

end ClassFile

end Bytescript
