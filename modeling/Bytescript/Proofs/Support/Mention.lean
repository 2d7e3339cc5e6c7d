import Bytescript.Proofs.Failure
import Bytescript.Proofs.Script.Names
import Bytescript.Support.Selection

/-!
# What the support library names is there

The text of a feature names functions and values of other features behind a mark that stands in
front of nothing else.  Each of them is defined by a line of the feature itself or of one that it
depends on, so a set of features that contains the dependencies of its members defines all that
its text names.  The functions that translated code calls are defined by their features.
-/

set_option autoImplicit false

namespace Bytescript.Support

namespace Mention

theorem allIn_of_notMem {chars : List Char} (missing : '$' ∉ chars) : allIn chars = [] := by
  fun_induction allIn chars with
  | case1 => rfl
  | case2 rest ih => exact absurd List.mem_cons_self missing
  | case3 char rest _ ih => exact ih fun member => missing (.tail _ member)

/-- The line that registers a class names nothing else. -/
theorem allIn_defineClass {chars : List Char} (missing : '$' ∉ chars) :
    allIn ("$vm.defineClass(".toList ++ chars) = [ofFunction .defineClass] := by
  have marked : allIn ("$vm.defineClass(".toList ++ chars) =
      behind ("defineClass(".toList ++ chars) :: allIn ("defineClass(".toList ++ chars) := by
    simp [allIn]
  have named : behind ("defineClass(".toList ++ chars) = ofFunction .defineClass := rfl
  have nothing : allIn ("defineClass(".toList ++ chars) = [] :=
    allIn_of_notMem (by simpa using missing)
  rw [marked, named, nothing]

end Mention

/-! ## Features -/

namespace Feature

variable {feature : Feature} {mention : Mention} {line : String}

/-- A feature or one that it depends on defines what is named. -/
def Finds (feature : Feature) (mention : Mention) : Prop :=
  ∃ other ∈ feature.closure, ∃ line ∈ other.lines, mention.definition <+: line.toList

theorem mem_all (feature : Feature) : feature ∈ all := by
  cases feature <;> decide

theorem mem_closure_self (feature : Feature) : feature ∈ feature.closure := by
  cases feature <;> decide

theorem closure_subset {other : Feature} (member : other ∈ feature.closure) :
    other.closure ⊆ feature.closure := by
  have all : ∀ feature ∈ all, ∀ other ∈ feature.closure, other.closure ⊆ feature.closure := by
    decide
  exact all feature feature.mem_all other member

theorem mem_functionTexts : (feature, line) ∈ functionTexts ↔ line ∈ feature.lines := by
  simp [functionTexts, mem_all]

theorem finds_of_isDefinedFor {spellings : List (Feature × List Char)}
    (spelled : List.Forall₂ IsSpelled functionTexts spellings)
    (defined : isDefinedFor spellings feature mention = true) : feature.Finds mention := by
  obtain ⟨⟨other, chars⟩, member, here⟩ := List.any_eq_true.mp defined
  simp only [Bool.and_eq_true, List.isPrefixOf_iff_prefix, List.contains_iff_mem] at here
  obtain ⟨text, listed, same⟩ := exists_of_forall₂_right spelled member
  cases same with
  | line =>
    refine ⟨other, here.2, String.ofList chars, mem_functionTexts.mp listed, ?_⟩
    rw [String.toList_ofList]
    exact here.1

/-- The lines that are written out only name what is there. -/
theorem finds_of_mem_texts (listed : (feature, line) ∈ functionTexts ++ classTexts)
    (member : mention ∈ Mention.allIn line.toList) : feature.Finds mention := by
  obtain ⟨spellings, more, spelled, spelled', checked⟩ := exists_spellings
  obtain ⟨⟨other, chars⟩, listed', same⟩ :=
    exists_of_forall₂_left (List.rel_append spelled spelled') listed
  cases same with
  | line =>
    rw [String.toList_ofList] at member
    have named := List.all_eq_true.mp checked.names _ listed'
    exact finds_of_isDefinedFor spelled (List.all_eq_true.mp named mention member)

end Feature

/-- The feature of a function defines it. -/
theorem Function.finds (function : Function) :
    function.feature.Finds (.ofFunction function) := by
  obtain ⟨spellings, _, spelled, _, checked⟩ := exists_spellings
  have member : function ∈ all := by cases function <;> decide
  exact Feature.finds_of_isDefinedFor spelled
    (List.all_eq_true.mp checked.functions function member)

/-! ## Builtin classes -/

namespace Builtin

variable {builtin : Builtin}

/-- The names of builtin classes consist of letters and slashes. -/
theorem all_isAlpha_or_slash : ∀ builtin ∈ all,
    (builtin.name.text.toList.all fun char => char.isAlpha || char = '/') = true := by
  decide +kernel

theorem isAlpha_or_slash (listed : builtin ∈ all) {char : Char}
    (member : char ∈ builtin.name.text.toList) : char.isAlpha = true ∨ char = '/' := by
  simpa using List.all_eq_true.mp (all_isAlpha_or_slash builtin listed) char member

theorem mem_names_of_superClass : ∀ builtin ∈ all, ∀ superClass ∈ builtin.superClass,
    superClass ∈ names := by
  simp [all, names, interface, exception, ClassName.object]

/-- The class above an exception. -/
def parent (builtin : Builtin) : ClassName := builtin.superClass.getD ⟨"java/lang/Throwable"⟩

theorem parent_mem_names (listed : builtin ∈ all) : builtin.parent ∈ names := by
  rw [parent]
  cases super : builtin.superClass with
  | none => decide
  | some superClass => exact mem_names_of_superClass builtin listed _ super

theorem dollar_notMem_text {name : ClassName} (listed : name ∈ names) :
    '$' ∉ name.text.toList := by
  obtain ⟨builtin, member, rfl⟩ := List.mem_map.mp listed
  intro dollar
  rcases isAlpha_or_slash member dollar with letter | slash
  · cases letter
  · cases slash

/-- The names of builtin classes in the script consist of letters and underscores. -/
theorem isAlpha_or_underscore (listed : builtin ∈ all) {char : Char}
    (member : char ∈ Script.escapeName builtin.name.text.toList) :
    char.isAlpha = true ∨ char = '_' := by
  obtain ⟨original, inside, member⟩ := List.mem_flatMap.mp member
  rcases isAlpha_or_slash listed inside with letter | rfl
  · have plain : Script.isPlain original = true := by
      simp [Script.isPlain, Char.isAlphanum, letter]
    rw [Script.escapeNameChar, if_pos plain, List.mem_singleton] at member
    exact .inl (member ▸ letter)
  · exact .inr (List.mem_singleton.mp member)

/-- Other characters do not occur in them. -/
theorem notMem_classIdentifier (char : Char) (other : (char.isAlpha || char = '_') = false)
    {name : ClassName} (listed : name ∈ names) :
    char ∉ (Script.classIdentifier name).toList := by
  obtain ⟨builtin, member, rfl⟩ := List.mem_map.mp listed
  rw [Script.classIdentifier, String.toList_ofList]
  intro inside
  rcases isAlpha_or_underscore member inside with letter | underscore
  · simp [letter] at other
  · simp [underscore] at other

theorem oneLine_text {name : ClassName} (listed : name ∈ names) : Script.OneLine name.text := by
  obtain ⟨builtin, member, rfl⟩ := List.mem_map.mp listed
  have letters : ∀ char ∈ builtin.name.text.toList, (char.isAlpha || char = '/') = true :=
    fun char inside => by simpa using isAlpha_or_slash member inside
  exact Script.oneLine_of_all (by decide) letters

/-- A line that is written for a class without a text of its own. -/
inductive IsFrame : String → Prop where
  | opening {name : ClassName} (known : name ∈ names) :
    IsFrame ("function " ++ Script.classIdentifier name ++ "() \x7b")
  | parent {name : ClassName} (known : name ∈ names) :
    IsFrame ("\t" ++ Script.classIdentifier name ++ ".call(this);")
  | closing : IsFrame "\x7d"
  | registration {rest : String} (missing : '$' ∉ rest.toList) (single : Script.OneLine rest) :
    IsFrame ("$vm.defineClass(" ++ rest)

/-- The lines of a builtin class are a text of its own or the same for all classes. -/
theorem mem_classTexts_or_isFrame (listed : builtin ∈ all) {line : String}
    (written : line ∈ builtin.lines) :
    (builtin.feature, line) ∈ classTexts ∨ IsFrame line := by
  have own : builtin.name ∈ names := List.mem_map_of_mem listed
  have ctor := notMem_classIdentifier '$' (by decide) own
  have text := dollar_notMem_text own
  have named := oneLine_text own
  rw [lines] at written
  split at written
  next texts same =>
    refine .inl (List.mem_flatMap.mpr ⟨builtin, listed, ?_⟩)
    rw [same]
    exact List.mem_map_of_mem written
  next =>
    simp only [List.mem_cons, List.not_mem_nil, or_false] at written
    rcases written with rfl | rfl | rfl
    · exact .inr (.opening own)
    · exact .inr .closing
    · simp only [String.append_assoc]
      refine .inr (.registration (by simp [ctor, text]) ?_)
      simp only [Script.oneLine_append]
      exact ⟨Script.oneLine_classIdentifier _, by decide, named, by decide⟩
  next =>
    have above : builtin.superClass.getD ⟨"java/lang/Throwable"⟩ ∈ names :=
      parent_mem_names listed
    have parent := notMem_classIdentifier '$' (by decide) above
    simp only [List.mem_cons, List.not_mem_nil, or_false] at written
    rcases written with rfl | rfl | rfl | rfl
    · exact .inr (.opening own)
    · exact .inr (.parent above)
    · exact .inr .closing
    · simp only [String.append_assoc]
      refine .inr (.registration (by simp [ctor, text, parent]) ?_)
      simp only [Script.oneLine_append]
      exact ⟨Script.oneLine_classIdentifier _, by decide, named, by decide,
        Script.oneLine_classIdentifier _, by decide⟩

/-- The lines of builtin classes only name what is there. -/
theorem finds_of_mem_lines (listed : builtin ∈ all) {line : String}
    (written : line ∈ builtin.lines) {mention : Mention}
    (member : mention ∈ Mention.allIn line.toList) : builtin.feature.Finds mention := by
  rcases mem_classTexts_or_isFrame listed written with own | frame
  · exact Feature.finds_of_mem_texts (List.mem_append_right _ own) member
  cases frame with
  | opening known =>
    have ctor := notMem_classIdentifier '$' (by decide) known
    rw [Mention.allIn_of_notMem (by simp [ctor])] at member
    cases member
  | parent known =>
    have parent := notMem_classIdentifier '$' (by decide) known
    rw [Mention.allIn_of_notMem (by simp [parent])] at member
    cases member
  | closing =>
    rw [Mention.allIn_of_notMem (by decide)] at member
    cases member
  | registration missing _ =>
    rw [String.toList_append, Mention.allIn_defineClass missing, List.mem_singleton] at member
    obtain ⟨other, known, line, found, begins⟩ := Function.finds .defineClass
    have included : ∀ builtin ∈ all, Feature.classModel ∈ builtin.feature.closure := by decide
    subst member
    exact ⟨other, Feature.closure_subset (included builtin listed) known, line, found, begins⟩

end Builtin

/-- Whatever is written for a feature only names what is there. -/
theorem Feature.finds_of_mem_written {feature : Feature} {provided translated : ClassName → Bool}
    {line : String} (written : line ∈ feature.written provided translated) {mention : Mention}
    (member : mention ∈ Mention.allIn line.toList) : feature.Finds mention := by
  rw [Feature.written, List.cons_append, List.mem_cons, List.mem_append] at written
  rcases written with rfl | own | inClass
  · have missing : '$' ∉ ("// " ++ feature.heading).toList := by cases feature <;> decide
    rw [Mention.allIn_of_notMem missing] at member
    cases member
  · exact finds_of_mem_texts (List.mem_append_left _ (mem_functionTexts.mpr own)) member
  · obtain ⟨builtin, included, inside⟩ := List.mem_flatMap.mp inClass
    obtain ⟨listed, chosen⟩ := List.mem_filter.mp included
    rw [Bool.and_eq_true, decide_eq_true_eq] at chosen
    exact chosen.1 ▸ Builtin.finds_of_mem_lines listed inside member

/-! ## Sets of features -/

namespace FeatureSet

variable {set : FeatureSet} {feature other : Feature} {features : List Feature} {mention : Mention}

/-- The functions of the features of a set define what is named. -/
def Defines (set : FeatureSet) (mention : Mention) : Prop :=
  ∃ feature ∈ set.members, ∃ line ∈ feature.lines, mention.definition <+: line.toList

theorem mem_insert :
    other ∈ (set.insert feature).members ↔ other ∈ set.members ∨ other ∈ feature.closure := by
  simp [insert, contains, Feature.mem_all]

/-- A set of features consists of what they depend on, themselves included. -/
theorem mem_insertAll : other ∈ (empty.insertAll features).members ↔
    ∃ feature ∈ features, other ∈ feature.closure := by
  have folded (set : FeatureSet) : other ∈ (features.foldl insert set).members ↔
      other ∈ set.members ∨ ∃ feature ∈ features, other ∈ feature.closure := by
    induction features generalizing set with
    | nil => simp
    | cons feature rest ih =>
      rw [List.foldl_cons, ih, mem_insert]
      simp only [List.mem_cons, exists_eq_or_imp, or_assoc]
  simpa [insertAll, empty] using folded empty

theorem defines_of_finds (listed : feature ∈ features) (finds : feature.Finds mention) :
    (empty.insertAll features).Defines mention := by
  obtain ⟨other, known, line, found, begins⟩ := finds
  exact ⟨other, mem_insertAll.mpr ⟨feature, listed, known⟩, line, found, begins⟩

/-- A set of features defines all that its text names. -/
theorem defines_of_mem_lines {provided translated : ClassName → Bool} {line : String}
    (written : line ∈ (empty.insertAll features).lines provided translated)
    (member : mention ∈ Mention.allIn line.toList) :
    (empty.insertAll features).Defines mention := by
  obtain ⟨feature, included, inside⟩ := List.mem_flatMap.mp written
  obtain ⟨listed, known, depends⟩ := mem_insertAll.mp included
  obtain ⟨other, needed, line, found, begins⟩ := Feature.finds_of_mem_written inside member
  exact ⟨other, mem_insertAll.mpr ⟨listed, known, Feature.closure_subset depends needed⟩, line,
    found, begins⟩

/-- No function of the library has the name of the method that calls a function. -/
theorem not_defines_call (set : FeatureSet) : ¬ set.Defines ⟨"call".toList, true⟩ := by
  rintro ⟨feature, _, line, own, begins⟩
  obtain ⟨spellings, _, spelled, _, checked⟩ := exists_spellings
  obtain ⟨⟨other, chars⟩, listed, same⟩ :=
    exists_of_forall₂_left spelled (Feature.mem_functionTexts.mpr own)
  cases same with
  | line =>
    rw [@String.toList_ofList chars] at begins
    have start : Mention.mark ++ "call ".toList <+: Mention.definition ⟨"call".toList, true⟩ :=
      ⟨"= function(".toList, rfl⟩
    have other := List.all_eq_true.mp checked.call _ listed
    simp only [Bool.not_eq_true', Bool.eq_false_iff, ne_eq, List.isPrefixOf_iff_prefix] at other
    exact other (start.trans begins)

end FeatureSet

/-! ## Single lines -/

theorem oneLine_of_mem_texts {feature : Feature} {line : String}
    (listed : (feature, line) ∈ functionTexts ++ classTexts) : Script.OneLine line := by
  obtain ⟨spellings, more, spelled, spelled', checked⟩ := exists_spellings
  obtain ⟨⟨other, chars⟩, listed', same⟩ :=
    exists_of_forall₂_left (List.rel_append spelled spelled') listed
  cases same with
  | line =>
    have single := List.all_eq_true.mp checked.single _ listed'
    rw [Script.OneLine, String.toList_ofList]
    exact fun char member => by simpa using List.all_eq_true.mp single char member

theorem Builtin.IsFrame.oneLine {line : String} (frame : IsFrame line) : Script.OneLine line := by
  cases frame with
  | opening | parent =>
    simp only [Script.oneLine_append]
    exact ⟨⟨by decide, Script.oneLine_classIdentifier _⟩, by decide⟩
  | closing => decide
  | registration _ rest => exact Script.oneLine_append.mpr ⟨by decide, rest⟩

/-- No line of the support library ends inside of another one. -/
theorem FeatureSet.oneLine_of_mem_lines {set : FeatureSet} {provided translated : ClassName → Bool}
    {line : String} (written : line ∈ set.lines provided translated) : Script.OneLine line := by
  obtain ⟨feature, _, inside⟩ := List.mem_flatMap.mp written
  rw [Feature.written, List.cons_append, List.mem_cons, List.mem_append] at inside
  rcases inside with rfl | own | inClass
  · cases feature <;> decide
  · exact oneLine_of_mem_texts (List.mem_append_left _ (Feature.mem_functionTexts.mpr own))
  · obtain ⟨builtin, included, listed⟩ := List.mem_flatMap.mp inClass
    rcases Builtin.mem_classTexts_or_isFrame (List.mem_filter.mp included).1 listed with own | frame
    · exact oneLine_of_mem_texts (List.mem_append_right _ own)
    · exact frame.oneLine

end Bytescript.Support
