import Bytescript.Text.Json
import Bytescript.Translation.NativeBody

/-!
# Files of native bodies

A file of native bodies is a JSON list.  Every item is about one method: an object with the
members `class`, `method`, `descriptor` and `body`, and `args` if the body has parameters; or the
list of these five values with `args` before `body`.  Other members are passed over, but no
member may be there twice.  A later item about the same method replaces an earlier one.
-/

set_option autoImplicit false

namespace Bytescript.NativesFile

open Text

/-- An item of the file: a method, and its body. -/
structure Item where
  owner : ClassName
  name : String
  descriptor : String
  body : NativeBody
  deriving DecidableEq

/-- The members of an object by their names, which must be texts. -/
abbrev Members : Type := List (String × Json)

/-- The value of an optional member. -/
def optional? (members : Members) (name : String) : Option (Option Json) :=
  match members.filter fun (other, _) => other = name with
  | [] => some none
  | [(_, value)] => some (some value)
  | _ => none

/-- The value of a member that must be there. -/
def required? (members : Members) (name : String) : Option Json :=
  (optional? members name).bind id

/-- A list of texts. -/
def texts? (value : Json) : Option (List String) := value.items?.bind (List.mapM Json.text?)

/-- The item that five values make up. -/
def itemOf? (owner name descriptor parameters text : Json) : Option Item :=
  return ⟨.ofWritten (← owner.text?), ← name.text?, ← descriptor.text?,
    ⟨← texts? parameters, ← text.text?⟩⟩

/-- The item that an object describes. -/
def ofMembers? (members : Members) : Option Item := do
  let parameters ← optional? members "args"
  itemOf? (← required? members "class") (← required? members "method")
    (← required? members "descriptor") (parameters.getD (.array []))
    (← required? members "body")

/-- Reads an item. -/
def item? : Json → Option Item
  | .object members => do
    ofMembers? (← members.mapM fun (name, value) => name.map fun name => (name, value))
  | .array [owner, name, descriptor, parameters, text] =>
    itemOf? owner name descriptor parameters text
  | _ => none

/-- The bodies that items give. -/
def bodies (items : List Item) : NativeBodies :=
  items.foldl (fun bodies item => bodies.insert item.owner item.name item.descriptor item.body)
    .empty

/-- Reads a whole file. -/
def read? (content : List UInt8) : Option NativeBodies := do
  let items ← (← Json.ofBytes? content).items?
  return bodies (← items.mapM item?)

end Bytescript.NativesFile
