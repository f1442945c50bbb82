/-!
# JSON values

Values as a JSON text writes them: members in order and with repetitions, numbers as written. A
string with an unpaired surrogate has no text, but is a value all the same.
-/

namespace NifBindings

/-- A JSON value. -/
inductive JsonValue where
  | null
  | bool (value : Bool)
  /-- A number as written. -/
  | number (text : String)
  /-- A string, with its text if it has one. -/
  | string (text? : Option String)
  | list (items : List JsonValue)
  /-- The members with their keys, which are strings. -/
  | object (members : List (Option String × JsonValue))
deriving Inhabited

end NifBindings
