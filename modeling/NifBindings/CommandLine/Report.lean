/-!
# Reports

What a program leaves behind: its exit code and what it printed. A failure is reported with the
errors it rests on, which are numbered if there are several.
-/

namespace NifBindings

/-- The outcome of a program. -/
structure Outcome where
  code : Nat
  output : String
  errors : String
deriving DecidableEq, Repr

/-- A text whose later lines are indented. -/
def indentLines (indent text : String) : String :=
  ("\n" ++ indent).intercalate ((text.toList.splitOn '\n').map String.ofList)

/-- The line of a cause that stands alone. -/
def soleCause (text : String) : String :=
  "    " ++ indentLines "    " text ++ "\n"

/-- The line of a numbered cause. The number takes five places. -/
def numberedCause (cause : String × Nat) : String :=
  let number := toString cause.2
  String.ofList (List.replicate (5 - number.length) ' ') ++ number ++ ": " ++
    indentLines "       " cause.1 ++ "\n"

/-- The report of an error and of its causes, outermost first. -/
def errorReport (message : String) (causes : List String) : String :=
  "Error: " ++ message ++ "\n" ++
    match causes with
    | [] => ""
    | [cause] => "\nCaused by:\n" ++ soleCause cause
    | _ => "\nCaused by:\n" ++ String.join (causes.zipIdx.map numberedCause)

/-- The outcome of a failed program. -/
def Outcome.failed (message : String) (causes : List String) : Outcome :=
  ⟨1, "", errorReport message causes⟩

end NifBindings
