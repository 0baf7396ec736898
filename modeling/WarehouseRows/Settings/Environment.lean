import WarehouseRows.Text.Placeholder
import WarehouseRows.Value.Text

/-!
# Environment variables in documents

The strings of a document may hold placeholders for environment variables. A
variable that is set and not empty stands for its value, which is not looked at
again; otherwise the default of the placeholder does. Without a default the variable
is missing, which is a failure unless missing variables are allowed. A placeholder
without a name, and one whose variable may be missing, stays as it is.

## Main definitions

* `Environment`: the variables.
* `Environment.resolve`: the text for a placeholder.
* `Environment.expandText`, `Environment.expand`: a string and a document with all
  placeholders replaced, the values of parents too.
* `Environment.mentioned`: the variables that a document asks for.
-/

namespace WarehouseRows

/-- The variables that documents may refer to. -/
structure Environment where
  vars : Members String
  /-- Whether a placeholder of a missing variable stays as it is. -/
  allowMissing : Bool := false
  deriving Inhabited

namespace Environment

/-- What an environment answers to a name: the value of a variable or, as every
object does, the text of what its archetype answers. -/
def value? (env : Environment) (name : String) : Option String :=
  match env.vars.get? name with
  | some value => some value
  | none =>
    match (Value.record []).member name with
    | .missing => none
    | answer => answer.text.toOption

/-- The failure of a variable that is missing. -/
def missing (name : String) : Failure :=
  .settings s!"Missing required environment variable: {name}"

/-- The characters that stand in place of a placeholder. -/
def resolve (env : Environment) (inner : Placeholder) : Except Failure (List Char) :=
  if inner.name.isEmpty then .ok inner.written
  else
    match (env.value? inner.name).filter fun value => !value.isEmpty with
    | some value => .ok value.toList
    | none =>
      match inner.fallback with
      | some text => .ok text.toList
      | none => if env.allowMissing then .ok inner.written else .error (missing inner.name)

/-- The characters that stand in place of a piece. -/
def expandPiece (env : Environment) : Piece → Except Failure (List Char)
  | .plain c => .ok [c]
  | .placeholder inner => env.resolve inner

/-- The characters that stand in place of pieces. -/
def expandPieces (env : Environment) : List Piece → Except Failure (List Char)
  | [] => .ok []
  | piece :: rest => do
    let first ← env.expandPiece piece
    let others ← env.expandPieces rest
    pure (first ++ others)

/-- A text with its placeholders replaced. -/
def expandText (env : Environment) (text : String) : Except Failure String :=
  (env.expandPieces (Piece.scan text.toList)).map String.ofList

mutual

/-- A document with the placeholders in all its strings replaced. -/
def expand (env : Environment) : Json → Except Failure Json
  | .string s => (env.expandText s).map .string
  | .array items => (env.expandItems items).map .array
  | .object members => (env.expandMembers members).map .object
  | .null => .ok .null
  | .bool b => .ok (.bool b)
  | .number x => .ok (.number x)

/-- The items of a document, expanded in order. -/
def expandItems (env : Environment) : List Json → Except Failure (List Json)
  | [] => .ok []
  | item :: rest => do
    let first ← env.expand item
    let others ← env.expandItems rest
    pure (first :: others)

/-- The members of a document, expanded in order. Names are no strings of the
document and stay as they are. -/
def expandMembers (env : Environment) :
    List (String × Json) → Except Failure (List (String × Json))
  | [] => .ok []
  | (name, value) :: rest => do
    let first ← env.expand value
    let others ← env.expandMembers rest
    pure ((name, first) :: others)

end

/-- The variables that a text asks for. -/
def mentionedIn (text : String) : List String :=
  (Piece.scan text.toList).filterMap fun piece =>
    match piece with
    | .plain _ => none
    | .placeholder inner => some inner.name

mutual

/-- The variables that a document asks for. -/
def mentioned : Json → List String
  | .string s => mentionedIn s
  | .array items => mentionedByItems items
  | .object members => mentionedByMembers members
  | .null => []
  | .bool _ => []
  | .number _ => []

/-- The variables that items ask for. -/
def mentionedByItems : List Json → List String
  | [] => []
  | item :: rest => mentioned item ++ mentionedByItems rest

/-- The variables that members ask for. -/
def mentionedByMembers : List (String × Json) → List String
  | [] => []
  | (_, value) :: rest => mentioned value ++ mentionedByMembers rest

end

end Environment

end WarehouseRows
