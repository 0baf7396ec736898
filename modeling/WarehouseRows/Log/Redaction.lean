import WarehouseRows.Text.Blank
import WarehouseRows.Text.LetterCase
import WarehouseRows.Text.Replace
import WarehouseRows.Value.Text

/-!
# Redaction

What goes into a log is redacted first. A member with a secret name is masked,
whatever it holds. Inside text, the token of a bearer authorization and the password
in the address of a server are blanked. What a log line cannot hold, such as a big
integer, a date or a decimal, becomes its text; an error, or an heir of one, becomes a
record of its name, its message and its trace. The trace tells where an error came from,
so it is given from outside.

## Main definitions

* `Redaction.text`: a text with its secrets blanked.
* `Redaction.isSecretName`: the names whose members are masked.
* `Redaction.value`, `Redaction.record`: a value and a record that are safe to log.
-/

namespace WarehouseRows.Redaction

/-- What stands in place of a secret. -/
def mask : String := "[REDACTED]"

/-! ## Bearer tokens -/

/-- Whether a character is part of a word. -/
def isWordChar (c : Char) : Bool :=
  c.isAlphanum || c == '_'

/-- Whether a character may occur in a token. -/
def isTokenChar (c : Char) : Bool :=
  isWordChar c || c == '.' || c == '-'

/-- Whether a word ends or starts between the first `n` characters and the rest. -/
def isBoundary (cs : List Char) (n : Nat) : Bool :=
  (cs[n - 1]?.any isWordChar) != (cs[n]?.any isWordChar)

/-- The length of the token in front: the longest one of at least eight characters
that ends at a boundary. -/
def tokenLength? (cs : List Char) : Option Nat :=
  (List.range ((cs.takeWhile isTokenChar).length + 1)).reverse.find? fun n =>
    8 ≤ n && isBoundary cs n

/-- A bearer authorization: the word, blanks, and a token, not in the middle of a
word. -/
def bearer (before : Option Char) (cs : List Char) : Option Text.Match :=
  if before.any isWordChar then none
  else do
    let rest ← Text.after? "Bearer".toList cs
    let (blanks, rest) ← Text.run? Text.isBlank rest
    let token ← tokenLength? rest
    pure ⟨5 + blanks.length + token, s!"Bearer {mask}".toList⟩

/-! ## Passwords in addresses -/

/-- Whether a character may stand in a scheme behind the first letter. -/
def isSchemeChar (c : Char) : Bool :=
  c.isAlphanum || c == '+' || c == '.' || c == '-'

/-- Whether a character may stand in the name of a user. -/
def isUserChar (c : Char) : Bool :=
  !(c == ':' || c == '/' || Text.isBlank c)

/-- Whether a character may stand in a password. -/
def isPasswordChar (c : Char) : Bool :=
  !(c == '@' || c == '/' || Text.isBlank c)

/-- An address with a user and a password, up to the at sign. The scheme starts at the
first letter that a scheme can start with. -/
def address (_before : Option Char) (cs : List Char) : Option Text.Match := do
  let (scheme, rest) ← Text.run? isSchemeChar cs
  if !(scheme.head?.any Char.isAlpha) then none
  else do
    let rest ← Text.after? "://".toList rest
    let (user, rest) ← Text.run? isUserChar rest
    let rest ← Text.after? [':'] rest
    let (password, rest) ← Text.run? isPasswordChar rest
    let _ ← Text.after? ['@'] rest
    let lead := scheme ++ "://".toList ++ user ++ [':']
    pure ⟨lead.length + password.length, lead ++ mask.toList ++ ['@']⟩

/-! ## Text and values -/

/-- A text with its secrets blanked, tokens first. -/
def text (s : String) : String :=
  String.ofList (Text.replaceAll address (Text.replaceAll bearer s.toList))

/-- The secret names, in small letters. -/
def secretNames : List String :=
  ["password", "pass", "token", "accesstoken", "apikey", "secret", "credentials",
    "privatekey", "authorization"]

/-- Whether a member of this name is masked; small and capital letters count alike. -/
def isSecretName (name : String) : Bool :=
  secretNames.contains (Text.asciiLower name)

/-- The record that stands for an error. An empty trace is left out. -/
def errorRecord (name : Value) (message trace : String) : Value :=
  .record [("name", name), ("message", .string (text message)),
    (Value.traceName, if trace.isEmpty then .missing else .string (text trace))]

/-- The text that a member of an error has to be. -/
def textIn (place : String) : Value → Except Failure String
  | .string s => .ok s
  | .null => .error (Value.nothingToAsk "null" "replace")
  | .missing => .error (Value.nothingToAsk "undefined" "replace")
  | _ => .error (Operand.noFunction (place ++ ".replace"))

/-- The trace that an heir of an error holds: that of the error, or what was put in its
place, which has to be a text unless it counts as nothing. -/
def heldTrace (v : Value) (traceOf : Value → String) : Except Failure String :=
  if v.hasErrorTrace then .ok (traceOf v.root)
  else
    let held := v.member Value.traceName
    if held.isNothing then .ok "" else textIn "value" held

/-- The record that stands for an heir of an error, or its text if it is none. -/
def heir (v : Value) (traceOf : Value → String) : Except Failure Value :=
  if v.isA .error then do
    let message ← textIn "value" (v.member "message")
    let trace ← heldTrace v traceOf
    pure (errorRecord (v.member "name") message trace)
  else v.text.map .string

mutual

/-- A value that is safe to log. The traces of errors are given; an empty one is none. -/
def value (v : Value) (traceOf : Value → String := fun _ => "") : Except Failure Value :=
  match v with
  | .null => .ok .null
  | .missing => .ok .missing
  | .bool b => .ok (.bool b)
  | .number x => .ok (.number x)
  | .string s => .ok (.string (text s))
  | .list list => (items list traceOf).map .list
  | .error maker message label =>
    .ok (errorRecord (.string (label.getD maker)) message (traceOf (.error maker message label)))
  | .failure e cause =>
    .ok (errorRecord (.string "ConversionError") e.message (traceOf (.failure e cause)))
  | .record list => (pairs list traceOf).map Value.ofAssignments
  | v => heir v traceOf

/-- The items of a list, safe to log. -/
def items (list : List Value) (traceOf : Value → String) : Except Failure (List Value) :=
  match list with
  | [] => .ok []
  | item :: rest => do
    let first ← value item traceOf
    let others ← items rest traceOf
    pure (first :: others)

/-- Members with the secret ones masked and the others safe to log. -/
def pairs (list : List (String × Value)) (traceOf : Value → String) :
    Except Failure (List (String × Value)) :=
  match list with
  | [] => .ok []
  | (name, v) :: rest => do
    let first ← if isSecretName name then pure (.string mask) else value v traceOf
    let others ← pairs rest traceOf
    pure ((name, first) :: others)

end

/-- The record of the members of a log line, safe to log. -/
def record (members : Members Value) (traceOf : Value → String) : Except Failure Value :=
  (pairs members traceOf).map Value.ofAssignments

end WarehouseRows.Redaction
