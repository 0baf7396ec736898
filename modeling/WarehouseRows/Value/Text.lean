import WarehouseRows.Json.Basic
import WarehouseRows.Value.Parts

/-!
# The text of a value

Every value has a default text, with few exceptions: an object that answers to no
names beyond its own, a decimal of infinite scale, some archetypes, and heirs of values
whose text needs a value of the sort itself. The text of an heir is made from its parts
as its archetype does it. In the text of a list, absent items are empty.

The JSON form of a value is what a log line or a document shows of it; big integers have
none. Decimals, dates, times and their heirs show their text, and a conversion error
shows what is known about it.

## Main definitions

* `Value.text`: the default text.
* `Value.toJson`: the JSON form; `none` for a value that is left out.
* `Value.operand`, `Value.parts`: a value, and what it answers, as operands.
-/

namespace WarehouseRows.Value

/-! ## Default text -/

/-- The text of a function. -/
def builtinText (name : String) : String :=
  "function " ++ name ++ "() \x7b [native code] \x7d"

/-- The constants of an archetype and of those behind it, as parts. -/
def constantParts (k : Archetype) : List (String × Operand) :=
  (k.lineage.flatMap constants).map fun m => (m.1, ⟨m.2, fun _ => .ok (Operand.scalarText m.2)⟩)

/-- The text of an archetype: that of the simplest value of its sort where there is one,
and otherwise what its own constants give. -/
def archetypeText : Archetype → Except Failure String
  | .list | .string => .ok ""
  | .number => .ok "0"
  | .bool => .ok "false"
  | .integer =>
    .error (Operand.refusal "BigInt.prototype.toString requires that 'this' be a BigInt")
  | k => textOfParts (.archetype k) (.ofList (constantParts k))

/-- The parts of a value that holds no other values which have parts. -/
def plainParts : Value → List (String × Operand)
  | .decimal d => [("unscaled", .ofInteger d.unscaled), ("scale", .ofNumber d.scale.toDouble)]
  | .date d =>
    [("year", .ofNumber d.parts.1), ("month", .ofNumber d.parts.2.1),
      ("day", .ofNumber d.parts.2.2)]
  | .time t =>
    [("hour", .ofNumber t.hour.toDouble), ("minute", .ofNumber t.minute.toDouble),
      ("second", .ofNumber t.second.toDouble), ("nano", .ofNumber t.nano.toDouble)]
  | .dateTime x =>
    [("date", ⟨.date x.date, fun _ => .ok x.date.text⟩),
      ("time", ⟨.time x.time, fun _ => .ok x.time.text⟩)]
  | .error maker message label =>
    [("name", .ofString (label.getD maker)), ("message", .ofString message)]
  | .failure e _ => [("name", .ofString "ConversionError"), ("message", .ofString e.message)]
  | .archetype k => constantParts k
  | _ => []

mutual

/-- The default text of a value. -/
def text : Value → Except Failure String
  | .null => .ok "null"
  | .missing => .ok "undefined"
  | .bool b => .ok (if b then "true" else "false")
  | .number x => .ok x.text
  | .integer n => .ok (toString n)
  | .string s => .ok s
  | .bytes bs => .ok (",".intercalate (bs.map fun b => Nat.repr b.toNat))
  | .buffer _ => .ok "[object ArrayBuffer]"
  | .instant t => .ok t.longText
  | .decimal d => d.text
  | .date d => .ok d.text
  | .time t => .ok t.text
  | .dateTime x => .ok x.text
  | .list items => (itemTexts items).map (",".intercalate ·)
  | .map _ => .ok "[object Map]"
  | .record members => textOfParts (.record members) (.ofList [])
  | .heir members parent =>
    textOfParts (.heir members parent) (.ofList (operands members ++ lentOperands parent))
  | .bare members => .error (noText (.bare members))
  | .archetype k => archetypeText k
  | .error maker message label => .ok (errorText (label.getD maker) message)
  | .failure e _ => .ok (errorText "ConversionError" e.message)
  | .builtin name => .ok (builtinText name)

/-- The texts of the items of a list; absent items are empty. -/
def itemTexts : List Value → Except Failure (List String)
  | [] => .ok []
  | item :: rest => do
    let first ← if item.isAbsent then pure "" else text item
    let others ← itemTexts rest
    pure (first :: others)

/-- Members as operands. -/
def operands : List (String × Value) → List (String × Operand)
  | [] => []
  | (name, value) :: rest => (name, ⟨value, fun _ => text value⟩) :: operands rest

/-- Items as operands. -/
def itemOperands : List Value → List Operand
  | [] => []
  | item :: rest => ⟨item, fun _ => text item⟩ :: itemOperands rest

/-- The parts that a parent lends to its heirs. -/
def lentOperands : Value → List (String × Operand)
  | .heir members parent => operands members ++ lentOperands parent
  | .list items =>
    Members.numbered 0 (itemOperands items) ++ [("length", .ofNat items.length)]
  | v => plainParts v

end

/-- A value as an operand. -/
def operand (v : Value) : Operand :=
  ⟨v, fun _ => v.text⟩

/-- What a value answers to the names of its parts. -/
def parts (v : Value) : Parts :=
  fun name => (v.member name).operand

/-! ## JSON form -/

/-- The members that the JSON form of a conversion error has, in order. -/
def failureNames : List String :=
  ["name", "code", "message", "field", "fieldType", "valueType", "suggestion", "context"]

/-- The JSON form of an heir of a conversion error, from the forms of its members. -/
def failureForm (form : String → Except Failure (Option Json)) : Except Failure (Option Json) :=
  do
  let members ← failureNames.mapM fun name => (form name).map (Json.optional name)
  pure (some (.object members.flatten))

/-- The forms of the members of a conversion error. -/
def failureForms (e : ConversionError) : List (String × Except Failure (Option Json)) :=
  match e.toJson with
  | .object members => members.map fun m => (m.1, .ok (some m.2))
  | _ => []

/-- The JSON form of an heir. The function of an archetype that gives a JSON form is
used, unless a member stands in for it; else the form shows the members of the heir. -/
def heirForm (v : Value) (own : Except Failure (Option Json))
    (form : String → Except Failure (Option Json)) : Except Failure (Option Json) :=
  match v.held? "toJSON", v.lineage.find? fun k => k.functions.contains "toJSON" with
  | none, some .failure => failureForm form
  | none, some .instant => .error Operand.noInstant
  | none, some _ => (v.operand.spoken "this").map fun s => some (.string s)
  | _, _ => own

mutual

/-- The JSON form of a value; `none` for a value that is left out. -/
def toJson : Value → Except Failure (Option Json)
  | .null => .ok (some .null)
  | .missing => .ok none
  | .bool b => .ok (some (.bool b))
  | .number x => .ok (some (.number x))
  | .integer _ => .error (Operand.refusal "Do not know how to serialize a BigInt")
  | .string s => .ok (some (.string s))
  | .bytes bs =>
    .ok (some (.object (Members.numbered 0 (bs.map fun b => .number (Double.ofNat b.toNat)))))
  | .buffer _ => .ok (some (.object []))
  | .instant t =>
    .ok <| some <| match t.isoText? with
      | some s => .string s
      | none => .null
  | .decimal d => d.text.map fun s => some (.string s)
  | .date d => .ok (some (.string d.text))
  | .time t => .ok (some (.string t.text))
  | .dateTime x => .ok (some (.string x.text))
  | .list items => (itemForms items).map fun forms => some (.array forms)
  | .map _ => .ok (some (.object []))
  | .record members => (memberForms members).map fun forms => some (.object forms)
  | .heir members parent =>
    heirForm (.heir members parent) ((memberForms members).map fun forms => some (.object forms))
      fun name => ((forms members ++ lentForms parent).lookup name).getD (.ok none)
  | .bare members => (memberForms members).map fun forms => some (.object forms)
  | .archetype _ => .ok (some (.object []))
  | .error _ _ label => .ok (some (.object (Json.optional "name" (label.map .string))))
  | .failure e _ => .ok (some e.toJson)
  | .builtin _ => .ok none

/-- The JSON forms of the items of a list; a value that is left out is `null`. -/
def itemForms : List Value → Except Failure (List Json)
  | [] => .ok []
  | item :: rest => do
    let form ← toJson item
    let forms ← itemForms rest
    pure (form.getD .null :: forms)

/-- The JSON forms of members, without those that are left out. -/
def memberForms : List (String × Value) → Except Failure (List (String × Json))
  | [] => .ok []
  | (name, value) :: rest => do
    let form ← toJson value
    let forms ← memberForms rest
    pure (Json.optional name form ++ forms)

/-- The JSON form of each member by its name. -/
def forms : List (String × Value) → List (String × Except Failure (Option Json))
  | [] => []
  | (name, value) :: rest => (name, toJson value) :: forms rest

/-- The forms of the members that a parent lends to its heirs. -/
def lentForms : Value → List (String × Except Failure (Option Json))
  | .heir members parent => forms members ++ lentForms parent
  | .failure e _ => failureForms e
  | _ => []

end

end WarehouseRows.Value
