/-!
# Validation issues

Checking a JSON document against a shape gives either a value or a list of issues,
each at a path from the root. An issue may be fatal, so that no value could be
built at its place, or not, such as an unknown member; a choice between shapes
prefers a shape whose issues are not fatal.

## Main definitions

* `Issue`: a complaint about one place of a document.
* `Checked`: the outcome of a check.
* `Checked.both`, `Checked.under`: combining checks and placing them.
-/

namespace WarehouseRows

/-- A complaint about one place of a document. -/
structure Issue where
  /-- Member names and item numbers from the root. -/
  path : List String
  text : String
  deriving DecidableEq, Repr, Inhabited

namespace Issue

/-- The dotted path, or a word for the root. -/
def place (issue : Issue) : String :=
  let dotted := ".".intercalate issue.path
  if dotted.isEmpty then "(root)" else dotted

/-- The issues as a list under a heading. -/
def report (heading : String) (issues : List Issue) : String :=
  s!"{heading}:\n" ++
    "\n".intercalate (issues.map fun issue => s!"- {issue.place}: {issue.text}")

end Issue

/-- The outcome of a check. -/
inductive Checked (α : Type) where
  | valid (value : α)
  | flawed (fatal : Bool) (issues : List Issue)
  deriving Inhabited

namespace Checked

variable {α β γ : Type}

/-- A check that fails with one fatal issue at its own place. -/
def refuse (text : String) : Checked α :=
  .flawed true [⟨[], text⟩]

/-- A check that fails with one issue that is not fatal. -/
def remark (text : String) : Checked α :=
  .flawed false [⟨[], text⟩]

/-- The outcome with its value replaced. -/
def map (f : α → β) : Checked α → Checked β
  | .valid a => .valid (f a)
  | .flawed fatal issues => .flawed fatal issues

/-- Both checks: their values, or the issues of both in order. -/
def both (f : α → β → γ) : Checked α → Checked β → Checked γ
  | .valid a, .valid b => .valid (f a b)
  | .valid _, .flawed fatal issues => .flawed fatal issues
  | .flawed fatal issues, .valid _ => .flawed fatal issues
  | .flawed fatal₁ issues₁, .flawed fatal₂ issues₂ =>
    .flawed (fatal₁ || fatal₂) (issues₁ ++ issues₂)

instance : Applicative Checked where
  pure := .valid
  seq f x := both (fun f a => f a) f (x ())

/-- The outcome of a check of a part, seen from the whole. -/
def under (step : String) : Checked α → Checked α
  | .valid a => .valid a
  | .flawed fatal issues =>
    .flawed fatal (issues.map fun issue => { issue with path := step :: issue.path })

/-- The checks of consecutive items; `start` is the number of the first. -/
def items (start : Nat) : List (Checked α) → Checked (List α)
  | [] => .valid []
  | first :: rest => both List.cons (first.under (toString start)) (items (start + 1) rest)

/-- The value, or the issues. -/
def toExcept : Checked α → Except (List Issue) α
  | .valid a => .ok a
  | .flawed _ issues => .error issues

end Checked

end WarehouseRows
