import WarehouseRows.Error.Conversion
import WarehouseRows.Error.Issue

/-!
# Failures

A failure is a conversion error, a bad settings file, a document of the wrong
shape, or any other error, known by its name and message only. Converters of rows
turn every failure of a field into a conversion error.

## Main definitions

* `Failure`: any failure of the library.
* `Failure.toConversion`: the failure as a conversion error.
* `Failure.inField`: the failure of a field, seen from its row.
-/

namespace WarehouseRows

/-- Any failure of the library. -/
inductive Failure where
  | conversion (error : ConversionError)
  | settings (message : String)
  | shape (issues : List Issue)
  | other (name message : String)
  deriving Inhabited

namespace Failure

/-- A failure with a message only. -/
def plain (message : String) : Failure :=
  .other "Error" message

/-- A value that lies outside what an operation can take. -/
def range (message : String) : Failure :=
  .other "RangeError" message

/-- The message of a failure. -/
def message : Failure → String
  | .conversion e => e.message
  | .settings m => m
  | .shape issues => Issue.report "Invalid" issues
  | .other _ m => m

/-- The name of the kind of a failure. -/
def name : Failure → String
  | .conversion _ => "ConversionError"
  | .settings _ => "ConfigError"
  | .shape _ => "ValidationError"
  | .other n _ => n

/-- The failure as a conversion error: one of another kind becomes an unsupported
conversion with the same message. -/
def toConversion : Failure → ConversionError
  | .conversion e => e
  | f => { code := .unsupportedConversion, message := f.message }

/-- The failure of a field, seen from the row that holds it. -/
def inField (name : String) (f : Failure) : Failure :=
  .conversion (f.toConversion.withField name)

end Failure

end WarehouseRows
