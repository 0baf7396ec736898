import WarehouseRows.Error.Failure

/-!
# Command line arguments

A command line names a command and an input file. Options, each with a value behind
it, may stand anywhere; they are taken out first, one after another, and what is left
over behind the input file is ignored.

## Main definitions

* `Arguments`: what a command line says.
* `Arguments.take`: one option taken out of a command line.
* `Arguments.read`: the arguments of a command line.
-/

namespace WarehouseRows

/-- What a command line says. -/
structure Arguments where
  command : String
  input : String
  config : Option String := none
  name : String
  space : Option String := none
  deriving DecidableEq, Repr, Inhabited

namespace Arguments

/-- The record name where none is given. -/
def defaultName : String := "root"

/-- Whether a word reads as the name of an option. -/
def looksLikeOption (word : String) : Bool :=
  "--".toList.isPrefixOf word.toList

/-- The failure of an option without a value. -/
def noValue (option : String) : Failure :=
  .settings s!"Option {option} requires a value"

/-- The value of the first occurrence of an option, and the words without the two. -/
def take (option : String) : List String → Except Failure (Option String × List String)
  | [] => .ok (none, [])
  | word :: rest =>
    if word = option then
      match rest with
      | [] => .error (noValue option)
      | value :: others =>
        if looksLikeOption value then .error (noValue option) else .ok (some value, others)
    else (take option rest).map fun found => (found.1, word :: found.2)

/-- Whether a command line asks for help. -/
def asksForHelp (words : List String) : Bool :=
  words.contains "--help" || words.contains "-h"

/-- A text unless it is empty. -/
def unlessEmpty (text : Option String) : Option String :=
  text.filter fun t => !t.isEmpty

/-- The arguments of a command line; there are none when it does not name both a
command and an input file. -/
def read (words : List String) : Except Failure (Option Arguments) := do
  let (config, words) ← take "--config" words
  let (name, words) ← take "--name" words
  let (space, words) ← take "--namespace" words
  match words with
  | command :: input :: _ =>
    if command.isEmpty || input.isEmpty then pure none
    else
      pure <| some
        { command := command
          input := input
          config := unlessEmpty config
          name := name.getD defaultName
          space := space }
  | _ => pure none

end Arguments

end WarehouseRows
