/-! The command line. Options may stand before or after the command. -/

namespace Parlance

inductive Command where
  | run (script : String)
  | eval (source : String)
  | load (dir : Option String)
  | interactive
  deriving Repr, DecidableEq

structure Invocation where
  settingsFile : Option String := none
  verbose : Bool := false
  command : Command
  deriving Repr, DecidableEq

namespace Invocation

structure Parts where
  settingsFile : Option String := none
  verbose : Bool := false
  words : List String := []

/-- Tells options and words apart; after two hyphens there are only words. -/
def separate : List String → Parts → Option Parts
  | [], parts => some parts
  | "--" :: rest, parts => some { parts with words := parts.words ++ rest }
  | "-v" :: rest, parts => separate rest { parts with verbose := true }
  | "--verbose" :: rest, parts => separate rest { parts with verbose := true }
  | "--config" :: file :: rest, parts => separate rest { parts with settingsFile := some file }
  | arg :: rest, parts =>
    if "--config=".toList.isPrefixOf arg.toList then
      separate rest { parts with settingsFile := some (String.ofList (arg.toList.drop 9)) }
    else if arg.toList.head? = some '-' && arg != "-" then none
    else separate rest { parts with words := parts.words ++ [arg] }

def command? : List String → Option Command
  | [] => some .interactive
  | ["repl"] => some .interactive
  | ["run", script] => some (.run script)
  | ["eval", source] => some (.eval source)
  | ["load"] => some (.load none)
  | ["load", dir] => some (.load (some dir))
  | _ => none

def ofArgs? (args : List String) : Option Invocation := do
  let parts ← separate args {}
  let command ← command? parts.words
  return { settingsFile := parts.settingsFile, verbose := parts.verbose, command }

end Invocation
end Parlance
