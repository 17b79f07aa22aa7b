import Lexicolor.Command.Basic

/-!
# The command line

Words are read from left to right: options, a command, and what the command
takes. Options that all commands share may stand before and after the command;
the last place counts. An option's value is settled when the next option or
argument is met.
-/

namespace Lexicolor.CommandLine

/-- Why a command line asks for no work. -/
inductive UsageError where
  | helpWanted
  | versionWanted
  | unknownArgument
  | unknownCommand
  | invalidValue
  | repeatedOption
  | valueForFlag
  | missingArgument
  deriving DecidableEq, Repr

/-- What takes a value. -/
inductive Slot where
  | root
  | source
  | file
  deriving DecidableEq

/-- What was given before the command, or after it. -/
structure Given where
  root : Option String := none
  source : Option String := none
  file : Option String := none
  verbose : Bool := false
  json : Bool := false

namespace Given

def value? (given : Given) : Slot → Option String
  | .root => given.root
  | .source => given.source
  | .file => given.file

def set (given : Given) (slot : Slot) (value : String) : Given :=
  match slot with
  | .root => { given with root := some value }
  | .source => { given with source := some value }
  | .file => { given with file := some value }

/-- Gives a value, which must not be empty, to what has none. -/
def assign (given : Given) (slot : Slot) (value : String) : Except UsageError Given :=
  if (given.value? slot).isSome then .error .repeatedOption
  else if value = "" then .error .invalidValue
  else .ok (given.set slot value)

end Given

/-- Where on the command line a word stands. -/
inductive Place where
  | beforeCommand
  | afterCommand
  /-- After the command that lists tokens, which takes a file and a flag. -/
  | afterTokens
  deriving DecidableEq

/-- What was given at a place, and what waits to be settled: a slot, with its value if that was
met. -/
structure Progress where
  given : Given := {}
  pending : Option (Slot × Option String) := none

namespace Progress

/-- Settles what is pending. -/
def settle (p : Progress) : Except UsageError Given :=
  match p.pending with
  | none => .ok p.given
  | some (_, none) => .error .invalidValue
  | some (slot, some value) => p.given.assign slot value

/-- An option that waits for its value. -/
def awaiting? (p : Progress) : Option Slot :=
  match p.pending with
  | some (slot, none) => some slot
  | _ => none

/-- An option for a slot, with its value if that is part of the word. -/
def option (p : Progress) (slot : Slot) (value : Option String) : Except UsageError Progress := do
  let given ← p.settle
  match value with
  | some value => return { given := ← given.assign slot value }
  | none => return { given, pending := some (slot, none) }

def verbose (p : Progress) : Except UsageError Progress := do
  let given ← p.settle
  if given.verbose then .error .repeatedOption
  else return { given := { given with verbose := true } }

def json (p : Progress) : Except UsageError Progress := do
  let given ← p.settle
  if given.json then .error .repeatedOption
  else return { given := { given with json := true } }

/-- A flag that asks for something else than work. -/
def ask (p : Progress) (wanted : UsageError) : Except UsageError Progress := do
  let _ ← p.settle
  .error wanted

/-- A long option after its hyphens, and its value if that is part of the word. -/
def long (p : Progress) (place : Place) (name : String) (value : Option String) :
    Except UsageError Progress :=
  let flag (step : Except UsageError Progress) :=
    if value.isSome then .error .valueForFlag else step
  match name with
  | "root" => p.option .root value
  | "source" => p.option .source value
  | "verbose" => flag p.verbose
  | "help" => flag (p.ask .helpWanted)
  | "version" =>
      if place = .beforeCommand then flag (p.ask .versionWanted) else .error .unknownArgument
  | "json" => if place = .afterTokens then flag p.json else .error .unknownArgument
  | _ => .error .unknownArgument

/-- The value that follows a short option within its word. -/
def attached? : List Char → Option String
  | [] => none
  | '=' :: value => some (String.ofList value)
  | value => some (String.ofList value)

/-- Short options after their hyphen; one that takes a value is the last. -/
def short (p : Progress) (place : Place) : List Char → Except UsageError Progress
  | [] => .ok p
  | 'r' :: rest => p.option .root (attached? rest)
  | 's' :: rest => p.option .source (attached? rest)
  | 'v' :: rest => do (← p.verbose).short place rest
  | 'h' :: _ => p.ask .helpWanted
  | 'V' :: _ =>
      if place = .beforeCommand then p.ask .versionWanted else .error .unknownArgument
  | _ => .error .unknownArgument

/-- A word that starts with a hyphen and has more. -/
def dashed? (p : Progress) (place : Place) (word : String) :
    Option (Except UsageError Progress) :=
  match word.toList with
  | '-' :: '-' :: text =>
      let name := Text.before '=' text
      let value := match text.drop name.length with
        | [] => none
        | _ :: value => some (String.ofList value)
      some (p.long place (String.ofList name) value)
  | '-' :: c :: text => some (p.short place (c :: text))
  | _ => none

/-- An argument that is no option. Only one place takes one. -/
def argument (p : Progress) (place : Place) (word : String) : Except UsageError Progress := do
  if place = .afterTokens then
    if p.given.file.isSome || (p.pending.map Prod.fst) = some .file then .error .unknownArgument
    else return { given := ← p.settle, pending := some (.file, some word) }
  else .error .unknownArgument

end Progress

/-- The words after the command. After two hyphens no word is an option. -/
def readAfter (place : Place) (p : Progress) (plain : Bool) :
    List String → Except UsageError Given
  | [] => p.settle
  | word :: words =>
      if plain then do readAfter place (← p.argument place word) plain words
      else if word = "--" then readAfter place p true words
      else match p.dashed? place word with
        | some result => do readAfter place (← result) plain words
        | none => match p.awaiting? with
          | some slot =>
              readAfter place { p with pending := some (slot, some word) } plain words
          | none => do readAfter place (← p.argument place word) plain words

/-- The commands by name, but for the one that lists tokens. -/
def commandNamed? (name : String) : Option Command :=
  match name with
  | "update-all" => some .updateAll
  | "prefix-map" => some .prefixMap
  | "classifications" => some .classifications
  | "keywords" => some .keywords
  | "grammar" => some .grammar
  | "coverage" => some .coverage
  | "combine" => some .combine
  | "clangd" => some .clangd
  | "settings" => some .settings
  | "semantic-colors" => some .semanticColors
  | "srgb-theme" => some .srgbTheme
  | "no-tokens-theme" => some .noTokensTheme
  | "dedupe" => some .dedupe
  | "compare-scopes" => some .compareScopes
  | "readme" => some .readme
  | _ => none

def isCommandName (word : String) : Bool :=
  (commandNamed? word).isSome || word = "tokens" || word = "help"

/-- What a request for help names: no more than one command. -/
def helpFor : List String → UsageError
  | [] => .helpWanted
  | [word] => if isCommandName word then .helpWanted else .unknownCommand
  | _ => .unknownCommand

/-- The command with its name, and what is given after it. -/
def readCommand (name : String) (words : List String) : Except UsageError (Command × Given) :=
  if name = "help" then .error (helpFor words)
  else match commandNamed? name with
    | some command => do return (command, ← readAfter .afterCommand {} false words)
    | none => do
        let given ← readAfter .afterTokens {} false words
        match given.file with
        | some file => return (.tokens file given.json, given)
        | none => .error .missingArgument

def invocation (before after : Given) (command : Option Command) : Invocation where
  root := (after.root.or before.root).getD "."
  source := after.source.or before.source
  verbose := before.verbose || after.verbose
  command := command

/-- The words up to the command, and the command. A word that waits for no option and is no
option must be a command. -/
def readBefore (p : Progress) (plain : Bool) : List String → Except UsageError Invocation
  | [] => do return invocation (← p.settle) {} none
  | word :: words =>
      if plain then
        -- after two hyphens the name of a command is an argument too many
        if isCommandName word then .error .unknownArgument else .error .unknownCommand
      else match p.awaiting? with
        | some slot =>
            if word = "--" then readBefore p true words
            else match p.dashed? .beforeCommand word with
              | some result => do readBefore (← result) plain words
              | none => readBefore { p with pending := some (slot, some word) } plain words
        | none =>
            if isCommandName word then do
              -- faults after the command are met before a value that is still missing
              let (command, after) ← readCommand word words
              return invocation (← p.settle) after (some command)
            else if word = "--" then readBefore p true words
            else match p.dashed? .beforeCommand word with
              | some result => do readBefore (← result) plain words
              | none => .error .unknownCommand

/-- What the words of a command line ask for. -/
def read (words : List String) : Except UsageError Invocation := readBefore {} false words

/-- How the program is called. -/
def usage : String :=
  "Generate grammar, clangd, theme and settings artifacts for the Malterlib highlighter\n\n" ++
  "Usage: scopegen [OPTIONS] [COMMAND]\n\n" ++
  "Commands: update-all (the default), prefix-map, classifications, keywords, grammar,\n" ++
  "  coverage, combine, clangd, settings, semantic-colors, srgb-theme, no-tokens-theme,\n" ++
  "  dedupe, compare-scopes, readme, tokens [--json] <FILE>, help\n\n" ++
  "Options: -r, --root <ROOT>; -s, --source <SOURCE>; -v, --verbose; -h, --help; -V, --version\n"

def UsageError.message : UsageError → String
  | .helpWanted => usage
  | .versionWanted => "scopegen\n"
  | .unknownArgument => "error: unexpected argument\n"
  | .unknownCommand => "error: unrecognized subcommand\n"
  | .invalidValue => "error: a value is required\n"
  | .repeatedOption => "error: an argument cannot be used multiple times\n"
  | .valueForFlag => "error: unexpected value for a flag\n"
  | .missingArgument => "error: a required argument was not provided\n"

/-- Help and the version are no failures. -/
def UsageError.exitCode : UsageError → Nat
  | .helpWanted | .versionWanted => 0
  | _ => 2

end Lexicolor.CommandLine
