import Lexicolor.Command.Notice
import Lexicolor.Pattern.Reader
import Lexicolor.Text.Digits

/-!
# Log filters

A filter is a list of directives, separated by commas. Each gives a level for
the notices whose target starts with its own, and may ask for a figure by name;
the most specific one decides. A directive on spans or on the values of figures
is understood but selects nothing, for no notice stands in a span.
-/

namespace Lexicolor

/-- Notices of the targets that start with `target` pass up to a level of detail. -/
structure Directive where
  target : List Char
  /-- The figure that a notice must give. -/
  figure : Option String
  detail : Nat
  deriving DecidableEq

namespace Directive

/-- The directive is for notices of this kind. -/
def fits (d : Directive) (notice : Notice) : Bool :=
  d.target.isPrefixOf notice.target.toList && d.figure.all notice.names.contains

/-- `d` is at least as specific as `e`: its target is longer, or as long and its figure does not
come earlier. No figure comes before all figures, which are in the order of their names. -/
def covers (d e : Directive) : Bool :=
  e.target.length < d.target.length ||
    (e.target.length == d.target.length && match e.figure, d.figure with
      | none, _ => true
      | some _, none => false
      | some a, some b => a ≤ b)

/-- The number that digits spell, with or without a plus sign. -/
def number? (text : List Char) : Option Nat :=
  Text.number? ((Text.after? ['+'] text).getD text)

/-- The level of detail that a word or a number names. -/
def detail? (text : List Char) : Option Nat :=
  match number? text with
  | some n => Option.guard (· ≤ Level.trace.detail) n
  | none => match String.ofList (Text.asciiLower text) with
    | "off" => some 0
    | "error" => some Level.error.detail
    | "warn" => some Level.warn.detail
    | "info" => some Level.info.detail
    | "debug" => some Level.debug.detail
    | "trace" => some Level.trace.detail
    | _ => none

/-- The level of detail at the end of a directive. Without one all levels are meant, with or
without an equals sign; blanks around the directive are no part of any level. -/
def detailAfter? (blanks : Bool) : List Char → Option Nat
  | [] => some Level.trace.detail
  | '=' :: text =>
      if blanks then none
      else if text.isEmpty then some Level.trace.detail
      else detail? text
  | _ => none

/-- The name of a figure, or `none` within if its value is asked for, by a number or a pattern. -/
def figure? (text : List Char) : Option (Option String) :=
  match Text.splitOn '=' text with
  | _ :: value :: _ =>
      if (number? value).isSome || (Pattern.read value).isOk then some none else none
  | _ => if text.isEmpty then none else some (some (String.ofList text))

/-- The directives, one at most, of a selection after its opening bracket. It names a span, a
figure in braces, or both; blanks before it spoil the name of the figure. -/
def selection? (target : List Char) (blanksBefore blanks : Bool) (text : List Char) :
    Option (List Directive) := do
  let span := text.takeWhile fun c => c ≠ ']' && c ≠ '\x7b'
  match text.drop span.length with
  | ']' :: rest =>
      let _ ← detailAfter? blanks rest
      return []
  | _ :: rest =>
      let name := rest.takeWhile (· ≠ '\x7d')
      match rest.drop name.length with
      | _ :: ']' :: rest =>
          let figure ← figure? name
          let detail ← detailAfter? blanks rest
          if figure.isNone || !span.isEmpty || blanksBefore then return []
          else return [⟨target, figure, detail⟩]
      | _ => none
  | [] => none

/-- The characters with which a target starts. -/
def isTargetStart (c : Char) : Bool := c ∈ ['-', ':', '_'] || Unicode.isLetterOrNumber c

/-- The directives, one at most, that a text spells: a level, a target, or a target and a selection
before a level. A word that is no level is a target, with the blanks around it. -/
def read? (text : List Char) : Option (List Directive) :=
  let body := Text.trim text
  let blanks := decide (text ≠ body)
  let blanksBefore := decide (text.head? ≠ body.head?)
  match body with
  | [] => none
  | '[' :: rest => selection? [] blanksBefore blanks rest
  | first :: _ =>
      if !isTargetStart first then none
      else
        let target := body.takeWhile fun c => c ≠ '=' && c ≠ '['
        match body.drop target.length with
        | [] => some [match detail? text with
          | some detail => ⟨[], none, detail⟩
          | none => ⟨text, none, Level.trace.detail⟩]
        | '[' :: rest => selection? target blanksBefore blanks rest
        | rest => (detailAfter? blanks rest).map fun detail => [⟨target, none, detail⟩]

end Directive

abbrev LogFilter := List Directive

namespace LogFilter

/-- The filter that lets everything up to a level pass. -/
def ofLevel (level : Level) : LogFilter := [⟨[], none, level.detail⟩]

/-- The filter without directives of the user. -/
def default (verbose : Bool) : LogFilter := ofLevel (if verbose then .debug else .info)

/-- The filter that a text spells. Without directives, only errors pass. -/
def read? (text : String) : Option LogFilter := do
  let parts := (Text.splitOn ',' text.toList).filter fun part => !part.isEmpty
  if parts.isEmpty then return ofLevel .error
  else
    let directives ← parts.mapM Directive.read?
    return directives.flatten

/-- The level of detail for a notice: that of the most specific directive for it, of several equal
ones the last. -/
def detailFor (filter : LogFilter) (notice : Notice) : Nat :=
  let best := (filter.filter (Directive.fits · notice)).foldl
    (fun (best : Directive) d => if d.covers best then d else best)
    ⟨[], none, 0⟩
  best.detail

def passes (filter : LogFilter) (notice : Notice) : Bool :=
  notice.level.detail ≤ filter.detailFor notice

end LogFilter

end Lexicolor
