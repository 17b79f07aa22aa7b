import Mathlib
import Lexicolor.Json.Reader

/-!
# The notation of JSON texts

Which texts spell which documents, as rules over characters that do not mention
the reader. The relaxed dialect differs from the standard in two places:
comments may stand wherever blanks may, and one comma may follow the last element
of an array or object.
-/

namespace Lexicolor.Json

/-! ## Blanks and comments -/

/-- A comment to the end of its line, or one between stars. In the shortest comment the first star
is also the last. -/
inductive Comment : List Char → Prop
  | line {body : List Char} (h : '\n' ∉ body) : Comment ('/' :: '/' :: body ++ ['\n'])
  | block {body : List Char} (hend : ¬['*', '/'] <:+: body) (hstart : body.head? ≠ some '/') :
      Comment ('/' :: '*' :: body ++ ['*', '/'])
  | short : Comment ['/', '*', '/']

/-- What may stand between two parts of a text. -/
inductive Gap (dialect : Dialect) : List Char → Prop
  | nil : Gap dialect []
  | blank {c : Char} {cs : List Char} (hc : isBlank c) (h : Gap dialect cs) : Gap dialect (c :: cs)
  | comment {text cs : List Char} (hdialect : dialect = .relaxed) (htext : Comment text)
      (h : Gap dialect cs) : Gap dialect (text ++ cs)

/-- What may stand behind the value of a text. The last line needs no line feed. -/
inductive Tail (dialect : Dialect) : List Char → Prop
  | gap {cs : List Char} (h : Gap dialect cs) : Tail dialect cs
  | lastLine {cs body : List Char} (hdialect : dialect = .relaxed) (h : Gap dialect cs)
      (hbody : '\n' ∉ body) : Tail dialect (cs ++ '/' :: '/' :: body)

/-! ## Literals -/

/-- One digit or more. -/
structure Digits (ds : List Char) : Prop where
  ne_nil : ds ≠ []
  isDigit : ∀ c ∈ ds, c.isDigit

inductive FractionText : Option (List Char) → List Char → Prop
  | absent : FractionText none []
  | present {ds : List Char} (h : Digits ds) : FractionText (some ds) ('.' :: ds)

/-- The sign of an exponent; it may be left out where it is no minus. -/
inductive SignText : Bool → List Char → Prop
  | unsigned : SignText false []
  | plus : SignText false ['+']
  | minus : SignText true ['-']

inductive ExponentText : Option (Bool × List Char) → List Char → Prop
  | absent : ExponentText none []
  | present {e : Char} {negative : Bool} {sign ds : List Char} (he : e = 'e' ∨ e = 'E')
      (hsign : SignText negative sign) (h : Digits ds) :
      ExponentText (some (negative, ds)) (e :: (sign ++ ds))

/-- The digits before the point, of which the first is a zero only where it stands alone. -/
structure IntegerText (whole : List Char) : Prop where
  digits : Digits whole
  eq_zero : whole.head? = some '0' → whole = ['0']

/-- The text is the number literal. -/
inductive Numeral.Spelled : Numeral → List Char → Prop
  | mk {negative : Bool} {whole ftext etext : List Char} {fraction : Option (List Char)}
      {exponent : Option (Bool × List Char)} (hwhole : IntegerText whole)
      (hfraction : FractionText fraction ftext) (hexponent : ExponentText exponent etext) :
      Spelled ⟨negative, whole, fraction, exponent⟩
        ((if negative then ['-'] else []) ++ (whole ++ (ftext ++ etext)))

/-- The text is the part of a string literal. -/
inductive Piece.Spelled : Piece → List Char → Prop
  | char {c : Char} (hquote : c ≠ '"') (hback : c ≠ '\\') (h : 0x20 ≤ c.toNat) :
      Spelled (.char c) [c]
  | escape {e c : Char} (h : escaped? e = some c) : Spelled (.char c) ['\\', e]
  | unit {a b c d : Char} {n : Nat} (h : Text.hexNumber? [a, b, c, d] = some n) :
      Spelled (.unit n) ['\\', 'u', a, b, c, d]

inductive PiecesText : List Piece → List Char → Prop
  | nil : PiecesText [] []
  | cons {piece : Piece} {pieces : List Piece} {text cs : List Char} (hpiece : piece.Spelled text)
      (h : PiecesText pieces cs) : PiecesText (piece :: pieces) (text ++ cs)

/-- The text is the string literal. -/
inductive Quoted.Spelled : Quoted → List Char → Prop
  | mk {pieces : List Piece} {body : List Char} (h : PiecesText pieces body) :
      Spelled ⟨pieces, none⟩ ('"' :: (body ++ ['"']))

/-! ## Values -/

/-- A key and its colon. -/
inductive Label (dialect : Dialect) : Quoted → List Char → Prop
  | mk {key : Quoted} {before text after : List Char} (hbefore : Gap dialect before)
      (hkey : key.Spelled text) (hafter : Gap dialect after) :
      Label dialect key (before ++ (text ++ (after ++ [':'])))

/-- What a text may be the notation of. -/
inductive Phrase where
  | value (node : Node)
  /-- A value with what stands around it. -/
  | slot (node : Node)
  /-- Items of an array, each with a comma behind it; the last one comes first in the list. -/
  | items (done : List Node)
  /-- Members of an object, each with a comma behind it; the last one comes first in the list. -/
  | members (done : List (Quoted × Node))

/-- The text is the phrase. -/
inductive Spells (dialect : Dialect) : Phrase → List Char → Prop
  | null : Spells dialect (.value .null) ['n', 'u', 'l', 'l']
  | trueWord : Spells dialect (.value (.bool true)) ['t', 'r', 'u', 'e']
  | falseWord : Spells dialect (.value (.bool false)) ['f', 'a', 'l', 's', 'e']
  | number {n : Numeral} {text : List Char} (h : n.Spelled text) :
      Spells dialect (.value (.number n)) text
  | string {q : Quoted} {text : List Char} (h : q.Spelled text) :
      Spells dialect (.value (.string q)) text
  | slot {node : Node} {before text after : List Char} (hbefore : Gap dialect before)
      (h : Spells dialect (.value node) text) (hafter : Gap dialect after) :
      Spells dialect (.slot node) (before ++ (text ++ after))
  | noItems : Spells dialect (.items []) []
  | item {done : List Node} {node : Node} {items text : List Char}
      (hitems : Spells dialect (.items done) items) (h : Spells dialect (.slot node) text) :
      Spells dialect (.items (node :: done)) (items ++ (text ++ [',']))
  | array {done : List Node} {node : Node} {items text : List Char}
      (hitems : Spells dialect (.items done) items) (h : Spells dialect (.slot node) text) :
      Spells dialect (.value (.array (node :: done).reverse .closed))
        ('[' :: (items ++ (text ++ [']'])))
  /-- Without items, or in the relaxed dialect with a comma behind the last one. -/
  | arrayEnd {done : List Node} {items gap : List Char}
      (hitems : Spells dialect (.items done) items) (hgap : Gap dialect gap)
      (hdialect : done ≠ [] → dialect = .relaxed) :
      Spells dialect (.value (.array done.reverse (endingAfter done)))
        ('[' :: (items ++ (gap ++ [']'])))
  | noMembers : Spells dialect (.members []) []
  | member {done : List (Quoted × Node)} {key : Quoted} {node : Node}
      {members label text : List Char} (hmembers : Spells dialect (.members done) members)
      (hlabel : Label dialect key label) (h : Spells dialect (.slot node) text) :
      Spells dialect (.members ((key, node) :: done)) (members ++ (label ++ (text ++ [','])))
  | object {done : List (Quoted × Node)} {key : Quoted} {node : Node}
      {members label text : List Char} (hmembers : Spells dialect (.members done) members)
      (hlabel : Label dialect key label) (h : Spells dialect (.slot node) text) :
      Spells dialect (.value (.object ((key, node) :: done).reverse .closed))
        ('\x7b' :: (members ++ (label ++ (text ++ ['\x7d']))))
  /-- Without members, or in the relaxed dialect with a comma behind the last one. -/
  | objectEnd {done : List (Quoted × Node)} {members gap : List Char}
      (hmembers : Spells dialect (.members done) members) (hgap : Gap dialect gap)
      (hdialect : done ≠ [] → dialect = .relaxed) :
      Spells dialect (.value (.object done.reverse (endingAfter done)))
        ('\x7b' :: (members ++ (gap ++ ['\x7d'])))

end Lexicolor.Json
