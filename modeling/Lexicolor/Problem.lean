/-!
# Problems

What can be wrong with tables and themes that can be read.
-/

namespace Lexicolor

inductive Problem where
  /-- A header does not declare the classifications. -/
  | missingEnum
  | invalidColor (text : String)
  /-- More scopes than there are sets of modifiers. -/
  | tooManyScopes (scopes : Nat) (modifiers : Nat)
  /-- A file whose value should be an object. -/
  | notAnObject (file : String)
  /-- A theme without token colours. -/
  | missingTokenColors (file : String)
  deriving DecidableEq, Repr

def Problem.message : Problem → String
  | .missingEnum => "could not locate `enum class EClassification` in the header"
  | .invalidColor text => "invalid hex colour: " ++ text
  | .tooManyScopes scopes modifiers =>
      s!"{scopes} scopes exceed encoding capacity of {modifiers} modifiers"
  | .notAnObject file => file ++ " must contain a JSON object at the root"
  | .missingTokenColors file => "no `tokenColors` array found in " ++ file

end Lexicolor
