import Mathlib
import Lexicolor.Proofs.Json.Indentation
import Lexicolor.Proofs.Text.Lines
import Lexicolor.Readme

/-!
# The body of settings

The body of an object is what stands between its braces: only the lines of the
braces are not indented, whatever the strings of the object hold. In braces the
body is read as the object again.
-/

namespace Lexicolor.Readme

open Json Text

variable {members : List (String × Json)}

/-- The body of settings in braces, without the line feeds around it. -/
def bracedBody (settings : Json) : List Char := '\x7b' :: (settingsBody settings ++ ['\x7d'])

/-- All that stands between the line feeds behind and before the braces of an object. -/
def inside (members : List (String × Json)) : List Char :=
  tableIndent ++ membersText tableIndent 1 members

theorem pretty_object_eq_inside (h : members ≠ []) :
    pretty tableIndent 0 (.object members) =
      '\x7b' :: '\n' :: (inside members ++ ['\n', '\x7d']) := by
  rw [pretty_object h, inside]
  simp [newline]

theorem visible_tableIndent : ∀ c ∈ tableIndent, 0x20 ≤ c.toNat := by
  simp [tableIndent]

theorem indented_feed_inside (members : List (String × Json)) :
    Indented tableIndent ('\n' :: inside members) := by
  have hmembers := (indented_membersText tableIndent 0 members).newline 0
  simpa [newline, inside] using hmembers

/-- The lines between the braces are indented. -/
theorem isPrefixOf_of_mem_inside {line : List Char} (h : line ∈ splitOn '\n' (inside members)) :
    tableIndent.isPrefixOf line := by
  have hlines := (indented_feed_inside members).prefix_of_mem_tail visible_tableIndent
  rw [splitOn, if_pos rfl, List.tail_cons] at hlines
  exact List.isPrefixOf_iff_prefix.mpr (hlines line h)

theorem chopReturn_of_mem_inside {line : List Char} (h : line ∈ splitOn '\n' (inside members)) :
    chopReturn line = line := by
  have hvisible := (indented_feed_inside members).visible_of_mem visible_tableIndent
  refine chopReturn_eq_self fun hlast => ?_
  have hmem : '\r' ∈ inside members := subset_of_mem_splitOn h (List.mem_of_getLast? hlast)
  exact absurd (hvisible '\r' (List.mem_cons_of_mem _ hmem)) (by decide)

/-- The lines of an object are those between its braces, and the braces. -/
theorem lines_pretty_object (h : members ≠ []) :
    lines (pretty tableIndent 0 (.object members)) =
      ['\x7b'] :: (splitOn '\n' (inside members) ++ [['\x7d']]) := by
  have hsplit : pretty tableIndent 0 (.object members) =
      ['\x7b'] ++ '\n' :: ((inside members ++ ['\n']) ++ ['\x7d']) := by
    rw [pretty_object_eq_inside h]
    simp
  have hinside : lines (inside members ++ ['\n']) = splitOn '\n' (inside members) := by
    rw [lines_append_feed, List.map_congr_left fun line hline => chopReturn_of_mem_inside hline,
      List.map_id']
  rw [hsplit, lines_feed (by decide), lines_append (ended_append_feed _), hinside,
    lines_of_notMem (List.cons_ne_nil _ _) (by decide)]
  rfl

theorem settingsBody_object (h : members ≠ []) :
    settingsBody (.object members) = inside members := by
  have hinside : (splitOn '\n' (inside members)).filter
      (fun line => tableIndent.isPrefixOf line) = splitOn '\n' (inside members) :=
    List.filter_eq_self.mpr fun line hline => isPrefixOf_of_mem_inside hline
  have hfilter : (lines (pretty tableIndent 0 (.object members))).filter
      (fun line => tableIndent.isPrefixOf line) = splitOn '\n' (inside members) := by
    rw [lines_pretty_object h, List.filter_cons_of_neg (by decide), List.filter_append, hinside]
    exact List.append_nil _
  rw [settingsBody, hfilter, join_splitOn]

example :
    String.ofList (settingsBody (.object [("a", .ofNat 1), ("b", .object [("c", .bool true)])])) =
      "  \"a\": 1,\n  \"b\": \x7b\n    \"c\": true\n  \x7d" := by cbv

/-- The text of an object is its body with a brace and a line feed at both ends. In the braces
alone the body is standard notation, and every dialect reads it as the same document as the text of
the object: the notation of the object, with its members in their order and nothing behind. -/
theorem settingsBody_between_braces (h : members ≠ []) :
    pretty tableIndent 0 (.object members) =
        '\x7b' :: '\n' :: (settingsBody (.object members) ++ ['\n', '\x7d']) ∧
      ∃ node, NotationOf (.object members) node ∧
        Spells .standard (.value node) (bracedBody (.object members)) ∧
        ∀ dialect, document dialect (String.ofList (bracedBody (.object members))) = (node, []) ∧
          document dialect (Json.object members).text = (node, []) := by
  have hbody := settingsBody_object h
  obtain ⟨node, hnotation, hbetween⟩ := exists_printsBetween members
  have hbraced (dialect : Dialect) :
      Spells dialect (.value node) (bracedBody (.object members)) := by
    have hobject := hbetween dialect tableIndent 1 tableIndent [] rfl (gap_of_blank rfl) .nil
    rwa [bracedBody, hbody, inside, List.append_assoc]
  refine ⟨by rw [hbody, pretty_object_eq_inside h], node, hnotation, hbraced .standard, ?_⟩
  intro dialect
  have hread := (hbraced dialect).document_ofList .nil
  rw [List.append_nil] at hread
  exact ⟨hread, hbetween.printsAs.document_write rfl dialect⟩

/-- An object in an object, and a string that looks like the end of the text. -/
theorem settingsBody_between_braces_nested :
    let v : Json := .object [("a", .object [("b", .string "\n\x7d")])]
    pretty tableIndent 0 v = '\x7b' :: '\n' :: (settingsBody v ++ ['\n', '\x7d']) ∧
      ∃ node, NotationOf v node ∧ Spells .standard (.value node) (bracedBody v) ∧
        ∀ dialect, document dialect (String.ofList (bracedBody v)) = (node, []) ∧
          document dialect v.text = (node, []) :=
  settingsBody_between_braces (List.cons_ne_nil _ _)

end Lexicolor.Readme
