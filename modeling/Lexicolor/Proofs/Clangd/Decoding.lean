import Mathlib
import Lexicolor.Proofs.Clangd.RuleLines
import Lexicolor.Proofs.Clangd.Slots

/-!
# Reading the section with all rules

The two lines of a rule can be read back: the quotes of the regex are doubled,
so that a single one ends it, and the names of the modifiers have no commas and
brackets, so that the first bracket ends their list. Everything behind the mark
of the tag is the scope.
-/

namespace Lexicolor.Clangd

open Text

variable {c : Char} {cs indent : List Char} {r : Rule} {found : List Rule} {table : ScopeTable}

/-! ## Readers -/

/-- The text of a scalar in single quotes, from behind its first quote. Two quotes stand for one,
and nothing may follow the first quote that stands alone. -/
def unquote? : List Char → Option (List Char)
  | [] => none
  | c :: cs =>
      if c = '\'' then
        match cs with
        | [] => some []
        | d :: cs => if d = '\'' then (unquote? cs).map ('\'' :: ·) else none
      else (unquote? cs).map (c :: ·)

/-- The regex in the first line of a rule. -/
def readRegex? (line : List Char) : Option String := do
  let rest ← after? (regexKey ++ " '".toList) (dropBlanks line)
  let regex ← unquote? rest
  return String.ofList regex

/-- The names between brackets in the second line of a rule, and the scope behind them. -/
def readNames? (line : List Char) : Option (List String × String) := do
  let rest ← after? (addKey ++ " [".toList) (dropBlanks line)
  let (names, rest) ← cut? [']'] rest
  let scope ← after? "  # ".toList rest
  return ((splitOn ',' names).map fun name => String.ofList (trim name), String.ofList scope)

/-- What two lines say about a rule. -/
structure Entry where
  regex : String
  modifiers : List String
  scope : String

/-- The entries that lines in pairs make. -/
def readEntries? : List (List Char) → Option (List Entry)
  | [] => some []
  | [_] => none
  | line :: next :: lines => do
      let regex ← readRegex? line
      let (modifiers, scope) ← readNames? next
      let entries ← readEntries? lines
      return ⟨regex, modifiers, scope⟩ :: entries

/-- What the lines of a rule say. -/
def Rule.entry (r : Rule) : Entry := ⟨r.regex, r.modifiers, Scope.dotted r.scope⟩

/-! ## First lines -/

theorem unquote?_doubled (cs : List Char) :
    unquote? ('\'' :: '\'' :: cs) = (unquote? cs).map ('\'' :: ·) := by
  rw [unquote?.eq_def]
  rfl

theorem unquote?_cons (h : c ≠ '\'') (cs : List Char) :
    unquote? (c :: cs) = (unquote? cs).map (c :: ·) := by
  rw [unquote?.eq_def]
  exact if_neg h

/-- Behind its first quote, a text in single quotes is read back. -/
theorem unquote?_tail_singleQuoted (cs : List Char) : unquote? (singleQuoted cs).tail = some cs := by
  induction cs with
  | nil => rfl
  | cons c cs ih =>
      rw [singleQuoted, List.cons_append, List.tail_cons] at ih ⊢
      by_cases hquote : c = '\''
      · rw [List.flatMap_cons, if_pos hquote, List.append_assoc, List.cons_append,
          List.singleton_append, unquote?_doubled, ih, hquote, Option.map_some]
      · rw [List.flatMap_cons, if_neg hquote, List.append_assoc, List.singleton_append,
          unquote?_cons hquote, ih, Option.map_some]

theorem readRegex?_regexLine (h : ∀ c ∈ indent, isBlank c) (r : Rule) :
    readRegex? (regexLine indent r) = some r.regex := by
  have hline : regexLine indent r =
      indent ++ (regexKey ++ " '".toList ++ (singleQuoted r.regex.toList).tail) := by
    rw [regexLine, singleQuoted]
    simp
  have hdrop : dropBlanks (regexLine indent r) =
      regexKey ++ " '".toList ++ (singleQuoted r.regex.toList).tail :=
    (dropBlanks_eq_cons_iff (show ¬isBlank '-' by decide)).mpr ⟨indent, h, hline⟩
  rw [readRegex?, hdrop, after?_append]
  simp only [Option.bind_eq_bind, Option.bind_some, unquote?_tail_singleQuoted]
  rw [Option.pure_def, String.ofList_toList]

/-! ## Second lines -/

theorem map_splitOn_listing (hnamed : r.Named) :
    (splitOn ',' r.listing).map (fun name => String.ofList (trim name)) = r.modifiers := by
  have hparts : ∀ part ∈ r.modifiers.map String.toList, ',' ∉ part ∧ ∀ c ∈ part, ¬isBlank c := by
    intro part hpart
    obtain ⟨modifier, hmodifier, rfl⟩ := List.mem_map.mp hpart
    refine ⟨hnamed.notMem_modifier (by decide) modifier hmodifier, fun c hc => ?_⟩
    have halphanum := hnamed.alphanum modifier hmodifier c hc
    exact not_isBlank_of_isTagChar (by simp [isTagChar, isIdentChar, halphanum])
  have hne : r.modifiers.map String.toList ≠ [] := by simpa using hnamed.ne_nil
  have htrim : (splitOn ',' r.listing).map trim = r.modifiers.map String.toList :=
    map_trim_splitOn_join (show isBlank ' ' by decide) (by decide) hne hparts
  calc (splitOn ',' r.listing).map (fun name => String.ofList (trim name))
      = ((splitOn ',' r.listing).map trim).map String.ofList := by rw [List.map_map]; rfl
    _ = (r.modifiers.map String.toList).map String.ofList := by rw [htrim]
    _ = r.modifiers := by simp

theorem readNames?_addLine (h : ∀ c ∈ indent, isBlank c) (hnamed : r.Named) (tag : List Char) :
    readNames? (addLine indent r tag) = some (r.modifiers, String.ofList tag) := by
  have hbracket : ']' ∉ r.listing :=
    notMem_listing (by simp) (hnamed.notMem_modifier (by decide))
  have hline : addLine indent r tag =
      indent ++ (addKey ++ " [".toList ++ (r.listing ++ ']' :: ("  # ".toList ++ tag))) := by
    rw [addLine_eq]
    simp
  have hdrop : dropBlanks (addLine indent r tag) =
      addKey ++ " [".toList ++ (r.listing ++ ']' :: ("  # ".toList ++ tag)) :=
    (dropBlanks_eq_cons_iff (show ¬isBlank 'a' by decide)).mpr ⟨indent, h, hline⟩
  rw [readNames?, hdrop, after?_append]
  simp only [Option.bind_eq_bind, Option.bind_some, cut?_singleton_append hbracket, after?_append,
    map_splitOn_listing hnamed, Option.pure_def]

/-! ## All rules -/

theorem readEntries?_ownLines (h : ∀ r ∈ found, r.Named) :
    readEntries? (found.flatMap ownLines) = some (found.map Rule.entry) := by
  induction found with
  | nil => rfl
  | cons r found ih =>
      obtain ⟨hnamed, h⟩ := List.forall_mem_cons.mp h
      rw [List.flatMap_cons, ownLines, List.cons_append, List.singleton_append, readEntries?,
        readRegex?_regexLine (fun _ => isBlank_of_mem_spaces),
        readNames?_addLine (fun _ => isBlank_of_mem_spaces) hnamed, ih h]
      simp only [Option.bind_eq_bind, Option.bind_some, String.ofList_toList, Option.pure_def]
      rfl

/-- The last lines of a file, as line feeds end them, are those of its rules. -/
theorem rtake_rawLines_config
    (h : ∀ r ∈ found, '\n' ∉ r.regex.toList ∧ r.Named ∧ '\n' ∉ r.scope.toList)
    (template : Option String) :
    (rawLines (config found template).toList).rtake (2 * found.length) =
      found.flatMap ownLines := by
  have hown : ∀ line ∈ found.flatMap ownLines, '\n' ∉ line := by
    intro line hline
    obtain ⟨r, hr, hline⟩ := List.mem_flatMap.mp hline
    obtain ⟨hregex, hnamed, hscope⟩ := h r hr
    exact notMem_of_mem_ownLines hregex hnamed hscope hline
  have hlength : (found.flatMap ownLines).length = 2 * found.length := by
    simp [List.length_flatMap, ownLines, Nat.mul_comm]
  rw [config, String.toList_ofList, rawLines_unlines, unknownSection_eq, List.flatMap_append,
    List.flatMap_cons, flatMap_splitOn hown, ← List.append_assoc, List.rtake, List.length_append,
    hlength, Nat.add_sub_cancel, List.drop_left]

/-- No line of a rule is cut where a line loses the carriage return at its end. -/
theorem rtake_lines_config
    (h : ∀ r ∈ found, '\n' ∉ r.regex.toList ∧ r.Named ∧ '\n' ∉ r.scope.toList)
    (hscopes : ∀ r ∈ found, r.scope.toList.getLast? ≠ some '\r') (template : Option String) :
    (lines (config found template).toList).rtake (2 * found.length) = found.flatMap ownLines := by
  have hended : Ended (config found template).toList := by
    rw [config, String.toList_ofList]
    exact ended_unlines _
  have hown : ∀ line ∈ found.flatMap ownLines, chopReturn line = line := by
    intro line hline
    obtain ⟨r, hr, hline⟩ := List.mem_flatMap.mp hline
    exact chopReturn_of_mem_ownLines (hscopes r hr) hline
  have hraw := rtake_rawLines_config h template
  rw [lines_eq_map_rawLines hended, List.rtake, List.length_map, ← List.map_drop, ← List.rtake,
    hraw]
  exact (List.map_congr_left hown).trans (List.map_id _)

/-- From any file with the rules for a table, the last two lines for each rule give back the
regexes, modifiers and scopes. The lines are those that line feeds end, or, if no scope ends with a
carriage return, those without carriage returns before the feeds. -/
theorem readEntries?_config (h : rules table = .ok found)
    (hkeywords : ∀ keyword ∈ table.keywords.keys, '\n' ∉ keyword.toList)
    (hprefixes : ∀ name ∈ table.prefixes.keys, '\n' ∉ name.toList)
    (hscopes : ∀ scope ∈ usedScopes table, '\n' ∉ scope.toList) (template : Option String) :
    readEntries? ((rawLines (config found template).toList).rtake (2 * found.length)) =
        some (found.map Rule.entry) ∧
      ((∀ scope ∈ usedScopes table, scope.toList.getLast? ≠ some '\r') →
        readEntries? ((lines (config found template).toList).rtake (2 * found.length)) =
          some (found.map Rule.entry)) := by
  have hrules : ∀ r ∈ found, '\n' ∉ r.regex.toList ∧ r.Named ∧ '\n' ∉ r.scope.toList := by
    intro r hr
    obtain ⟨hregex, hscope⟩ := of_mem_rules h hkeywords hprefixes hr
    have hfeeds : ∀ scope ∈ ruleScopes table, '\n' ∉ scope.toList :=
      forall_mem_ruleScopes hscopes (by simp [Scope.enumeration]) (by simp [Scope.type])
    exact ⟨hregex, named_of_rules h hr, hfeeds r.scope hscope⟩
  have hentries := readEntries?_ownLines fun r hr => (hrules r hr).2.1
  constructor
  · rw [rtake_rawLines_config hrules, hentries]
  · intro hreturn
    have hends : ∀ scope ∈ ruleScopes table, scope.toList.getLast? ≠ some '\r' :=
      forall_mem_ruleScopes hreturn (by simp [Scope.enumeration]) (by simp [Scope.type])
    have hlast : ∀ r ∈ found, r.scope.toList.getLast? ≠ some '\r' := fun r hr =>
      hends r.scope (of_mem_rules h hkeywords hprefixes hr).2
    rw [rtake_lines_config hrules hlast, hentries]

/-- Keywords with quotes, and a scope with the marks of a list and of a tag. -/
def quotes : ScopeTable :=
  ⟨⟨[("''a'", "a]  # b"), ("- regex: ''", "code")], by decide⟩,
    ⟨[("I", ⟨"a]  # b", true⟩)], by decide⟩, []⟩

theorem readEntries?_config_quotes : ∃ found, rules quotes = .ok found ∧ ∀ template,
    readEntries? ((rawLines (config found template).toList).rtake (2 * found.length)) =
        some (found.map Rule.entry) ∧
      ((∀ scope ∈ usedScopes quotes, scope.toList.getLast? ≠ some '\r') →
        readEntries? ((lines (config found template).toList).rtake (2 * found.length)) =
          some (found.map Rule.entry)) := by
  obtain ⟨found, hfound⟩ : ∃ found, rules quotes = .ok found :=
    ⟨_, assignModifiers_of_le (by cbv)⟩
  refine ⟨found, hfound, readEntries?_config hfound ?_ ?_ ?_⟩
  · simp [quotes, Table.keys]
  · simp [quotes, Table.keys]
  · simp [quotes, usedScopes, Table.values]

end Lexicolor.Clangd
