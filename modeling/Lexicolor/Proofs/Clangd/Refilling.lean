import Mathlib
import Lexicolor.Proofs.Clangd.Filling

/-!
# Generated files as templates

In a file that is made without a template, the two lines of every rule are a
slot for the scope of the rule. Taken as a template, the file gives each of its
slots the rule that it already holds, as the rules of a scope stand in their
order.
-/

namespace Lexicolor.Clangd

open Text

variable {c : Char} {scope : String} {r : Rule} {found : List Rule} {table : ScopeTable}
variable {used : List Nat} {line : List Char} {lines : List (List Char)} {pieces : List Piece}

/-! ## Scopes of words and hyphens -/

/-- The scope has letters, digits, underscores and hyphens, one at least. -/
structure IsPlain (scope : String) : Prop where
  ne_nil : scope.toList ≠ []
  plain : ∀ c ∈ scope.toList, isIdentChar c ∨ c = '-'

theorem IsPlain.notMem (h : IsPlain scope) (hident : ¬isIdentChar c) (hhyphen : c ≠ '-') :
    c ∉ scope.toList := fun hmem => (h.plain c hmem).elim hident hhyphen

theorem IsPlain.isTagChar (h : IsPlain scope) (hc : c ∈ (Scope.dotted scope).toList) :
    isTagChar c := by
  rw [toList_dotted] at hc
  obtain ⟨d, hd, rfl⟩ := List.mem_map.mp hc
  split
  next => decide
  next hne =>
    have hident := (h.plain d hd).resolve_right hne
    rw [Clangd.isTagChar, hident, Bool.true_or, Bool.true_or]

/-- Dots for hyphens and back again. -/
theorem IsPlain.hyphenated_dotted (h : IsPlain scope) :
    hyphenated (Scope.dotted scope).toList = scope.toList := by
  have hdot : '.' ∉ scope.toList := h.notMem (by decide) (by decide)
  rw [hyphenated, toList_dotted, List.map_map]
  refine (List.map_congr_left fun c hc => ?_).trans (List.map_id _)
  have hne : c ≠ '.' := fun heq => hdot (heq ▸ hc)
  by_cases hhyphen : c = '-'
  · simp [hhyphen]
  · simp [hhyphen, hne]

/-! ## Lines of rules as slots -/

section

variable {indent inner tag : List Char}

/-- The first hash in the second line of a rule is the one before its tag. -/
theorem hasTag_addLine (hindent : '#' ∉ indent) (hnamed : r.Named) (hne : tag ≠ [])
    (htag : ∀ c ∈ tag, isTagChar c) : HasTag (addLine indent r tag) tag := by
  have hlisting : '#' ∉ r.listing :=
    notMem_listing (by simp) (hnamed.notMem_modifier (by decide))
  have heq : addLine indent r tag =
      indent ++ (addKey ++ (" [".toList ++ (r.listing ++ "]  ".toList))) ++ '#' :: ' ' :: tag := by
    rw [addLine_eq]
    simp
  rw [heq]
  refine hasTag_of_notMem ?_ ⟨⟨[' '], [], by simp, by simp; decide, by simp⟩, hne, htag⟩
  simp only [List.mem_append, not_or]
  exact ⟨hindent, by decide, by simp, hlisting, by simp⟩

/-- The lines of a rule behind blanks make a slot, whatever the regex is. -/
theorem isSlot_lines (hindent : ∀ c ∈ indent, isBlank c) (hinner : ∀ c ∈ inner, isBlank c)
    (hnamed : r.Named) (hne : tag ≠ []) (htag : ∀ c ∈ tag, isTagChar c) :
    IsSlot (regexLine indent r) (addLine inner r tag) ⟨indent, inner, tag⟩ where
  regexKey := ⟨_, List.append_assoc _ _ _⟩
  blank := hindent
  addKey := by
    rw [addLine_eq]
    exact ⟨_, firstAt_of_blank (show ¬isBlank 'a' by decide) hinner _⟩
  tag := hasTag_addLine (fun hmem => absurd (hinner '#' hmem) (by decide)) hnamed hne htag

end

/-! ## The slots of a generated file -/

/-- The slot that the lines of a rule make in the section with all rules. -/
def ownSlot (r : Rule) : Slot := ⟨spaces 6, spaces 8, (Scope.dotted r.scope).toList⟩

/-- The rule at the place, in its own lines. -/
def ownPiece (entry : Rule × Nat) : Piece :=
  .filled (regexLine (spaces 6) entry.1)
    (addLine (spaces 8) entry.1 (Scope.dotted entry.1.scope).toList) (ownSlot entry.1) entry.2
    entry.1

theorem source_ownPiece (entry : Rule × Nat) : (ownPiece entry).source = ownLines entry.1 := rfl

/-- What is written is what stood there. -/
theorem written_ownPiece (entry : Rule × Nat) : (ownPiece entry).written = ownLines entry.1 := by
  rw [ownPiece, Piece.written, ownSlot, ownLines]

/-- The lines before the first rule. -/
def headLines : List (List Char) :=
  ["SemanticTokens:".toList, "  Rules:".toList, "    Unknown:".toList]

/-- The pieces of a generated file: every rule stands where it stood. -/
def ownPieces (found : List Rule) : List Piece :=
  headLines.map Piece.copied ++ found.zipIdx.map ownPiece

theorem preamble_append_unknownSection (found : List Rule) :
    preamble found none ++ unknownSection found = headLines ++ found.flatMap ownLines := by
  rw [unknownSection_eq]
  rfl

theorem flatMap_ownPieces {f : Piece → List (List Char)} (hcopied : ∀ line, f (.copied line) = [line])
    (hown : ∀ entry, f (ownPiece entry) = ownLines entry.1) :
    (ownPieces found).flatMap f = preamble found none ++ unknownSection found := by
  have hrules : found.zipIdx.flatMap (fun entry => f (ownPiece entry)) =
      found.flatMap ownLines := by
    nth_rewrite 2 [← List.zipIdx_map_fst 0 found]
    rw [List.flatMap_map]
    exact List.flatMap_congr fun entry _ => hown entry
  rw [ownPieces, List.flatMap_append, List.flatMap_map, List.flatMap_map, hrules,
    List.flatMap_congr fun line _ => hcopied line, List.flatMap_singleton',
    preamble_append_unknownSection]

/-- The pieces are those of the file that is made without a template. -/
theorem flatMap_source_ownPieces (found : List Rule) :
    (ownPieces found).flatMap Piece.source = preamble found none ++ unknownSection found :=
  flatMap_ownPieces (fun _ => rfl) source_ownPiece

theorem flatMap_written_ownPieces (found : List Rule) :
    (ownPieces found).flatMap Piece.written = preamble found none ++ unknownSection found :=
  flatMap_ownPieces (fun _ => rfl) written_ownPiece

theorem isSlot_ownSlot (hnamed : r.Named) (hscope : IsPlain r.scope) :
    IsSlot (regexLine (spaces 6) r) (addLine (spaces 8) r (Scope.dotted r.scope).toList)
      (ownSlot r) := by
  have hne : (Scope.dotted r.scope).toList ≠ [] := by
    rw [toList_dotted]
    exact fun hnil => hscope.ne_nil (List.map_eq_nil_iff.mp hnil)
  exact isSlot_lines (fun _ => isBlank_of_mem_spaces) (fun _ => isBlank_of_mem_spaces)
    hnamed hne fun _ => hscope.isTagChar

theorem scope_ownSlot (h : IsPlain r.scope) : (ownSlot r).scope = r.scope := by
  rw [Slot.scope, ownSlot, h.hyphenated_dotted, String.ofList_toList]

/-- After the rules before it, the next rule of a scope is the one at its place. -/
theorem isNext_append (before : List Rule) (r : Rule) (after : List Rule) :
    IsNext (before ++ r :: after) (List.range before.length).reverse r.scope before.length r where
  getElem? := by simp
  scope_eq := rfl
  notMem := by simp
  first other rule' _ _ hnot := by simpa using hnot

/-- From any rule on, the rules are filled into their own lines. -/
theorem fills_ownPiece (before : List Rule) {after : List Rule}
    (h : ∀ r ∈ after, r.Named ∧ IsPlain r.scope) :
    Fills (before ++ after) (List.range before.length).reverse
      (((after.zipIdx before.length).map ownPiece).flatMap Piece.source)
      ((after.zipIdx before.length).map ownPiece) := by
  induction after generalizing before with
  | nil => exact .nil
  | cons r after ih =>
      obtain ⟨⟨hnamed, hscope⟩, h⟩ := List.forall_mem_cons.mp h
      have hnext := isNext_append before r after
      have hrest := ih (before ++ [r]) h
      rw [← scope_ownSlot hscope] at hnext
      rw [List.append_assoc, List.singleton_append, List.length_append, List.length_singleton,
        List.range_succ, List.reverse_concat] at hrest
      exact .fill (isSlot_ownSlot hnamed hscope) hnext hrest

/-- A line that begins no slot is copied. -/
theorem Fills.copied (h : Fills found used lines pieces) (hline : '-' ∉ line) :
    Fills found used (line :: lines) (.copied line :: pieces) := by
  cases lines with
  | nil =>
      cases h
      exact .last
  | cons next lines =>
      exact .copy (fun slot hslot => absurd hslot (not_isSlot_of_notMem hline)) h

theorem fills_ownPieces (h : ∀ r ∈ found, r.Named ∧ IsPlain r.scope) :
    Fills found [] ((ownPieces found).flatMap Piece.source) (ownPieces found) := by
  have hrules := fills_ownPiece [] h
  exact ((hrules.copied (by simp)).copied (by simp)).copied (by simp)

/-! ## The whole file -/

/-- No line of a generated file holds a line feed or ends in a carriage return. -/
theorem line_of_mem_config (hregexes : ∀ r ∈ found, '\n' ∉ r.regex.toList)
    (h : ∀ r ∈ found, r.Named ∧ IsPlain r.scope) :
    ∀ line ∈ preamble found none ++ unknownSection found,
      '\n' ∉ line ∧ chopReturn line = line := by
  intro line hline
  rw [preamble_append_unknownSection, List.mem_append] at hline
  rcases hline with hhead | hrule
  · have hall : ∀ line ∈ headLines, '\n' ∉ line ∧ chopReturn line = line := by decide
    exact hall line hhead
  · obtain ⟨r, hr, hline⟩ := List.mem_flatMap.mp hrule
    obtain ⟨hnamed, hscope⟩ := h r hr
    constructor
    · exact notMem_of_mem_ownLines (hregexes r hr) hnamed
        (hscope.notMem (by decide) (by decide)) hline
    · refine chopReturn_of_mem_ownLines (fun hlast => ?_) hline
      exact hscope.notMem (by decide) (by decide) (List.mem_of_getLast? hlast)

/-- The lines of a generated file are read back as they were written. -/
theorem lines_config (hregexes : ∀ r ∈ found, '\n' ∉ r.regex.toList)
    (h : ∀ r ∈ found, r.Named ∧ IsPlain r.scope) :
    Text.lines (config found none).toList = preamble found none ++ unknownSection found := by
  have hlines := line_of_mem_config hregexes h
  rw [config, String.toList_ofList, lines_unlines fun line hline => (hlines line hline).1]
  exact (List.map_congr_left fun line hline => (hlines line hline).2).trans (List.map_id _)

/-- A generated file as a template gives the file itself and the section with all rules once more:
each of its slots is given the rule that it holds. -/
theorem config_config (h : rules table = .ok found)
    (hscopes : ∀ scope ∈ usedScopes table, IsPlain scope)
    (hkeywords : ∀ keyword ∈ table.keywords.keys, '\n' ∉ keyword.toList)
    (hprefixes : ∀ name ∈ table.prefixes.keys, '\n' ∉ name.toList) :
    Fills found [] (Text.lines (config found none).toList) (ownPieces found) ∧
      config found (some (config found none)) =
        config found none ++ String.ofList (unlines (unknownSection found)) := by
  have hplain : ∀ scope ∈ ruleScopes table, IsPlain scope := forall_mem_ruleScopes hscopes
    ⟨by simp [Scope.enumeration], by simp [Scope.enumeration, isIdentChar]⟩
    ⟨by simp [Scope.type], by simp [Scope.type, isIdentChar]⟩
  have hrules : ∀ r ∈ found, r.Named ∧ IsPlain r.scope := fun r hr =>
    ⟨named_of_rules h hr, hplain r.scope (of_mem_rules h hkeywords hprefixes hr).2⟩
  have hlines := lines_config (fun r hr => (of_mem_rules h hkeywords hprefixes hr).1) hrules
  have hfills : Fills found [] (Text.lines (config found none).toList) (ownPieces found) := by
    rw [hlines, ← flatMap_source_ownPieces]
    exact fills_ownPieces hrules
  refine ⟨hfills, ?_⟩
  obtain ⟨pieces, hfills', heq⟩ := exists_fills
    (fun r hr => (hrules r hr).2.notMem (by decide) (by decide)) (holds_ofRules found)
    (Text.lines (config found none).toList)
  have hpieces := hfills'.unique hfills
  subst hpieces
  rw [flatMap_written_ownPieces] at heq
  calc config found (some (config found none))
      = String.ofList (unlines (preamble found none ++ unknownSection found ++
          unknownSection found)) := by rw [config_some, heq]
    _ = config found none ++ String.ofList (unlines (unknownSection found)) := by
        rw [config, ← String.ofList_append, unlines, unlines, unlines, List.flatMap_append]

/-- Keywords that look like marks of a slot, and a scope with two rules. -/
def punctuation : ScopeTable :=
  ⟨⟨[("- regex: '", "code-macro"), ("#x", "code-quote")], by decide⟩,
    ⟨[("I", ⟨"code-macro", false⟩)], by decide⟩, []⟩

theorem config_config_punctuation : ∃ found, rules punctuation = .ok found ∧
    Fills found [] (Text.lines (config found none).toList) (ownPieces found) ∧
    config found (some (config found none)) =
      config found none ++ String.ofList (unlines (unknownSection found)) := by
  obtain ⟨found, hfound⟩ : ∃ found, rules punctuation = .ok found :=
    ⟨_, assignModifiers_of_le (by cbv)⟩
  have hscopes : ∀ scope ∈ usedScopes punctuation, IsPlain scope := by
    have hmacro : IsPlain "code-macro" := ⟨by simp, by simp [isIdentChar]⟩
    have hquote : IsPlain "code-quote" := ⟨by simp, by simp [isIdentChar]⟩
    simp [usedScopes, punctuation, Table.values, hmacro, hquote]
  refine ⟨found, hfound, config_config hfound hscopes ?_ ?_⟩
  · simp [punctuation, Table.keys]
  · simp [punctuation, Table.keys]

end Lexicolor.Clangd
