import Mathlib
import Lexicolor.Clangd.Config
import Lexicolor.Proofs.Clangd.RuleLanguage
import Lexicolor.Proofs.Text.Lines

/-!
# The two lines of a rule

What stands in the lines of a rule comes from the rule, the indents and the tag.
The rules for a table have modifiers of letters and digits only, and a line feed
in a regex comes from the table.
-/

namespace Lexicolor.Clangd

open Text

variable {c : Char} {cs indent tag : List Char} {texts : List (List Char)} {r : Rule}
variable {table : ScopeTable} {found : List Rule} {draft : Draft} {entry : PrefixScope}
variable {scope : String} {line : List Char}

/-! ## Texts of the lines -/

/-- The second text is the first with every single quote written twice. -/
inductive Doubled : List Char → List Char → Prop
  | nil : Doubled [] []
  | quote {cs text : List Char} (h : Doubled cs text) :
      Doubled ('\'' :: cs) ('\'' :: '\'' :: text)
  | other {c : Char} {cs text : List Char} (hc : c ≠ '\'') (h : Doubled cs text) :
      Doubled (c :: cs) (c :: text)

/-- The names in a row, a comma and a blank between one and the next. -/
inductive Listing : List String → List Char → Prop
  | nil : Listing [] []
  | one (name : String) : Listing [name] name.toList
  | more {name other : String} {names : List String} {text : List Char}
      (h : Listing (other :: names) text) :
      Listing (name :: other :: names) (name.toList ++ ", ".toList ++ text)

/-- The two lines of a rule: its regex in quotes behind the first key, its modifiers in brackets
behind the second, and the tag. -/
structure Spells (r : Rule) (regexIndent addIndent tag first second : List Char) : Prop where
  regex : ∃ regex, Doubled r.regex.toList regex ∧
    first = regexIndent ++ "- regex: '".toList ++ regex ++ "'".toList
  names : ∃ names, Listing r.modifiers names ∧
    second = addIndent ++ "add: [".toList ++ names ++ "]  # ".toList ++ tag

/-- The lines of rules, each with its scope as the tag, dots in place of hyphens. -/
inductive SpellsAll : List Rule → List (List Char) → Prop
  | nil : SpellsAll [] []
  | cons {r : Rule} {rules : List Rule} {first second : List Char} {lines : List (List Char)}
      (h : Spells r "      ".toList "        ".toList
        (r.scope.toList.map fun c => if c = '-' then '.' else c) first second)
      (hrest : SpellsAll rules lines) : SpellsAll (r :: rules) (first :: second :: lines)

theorem doubled_flatMap (cs : List Char) :
    Doubled cs (cs.flatMap fun c => if c = '\'' then ['\'', '\''] else [c]) := by
  induction cs with
  | nil => exact .nil
  | cons c cs ih =>
      rw [List.flatMap_cons]
      split
      next hquote => exact hquote ▸ .quote ih
      next hother => exact .other hother ih

theorem listing_intercalate (names : List String) :
    Listing names (", ".intercalate names).toList := by
  rw [String.toList_intercalate]
  induction names with
  | nil => exact .nil
  | cons name names ih =>
      cases names with
      | nil => simpa using .one name
      | cons other names =>
          have h : Listing (name :: other :: names) _ := .more ih
          simpa using h

theorem spells_lines (r : Rule) (regexIndent addIndent tag : List Char) :
    Spells r regexIndent addIndent tag (regexLine regexIndent r) (addLine addIndent r tag) := by
  have hregex : regexKey ++ [' ', '\''] = "- regex: '".toList := by decide
  have hadd : addKey ++ " [".toList = "add: [".toList := by decide
  refine ⟨⟨_, doubled_flatMap r.regex.toList, ?_⟩, ⟨_, listing_intercalate r.modifiers, ?_⟩⟩
  · rw [regexLine, singleQuoted, ← hregex]
    simp
  · rw [addLine, List.append_assoc addIndent, hadd]

theorem toList_dotted (scope : String) : (Scope.dotted scope).toList =
    scope.toList.map fun c => if c = '-' then '.' else c := String.toList_ofList

/-- The line of the section and the lines of all rules. -/
def SpellsSection (rules : List Rule) (lines : List (List Char)) : Prop :=
  ∃ rest, lines = "    Unknown:".toList :: rest ∧ SpellsAll rules rest

theorem spellsSection_unknownSection (rules : List Rule) :
    SpellsSection rules (unknownSection rules) := by
  refine ⟨_, rfl, ?_⟩
  induction rules with
  | nil => exact .nil
  | cons r rules ih =>
      refine .cons ?_ ih
      rw [← toList_dotted]
      exact spells_lines r _ _ _

/-! ## Characters of the lines -/

theorem notMem_singleQuoted (hquote : c ≠ '\'') (h : c ∉ cs) : c ∉ singleQuoted cs := by
  intro hmem
  rw [singleQuoted, List.mem_append, List.mem_cons, List.mem_singleton, List.mem_flatMap] at hmem
  rcases hmem with (hopen | ⟨d, hd, hc⟩) | hclose
  · exact hquote hopen
  · split at hc
    next => exact hquote (by simpa using hc)
    next => exact h (List.mem_singleton.mp hc ▸ hd)
  · exact hquote hclose

theorem notMem_regexLine (hmarks : c ∉ "- regex: '".toList) (hindent : c ∉ indent)
    (hregex : c ∉ r.regex.toList) : c ∉ regexLine indent r := by
  have hquote : c ≠ '\'' := fun heq => hmarks (heq ▸ by decide)
  have hspace : c ≠ ' ' := fun heq => hmarks (heq ▸ by decide)
  have hkey : c ∉ regexKey := fun hmem => hmarks (List.mem_append_left " '".toList hmem)
  rw [regexLine, List.mem_append, List.mem_append, List.mem_cons]
  simp [hindent, hkey, hspace, notMem_singleQuoted hquote hregex]

/-- The modifiers of a rule as they are listed. -/
def Rule.listing (r : Rule) : List Char := join ", ".toList (r.modifiers.map String.toList)

theorem addLine_eq (indent : List Char) (r : Rule) (tag : List Char) : addLine indent r tag =
    indent ++ (addKey ++ (" [".toList ++ (r.listing ++ ("]  # ".toList ++ tag)))) := by
  rw [addLine, String.toList_intercalate]
  simp [Rule.listing, join]

theorem notMem_listing (hmarks : c ∉ ", ".toList)
    (h : ∀ modifier ∈ r.modifiers, c ∉ modifier.toList) : c ∉ r.listing := by
  intro hmem
  rcases mem_of_mem_join hmem with hsep | ⟨part, hpart, hc⟩
  · exact hmarks hsep
  · obtain ⟨modifier, hmodifier, rfl⟩ := List.mem_map.mp hpart
    exact h modifier hmodifier hc

theorem notMem_addLine (hmarks : c ∉ "add: [, ]  # ".toList) (hindent : c ∉ indent)
    (hmodifiers : ∀ modifier ∈ r.modifiers, c ∉ modifier.toList) (htag : c ∉ tag) :
    c ∉ addLine indent r tag := by
  have hsub : ∀ part ∈ [addKey, " [".toList, ", ".toList, "]  # ".toList], c ∉ part := by
    have hsub : ∀ part ∈ [addKey, " [".toList, ", ".toList, "]  # ".toList],
        part ⊆ "add: [, ]  # ".toList := by decide
    exact fun part hpart hmem => hmarks (hsub part hpart hmem)
  rw [List.forall_mem_cons, List.forall_mem_cons, List.forall_mem_cons, List.forall_mem_cons]
    at hsub
  obtain ⟨hkey, hopen, hcomma, hclose, -⟩ := hsub
  rw [addLine_eq]
  simp only [List.mem_append, not_or]
  exact ⟨hindent, hkey, hopen, notMem_listing hcomma hmodifiers, hclose, htag⟩

theorem chopReturn_regexLine (indent : List Char) (r : Rule) :
    chopReturn (regexLine indent r) = regexLine indent r := by
  refine chopReturn_eq_self ?_
  rw [regexLine, singleQuoted, ← List.cons_append, ← List.append_assoc, List.getLast?_concat]
  decide

theorem chopReturn_addLine (h : tag.getLast? ≠ some '\r') :
    chopReturn (addLine indent r tag) = addLine indent r tag := by
  refine chopReturn_eq_self ?_
  rw [addLine, List.getLast?_append]
  cases hlast : tag.getLast? with
  | none =>
      rw [Option.none_or, List.getLast?_append]
      simp
  | some c =>
      rw [Option.some_or, ← hlast]
      exact h

/-! ## Modifiers of a table's rules -/

/-- The modifiers are names of letters and digits, and there are some. -/
structure Rule.Named (r : Rule) : Prop where
  ne_nil : r.modifiers ≠ []
  alphanum : ∀ modifier ∈ r.modifiers, ∀ c ∈ modifier.toList, c.isAlphanum

theorem Rule.Named.notMem_modifier (h : r.Named) (hc : ¬c.isAlphanum) :
    ∀ modifier ∈ r.modifiers, c ∉ modifier.toList :=
  fun modifier hmodifier hmem => hc (h.alphanum modifier hmodifier c hmem)

theorem isAlphanum_of_mem_modifierName {n : Nat} (h : c ∈ (modifierName n).toList) :
    c.isAlphanum := by
  rw [toList_modifierName, List.mem_append] at h
  rcases h with hword | hdigit
  · have hall : "Custom".toList.all Char.isAlphanum := rfl
    exact List.all_eq_true.mp hall c hword
  · have hdigit := Nat.isDigit_of_mem_toDigits (by decide) (by decide) hdigit
    rw [Char.isAlphanum, hdigit, Bool.or_true]

theorem named_of_rules (h : rules table = .ok found) (hr : r ∈ found) : r.Named := by
  obtain ⟨count, hle, rfl⟩ := rules_eq_planned h
  obtain ⟨k, set, -, hset, hmodifiers⟩ := exists_set_of_mem_planned hle hr
  have hne := (of_mem_modifierSets (List.mem_of_getElem? hset)).1
  refine ⟨?_, fun modifier hmodifier c hc => ?_⟩
  · rw [hmodifiers]
    exact fun hnil => hne (List.map_eq_nil_iff.mp hnil)
  · rw [hmodifiers] at hmodifier
    obtain ⟨n, -, rfl⟩ := List.mem_map.mp hmodifier
    exact isAlphanum_of_mem_modifierName hc

/-! ## Regexes of a table's rules -/

theorem notMem_anchored (hmarks : c ∉ "^(|)$".toList) (h : ∀ text ∈ texts, c ∉ text) :
    c ∉ anchored texts := by
  have hbody : c ∉ join ['|'] texts := by
    intro hmem
    rcases mem_of_mem_join hmem with hbar | ⟨text, htext, hc⟩
    · exact hmarks (List.mem_singleton.mp hbar ▸ by decide)
    · exact h text htext hc
  simp only [String.reduceToList, List.mem_cons, not_or] at hmarks
  rw [anchored]
  split <;> simp [hbody, hmarks]

theorem notMem_escape (hmark : c ≠ '\\') (h : c ∉ cs) : c ∉ Pattern.escape cs := by
  intro hmem
  obtain ⟨d, hd, hc⟩ := List.mem_flatMap.mp hmem
  have hne : c ≠ d := fun heq => h (heq ▸ hd)
  split at hc <;> simp [hmark, hne] at hc

/-- A line feed in a pattern of a prefix comes from the prefix, and there are two scopes at most that
do not come from the table. -/
theorem of_mem_prefixPatterns {name : String} (h : '\n' ∉ name.toList)
    (hdraft : draft ∈ prefixPatterns name entry) :
    '\n' ∉ draft.1 ∧ draft.2 ∈ [entry.scope, Scope.enumeration, Scope.type] := by
  by_cases hE : name = "E"
  · rw [prefixPatterns, if_pos hE] at hdraft
    simp only [List.mem_cons, List.not_mem_nil, or_false] at hdraft
    rcases hdraft with rfl | rfl
    · exact ⟨by simp, by simp⟩
    · exact ⟨by simp, by simp⟩
  by_cases hCF : name = "CF"
  · rw [prefixPatterns, if_neg hE, if_pos hCF] at hdraft
    simp only [List.mem_cons, List.not_mem_nil, or_false] at hdraft
    rcases hdraft with rfl | rfl
    · exact ⟨by simp, by simp⟩
    · exact ⟨by simp, by simp⟩
  · have hhead : '\n' ∉ Pattern.escape name.toList := notMem_escape (by decide) h
    rw [prefixPatterns_ordinary hE hCF] at hdraft
    cases List.mem_singleton.mp hdraft
    refine ⟨?_, List.mem_cons_self⟩
    simp only [List.mem_append, hhead, false_or]
    split <;> simp

/-- The scopes of a table's keywords and prefixes. -/
def usedScopes (table : ScopeTable) : List String :=
  table.keywords.values ++ table.prefixes.values.map PrefixScope.scope

/-- The scopes that the rules for a table may have. -/
def ruleScopes (table : ScopeTable) : List String :=
  usedScopes table ++ [Scope.enumeration, Scope.type]

theorem forall_mem_ruleScopes {p : String → Prop} (h : ∀ scope ∈ usedScopes table, p scope)
    (henumeration : p Scope.enumeration) (htype : p Scope.type) :
    ∀ scope ∈ ruleScopes table, p scope := by
  rw [ruleScopes, List.forall_mem_append, List.forall_mem_cons, List.forall_mem_singleton]
  exact ⟨h, henumeration, htype⟩

theorem Joins.of_items {drafts items : List Draft} {scopes : List String} (h : Joins drafts items)
    (hitems : ∀ item ∈ items, '\n' ∉ item.1 ∧ item.2 ∈ scopes) (hdraft : draft ∈ drafts) :
    '\n' ∉ draft.1 ∧ draft.2 ∈ scopes := by
  obtain ⟨texts, hne, htext, hmem⟩ := h.exists_texts draft hdraft
  constructor
  · rw [htext]
    exact notMem_anchored (by simp) fun text ht => (hitems _ ((hmem text).mp ht)).1
  · obtain ⟨text, ht⟩ := List.exists_mem_of_ne_nil texts hne
    exact (hitems _ ((hmem text).mp ht)).2

theorem of_mem_keywordItems (h : ∀ keyword ∈ table.keywords.keys, '\n' ∉ keyword.toList)
    (hitem : draft ∈ keywordItems table) : '\n' ∉ draft.1 ∧ draft.2 ∈ ruleScopes table := by
  obtain ⟨⟨keyword, scope⟩, hentry, rfl⟩ := List.mem_map.mp hitem
  have hscope : scope ∈ table.keywords.values := List.mem_map.mpr ⟨_, hentry, rfl⟩
  refine ⟨notMem_escape (by decide) (h keyword (List.mem_map.mpr ⟨_, hentry, rfl⟩)), ?_⟩
  exact List.mem_append_left _ (List.mem_append_left _ hscope)

theorem of_mem_orderedPatterns (h : ∀ name ∈ table.prefixes.keys, '\n' ∉ name.toList)
    (hitem : draft ∈ orderedPatterns table) : '\n' ∉ draft.1 ∧ draft.2 ∈ ruleScopes table := by
  obtain ⟨name, entry, hget, hdraft⟩ := mem_orderedPatterns.mp hitem
  have hentry := Table.get?_eq_some_iff.mp hget
  have hscope : entry.scope ∈ table.prefixes.values.map PrefixScope.scope :=
    List.mem_map.mpr ⟨entry, List.mem_map.mpr ⟨_, hentry, rfl⟩, rfl⟩
  obtain ⟨hfeed, hmem⟩ :=
    of_mem_prefixPatterns (h name (List.mem_map.mpr ⟨_, hentry, rfl⟩)) hdraft
  refine ⟨hfeed, ?_⟩
  rcases List.mem_cons.mp hmem with hscope' | hother
  · exact List.mem_append_left _ (List.mem_append_right _ (hscope' ▸ hscope))
  · exact List.mem_append_right _ hother

/-- Without line feeds in keywords and prefixes, the regexes of the rules have none, and their
scopes are those of the table and two more. -/
theorem of_mem_rules (h : rules table = .ok found)
    (hkeywords : ∀ keyword ∈ table.keywords.keys, '\n' ∉ keyword.toList)
    (hprefixes : ∀ name ∈ table.prefixes.keys, '\n' ∉ name.toList) (hr : r ∈ found) :
    '\n' ∉ r.regex.toList ∧ r.scope ∈ ruleScopes table := by
  have hdraft : (r.regex.toList, r.scope) ∈ allDrafts table := by
    rw [← map_of_rules h]
    exact List.mem_map.mpr ⟨r, hr, rfl⟩
  rcases List.mem_append.mp hdraft with hkeyword | hprefix
  · exact (joins_keywordDrafts table).of_items (fun _ => of_mem_keywordItems hkeywords) hkeyword
  · exact (joins_prefixDrafts table).of_items (fun _ => of_mem_orderedPatterns hprefixes) hprefix

/-! ## The section with all rules -/

theorem notMem_dotted (hdot : c ≠ '.') (h : c ∉ scope.toList) : c ∉ (Scope.dotted scope).toList := by
  rw [toList_dotted]
  intro hmem
  obtain ⟨d, hd, hc⟩ := List.mem_map.mp hmem
  split at hc
  next => exact hdot hc.symm
  next => exact h (hc ▸ hd)

theorem getLast?_dotted_ne (hdot : c ≠ '.') (h : scope.toList.getLast? ≠ some c) :
    (Scope.dotted scope).toList.getLast? ≠ some c := by
  rw [toList_dotted, List.getLast?_map]
  intro hlast
  obtain ⟨d, hd, hc⟩ := Option.map_eq_some_iff.mp hlast
  split at hc
  next => exact hdot hc.symm
  next => exact h (hc ▸ hd)

def spaces (n : Nat) : List Char := List.replicate n ' '

theorem eq_of_mem_spaces {n : Nat} (h : c ∈ spaces n) : c = ' ' := List.eq_of_mem_replicate h

theorem isBlank_of_mem_spaces {n : Nat} (h : c ∈ spaces n) : isBlank c :=
  eq_of_mem_spaces h ▸ by decide

/-- The two lines of a rule in the section with all rules. -/
def ownLines (r : Rule) : List (List Char) :=
  [regexLine (spaces 6) r, addLine (spaces 8) r (Scope.dotted r.scope).toList]

theorem unknownSection_eq (found : List Rule) :
    unknownSection found = "    Unknown:".toList :: found.flatMap ownLines := by
  have houter : "      ".toList = spaces 6 := by decide
  have hinner : "        ".toList = spaces 8 := by decide
  rw [unknownSection, houter, hinner]
  rfl

theorem notMem_of_mem_ownLines (hregex : '\n' ∉ r.regex.toList) (hnamed : r.Named)
    (hscope : '\n' ∉ r.scope.toList) (hline : line ∈ ownLines r) : '\n' ∉ line := by
  have hspaces (n : Nat) : '\n' ∉ spaces n := fun hmem =>
    absurd (eq_of_mem_spaces hmem) (by decide)
  rcases List.mem_pair.mp hline with rfl | rfl
  · exact notMem_regexLine (by simp) (hspaces 6) hregex
  · exact notMem_addLine (by simp) (hspaces 8) (hnamed.notMem_modifier (by decide))
      (notMem_dotted (by decide) hscope)

theorem chopReturn_of_mem_ownLines (hscope : r.scope.toList.getLast? ≠ some '\r')
    (hline : line ∈ ownLines r) : chopReturn line = line := by
  rcases List.mem_pair.mp hline with rfl | rfl
  · exact chopReturn_regexLine _ r
  · exact chopReturn_addLine (getLast?_dotted_ne (by decide) hscope)

end Lexicolor.Clangd
