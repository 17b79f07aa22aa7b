import Mathlib
import Lexicolor.Proofs.Token.Excluded
import Lexicolor.Proofs.Token.Identifiers

/-!
# The tokens of a text

Tokens stand in order and apart from each other. They are the identifiers outside
the excluded characters whose scope is in the legend, each with its own text.
-/

namespace Lexicolor.Token

variable {classifier : Classifier} {table : ScopeTable} {legend : List String} {mask : Mask}
variable {lines : List (List Char)} {line name : List Char} {inBlock : Bool}
variable {n column kind : Nat} {scope text : String} {token : Token}

/-! ## Single identifiers -/

theorem kindOf?_eq_none_iff : kindOf? scope legend = none ↔ scope ∉ legend := by
  induction legend with
  | nil => simp [kindOf?]
  | cons s legend ih =>
      rw [kindOf?, List.mem_cons, not_or, ← ih]
      cases kindOf? scope legend with
      | some i => simp
      | none => simp [eq_comm]

theorem getElem?_of_kindOf? (h : kindOf? scope legend = some kind) :
    legend[kind]? = some scope := by
  induction legend generalizing kind with
  | nil => cases h
  | cons s legend ih =>
      rw [kindOf?] at h
      split at h
      next i hi =>
        cases h
        exact ih hi
      next =>
        split at h
        next heq =>
          cases h
          exact congrArg some heq
        next => cases h

theorem ofIdentifier?_eq_some_iff :
    ofIdentifier? classifier legend mask n (column, name) = some token ↔
      touches mask column name.length = false ∧
      classifier.classify (String.ofList name) = some token.scope ∧
      kindOf? token.scope legend = some token.kind ∧
      token.line = n ∧ token.column = column ∧ token.length = name.length := by
  cases htouches : touches mask column name.length with
  | true => simp [ofIdentifier?, htouches]
  | false =>
      simp only [ofIdentifier?, htouches, Bool.not_false, guard_true, Option.pure_def,
        Option.bind_eq_bind, Option.bind_some, Option.bind_eq_some_iff, Option.some.injEq,
        true_and]
      constructor
      · rintro ⟨scope, hclassify, kind, hkind, rfl⟩
        exact ⟨hclassify, hkind, rfl, rfl, rfl⟩
      · rintro ⟨hclassify, hkind, rfl, rfl, hlength⟩
        exact ⟨token.scope, hclassify, token.kind, hkind, by rw [← hlength]⟩

/-! ## Lines -/

theorem mem_ofLines : token ∈ ofLines classifier legend n inBlock lines ↔
    ∃ i line found, lines[i]? = some line ∧ found ∈ identifiers 0 line ∧
      ofIdentifier? classifier legend (excluded (blockAfter inBlock (lines.take i)) line).1 (n + i)
        found = some token := by
  induction lines generalizing n inBlock with
  | nil => simp [ofLines]
  | cons line lines ih =>
      rw [ofLines, List.mem_append, List.mem_filterMap, ih, excluded_snd]
      constructor
      · rintro (⟨found, hfound, htoken⟩ | ⟨i, other, found, hline, hfound, htoken⟩)
        · exact ⟨0, line, found, rfl, hfound, htoken⟩
        · refine ⟨i + 1, other, found, hline, hfound, ?_⟩
          rwa [Nat.add_assoc, Nat.add_comm 1 i] at htoken
      · rintro ⟨i, other, found, hline, hfound, htoken⟩
        cases i with
        | zero =>
            cases hline
            exact .inl ⟨found, hfound, htoken⟩
        | succ i =>
            refine .inr ⟨i, other, found, hline, hfound, ?_⟩
            rwa [Nat.add_assoc, Nat.add_comm 1 i]

/-- One token stands before another: on an earlier line, or further left on the same line, where
the two do not overlap. -/
def Before (a b : Token) : Prop :=
  a.line < b.line ∨ a.line = b.line ∧ a.column < b.column ∧ a.column + a.length ≤ b.column

theorem pairwise_ofLines :
    (ofLines classifier legend n inBlock lines).Pairwise Before := by
  induction lines generalizing n inBlock with
  | nil => exact List.Pairwise.nil
  | cons line lines ih =>
      rw [ofLines]
      refine List.pairwise_append.mpr ⟨?_, ih, ?_⟩
      -- within the line the order is that of the identifiers
      · refine (pairwise_identifiers 0 line).filterMap _ ?_
        rintro ⟨i, name⟩ ⟨i', name'⟩ hbefore a ha b hb
        obtain ⟨-, -, -, hline, hcolumn, hlength⟩ := ofIdentifier?_eq_some_iff.mp ha
        obtain ⟨-, -, -, hline', hcolumn', -⟩ := ofIdentifier?_eq_some_iff.mp hb
        rw [Before, hline, hline', hcolumn, hcolumn', hlength]
        exact .inr ⟨rfl, hbefore⟩
      -- and the numbers of later lines are larger
      · intro a ha b hb
        obtain ⟨⟨i, name⟩, -, ha⟩ := List.mem_filterMap.mp ha
        obtain ⟨j, other, ⟨i', name'⟩, -, -, hb⟩ := mem_ofLines.mp hb
        obtain ⟨-, -, -, hline, -⟩ := ofIdentifier?_eq_some_iff.mp ha
        obtain ⟨-, -, -, hline', -⟩ := ofIdentifier?_eq_some_iff.mp hb
        rw [Before, hline, hline']
        exact .inl (by omega)

/-! ## Texts -/

/-- The token covers an identifier of its line that the search for identifiers finds, and none of
its characters is excluded. -/
structure StandsOn (text : String) (line : List Char) (token : Token) : Prop where
  getElem?_line : (Text.lines text.toList)[token.line]? = some line
  found : ∃ p, Pattern.read identifierNotation.toList = .ok p ∧
    p.Found line 0 token.column token.length
  outside : ∀ i, token.column ≤ i → i < token.column + token.length →
    ¬Excluded (blockAfter false ((Text.lines text.toList).take token.line)) line i

def Identified (text : String) (token : Token) : Prop := ∃ line, token.StandsOn text line

theorem found_iff {i m : Nat} :
    (∃ p, Pattern.read identifierNotation.toList = .ok p ∧ p.Found line 0 i m) ↔
      identifier.Found line 0 i m := by
  rw [read_identifierNotation]
  simp

theorem textIn_eq (h : (Text.lines text.toList)[token.line]? = some line) :
    token.textIn text = String.ofList ((line.drop token.column).take token.length) := by
  rw [textIn, List.getD_eq_getElem?_getD, h, Option.getD_some]

theorem StandsOn.length_textIn (h : token.StandsOn text line) :
    (token.textIn text).length = token.length := by
  have hle := (found_iff.mp h.found).matchesAt.1
  rw [textIn_eq h.getElem?_line, String.length_ofList, List.length_take, List.length_drop]
  omega

/-- The tokens are the identifiers with a scope in the legend. -/
theorem mem_ofText : token ∈ ofText table text ↔
    token.Identified text ∧ table.classify (token.textIn text) = some token.scope ∧
      kindOf? token.scope table.legend = some token.kind := by
  rw [ofText, mem_ofLines]
  constructor
  · rintro ⟨i, line, ⟨column, name⟩, hline, hfound, htoken⟩
    obtain ⟨htouches, hclassify, hkind, hi, hcolumn, hlength⟩ := ofIdentifier?_eq_some_iff.mp htoken
    obtain ⟨hfound, hname⟩ := (mem_identifiers rfl).mp hfound
    rw [Nat.zero_add] at hi
    rw [← hi] at hline htouches
    rw [← hcolumn, ← hlength] at hfound hname htouches
    -- the name is the text of the token, as it stands at the token's place
    refine ⟨⟨line, hline, found_iff.mpr hfound, fun i hle hlt hexcluded => ?_⟩, ?_, hkind⟩
    · have htouch := touches_iff.mpr ⟨i, hle, hlt, getElem?_excluded.mpr hexcluded⟩
      rw [htouches] at htouch
      cases htouch
    · rw [textIn_eq hline, ← hname]
      exact hclassify
  · rintro ⟨⟨line, hstands⟩, hclassify, hkind⟩
    have hfound := found_iff.mp hstands.found
    have hlength : ((line.drop token.column).take token.length).length = token.length := by
      rw [← String.length_ofList, ← textIn_eq hstands.getElem?_line, hstands.length_textIn]
    refine ⟨token.line, line, (token.column, (line.drop token.column).take token.length),
      hstands.getElem?_line, ?_, ?_⟩
    · refine (mem_identifiers rfl).mpr ⟨?_, ?_⟩
      · rwa [hlength]
      · rw [hlength]
    · rw [ofIdentifier?_eq_some_iff, hlength, Nat.zero_add]
      refine ⟨?_, ?_, hkind, rfl, rfl, rfl⟩
      · rw [Bool.eq_false_iff]
        intro htouches
        obtain ⟨i, hle, hlt, hmarked⟩ := touches_iff.mp htouches
        exact hstands.outside i hle hlt (getElem?_excluded.mp hmarked)
      · rw [← textIn_eq hstands.getElem?_line]
        exact hclassify

/-- There is at most one token at one place. -/
theorem eq_of_place {other : Token} (htoken : token ∈ ofText table text)
    (hother : other ∈ ofText table text) (hline : other.line = token.line)
    (hcolumn : other.column = token.column) : other = token := by
  have hnodup : ((ofText table text).map fun t => (t.line, t.column)).Nodup := by
    rw [List.Nodup, List.pairwise_map]
    refine pairwise_ofLines.imp fun {a b} hbefore heq => ?_
    obtain ⟨hline, hcolumn⟩ := Prod.mk.inj heq
    rcases hbefore with hlt | ⟨-, hlt, -⟩ <;> omega
  exact List.inj_on_of_nodup_map hnodup hother htoken (Prod.ext hline hcolumn)

/-- An identifier with a scope in the legend has a token. -/
theorem exists_token {place : Token} (hplace : place.Identified text)
    (hclassify : table.classify (place.textIn text) = some place.scope)
    (hlegend : place.scope ∈ table.legend) :
    ∃ token ∈ ofText table text, token.line = place.line ∧ token.column = place.column ∧
      token.length = place.length ∧ token.scope = place.scope := by
  obtain ⟨kind, hkind⟩ : ∃ kind, kindOf? place.scope table.legend = some kind :=
    Option.ne_none_iff_exists'.mp fun hnone => kindOf?_eq_none_iff.mp hnone hlegend
  obtain ⟨line, hstands⟩ := hplace
  exact ⟨{ place with kind := kind },
    mem_ofText.mpr ⟨⟨line, hstands.1, hstands.2, hstands.3⟩, hclassify, hkind⟩, rfl, rfl, rfl, rfl⟩

/-- The tokens of a text stand in order and apart. Each covers an identifier outside the excluded
characters, has the identifier's scope, and names the scope by a place in the legend; and every
such identifier whose scope is in the legend has exactly one token. -/
theorem ofText_tokens (table : ScopeTable) (text : String) :
    (ofText table text).Pairwise Before ∧
    (∀ token ∈ ofText table text, token.Identified text ∧
      (token.textIn text).length = token.length ∧
      table.classify (token.textIn text) = some token.scope ∧
      table.legend[token.kind]? = some token.scope) ∧
    ∀ place : Token, place.Identified text →
      table.classify (place.textIn text) = some place.scope → place.scope ∈ table.legend →
      ∃ token ∈ ofText table text, token.length = place.length ∧ token.scope = place.scope ∧
        ∀ other ∈ ofText table text,
          other = token ↔ other.line = place.line ∧ other.column = place.column := by
  refine ⟨pairwise_ofLines, fun token htoken => ?_, fun place hplace hclassify hlegend => ?_⟩
  · obtain ⟨⟨line, hstands⟩, hclassify, hkind⟩ := mem_ofText.mp htoken
    exact ⟨⟨line, hstands⟩, hstands.length_textIn, hclassify, getElem?_of_kindOf? hkind⟩
  · obtain ⟨token, htoken, hline, hcolumn, hlength, hscope⟩ := exists_token hplace hclassify hlegend
    refine ⟨token, htoken, hlength, hscope, fun other hother => ⟨?_, fun ⟨hline', hcolumn'⟩ => ?_⟩⟩
    · rintro rfl
      exact ⟨hline, hcolumn⟩
    · exact eq_of_place htoken hother (hline'.trans hline.symm) (hcolumn'.trans hcolumn.symm)

/-- A table of one prefix. -/
def types : ScopeTable := ⟨.empty, ⟨[("C", ⟨"type", false⟩)], by decide⟩, ["type"]⟩

/-- A comment that goes on for another line, behind a character of two bytes. -/
def remarks : String := "ä CA /* CB\nCC */ \"CD\""

theorem ofText_tokens_remarks : ofText types remarks = [⟨0, 2, 2, "type", 0⟩] ∧
    (⟨0, 2, 2, "type", 0⟩ : Token).Identified remarks ∧
    ∃ token ∈ ofText types remarks, token.length = 2 ∧ token.scope = "type" ∧
      ∀ other ∈ ofText types remarks, other = token ↔ other.line = 0 ∧ other.column = 2 := by
  have htokens : ofText types remarks = [⟨0, 2, 2, "type", 0⟩] := by cbv
  obtain ⟨-, heach, hevery⟩ := ofText_tokens types remarks
  obtain ⟨hidentified, -, hclassify, -⟩ :=
    heach ⟨0, 2, 2, "type", 0⟩ (htokens ▸ List.mem_singleton_self _)
  exact ⟨htokens, hidentified, hevery _ hidentified hclassify (by decide)⟩

end Lexicolor.Token
