import Mathlib
import Lexicolor.Proofs.Classification
import Lexicolor.Proofs.Combination
import Lexicolor.Proofs.Grammar.FirstPattern

/-!
# Grammars and the classifier

A pattern for a prefix asks for no capital after it, so an identifier goes to
the longest prefix that it goes on after. The classifier takes the longest one
that a capital follows. Keywords aside, the two agree where these prefixes have
one scope.
-/

namespace Lexicolor.Grammar

variable {prefixes : PrefixTable} {keywords : KeywordTable} {classifications : ClassificationTable}
variable {word scope name : String} {entry : PrefixEntry} {w v v' : List Char}

/-- A letter or an underscore, then letters, digits and underscores. -/
def IsIdentifier (w : List Char) : Prop :=
  ∃ c rest, (c.isAlpha ∨ c = '_') ∧ (∀ d ∈ rest, Text.isIdentChar d) ∧ w = c :: rest

theorem IsIdentifier.isIdentChar (h : IsIdentifier w) : ∀ c ∈ w, Text.isIdentChar c := by
  obtain ⟨c, rest, hc, hrest, rfl⟩ := h
  refine List.forall_mem_cons.mpr ⟨?_, hrest⟩
  rcases hc with hc | rfl
  · simp [Text.isIdentChar, Char.isAlphanum, hc]
  · rfl

theorem isWord_of_isIdentChar {c : Char} (h : Text.isIdentChar c) : Unicode.isWord c := by
  rcases Bool.or_eq_true_iff.mp h with halphanum | hbar
  · apply Unicode.isWord_of_isAlphanum halphanum
    simp [Char.isAlphanum, Char.isAlpha, Char.isUpper, Char.isLower, Char.isDigit,
      UInt32.le_iff_toNat_le] at halphanum
    omega
  · rw [eq_of_beq hbar]
    decide

/-- An identifier has word characters at both ends. -/
theorem IsIdentifier.ends (h : IsIdentifier w) :
    w.head?.any Unicode.isWord ∧ w.getLast?.any Unicode.isWord := by
  have hall : ∀ c ∈ w, Unicode.isWord c := fun c hc => isWord_of_isIdentChar (h.isIdentChar c hc)
  have hne : w ≠ [] := by
    obtain ⟨c, rest, -, -, rfl⟩ := h
    exact List.cons_ne_nil c rest
  constructor
  · rw [List.head?_eq_some_head hne]
    exact hall _ (List.head_mem hne)
  · rw [List.getLast?_eq_some_getLast hne]
    exact hall _ (List.getLast_mem hne)

theorem IsIdentifier.wordLike (h : IsIdentifier w) : WordLike w :=
  ⟨.inr h.ends.1, h.ends.2⟩

/-! ## The longest start -/

theorem isPrefix_of_mem_extending (h : w ∈ extending v) : v <+: w := by
  obtain ⟨rest, -, -, rfl⟩ := mem_extending.mp h
  exact List.prefix_append v rest

/-- Of two starts of a word the one with fewer bytes has fewer characters. -/
theorem length_le_of_byteLength_le (h : v <+: w) (h' : v' <+: w)
    (hle : Text.byteLength v ≤ Text.byteLength v') : v.length ≤ v'.length := by
  by_contra hlt
  obtain ⟨rest, rfl⟩ := List.prefix_of_prefix_length_le h' h (Nat.le_of_not_le hlt)
  have hne : rest ≠ [] := by
    rintro rfl
    simp at hlt
  exact absurd (Text.byteLength_lt hne) (Nat.not_lt.mpr hle)

/-- The word goes on after the prefix, and after no longer one. -/
structure LongestStart (prefixes : PrefixTable) (word name : String) (entry : PrefixEntry) :
    Prop where
  mem : prefixes.get? name = some entry
  goesOn : word.toList ∈ extending name.toList
  longest : ∀ other entry', prefixes.get? other = some entry' →
    word.toList ∈ extending other.toList → other.length ≤ name.length

theorem LongestStart.unique {name' : String} {entry' : PrefixEntry}
    (h : LongestStart prefixes word name entry) (h' : LongestStart prefixes word name' entry') :
    name = name' ∧ entry = entry' := by
  have hlength : name.toList.length = name'.toList.length := by
    rw [String.length_toList, String.length_toList]
    exact Nat.le_antisymm (h'.longest name entry h.mem h.goesOn)
      (h.longest name' entry' h'.mem h'.goesOn)
  have hstarts := List.prefix_of_prefix_length_le (isPrefix_of_mem_extending h.goesOn)
    (isPrefix_of_mem_extending h'.goesOn) hlength.le
  obtain rfl : name = name' := String.toList_inj.mp (hstarts.eq_of_length hlength)
  exact ⟨rfl, Option.some.inj (h.mem.symm.trans h'.mem)⟩

theorem takes_prefixPattern (hword : IsIdentifier word.toList) :
    (captured (prefixPattern v) scope).takes word ↔ word.toList ∈ extending v :=
  (matches_prefixPattern v scope).takes_iff.trans (and_iff_left hword.ends)

/-- The first pattern for a prefix is that of the longest start. -/
theorem longestStart_of_find? {pattern : GrammarPattern} (hword : IsIdentifier word.toList)
    (h : ((prefixPatterns prefixes).find? fun p => p.takes word) = some pattern) :
    ∃ name entry, LongestStart prefixes word name entry ∧
      captured (prefixPattern name.toList) (Scope.ofClassification entry.classification) =
        pattern := by
  rw [prefixPatterns, List.find?_map, Option.map_eq_some_iff] at h
  obtain ⟨⟨name, entry⟩, hfind, hpattern⟩ := h
  obtain ⟨htakes, before, after, hsplit, hbefore⟩ := List.find?_eq_some_iff_append.mp hfind
  have hgoesOn := (takes_prefixPattern hword).mp htakes
  have hmem : (name, entry) ∈ prefixes.entries := by
    apply Text.mem_longestFirst.mp
    exact List.mem_of_find?_eq_some hfind
  refine ⟨name, entry, ⟨SortedTable.get?_eq_some_iff.mpr hmem, hgoesOn, ?_⟩, hpattern⟩
  intro other entry' hother hgoesOn'
  have hsorted := Text.pairwise_longestFirst (fun e : String × PrefixEntry => e.1.toList)
    prefixes.entries
  have hmem' : (other, entry') ∈ Text.longestFirst (fun e => e.1.toList) prefixes.entries :=
    Text.mem_longestFirst.mpr (SortedTable.get?_eq_some_iff.mp hother)
  rw [hsplit] at hsorted hmem'
  have hle : Text.byteLength other.toList ≤ Text.byteLength name.toList := by
    -- a longer start would come first and take the word
    rcases List.mem_append.mp hmem' with hmem' | hmem'
    · have htakes' := hbefore _ hmem'
      rw [Bool.not_eq_true', Function.comp_apply, ← Bool.not_eq_true] at htakes'
      exact absurd ((takes_prefixPattern hword).mpr hgoesOn') htakes'
    rcases List.mem_cons.mp hmem' with heq | hmem'
    · cases heq
      exact Nat.le_refl _
    · exact (List.pairwise_cons.mp (List.pairwise_append.mp hsorted).2.1).1 _ hmem'
  rw [← String.length_toList, ← String.length_toList]
  exact length_le_of_byteLength_le (isPrefix_of_mem_extending hgoesOn')
    (isPrefix_of_mem_extending hgoesOn) hle

theorem exists_find?_prefixPatterns (hword : IsIdentifier word.toList)
    (hget : prefixes.get? name = some entry) (hgoesOn : word.toList ∈ extending name.toList) :
    ∃ pattern, ((prefixPatterns prefixes).find? fun p => p.takes word) = some pattern := by
  apply Option.isSome_iff_exists.mp
  apply List.find?_isSome.mpr
  exact ⟨_, mem_prefixPatterns.mpr ⟨name, entry, hget, rfl⟩, (takes_prefixPattern hword).mpr hgoesOn⟩

/-- An identifier that is no keyword has the scope of its longest start. -/
theorem firstScope?_eq_some_iff (hword : IsIdentifier word.toList)
    (hnot : ∀ scope, ¬Lists keywords word scope) :
    firstScope? (generate prefixes keywords) word = some scope ↔ ∃ name entry,
      LongestStart prefixes word name entry ∧
        Scope.ofClassification entry.classification = scope := by
  rw [firstScope?, firstPattern?_of_not_lists hnot]
  constructor
  · intro h
    obtain ⟨pattern, hfind, hscope⟩ := Option.bind_eq_some_iff.mp h
    obtain ⟨name, entry, hstart, rfl⟩ := longestStart_of_find? hword hfind
    exact ⟨name, entry, hstart, Option.some.inj hscope⟩
  · rintro ⟨name, entry, hstart, rfl⟩
    obtain ⟨pattern, hfind⟩ := exists_find?_prefixPatterns hword hstart.mem hstart.goesOn
    obtain ⟨name', entry', hstart', rfl⟩ := longestStart_of_find? hword hfind
    obtain ⟨rfl, rfl⟩ := hstart.unique hstart'
    rw [hfind, Option.bind_some, scope?_captured]

/-! ## Agreement -/

/-- Every classification in use is known with its own scope. -/
def Knows (classifications : ClassificationTable) (classification : String) : Prop :=
  classification ≠ "" ∧
    classifications.get? classification = some (Scope.ofClassification classification)

/-- The keywords of the joined tables are those that have patterns. -/
theorem get?_keywords_iff_lists
    (hkeywords : ∀ word entry, keywords.get? word = some entry →
      Knows classifications entry.classification) :
    (ScopeTable.combine keywords prefixes classifications).keywords.get? word = some scope ↔
      Lists keywords word scope := by
  rw [ScopeTable.get?_keywords_combine]
  refine exists_congr fun entry => and_congr_right fun hget => and_congr_right fun _ => ?_
  obtain ⟨hne, hknown⟩ := hkeywords word entry hget
  rw [hknown, Option.some_inj]
  exact (and_iff_right hne).symm

theorem not_lists_of_unlisted
    (hkeywords : ∀ word entry, keywords.get? word = some entry →
      Knows classifications entry.classification)
    (hunlisted : (ScopeTable.combine keywords prefixes classifications).Unlisted word)
    (scope : String) : ¬Lists keywords word scope := by
  intro hlists
  have hempty := hunlisted scope ((get?_keywords_iff_lists hkeywords).mpr hlists)
  obtain ⟨entry, -, -, -, rfl⟩ := hlists
  have hhead := head?_ofClassification entry.classification
  rw [hempty] at hhead
  cases hhead

/-- Where the classifier gives an identifier a scope, the first pattern for the identifier carries
that scope exactly if the identifier is a keyword or the longest prefix that it goes on after, be it
with a capital or not, has the scope. -/
theorem firstScope?_eq_iff_longestStart
    (hkeywords : ∀ word entry, keywords.get? word = some entry →
      Knows classifications entry.classification)
    (hword : IsIdentifier word.toList)
    (hclassify : (ScopeTable.combine keywords prefixes classifications).classify word =
      some scope) :
    firstScope? (generate prefixes keywords) word = some scope ↔
      (∃ own, Lists keywords word own) ∨ ∃ name entry, LongestStart prefixes word name entry ∧
        Scope.ofClassification entry.classification = scope := by
  have hdecides := ScopeTable.classify_eq_iff.mp hclassify
  cases hdecides with
  | keyword hget hne =>
      have hlists := (get?_keywords_iff_lists hkeywords).mp hget
      obtain ⟨words, -, hfirst⟩ := firstPattern?_of_lists prefixes hlists
        hword.wordLike
      refine iff_of_true ?_ (.inl ⟨scope, hlists⟩)
      rw [firstScope?, hfirst, Option.bind_some, scope?_captured]
  | longest hunlisted hfits hmax =>
      have hnot := not_lists_of_unlisted hkeywords hunlisted
      rw [firstScope?_eq_some_iff hword hnot]
      exact (or_iff_right fun ⟨own, hlists⟩ => hnot own hlists).symm

/-- Prefixes of template parameters, one of which starts the other. -/
def parameters : PrefixTable :=
  ⟨[("T", ⟨"EClassification_Template", false⟩), ("TC", ⟨"EClassification_TemplateClass", false⟩)],
    by decide⟩

def parameterScopes : ClassificationTable :=
  .ofNames ["EClassification_Template", "EClassification_TemplateClass"]

theorem get?_parameters : parameters.get? name = some entry ↔
    name = "T" ∧ entry = ⟨"EClassification_Template", false⟩ ∨
      name = "TC" ∧ entry = ⟨"EClassification_TemplateClass", false⟩ := by
  rw [SortedTable.get?_eq_some_iff]
  simp [parameters]

theorem knows_parameterScopes {classification : String}
    (h : classification = "EClassification_Template" ∨
      classification = "EClassification_TemplateClass") :
    Knows parameterScopes classification := by
  have hentries : parameterScopes.entries =
      ["EClassification_Template", "EClassification_TemplateClass"].map
        fun name => (name, Scope.ofClassification name) :=
    Table.entries_ofList (by simp)
  constructor
  · rcases h with rfl | rfl <;> decide
  · rw [Table.get?_eq_some_iff, hentries]
    rcases h with rfl | rfl <;> simp

theorem knows_of_parameters (h : parameters.get? name = some entry) :
    Knows parameterScopes entry.classification := by
  apply knows_parameterScopes
  rcases get?_parameters.mp h with ⟨-, rfl⟩ | ⟨-, rfl⟩
  · exact .inl rfl
  · exact .inr rfl

theorem isIdentifier_count : IsIdentifier "TCount".toList :=
  ⟨'T', "Count".toList, by decide, List.all_eq_true.mp rfl, rfl⟩

/-- No capital follows the longer prefix. -/
theorem fits_count_iff {head : String} {entry : PrefixScope} :
    (ScopeTable.combine .empty parameters parameterScopes).Fits "TCount" head entry ↔
      head = "T" ∧ entry = ⟨Scope.ofClassification "EClassification_Template", false⟩ := by
  constructor
  · rintro ⟨hmem, hfits⟩
    obtain ⟨own, hget, hkind, hscope⟩ := (ScopeTable.get?_prefixes_combine ..).mp hmem
    rw [(knows_of_parameters hget).2, Option.some_inj] at hscope
    obtain ⟨scope, isVariable⟩ := entry
    rcases get?_parameters.mp hget with ⟨rfl, rfl⟩ | ⟨rfl, rfl⟩
    · cases hkind
      cases hscope
      exact ⟨rfl, rfl⟩
    · cases hkind
      rw [if_neg Bool.false_ne_true] at hfits
      exact absurd hfits (by decide)
  · rintro ⟨rfl, rfl⟩
    refine ⟨(ScopeTable.get?_prefixes_combine ..).mpr ⟨_, get?_parameters.mpr (.inl ⟨rfl, rfl⟩), rfl,
      (knows_parameterScopes (.inl rfl)).2⟩, by decide⟩

theorem unlisted_count :
    (ScopeTable.combine .empty parameters parameterScopes).Unlisted "TCount" := by
  intro scope hget
  obtain ⟨entry, hentry, -⟩ := (ScopeTable.get?_keywords_combine ..).mp hget
  cases hentry

theorem classify_count : (ScopeTable.combine .empty parameters parameterScopes).classify "TCount" =
    some (Scope.ofClassification "EClassification_Template") := by
  apply ScopeTable.Decides.classify_eq
  have hlongest := ScopeTable.Decides.longest unlisted_count (fits_count_iff.mpr ⟨rfl, rfl⟩)
    fun other entry' hother => (fits_count_iff.mp hother).1 ▸ le_rfl
  rwa [PrefixScope.scopeOf, if_neg (by simp), if_neg (by simp)] at hlongest

theorem parameters_agree_iff :
    firstScope? (generate parameters .empty) "TCount" =
      some (Scope.ofClassification "EClassification_Template") ↔
    (∃ own, Lists .empty "TCount" own) ∨ ∃ name entry, LongestStart parameters "TCount" name entry ∧
      Scope.ofClassification entry.classification =
        Scope.ofClassification "EClassification_Template" :=
  firstScope?_eq_iff_longestStart (fun _ _ h => nomatch h) isIdentifier_count classify_count

/-- The name of a classification that is one segment. -/
theorem nameOf_of_segment {cs segment : List Char}
    (hname : Text.replaceAll Scope.classificationHead [] cs = segment)
    (hsplit : Text.splitOn '_' segment = [segment]) :
    Scope.nameOf cs = "malterlib-".toList ++ Text.join ['-'] (Scope.segmentParts segment ++ []) := by
  subst hname
  show _ ++ Text.join _ ((Text.splitOn _ _).flatMap _) = _
  rw [hsplit, List.flatMap_cons, List.flatMap_nil]

theorem template_ne_templateClass : Scope.ofClassification "EClassification_Template" ≠
    Scope.ofClassification "EClassification_TemplateClass" := by
  have hhead : Scope.classificationHead =
      ['E', 'C', 'l', 'a', 's', 's', 'i', 'f', 'i', 'c', 'a', 't', 'i', 'o', 'n', '_'] := rfl
  have hplain : Text.replaceAll Scope.classificationHead [] "EClassification_Template".toList =
      "Template".toList := by
    rw [hhead]
    simp [Text.replaceAll]
  have hclass : Text.replaceAll Scope.classificationHead []
      "EClassification_TemplateClass".toList = "TemplateClass".toList := by
    rw [hhead]
    simp [Text.replaceAll]
  have hparts : Scope.segmentParts "Template".toList = ["template".toList] := rfl
  have hparts' : Scope.segmentParts "TemplateClass".toList =
      ["template".toList, Scope.hyphenated "Class".toList] := rfl
  intro heq
  have hnames := String.ofList_injective heq
  rw [nameOf_of_segment hplain (by decide), nameOf_of_segment hclass (by decide), hparts,
    hparts'] at hnames
  -- whatever the second part is, it follows a hyphen
  generalize Scope.hyphenated "Class".toList = rest at hnames
  cases List.append_cancel_left hnames

theorem firstScope?_count : firstScope? (generate parameters .empty) "TCount" =
    some (Scope.ofClassification "EClassification_TemplateClass") := by
  apply (firstScope?_eq_some_iff isIdentifier_count fun _ ⟨_, hget, _⟩ => nomatch hget).mpr
  refine ⟨"TC", _, ⟨get?_parameters.mpr (.inr ⟨rfl, rfl⟩), ?_, ?_⟩, rfl⟩
  · exact mem_extending.mpr ⟨"ount".toList, by decide, List.all_eq_true.mp rfl, rfl⟩
  · intro other entry' hget _
    rcases get?_parameters.mp hget with ⟨rfl, -⟩ | ⟨rfl, -⟩ <;> decide

/-- The classifier has a scope of its own for the identifier, whatever scope the prefix has. -/
def Overridden (table : ScopeTable) (word : String) : Prop :=
  table.Unlisted word ∧ ∃ head entry, table.Fits word head entry ∧
    (∀ other entry', table.Fits word other entry' → other.length ≤ head.length) ∧
    entry.isVariable = false ∧
    (head = "E" ∧ '_' ∉ word.toList ∨ head = "CF" ∧ "Ref".toList <:+ word.toList)

/-- The pattern for the prefix `TC` comes before the one for `T`, though the classifier finds no
capital after it. -/
theorem not_forall_firstScope?_eq_classify :
    ¬∀ (keywords : KeywordTable) (prefixes : PrefixTable) (classifications : ClassificationTable)
      (word scope : String),
    (∀ keyword entry, keywords.get? keyword = some entry →
      Knows classifications entry.classification) →
    (∀ name entry, prefixes.get? name = some entry →
      Knows classifications entry.classification ∧ ∀ c ∈ name.toList, Text.isIdentChar c) →
    IsIdentifier word.toList →
    (ScopeTable.combine keywords prefixes classifications).classify word = some scope →
    ¬Overridden (ScopeTable.combine keywords prefixes classifications) word →
    firstScope? (generate prefixes keywords) word = some scope := by
  intro h
  have hagree := h .empty parameters parameterScopes "TCount" _ (fun _ _ hget => nomatch hget) ?_
    isIdentifier_count classify_count ?_
  · rw [firstScope?_count, Option.some_inj] at hagree
    exact template_ne_templateClass hagree.symm
  · intro name entry hget
    refine ⟨knows_of_parameters hget, ?_⟩
    rcases get?_parameters.mp hget with ⟨rfl, -⟩ | ⟨rfl, -⟩
    · exact List.all_eq_true.mp rfl
    · exact List.all_eq_true.mp rfl
  · rintro ⟨-, head, entry, hfits, -, -, hspecial⟩
    obtain ⟨rfl, -⟩ := fits_count_iff.mp hfits
    rcases hspecial with ⟨hE, -⟩ | ⟨hCF, -⟩
    · exact absurd hE (by decide)
    · exact absurd hCF (by decide)

/-! ## Where no prefix starts another -/

theorem scopeOf_of_not_overridden {table : ScopeTable} {head : String} {entry : PrefixScope}
    (hunlisted : table.Unlisted word) (hfits : table.Fits word head entry)
    (hmax : ∀ other entry', table.Fits word other entry' → other.length ≤ head.length)
    (hown : ¬Overridden table word) : entry.scopeOf head word = entry.scope := by
  unfold PrefixScope.scopeOf
  split
  next h => exact absurd ⟨hunlisted, head, entry, hfits, hmax, h.1, .inl h.2⟩ hown
  next =>
    split
    next h => exact absurd ⟨hunlisted, head, entry, hfits, hmax, h.1, .inr h.2⟩ hown
    next => rfl

/-- There is more of a name behind every prefix that fits it. -/
theorem exists_append_of_fits {table : ScopeTable} {head : String} {entry : PrefixScope}
    (hfits : table.Fits word head entry) :
    ∃ rest, rest ≠ [] ∧ word.toList = head.toList ++ rest := by
  have hfits := hfits.fits
  have hplain (hfits : Identifier.fitsPlain head.toList word.toList) :
      ∃ rest, rest ≠ [] ∧ word.toList = head.toList ++ rest := by
    obtain ⟨c, rest, -, heq⟩ := Identifier.fitsPlain_iff.mp hfits
    exact ⟨c :: rest, List.cons_ne_nil c rest, heq⟩
  split at hfits
  next =>
    rcases Identifier.fitsVariable_iff.mp hfits with hfits | ⟨k, c, rest, -, -, heq⟩
    · exact hplain hfits
    · exact ⟨k :: c :: rest, List.cons_ne_nil k _, heq⟩
  next => exact hplain hfits

/-- An identifier goes on after every prefix that fits it. -/
theorem mem_extending_of_fits {table : ScopeTable} {head : String} {entry : PrefixScope}
    (hword : IsIdentifier word.toList) (hfits : table.Fits word head entry) :
    word.toList ∈ extending head.toList := by
  obtain ⟨rest, hne, heq⟩ := exists_append_of_fits hfits
  refine mem_extending.mpr ⟨rest, hne, fun c hc => hword.isIdentChar c ?_, heq⟩
  rw [heq]
  exact List.mem_append_right _ hc

/-- Where prefixes that start one another have one scope, the grammar agrees with the classifier on
all identifiers. -/
theorem firstScope?_eq_of_nested
    (hkeywords : ∀ word entry, keywords.get? word = some entry →
      Knows classifications entry.classification)
    (hstartses : ∀ name entry, prefixes.get? name = some entry →
      Knows classifications entry.classification)
    (hnested : ∀ name entry other entry', prefixes.get? name = some entry →
      prefixes.get? other = some entry' → name.toList <+: other.toList →
      Scope.ofClassification entry'.classification = Scope.ofClassification entry.classification)
    (hword : IsIdentifier word.toList)
    (hclassify : (ScopeTable.combine keywords prefixes classifications).classify word =
      some scope)
    (hown : ¬Overridden (ScopeTable.combine keywords prefixes classifications) word) :
    firstScope? (generate prefixes keywords) word = some scope := by
  rw [firstScope?_eq_iff_longestStart hkeywords hword hclassify]
  have hdecides := ScopeTable.classify_eq_iff.mp hclassify
  cases hdecides with
  | keyword hget hne => exact .inl ⟨scope, (get?_keywords_iff_lists hkeywords).mp hget⟩
  | @longest head entry hunlisted hfits hmax =>
      right
      obtain ⟨own, hget, -, hscope⟩ := (ScopeTable.get?_prefixes_combine ..).mp hfits.mem
      have hgoesOn := mem_extending_of_fits hword hfits
      obtain ⟨pattern, hfind⟩ := exists_find?_prefixPatterns hword hget hgoesOn
      obtain ⟨name, entry', hstart, -⟩ := longestStart_of_find? hword hfind
      refine ⟨name, entry', hstart, ?_⟩
      -- the longest start goes on from the prefix that fits
      have hstarts : head.toList <+: name.toList := by
        apply List.prefix_of_prefix_length_le (isPrefix_of_mem_extending hgoesOn)
          (isPrefix_of_mem_extending hstart.goesOn)
        rw [String.length_toList, String.length_toList]
        exact hstart.longest head own hget hgoesOn
      rw [hnested head own name entry' hget hstart.mem hstarts,
        scopeOf_of_not_overridden hunlisted hfits hmax hown]
      rw [(hstartses head own hget).2, Option.some_inj] at hscope
      exact hscope

end Lexicolor.Grammar
