import Mathlib
import Lexicolor.Proofs.Text.Joining
import Lexicolor.Scope.Name

/-!
# Compound names

A compound name is a row of words with nothing between them, where the capitals
show at which places words start. The scope of a classification that is made of
compound names has their words, in small letters.
-/

namespace Lexicolor.Scope

open Text

variable {c d : Char} {cs rest word : List Char} {ws : List (List Char)}

/-! ## Compounds -/

/-- A capital with small letters or digits behind it. -/
inductive Capitalised : List Char → Prop
  | intro {c : Char} {cs : List Char} (hc : isCapital c) (hne : cs ≠ [])
      (hcs : ∀ d ∈ cs, isSmall d) : Capitalised (c :: cs)

/-- Capitals and nothing else. -/
structure Acronym (word : List Char) : Prop where
  ne_nil : word ≠ []
  capitals : ∀ c ∈ word, isCapital c

/-- A capital with a small letter behind it comes first. -/
inductive StartsPair : List Char → Prop
  | intro {c d : Char} {rest : List Char} (hc : isCapital c) (hd : d.isLower) :
      StartsPair (c :: d :: rest)

/-- The words of a compound. Only the last word, or one before a capital with a small letter, can
be an acronym. -/
inductive Compound : List (List Char) → Prop
  | nil : Compound []
  | capitalised {word : List Char} {ws : List (List Char)} (hword : Capitalised word)
      (hws : Compound ws) : Compound (word :: ws)
  | acronym {word : List Char} {ws : List (List Char)} (hword : Acronym word)
      (hnext : ∀ next ∈ ws.head?, StartsPair next) (hws : Compound ws) : Compound (word :: ws)

theorem not_isCapital_of_isSmall (h : isSmall c) : ¬isCapital c := by
  simp only [isSmall, isCapital, Char.isLower, Char.isUpper, Char.isDigit, Bool.or_eq_true,
    Bool.and_eq_true, decide_eq_true_eq, ge_iff_le, UInt32.le_iff_toNat_le] at *
  simp at *
  omega

theorem isSmall_of_isLower (h : d.isLower) : isSmall d := by
  rw [isSmall, h, Bool.true_or]

theorem Compound.head_isCapital (h : Compound (word :: ws)) :
    ∃ c cs, word = c :: cs ∧ isCapital c := by
  cases h with
  | capitalised hword =>
      cases hword with
      | intro hc => exact ⟨_, _, rfl, hc⟩
  | acronym hword =>
      obtain ⟨c, cs, rfl⟩ := List.exists_cons_of_ne_nil hword.ne_nil
      exact ⟨c, cs, rfl, hword.capitals c List.mem_cons_self⟩

/-- What stands behind the small letters of a word is a capital. -/
theorem Compound.flatten_head (h : Compound ws) : ∀ c ∈ ws.flatten.head?, isCapital c := by
  cases ws with
  | nil => simp
  | cons word ws =>
      obtain ⟨c, cs, rfl, hc⟩ := h.head_isCapital
      simpa using hc

theorem Compound.chars (h : Compound ws) : ∀ word ∈ ws, ∀ c ∈ word, isCapital c ∨ isSmall c := by
  induction h with
  | nil => simp
  | capitalised hword _ ih =>
      refine List.forall_mem_cons.mpr ⟨?_, ih⟩
      cases hword with
      | intro hc _ hcs => exact List.forall_mem_cons.mpr ⟨.inl hc, fun d hd => .inr (hcs d hd)⟩
  | acronym hword _ _ ih =>
      exact List.forall_mem_cons.mpr ⟨fun c hc => .inl (hword.capitals c hc), ih⟩

theorem Compound.notMem_flatten (h : Compound ws) (hc : ¬isCapital c) (hc' : ¬isSmall c) :
    c ∉ ws.flatten := by
  intro hmem
  obtain ⟨word, hword, hmem⟩ := List.mem_flatten.mp hmem
  exact (h.chars word hword c hmem).elim hc hc'

/-! ## Words of a compound -/

theorem wordLength_capitals (h : ∀ c ∈ word, isCapital c) : wordLength word = word.length := by
  rw [wordLength, List.takeWhile_eq_self_iff.mpr h, List.drop_length]

/-- The last of several capitals belongs to the small letter behind it. -/
theorem wordLength_acronym (hword : Acronym word) (hc : isCapital c) (hd : d.isLower) :
    wordLength (word ++ c :: d :: rest) = word.length := by
  have hsmall : ¬isCapital d := fun hcap => not_isCapital_of_isSmall (isSmall_of_isLower hd) hcap
  have hrun : (word ++ c :: d :: rest).takeWhile isCapital = word ++ [c] := by
    rw [List.append_cons]
    refine takeWhile_append_of_head ?_ (by simpa using hsmall)
    intro x hx
    rcases List.mem_append.mp hx with hx | hx
    · exact hword.capitals x hx
    · rwa [List.mem_singleton.mp hx]
  have htwo : 2 ≤ word.length + 1 := Nat.succ_le_succ (List.length_pos_of_ne_nil hword.ne_nil)
  have hlength : (word ++ [c]).length = word.length + 1 := List.length_append
  have hdrop : (word ++ c :: d :: rest).drop (word.length + 1) = d :: rest := by
    rw [List.append_cons, ← hlength, List.drop_left]
  rw [wordLength, hrun, hlength, hdrop]
  simp [htwo, hd]

/-- A word takes all the small letters up to the next capital. -/
theorem wordLength_capitalised (hword : Capitalised word)
    (hrest : ∀ c ∈ rest.head?, isCapital c) : wordLength (word ++ rest) = word.length := by
  obtain ⟨hc, hne, hcs⟩ := hword
  obtain ⟨d, cs, rfl⟩ := List.exists_cons_of_ne_nil hne
  have hrun : ((d :: cs) ++ rest).takeWhile isSmall = d :: cs :=
    takeWhile_append_of_head hcs fun c hhead hsmall =>
      not_isCapital_of_isSmall hsmall (hrest c hhead)
  have hd := not_isCapital_of_isSmall (hcs d List.mem_cons_self)
  simp only [List.cons_append] at hrun ⊢
  simp [wordLength, hc, hd, hrun, Nat.add_comm]

theorem words_append (hword : word ≠ []) (h : wordLength (word ++ rest) = word.length) :
    words (word ++ rest) = word :: words rest := by
  obtain ⟨c, cs, rfl⟩ := List.exists_cons_of_ne_nil hword
  rw [List.cons_append] at h ⊢
  rw [words, h, if_neg (by simp), ← List.cons_append, List.take_left, List.drop_left]

/-- A compound is cut into its words. -/
theorem Compound.words_flatten (h : Compound ws) : words ws.flatten = ws := by
  induction h with
  | nil => rw [List.flatten_nil, words]
  | @capitalised word ws hword hws ih =>
      have hne : word ≠ [] := by cases hword; simp
      rw [List.flatten_cons, words_append hne (wordLength_capitalised hword hws.flatten_head), ih]
  | @acronym word ws hword hnext hws ih =>
      have hlength : wordLength (word ++ ws.flatten) = word.length := by
        cases ws with
        | nil => rw [List.flatten_nil, List.append_nil, wordLength_capitals hword.capitals]
        | cons next ws =>
            obtain ⟨hc, hd⟩ := hnext next rfl
            exact wordLength_acronym hword hc hd
      rw [List.flatten_cons, words_append hword.ne_nil hlength, ih]

/-! ## Scopes of compounds -/

/-- What has no capital behind its first character stands within one word. -/
theorem Compound.not_isInfix_flatten {needle : List Char} (h : Compound ws) (hne : needle ≠ [])
    (htail : ∀ d ∈ needle.tail, ¬isCapital d) (hin : ∀ word ∈ ws, ¬needle <:+: word) :
    ¬needle <:+: ws.flatten := by
  induction ws with
  | nil => simpa using hne
  | cons word ws ih =>
      obtain ⟨hword, hin⟩ := List.forall_mem_cons.mp hin
      have hws : Compound ws := by cases h <;> assumption
      intro hinfix
      rcases isInfix_append_cases hinfix with
        hfirst | hrest | ⟨left, right, hleft, hright, heq, -, hstart⟩
      · exact hword hfirst
      · exact ih hws hin hrest
      · -- the word behind the border starts with a capital
        obtain ⟨c, right, rfl⟩ := List.exists_cons_of_ne_nil hright
        obtain ⟨rest, hrest⟩ := hstart
        refine htail c ?_ (hws.flatten_head c (by rw [← hrest]; rfl))
        rw [heq, List.tail_append_of_ne_nil hleft]
        exact List.mem_append_right _ List.mem_cons_self

/-- The words of a segment of a classification, none of which is read in a way of its own. -/
structure Plain (ws : List (List Char)) : Prop where
  ne_nil : ws ≠ []
  compound : Compound ws
  spelled : ∀ word ∈ ws, ¬"bulit".toList <:+: word ∧ ¬"Bulit".toList <:+: word
  notTemplate : ¬"Template".toList <+: ws.flatten
  notBuiltIn : ws.IsChain fun word next =>
    ¬("built".toList <:+ asciiLower word ∧ "in".toList <+: asciiLower next)

theorem eq_hyphen_of_toLower (h : c.toLower = '-') : c = '-' := by
  rw [Char.toLower] at h
  split at h
  next hc =>
    have hval := congrArg (fun c => c.val.toNat) h
    simp [UInt32.le_iff_toNat_le] at hc hval
    omega
  next => exact h

theorem Plain.correct_flatten (h : Plain ws) : correct ws.flatten = ws.flatten := by
  have hcapital : ¬"Bulit".toList <:+: ws.flatten :=
    h.compound.not_isInfix_flatten (by simp) (by simp [isCapital]) fun word hword =>
      (h.spelled word hword).2
  have hsmall : ¬"bulit".toList <:+: ws.flatten :=
    h.compound.not_isInfix_flatten (by simp) (by simp [isCapital]) fun word hword =>
      (h.spelled word hword).1
  simp only [correct, corrections, List.foldl_cons, List.foldl_nil]
  rw [replaceAll_of_not_isInfix hcapital, replaceAll_of_not_isInfix hsmall]

theorem Plain.hyphenated_flatten (h : Plain ws) :
    hyphenated ws.flatten = join ['-'] (ws.map asciiLower) := by
  have hhyphen : ∀ part ∈ ws.map asciiLower, '-' ∉ part := by
    intro part hpart hmem
    obtain ⟨word, hword, rfl⟩ := List.mem_map.mp hpart
    obtain ⟨c, hc, hlower⟩ := List.mem_map.mp hmem
    rw [eq_hyphen_of_toLower hlower] at hc
    exact h.compound.notMem_flatten (by decide) (by decide) (List.mem_flatten_of_mem hword hc)
  have hbuilt : ¬"built".toList ++ '-' :: "in".toList <:+: join ['-'] (ws.map asciiLower) :=
    not_isInfix_join (by decide) (by decide) hhyphen
      ((List.isChain_map asciiLower).mpr h.notBuiltIn)
  rw [hyphenated, h.correct_flatten, h.compound.words_flatten]
  exact replaceAll_of_not_isInfix hbuilt

theorem Plain.segmentParts_flatten (h : Plain ws) :
    segmentParts ws.flatten = [join ['-'] (ws.map asciiLower)] := by
  have hafter : after? "Template".toList ws.flatten = none := by
    rw [Option.eq_none_iff_forall_ne_some]
    intro rest hrest
    exact h.notTemplate ⟨rest, (after?_eq_some_iff.mp hrest).symm⟩
  rw [segmentParts, hafter, h.hyphenated_flatten]

theorem nameOf_eq {name : List Char} (h : replaceAll classificationHead [] cs = name) :
    nameOf cs = "malterlib-".toList ++ join ['-'] ((splitOn '_' name).flatMap segmentParts) := by
  subst h
  rfl

/-- The last of a row stands in front of nothing. -/
theorem isChain_of_forall_dropLast {α : Type} {P : α → Prop} {l : List α}
    (h : ∀ a ∈ l.dropLast, P a) : l.IsChain fun a _ => P a := by
  induction l with
  | nil => exact .nil
  | cons a l ih =>
      cases l with
      | nil => exact .singleton a
      | cons b l =>
          obtain ⟨ha, h⟩ := List.forall_mem_cons.mp h
          exact .cons_cons ha (ih h)

/-- The head of classifications does not come back in the segments behind it. -/
theorem not_isInfix_join_segments {texts : List (List Char)} (hmark : ∀ text ∈ texts, '_' ∉ text)
    (h : ∀ text ∈ texts.dropLast, ¬"EClassification".toList <:+ text) :
    ¬classificationHead <:+: join ['_'] texts := by
  have hchain : texts.IsChain fun text next =>
      ¬("EClassification".toList <:+ text ∧ ([] : List Char) <+: next) :=
    (isChain_of_forall_dropLast h).imp fun _ _ htext hmeet => htext hmeet.1
  exact not_isInfix_join (by decide) (by decide) hmark hchain

/-- The scope of a classification that is made of plain segments has the words of all of them. -/
theorem ofClassification_compound {segments : List (List (List Char))} (hne : segments ≠ [])
    (h : ∀ ws ∈ segments, Plain ws)
    (hhead : ∀ ws ∈ segments.dropLast, ¬"EClassification".toList <:+ ws.flatten) :
    ofClassification (String.ofList ("EClassification_".toList ++
        join ['_'] (segments.map List.flatten))) =
      String.ofList ("malterlib-".toList ++ join ['-'] (segments.flatten.map asciiLower)) := by
  have hmark : ∀ text ∈ segments.map List.flatten, '_' ∉ text := by
    intro text htext
    obtain ⟨ws, hws, rfl⟩ := List.mem_map.mp htext
    exact (h ws hws).compound.notMem_flatten (by decide) (by decide)
  have hname : replaceAll classificationHead [] (classificationHead ++
      join ['_'] (segments.map List.flatten)) = join ['_'] (segments.map List.flatten) := by
    rw [replaceAll_append (by decide), List.nil_append]
    refine replaceAll_of_not_isInfix (not_isInfix_join_segments hmark ?_)
    rw [← List.map_dropLast, List.forall_mem_map]
    exact hhead
  -- each segment is split into its words, and all are joined alike
  have hparts : (segments.map List.flatten).flatMap segmentParts =
      (segments.map fun ws => join ['-'] (ws.map asciiLower)) := by
    rw [List.flatMap_map, List.flatMap_congr fun ws hws => (h ws hws).segmentParts_flatten]
    exact List.map_eq_flatMap.symm
  have hjoin : join ['-'] (segments.map fun ws => join ['-'] (ws.map asciiLower)) =
      join ['-'] (segments.flatten.map asciiLower) := by
    have hgroups : ∀ group ∈ segments.map (List.map asciiLower), group ≠ [] := by
      intro group hgroup
      obtain ⟨ws, hws, rfl⟩ := List.mem_map.mp hgroup
      simpa using (h ws hws).ne_nil
    have hflat := join_map_join hgroups ['-']
    rwa [List.map_map, ← List.map_flatten] at hflat
  have hscope := nameOf_eq hname
  rw [splitOn_join (by simpa using hne) hmark, hparts, hjoin] at hscope
  rw [ofClassification, String.toList_ofList]
  exact congrArg String.ofList hscope

/-- Acronyms before a word and at the end, and digits inside a word. -/
theorem ofClassification_urlParser :
    ofClassification "EClassification_URLParser_Type2D" = "malterlib-url-parser-type2-d" := by
  have hparser : Capitalised ('P' :: "arser".toList) :=
    .intro (by decide) (by simp) (by simp [isSmall])
  have hsecond : Capitalised ('T' :: "ype2".toList) :=
    .intro (by decide) (by simp) (by simp [isSmall])
  have hurl : Plain ["URL".toList, "Parser".toList] :=
    { ne_nil := by simp
      compound := .acronym ⟨by simp, by simp [isCapital]⟩
        (fun _ hnext => Option.mem_some.mp hnext ▸ .intro (by decide) (by decide))
        (.capitalised hparser .nil)
      spelled := by decide +kernel
      notTemplate := by decide +kernel
      notBuiltIn := by decide +kernel }
  have htype : Plain ["Type2".toList, "D".toList] :=
    { ne_nil := by simp
      compound := .capitalised hsecond (.acronym ⟨by simp, by simp [isCapital]⟩ (by simp) .nil)
      spelled := by decide +kernel
      notTemplate := by decide +kernel
      notBuiltIn := by decide +kernel }
  have hscope := @ofClassification_compound
    [["URL".toList, "Parser".toList], ["Type2".toList, "D".toList]] (by simp)
    (by simpa using ⟨hurl, htype⟩) (by decide +kernel)
  simpa [join, asciiLower] using hscope

end Lexicolor.Scope
