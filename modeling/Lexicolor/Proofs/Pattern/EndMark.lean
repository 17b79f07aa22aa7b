import Mathlib
import Lexicolor.Proofs.Pattern.Notation

/-!
# A dollar behind a text

What is read from the start of a text is also read where a dollar follows the
text: no escape, class, group or repetition goes on with it.
-/

namespace Lexicolor.Pattern

variable {cs rest found : List Char} {ls lrest : List Lexeme} {l : Lexeme} {c : Char}
variable {flags : Flags} {head : GroupHead}

/-! ## Escapes -/

theorem takeWhile_append_dollar {p : Char → Bool} (h : p '$' = false) (cs : List Char) :
    (cs ++ ['$']).takeWhile p = cs.takeWhile p := by
  induction cs with
  | nil => simp [h]
  | cons c cs ih =>
      rw [List.cons_append, List.takeWhile_cons, List.takeWhile_cons, ih]

theorem boundaryEscape_append_dollar (h : boundaryEscape cs = .ok (l, rest)) :
    boundaryEscape (cs ++ ['$']) = .ok (l, rest ++ ['$']) := by
  unfold boundaryEscape at h
  split at h
  next inner =>
    rw [List.cons_append, boundaryEscape]
    -- a dollar ends the name of a boundary
    have hname := takeWhile_append_dollar (p := fun c => c.isAlpha || c == '-') rfl inner
    simp only [hname] at h ⊢
    split at h
    next hempty =>
      cases h
      rw [if_pos hempty]
      rfl
    next hempty =>
      rw [if_neg hempty]
      split at h
      next a after ha hafter =>
        cases h
        have hle : (inner.takeWhile fun c => c.isAlpha || c == '-').length ≤ inner.length :=
          (List.takeWhile_sublist _).length_le
        rw [List.drop_append_of_le_length hle, ha, hafter]
        rfl
      next => cases h
  next hbrace =>
    cases h
    cases cs with
    | nil => rfl
    | cons c cs =>
        unfold boundaryEscape
        split
        next inner heq =>
          cases heq
          exact absurd rfl (hbrace cs)
        next => rfl

theorem hexDigits_of_head?_ne {width : Nat} (h : cs.head? ≠ some '\x7b') :
    hexDigits width cs = (cs.take width, cs.drop width) := by
  unfold hexDigits
  split
  next => exact absurd rfl h
  next => rfl

theorem hexComplete_of_head?_ne {width : Nat} (h : cs.head? ≠ some '\x7b') :
    hexComplete width cs = decide (width ≤ cs.length) := by
  unfold hexComplete
  split
  next => exact absurd rfl h
  next => rfl

/-- The first closing brace ends the digits. -/
theorem hexDigits_brace {digits : List Char} (h : '\x7d' ∉ digits) (width : Nat)
    (after : List Char) :
    hexDigits width ('\x7b' :: (digits ++ '\x7d' :: after)) = (digits, after) := by
  have hne : ∀ a ∈ digits, decide (a ≠ '\x7d') = true := by
    intro a ha
    exact decide_eq_true (ne_of_mem_of_not_mem ha h)
  simp only [hexDigits, Text.before]
  rw [List.takeWhile_append_of_pos hne, List.dropWhile_append_of_pos hne]
  simp

theorem hexDigits_append_dollar {width : Nat} (h : hexComplete width cs) :
    hexComplete width (cs ++ ['$']) ∧
      hexDigits width (cs ++ ['$']) =
        ((hexDigits width cs).1, (hexDigits width cs).2 ++ ['$']) := by
  by_cases hbrace : cs.head? = some '\x7b'
  · obtain ⟨inner, rfl⟩ := List.head?_eq_some_iff.mp hbrace
    have hmem : '\x7d' ∈ inner := by simpa [hexComplete] using h
    obtain ⟨digits, after, rfl, hdigits⟩ := List.eq_append_cons_of_mem hmem
    refine ⟨by simp [hexComplete], ?_⟩
    rw [List.cons_append, List.append_assoc, List.cons_append, hexDigits_brace hdigits,
      hexDigits_brace hdigits]
  · have hne : (cs ++ ['$']).head? ≠ some '\x7b' := head?_append_ne hbrace (by simp)
    rw [hexComplete_of_head?_ne hbrace, decide_eq_true_iff] at h
    rw [hexComplete_of_head?_ne hne, hexDigits_of_head?_ne hne, hexDigits_of_head?_ne hbrace,
      List.take_append_of_le_length h, List.drop_append_of_le_length h]
    exact ⟨decide_eq_true (by simp only [List.length_append]; omega), rfl⟩

theorem map_pair_append {α β ε : Type} {x : Except ε α} {as rest : List β} {a : α}
    (h : ((·, as) <$> x) = .ok (a, rest)) (bs : List β) :
    ((·, as ++ bs) <$> x) = .ok (a, rest ++ bs) := by
  cases x with
  | error e => cases h
  | ok found =>
      cases h
      rfl

theorem escapeAt_append_dollar (h : escapeAt c cs = .ok (l, rest)) :
    escapeAt c (cs ++ ['$']) = .ok (l, rest ++ ['$']) := by
  unfold escapeAt at h ⊢
  split_ifs at h ⊢
  · cases h
    rfl
  · exact boundaryEscape_append_dollar h
  · split at h
    next lexeme hletter =>
      cases h
      rfl
    next hletter =>
      split at h
      next width hwidth =>
        split at h
        next hcomplete =>
          obtain ⟨hcomplete', hdigits⟩ := hexDigits_append_dollar hcomplete
          rw [if_pos hcomplete', hdigits]
          exact map_pair_append h _
        next => cases h
      next => cases h

theorem lexemes_escape (h : escapeAt c cs = .ok (l, rest)) :
    lexemes ('\\' :: c :: cs) = (l :: ·) <$> lexemes rest := by
  rw [lexemes, if_pos rfl]
  split
  next l' rest' heq =>
    rw [h] at heq
    cases heq
    rfl
  next heq =>
    rw [h] at heq
    cases heq

theorem lexemes_plain (h : c ≠ '\\') (cs : List Char) :
    lexemes (c :: cs) = (.plain c :: ·) <$> lexemes cs := by
  rw [lexemes.eq_def]
  simp [h]

theorem exists_of_map_cons {α ε : Type} {x : Except ε (List α)} {a : α} {as : List α}
    (h : (a :: ·) <$> x = .ok as) : ∃ tail, x = .ok tail ∧ as = a :: tail := by
  cases x with
  | error e => cases h
  | ok tail =>
      cases h
      exact ⟨tail, rfl, rfl⟩

theorem lexemes_append_dollar (h : lexemes cs = .ok ls) :
    lexemes (cs ++ ['$']) = .ok (ls ++ [Lexeme.plain '$']) := by
  fun_induction lexemes cs generalizing ls with
  | case1 =>
      cases h
      rw [List.nil_append, lexemes_plain (by decide), lexemes]
      rfl
  | case2 | case4 => cases h
  | case3 c cs l rest hescape ih =>
      obtain ⟨tail, htail, rfl⟩ := exists_of_map_cons h
      rw [List.cons_append, List.cons_append, lexemes_escape (escapeAt_append_dollar hescape),
        ih htail]
      rfl
  | case5 c cs hc ih =>
      obtain ⟨tail, htail, rfl⟩ := exists_of_map_cons h
      rw [List.cons_append, lexemes_plain hc, ih htail]
      rfl

/-! ## Classes -/

theorem head?_marked_ne (h : ls.head? ≠ some l) (hl : l ≠ Lexeme.plain '$') :
    (ls ++ [Lexeme.plain '$']).head? ≠ some l :=
  head?_append_ne h fun heq => hl (Option.some.inj heq).symm

theorem forall_head?_marked_ne {marks : List Char}
    (h : ∀ c ∈ marks, ls.head? ≠ some (.plain c)) (hmarks : '$' ∉ marks) :
    ∀ c ∈ marks, (ls ++ [Lexeme.plain '$']).head? ≠ some (.plain c) := by
  intro c hc
  refine head?_marked_ne (h c hc) fun heq => ?_
  cases heq
  exact hmarks hc

theorem head?_ne_of_forall (h : ∀ tail, ls = l :: tail → False) : ls.head? ≠ some l := by
  intro hhead
  obtain ⟨tail, htail⟩ := List.head?_eq_some_iff.mp hhead
  exact h tail htail

theorem takeHat_of_head?_ne (h : ls.head? ≠ some (.plain '^')) : takeHat ls = (false, ls) := by
  unfold takeHat
  split
  next => exact absurd rfl h
  next => rfl

theorem takeHat_append_dollar (ls : List Lexeme) :
    takeHat (ls ++ [Lexeme.plain '$']) =
      ((takeHat ls).1, (takeHat ls).2 ++ [Lexeme.plain '$']) := by
  by_cases h : ls.head? = some (.plain '^')
  · obtain ⟨tail, rfl⟩ := List.head?_eq_some_iff.mp h
    rfl
  · rw [takeHat_of_head?_ne h, takeHat_of_head?_ne (head?_marked_ne h (by simp))]

theorem takeLazy_append_dollar (ls : List Lexeme) :
    takeLazy (ls ++ [Lexeme.plain '$']) =
      ((takeLazy ls).1, (takeLazy ls).2 ++ [Lexeme.plain '$']) := by
  by_cases h : ls.head? = some (.plain '?')
  · obtain ⟨tail, rfl⟩ := List.head?_eq_some_iff.mp h
    rfl
  · rw [takeLazy_of_head?_ne h, takeLazy_of_head?_ne (head?_marked_ne h (by simp))]

theorem hyphens_of_head?_ne (h : ls.head? ≠ some (.plain '-')) : hyphens ls = 0 := by
  unfold hyphens
  split
  next => exact absurd rfl h
  next => rfl

theorem hyphens_append_dollar (ls : List Lexeme) :
    hyphens (ls ++ [Lexeme.plain '$']) = hyphens ls ∧ hyphens ls ≤ ls.length := by
  induction ls with
  | nil => exact ⟨rfl, Nat.le_refl 0⟩
  | cons l ls ih =>
      by_cases h : l = .plain '-'
      · subst h
        exact ⟨congrArg (· + 1) ih.1, Nat.succ_le_succ ih.2⟩
      · have hhead : (l :: ls).head? ≠ some (.plain '-') := fun heq => h (Option.some.inj heq)
        rw [hyphens_of_head?_ne hhead, hyphens_of_head?_ne (head?_marked_ne hhead (by simp))]
        exact ⟨rfl, Nat.zero_le _⟩

theorem firstMembers_of_ne (h : hyphens ls ≠ 0 ∨ ls.head? ≠ some (.plain ']')) :
    firstMembers ls = (List.replicate (hyphens ls) (.single '-'), ls.drop (hyphens ls)) := by
  unfold firstMembers
  split
  next hzero =>
    rcases h with h | h
    · exact absurd hzero h
    · exact absurd rfl h
  next => rfl

theorem firstMembers_append_dollar (ls : List Lexeme) :
    firstMembers (ls ++ [Lexeme.plain '$']) =
      ((firstMembers ls).1, (firstMembers ls).2 ++ [Lexeme.plain '$']) := by
  obtain ⟨hhyphens, hle⟩ := hyphens_append_dollar ls
  by_cases h : hyphens ls ≠ 0 ∨ ls.head? ≠ some (.plain ']')
  · have h' : hyphens (ls ++ [Lexeme.plain '$']) ≠ 0 ∨
        (ls ++ [Lexeme.plain '$']).head? ≠ some (.plain ']') :=
      h.imp (hhyphens ▸ ·) (head?_marked_ne · (by simp))
    rw [firstMembers_of_ne h, firstMembers_of_ne h', hhyphens, List.drop_append_of_le_length hle]
  · simp only [not_or, not_not] at h
    obtain ⟨tail, rfl⟩ := List.head?_eq_some_iff.mp h.2
    rfl

theorem openSet_append_dollar (ls : List Lexeme) :
    openSet (ls ++ [Lexeme.plain '$']) =
      ((openSet ls).1, (openSet ls).2 ++ [Lexeme.plain '$']) := by
  simp only [openSet, takeHat_append_dollar, firstMembers_append_dollar]

/-- The lexeme goes on with the name of a class. -/
def inName (l : Lexeme) : Bool := l.plain?.any (· ≠ ':')

/-- The lexemes after the end of a class with a name. -/
def afterName? : List Lexeme → Option (List Lexeme)
  | .plain ':' :: .plain ']' :: rest => some rest
  | _ => none

theorem drop_length_takeWhile {α : Type} (p : α → Bool) (as : List α) :
    as.drop (as.takeWhile p).length = as.dropWhile p := by
  induction as with
  | nil => rfl
  | cons a as ih =>
      rw [List.takeWhile_cons, List.dropWhile_cons]
      split
      · exact ih
      · rfl

theorem namedSet?_eq (flags : Flags) (ls : List Lexeme) : namedSet? flags (.plain ':' :: ls) =
    (afterName? ((takeHat ls).2.dropWhile inName)).bind fun rest =>
      (CharClass.named? (String.ofList
        (((takeHat ls).2.takeWhile inName).map Lexeme.plain?).reduceOption)).map fun c =>
          (if (takeHat ls).1 then .negated (flags.closeCase c) else c, rest) := by
  have hname : ((takeHat ls).2.map Lexeme.plain?).takeWhile (fun c => c.any (· ≠ ':')) =
      ((takeHat ls).2.takeWhile inName).map Lexeme.plain? := by
    rw [List.takeWhile_map]
    rfl
  simp only [namedSet?, hname, List.length_map, drop_length_takeWhile]
  generalize (takeHat ls).2.dropWhile inName = after
  unfold afterName?
  split <;> simp_all

theorem afterName?_append_dollar (h : ls ≠ []) :
    afterName? (ls ++ [Lexeme.plain '$']) = (afterName? ls).map (· ++ [Lexeme.plain '$']) := by
  obtain ⟨l, ls, rfl⟩ := List.exists_cons_of_ne_nil h
  cases ls with
  | nil =>
      show afterName? [l, .plain '$'] = (afterName? [l]).map _
      unfold afterName?
      split <;> simp_all
  | cons l' ls =>
      show afterName? (l :: l' :: (ls ++ [Lexeme.plain '$'])) = _
      unfold afterName?
      split <;> simp_all

theorem namedSet?_append_dollar (flags : Flags) (ls : List Lexeme) :
    namedSet? flags (ls ++ [Lexeme.plain '$']) =
      (namedSet? flags ls).map fun (c, rest) => (c, rest ++ [Lexeme.plain '$']) := by
  by_cases hcolon : ls.head? = some (.plain ':')
  · obtain ⟨ls, rfl⟩ := List.head?_eq_some_iff.mp hcolon
    rw [List.cons_append, namedSet?_eq, namedSet?_eq, takeHat_append_dollar]
    dsimp only
    generalize (takeHat ls).2 = inner
    rw [List.dropWhile_append]
    split
    next hnil =>
      -- the name would go on with the dollar
      rw [List.isEmpty_iff] at hnil
      rw [hnil]
      rfl
    next hne =>
      have htake : (inner ++ [Lexeme.plain '$']).takeWhile inName = inner.takeWhile inName := by
        rw [List.takeWhile_append, if_neg]
        intro hlength
        apply hne
        rw [← drop_length_takeWhile, hlength, List.drop_length]
        rfl
      rw [htake, afterName?_append_dollar (by simpa using hne)]
      cases afterName? (inner.dropWhile inName) with
      | none => rfl
      | some rest =>
          simp only [Option.map_some, Option.bind_some, Option.map_map]
          rfl
  · have hnone {ls : List Lexeme} (h : ls.head? ≠ some (.plain ':')) :
        namedSet? flags ls = none := by
      unfold namedSet?
      split
      next => exact absurd rfl h
      next => rfl
    rw [hnone hcolon, hnone (head?_marked_ne hcolon (by simp))]
    rfl

theorem setMember_of_head?_ne (h : ls.head? ≠ some (.plain '-')) :
    setMember l ls = (·, ls) <$> l.member := by
  unfold setMember
  split
  next => exact absurd rfl h
  next => rfl

theorem setMember_append_dollar {set : CharClass} (h : setMember l ls = .ok (set, lrest)) :
    setMember l (ls ++ [Lexeme.plain '$']) = .ok (set, lrest ++ [Lexeme.plain '$']) := by
  by_cases hyphen : ls.head? = some (.plain '-')
  · obtain ⟨ls, rfl⟩ := List.head?_eq_some_iff.mp hyphen
    simp only [setMember] at h
    split at h
    next => cases h
    next => exact map_pair_append h _
    next => exact map_pair_append h _
    next high rest hclose hhyphen =>
      simp only [List.cons_append, setMember]
      exact map_pair_append h _
  · rw [setMember_of_head?_ne hyphen] at h
    rw [setMember_of_head?_ne (head?_marked_ne hyphen (by simp))]
    exact map_pair_append h _

theorem readSet_named {s : OpenSet} {outer : List OpenSet} {set : CharClass}
    (h : namedSet? flags ls = some (set, lrest)) :
    readSet flags s outer (.plain '[' :: ls) = readSet flags (s.push ⟨set, 0⟩) outer lrest := by
  rw [readSet.eq_def]
  split <;> simp_all
  split <;> simp_all

theorem readSet_nested {s : OpenSet} {outer : List OpenSet} (h : namedSet? flags ls = none) :
    readSet flags s outer (.plain '[' :: ls) =
      readSet flags (openSet ls).1 (s :: outer) (openSet ls).2 := by
  rw [readSet.eq_def]
  split <;> simp_all
  split <;> simp_all

theorem StartsMember.append_dollar (h : StartsMember l ls) :
    StartsMember l (ls ++ [Lexeme.plain '$']) := by
  refine ⟨h.ne_close, h.ne_open, fun c hc hl => head?_marked_ne (h.ne_operator c hc hl) ?_⟩
  intro heq
  cases heq
  exact absurd hc (by decide)

theorem readSet_append_dollar {s : OpenSet} {outer : List OpenSet} {set : Leveled CharClass}
    (h : readSet flags s outer ls = .ok (set, lrest)) :
    readSet flags s outer (ls ++ [Lexeme.plain '$']) = .ok (set, lrest ++ [Lexeme.plain '$']) := by
  fun_induction readSet flags s outer ls with
  | case1 => cases h
  | case2 =>
      cases h
      rw [List.cons_append, readSet]
  | case3 s ls o outer ih =>
      rw [List.cons_append, readSet]
      exact ih h
  | case4 s outer ls c rest hnamed ih =>
      have hnamed' := namedSet?_append_dollar flags ls
      rw [hnamed] at hnamed'
      rw [List.cons_append, readSet_named hnamed']
      exact ih h
  | case5 s outer ls hnamed ih =>
      have hnamed' := namedSet?_append_dollar flags ls
      rw [hnamed] at hnamed'
      rw [List.cons_append, readSet_nested hnamed', openSet_append_dollar]
      exact ih h
  | case6 s outer ls ih | case7 s outer ls ih | case8 s outer ls ih =>
      rw [List.cons_append, List.cons_append, readSet]
      exact ih h
  | case9 s outer l ls hclose hopen hand hhyphen htilde c rest hmember ih =>
      have hl : StartsMember l ls := by
        refine ⟨hclose, hopen, ?_⟩
        simp only [List.forall_mem_cons, List.not_mem_nil, false_implies, implies_true, and_true]
        exact ⟨fun hl => head?_ne_of_forall (hand · hl),
          fun hl => head?_ne_of_forall (hhyphen · hl),
          fun hl => head?_ne_of_forall (htilde · hl)⟩
      rw [List.cons_append, readSet_single hl.append_dollar (setMember_append_dollar hmember)]
      exact ih h
  | case10 => cases h

/-! ## Groups and repetitions -/

theorem readFlags_append_dollar {seen : List Char} {on bare : Bool}
    (h : readFlags flags seen on bare ls = .ok (head, lrest)) :
    readFlags flags seen on bare (ls ++ [Lexeme.plain '$']) =
      .ok (head, lrest ++ [Lexeme.plain '$']) := by
  fun_induction readFlags flags seen on bare ls <;> simp_all [readFlags]

theorem readName_append_dollar {name : List Char} (h : readName name ls = .ok (head, lrest)) :
    readName name (ls ++ [Lexeme.plain '$']) = .ok (head, lrest ++ [Lexeme.plain '$']) := by
  fun_induction readName name ls <;> simp_all [readName]

theorem readFlags_head?_ne {seen : List Char} {on bare : Bool}
    (h : readFlags flags seen on bare ls = .ok (head, lrest)) :
    ∀ c ∈ ['=', '!', '<', 'P'], ls.head? ≠ some (.plain c) := by
  intro c hc hls
  obtain ⟨tail, rfl⟩ := List.head?_eq_some_iff.mp hls
  simp only [List.mem_cons, List.not_mem_nil, or_false] at hc
  rcases hc with rfl | rfl | rfl | rfl <;> cases h

theorem groupHead_name (h : ∀ c ∈ ['=', '!'], ls.head? ≠ some (.plain c)) :
    groupHead flags (.plain '?' :: .plain '<' :: ls) = readName [] ls := by
  unfold groupHead
  split
  case h_3 | h_4 =>
    next heq =>
      cases heq
      exact absurd rfl (h _ (by decide))
  case h_5 heq =>
    cases heq
    rfl
  case h_7 hname _ heq =>
    cases heq
    exact absurd rfl (hname ls)
  case h_8 hflags => exact absurd rfl (hflags (.plain '<' :: ls))
  all_goals
    next heq => cases heq

theorem groupHead_flags (h : ∀ c ∈ ['=', '!', '<', 'P'], ls.head? ≠ some (.plain c)) :
    groupHead flags (.plain '?' :: ls) = readFlags flags [] true true ls := by
  unfold groupHead
  split
  case h_7 heq =>
    cases heq
    rfl
  case h_8 hflags => exact absurd rfl (hflags ls)
  all_goals
    next heq =>
      cases heq
      exact absurd rfl (h _ (by decide))

theorem groupHead_append_dollar (h : groupHead flags ls = .ok (head, lrest)) :
    groupHead flags (ls ++ [Lexeme.plain '$']) = .ok (head, lrest ++ [Lexeme.plain '$']) := by
  unfold groupHead at h
  split at h
  case h_5 name hequal hbang =>
    have hne : ∀ c ∈ ['=', '!'], name.head? ≠ some (.plain c) := by
      simp only [List.forall_mem_cons, List.not_mem_nil, false_implies, implies_true, and_true]
      exact ⟨head?_ne_of_forall hequal, head?_ne_of_forall hbang⟩
    rw [List.cons_append, List.cons_append, groupHead_name (forall_head?_marked_ne hne (by decide))]
    exact readName_append_dollar h
  case h_6 => exact readName_append_dollar h
  case h_7 =>
    rw [List.cons_append,
      groupHead_flags (forall_head?_marked_ne (readFlags_head?_ne h) (by decide))]
    exact readFlags_append_dollar h
  case h_8 hquestion =>
    cases h
    exact groupHead_plain (head?_marked_ne (head?_ne_of_forall hquestion) (by simp))
  all_goals cases h

theorem braced_append_dollar {text : List Char} (h : braced text ls = .ok (found, lrest)) :
    braced text (ls ++ [Lexeme.plain '$']) = .ok (found, lrest ++ [Lexeme.plain '$']) := by
  fun_induction braced text ls <;> simp_all [braced]

theorem readCounts_append_dollar {numbers : Nat × Option Nat}
    (h : readCounts c ls = .ok (numbers, lrest)) :
    readCounts c (ls ++ [Lexeme.plain '$']) = .ok (numbers, lrest ++ [Lexeme.plain '$']) := by
  unfold readCounts at h ⊢
  split_ifs at h ⊢
  · cases h
    rfl
  · cases h
    rfl
  · cases h
    rfl
  · split at h
    next text after hbraced =>
      rw [braced_append_dollar hbraced]
      exact map_pair_append h _
    next => cases h

end Lexicolor.Pattern
