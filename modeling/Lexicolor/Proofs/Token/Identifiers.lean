import Mathlib
import Lexicolor.Proofs.Pattern.Notation
import Lexicolor.Proofs.Pattern.Preference
import Lexicolor.Token.Basic

/-!
# The identifiers of a line

The identifiers of a line are what a search with one pattern finds in it, from
left to right and apart from each other.
-/

namespace Lexicolor.Token

open Pattern Text

/-! ## The pattern of identifiers -/

/-- The characters that names start with. -/
def initials : List Span := [('A', 'Z'), ('a', 'z'), ('_', '_')]

def wordParts : List Pattern :=
  [one (Span.union initials).value, repeated (one (Span.union Span.identChars).value) 0 none true]

/-- Double brackets, directive names with their hash, and names. -/
def identifier : Pattern := altAll [
  seqAll [.char '[', .char '['],
  seqAll [.char ']', .char ']'],
  seqAll (.char '#' :: wordParts),
  seqAll wordParts]

/-- The pattern as it is written. -/
def identifierNotation : String := "\\[\\[|\\]\\]|#[A-Za-z_][A-Za-z0-9_]*|[A-Za-z_][A-Za-z0-9_]*"

/-- The lexemes of the characters of a name. -/
def wordLexemes : List Lexeme :=
  .plain '[' :: ((Span.textAll initials).map .plain ++
    .plain '[' :: ((Span.textAll Span.identChars).map .plain ++ [.plain '*']))

theorem readGroup_word {g : OpenGroup} {outer : List OpenGroup} {names : List (List Char)}
    {ls : List Lexeme} (hflags : g.flags = {}) (h : ls.head? ≠ some (.plain '?')) :
    readGroup g outer names (wordLexemes ++ ls) =
      readGroup ((g.push (one (Span.union initials).value) 2).push
        (repeated (one (Span.union Span.identChars).value) 0 none true) 3) outer names ls := by
  have hset {g : OpenGroup} {spans : List Span} {ls : List Lexeme} (hg : g.flags = {})
      (hne : spans ≠ []) (hspans : ∀ span ∈ spans, span.Ordinary) :
      readSet g.flags (openSet ((Span.textAll spans).map .plain ++ ls)).1 []
        (openSet ((Span.textAll spans).map .plain ++ ls)).2 = .ok (Span.union spans, ls) := by
    rw [hg]
    exact readSet_openSet_spans hne hspans
  rw [wordLexemes, List.cons_append, List.append_assoc, List.cons_append, List.append_assoc,
    readGroup_set (hset hflags (by decide) (by decide)),
    readGroup_set (hset (g := g.push _ _) hflags (by decide) (by decide)),
    List.singleton_append, readGroup_repeat (g := g.push _ _) (.inl rfl) rfl hflags h]
  rfl

theorem read_identifierNotation : read identifierNotation.toList = .ok identifier := by
  have hlexs : lexemes identifierNotation.toList = .ok
      (.literal '[' :: .literal '[' :: .plain '|' :: .literal ']' :: .literal ']' ::
        .plain '|' :: .plain '#' :: (wordLexemes ++ .plain '|' :: (wordLexemes ++ []))) := by
    cbv
  have hgroup : ∃ g, readGroup (.start {}) [] [] (.literal '[' :: .literal '[' :: .plain '|' ::
      .literal ']' :: .literal ']' :: .plain '|' :: .plain '#' ::
        (wordLexemes ++ .plain '|' :: (wordLexemes ++ []))) = .ok g ∧ g.close = ⟨identifier, 5⟩ := by
    refine ⟨?_, ?_, ?_⟩
    rotate_left
    · rw [readGroup_literal, readGroup_literal, readGroup_bar, readGroup_literal,
        readGroup_literal, readGroup_bar, readGroup_plain (by decide),
        readGroup_word rfl (by simp), readGroup_bar, readGroup_word rfl (by simp), readGroup]
      rfl
    · rfl
  obtain ⟨g, hgroup, hclose⟩ := hgroup
  have hopens : Opens _ g := ⟨_, hlexs, hgroup⟩
  rw [hopens.read_eq (hclose ▸ (by decide : 5 ≤ maxLevels)), hclose]

/-! ## The preferred match -/

variable {s : Spot} {c : Char} {line : List Char} {column i n : Nat} {name : List Char}

theorem holds_initials (c : Char) : (Span.union initials).value.holds c = isIdentStart c := by
  rw [holds_union, initials]
  simp only [List.any_cons, List.any_nil, Span.le_and_le]
  simp [isIdentStart, Char.isAlpha, Char.isUpper, Char.isLower, Char.le_def, Bool.or_assoc,
    Bool.beq_eq_decide_eq]

theorem holds_letters (c : Char) :
    (Span.union Span.identChars).value.holds c = isIdentChar c :=
  holds_union.trans (Span.any_identChars c)

theorem matchAt?_pair : (seqAll [.char c, .char c]).matchAt? s =
    if s.rest.head? = some c ∧ s.rest[1]? = some c then some (s.advance 2) else none := by
  show (seq (.char c) (seq (.char c) empty)).matchAt? s = _
  rw [matchAt?_seq_char, matchAt?_seq_char, ite_and]
  simp [Spot.advance_advance, matchAt?, ends]

theorem matchAt?_word : (seqAll wordParts).matchAt? s =
    if s.rest.head?.any isIdentStart then
      some (s.advance (1 + (s.rest.tail.takeWhile isIdentChar).length))
    else none := by
  show (seq (one _) (seq (repeated (one _) 0 none true) empty)).matchAt? s = _
  rw [matchAt?_seq_one, matchAt?_seq_empty, matchAt?_run, Spot.advance_advance, Spot.rest_advance,
    List.drop_one, funext holds_initials, funext holds_letters]

theorem not_pair {d : Char} {rest : List Char} (h : ∀ tail, c = d → rest = d :: tail → False) :
    ¬((c :: rest).head? = some d ∧ (c :: rest)[1]? = some d) := by
  rintro ⟨hc, hd⟩
  cases rest with
  | nil => cases hd
  | cons x rest => exact h rest (Option.some.inj hc) (congrArg (· :: rest) (Option.some.inj hd))

/-- The preferred match of the pattern at a place is the identifier there. -/
theorem matchAt?_identifier (s : Spot) : identifier.matchAt? s =
    if identifierLength s.rest = 0 then none else some (s.advance (identifierLength s.rest)) := by
  have halt : identifier.matchAt? s = ((seqAll [.char '[', .char '[']).matchAt? s).or
      (((seqAll [.char ']', .char ']']).matchAt? s).or
        (((seqAll (.char '#' :: wordParts)).matchAt? s).or ((seqAll wordParts).matchAt? s))) := by
    show (alt _ (alt _ (alt _ (seqAll wordParts)))).matchAt? s = _
    rw [matchAt?_alt, matchAt?_alt, matchAt?_alt]
  have hhash : (seqAll (.char '#' :: wordParts)).matchAt? s =
      if s.rest.head? = some '#' then (seqAll wordParts).matchAt? (s.advance 1) else none :=
    matchAt?_seq_char
  rw [halt, matchAt?_pair, matchAt?_pair, hhash, matchAt?_word, matchAt?_word, Spot.advance_advance]
  clear halt hhash
  obtain ⟨last, rest⟩ := s
  -- no alternative but the last can start with a letter, and that one only with a letter
  have hstart : isIdentStart '#' = false := by decide
  fun_cases identifierLength rest
  case case1 rest => simp
  case case2 rest => simp
  case case3 c rest hc =>
    rw [← Nat.add_assoc]
    simp [hc]
  case case4 c rest hc => simp [hc, hstart]
  case case5 c rest hopen hclose _ hc =>
    have hne : c ≠ '#' := fun heq => Bool.false_ne_true (hstart.symm.trans (heq ▸ hc))
    rw [if_neg (not_pair hopen), if_neg (not_pair hclose)]
    simp [hc, hne]
  case case6 c rest hopen hclose hhash hc =>
    have hempty (heq : c = '#') : rest = [] := by
      cases rest with
      | nil => rfl
      | cons d rest => exact (hhash d rest heq rfl).elim
    rw [if_neg (not_pair hopen), if_neg (not_pair hclose)]
    by_cases heq : c = '#' <;> simp [hc, heq, hempty, hstart]
  case case7 => simp

theorem identifierLength_le (cs : List Char) : identifierLength cs ≤ cs.length := by
  have hrun (rest : List Char) : (rest.takeWhile isIdentChar).length ≤ rest.length :=
    (List.takeWhile_sublist _).length_le
  fun_cases identifierLength cs <;> grind

/-! ## The search -/

theorem matchAt?_eq_none (h : identifierLength (line.drop column) = 0) :
    identifier.matchAt? (.within line column) = none := by
  rw [matchAt?_identifier, Spot.rest_within, if_pos h]

theorem leftmost_identifierLength (h : identifierLength (line.drop column) ≠ 0) :
    identifier.Leftmost line column column (identifierLength (line.drop column)) := by
  refine ⟨Nat.le_refl _, ⟨?_, ?_⟩, fun j hj hlt => absurd hlt (Nat.not_lt.mpr hj)⟩
  · have hle := identifierLength_le (line.drop column)
    rw [List.length_drop] at hle
    omega
  · rw [matchAt?_identifier, Spot.rest_within, if_neg h, Spot.advance_within]

theorem not_found_of_drop_eq_nil (h : line.drop column = []) :
    ¬identifier.Found line column i n := by
  intro hfound
  have hleft : ∃ j m, identifier.Leftmost line column j m := by
    cases hfound with
    | leftmost h => exact ⟨_, _, h⟩
    | behind h _ => exact ⟨_, _, h⟩
  obtain ⟨j, m, hleft⟩ := hleft
  have hrest : line.drop j = [] :=
    List.drop_eq_nil_of_le ((List.drop_eq_nil_iff.mp h).trans hleft.start_le)
  have hnone : identifier.matchAt? (.within line j) = none :=
    matchAt?_eq_none (by rw [hrest]; rfl)
  rw [hleft.matchesAt.2] at hnone
  cases hnone

/-- The identifiers of the rest of a line are what the search finds there. -/
theorem mem_identifiers {cs : List Char} (hcs : cs = line.drop column) :
    (i, name) ∈ identifiers column cs ↔
      identifier.Found line column i name.length ∧ name = (line.drop i).take name.length := by
  -- the characters that are left are those of the line from the column on, where the search stands
  fun_induction identifiers column cs
  case case1 column =>
    exact iff_of_false List.not_mem_nil fun h => not_found_of_drop_eq_nil hcs.symm h.1
  case case2 column c rest n hn ih =>
    have hrest : rest = line.drop (column + 1) := by
      rw [← List.drop_drop, ← hcs, List.drop_one, List.tail_cons]
    have hnone : identifier.matchAt? (.within line column) = none :=
      matchAt?_eq_none (by rw [← hcs]; exact hn)
    rw [ih hrest, ← found_succ_iff hnone]
  case case3 column c rest n hn ih =>
    have hleft : identifier.Leftmost line column column (identifierLength (c :: rest)) := by
      have hne : identifierLength (c :: rest) ≠ 0 := hn
      rw [hcs] at hne ⊢
      exact leftmost_identifierLength hne
    have hrest : (c :: rest).drop n = line.drop (column + n) := by rw [hcs, List.drop_drop]
    have htake : ((c :: rest).take n).length = n :=
      List.length_take_of_le (identifierLength_le _)
    rw [List.mem_cons, ih hrest, hleft.found_iff, or_and_right, Prod.mk.injEq]
    refine or_congr_left ?_
    constructor
    · rintro ⟨rfl, rfl⟩
      exact ⟨⟨rfl, htake⟩, by rw [htake, hcs]⟩
    · rintro ⟨⟨rfl, hlength⟩, hname⟩
      rw [hlength, ← hcs] at hname
      exact ⟨rfl, hname⟩

/-- An identifier is not empty and does not leave the text. -/
theorem bounds_of_mem_identifiers {cs : List Char} (h : (i, name) ∈ identifiers column cs) :
    column ≤ i ∧ 0 < name.length ∧ i + name.length ≤ column + cs.length := by
  fun_induction identifiers column cs
  case case1 => cases h
  case case2 ih =>
    have hbounds := ih h
    rw [List.length_cons]
    omega
  case case3 column c rest n hn ih =>
    have hle : n ≤ (c :: rest).length := identifierLength_le _
    rcases List.mem_cons.mp h with heq | h
    · cases heq
      rw [List.length_take_of_le hle]
      omega
    · have hbounds := ih h
      rw [List.length_drop] at hbounds
      omega

/-- Identifiers stand apart from each other, in order. -/
theorem pairwise_identifiers (column : Nat) (cs : List Char) :
    (identifiers column cs).Pairwise fun a b => a.1 < b.1 ∧ a.1 + a.2.length ≤ b.1 := by
  fun_induction identifiers column cs
  case case1 => exact List.Pairwise.nil
  case case2 ih => exact ih
  case case3 column c rest n hn ih =>
    refine List.pairwise_cons.mpr ⟨fun ⟨i, name⟩ hmem => ?_, ih⟩
    have hle := (bounds_of_mem_identifiers hmem).1
    rw [List.length_take_of_le (identifierLength_le _)]
    exact ⟨Nat.lt_of_lt_of_le (Nat.lt_add_of_pos_right (Nat.pos_of_ne_zero hn)) hle, hle⟩

/-! ## Characters between identifiers -/

/-- The character belongs to no identifier. -/
structure Separates (c : Char) : Prop where
  notIdent : isIdentChar c = false
  notOpen : c ≠ '['
  notClose : c ≠ ']'
  notHash : c ≠ '#'

theorem Separates.notStart (h : Separates c) : isIdentStart c = false := by
  have hident := h.notIdent
  simp only [isIdentChar, Char.isAlphanum, Bool.or_eq_false_iff] at hident
  simp [isIdentStart, hident.1.1, hident.2]

theorem Separates.identifierLength_cons (h : Separates c) (cs : List Char) :
    identifierLength (c :: cs) = 0 := by
  rw [identifierLength]
  · simp [h.notStart]
  · exact fun _ heq => (h.notOpen heq).elim
  · exact fun _ heq => (h.notClose heq).elim
  · exact fun _ _ heq => (h.notHash heq).elim

theorem Separates.takeWhile_append (h : Separates c) (cs cs' : List Char) :
    (cs ++ c :: cs').takeWhile isIdentChar = cs.takeWhile isIdentChar := by
  induction cs with
  | nil => simp [h.notIdent]
  | cons d cs ih => rw [List.cons_append, List.takeWhile_cons, List.takeWhile_cons, ih]

theorem Separates.not_append_eq {cs cs' : List Char} {d : Char} (h : c ≠ d)
    (hcs : ∀ tail, cs ≠ d :: tail) (tail : List Char) : cs ++ c :: cs' ≠ d :: tail := by
  cases cs with
  | nil => exact fun heq => h (List.cons.inj heq).1
  | cons e cs => exact fun heq => hcs cs (congrArg (· :: cs) (List.cons.inj heq).1)

/-- No clause but the last looks beyond the first character, and the separator fits none of them. -/
theorem Separates.identifierLength_cons_append {d : Char} {cs : List Char} (h : Separates c)
    (hopen : ∀ tail, d = '[' → cs ≠ '[' :: tail) (hclose : ∀ tail, d = ']' → cs ≠ ']' :: tail)
    (hhash : ∀ e tail, d = '#' → cs ≠ e :: tail) (cs' : List Char) :
    identifierLength (d :: (cs ++ c :: cs')) =
      if isIdentStart d then 1 + (cs.takeWhile isIdentChar).length else 0 := by
  by_cases hd : d = '#'
  · have hnil : cs = [] := List.eq_nil_iff_forall_not_mem.mpr fun e he => by
      obtain ⟨e', tail, heq⟩ := List.exists_cons_of_ne_nil (List.ne_nil_of_mem he)
      exact hhash e' tail hd heq
    subst hd hnil
    simp [identifierLength, h.notStart, show isIdentStart '#' = false by decide]
  · rw [identifierLength, h.takeWhile_append]
    · exact fun tail heq => not_append_eq h.notOpen (fun tail => hopen tail heq) tail
    · exact fun tail heq => not_append_eq h.notClose (fun tail => hclose tail heq) tail
    · exact fun _ _ heq => (hd heq).elim

theorem Separates.identifierLength_append {cs : List Char} (h : Separates c) (hcs : cs ≠ [])
    (cs' : List Char) : identifierLength (cs ++ c :: cs') = identifierLength cs := by
  fun_cases identifierLength cs
  case case1 => rfl
  case case2 => rfl
  case case3 d cs hd => simp [identifierLength, hd, h.takeWhile_append]
  case case4 d cs hd => simp [identifierLength, hd]
  case case5 d cs hopen hclose hhash hd =>
    rw [List.cons_append, h.identifierLength_cons_append hopen hclose hhash, if_pos hd]
  case case6 d cs hopen hclose hhash hd =>
    rw [List.cons_append, h.identifierLength_cons_append hopen hclose hhash, if_neg hd]
  case case7 => exact (hcs rfl).elim

/-- What stands before and behind a separator is searched apart. -/
theorem Separates.identifiers_append (h : Separates c) (column : Nat) (cs cs' : List Char) :
    identifiers column (cs ++ c :: cs') =
      identifiers column cs ++ identifiers (column + cs.length + 1) cs' := by
  fun_induction identifiers column cs
  case case1 column =>
    rw [List.nil_append, identifiers]
    simp [h.identifierLength_cons]
  case case2 column d rest n hn ih =>
    rw [List.cons_append, identifiers, ← List.cons_append, h.identifierLength_append (by simp)]
    rw [if_pos hn, ih]
    simp [Nat.add_assoc, Nat.add_comm 1]
  case case3 column d rest n hn ih =>
    have hle : n ≤ (d :: rest).length := identifierLength_le _
    rw [List.cons_append, identifiers, ← List.cons_append, h.identifierLength_append (by simp)]
    rw [if_neg hn, List.take_append_of_le_length hle, List.drop_append_of_le_length hle, ih,
      List.length_drop, List.cons_append]
    congr 4
    omega

theorem identifiers_add (column n : Nat) (cs : List Char) :
    identifiers (column + n) cs =
      (identifiers column cs).map fun found => (found.1 + n, found.2) := by
  fun_induction identifiers column cs
  case case1 => rw [identifiers, List.map_nil]
  case case2 column c rest m hm ih =>
    rw [identifiers, ← ih, Nat.add_right_comm]
    exact if_pos hm
  case case3 column c rest m hm ih =>
    rw [identifiers, List.map_cons, ← ih, Nat.add_right_comm column m n]
    exact if_neg hm

end Lexicolor.Token
