import Mathlib
import Lexicolor.Proofs.Json.Notation
import Lexicolor.Proofs.Json.Texts
import Lexicolor.Proofs.Text.Search

/-!
# Tokens and the texts that spell them

Reading a token takes a text that spells it, and a text that spells a token is
read as this token. Gaps are read as nothing.
-/

namespace Lexicolor.Json

variable {dialect : Dialect} {cs rest text : List Char} {c : Char} {token : Token}

/-! ## Gaps -/

theorem tokens_skip (hdialect : dialect = .relaxed) (h : skipComment cs = .ok rest) :
    tokens dialect ('/' :: cs) = tokens dialect rest := by
  rw [tokens, if_neg (by decide), if_pos ⟨rfl, hdialect⟩]
  split
  next rest' h' =>
    cases h.symm.trans h'
    rfl
  next h' => cases h.symm.trans h'

theorem tokens_skip_error {f : Fault} (hdialect : dialect = .relaxed)
    (h : skipComment cs = .error f) : tokens dialect ('/' :: cs) = [.badBlank f] := by
  rw [tokens, if_neg (by decide), if_pos ⟨rfl, hdialect⟩]
  split
  next h' => cases h.symm.trans h'
  next h' =>
    cases h.symm.trans h'
    rfl

theorem skipComment_line {body : List Char} (h : '\n' ∉ body) (rest : List Char) :
    skipComment ('/' :: (body ++ rest)) = .ok (rest.dropWhile (· ≠ '\n')) := by
  rw [skipComment, List.dropWhile_append_of_pos]
  intro c hc
  have hne : c ≠ '\n' := fun heq => h (heq ▸ hc)
  simpa using hne

/-- Between the marks of a block comment its end does not come early. -/
theorem not_isInfix_block {body : List Char} (hend : ¬['*', '/'] <:+: body)
    (hstart : body.head? ≠ some '/') : ¬['*', '/'] <:+: ('*' :: body) ++ ['*', '/'].dropLast := by
  intro hinfix
  rw [List.dropLast_cons_cons, List.dropLast_singleton, List.infix_concat_iff] at hinfix
  rcases hinfix with hsuffix | hinfix
  · obtain ⟨more, hmore⟩ := hsuffix
    have hsplit : (more ++ ['*']) ++ ['/'] = ('*' :: body) ++ ['*'] := by simpa using hmore
    cases (List.append_inj' hsplit rfl).2
  · rw [List.infix_cons_iff] at hinfix
    refine hinfix.elim ?_ hend
    intro hprefix
    obtain ⟨more, hmore⟩ := hprefix
    simp only [List.cons_append, List.cons.injEq, true_and] at hmore
    exact hstart (by rw [← hmore]; rfl)

theorem skipComment_block {body : List Char} (hend : ¬['*', '/'] <:+: body)
    (hstart : body.head? ≠ some '/') (rest : List Char) :
    skipComment ('*' :: (body ++ (['*', '/'] ++ rest))) = .ok rest := by
  rw [skipComment, ← List.cons_append,
    Text.cut?_append (List.cons_ne_nil _ _) (not_isInfix_block hend hstart)]

theorem Comment.tokens_append (h : Comment text) (hdialect : dialect = .relaxed)
    (rest : List Char) : tokens dialect (text ++ rest) = tokens dialect rest := by
  cases h with
  | line hbody =>
      rw [List.cons_append, List.cons_append, List.append_assoc, List.cons_append,
        tokens_skip hdialect (skipComment_line hbody _)]
      rw [List.singleton_append, List.dropWhile_cons_of_neg (by simp), tokens_blank rfl]
  | block hend hstart =>
      rw [List.cons_append, List.cons_append, List.append_assoc, List.cons_append,
        tokens_skip hdialect (skipComment_block hend hstart _)]
  | short => exact tokens_skip hdialect rfl

theorem Gap.tokens_append (h : Gap dialect cs) (rest : List Char) :
    tokens dialect (cs ++ rest) = tokens dialect rest := by
  induction h with
  | nil => rfl
  | blank hc _ ih => rw [List.cons_append, tokens_blank hc, ih]
  | comment hdialect htext _ ih =>
      rw [List.append_assoc, htext.tokens_append hdialect, ih]

theorem Tail.tokens_eq_nil (h : Tail dialect cs) : tokens dialect cs = [] := by
  have hnil : tokens dialect [] = [] := by rw [tokens]
  cases h with
  | gap h => rw [← List.append_nil cs, h.tokens_append, hnil]
  | lastLine hdialect h hbody =>
      have hskip := skipComment_line hbody []
      rw [List.append_nil] at hskip
      rw [h.tokens_append, tokens_skip hdialect hskip, List.dropWhile_nil, hnil]

theorem Gap.append {cs' : List Char} (h : Gap dialect cs) (h' : Gap dialect cs') :
    Gap dialect (cs ++ cs') := by
  induction h with
  | nil => exact h'
  | blank hc _ ih => exact ih.blank hc
  | comment hdialect htext _ ih =>
      rw [List.append_assoc]
      exact ih.comment hdialect htext

theorem comment_of_cut? {body before : List Char}
    (h : Text.cut? ['*', '/'] ('*' :: body) = some (before, rest)) :
    ∃ text, Comment text ∧ '/' :: '*' :: body = text ++ rest := by
  have hbody := Text.eq_append_of_cut? h
  have hbefore := Text.not_isInfix_of_cut? h (List.cons_ne_nil _ _)
  cases before with
  | nil => exact ⟨_, .short, by rw [hbody]; rfl⟩
  | cons c inner =>
      obtain rfl : c = '*' := by
        simp only [List.cons_append, List.cons.injEq] at hbody
        exact hbody.1.symm
      rw [List.infix_cons_iff, not_or] at hbefore
      refine ⟨_, .block hbefore.2 ?_, by rw [hbody]; simp⟩
      -- a slash right behind the star would have ended the comment
      intro hhead
      obtain ⟨more, rfl⟩ := List.head?_eq_some_iff.mp hhead
      exact hbefore.1 ⟨more, rfl⟩

/-- What is skipped as a comment is one, unless the text ends before its line does. -/
theorem comment_of_skipComment (h : skipComment cs = .ok rest) :
    (∃ body, '\n' ∉ body ∧ cs = '/' :: body) ∨
      ∃ text rest', Comment text ∧ '/' :: cs = text ++ rest' := by
  rw [skipComment.eq_def] at h
  split at h
  next body =>
    by_cases hfeed : '\n' ∈ body
    · obtain ⟨inner, rest', rfl, hinner⟩ := List.eq_append_cons_of_mem hfeed
      exact .inr ⟨_, rest', .line hinner, by simp⟩
    · exact .inl ⟨body, hfeed, rfl⟩
  next =>
    split at h
    next hcut =>
      obtain ⟨text, htext, hcs⟩ := comment_of_cut? hcut
      exact .inr ⟨text, _, htext, hcs⟩
    next => cases h
  next => cases h

/-! ## Numbers -/

/-- The text goes on with a digit, a point or an exponent, as a number in front of it would. -/
def GoesOn (rest : List Char) : Prop :=
  ∃ c, rest.head? = some c ∧ (c.isDigit ∨ c = '.' ∨ c = 'e' ∨ c = 'E')

theorem Digits.spanDigits_append {ds : List Char} (h : Digits ds)
    (hrest : ∀ c, rest.head? = some c → ¬c.isDigit) : spanDigits (ds ++ rest) = (ds, rest) := by
  rw [spanDigits, List.takeWhile_append_of_pos h.isDigit, List.dropWhile_append_of_pos h.isDigit]
  cases rest with
  | nil => simp
  | cons c rest =>
      have hc := hrest c rfl
      simp [hc]

theorem Digits.someDigits_append {ds : List Char} (h : Digits ds)
    (hrest : ∀ c, rest.head? = some c → ¬c.isDigit) :
    someDigits (ds ++ rest) = .ok (ds, rest) := by
  obtain ⟨c, ds', rfl⟩ := List.exists_cons_of_ne_nil h.ne_nil
  have hc : c.isDigit := h.isDigit c List.mem_cons_self
  rw [List.cons_append, someDigits, if_pos hc, ← List.cons_append, h.spanDigits_append hrest]

theorem digits_of_someDigits {ds : List Char} (h : someDigits cs = .ok (ds, rest)) :
    Digits ds ∧ cs = ds ++ rest := by
  rw [someDigits.eq_def] at h
  split at h
  next => cases h
  next c cs =>
    split at h
    next hc =>
      cases h
      refine ⟨⟨?_, fun d hd => List.mem_takeWhile_imp hd⟩, List.takeWhile_append_dropWhile.symm⟩
      rw [List.takeWhile_cons_of_pos hc]
      exact List.cons_ne_nil _ _
    next => cases h

theorem IntegerText.wholeDigits_append {whole : List Char} (h : IntegerText whole)
    (hrest : ∀ c, rest.head? = some c → ¬c.isDigit) :
    wholeDigits (whole ++ rest) = .ok (whole, rest) := by
  by_cases hzero : whole.head? = some '0'
  · rw [h.eq_zero hzero]
    cases rest with
    | nil => rfl
    | cons c rest =>
        have hc := hrest c rfl
        simp [wholeDigits, hc]
  · rw [wholeDigits.eq_def]
    split
    next c cs heq =>
      obtain ⟨d, ds, rfl⟩ := List.exists_cons_of_ne_nil h.digits.ne_nil
      rw [List.cons_append, List.cons.injEq] at heq
      exact absurd (congrArg some heq.1) hzero
    next => exact h.digits.someDigits_append hrest

theorem integerText_of_wholeDigits {whole : List Char} (h : wholeDigits cs = .ok (whole, rest)) :
    IntegerText whole ∧ cs = whole ++ rest := by
  rw [wholeDigits.eq_def] at h
  split at h
  next c cs =>
    split at h
    next => cases h
    next =>
      cases h
      exact ⟨⟨⟨List.cons_ne_nil _ _, by simp⟩, fun _ => rfl⟩, rfl⟩
  next cs hzero =>
    obtain ⟨hdigits, rfl⟩ := digits_of_someDigits h
    refine ⟨⟨hdigits, fun hhead => ?_⟩, rfl⟩
    obtain ⟨ds, rfl⟩ := List.head?_eq_some_iff.mp hhead
    -- a zero in front of more is taken by the case before
    cases ds with
    | nil => rfl
    | cons d ds => exact absurd rfl (hzero d (ds ++ rest))

theorem FractionText.fractionDigits_append {fraction : Option (List Char)}
    (h : FractionText fraction text)
    (hrest : ∀ c, rest.head? = some c → ¬c.isDigit ∧ c ≠ '.') :
    fractionDigits (text ++ rest) = .ok (fraction, rest) := by
  cases h with
  | absent =>
      rw [List.nil_append, fractionDigits.eq_def]
      split
      next cs => exact absurd rfl (hrest '.' rfl).2
      next => rfl
  | present hdigits =>
      rw [List.cons_append, fractionDigits, hdigits.someDigits_append fun c hc => (hrest c hc).1]
      rfl

theorem fractionText_of_fractionDigits {fraction : Option (List Char)}
    (h : fractionDigits cs = .ok (fraction, rest)) :
    ∃ text, FractionText fraction text ∧ cs = text ++ rest := by
  rw [fractionDigits.eq_def] at h
  split at h
  next cs =>
    cases hdigits : someDigits cs with
    | error f =>
        rw [hdigits] at h
        cases h
    | ok found =>
        obtain ⟨ds, rest'⟩ := found
        rw [hdigits] at h
        cases h
        obtain ⟨hds, rfl⟩ := digits_of_someDigits hdigits
        exact ⟨_, .present hds, rfl⟩
  next =>
    cases h
    exact ⟨[], .absent, rfl⟩

theorem SignText.exponentSign_append {negative : Bool} {sign ds : List Char}
    (h : SignText negative sign) (hds : Digits ds) :
    exponentSign (sign ++ (ds ++ rest)) = (negative, ds ++ rest) := by
  cases h with
  | unsigned =>
      obtain ⟨c, ds', rfl⟩ := List.exists_cons_of_ne_nil hds.ne_nil
      have hc : c.isDigit := hds.isDigit c List.mem_cons_self
      rw [List.nil_append, List.cons_append, exponentSign.eq_def]
      split
      next heq =>
        cases heq
        exact absurd hc (by decide)
      next heq =>
        cases heq
        exact absurd hc (by decide)
      next => rfl
  | plus => rfl
  | minus => rfl

theorem signText_of_exponentSign {negative : Bool} (h : exponentSign cs = (negative, rest)) :
    ∃ sign, SignText negative sign ∧ cs = sign ++ rest := by
  rw [exponentSign.eq_def] at h
  split at h
  next =>
    cases h
    exact ⟨_, .plus, rfl⟩
  next =>
    cases h
    exact ⟨_, .minus, rfl⟩
  next =>
    cases h
    exact ⟨_, .unsigned, rfl⟩

theorem ExponentText.exponentDigits_append {exponent : Option (Bool × List Char)}
    (h : ExponentText exponent text) (hrest : ¬GoesOn rest) :
    exponentDigits (text ++ rest) = .ok (exponent, rest) := by
  cases h with
  | absent =>
      cases rest with
      | nil => rfl
      | cons c rest =>
          have hc : ¬(c = 'e' ∨ c = 'E') := fun hc => hrest ⟨c, rfl, .inr (.inr hc)⟩
          rw [List.nil_append, exponentDigits, if_neg hc]
  | present he hsign hdigits =>
      have hstop : ∀ c, rest.head? = some c → ¬c.isDigit := fun c hc hdigit =>
        hrest ⟨c, hc, .inl hdigit⟩
      rw [List.cons_append, List.append_assoc, exponentDigits, if_pos he,
        hsign.exponentSign_append hdigits]
      simp only [hdigits.someDigits_append hstop]
      rfl

theorem exponentText_of_exponentDigits {exponent : Option (Bool × List Char)}
    (h : exponentDigits cs = .ok (exponent, rest)) :
    ∃ text, ExponentText exponent text ∧ cs = text ++ rest := by
  rw [exponentDigits.eq_def] at h
  split at h
  next c cs =>
    split at h
    next he =>
      obtain ⟨sign, hsign, hcs⟩ : ∃ sign, SignText (exponentSign cs).1 sign ∧
          cs = sign ++ (exponentSign cs).2 := signText_of_exponentSign rfl
      cases hdigits : someDigits (exponentSign cs).2 with
      | error f =>
          simp only [hdigits] at h
          cases h
      | ok found =>
          obtain ⟨ds, rest'⟩ := found
          simp only [hdigits] at h
          cases h
          obtain ⟨hds, hrest⟩ := digits_of_someDigits hdigits
          refine ⟨_, .present he hsign hds, ?_⟩
          rw [List.cons_append, List.append_assoc, ← hrest, ← hcs]
    next =>
      cases h
      exact ⟨[], .absent, rfl⟩
  next =>
    cases h
    exact ⟨[], .absent, rfl⟩

/-- Neither a fraction nor an exponent starts like the digits before it go on. -/
theorem FractionText.head?_append {fraction : Option (List Char)} (h : FractionText fraction text)
    {c : Char} (hc : (text ++ rest).head? = some c) : c = '.' ∨ rest.head? = some c := by
  cases h with
  | absent => exact .inr hc
  | present _ =>
      cases hc
      exact .inl rfl

theorem ExponentText.head?_append {exponent : Option (Bool × List Char)}
    (h : ExponentText exponent text) {c : Char} (hc : (text ++ rest).head? = some c) :
    (c = 'e' ∨ c = 'E') ∨ rest.head? = some c := by
  cases h with
  | absent => exact .inr hc
  | present he _ _ =>
      cases hc
      exact .inl he

/-- A number that stands in front of something else is read as a whole. -/
theorem Numeral.Spelled.readNumeral_append {n : Numeral} (h : n.Spelled text)
    (hrest : ¬GoesOn rest) : readNumeral (text ++ rest) = .ok (n, rest) := by
  obtain @⟨negative, whole, ftext, etext, fraction, exponent, hwhole, hfraction, hexponent⟩ := h
  -- each part is read up to its end, as nothing behind it could go on with it
  have hdigit : ∀ c, rest.head? = some c → ¬c.isDigit ∧ c ≠ '.' := fun c hc =>
    ⟨fun h => hrest ⟨c, hc, .inl h⟩, fun h => hrest ⟨c, hc, .inr (.inl h)⟩⟩
  have hafter : ∀ c, (etext ++ rest).head? = some c → ¬c.isDigit ∧ c ≠ '.' := by
    intro c hc
    rcases hexponent.head?_append hc with (rfl | rfl) | hc
    · decide
    · decide
    · exact hdigit c hc
  have hbehind : ∀ c, (ftext ++ (etext ++ rest)).head? = some c → ¬c.isDigit := by
    intro c hc
    rcases hfraction.head?_append hc with rfl | hc
    · decide
    · exact (hafter c hc).1
  have hsign : (((if negative then ['-'] else []) ++ (whole ++ (ftext ++ etext)) ++ rest).head? =
      some '-') = (negative = true) := by
    cases negative
    · obtain ⟨c, whole, rfl⟩ := List.exists_cons_of_ne_nil hwhole.digits.ne_nil
      have hc : c ≠ '-' := by
        rintro rfl
        exact absurd (hwhole.digits.isDigit _ List.mem_cons_self) (by decide)
      simpa using hc
    · simp
  have hstart : (if negative = true then
      ((if negative then ['-'] else []) ++ (whole ++ (ftext ++ etext)) ++ rest).tail
      else (if negative then ['-'] else []) ++ (whole ++ (ftext ++ etext)) ++ rest) =
      whole ++ (ftext ++ (etext ++ rest)) := by
    cases negative <;> simp
  simp only [readNumeral, hsign, hstart, hwhole.wholeDigits_append hbehind,
    hfraction.fractionDigits_append hafter, hexponent.exponentDigits_append hrest, bind,
    Except.bind, pure, Except.pure, Bool.decide_eq_true]

theorem spelled_of_readNumeral {n : Numeral} (h : readNumeral cs = .ok (n, rest)) :
    ∃ text, n.Spelled text ∧ cs = text ++ rest := by
  simp only [readNumeral, bind, Except.bind] at h
  split at h
  next => cases h
  next whole hwhole =>
    split at h
    next => cases h
    next fraction hfraction =>
      split at h
      next => cases h
      next exponent hexponent =>
        cases h
        obtain ⟨hinteger, hcs⟩ := integerText_of_wholeDigits hwhole
        obtain ⟨ftext, hftext, hmiddle⟩ := fractionText_of_fractionDigits hfraction
        obtain ⟨etext, hetext, hlast⟩ := exponentText_of_exponentDigits hexponent
        refine ⟨_, .mk hinteger hftext hetext, ?_⟩
        rw [hlast] at hmiddle
        rw [hmiddle] at hcs
        by_cases hsign : cs.head? = some '-'
        · obtain ⟨tail, rfl⟩ := List.head?_eq_some_iff.mp hsign
          simpa using hcs
        · simpa [hsign] using hcs

/-! ## Strings -/

theorem Piece.Spelled.readQuoted_append {piece : Piece} (h : piece.Spelled text)
    (cs : List Char) :
    readQuoted dialect (text ++ cs) = Quoted.cons piece (readQuoted dialect cs) := by
  cases h with
  | char hquote hback hcontrol => simp [readQuoted, hquote, hback, Nat.not_lt.mpr hcontrol]
  | @escape e c he =>
      have hu : e ≠ 'u' := by
        intro heq
        subst heq
        cases he
      have hx : e ≠ 'x' := by
        intro heq
        subst heq
        cases he
      simp [readQuoted, he, hu, hx]
  | unit hn => simp [readQuoted, hn]

theorem PiecesText.readQuoted_append {pieces : List Piece} {body : List Char}
    (h : PiecesText pieces body) (rest : List Char) :
    readQuoted dialect (body ++ '"' :: rest) = (⟨pieces, none⟩, rest) := by
  induction h with
  | nil => simp [readQuoted]
  | cons hpiece _ ih =>
      rw [List.append_assoc, hpiece.readQuoted_append, ih]
      rfl

/-- The literal is complete, and has no escape that must not be looked at. -/
structure Quoted.Fine (q : Quoted) : Prop where
  fault_eq : q.fault = none
  unread_notMem : Piece.unread ∉ q.pieces

theorem Quoted.Fine.of_cons {piece : Piece} {found : Quoted × List Char}
    (h : (Quoted.cons piece found).1.Fine) : found.1.Fine :=
  ⟨h.fault_eq, fun hmem => h.unread_notMem (List.mem_cons_of_mem piece hmem)⟩

theorem Quoted.Fine.spelled {q : Quoted} {body : List Char} (h : q.Fine)
    (hbody : PiecesText q.pieces body) : q.Spelled ('"' :: (body ++ ['"'])) := by
  obtain ⟨pieces, fault⟩ := q
  cases h.fault_eq
  exact .mk hbody

theorem piecesText_of_readQuoted (dialect : Dialect) (cs : List Char)
    (h : (readQuoted dialect cs).1.Fine) :
    ∃ body, PiecesText (readQuoted dialect cs).1.pieces body ∧
      cs = body ++ '"' :: (readQuoted dialect cs).2 := by
  have step {piece : Piece} {text cs : List Char} (hpiece : piece.Spelled text)
      (ih : ∃ body, PiecesText (readQuoted dialect cs).1.pieces body ∧
        cs = body ++ '"' :: (readQuoted dialect cs).2) :
      ∃ body, PiecesText (Quoted.cons piece (readQuoted dialect cs)).1.pieces body ∧
        text ++ cs = body ++ '"' :: (Quoted.cons piece (readQuoted dialect cs)).2 := by
    obtain ⟨body, hbody, hcs⟩ := ih
    refine ⟨text ++ body, .cons hpiece hbody, ?_⟩
    rw [List.append_assoc]
    exact congrArg (text ++ ·) hcs
  have hunread {found : Quoted × List Char} : ¬(Quoted.cons .unread found).1.Fine :=
    fun h => h.unread_notMem List.mem_cons_self
  fun_induction readQuoted dialect cs
  case case2 hn ih => exact step (.unit hn) (ih h.of_cons)
  case case5 => exact absurd h hunread
  case case9 he ih => exact step (.escape he) (ih h.of_cons)
  case case10 => exact absurd h hunread
  case case12 => exact ⟨[], .nil, rfl⟩
  case case15 hquote hback hcontrol ih =>
    exact step (.char hquote hback (Nat.not_lt.mp hcontrol)) (ih h.of_cons)
  -- whatever else is read has a fault
  all_goals cases h.fault_eq

theorem Quoted.Spelled.readQuoted_append (dialect : Dialect) {q : Quoted} (h : q.Spelled text) :
    ∃ body, text = '"' :: body ∧ ∀ rest, readQuoted dialect (body ++ rest) = (q, rest) := by
  cases h with
  | mk h =>
      refine ⟨_, rfl, fun rest => ?_⟩
      rw [List.append_assoc]
      exact h.readQuoted_append rest

/-! ## Tokens -/

/-- The text is the token, which has no fault. -/
def Token.Spelled : Token → List Char → Prop
  | .openArray, text => text = ['[']
  | .closeArray, text => text = [']']
  | .openObject, text => text = ['\x7b']
  | .closeObject, text => text = ['\x7d']
  | .comma, text => text = [',']
  | .colon, text => text = [':']
  | .null, text => text = ['n', 'u', 'l', 'l']
  | .bool true, text => text = ['t', 'r', 'u', 'e']
  | .bool false, text => text = ['f', 'a', 'l', 's', 'e']
  | .number n, text => n.Spelled text
  | .quoted q, text => q.Spelled text
  | .junk _, _ | .badNumber _, _ | .badBlank _, _ => False

theorem spelled_of_punctuation? (h : punctuation? c = some token) : token.Spelled [c] := by
  unfold punctuation? at h
  split_ifs at h with hc hc hc hc hc hc
  all_goals
    cases h
    rw [hc]
    rfl

theorem spelled_of_word? {word : List Char} (h : word? c = some (word, token)) :
    token.Spelled (c :: word) := by
  unfold word? at h
  split_ifs at h with hc hc hc
  all_goals
    cases h
    rw [hc]
    rfl

theorem readWord_append (word rest : List Char) : readWord word (word ++ rest) = .ok rest := by
  induction word with
  | nil => rw [readWord, List.nil_append]
  | cons c word ih => rw [List.cons_append, readWord, if_pos rfl, ih]

theorem eq_append_of_readWord {word : List Char} (h : readWord word cs = .ok rest) :
    cs = word ++ rest := by
  fun_induction readWord word cs with
  | case1 => cases h; rfl
  | case2 => cases h
  | case3 w word cs ih => rw [List.cons_append, ← ih h]
  | case4 => cases h

theorem tokens_word {word : List Char} (hc : c = 'n' ∨ c = 't' ∨ c = 'f')
    (h : word? c = some (word, token)) :
    tokens dialect (c :: word ++ rest) = token :: tokens dialect rest := by
  have hread : readToken dialect c (word ++ rest) = (token, some rest) := by
    have hmark : punctuation? c = none := by
      rcases hc with rfl | rfl | rfl <;> rfl
    rw [readToken, hmark]
    simp only [h, readWord_append]
  rcases hc with rfl | rfl | rfl <;> exact tokens_of_readToken rfl (by decide) hread

theorem Numeral.Spelled.exists_cons {n : Numeral} (h : n.Spelled text) :
    ∃ c cs, text = c :: cs ∧ (c.isDigit || c == '-') = true := by
  obtain @⟨negative, whole, _, _, _, _, hwhole, _, _⟩ := h
  obtain ⟨c, whole, rfl⟩ := List.exists_cons_of_ne_nil hwhole.digits.ne_nil
  cases negative with
  | true => exact ⟨'-', _, rfl, rfl⟩
  | false =>
      refine ⟨c, _, rfl, ?_⟩
      rw [hwhole.digits.isDigit c List.mem_cons_self]
      rfl

/-- What a number starts with is neither blank nor the start of anything else. -/
theorem number_start (h : (c.isDigit || c == '-') = true) :
    isBlank c = false ∧ c ≠ '/' ∧ c ≠ '"' ∧ punctuation? c = none ∧ word? c = none := by
  have hne (d : Char) (hd : (d.isDigit || d == '-') = false) : c ≠ d := by
    intro heq
    subst heq
    rw [h] at hd
    cases hd
  refine ⟨?_, hne '/' rfl, hne '"' rfl, ?_, ?_⟩
  · simp [isBlank, hne ' ' rfl, hne '\n' rfl, hne '\t' rfl, hne '\r' rfl]
  · simp [punctuation?, hne '[' rfl, hne ']' rfl, hne '\x7b' rfl, hne '\x7d' rfl, hne ',' rfl,
      hne ':' rfl]
  · simp [word?, hne 'n' rfl, hne 't' rfl, hne 'f' rfl]

theorem Numeral.Spelled.tokens_append {n : Numeral} (h : n.Spelled text) (hrest : ¬GoesOn rest) :
    tokens dialect (text ++ rest) = .number n :: tokens dialect rest := by
  have hread := h.readNumeral_append hrest
  obtain ⟨c, cs, rfl, hc⟩ := h.exists_cons
  obtain ⟨hblank, hslash, hquote, hmark, hword⟩ := number_start hc
  apply tokens_of_readToken hblank hslash
  show readToken dialect c (cs ++ rest) = _
  rw [List.cons_append] at hread
  rw [readToken, hmark]
  simp only [hword, if_neg hquote, if_pos hc, hread]

theorem Quoted.Spelled.tokens_append {q : Quoted} (h : q.Spelled text) (rest : List Char) :
    tokens dialect (text ++ rest) = .quoted q :: tokens dialect rest := by
  obtain ⟨body, rfl, hread⟩ := h.readQuoted_append dialect
  have hfault : q.fault = none := by
    cases h
    rfl
  apply tokens_of_readToken rfl (by decide)
  simp [readToken, punctuation?, word?, hread, hfault]

/-- The text of a token is read as the token, where the text behind it does not go on with it. -/
theorem Token.Spelled.tokens_append (h : token.Spelled text) (hrest : ¬GoesOn rest) :
    tokens dialect (text ++ rest) = token :: tokens dialect rest := by
  cases token with
  | openArray | closeArray | openObject | closeObject | comma | colon =>
      cases h
      exact tokens_punctuation rfl rest
  | null =>
      cases h
      exact tokens_word (.inl rfl) rfl
  | bool b =>
      cases b
      · cases h
        exact tokens_word (.inr (.inr rfl)) rfl
      · cases h
        exact tokens_word (.inr (.inl rfl)) rfl
  | number n => exact Numeral.Spelled.tokens_append h hrest
  | quoted q => exact Quoted.Spelled.tokens_append h rest
  | junk f | badNumber f | badBlank f => exact h.elim

/-- The token has no fault, and is no literal that must not be looked at. -/
def Token.Fine : Token → Prop
  | .quoted q => q.Fine
  | .junk _ | .badNumber _ | .badBlank _ => False
  | _ => True

/-- A token that more tokens may follow is read from its text, unless it is a literal that must not
be looked at. -/
theorem spelled_of_readToken (h : readToken dialect c cs = (token, some rest))
    (hfine : token.Fine) :
    ∃ text, token.Spelled text ∧ c :: cs = text ++ rest := by
  rw [readToken] at h
  split at h
  next hmark =>
    cases h
    exact ⟨[c], spelled_of_punctuation? hmark, rfl⟩
  next =>
    split at h
    next hword =>
      split at h
      next hread =>
        cases h
        refine ⟨_, spelled_of_word? hword, ?_⟩
        rw [List.cons_append, ← eq_append_of_readWord hread]
      next => cases h
    next =>
      split at h
      next hquote =>
        simp only [Prod.mk.injEq, Option.ite_none_left_eq_some, Option.some.injEq] at h
        obtain ⟨htoken, -, hrest⟩ := h
        subst htoken hrest
        obtain ⟨body, hbody, hcs⟩ := piecesText_of_readQuoted dialect cs hfine
        refine ⟨_, hfine.spelled hbody, ?_⟩
        rw [hquote, List.cons_append, List.append_assoc]
        exact congrArg ('"' :: ·) hcs
      next =>
        split at h
        next hnumber =>
          split at h
          next hread =>
            cases h
            exact spelled_of_readNumeral hread
          next => cases h
        next => cases h

/-- A token that no more tokens may follow has a fault. -/
theorem not_fine_of_readToken (h : readToken dialect c cs = (token, none)) : ¬token.Fine := by
  rw [readToken] at h
  split at h
  next => cases h
  next =>
    split at h
    next =>
      split at h
      next => cases h
      next =>
        cases h
        exact id
    next =>
      split at h
      next =>
        simp only [Prod.mk.injEq, ite_eq_left_iff, reduceCtorEq, imp_false, not_not] at h
        obtain ⟨rfl, hfault⟩ := h
        intro hfine
        rw [hfine.fault_eq] at hfault
        cases hfault
      next =>
        split at h
        next =>
          split at h
          next => cases h
          next =>
            cases h
            exact id
        next =>
          cases h
          exact id

/-! ## From a text to its tokens -/

theorem Token.Spelled.ne_nil (h : token.Spelled text) : text ≠ [] := by
  cases token with
  | bool b =>
      cases b
      · cases h
        exact List.cons_ne_nil _ _
      · cases h
        exact List.cons_ne_nil _ _
  | number n =>
      obtain ⟨c, cs, rfl, -⟩ := Numeral.Spelled.exists_cons h
      exact List.cons_ne_nil _ _
  | junk | badNumber | badBlank => exact h.elim
  | _ =>
      cases h
      exact List.cons_ne_nil _ _

theorem Comment.ne_nil (h : Comment text) : text ≠ [] := by
  cases h <;> exact List.cons_ne_nil _ _

/-- A text as it is cut into tokens: behind a gap or a token it goes on, and it ends where no token
is left or where the next one has a fault. -/
inductive Scans (dialect : Dialect) : List Char → Prop
  | tail {cs : List Char} (h : Tail dialect cs) : Scans dialect cs
  | gap {gap rest : List Char} (hgap : Gap dialect gap) (h : Scans dialect rest) :
      Scans dialect (gap ++ rest)
  | token {token : Token} {text rest : List Char} (htoken : token.Spelled text)
      (heq : tokens dialect (text ++ rest) = token :: tokens dialect rest)
      (h : Scans dialect rest) : Scans dialect (text ++ rest)
  | fault {token : Token} {cs : List Char} {ts : List Token} (htoken : ¬token.Fine)
      (heq : tokens dialect cs = token :: ts) : Scans dialect cs

/-- What stands behind a gap is read as a token. -/
theorem tokens_eq_readToken (hblank : ¬isBlank c) (hslash : ¬(c = '/' ∧ dialect = .relaxed)) :
    tokens dialect (c :: cs) = (readToken dialect c cs).1 ::
      ((readToken dialect c cs).2.map (tokens dialect)).getD [] := by
  rw [tokens, if_neg hblank, if_neg hslash]
  split
  next h => rw [h, Option.map_some, Option.getD_some]
  next h => rw [h, Option.map_none, Option.getD_none]

/-- Every text is cut into tokens. -/
theorem scans (dialect : Dialect) (cs : List Char) : Scans dialect cs := by
  induction hlength : cs.length using Nat.strong_induction_on generalizing cs with
  | _ n ih =>
    subst hlength
    -- whatever is read off the front, the rest is shorter
    have behind {text rest : List Char} (hne : text ≠ []) (hcs : cs = text ++ rest) :
        Scans dialect rest := by
      refine ih rest.length ?_ rest rfl
      rw [hcs, List.length_append]
      exact Nat.lt_add_of_pos_left (List.length_pos_of_ne_nil hne)
    cases cs with
    | nil => exact .tail (.gap .nil)
    | cons c cs =>
        by_cases hblank : isBlank c
        · exact .gap (.blank hblank .nil) (behind (List.cons_ne_nil c []) rfl)
        by_cases hslash : c = '/' ∧ dialect = .relaxed
        · obtain ⟨rfl, hdialect⟩ := hslash
          cases hskip : skipComment cs with
          | error f => exact .fault id (tokens_skip_error hdialect hskip)
          | ok rest =>
              rcases comment_of_skipComment hskip with
                ⟨body, hbody, rfl⟩ | ⟨text, rest', htext, hcs⟩
              · exact .tail (.lastLine hdialect .nil hbody)
              · have hgap : Gap dialect text := by
                  simpa using Gap.comment hdialect htext .nil
                rw [hcs]
                exact .gap hgap (behind htext.ne_nil hcs)
        · have htokens : tokens dialect (c :: cs) = _ := tokens_eq_readToken hblank hslash
          cases hread : readToken dialect c cs with
          | mk token rest? =>
              rw [hread] at htokens
              by_cases hfine : token.Fine
              · cases rest? with
                | none => exact absurd hfine (not_fine_of_readToken hread)
                | some rest =>
                    obtain ⟨text, htext, hcs⟩ := spelled_of_readToken hread hfine
                    rw [hcs] at htokens ⊢
                    exact .token htext htokens (behind htext.ne_nil hcs)
              · exact .fault hfine htokens

end Lexicolor.Json
