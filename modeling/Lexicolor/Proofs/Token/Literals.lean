import Mathlib
import Lexicolor.Proofs.Classification
import Lexicolor.Proofs.Token.Scan
import Lexicolor.Proofs.Token.Targets
import Lexicolor.Proofs.Token.Tokens

/-!
# Literals and the tokens around them

The content of a literal is excluded, but it is read for comments and brackets
like all else. It makes a difference for the tokens around the literal just where
this reading stands at another point behind it.
-/

namespace Lexicolor.Token

open Text

variable {head u v c cs : List Char} {ls rest : List (List Char)} {line : List Char}
variable {i n start length : Nat} {found : Nat × List Char} {mask : Mask}

/-! ## Identifiers that show -/

/-- The identifiers of a text outside the marked characters. -/
def shownIn (mask : Mask) (cs : List Char) : List (Nat × List Char) :=
  (identifiers 0 cs).filter fun found => !touches mask found.1 found.2.length

/-- The identifiers of a line outside its excluded characters. -/
def shownOn (inBlock : Bool) (line : List Char) : List (Nat × List Char) :=
  shownIn (excluded inBlock line).1 line

/-- The identifier stands on line `i` outside the excluded characters. -/
def Shows (ls : List (List Char)) (i : Nat) (found : Nat × List Char) : Prop :=
  ∃ line, ls[i]? = some line ∧ found ∈ shownOn (blockAfter false (ls.take i)) line

theorem mem_ofText_iff_shows {table : ScopeTable} {text : String} {token : Token} :
    token ∈ ofText table text ↔ ∃ found, Shows (lines text.toList) token.line found ∧
      table.classify (String.ofList found.2) = some token.scope ∧
      kindOf? token.scope table.legend = some token.kind ∧
      token.column = found.1 ∧ token.length = found.2.length := by
  rw [ofText, mem_ofLines]
  constructor
  · rintro ⟨i, line, found, hline, hfound, htoken⟩
    obtain ⟨htouches, hclassify, hkind, hi, hcolumn, hlength⟩ := ofIdentifier?_eq_some_iff.mp htoken
    rw [Nat.zero_add] at hi
    refine ⟨found, ⟨line, hi ▸ hline, List.mem_filter.mpr ⟨hfound, ?_⟩⟩, hclassify, hkind, hcolumn,
      hlength⟩
    rw [hi, htouches]
    rfl
  · rintro ⟨found, ⟨line, hline, hfound⟩, hclassify, hkind, hcolumn, hlength⟩
    obtain ⟨hfound, htouches⟩ := List.mem_filter.mp hfound
    refine ⟨token.line, line, found, hline, hfound, ofIdentifier?_eq_some_iff.mpr ?_⟩
    exact ⟨by simpa using htouches, hclassify, hkind, (Nat.zero_add _).symm, hcolumn, hlength⟩

/-- Where the same identifiers show, the tokens are the same. -/
theorem ofText_eq_of_shows {text text' : String} (h : ∀ i found,
    Shows (lines text.toList) i found ↔ Shows (lines text'.toList) i found) (table : ScopeTable) :
    ofText table text = ofText table text' := by
  have hirrefl : Std.Irrefl Before := ⟨fun token h => by
    rcases h with hlt | ⟨-, hlt, -⟩ <;> exact Nat.lt_irrefl _ hlt⟩
  have hantisymm : Std.Antisymm Before := ⟨fun a b hab hba => by
    rcases hab with _ | ⟨_, _, _⟩ <;> rcases hba with _ | ⟨_, _, _⟩ <;> omega⟩
  refine List.Pairwise.eq_of_mem_iff pairwise_ofLines pairwise_ofLines fun {token} => ?_
  show token ∈ ofText table text ↔ token ∈ ofText table text'
  simp only [mem_ofText_iff_shows, h]

/-- A table that knows one identifier. -/
def keywordTable (name : String) : ScopeTable := ⟨⟨[(name, "keyword")], by simp⟩, .empty, ["keyword"]⟩

theorem classify_keywordTable (name other : String) :
    (keywordTable name).classify other = if other = name then some "keyword" else none := by
  have hkeyword : (keywordTable name).keywords.get? other =
      if name = other then some "keyword" else none := rfl
  apply ScopeTable.Decides.classify_eq
  by_cases hname : other = name
  · rw [if_pos hname]
    rw [if_pos hname.symm] at hkeyword
    exact .keyword hkeyword (by decide)
  · rw [if_neg hname]
    rw [if_neg (Ne.symm hname)] at hkeyword
    refine .unknown (fun scope hscope => ?_) fun head entry hfits => ?_
    · rw [hkeyword] at hscope
      cases hscope
    · cases hfits.mem

/-- The tokens of all tables tell which identifiers show. -/
theorem shows_of_ofText_eq {text text' : String}
    (h : ∀ table, ofText table text = ofText table text')
    (hshows : Shows (lines text.toList) i found) : Shows (lines text'.toList) i found := by
  have hmem : (⟨i, found.1, found.2.length, "keyword", 0⟩ : Token) ∈
      ofText (keywordTable (String.ofList found.2)) text :=
    mem_ofText_iff_shows.mpr
      ⟨found, hshows, by rw [classify_keywordTable, if_pos rfl], rfl, rfl, rfl⟩
  rw [h, mem_ofText_iff_shows] at hmem
  obtain ⟨other, hother, hclassify, -, hcolumn, -⟩ := hmem
  rw [classify_keywordTable] at hclassify
  split at hclassify
  next heq =>
    have hfound : found = other := Prod.ext hcolumn (String.ofList_inj.mp heq).symm
    exact hfound ▸ hother
  next => cases hclassify

theorem shows_iff_of_ofText_eq {text text' : String}
    (h : ∀ table, ofText table text = ofText table text') (i : Nat) (found : Nat × List Char) :
    Shows (lines text.toList) i found ↔ Shows (lines text'.toList) i found :=
  ⟨shows_of_ofText_eq h, shows_of_ofText_eq fun table => (h table).symm⟩

/-! ## A line with a literal -/

/-- No literal and no comment begins in the text. -/
structure Plain (cs : List Char) : Prop where
  quote : '"' ∉ cs
  apostrophe : '\'' ∉ cs
  slash : '/' ∉ cs

/-- The text can stand in a literal as it is. -/
structure Content (cs : List Char) : Prop where
  quote : '"' ∉ cs
  backslash : '\\' ∉ cs
  feed : '\n' ∉ cs

theorem Plain.of_append {cs' : List Char} (h : Plain (cs ++ cs')) : Plain cs ∧ Plain cs' := by
  obtain ⟨hquote, hapostrophe, hslash⟩ := h
  rw [List.mem_append, not_or] at hquote hapostrophe hslash
  exact ⟨⟨hquote.1, hapostrophe.1, hslash.1⟩, ⟨hquote.2, hapostrophe.2, hslash.2⟩⟩

theorem scan_append_of_slash (h : '/' ∉ cs) (rest : List Char) :
    scan .code (cs ++ rest) = prepend (List.replicate cs.length false) (scan .code rest) := by
  induction cs with
  | nil => rfl
  | cons c cs ih =>
      obtain ⟨hc, hcs⟩ := not_or.mp (mt List.mem_cons.mpr h)
      rw [List.cons_append, scan, ih hcs, prepend_prepend]
      · rfl
      · exact fun _ heq => (hc heq.symm).elim
      · exact fun _ heq => (hc heq.symm).elim

theorem standsOff_quote (cs : List Char) : StandsOff ('"' :: cs) := by
  rintro c ⟨⟩
  decide

theorem scan_quote (mode : Mode) (cs : List Char) :
    scan mode ('"' :: cs) = prepend [decide (mode ≠ .code)] (scan mode cs) := by
  cases mode <;> rw [scan] <;> simp

/-- The quotes and the content are read like all else. -/
theorem exists_scan_literal (hhead : '/' ∉ head) (u c : List Char) :
    ∃ marks : Mask, marks.length = u.length + 2 ∧
      scan .code (head ++ '"' :: (u ++ '"' :: c)) =
        prepend (List.replicate head.length false ++ marks) (scan (scan .code u).2 c) := by
  refine ⟨false :: ((scan .code u).1 ++ [decide ((scan .code u).2 ≠ .code)]), by simp, ?_⟩
  rw [scan_append_of_slash hhead, scan_quote, scan_append (standsOff_quote c), scan_quote,
    prepend_prepend, prepend_prepend, prepend_prepend]
  simp

theorem literalMask_plain (hquote : '"' ∉ head) (hapostrophe : '\'' ∉ head) (rest : List Char) :
    literalMask (head ++ rest) = List.replicate head.length false ++ literalMask rest := by
  induction head with
  | nil => rfl
  | cons c head ih =>
      rw [List.mem_cons, not_or] at hquote hapostrophe
      rw [List.cons_append, literalMask]
      simp [Ne.symm hquote.1, Ne.symm hapostrophe.1, ih hquote.2 hapostrophe.2,
        List.replicate_succ]

theorem literalLength?_content (h : Content u) (rest : List Char) :
    literalLength? '"' (u ++ '"' :: rest) = some (u.length + 1) := by
  obtain ⟨hquote, hbackslash, -⟩ := h
  induction u with
  | nil => rfl
  | cons c u ih =>
      rw [List.mem_cons, not_or] at hquote hbackslash
      rw [List.cons_append, literalLength?]
      · simp [Ne.symm hquote.1, ih hquote.2 hbackslash.2]
      · exact fun heq => hbackslash.1 heq.symm

theorem literalMask_literal (hhead : Plain head) (hu : Content u) (c : List Char) :
    literalMask (head ++ '"' :: (u ++ '"' :: c)) =
      List.replicate head.length false ++ (List.replicate (u.length + 2) true ++ literalMask c) := by
  rw [literalMask_plain hhead.quote hhead.apostrophe, literalMask]
  simp [literalLength?_content hu, List.replicate_succ]

/-- Where the reading for a target stands behind the content of a literal. Without a directive it
is as if the target had been read. -/
def bracketBehind (head u : List Char) : Bracket :=
  (afterInclude? head).elim .behind fun rest => Bracket.outside.run (rest ++ u)

/-- Marks what belongs to a target before a literal. -/
def headMask (head : List Char) (closed : Bool) : Mask :=
  (afterInclude? head).elim (List.replicate head.length false) fun rest =>
    List.replicate (head.length - rest.length) false ++ targetMask closed .outside rest

@[simp] theorem length_headMask (head : List Char) (closed : Bool) :
    (headMask head closed).length = head.length := by
  rw [headMask]
  cases hrest : afterInclude? head with
  | none => simp
  | some rest =>
      have hle := (suffix_of_afterInclude? hrest).length_le
      simp [hle]

theorem Bracket.run_literal (bracket : Bracket) (cs u c : List Char) :
    bracket.run (cs ++ '"' :: (u ++ '"' :: c)) = (bracket.run (cs ++ u)).run c := by
  have hquote (bracket : Bracket) : bracket.step '"' = bracket := by cases bracket <;> rfl
  simp [hquote]

theorem exists_includeMask_literal (head u c : List Char) :
    ∃ marks : Mask, marks.length = u.length + 2 ∧
      includeMask (head ++ '"' :: (u ++ '"' :: c)) =
        headMask head (decide ((bracketBehind head u).run c = .behind)) ++
          (marks ++ targetMask (decide ((bracketBehind head u).run c = .behind))
            (bracketBehind head u) c) := by
  have hafter := afterInclude?_append head (u ++ '"' :: c)
  rw [headMask, bracketBehind]
  -- the head decides alone whether the line includes anything
  cases hrest : afterInclude? head with
  | none =>
      rw [hrest] at hafter
      refine ⟨List.replicate (u.length + 2) false, List.length_replicate, ?_⟩
      have hbehind : targetMask true .behind c = List.replicate c.length false :=
        (Bracket.run_behind c).2
      rw [includeMask_of_eq_none hafter, Option.elim_none, Option.elim_none, (Bracket.run_behind c).1,
        decide_eq_true rfl, hbehind, List.replicate_append_replicate,
        List.replicate_append_replicate]
      congr 1
      simp only [List.length_append, List.length_cons]
      omega
  | some rest =>
      rw [hrest, Option.map_some] at hafter
      have hle := (suffix_of_afterInclude? hrest).length_le
      have hlength : (head ++ '"' :: (u ++ '"' :: c)).length -
          (rest ++ '"' :: (u ++ '"' :: c)).length = head.length - rest.length := by
        simp only [List.length_append]
        omega
      have hsplit : rest ++ '"' :: (u ++ '"' :: c) = rest ++ (('"' :: (u ++ ['"'])) ++ c) := by simp
      have hrun : (Bracket.outside.run rest).run ('"' :: (u ++ ['"'])) =
          Bracket.outside.run (rest ++ u) := by
        rw [← Bracket.run_append]
        exact Bracket.run_literal .outside rest u []
      rw [includeMask_of_eq_some hafter, Bracket.run_literal, hlength, hsplit, targetMask_append,
        targetMask_append, hrun, Option.elim_some, Option.elim_some]
      refine ⟨_, ?_, (List.append_assoc ..).symm⟩
      simp

theorem zipWith_or_false (h : mask.length = n) :
    List.zipWith (· || ·) (List.replicate n false) mask = mask := by
  subst h
  induction mask with
  | nil => rfl
  | cons marked mask ih => simp [List.replicate_succ, ih]

theorem zipWith_or_true (h : mask.length = n) :
    List.zipWith (· || ·) mask (List.replicate n true) = List.replicate n true := by
  subst h
  induction mask with
  | nil => rfl
  | cons marked mask ih => simp [List.replicate_succ, ih]

theorem true_zipWith_or (h : mask.length = n) :
    List.zipWith (· || ·) (List.replicate n true) mask = List.replicate n true := by
  rw [List.zipWith_comm_of_comm Bool.or_comm, zipWith_or_true h]

/-- Marks what holds no tokens behind a literal, where the readings for comments and for a target
stand at some point. -/
def tailMask (mode : Mode) (bracket : Bracket) (c : List Char) : Mask :=
  List.zipWith (· || ·) (scan mode c).1
    (List.zipWith (· || ·) (literalMask c)
      (targetMask (decide (bracket.run c = .behind)) bracket c))

/-- A text that holds a literal. -/
def withLiteral (head u c : List Char) : List Char := head ++ '"' :: (u ++ '"' :: c)

theorem notMem_withLiteral (hhead : '\n' ∉ head) (hu : '\n' ∉ u) (hc : '\n' ∉ c) :
    '\n' ∉ withLiteral head u c := by
  simp [withLiteral, hhead, hu, hc]

/-- Around a literal the readings of its content tell what is excluded, and nothing else does. -/
theorem excluded_withLiteral (hhead : Plain head) (hfeed : '\n' ∉ head) (hu : Content u)
    (hc : '\n' ∉ c) :
    (excluded false (withLiteral head u c)).1 =
        headMask head (decide ((bracketBehind head u).run c = .behind)) ++
          (List.replicate (u.length + 2) true ++
            tailMask (scan .code u).2 (bracketBehind head u) c) ∧
      (excluded false (withLiteral head u c)).2 = decide ((scan (scan .code u).2 c).2 = .block) := by
  obtain ⟨hmask, hflag⟩ := follows_scan (notMem_withLiteral hfeed hu.feed hc) false
  -- inside of the literal its own marks cover those of comments and of a target
  obtain ⟨comments, hcomments, hscan⟩ := exists_scan_literal hhead.slash u c
  obtain ⟨targets, htargets, hinclude⟩ := exists_includeMask_literal head u c
  have hliteral := literalMask_literal hhead hu c
  change scan (lineMode false) (withLiteral head u c) = _ at hscan
  change includeMask (withLiteral head u c) = _ at hinclude
  change literalMask (withLiteral head u c) = _ at hliteral
  rw [hscan] at hmask hflag
  constructor
  · have hothers : List.zipWith (· || ·) (literalMask (withLiteral head u c))
        (includeMask (withLiteral head u c)) =
          headMask head (decide ((bracketBehind head u).run c = .behind)) ++
            (List.replicate (u.length + 2) true ++ List.zipWith (· || ·) (literalMask c)
              (targetMask (decide ((bracketBehind head u).run c = .behind))
                (bracketBehind head u) c)) := by
      rw [hliteral, hinclude, List.zipWith_append (by simp), List.zipWith_append (by simp [htargets]),
        zipWith_or_false (by simp), true_zipWith_or htargets]
    rw [excluded_fst, ← hmask, hothers, prepend, List.append_assoc, List.zipWith_append (by simp),
      List.zipWith_append (by simp [hcomments]), zipWith_or_false (by simp),
      zipWith_or_true hcomments, tailMask]
  · rw [excluded_snd]
    exact (lineMode_injective hflag).symm

/-! ## Identifiers around a literal -/

theorem touches_append_left (h : start + length ≤ mask.length) (mask' : Mask) :
    touches (mask ++ mask') start length = touches mask start length := by
  rw [touches, touches, List.drop_append_of_le_length (by omega),
    List.take_append_of_le_length (by rw [List.length_drop]; omega)]

theorem touches_append_right (mask mask' : Mask) (start length : Nat) :
    touches (mask ++ mask') (start + mask.length) length = touches mask' start length := by
  rw [touches, touches, Nat.add_comm, List.drop_length_add_append]

theorem touches_true (hpos : 0 < length) (h : start + length ≤ n) :
    touches (List.replicate n true) start length = true := by
  have hsome : min length (n - start) ≠ 0 := by omega
  rw [touches, List.drop_replicate, List.take_replicate, List.any_replicate, if_neg hsome]
  rfl

theorem touches_false (n start length : Nat) :
    touches (List.replicate n false) start length = false := by
  simp [touches, List.drop_replicate, List.take_replicate]

/-- The identifiers that show before and behind a separator. -/
theorem shownIn_append {d : Char} (hd : Separates d) (hmask : mask.length = cs.length)
    (marked : Bool) (mask' : Mask) (c : List Char) :
    shownIn (mask ++ marked :: mask') (cs ++ d :: c) =
      shownIn mask cs ++
        (shownIn mask' c).map fun found => (found.1 + (cs.length + 1), found.2) := by
  rw [shownIn, hd.identifiers_append, Nat.zero_add, List.filter_append]
  congr 1
  · refine List.filter_congr fun found hfound => ?_
    obtain ⟨-, -, hle⟩ := bounds_of_mem_identifiers hfound
    rw [touches_append_left (by omega)]
  · rw [← Nat.zero_add (cs.length + 1), identifiers_add, List.filter_map, shownIn, Nat.zero_add]
    refine congrArg (List.map _) (List.filter_congr fun found _ => ?_)
    have happend : mask ++ marked :: mask' = (mask ++ [marked]) ++ mask' := by simp
    have hlength : cs.length + 1 = (mask ++ [marked]).length := by simp [hmask]
    rw [Function.comp_apply, happend, hlength, touches_append_right]

theorem shownIn_true (cs : List Char) : shownIn (List.replicate cs.length true) cs = [] := by
  refine List.filter_eq_nil_iff.mpr fun found hfound => ?_
  obtain ⟨-, hpos, hle⟩ := bounds_of_mem_identifiers hfound
  rw [touches_true hpos (by omega)]
  simp

theorem separates_quote : Separates '"' := ⟨by decide, by decide, by decide, by decide⟩

theorem shownOn_withLiteral (hhead : Plain head) (hfeed : '\n' ∉ head) (hu : Content u)
    (hc : '\n' ∉ c) : shownOn false (withLiteral head u c) =
      shownIn (headMask head (decide ((bracketBehind head u).run c = .behind))) head ++
        (shownIn (tailMask (scan .code u).2 (bracketBehind head u) c) c).map fun found =>
          (found.1 + (head.length + u.length + 2), found.2) := by
  have hmask : List.replicate (u.length + 2) true ++
      tailMask (scan .code u).2 (bracketBehind head u) c =
        true :: (List.replicate u.length true ++
          true :: tailMask (scan .code u).2 (bracketBehind head u) c) := by
    rw [List.replicate_succ, List.replicate_succ']
    simp
  rw [shownOn, (excluded_withLiteral hhead hfeed hu hc).1, hmask, withLiteral,
    shownIn_append separates_quote (by simp), shownIn_append separates_quote (by simp),
    shownIn_true, List.nil_append, List.map_map]
  congr 2
  funext found
  simp only [Function.comp_apply, Prod.mk.injEq, and_true]
  omega

/-! ## A text with a literal -/

theorem chopReturn_quote (c : List Char) : chopReturn ('"' :: c) = '"' :: chopReturn c := by
  cases c with
  | nil => rfl
  | cons d c => exact chopReturn_append (List.cons_ne_nil d c) ['"']

theorem chopReturn_withLiteral (head u c : List Char) :
    chopReturn (withLiteral head u c) = withLiteral head u (chopReturn c) := by
  have hne (c : List Char) : '"' :: c ≠ [] := List.cons_ne_nil _ _
  rw [withLiteral, chopReturn_append (hne _), chopReturn_quote, chopReturn_append (hne _),
    chopReturn_quote, withLiteral]

/-- The lines after that of the literal do not depend on its content. -/
theorem exists_lines_withLiteral (hhead : '\n' ∉ head) (b : List Char) :
    ∃ c rest, '\n' ∉ c ∧ ∀ u, '\n' ∉ u →
      lines (withLiteral head u b) = withLiteral head u c :: rest := by
  by_cases hfeed : '\n' ∈ b
  · obtain ⟨c, b, rfl, hc⟩ := List.eq_append_cons_of_mem hfeed
    refine ⟨chopReturn c, lines b, notMem_chopReturn hc, fun u hu => ?_⟩
    have htext : withLiteral head u (c ++ '\n' :: b) = withLiteral head u c ++ '\n' :: b := by
      simp [withLiteral]
    rw [htext, lines_feed (notMem_withLiteral hhead hu hc), chopReturn_withLiteral]
  · refine ⟨b, [], hfeed, fun u hu => ?_⟩
    exact lines_of_notMem (by simp [withLiteral]) (notMem_withLiteral hhead hu hfeed)

theorem blockAfter_of_slash {before : List Char} (hended : Ended before) (h : '/' ∉ before) :
    blockAfter false (lines before) = false := by
  have hscan := scan_append_of_slash h []
  rw [List.append_nil] at hscan
  have hmode : lineMode false = lineMode (blockAfter false (lines before)) :=
    (congrArg Prod.snd hscan).symm.trans (scan_ended hended false)
  exact (lineMode_injective hmode).symm

/-! ## Lines in front and behind -/

theorem shows_append_left (h : i < ls.length) (rest : List (List Char)) :
    Shows (ls ++ rest) i found ↔ Shows ls i found := by
  rw [Shows, Shows, List.getElem?_append_left h, List.take_append_of_le_length h.le]

theorem shows_append_self (hblock : blockAfter false ls = false) :
    Shows (ls ++ line :: rest) ls.length found ↔ found ∈ shownOn false line := by
  simp [Shows, hblock]

theorem shows_append_right (hblock : blockAfter false ls = false) (i : Nat) :
    Shows (ls ++ line :: rest) (ls.length + (i + 1)) found ↔ ∃ other, rest[i]? = some other ∧
      found ∈ shownOn (blockAfter (excluded false line).2 (rest.take i)) other := by
  have htake : (ls ++ line :: rest).take (ls.length + (i + 1)) = ls ++ line :: rest.take i := by
    simp [List.take_append]
  have hafter : blockAfter false (ls ++ line :: rest.take i) =
      blockAfter (excluded false line).2 (rest.take i) := by
    rw [excluded_snd, blockAfter, List.foldl_append]
    exact congrArg (blockAfter · (line :: rest.take i)) hblock
  rw [Shows, htake, hafter, List.getElem?_append_right (Nat.le_add_right ..), Nat.add_sub_cancel_left,
    List.getElem?_cons_succ]

/-- One line in the place of another shows the same, where the same identifiers show on it and the
same comments are open behind it. -/
theorem shows_congr {line' : List Char} (hblock : blockAfter false ls = false)
    (hshown : shownOn false line = shownOn false line')
    (hflag : (excluded false line).2 = (excluded false line').2) (i : Nat)
    (found : Nat × List Char) :
    Shows (ls ++ line :: rest) i found ↔ Shows (ls ++ line' :: rest) i found := by
  rcases Nat.lt_or_ge i ls.length with hlt | hle
  · rw [shows_append_left hlt, shows_append_left hlt]
  · obtain ⟨j, rfl⟩ := Nat.exists_eq_add_of_le hle
    cases j with
    | zero => rw [Nat.add_zero, shows_append_self hblock, shows_append_self hblock, hshown]
    | succ j => rw [shows_append_right hblock, shows_append_right hblock, hflag]

/-! ## What does not depend on the content -/

theorem shownIn_false (n : Nat) (cs : List Char) :
    shownIn (List.replicate n false) cs = identifiers 0 cs :=
  List.filter_eq_self.mpr fun found _ => by rw [touches_false]; rfl

/-- A comment up to the end of the line leaves nothing behind the literal. -/
theorem shownIn_remark (hc : '\n' ∉ c) (bracket : Bracket) :
    shownIn (tailMask .remark bracket c) c = [] := by
  rw [tailMask, scan_remark hc, List.map_const', true_zipWith_or (by simp), shownIn_true]

theorem separates_bracket : Separates '<' := ⟨by decide, by decide, by decide, by decide⟩

/-- The identifiers from the first opening bracket of a directive on. -/
def openedIdentifiers (head : List Char) : List (Nat × List Char) :=
  (afterInclude? head).elim [] fun rest => identifiers 0 (rest.dropWhile (· ≠ '<'))

/-- In front of a literal a target in brackets may hold the identifiers from the first opening
bracket on, and no others. -/
theorem exists_shownIn_headMask {front opened : List Char}
    (h : afterInclude? head = some (front ++ '<' :: opened)) (hfront : '<' ∉ front) :
    (openedIdentifiers head = [] ↔ identifiers 0 opened = []) ∧
    ∃ before, ∀ closed, shownIn (headMask head closed) head = identifiers 0 before ++
      (shownIn (targetMask closed .inside opened) opened).map fun found =>
        (found.1 + (before.length + 1), found.2) := by
  constructor
  · have hdrop : (front ++ '<' :: opened).dropWhile (· ≠ '<') = '<' :: opened := by
      rw [List.dropWhile_append_of_pos fun c hc => by
        simpa using ne_of_mem_of_not_mem hc hfront]
      simp
    have hids : identifiers 0 ('<' :: opened) = identifiers (0 + 1) opened := by
      rw [identifiers]
      exact if_pos (separates_bracket.identifierLength_cons opened)
    rw [openedIdentifiers, h, Option.elim_some, hdrop, hids, identifiers_add, List.map_eq_nil_iff]
  · obtain ⟨start, rfl⟩ := suffix_of_afterInclude? h
    refine ⟨start ++ front, fun closed => ?_⟩
    have hmask : headMask (start ++ (front ++ '<' :: opened)) closed =
        List.replicate (start ++ front).length false ++
          closed :: targetMask closed .inside opened := by
      have htarget : targetMask closed .outside (front ++ '<' :: opened) =
          List.replicate front.length false ++ closed :: targetMask closed .inside opened := by
        obtain ⟨hrun, hmarks⟩ := Bracket.run_outside hfront
        rw [targetMask_append, hrun]
        cases closed with
        | false => rfl
        | true => exact congrArg (· ++ _) hmarks
      rw [headMask, h, Option.elim_some, htarget, List.length_append, Nat.add_sub_cancel,
        List.length_append, ← List.replicate_append_replicate, List.append_assoc]
    rw [hmask, ← List.append_assoc, shownIn_append separates_bracket (by simp), shownIn_false]

theorem headMask_of_notMem {rest : List Char} (h : afterInclude? head = some rest)
    (hrest : '<' ∉ rest) (closed : Bool) :
    headMask head closed = List.replicate head.length false := by
  have hle := (suffix_of_afterInclude? h).length_le
  have htarget : targetMask closed .outside rest = List.replicate rest.length false := by
    cases closed with
    | false => rfl
    | true => exact (Bracket.run_outside hrest).2
  rw [headMask, h, Option.elim_some, htarget, List.replicate_append_replicate,
    Nat.sub_add_cancel hle]

/-- Where no identifier stands behind an opening bracket, a target holds none. -/
theorem shownIn_headMask (h : openedIdentifiers head = []) (closed : Bool) :
    shownIn (headMask head closed) head = shownIn (headMask head false) head := by
  cases hrest : afterInclude? head with
  | none => rw [headMask, headMask, hrest, Option.elim_none, Option.elim_none]
  | some rest =>
      by_cases hopen : '<' ∈ rest
      · obtain ⟨front, opened, rfl, hfront⟩ := List.eq_append_cons_of_mem hopen
        obtain ⟨hnone, before, hshown⟩ := exists_shownIn_headMask hrest hfront
        rw [hshown, hshown, shownIn, shownIn, hnone.mp h, List.filter_nil, List.filter_nil]
      · rw [headMask_of_notMem hrest hopen, headMask_of_notMem hrest hopen]

/-- Behind a literal nothing tells the contents `u` and `v` apart. -/
structure ReadsLike (head u v : List Char) : Prop where
  /-- The reading for comments stands at the same point behind both. -/
  mode : (scan .code u).2 = (scan .code v).2
  /-- So does the reading for a target, or else the rest of the line is a comment, and no
  identifier before the literal could belong to the target. -/
  bracket : bracketBehind head u = bracketBehind head v ∨
    (scan .code u).2 = .remark ∧ openedIdentifiers head = []

theorem ReadsLike.shownOn_eq (h : ReadsLike head u v) (hhead : Plain head) (hfeed : '\n' ∉ head)
    (hu : Content u) (hv : Content v) (hlength : u.length = v.length) (hc : '\n' ∉ c) :
    shownOn false (withLiteral head u c) = shownOn false (withLiteral head v c) ∧
      (excluded false (withLiteral head u c)).2 = (excluded false (withLiteral head v c)).2 := by
  refine ⟨?_, ?_⟩
  · rw [shownOn_withLiteral hhead hfeed hu hc, shownOn_withLiteral hhead hfeed hv hc, hlength,
      ← h.mode]
    rcases h.bracket with hbracket | ⟨hremark, hopened⟩
    · rw [hbracket]
    · rw [hremark, shownIn_remark hc, shownIn_remark hc, shownIn_headMask hopened,
        shownIn_headMask hopened (decide ((bracketBehind head v).run c = .behind))]
  · rw [(excluded_withLiteral hhead hfeed hu hc).2, (excluded_withLiteral hhead hfeed hv hc).2,
      h.mode]

/-! ## What tells contents apart -/

theorem shownIn_name (mode : Mode) (bracket : Bracket) :
    shownIn (tailMask mode bracket ['x']) ['x'] = if mode = .code then [(0, ['x'])] else [] := by
  cases mode <;> cases bracket <;> cbv

theorem shownIn_closing (mode : Mode) (bracket : Bracket) :
    shownIn (tailMask mode bracket ['*', '/', 'x', '>']) ['*', '/', 'x', '>'] =
      if mode ≠ .remark ∧ bracket ≠ .inside then [(2, ['x'])] else [] := by
  cases mode <;> cases bracket <;> cbv

theorem shownIn_target (mode : Mode) (bracket : Bracket) :
    shownIn (tailMask mode bracket ['*', '/', '<', 'x', '>']) ['*', '/', '<', 'x', '>'] =
      if mode ≠ .remark ∧ bracket = .behind then [(3, ['x'])] else [] := by
  cases mode <;> cases bracket <;> cbv

theorem shownOn_name (inBlock : Bool) :
    shownOn inBlock ['x'] = if inBlock = false then [(0, ['x'])] else [] := by
  cases inBlock <;> cbv

/-- Identifiers of two parts, where all of the first stand before column `k`. -/
theorem subset_of_append_subset {l l' r r' : List (Nat × List Char)} {k : Nat}
    (hl : ∀ found ∈ l, found.1 < k) (hl' : ∀ found ∈ l', found.1 < k)
    (h : l ++ r.map (fun found => (found.1 + k, found.2)) ⊆
      l' ++ r'.map fun found => (found.1 + k, found.2)) : l ⊆ l' ∧ r ⊆ r' := by
  constructor
  · intro found hfound
    rcases List.mem_append.mp (h (List.mem_append_left _ hfound)) with hmem | hmem
    · exact hmem
    · obtain ⟨other, -, rfl⟩ := List.mem_map.mp hmem
      exact absurd (hl _ hfound) (by simp)
  · intro found hfound
    have hshifted := List.mem_map_of_mem (f := fun found => (found.1 + k, found.2)) hfound
    rcases List.mem_append.mp (h (List.mem_append_right _ hshifted)) with hmem | hmem
    · exact absurd (hl' _ hmem) (by simp)
    · obtain ⟨other, hother, heq⟩ := List.mem_map.mp hmem
      obtain ⟨hcolumn, hname⟩ := Prod.mk.inj heq
      have hsame : other = found := Prod.ext (Nat.add_right_cancel hcolumn) hname
      exact hsame ▸ hother

theorem lt_of_mem_shownIn (hfound : found ∈ shownIn mask cs) : found.1 < cs.length := by
  obtain ⟨-, hpos, hle⟩ := bounds_of_mem_identifiers (List.mem_filter.mp hfound).1
  omega

/-- If the same shows on a line with either content, it does so before the literal and behind it. -/
theorem subset_of_shownOn_subset (hhead : Plain head) (hfeed : '\n' ∉ head) (hu : Content u)
    (hv : Content v) (hlength : u.length = v.length) (hc : '\n' ∉ c)
    (h : shownOn false (withLiteral head u c) ⊆ shownOn false (withLiteral head v c)) :
    shownIn (headMask head (decide ((bracketBehind head u).run c = .behind))) head ⊆
        shownIn (headMask head (decide ((bracketBehind head v).run c = .behind))) head ∧
      shownIn (tailMask (scan .code u).2 (bracketBehind head u) c) c ⊆
        shownIn (tailMask (scan .code v).2 (bracketBehind head v) c) c := by
  rw [shownOn_withLiteral hhead hfeed hu hc, shownOn_withLiteral hhead hfeed hv hc, hlength] at h
  have hlt {mask : Mask} (found) (hfound : found ∈ shownIn mask head) :
      found.1 < head.length + v.length + 2 := by
    have := lt_of_mem_shownIn hfound
    omega
  exact subset_of_append_subset hlt hlt h

/-- A target that the content closes hides what stands behind its opening bracket. -/
theorem identifiers_eq_nil_of_subset {front opened : List Char}
    (h : afterInclude? head = some (front ++ '<' :: opened)) (hfront : '<' ∉ front)
    (hopened : '>' ∉ opened)
    (hsub : shownIn (headMask head false) head ⊆ shownIn (headMask head true) head) :
    identifiers 0 opened = [] := by
  obtain ⟨-, before, hshown⟩ := exists_shownIn_headMask h hfront
  have htrue : targetMask true .inside opened = List.replicate opened.length true :=
    (Bracket.run_inside hopened).2
  have hfalse : targetMask false .inside opened = List.replicate opened.length false := rfl
  rw [hshown, hshown, htrue, hfalse, shownIn_true, shownIn_false, List.map_nil,
    List.append_nil] at hsub
  rw [List.eq_nil_iff_forall_not_mem]
  intro found hfound
  have hmem := hsub (List.mem_append_right _ (List.mem_map_of_mem hfound))
  obtain ⟨-, hpos, hle⟩ := bounds_of_mem_identifiers hmem
  omega

theorem openedIdentifiers_eq_nil (hne : bracketBehind head u ≠ bracketBehind head v)
    (hsub : shownIn (headMask head (decide (bracketBehind head u = .behind))) head ⊆
      shownIn (headMask head (decide (bracketBehind head v = .behind))) head)
    (hsub' : shownIn (headMask head (decide (bracketBehind head v = .behind))) head ⊆
      shownIn (headMask head (decide (bracketBehind head u = .behind))) head) :
    openedIdentifiers head = [] := by
  cases hrest : afterInclude? head with
  | none => rw [openedIdentifiers, hrest, Option.elim_none]
  | some rest =>
      have hbehind (u : List Char) :
          bracketBehind head u = (Bracket.outside.run rest).run u := by
        rw [bracketBehind, hrest, Option.elim_some, Bracket.run_append]
      rw [hbehind, hbehind] at hne hsub hsub'
      by_cases hopen : '<' ∈ rest
      · obtain ⟨front, opened, rfl, hfront⟩ := List.eq_append_cons_of_mem hopen
        have hrun : Bracket.outside.run (front ++ '<' :: opened) = Bracket.inside.run opened := by
          rw [Bracket.run_append, (Bracket.run_outside hfront).1]
          rfl
        have hclose : '>' ∉ opened := by
          intro hclose
          obtain ⟨target, after, rfl, htarget⟩ := List.eq_append_cons_of_mem hclose
          rw [(Bracket.run_target hfront htarget after).1] at hne
          exact hne ((Bracket.run_behind u).1.trans (Bracket.run_behind v).1.symm)
        rw [hrun, (Bracket.run_inside hclose).1] at hne hsub hsub'
        rw [(exists_shownIn_headMask hrest hfront).1]
        -- one of the contents closes the target, and the other does not
        rcases Bracket.run_inside_cases u with hu | hu <;>
          rcases Bracket.run_inside_cases v with hv | hv <;> rw [hu, hv] at hne hsub hsub'
        · exact absurd rfl hne
        · exact identifiers_eq_nil_of_subset hrest hfront hclose hsub
        · exact identifiers_eq_nil_of_subset hrest hfront hclose hsub'
        · exact absurd rfl hne
      · rw [openedIdentifiers, hrest, Option.elim_some, List.dropWhile_eq_nil_iff.mpr, identifiers]
        exact fun c hc => by simpa using ne_of_mem_of_not_mem hc hopen

/-- The same shows with either content, on every line and whatever follows. -/
def ShowsAlike (before head u v : List Char) : Prop :=
  ∀ b i found, Shows (lines (before ++ withLiteral head u b)) i found ↔
    Shows (lines (before ++ withLiteral head v b)) i found

theorem ShowsAlike.symm {before : List Char} (h : ShowsAlike before head u v) :
    ShowsAlike before head v u := fun b i found => (h b i found).symm

section Alike

variable {before : List Char} (hended : Ended before) (hblock : blockAfter false (lines before) = false)
variable (hfeed : '\n' ∉ head) (h : ShowsAlike before head u v)

include hended hblock hfeed h

theorem ShowsAlike.shownOn_subset (hu : '\n' ∉ u) (hv : '\n' ∉ v) (hc : '\n' ∉ c) :
    shownOn false (withLiteral head u c) ⊆ shownOn false (withLiteral head v c) := by
  have hlines {u : List Char} (hu : '\n' ∉ u) : lines (before ++ withLiteral head u c) =
      lines before ++ [withLiteral head u c] := by
    rw [lines_append hended, lines_of_notMem (by simp [withLiteral]) (notMem_withLiteral hfeed hu hc)]
  intro found hfound
  have hshows := h c (lines before).length found
  rw [hlines hu, hlines hv, shows_append_self hblock, shows_append_self hblock] at hshows
  exact hshows.mp hfound

/-- What shows on the line after that of the literal. -/
theorem ShowsAlike.shownOn_next (hu : '\n' ∉ u) (hv : '\n' ∉ v) :
    shownOn (excluded false (withLiteral head u [])).2 ['x'] ⊆
      shownOn (excluded false (withLiteral head v [])).2 ['x'] := by
  have hlines {u : List Char} (hu : '\n' ∉ u) : lines (before ++ withLiteral head u ['\n', 'x']) =
      lines before ++ withLiteral head u [] :: [['x']] := by
    have htext : withLiteral head u ['\n', 'x'] = withLiteral head u [] ++ '\n' :: ['x'] := by
      simp [withLiteral]
    have hlast : lines ['x'] = [['x']] := lines_of_notMem (by simp) (by simp)
    rw [lines_append hended, htext, lines_feed (notMem_withLiteral hfeed hu List.not_mem_nil),
      chopReturn_withLiteral, hlast]
    rfl
  intro found hfound
  have hshows := h ['\n', 'x'] ((lines before).length + (0 + 1)) found
  rw [hlines hu, hlines hv, shows_append_right hblock, shows_append_right hblock] at hshows
  obtain ⟨other, hother, hmem⟩ := hshows.mp ⟨['x'], rfl, hfound⟩
  cases hother
  exact hmem

end Alike

theorem ite_subset_ite_iff {α : Type} {a : α} {p q : Prop} [Decidable p] [Decidable q] :
    (if p then [a] else []) ⊆ (if q then [a] else []) ↔ (p → q) := by
  by_cases hp : p <;> by_cases hq : q <;> simp [hp, hq]

section Contents

variable {before : List Char} (hended : Ended before) (hslash : '/' ∉ before)
variable (hhead : Plain head) (hfeed : '\n' ∉ head)
variable (hu : Content u) (hv : Content v) (hlength : u.length = v.length)

include hended hslash hhead hfeed hu hv hlength

/-- What follows a literal shows or not, as the readings stand behind it. -/
theorem ShowsAlike.imp (h : ShowsAlike before head u v) :
    ((scan .code u).2 = .code → (scan .code v).2 = .code) ∧
    ((scan .code u).2 ≠ .block → (scan .code v).2 ≠ .block) ∧
    ((scan .code u).2 ≠ .remark ∧ bracketBehind head u ≠ .inside →
      (scan .code v).2 ≠ .remark ∧ bracketBehind head v ≠ .inside) ∧
    ((scan .code u).2 ≠ .remark ∧ bracketBehind head u = .behind →
      (scan .code v).2 ≠ .remark ∧ bracketBehind head v = .behind) ∧
    shownIn (headMask head (decide (bracketBehind head u = .behind))) head ⊆
      shownIn (headMask head (decide (bracketBehind head v = .behind))) head := by
  have hblock := blockAfter_of_slash hended hslash
  have hparts {c : List Char} (hc : '\n' ∉ c) :=
    subset_of_shownOn_subset hhead hfeed hu hv hlength hc
      (h.shownOn_subset hended hblock hfeed hu.feed hv.feed hc)
  have hname := (hparts (c := ['x']) (by simp)).2
  have hclosing := (hparts (c := ['*', '/', 'x', '>']) (by simp)).2
  have htarget := (hparts (c := ['*', '/', '<', 'x', '>']) (by simp)).2
  have hnext := h.shownOn_next hended hblock hfeed hu.feed hv.feed
  rw [shownIn_name, shownIn_name, ite_subset_ite_iff] at hname
  rw [shownIn_closing, shownIn_closing, ite_subset_ite_iff] at hclosing
  rw [shownIn_target, shownIn_target, ite_subset_ite_iff] at htarget
  rw [(excluded_withLiteral hhead hfeed hu List.not_mem_nil).2,
    (excluded_withLiteral hhead hfeed hv List.not_mem_nil).2, shownOn_name, shownOn_name,
    ite_subset_ite_iff, decide_eq_false_iff_not, decide_eq_false_iff_not] at hnext
  exact ⟨hname, hnext, hclosing, htarget, (hparts List.not_mem_nil).1⟩

theorem readsLike_of_showsAlike (h : ShowsAlike before head u v) : ReadsLike head u v := by
  obtain ⟨hcode, hblock, hinside, hbehind, hsub⟩ :=
    h.imp hended hslash hhead hfeed hu hv hlength
  obtain ⟨hcode', hblock', hinside', hbehind', hsub'⟩ :=
    h.symm.imp hended hslash hhead hfeed hv hu hlength.symm
  have hmode : (scan .code u).2 = (scan .code v).2 := by
    cases hu : (scan .code u).2 <;> cases hv : (scan .code v).2 <;> simp_all
  refine ⟨hmode, ?_⟩
  by_cases hbracket : bracketBehind head u = bracketBehind head v
  · exact .inl hbracket
  · have hremark : (scan .code u).2 = .remark := by
      by_contra hne
      apply hbracket
      rw [← hmode] at hinside hbehind hinside' hbehind'
      cases hu : bracketBehind head u <;> cases hv : bracketBehind head v <;> simp_all
    exact .inr ⟨hremark, openedIdentifiers_eq_nil hbracket hsub hsub'⟩

theorem ReadsLike.showsAlike (h : ReadsLike head u v) : ShowsAlike before head u v := by
  intro b i found
  have hblock := blockAfter_of_slash hended hslash
  obtain ⟨c, rest, hc, hlines⟩ := exists_lines_withLiteral hfeed b
  obtain ⟨hshown, hflag⟩ := h.shownOn_eq hhead hfeed hu hv hlength hc
  rw [lines_append hended, lines_append hended, hlines u hu.feed, hlines v hv.feed]
  exact shows_congr hblock hshown hflag i found

end Contents

/-- Two contents of a literal give the same tokens, with all tables and whatever follows, just if
the readings for comments and for targets stand at the same points behind both. The tokens of the
rest of the text do depend on the content otherwise. -/
theorem ofText_literal_iff (a u v : String) (ha : Plain a.toList) (hu : Content u.toList)
    (hv : Content v.toList) (hlength : u.length = v.length) :
    (∀ (table : ScopeTable) (b : String), ofText table (a ++ "\"" ++ u ++ "\"" ++ b) =
      ofText table (a ++ "\"" ++ v ++ "\"" ++ b)) ↔
    ReadsLike (lastLine a.toList) u.toList v.toList := by
  obtain ⟨before, hlines, hended, hfeed⟩ := exists_eq_append_lastLine a.toList
  rw [hlines] at ha
  obtain ⟨hbefore, hhead⟩ := ha.of_append
  rw [← String.length_toList, ← String.length_toList] at hlength
  have htext (u b : String) : (a ++ "\"" ++ u ++ "\"" ++ b).toList =
      before ++ withLiteral (lastLine a.toList) u.toList b.toList := by
    simp only [String.toList_append, withLiteral]
    nth_rewrite 1 [hlines]
    simp
  constructor
  · intro h
    refine readsLike_of_showsAlike hended hbefore.slash hhead hfeed hu hv hlength fun b i found => ?_
    have hshows := shows_iff_of_ofText_eq (fun table => h table (String.ofList b)) i found
    rw [htext, htext, String.toList_ofList] at hshows
    exact hshows
  · intro h table b
    refine ofText_eq_of_shows (fun i found => ?_) table
    rw [htext, htext]
    exact h.showsAlike hended hbefore.slash hhead hfeed hu hv hlength b.toList i found

/-- A comment that the content closes itself makes no difference. -/
theorem ofText_literal_comment : ReadsLike (lastLine "CA ".toList) "/**/".toList "CDEF".toList ∧
    ofText types ("CA " ++ "\"" ++ "/**/" ++ "\"" ++ " CB") =
      ofText types ("CA " ++ "\"" ++ "CDEF" ++ "\"" ++ " CB") := by
  have hplain : Plain "CA ".toList := ⟨by decide, by decide, by decide⟩
  have hreads : ReadsLike (lastLine "CA ".toList) "/**/".toList "CDEF".toList :=
    ⟨by decide, .inl (by cbv)⟩
  exact ⟨hreads, (ofText_literal_iff "CA " "/**/" "CDEF" hplain ⟨by decide, by decide, by decide⟩
    ⟨by decide, by decide, by decide⟩ rfl).mpr hreads types " CB"⟩

/-- Two slashes in a literal take the token behind it away. -/
theorem not_forall_ofText_literal :
    ¬∀ (table : ScopeTable) (a u v b : String), Plain a.toList →
      (∀ w ∈ [u, v], Content w.toList ∧ '\'' ∉ w.toList ∧ '\r' ∉ w.toList) →
      u.length = v.length →
      ofText table (a ++ "\"" ++ u ++ "\"" ++ b) = ofText table (a ++ "\"" ++ v ++ "\"" ++ b) := by
  intro h
  have hcontent : ∀ w ∈ ["//", "xx"], Content w.toList ∧ '\'' ∉ w.toList ∧ '\r' ∉ w.toList := by
    simp only [List.forall_mem_cons, List.not_mem_nil, false_implies, implies_true, and_true]
    exact ⟨⟨⟨by decide, by decide, by decide⟩, by decide, by decide⟩,
      ⟨⟨by decide, by decide, by decide⟩, by decide, by decide⟩⟩
  have hsame := h types "" "//" "xx" " CA" ⟨by decide, by decide, by decide⟩ hcontent rfl
  have hslashes : ofText types ("" ++ "\"" ++ "//" ++ "\"" ++ " CA") = [] := by cbv
  have hletters : ofText types ("" ++ "\"" ++ "xx" ++ "\"" ++ " CA") = [⟨0, 5, 2, "type", 0⟩] := by
    cbv
  rw [hslashes, hletters] at hsame
  cases hsame

end Lexicolor.Token
