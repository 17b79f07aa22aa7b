import Mathlib
import Lexicolor.Proofs.Clangd.RuleLines
import Lexicolor.Proofs.Clangd.Slots
import Lexicolor.Proofs.Grouping

/-!
# Filled templates

A template is read from the top. The two lines of a slot become those of the
next rule of its scope, as long as there is one, and all other lines are copied.
So every rule is written once at most, and the rules of a scope in their order.
-/

namespace Lexicolor.Clangd

open Text

variable {rules : List Rule} {rule : Rule} {used : List Nat} {place : Nat} {scope : String}
variable {queues : Queues} {line next : List Char} {lines : List (List Char)} {slot : Slot}

/-! ## Unused rules -/

/-- The rules of a scope that are not used, with their places. -/
def unused (rules : List Rule) (used : List Nat) (scope : String) : List (Rule × Nat) :=
  rules.zipIdx.filter fun (rule, place) => rule.scope = scope ∧ place ∉ used

/-- The rule at the place is the first of its scope that is not used. -/
structure IsNext (rules : List Rule) (used : List Nat) (scope : String) (place : Nat)
    (rule : Rule) : Prop where
  getElem? : rules[place]? = some rule
  scope_eq : rule.scope = scope
  notMem : place ∉ used
  first : ∀ other rule', rules[other]? = some rule' → rule'.scope = scope → other ∉ used →
    place ≤ other

theorem mem_unused : (rule, place) ∈ unused rules used scope ↔
    rules[place]? = some rule ∧ rule.scope = scope ∧ place ∉ used := by
  simp [unused, List.mem_zipIdx_iff_getElem?]

theorem unused_eq_nil_iff : unused rules used scope = [] ↔
    ∀ place rule, rules[place]? = some rule → rule.scope = scope → place ∈ used := by
  rw [List.eq_nil_iff_forall_not_mem, Prod.forall]
  simp only [mem_unused, not_and, not_not]
  exact forall_comm

theorem pairwise_unused (rules : List Rule) (used : List Nat) (scope : String) :
    (unused rules used scope).Pairwise fun a b => a.2 < b.2 :=
  (pairwise_zipIdx rules).filter _

theorem unused_cons (rules : List Rule) (used : List Nat) (place : Nat) (scope : String) :
    unused rules (place :: used) scope =
      (unused rules used scope).filter fun entry => entry.2 ≠ place := by
  rw [unused, unused, List.filter_filter]
  refine List.filter_congr fun entry _ => ?_
  simp only [List.mem_cons, not_or]
  grind

/-- While rules of the scope are left, there is a next one. -/
theorem exists_isNext (h : unused rules used scope ≠ []) :
    ∃ place rule, IsNext rules used scope place rule := by
  obtain ⟨⟨rule, place⟩, rest, heq⟩ := List.exists_cons_of_ne_nil h
  have hsorted := pairwise_unused rules used scope
  obtain ⟨hplace, hscope, hnot⟩ := mem_unused.mp (heq ▸ List.mem_cons_self)
  refine ⟨place, rule, hplace, hscope, hnot, fun other rule' hother hscope' hnot' => ?_⟩
  have hmem := mem_unused.mpr ⟨hother, hscope', hnot'⟩
  rw [heq] at hmem hsorted
  rcases List.mem_cons.mp hmem with hhead | htail
  · cases hhead
    exact le_rfl
  · exact ((List.pairwise_cons.mp hsorted).1 _ htail).le

/-- The next rule comes first of those that are left, and is not left once it is used. -/
theorem IsNext.unused_eq (h : IsNext rules used scope place rule) :
    unused rules used scope = (rule, place) :: unused rules (place :: used) scope := by
  have hmem := mem_unused.mpr ⟨h.getElem?, h.scope_eq, h.notMem⟩
  have hsorted := pairwise_unused rules used scope
  obtain ⟨⟨rule', place'⟩, rest, heq⟩ := List.exists_cons_of_ne_nil (List.ne_nil_of_mem hmem)
  obtain ⟨hplace', hscope', hnot'⟩ := mem_unused.mp (heq ▸ List.mem_cons_self)
  have hle := h.first place' rule' hplace' hscope' hnot'
  rw [unused_cons]
  rw [heq] at hmem hsorted ⊢
  obtain ⟨hhead, -⟩ := List.pairwise_cons.mp hsorted
  rcases List.mem_cons.mp hmem with hfirst | htail
  · cases hfirst
    rw [List.filter_cons_of_neg (by simp), List.filter_eq_self.mpr]
    intro entry hentry
    simpa using (hhead entry hentry).ne'
  · exact absurd (hhead _ htail) (Nat.not_lt_of_le hle)

/-- Using a rule of one scope leaves the rules of the others. -/
theorem IsNext.unused_of_ne {scope' : String} (h : IsNext rules used scope place rule)
    (hne : scope ≠ scope') : unused rules (place :: used) scope' = unused rules used scope' := by
  rw [unused_cons, List.filter_eq_self]
  intro entry hentry
  obtain ⟨hother, hscope, -⟩ := mem_unused.mp hentry
  have hplace : entry.2 ≠ place := by
    intro heq
    rw [heq, h.getElem?] at hother
    cases hother
    exact hne (h.scope_eq.symm.trans hscope)
  simpa using hplace

theorem IsNext.unique {place' : Nat} {rule' : Rule} (h : IsNext rules used scope place rule)
    (h' : IsNext rules used scope place' rule') : place = place' ∧ rule = rule' := by
  have hplace : place = place' := by
    refine Nat.le_antisymm ?_ ?_
    · exact h.first place' rule' h'.getElem? h'.scope_eq h'.notMem
    · exact h'.first place rule h.getElem? h.scope_eq h.notMem
  subst hplace
  exact ⟨rfl, Option.some.inj (h.getElem?.symm.trans h'.getElem?)⟩

/-! ## Queues -/

/-- The queues hold the rules that are not used. -/
def Holds (rules : List Rule) (used : List Nat) (queues : Queues) : Prop :=
  ∀ scope, (queues.get? scope).getD [] = (unused rules used scope).map Prod.fst

theorem holds_ofRules (rules : List Rule) : Holds rules [] (.ofRules rules) := by
  intro scope
  have hcollect : (Queues.ofRules rules).get? scope = collected Rule.scope id rules scope :=
    Table.get?_collect Rule.scope id rules scope
  have hunused : (unused rules [] scope).map Prod.fst =
      rules.filter fun rule => rule.scope = scope := by
    nth_rewrite 2 [← List.zipIdx_map_fst 0 rules]
    rw [List.filter_map, unused]
    congr 1
    exact List.filter_congr fun entry _ => by simp
  rw [hcollect, hunused, collected]
  split
  next hnil => rw [hnil]; rfl
  next => simp

/-- Popping gives the next rule of the scope, if one is left. -/
theorem Holds.pop? (h : Holds rules used queues) (cs : List Char) :
    (queues.pop? cs = none ∧ unused rules used (String.ofList cs) = []) ∨
      ∃ place rule rest, queues.pop? cs = some (rule, rest) ∧
        IsNext rules used (String.ofList cs) place rule ∧ Holds rules (place :: used) rest := by
  have hqueue := h (String.ofList cs)
  rw [Queues.pop?]
  -- the queue of the scope holds just its unused rules
  by_cases hnil : unused rules used (String.ofList cs) = []
  · left
    rw [hnil, List.map_nil] at hqueue
    cases hget : queues.get? (String.ofList cs) with
    | none => exact ⟨rfl, hnil⟩
    | some queue =>
        rw [hget, Option.getD_some] at hqueue
        rw [hqueue]
        exact ⟨rfl, hnil⟩
  · right
    obtain ⟨place, rule, hnext⟩ := exists_isNext hnil
    rw [hnext.unused_eq, List.map_cons] at hqueue
    cases hget : queues.get? (String.ofList cs) with
    | none =>
        rw [hget] at hqueue
        cases hqueue
    | some queue =>
        rw [hget, Option.getD_some] at hqueue
        rw [hqueue]
        refine ⟨place, rule, _, rfl, hnext, fun scope => ?_⟩
        by_cases hscope : String.ofList cs = scope
        · rw [← hscope, Table.get?_set_self, Option.getD_some]
        · rw [Table.get?_set_of_ne _ _ hscope, h scope, hnext.unused_of_ne hscope]

/-! ## Filled templates -/

/-- A tag asks for its scope with hyphens only, as no scope has a dot. -/
theorem Holds.popTagged? (h : Holds rules used queues)
    (hscopes : ∀ rule ∈ rules, '.' ∉ rule.scope.toList) (tag : List Char) :
    queues.popTagged? tag = queues.pop? (hyphenated tag) := by
  rw [Queues.popTagged?]
  rcases h.pop? tag with ⟨hpop, -⟩ | ⟨place, rule, rest, hpop, hnext, -⟩
  · rw [hpop, Option.none_or]
  · have hdot := hscopes rule (List.mem_of_getElem? hnext.getElem?)
    rw [hnext.scope_eq, String.toList_ofList] at hdot
    have htag : hyphenated tag = tag := by
      refine (List.map_congr_left fun c hc => ?_).trans (List.map_id tag)
      exact if_neg fun hc' : c = '.' => hdot (hc' ▸ hc)
    rw [hpop, Option.some_or, htag, hpop]

/-- Two lines are served if they are a slot and a rule of its scope is left. -/
theorem Holds.serve? (h : Holds rules used queues)
    (hscopes : ∀ rule ∈ rules, '.' ∉ rule.scope.toList) (line next : List Char) :
    (∃ slot place rule rest, queues.serve? line next = some (slot, rule, rest) ∧
      IsSlot line next slot ∧ IsNext rules used slot.scope place rule ∧
      Holds rules (place :: used) rest) ∨
    (queues.serve? line next = none ∧
      ∀ slot, IsSlot line next slot → unused rules used slot.scope = []) := by
  cases hslot : slot? line next with
  | none =>
      right
      refine ⟨by rw [Queues.serve?, hslot]; rfl, fun slot h => ?_⟩
      rw [slot?_eq_some_iff.mpr h] at hslot
      cases hslot
  | some slot =>
      have hpop := h.popTagged? hscopes slot.tag
      have hserve : queues.serve? line next =
          (queues.popTagged? slot.tag).map fun served => (slot, served.1, served.2) := by
        rw [Queues.serve?, hslot]
        cases hserved : queues.popTagged? slot.tag <;> simp [hserved]
      rcases h.pop? (hyphenated slot.tag) with
        ⟨hnone, hnil⟩ | ⟨place, rule, rest, hsome, hnext, hrest⟩
      · right
        refine ⟨by rw [hserve, hpop, hnone, Option.map_none], fun slot' h => ?_⟩
        rw [slot?_eq_some_iff.mpr h] at hslot
        cases hslot
        exact hnil
      · left
        exact ⟨slot, place, rule, rest, by rw [hserve, hpop, hsome, Option.map_some],
          slot?_eq_some_iff.mp hslot, hnext, hrest⟩

/-- A part of a template and what is written for it. -/
inductive Piece where
  /-- A line as it is. -/
  | copied (line : List Char)
  /-- The two lines of a slot, and the rule that is written there with its place. -/
  | filled (line next : List Char) (slot : Slot) (place : Nat) (rule : Rule)

namespace Piece

def source : Piece → List (List Char)
  | copied line => [line]
  | filled line next _ _ _ => [line, next]

def written : Piece → List (List Char)
  | copied line => [line]
  | filled _ _ slot _ rule =>
      [regexLine slot.regexIndent rule, addLine slot.addIndent rule slot.tag]

/-- The lines that are written for a piece: a line as it is, or the lines of the rule with what the
slot has before its keys and with its tag. -/
inductive Writes : Piece → List (List Char) → Prop
  | copied (line : List Char) : Writes (.copied line) [line]
  | filled {line next : List Char} {slot : Slot} {place : Nat} {rule : Rule}
      {first second : List Char}
      (h : Spells rule slot.regexIndent slot.addIndent slot.tag first second) :
      Writes (.filled line next slot place rule) [first, second]

theorem writes_written : ∀ piece : Piece, piece.Writes piece.written
  | .copied line => .copied line
  | .filled _ _ _ _ rule => .filled (spells_lines rule _ _ _)

/-- The place of the rule that is written. -/
def place? : Piece → Option Nat
  | copied _ => none
  | filled _ _ _ place _ => some place

/-- The rule that is written if the slot asks for the scope, with its place. -/
def entryFor? (scope : String) : Piece → Option (Rule × Nat)
  | copied _ => none
  | filled _ _ slot place rule => if slot.scope = scope then some (rule, place) else none

@[simp] theorem filterMap_place?_copied (line : List Char) (pieces : List Piece) :
    (copied line :: pieces).filterMap place? = pieces.filterMap place? := rfl

@[simp] theorem filterMap_place?_filled (pieces : List Piece) :
    (filled line next slot place rule :: pieces).filterMap place? =
      place :: pieces.filterMap place? := rfl

theorem filterMap_entryFor?_self (pieces : List Piece) :
    (filled line next slot place rule :: pieces).filterMap (entryFor? slot.scope) =
      (rule, place) :: pieces.filterMap (entryFor? slot.scope) :=
  List.filterMap_cons_some (if_pos rfl)

theorem filterMap_entryFor?_of_ne (h : slot.scope ≠ scope) (pieces : List Piece) :
    (filled line next slot place rule :: pieces).filterMap (entryFor? scope) =
      pieces.filterMap (entryFor? scope) :=
  List.filterMap_cons_none (if_neg h)

theorem length_written : ∀ piece : Piece, piece.written.length = piece.source.length
  | copied _ => rfl
  | filled .. => rfl

end Piece

/-- The lines are read from the top, after the rules at the used places have been written. A slot
takes the next rule of its scope, and the reading goes on behind it. Otherwise the first line is
copied, and the reading goes on at the second. -/
inductive Fills (rules : List Rule) : List Nat → List (List Char) → List Piece → Prop
  | nil {used : List Nat} : Fills rules used [] []
  | last {used : List Nat} {line : List Char} : Fills rules used [line] [.copied line]
  | fill {used : List Nat} {line next : List Char} {lines : List (List Char)} {slot : Slot}
      {place : Nat} {rule : Rule} {pieces : List Piece} (hslot : IsSlot line next slot)
      (hnext : IsNext rules used slot.scope place rule)
      (hrest : Fills rules (place :: used) lines pieces) :
      Fills rules used (line :: next :: lines) (.filled line next slot place rule :: pieces)
  | copy {used : List Nat} {line next : List Char} {lines : List (List Char)} {pieces : List Piece}
      (hused : ∀ slot, IsSlot line next slot → ∀ place rule, rules[place]? = some rule →
        rule.scope = slot.scope → place ∈ used)
      (hrest : Fills rules used (next :: lines) pieces) :
      Fills rules used (line :: next :: lines) (.copied line :: pieces)

/-- Filling a template reads it so. -/
theorem exists_fills (hscopes : ∀ rule ∈ rules, '.' ∉ rule.scope.toList)
    (h : Holds rules used queues) (lines : List (List Char)) :
    ∃ pieces, Fills rules used lines pieces ∧ fill queues lines = pieces.flatMap Piece.written := by
  fun_induction fill queues lines generalizing used with
  | case1 queues => exact ⟨[], .nil, rfl⟩
  | case2 queues line => exact ⟨[.copied line], .last, rfl⟩
  | case3 queues line next lines slot rule rest hserve ih =>
      rcases h.serve? hscopes line next with
        ⟨_, place, _, _, hsome, hslot, hnext, hrest⟩ | ⟨hnone, -⟩
      · cases hsome.symm.trans hserve
        obtain ⟨pieces, hfills, heq⟩ := ih hrest
        refine ⟨.filled line next slot place rule :: pieces, .fill hslot hnext hfills, ?_⟩
        rw [heq, List.flatMap_cons]
        rfl
      · cases hnone.symm.trans hserve
  | case4 queues line next lines hserve ih =>
      rcases h.serve? hscopes line next with ⟨_, _, _, _, hsome, -⟩ | ⟨-, hunused⟩
      · cases hsome.symm.trans hserve
      · obtain ⟨pieces, hfills, heq⟩ := ih h
        refine ⟨.copied line :: pieces, .copy ?_ hfills, ?_⟩
        · intro slot hslot
          exact unused_eq_nil_iff.mp (hunused slot hslot)
        · rw [heq, List.flatMap_cons]
          rfl

namespace Fills

variable {pieces pieces' : List Piece}

/-- The pieces are parts of the template and cover it. -/
theorem flatMap_source (h : Fills rules used lines pieces) :
    pieces.flatMap Piece.source = lines := by
  induction h with
  | nil => rfl
  | last => rfl
  | fill _ _ _ ih | copy _ _ ih =>
      rw [List.flatMap_cons, ih]
      rfl

theorem length_written (h : Fills rules used lines pieces) :
    (pieces.flatMap Piece.written).length = lines.length := by
  rw [← h.flatMap_source, List.length_flatMap, List.length_flatMap,
    List.map_congr_left fun piece _ => piece.length_written]

/-- A rule is written once at most. -/
theorem nodup_places (h : Fills rules used lines pieces) :
    (pieces.filterMap Piece.place?).Nodup ∧
      ∀ place ∈ pieces.filterMap Piece.place?, place ∉ used := by
  induction h with
  | nil | last => simp
  | fill _ hnext _ ih =>
      obtain ⟨hnodup, hnot⟩ := ih
      rw [Piece.filterMap_place?_filled]
      refine ⟨List.nodup_cons.mpr ⟨fun hmem => hnot _ hmem List.mem_cons_self, hnodup⟩, ?_⟩
      intro place hplace
      rcases List.mem_cons.mp hplace with rfl | hplace
      · exact hnext.notMem
      · exact fun hused => hnot place hplace (List.mem_cons_of_mem _ hused)
  | copy _ _ ih => exact ih

/-- The slots for a scope take its rules in their order. -/
theorem in_order (h : Fills rules used lines pieces) (scope : String) :
    pieces.filterMap (Piece.entryFor? scope) <+: unused rules used scope := by
  induction h with
  | nil | last => exact List.nil_prefix
  | @fill used line next lines slot place rule pieces _ hnext _ ih =>
      by_cases hscope : slot.scope = scope
      · subst hscope
        rw [Piece.filterMap_entryFor?_self, hnext.unused_eq]
        exact (List.prefix_cons_inj _).mpr ih
      · rw [Piece.filterMap_entryFor?_of_ne hscope, ← hnext.unused_of_ne hscope]
        exact ih
  | copy _ _ ih => exact ih

/-- A slot is copied only when all rules of its scope have been written. -/
theorem mem_of_unfilled {before after : List Piece} {rest : List (List Char)}
    (h : Fills rules used lines (before ++ .copied line :: after))
    (hnext : after.flatMap Piece.source = next :: rest) (hslot : IsSlot line next slot)
    (hplace : rules[place]? = some rule) (hscope : rule.scope = slot.scope) :
    place ∈ used ∨ place ∈ before.filterMap Piece.place? := by
  induction before generalizing used lines with
  | nil =>
      cases h with
      | last => cases hnext
      | copy hused hrest =>
          rw [hrest.flatMap_source] at hnext
          cases hnext
          exact .inl (hused slot hslot place rule hplace hscope)
  | cons piece before ih =>
      rw [List.cons_append] at h
      generalize heq : before ++ .copied line :: after = pieces at h ih
      cases h with
      | last => cases before <;> cases heq
      | fill _ _ hrest =>
          rw [Piece.filterMap_place?_filled, List.mem_cons]
          rcases ih hrest with hused | hwritten
          · rcases List.mem_cons.mp hused with heq | hused
            · exact .inr (.inl heq)
            · exact .inl hused
          · exact .inr (.inr hwritten)
      | copy _ hrest => exact ih hrest

/-- A line feed in the lines that are written comes from a modifier. -/
theorem notMem_written (h : Fills rules used lines pieces) (hlines : ∀ line ∈ lines, '\n' ∉ line)
    (hregexes : ∀ rule ∈ rules, '\n' ∉ rule.regex.toList)
    (hmodifiers : ∀ rule ∈ rules, ∀ modifier ∈ rule.modifiers, '\n' ∉ modifier.toList) :
    ∀ line ∈ pieces.flatMap Piece.written, '\n' ∉ line := by
  induction h with
  | nil => exact hlines
  | last => exact hlines
  | fill hslot hnext _ ih =>
      rw [List.forall_mem_cons, List.forall_mem_cons] at hlines
      obtain ⟨hline, hline', hrest⟩ := hlines
      obtain ⟨hregexIndent, haddIndent, htag⟩ := hslot.notMem hline hline'
      have hrule := List.mem_of_getElem? hnext.getElem?
      rw [List.flatMap_cons, Piece.written, List.cons_append, List.cons_append, List.nil_append,
        List.forall_mem_cons, List.forall_mem_cons]
      exact ⟨notMem_regexLine (by simp) hregexIndent (hregexes _ hrule),
        notMem_addLine (by simp) haddIndent (hmodifiers _ hrule) htag, ih hrest⟩
  | copy _ _ ih =>
      obtain ⟨hline, hrest⟩ := List.forall_mem_cons.mp hlines
      rw [List.flatMap_cons, Piece.written, List.singleton_append, List.forall_mem_cons]
      exact ⟨hline, ih hrest⟩

/-- There is one way only to read a template. -/
theorem unique (h : Fills rules used lines pieces) (h' : Fills rules used lines pieces') :
    pieces = pieces' := by
  induction h generalizing pieces' with
  | nil =>
      cases h'
      rfl
  | last =>
      cases h'
      rfl
  | fill hslot hnext _ ih =>
      cases h' with
      | fill hslot' hnext' hrest' =>
          cases hslot.unique hslot'
          obtain ⟨rfl, rfl⟩ := hnext.unique hnext'
          rw [ih hrest']
      | copy hused _ =>
          exact absurd (hused _ hslot _ _ hnext.getElem? hnext.scope_eq) hnext.notMem
  | copy hused _ ih =>
      cases h' with
      | fill hslot' hnext' _ =>
          exact absurd (hused _ hslot' _ _ hnext'.getElem? hnext'.scope_eq) hnext'.notMem
      | copy _ hrest' => rw [ih hrest']

end Fills

/-! ## The whole file -/

theorem config_some (rules : List Rule) (template : String) : config rules (some template) =
    String.ofList (unlines (fill (.ofRules rules) (Text.lines template.toList) ++
      unknownSection rules)) := rfl

/-- The pieces account for a template and for what is written in its place. -/
structure Accounts (rules : List Rule) (template : List (List Char)) (pieces : List Piece) :
    Prop where
  fills : Fills rules [] template pieces
  unique : ∀ pieces', Fills rules [] template pieces' → pieces' = pieces
  source_eq : pieces.flatMap Piece.source = template
  length_written : (pieces.flatMap Piece.written).length = template.length
  /-- Read again, the lines are as many, if no modifier breaks one. -/
  length_lines : (∀ rule ∈ rules, ∀ modifier ∈ rule.modifiers, '\n' ∉ modifier.toList) →
    (Text.lines (unlines (pieces.flatMap Piece.written))).length = template.length
  /-- No rule is written twice. -/
  nodup : (pieces.filterMap Piece.place?).Nodup
  /-- The slots for a scope take its rules in order, from the first on. -/
  in_order : ∀ scope, pieces.filterMap (Piece.entryFor? scope) <+: unused rules [] scope
  /-- All rules of the scope of a slot that is copied have been written before. -/
  unfilled : ∀ before line after next rest slot, pieces = before ++ .copied line :: after →
    after.flatMap Piece.source = next :: rest → IsSlot line next slot →
    ∀ place rule, rules[place]? = some rule → rule.scope = slot.scope →
      place ∈ before.filterMap Piece.place?

theorem accounts_of_fills {template : List (List Char)} {pieces : List Piece}
    (h : Fills rules [] template pieces) (hlines : ∀ line ∈ template, '\n' ∉ line)
    (hregexes : ∀ rule ∈ rules, '\n' ∉ rule.regex.toList) : Accounts rules template pieces where
  fills := h
  unique _ h' := h'.unique h
  source_eq := h.flatMap_source
  length_written := h.length_written
  length_lines hmodifiers := by
    rw [lines_unlines (h.notMem_written hlines hregexes hmodifiers), List.length_map,
      h.length_written]
  nodup := h.nodup_places.1
  in_order := h.in_order
  unfilled before line after next rest slot heq hnext hslot place rule hplace hscope := by
    subst heq
    exact (h.mem_of_unfilled hnext hslot hplace hscope).resolve_left List.not_mem_nil

/-- A file from a template is the template with its slots filled and then the section with all
rules. Each rule is spelled in two lines, in a slot as in the section. -/
theorem config_fills (hscopes : ∀ rule ∈ rules, '.' ∉ rule.scope.toList)
    (hregexes : ∀ rule ∈ rules, '\n' ∉ rule.regex.toList) (template : String) :
    ∃ pieces, Accounts rules (Text.lines template.toList) pieces ∧
      (∀ piece ∈ pieces, piece.Writes piece.written) ∧
      SpellsSection rules (unknownSection rules) ∧
      config rules (some template) =
        String.ofList (unlines (pieces.flatMap Piece.written ++ unknownSection rules)) := by
  obtain ⟨pieces, hfills, heq⟩ :=
    exists_fills hscopes (holds_ofRules rules) (Text.lines template.toList)
  refine ⟨pieces, accounts_of_fills hfills (fun _ => notMem_of_mem_lines) hregexes,
    fun piece _ => piece.writes_written, spellsSection_unknownSection rules, ?_⟩
  rw [config_some, heq]

/-- Two rules of one scope, and one of another between them. -/
def threeRules : List Rule :=
  [⟨"^i$", ["Custom0"], "code-type"⟩, ⟨"^'$", ["Custom1", "Custom2"], "code-quote"⟩,
    ⟨"^C", ["Custom0"], "code-type"⟩]

/-- Slots for all rules and for one rule too many. -/
def threeSlots : String :=
  "- regex: a\n add: # code.type\n\n  - regex:\n add: #code-quote\n- regex:\n add: #code-type\n" ++
    "- regex:\n add: #code.type\n"

/-- The quote is doubled, and the last slot is left as it is. -/
theorem config_fills_threeSlots : (∀ rule ∈ threeRules, '.' ∉ rule.scope.toList) ∧
    (∀ rule ∈ threeRules, '\n' ∉ rule.regex.toList) ∧
    ∃ pieces, Accounts threeRules (Text.lines threeSlots.toList) pieces ∧
      pieces.flatMap Piece.written =
        ["- regex: '^i$'".toList, " add: [Custom0]  # code.type".toList, [],
          "  - regex: '^''$'".toList, " add: [Custom1, Custom2]  # code-quote".toList,
          "- regex: '^C'".toList, " add: [Custom0]  # code-type".toList,
          "- regex:".toList, " add: #code.type".toList] ∧
      config threeRules (some threeSlots) =
        String.ofList (unlines (pieces.flatMap Piece.written ++ unknownSection threeRules)) := by
  have hscopes : ∀ rule ∈ threeRules, '.' ∉ rule.scope.toList := by simp [threeRules]
  have hregexes : ∀ rule ∈ threeRules, '\n' ∉ rule.regex.toList := by simp [threeRules]
  obtain ⟨pieces, haccounts, -, -, hconfig⟩ := config_fills hscopes hregexes threeSlots
  -- there are no other pieces, so these are written when the template is filled
  obtain ⟨filled, hfills, hwritten⟩ :=
    exists_fills hscopes (holds_ofRules threeRules) (Text.lines threeSlots.toList)
  rw [haccounts.unique filled hfills] at hwritten
  refine ⟨hscopes, hregexes, pieces, haccounts, ?_, hconfig⟩
  rw [← hwritten]
  cbv

end Lexicolor.Clangd
