import Mathlib
import Lexicolor.Proofs.Theme.Entries
import Lexicolor.Theme.Dedupe

/-!
# Scopes of several entries

The report on duplicate scopes counts the places where a scope stands, and not
the entries that list it. So it tells the entries of a scope, each of them once,
exactly if no entry lists the scope twice.
-/

namespace Lexicolor.Theme

open Json

variable {rules : List Json} {rule : Json} {scope color : String} {i : Nat}

/-! ## Places of a scope -/

/-- The foreground of an entry as the report shows it. -/
def shownColor (rule : Json) : String := (foreground? rule).getD "N/A"

/-- An entry with its place, once for each time that it lists the scope. -/
def repeats (scope : String) (entry : Json × Nat) : Appearances :=
  List.replicate ((ruleScopes entry.1).count scope) (entry.2, shownColor entry.1)

/-- The entries that list the scope in their order, each as often as it lists it. -/
def mentions (rules : List Json) (scope : String) : Appearances :=
  rules.zipIdx.flatMap (repeats scope)

/-- The scopes of an entry, each with what the report says of the entry. -/
def scopeItems (entry : Json × Nat) : List (String × (Nat × String)) :=
  (ruleScopes entry.1).map fun scope => (scope, entry.2, shownColor entry.1)

theorem filter_scopeItems (scope : String) (entry : Json × Nat) :
    ((scopeItems entry).filter fun item => item.1 = scope).map Prod.snd = repeats scope entry := by
  rw [scopeItems, repeats]
  induction ruleScopes entry.1 with
  | nil => rfl
  | cons other scopes ih =>
      by_cases h : other = scope
      · simp [h, ih, List.replicate_succ]
      · simp [h, ih]

/-- A scope is reported if it stands in more than one place, and then with all of them. -/
theorem get?_duplicateScopes (rules : List Json) (scope : String) :
    (duplicateScopes rules).get? scope =
      if 1 < (mentions rules scope).length then some (mentions rules scope) else none := by
  have hmentions : ((rules.zipIdx.flatMap scopeItems).filter fun item => item.1 = scope).map
      Prod.snd = mentions rules scope := by
    rw [List.filter_flatMap, List.map_flatMap, mentions]
    exact List.flatMap_congr fun entry _ => filter_scopeItems scope entry
  have hcollect := Table.get?_collect Prod.fst Prod.snd (rules.zipIdx.flatMap scopeItems) scope
  simp only [List.foldl_flatMap, scopeItems, List.foldl_map] at hcollect
  rw [duplicateScopes, Table.get?_filter]
  refine (congrArg _ hcollect).trans ?_
  rw [← hmentions, collected]
  split
  next hnil => simp [hnil]
  next => simp [Option.filter_some]

/-! ## Places of entries -/

theorem mem_repeats {entry : Json × Nat} : (i, color) ∈ repeats scope entry ↔
    scope ∈ ruleScopes entry.1 ∧ i = entry.2 ∧ color = shownColor entry.1 := by
  rw [repeats, List.mem_replicate, ← Nat.pos_iff_ne_zero, List.count_pos_iff, Prod.mk.injEq]

theorem mem_mentions : (i, color) ∈ mentions rules scope ↔
    ∃ rule, rules[i]? = some rule ∧ scope ∈ ruleScopes rule ∧ color = shownColor rule := by
  simp only [mentions, List.mem_flatMap, Prod.exists, List.mem_zipIdx_iff_getElem?, mem_repeats]
  constructor
  · rintro ⟨rule, _, hrule, hscope, rfl, rfl⟩
    exact ⟨rule, hrule, hscope, rfl⟩
  · rintro ⟨rule, hrule, hscope, rfl⟩
    exact ⟨rule, i, hrule, hscope, rfl, rfl⟩

/-- No entry is mentioned twice, if none lists the scope twice. -/
theorem pairwise_mentions (h : ∀ rule ∈ rules, (ruleScopes rule).count scope ≤ 1) :
    ((mentions rules scope).map Prod.fst).Pairwise (· < ·) := by
  rw [mentions, List.pairwise_map, List.pairwise_flatMap]
  constructor
  · intro entry hentry
    exact List.pairwise_replicate.mpr (.inl (h entry.1 (List.fst_mem_of_mem_zipIdx hentry)))
  · refine (pairwise_zipIdx rules).imp fun {a b} hab p hp q hq => ?_
    rw [List.eq_of_mem_replicate hp, List.eq_of_mem_replicate hq]
    exact hab

/-- An entry that lists the scope twice is mentioned twice. -/
theorem sublist_mentions (hrule : rules[i]? = some rule) :
    (repeats scope (rule, i)).Sublist (mentions rules scope) := by
  rw [mentions, List.flatMap_def]
  exact List.sublist_flatten_of_mem
    (List.mem_map_of_mem (List.mem_zipIdx_iff_getElem?.mpr hrule))

/-! ## The report -/

/-- The entry at the place lists the scope. -/
def ListedBy (rules : List Json) (scope : String) (i : Nat) : Prop :=
  ∃ rule, rules[i]? = some rule ∧ Lists rule scope

/-- What the report shows of an entry: its foreground, or that it has none. -/
inductive Shows (rule : Json) : String → Prop
  | color {color : String} (h : HasForeground rule color) : Shows rule color
  | none (h : ∀ color, ¬HasForeground rule color) : Shows rule "N/A"

theorem shows_iff : Shows rule color ↔ color = shownColor rule := by
  rw [shownColor]
  cases hforeground : foreground? rule with
  | some shown =>
      have hshown := foreground?_eq_some_iff.mp hforeground
      rw [Option.getD_some]
      constructor
      · intro h
        cases h with
        | color h => exact Option.some.inj ((foreground?_eq_some_iff.mpr h).symm.trans hforeground)
        | none h => exact absurd hshown (h shown)
      · intro heq
        exact heq ▸ .color hshown
  | none =>
      have hnone (color : String) : ¬HasForeground rule color := by
        rw [← foreground?_eq_some_iff, hforeground]
        exact (Option.some_ne_none color).symm
      rw [Option.getD_none]
      constructor
      · intro h
        cases h with
        | color h => exact absurd h (hnone _)
        | none => rfl
      · intro heq
        exact heq ▸ .none hnone

/-- The report tells of a scope that two entries list, and of no other. It tells each of the
entries once, in order, with its foreground. -/
structure TellsEntries (rules : List Json) (found : Table String Appearances) (scope : String) :
    Prop where
  isSome_iff : (found.get? scope).isSome ↔
    ∃ i j, i ≠ j ∧ ListedBy rules scope i ∧ ListedBy rules scope j
  ascending : ∀ told, found.get? scope = some told → (told.map Prod.fst).Pairwise (· < ·)
  mem_iff : ∀ told, found.get? scope = some told → ∀ i color, (i, color) ∈ told ↔
    ∃ rule, rules[i]? = some rule ∧ Lists rule scope ∧ Shows rule color

theorem exists_mem_mentions : (∃ color, (i, color) ∈ mentions rules scope) ↔
    ListedBy rules scope i := by
  simp [mem_mentions, ListedBy, mem_ruleScopes_iff]

/-- Two places are mentioned if two entries list the scope. -/
theorem one_lt_length_mentions (h : ((mentions rules scope).map Prod.fst).Nodup) :
    1 < (mentions rules scope).length ↔
      ∃ i j, i ≠ j ∧ ListedBy rules scope i ∧ ListedBy rules scope j := by
  rw [← List.length_map Prod.fst, ← List.toFinset_card_of_nodup h, Finset.one_lt_card]
  simp only [List.mem_toFinset, List.mem_map, Prod.exists, exists_and_right, exists_eq_right,
    exists_mem_mentions]
  constructor
  · rintro ⟨i, hi, j, hj, hne⟩
    exact ⟨i, j, hne, hi, hj⟩
  · rintro ⟨i, j, hne, hi, hj⟩
    exact ⟨i, hi, j, hj, hne⟩

theorem tellsEntries_iff : TellsEntries rules (duplicateScopes rules) scope ↔
    ∀ rule ∈ rules, (ruleScopes rule).count scope ≤ 1 := by
  constructor
  · intro h rule hrule
    -- a rule with the scope twice would be told twice at the same place
    by_contra htwice
    obtain ⟨i, hi⟩ := List.mem_iff_getElem?.mp hrule
    have hsub : (repeats scope (rule, i)).Sublist (mentions rules scope) := sublist_mentions hi
    have hget := get?_duplicateScopes rules scope
    have hlength : 1 < (mentions rules scope).length := by
      have hle := hsub.length_le
      rw [repeats, List.length_replicate] at hle
      exact Nat.lt_of_lt_of_le (Nat.lt_of_not_le htwice) hle
    rw [if_pos hlength] at hget
    have hpairwise := (h.ascending _ hget).sublist (hsub.map Prod.fst)
    rw [repeats, List.map_replicate, List.pairwise_replicate] at hpairwise
    exact hpairwise.elim htwice (Nat.lt_irrefl i)
  · intro h
    have hpairwise := pairwise_mentions h
    have hget := get?_duplicateScopes rules scope
    have htold : ∀ told, (duplicateScopes rules).get? scope = some told →
        told = mentions rules scope := by
      intro told htold
      rw [hget] at htold
      split at htold
      next => exact (Option.some.inj htold).symm
      next => cases htold
    refine ⟨?_, ?_, ?_⟩
    · rw [hget, ← one_lt_length_mentions (hpairwise.imp Nat.ne_of_lt)]
      split <;> simp_all
    · intro told h
      rw [htold told h]
      exact hpairwise
    · intro told h i color
      rw [htold told h, mem_mentions]
      simp only [mem_ruleScopes_iff, shows_iff]

/-- The report on a scope counts its places in the lists. It tells of the entries that list the
scope exactly if none of them lists it twice. -/
theorem dedupe_tellsEntries_iff (order : Table String Nat) (theme : Json) (scope : String) :
    (dedupe order theme).2.duplicateScopes.get? scope =
        (if 1 < (mentions (tokenColors theme) scope).length then
          some (mentions (tokenColors theme) scope) else none) ∧
      (TellsEntries (tokenColors theme) (dedupe order theme).2.duplicateScopes scope ↔
        ∀ rule ∈ tokenColors theme, (ruleScopes rule).count scope ≤ 1) :=
  ⟨get?_duplicateScopes _ scope, tellsEntries_iff⟩

/-- A theme with one entry, which lists its scope twice. -/
def repeatedScope : Json :=
  .object [("tokenColors", .array [.object [("scope", .stringArray ["a", "a"])]])]

/-- The only entry with the scope is told of as two. -/
theorem not_forall_tellsEntries : ¬ ∀ (order : Table String Nat) (theme : Json) (scope : String),
    TellsEntries (tokenColors theme) (dedupe order theme).2.duplicateScopes scope := by
  intro h
  have hcount := tellsEntries_iff.mp (h .empty repeatedScope "a")
  exact absurd (hcount _ List.mem_cons_self) (by decide)

end Lexicolor.Theme
