import Mathlib
import Lexicolor.Proofs.Json.Distinct
import Lexicolor.Proofs.Theme.Repetition

/-!
# The order of merged entries

Merged entries stand in three blocks: those of a listed colour in the order of
the colours, then those of the highlighter, then the others. Entries that tie
keep the order in which their settings came up. An entry stands in the first of
the blocks that the entries merged into it belong to.
-/

namespace Lexicolor

variable {α : Type}

/-! ## Lists -/

section Sorting

variable {le : α → α → Bool} {l : List α}

/-- Sorting keeps the order of what ties with `k`. -/
theorem filter_ties_mergeSort (trans : ∀ a b c, le a b → le b c → le a c)
    (total : ∀ a b, (le a b || le b a) = true) (l : List α) (k : α) :
    (l.mergeSort le).filter (fun a => le a k && le k a) =
      l.filter fun a => le a k && le k a := by
  have hties : (l.filter fun a => le a k && le k a).Pairwise fun a b => le a b := by
    refine List.pairwise_of_forall_mem_list fun a ha b hb => ?_
    have hak := (List.mem_filter.mp ha).2
    have hkb := (List.mem_filter.mp hb).2
    rw [Bool.and_eq_true] at hak hkb
    exact trans a k b hak.1 hkb.2
  have hsub := (List.sublist_mergeSort trans total hties List.filter_sublist).filter
    fun a => le a k && le k a
  rw [List.filter_filter] at hsub
  simp only [Bool.and_self] at hsub
  exact (hsub.eq_of_length (((List.mergeSort_perm l le).filter _).length_eq.symm)).symm

theorem pairwise_mergeSort_of_pairwise {R : α → α → Prop}
    (trans : ∀ a b c, le a b → le b c → le a c) (total : ∀ a b, (le a b || le b a) = true)
    (h : l.Pairwise R) : (l.mergeSort le).Pairwise fun a b => le a b ∧ (le b a → R a b) := by
  have hsorted := List.pairwise_mergeSort trans total l
  rw [List.pairwise_iff_forall_sublist] at hsorted h ⊢
  intro a b hsub
  refine ⟨hsorted hsub, fun hback => h ?_⟩
  have hties : ∀ c ∈ [a, b], (le c b && le b c) = true := by
    simp [hsorted hsub, hback, show le b b = true by simpa using total b b]
  have hfilter := hsub.filter fun c => le c b && le b c
  rw [filter_ties_mergeSort trans total, List.filter_eq_self.mpr hties] at hfilter
  exact hfilter.trans List.filter_sublist

/-- What is in order falls into a part up to `k` and a part beyond. -/
theorem exists_append_of_pairwise {f : α → Nat} (h : l.Pairwise fun a b => f a ≤ f b) (k : Nat) :
    ∃ small large, l = small ++ large ∧ (∀ a ∈ small, f a ≤ k) ∧ ∀ a ∈ large, k < f a := by
  induction l with
  | nil => exact ⟨[], [], rfl, by simp, by simp⟩
  | cons a l ih =>
      obtain ⟨hall, htail⟩ := List.pairwise_cons.mp h
      rcases Nat.lt_or_ge k (f a) with hlt | hle
      · refine ⟨[], a :: l, rfl, by simp, List.forall_mem_cons.mpr ⟨hlt, fun b hb => ?_⟩⟩
        exact Nat.lt_of_lt_of_le hlt (hall b hb)
      · obtain ⟨small, large, rfl, hsmall, hlarge⟩ := ih htail
        exact ⟨a :: small, large, rfl, List.forall_mem_cons.mpr ⟨hle, hsmall⟩, hlarge⟩

end Sorting

/-- The last member with a property stands at `i`. -/
structure IsLastAt (p : α → Prop) (l : List α) (i : Nat) : Prop where
  found : ∃ a, l[i]? = some a ∧ p a
  last : ∀ j a, i < j → l[j]? = some a → ¬p a

section Last

variable {p : α → Prop} {l : List α} {a : α} {i : Nat}

theorem isLastAt_concat_of_pos (h : p a) : IsLastAt p (l ++ [a]) i ↔ i = l.length := by
  constructor
  · intro hlast
    obtain ⟨b, hb, -⟩ := hlast.found
    have hlt : i < (l ++ [a]).length := (List.getElem?_eq_some_iff.mp hb).1
    by_contra hne
    rw [List.length_append, List.length_singleton] at hlt
    exact hlast.last l.length a (by omega) (by simp) h
  · rintro rfl
    refine ⟨⟨a, by simp, h⟩, fun j b hj hb => ?_⟩
    have hlt := (List.getElem?_eq_some_iff.mp hb).1
    simp only [List.length_append, List.length_singleton] at hlt
    omega

theorem getElem?_concat_of_ne {b : α} (h : b ≠ a) : (l ++ [a])[i]? = some b ↔ l[i]? = some b := by
  rw [List.getElem?_append]
  split
  next => rfl
  next hge =>
    have hnone : l[i]? = none := List.getElem?_eq_none_iff.mpr (Nat.le_of_not_lt hge)
    rw [hnone]
    refine iff_of_false (fun hb => ?_) nofun
    exact h (List.mem_singleton.mp (List.mem_of_getElem? hb))

theorem isLastAt_concat_of_neg (h : ¬p a) : IsLastAt p (l ++ [a]) i ↔ IsLastAt p l i := by
  have hold {j : Nat} {b : α} (hp : p b) : (l ++ [a])[j]? = some b ↔ l[j]? = some b :=
    getElem?_concat_of_ne fun heq => h (heq ▸ hp)
  constructor
  · rintro ⟨⟨b, hb, hp⟩, hlast⟩
    exact ⟨⟨b, (hold hp).mp hb, hp⟩, fun j c hj hc hp' => hlast j c hj ((hold hp').mpr hc) hp'⟩
  · rintro ⟨⟨b, hb, hp⟩, hlast⟩
    exact ⟨⟨b, (hold hp).mpr hb, hp⟩, fun j c hj hc hp' => hlast j c hj ((hold hp').mp hc) hp'⟩

end Last

namespace Theme

open Json Unicode

variable {examples : List ColorExample} {rules : List Json} {rule entry : Json} {key : String}
variable {i block : Nat}

/-! ## The colours of the examples -/

theorem get?_colorOrder_eq_some_iff : (colorOrder examples).get? key = some i ↔
    IsLastAt (fun e => e.color ≠ "" ∧ lowerString e.color = key) examples i := by
  induction examples using List.reverseRecOn with
  | nil =>
      refine ⟨fun h => (nomatch h), fun h => ?_⟩
      obtain ⟨_, hfound, -⟩ := h.found
      cases hfound
  | append_singleton examples e ih =>
      rw [colorOrder, Table.get?_ofList] at ih ⊢
      rw [List.zipIdx_append, List.filter_append, List.map_append, List.reverse_append,
        lookupEntry_append]
      by_cases hcolor : e.color = ""
      · rw [isLastAt_concat_of_neg fun h => h.1 hcolor, ← ih]
        simp [hcolor, lookupEntry]
      · by_cases hkey : lowerString e.color = key
        · rw [isLastAt_concat_of_pos ⟨hcolor, hkey⟩]
          simpa [hcolor, hkey, lookupEntry] using eq_comm
        · rw [isLastAt_concat_of_neg fun h => hkey h.2, ← ih]
          simp [hcolor, hkey, lookupEntry]

/-! ## Blocks -/

/-- The foreground of the entry is a colour of the examples, but for capitals; the last example of
the colour stands at `i`. -/
def ListedAt (examples : List ColorExample) (entry : Json) (i : Nat) : Prop :=
  ∃ color, HasForeground entry color ∧
    IsLastAt (fun e => e.color ≠ "" ∧ lowerString e.color = lowerString color) examples i

/-- Some scope of the entry is the highlighter's. -/
def HasOwnScope (entry : Json) : Prop :=
  ∃ scope, Lists entry scope ∧ "malterlib.".toList <:+: scope.toList

/-- The block that an entry belongs to. -/
inductive InBlock (examples : List ColorExample) (entry : Json) : Nat → Prop
  | listed {i : Nat} (h : ListedAt examples entry i) : InBlock examples entry 0
  | own (hnot : ∀ i, ¬ListedAt examples entry i) (h : HasOwnScope entry) :
      InBlock examples entry 1
  | other (hnot : ∀ i, ¬ListedAt examples entry i) (h : ¬HasOwnScope entry) :
      InBlock examples entry 2

theorem get?_colorOrder_foreground : (colorOrder examples).get?
    (lowerString ((foreground? entry).getD "")) = some i ↔ ListedAt examples entry i := by
  simp only [get?_colorOrder_eq_some_iff, ListedAt, ← foreground?_eq_some_iff]
  cases hcolor : foreground? entry with
  | some color => simp
  | none =>
      -- no example counts whose colour is empty
      refine ⟨fun h => ?_, by simp⟩
      obtain ⟨e, -, hne, hlower⟩ := h.found
      exact absurd (lowerString_eq_empty_iff.mp hlower) hne

theorem any_namesOwnScope : (ruleScopes entry).any namesOwnScope ↔ HasOwnScope entry := by
  simp [HasOwnScope, namesOwnScope, Text.contains_iff, mem_ruleScopes_iff]

theorem priority_eq_listed_iff :
    priority (colorOrder examples) entry = .listed i ↔ ListedAt examples entry i := by
  rw [← get?_colorOrder_foreground, priority]
  split
  next position hget => simp [hget]
  next hget =>
    rw [hget]
    split <;> simp

theorem priority_of_not_listed (h : ∀ i, ¬ListedAt examples entry i) :
    priority (colorOrder examples) entry =
      if (ruleScopes entry).any namesOwnScope then .own else .other := by
  rw [priority]
  split
  next position hget => exact absurd (get?_colorOrder_foreground.mp hget) (h position)
  next => rfl

theorem inBlock_block (examples : List ColorExample) (entry : Json) :
    InBlock examples entry (priority (colorOrder examples) entry).block := by
  by_cases hlisted : ∃ i, ListedAt examples entry i
  · obtain ⟨i, hi⟩ := hlisted
    rw [priority_eq_listed_iff.mpr hi]
    exact .listed hi
  · have hnot := not_exists.mp hlisted
    rw [priority_of_not_listed hnot]
    split
    next hown => exact .own hnot (any_namesOwnScope.mp hown)
    next hother => exact .other hnot fun h => hother (any_namesOwnScope.mpr h)

theorem inBlock_iff :
    InBlock examples entry block ↔ (priority (colorOrder examples) entry).block = block := by
  constructor
  · intro h
    cases h with
    | listed h =>
        rw [priority_eq_listed_iff.mpr h]
        rfl
    | own hnot h =>
        rw [priority_of_not_listed hnot, if_pos (any_namesOwnScope.mpr h)]
        rfl
    | other hnot h =>
        rw [priority_of_not_listed hnot, if_neg fun hown => h (any_namesOwnScope.mp hown)]
        rfl
  · rintro rfl
    exact inBlock_block examples entry

/-! ## Merged entries -/

theorem distinct_of_keySorted {v : Json} (h : v.KeySorted) : v.Distinct := by
  induction h with
  | null => exact .null
  | bool b => exact .bool b
  | number n => exact .number n
  | string s => exact .string s
  | array _ ih => exact .array ih
  | object hkeys _ ih =>
      refine .object (hkeys.imp fun hlt heq => ?_) ih
      exact String.lt_irrefl _ (heq ▸ hlt)

/-- Where keys are not repeated, it does not matter which of them counts. -/
theorem member?_eq_get? {members : List (String × Json)} (h : (Json.object members).Distinct)
    (key : String) : member? key members = (Json.object members).get? key := by
  obtain _ | _ | _ | _ | _ | ⟨hkeys, -⟩ := h
  have hreverse : (members.reverse.map Prod.fst).Nodup := by
    rw [List.map_reverse]
    exact List.nodup_reverse.mpr hkeys
  refine Option.ext fun value => ?_
  rw [member?, lookupEntry_eq_some_iff hreverse, get?, lookupEntry_eq_some_iff hkeys,
    List.mem_reverse]

theorem asString?_of_alike {v w : Json} (h : v.Alike w) : v.asString? = w.asString? := by
  cases h <;> rfl

theorem asString?_get?_of_alike {v w : Json} (hv : v.Distinct) (hw : w.Distinct) (h : v.Alike w)
    (key : String) : (v.get? key).bind asString? = (w.get? key).bind asString? := by
  cases h with
  | @object members members' hkeys hmembers =>
      rw [← member?_eq_get? hv, ← member?_eq_get? hw]
      have hsome := hkeys key
      cases hm : member? key members with
      | none =>
          rw [hm, Option.isSome_none, eq_comm, Option.isSome_eq_false_iff,
            Option.isNone_iff_eq_none] at hsome
          rw [hsome]
      | some value =>
          rw [hm, Option.isSome_some, eq_comm, Option.isSome_iff_exists] at hsome
          obtain ⟨value', hvalue'⟩ := hsome
          rw [hvalue']
          exact asString?_of_alike (hmembers key value value' hm hvalue')
  | _ => rfl

theorem foreground?_eq (entry : Json) :
    foreground? entry = ((ruleSettings entry).get? "foreground").bind asString? := by
  rw [foreground?, ruleSettings]
  cases entry.get? "settings" <;> rfl

theorem distinct_ruleSettings (h : rule.Distinct) : (ruleSettings rule).Distinct := by
  rw [ruleSettings]
  cases hget : rule.get? "settings" with
  | none => exact .object List.nodup_nil (by simp)
  | some settings => exact h.get? hget

/-- Entries that are merged have the foreground of the merged entry. -/
theorem foreground?_of_alike (hrule : rule.Distinct) (hentry : (ruleSettings entry).Distinct)
    (h : (ruleSettings rule).Alike (ruleSettings entry)) :
    foreground? rule = foreground? entry := by
  rw [foreground?_eq, foreground?_eq]
  exact asString?_get?_of_alike (distinct_ruleSettings hrule) hentry h "foreground"

theorem listedAt_of_alike (hrule : rule.Distinct) (hentry : (ruleSettings entry).Distinct)
    (h : (ruleSettings rule).Alike (ruleSettings entry)) :
    ListedAt examples rule i ↔ ListedAt examples entry i := by
  simp only [ListedAt, ← foreground?_eq_some_iff, foreground?_of_alike hrule hentry h]

theorem alike_symm {v w : Json} (h : v.Alike w) : w.Alike v :=
  compact_canonical_eq_iff.mp (compact_canonical_eq_iff.mpr h).symm

/-- The blocks of the entries that are merged into an entry. -/
def mergedBlocks (examples : List ColorExample) (rules : List Json) (entry : Json) : Set Nat :=
  {block | ∃ rule ∈ rules, (ruleSettings rule).Alike (ruleSettings entry) ∧
    InBlock examples rule block}

theorem isLeast_mergedBlocks {settings : Json} {scopes : List String}
    (hrules : ∀ rule ∈ rules, rule.Distinct) (hclass : IsEntry rules settings scopes)
    (hentry : entry = .object [("scope", .stringArray scopes), ("settings", settings)])
    (hblock : InBlock examples entry block) :
    IsLeast (mergedBlocks examples rules entry) block := by
  have hsettings : ruleSettings entry = settings :=
    hentry ▸ ruleSettings_toRule ⟨settings, scopes⟩
  have hscopes : ruleScopes entry = scopes := hentry ▸ ruleScopes_toRule ⟨settings, scopes⟩
  have hdistinct : (ruleSettings entry).Distinct :=
    hsettings ▸ distinct_of_keySorted hclass.sorted
  have hlisted {rule : Json} {i : Nat} (hrule : rule ∈ rules)
      (h : (ruleSettings rule).Alike (ruleSettings entry)) :
      ListedAt examples rule i ↔ ListedAt examples entry i :=
    listedAt_of_alike (hrules rule hrule) hdistinct h
  have hown {scope : String} : Lists entry scope ↔
      ∃ rule ∈ rules, (ruleSettings rule).Alike (ruleSettings entry) ∧ Lists rule scope := by
    rw [← mem_ruleScopes_iff, hscopes, hsettings]
    exact hclass.mem_iff scope
  obtain ⟨given, hgiven, halike⟩ := hclass.given
  replace halike : (ruleSettings given).Alike (ruleSettings entry) := hsettings ▸ alike_symm halike
  -- a rule of the class is in the block of the entry, and none is in an earlier one
  cases hblock with
  | listed h =>
      refine ⟨⟨given, hgiven, halike, .listed ((hlisted hgiven halike).mpr h)⟩, ?_⟩
      exact fun _ _ => Nat.zero_le _
  | own hnot h =>
      obtain ⟨scope, hscope, hinfix⟩ := h
      obtain ⟨rule, hrule, hrule', hmem⟩ := hown.mp hscope
      refine ⟨⟨rule, hrule, hrule', .own (fun i hi => hnot i ((hlisted hrule hrule').mp hi))
        ⟨scope, hmem, hinfix⟩⟩, ?_⟩
      rintro block ⟨other, hother, hother', hblock⟩
      cases hblock with
      | listed h => exact absurd ((hlisted hother hother').mp h) (hnot _)
      | own | other => decide
  | other hnot h =>
      have hnone {other : Json} (hother : other ∈ rules)
          (hother' : (ruleSettings other).Alike (ruleSettings entry)) : ¬HasOwnScope other := by
        rintro ⟨scope, hscope, hinfix⟩
        exact h ⟨scope, hown.mpr ⟨other, hother, hother', hscope⟩, hinfix⟩
      refine ⟨⟨given, hgiven, halike, .other (fun i hi => hnot i ((hlisted hgiven halike).mp hi))
        (hnone hgiven halike)⟩, ?_⟩
      rintro block ⟨other, hother, hother', hblock⟩
      cases hblock with
      | listed h => exact absurd ((hlisted hother hother').mp h) (hnot _)
      | own _ h => exact absurd h (hnone hother hother')
      | other => exact le_rfl

/-! ## First uses -/

/-- The place of the first entry with such settings. -/
def firstUse (rules : List Json) (entry : Json) : Nat :=
  rules.findIdx fun rule => (ruleSettings rule).Alike (ruleSettings entry)

theorem firstUse_eq_idxOf (rules : List Json) (entry : Json) :
    firstUse rules entry = (rules.map settingsText).idxOf (settingsText entry) := by
  rw [firstUse, List.idxOf, List.findIdx_map]
  congr 1
  funext rule
  rw [Function.comp_apply, beq_eq_decide, decide_eq_decide, settingsText_eq_iff]

theorem pairwise_groups (rules : List Json) :
    ((rulesBySettings rules).values.map RuleGroup.toRule).Pairwise fun a b =>
      firstUse rules a < firstUse rules b := by
  have htexts := pairwise_eraseDups (rules.map settingsText)
  rw [← keys_rulesBySettings, ← map_settingsText_groups, List.pairwise_map] at htexts
  simpa only [firstUse_eq_idxOf] using htexts

/-- The entries are in order of priority, and where they tie in order of their first uses. -/
def InOrder (order : Table String Nat) (rules entries : List Json) : Prop :=
  entries.Pairwise fun a b => (priority order a).le (priority order b) ∧
    ((priority order b).le (priority order a) → firstUse rules a < firstUse rules b)

theorem inOrder_mergeRules (order : Table String Nat) (rules : List Json) :
    InOrder order rules (mergeRules order rules) :=
  pairwise_mergeSort_of_pairwise (fun _ _ _ => Priority.le_trans)
    (fun _ _ => Priority.le_total _ _) (pairwise_groups rules)

/-- Entries can stand in one order only. -/
theorem InOrder.eq_of_perm {order : Table String Nat} {entries entries' : List Json}
    (h : InOrder order rules entries) (h' : InOrder order rules entries')
    (hperm : entries.Perm entries') : entries = entries' := by
  apply hperm.eq_of_pairwise _ h h'
  intro a b _ _ hab hba
  exact absurd (hab.2 hba.1) (hba.2 hab.1).asymm

theorem inOrder_append {order : Table String Nat} {entries entries' : List Json}
    (h : InOrder order rules (entries ++ entries')) :
    InOrder order rules entries ∧ InOrder order rules entries' :=
  ⟨(List.pairwise_append.mp h).1, (List.pairwise_append.mp h).2.1⟩

/-! ## The three blocks -/

/-- The entries of the three blocks stand in order. -/
structure Arranged (examples : List ColorExample) (rules first second third : List Json) :
    Prop where
  listed : ∀ entry ∈ first, InBlock examples entry 0
  own : ∀ entry ∈ second, InBlock examples entry 1
  other : ∀ entry ∈ third, InBlock examples entry 2
  /-- The colours are in the order of the examples. -/
  listed_order : first.Pairwise fun a b => ∀ i j, ListedAt examples a i → ListedAt examples b j →
    i < j ∨ i = j ∧ firstUse rules a < firstUse rules b
  own_order : second.Pairwise fun a b => firstUse rules a < firstUse rules b
  other_order : third.Pairwise fun a b => firstUse rules a < firstUse rules b

theorem Priority.block_le_of_le {p q : Priority} (h : p.le q) : p.block ≤ q.block := by
  rw [Priority.le_iff, Prod.Lex.toLex_le_toLex] at h
  exact h.elim le_of_lt fun heq => heq.1.le

theorem Priority.listed_le_iff {i j : Nat} : (listed i).le (listed j) ↔ i ≤ j := by
  rw [Priority.le_iff, Prod.Lex.toLex_le_toLex]
  simp [Priority.rank]

theorem Priority.block_le_two (p : Priority) : p.block ≤ 2 := by
  cases p <;> simp [Priority.block, Priority.rank]

theorem Priority.le_of_block_ne_zero {p q : Priority} (hp : p.block ≠ 0)
    (h : p.block = q.block) : p.le q := by
  cases p <;> cases q <;> first | rfl | contradiction

/-- Of one block but the first, all entries tie. -/
theorem InOrder.pairwise_block {order : Table String Nat} {entries : List Json}
    (h : InOrder order rules entries) (hne : block ≠ 0)
    (hblock : ∀ entry ∈ entries, (priority order entry).block = block) :
    entries.Pairwise fun a b => firstUse rules a < firstUse rules b := by
  refine List.Pairwise.imp_of_mem ?_ h
  intro a b ha hb hab
  apply hab.2
  exact Priority.le_of_block_ne_zero (by rwa [hblock b hb]) (by rw [hblock a ha, hblock b hb])

theorem InOrder.pairwise_listed {entries : List Json}
    (h : InOrder (colorOrder examples) rules entries) :
    entries.Pairwise fun a b => ∀ i j, ListedAt examples a i → ListedAt examples b j →
      i < j ∨ i = j ∧ firstUse rules a < firstUse rules b := by
  refine h.imp fun {a b} hab i j hi hj => ?_
  rw [priority_eq_listed_iff.mpr hi, priority_eq_listed_iff.mpr hj] at hab
  rcases Nat.lt_or_eq_of_le (Priority.listed_le_iff.mp hab.1) with hlt | rfl
  · exact .inl hlt
  · exact .inr ⟨rfl, hab.2 (Priority.listed_le_iff.mpr le_rfl)⟩

theorem exists_arranged (examples : List ColorExample) (rules : List Json) :
    ∃ first second third, mergeRules (colorOrder examples) rules = first ++ second ++ third ∧
      Arranged examples rules first second third := by
  have horder := inOrder_mergeRules (colorOrder examples) rules
  have hblocks : (mergeRules (colorOrder examples) rules).Pairwise fun a b =>
      (priority (colorOrder examples) a).block ≤ (priority (colorOrder examples) b).block :=
    horder.imp fun hab => Priority.block_le_of_le hab.1
  -- the blocks ascend, so the entries can be cut behind the first and behind the second one
  obtain ⟨first, rest, hrest, hfirst, hnot⟩ := exists_append_of_pairwise hblocks 0
  rw [hrest] at hblocks
  obtain ⟨second, third, rfl, hsecond, hthird⟩ :=
    exists_append_of_pairwise (List.pairwise_append.mp hblocks).2.1 1
  have hzero : ∀ entry ∈ first, (priority (colorOrder examples) entry).block = 0 :=
    fun entry hentry => Nat.le_zero.mp (hfirst entry hentry)
  have hone : ∀ entry ∈ second, (priority (colorOrder examples) entry).block = 1 :=
    fun entry hentry => Nat.le_antisymm (hsecond entry hentry)
      (hnot entry (List.mem_append_left third hentry))
  have htwo : ∀ entry ∈ third, (priority (colorOrder examples) entry).block = 2 :=
    fun entry hentry => Nat.le_antisymm (Priority.block_le_two _) (hthird entry hentry)
  rw [hrest] at horder ⊢
  obtain ⟨hfirst, hrest⟩ := inOrder_append horder
  obtain ⟨hsecond, hthird⟩ := inOrder_append hrest
  exact ⟨first, second, third, (List.append_assoc ..).symm, {
    listed := fun entry hentry => inBlock_iff.mpr (hzero entry hentry)
    own := fun entry hentry => inBlock_iff.mpr (hone entry hentry)
    other := fun entry hentry => inBlock_iff.mpr (htwo entry hentry)
    listed_order := hfirst.pairwise_listed
    own_order := hsecond.pairwise_block Nat.one_ne_zero hone
    other_order := hthird.pairwise_block (Nat.succ_ne_zero 1) htwo }⟩

theorem Arranged.countP_block {first second third : List Json}
    (h : Arranged examples rules first second third) (block : Nat) :
    (first ++ second ++ third).countP
        (fun entry => (priority (colorOrder examples) entry).block = block) =
      (if block = 0 then first.length else 0) + (if block = 1 then second.length else 0) +
        if block = 2 then third.length else 0 := by
  have hcount {entries : List Json} {k : Nat} (hall : ∀ entry ∈ entries, InBlock examples entry k) :
      entries.countP (fun entry => (priority (colorOrder examples) entry).block = block) =
        if block = k then entries.length else 0 := by
    split
    next heq =>
      exact List.countP_eq_length.mpr fun entry hentry => by
        simpa [heq] using inBlock_iff.mp (hall entry hentry)
    next hne =>
      exact List.countP_eq_zero.mpr fun entry hentry => by
        simpa [inBlock_iff.mp (hall entry hentry)] using Ne.symm hne
  rw [List.countP_append, List.countP_append, hcount h.listed, hcount h.own, hcount h.other]

theorem Arranged.foreground {first second third : List Json}
    (h : Arranged examples rules first second third) :
    ∀ entry ∈ first, ∃ color, HasForeground entry color ∧ color ≠ "" := by
  intro entry hentry
  obtain ⟨i, color, hcolor, hlast⟩ : ∃ i, ListedAt examples entry i := by
    cases h.listed entry hentry with
    | listed hlisted => exact ⟨_, hlisted⟩
  refine ⟨color, hcolor, ?_⟩
  rintro rfl
  obtain ⟨e, -, hne, hlower⟩ := hlast.found
  exact hne (lowerString_eq_empty_iff.mp hlower)

/-! ## The theme -/

/-- The merged token colours of a theme stand in three blocks, each in order. No entry of the first
block is without a foreground, each entry stands in the least of the blocks of the entries that are
merged into it, and the report counts the entries of the blocks. -/
theorem dedupe_arranges (examples : List ColorExample) (theme : Json) (rules : List Json)
    (hrules : theme.get? "tokenColors" = some (.array rules)) (hdistinct : theme.Distinct) :
    ∃ first second third,
      (dedupe (colorOrder examples) theme).1.get? "tokenColors" =
        some (.array (first ++ second ++ third)) ∧
      Merges rules (first ++ second ++ third) ∧ Arranged examples rules first second third ∧
      (∀ entry ∈ first, ∃ color, HasForeground entry color ∧ color ≠ "") ∧
      (∀ entry ∈ first ++ second ++ third, ∀ block, InBlock examples entry block →
        IsLeast (mergedBlocks examples rules entry) block) ∧
      (dedupe (colorOrder examples) theme).2.byPriority =
        (first.length, second.length, third.length) ∧
      first.length + second.length + third.length =
        (dedupe (colorOrder examples) theme).2.after := by
  have hcolors : tokenColors theme = rules := by
    rw [tokenColors, hrules]
    rfl
  obtain ⟨first, second, third, hentries, harranged⟩ := exists_arranged examples rules
  have hmerges := merges_mergeRules (colorOrder examples) rules
  rw [hentries] at hmerges
  refine ⟨first, second, third, ?_, hmerges, harranged, harranged.foreground, ?_, ?_, ?_⟩
  · rw [dedupe, hcolors, hentries]
    cases theme with
    | object members => rw [Json.set, get?, lookupEntry_alterEntries, if_pos rfl]
    | _ => cases hrules
  · intro entry hentry block hblock
    obtain ⟨settings, scopes, hclass, heq⟩ := hmerges.entry entry hentry
    have hrule : ∀ rule ∈ rules, rule.Distinct := by
      cases hdistinct.get? hrules with
      | array h => exact h
    exact isLeast_mergedBlocks hrule hclass heq hblock
  · rw [dedupe, hcolors, hentries]
    simp only [harranged.countP_block]
    simp
  · rw [dedupe, hcolors, hentries, List.length_append, List.length_append]

/-- An entry that gives a colour to a scope. -/
def colorRule (scope color : String) : Json :=
  .object [("scope", .string scope), ("settings", .ofStrings [("foreground", color)])]

theorem distinct_colorRule (scope color : String) : (colorRule scope color).Distinct := by
  refine .object (by simp) ?_
  simp only [List.forall_mem_cons]
  exact ⟨.string scope, .object (by simp) (by simp [Distinct.string]), by simp⟩

/-- A red of two examples, a green, and a colour that is left out. -/
def redGreen : List ColorExample := [⟨"#FF0000", []⟩, ⟨"", []⟩, ⟨"#00ff00", []⟩, ⟨"#ff0000", []⟩]

/-- Two grey entries, of which the second has a scope of the highlighter, between others. -/
def mixedRules : List Json := [
  colorRule "keyword" "#123456", colorRule "comment" "#888888", colorRule "a" "#Ff0000",
  colorRule "malterlib.x" "#0000ff", colorRule "b" "#00FF00", colorRule "malterlib.c" "#888888"]

def mergedRule (scopes : List String) (color : String) : Json :=
  .object [("scope", .stringArray scopes), ("settings", .ofStrings [("foreground", color)])]

def mixedEntries : List Json := [
  mergedRule ["b"] "#00FF00", mergedRule ["a"] "#Ff0000",
  mergedRule ["comment", "malterlib.c"] "#888888", mergedRule ["malterlib.x"] "#0000ff",
  mergedRule ["keyword"] "#123456"]

theorem mergeRules_mixedRules : mergeRules (colorOrder redGreen) mixedRules = mixedEntries := by
  have horder : InOrder (colorOrder redGreen) mixedRules mixedEntries := by
    rw [InOrder]
    decide +kernel
  have hgroups : ((rulesBySettings mixedRules).values.map RuleGroup.toRule).Perm mixedEntries := by
    decide +kernel
  exact (inOrder_mergeRules _ _).eq_of_perm horder ((perm_mergeRules _ _).trans hgroups)

/-- The two listed colours come first, the green before the red, which the last example has. The two
grey entries become one, next to the other entry of the highlighter. -/
theorem dedupe_arranges_mixedRules :
    ∃ first second third, Arranged redGreen mixedRules first second third ∧
      first = [mergedRule ["b"] "#00FF00", mergedRule ["a"] "#Ff0000"] ∧
      second = [mergedRule ["comment", "malterlib.c"] "#888888",
        mergedRule ["malterlib.x"] "#0000ff"] ∧
      third = [mergedRule ["keyword"] "#123456"] := by
  let theme : Json := .object [("tokenColors", .array mixedRules)]
  have hdistinct : theme.Distinct := by
    refine .object (by simp) ?_
    simp only [List.forall_mem_singleton]
    refine .array ?_
    simp [mixedRules, distinct_colorRule]
  obtain ⟨first, second, third, hcolors, -, harranged, -, -, hblocks, -⟩ :=
    dedupe_arranges redGreen theme mixedRules rfl hdistinct
  have hrules : tokenColors theme = mixedRules := rfl
  rw [dedupe, hrules, mergeRules_mixedRules] at hcolors hblocks
  have hentries : some (array mixedEntries) = some (array (first ++ second ++ third)) := hcolors
  have hcounts : (2, 2, 1) = (first.length, second.length, third.length) := by
    rw [← hblocks]
    decide +kernel
  -- the sizes of the blocks say where the entries are to be cut
  obtain ⟨-, hcounts⟩ := Prod.mk.inj hcounts
  obtain ⟨htwo, hone⟩ := Prod.mk.inj hcounts
  have hcut : first ++ second ++ third = (mixedEntries.take 2 ++ (mixedEntries.drop 2).take 2) ++
      mixedEntries.drop 4 := (array.inj (Option.some.inj hentries)).symm
  obtain ⟨hfront, hthird⟩ := List.append_inj' hcut hone.symm
  obtain ⟨hfirst, hsecond⟩ := List.append_inj' hfront htwo.symm
  exact ⟨first, second, third, harranged, hfirst, hsecond, hthird⟩

end Theme

end Lexicolor
