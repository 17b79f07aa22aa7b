import Mathlib
import Lexicolor.Classifier

/-!
# The scope of an identifier

The buckets of a classifier hold exactly the prefixes of its table, each among
those of its kind and length. So the descent through the lengths finds the
longest prefix that fits, and the order of the table's entries has no effect.
-/

namespace Lexicolor

open Identifier

/-! ## What decides -/

/-- A prefix of the table that fits the identifier. -/
structure ScopeTable.Fits (table : ScopeTable) (name head : String) (entry : PrefixScope) :
    Prop where
  mem : table.prefixes.get? head = some entry
  fits : (if entry.isVariable then fitsVariable else fitsPlain) head.toList name.toList = true

/-- The scope of an identifier through a prefix that fits. -/
def PrefixScope.scopeOf (entry : PrefixScope) (head name : String) : String :=
  if entry.isVariable = false ∧ head = "E" ∧ '_' ∉ name.toList then Scope.enumeration
  else if entry.isVariable = false ∧ head = "CF" ∧ "Ref".toList <:+ name.toList then Scope.type
  else entry.scope

/-- The keyword has no scope, or an empty one. -/
def ScopeTable.Unlisted (table : ScopeTable) (name : String) : Prop :=
  ∀ scope, table.keywords.get? name = some scope → scope = ""

/-- What decides the scope of an identifier: the keyword, or else the longest prefix that fits. -/
inductive ScopeTable.Decides (table : ScopeTable) (name : String) : Option String → Prop
  | keyword {scope : String} : table.keywords.get? name = some scope → scope ≠ "" →
      Decides table name (some scope)
  | unknown : table.Unlisted name → (∀ head entry, ¬table.Fits name head entry) →
      Decides table name none
  | longest {head : String} {entry : PrefixScope} : table.Unlisted name →
      table.Fits name head entry →
      (∀ other entry', table.Fits name other entry' → other.length ≤ head.length) →
      Decides table name (some (entry.scopeOf head name))

/-! ## Buckets -/

namespace Classifier

variable {c : Classifier} {longest : Nat} {entries : List (String × PrefixScope)}
variable {table : ScopeTable} {name : String} {scope : String} {n : Nat}

/-- The prefixes of one kind and length, with their scopes. -/
def bucket (c : Classifier) (isVariable : Bool) (length : Nat) : Table String String :=
  ((if isVariable then c.variableByLength else c.plainByLength)[length]?).getD .empty

/-- The buckets hold the entries, each among those of its kind and length. -/
structure Holds (c : Classifier) (longest : Nat) (entries : List (String × PrefixScope)) :
    Prop where
  plain_size : c.plainByLength.length = longest + 1
  variable_size : c.variableByLength.length = longest + 1
  get?_bucket : ∀ isVariable length name scope,
    (c.bucket isVariable length).get? name = some scope ↔
      name.length = length ∧ (name, (⟨scope, isVariable⟩ : PrefixScope)) ∈ entries

theorem get?_file {byLength : List (Table String String)} (h : name.length < byLength.length)
    (scope other : String) (length : Nat) :
    (((file byLength name scope)[length]?).getD .empty).get? other =
      if name.length = length ∧ name = other then some scope
      else ((byLength[length]?).getD .empty).get? other := by
  rw [file, List.getElem?_modify]
  by_cases hlength : name.length = length
  · subst hlength
    simp [h, Table.set, Table.get?_alter]
  · simp [hlength]

theorem Holds.get?_addPrefix (h : c.Holds longest entries) (hlength : name.length ≤ longest)
    (entry : PrefixScope) (kind : Bool) (length : Nat) (other : String) :
    ((c.addPrefix name entry).bucket kind length).get? other =
      if entry.isVariable = kind ∧ name.length = length ∧ name = other then some entry.scope
      else (c.bucket kind length).get? other := by
  have hplain : name.length < c.plainByLength.length := by rw [h.plain_size]; omega
  have hvariable : name.length < c.variableByLength.length := by rw [h.variable_size]; omega
  cases hkind : entry.isVariable <;> cases kind <;>
    simp [addPrefix, bucket, hkind, get?_file, hplain, hvariable]

/-- Adding a prefix that is not there yet keeps the buckets in line with the entries. -/
theorem Holds.addPrefix (h : c.Holds longest entries) (hlength : name.length ≤ longest)
    (hnew : name ∉ entries.map Prod.fst) (entry : PrefixScope) :
    (c.addPrefix name entry).Holds longest (entries ++ [(name, entry)]) := by
  refine ⟨?_, ?_, ?_⟩
  · cases hkind : entry.isVariable <;> simp [Classifier.addPrefix, hkind, file, h.plain_size]
  · cases hkind : entry.isVariable <;> simp [Classifier.addPrefix, hkind, file, h.variable_size]
  · intro kind length other scope
    rw [h.get?_addPrefix hlength, List.mem_append, List.mem_singleton, Prod.mk.injEq]
    -- the name is new, so only its own bucket changes
    by_cases heq : name = other
    · subst heq
      have hnot : (name, (⟨scope, kind⟩ : PrefixScope)) ∉ entries := fun hmem =>
        hnew (List.mem_map.mpr ⟨_, hmem, rfl⟩)
      have hold : (c.bucket kind length).get? name ≠ some scope := fun hget =>
        hnot ((h.get?_bucket ..).mp hget).2
      obtain ⟨scope', kind'⟩ := entry
      by_cases hcond : kind' = kind ∧ name.length = length
      · simp [hcond, hnot, eq_comm]
      · rw [if_neg fun hall => hcond ⟨hall.1, hall.2.1⟩]
        refine iff_of_false hold ?_
        rintro ⟨hlen, hmem | ⟨_, hentry⟩⟩
        · exact hnot hmem
        · cases hentry
          exact hcond ⟨rfl, hlen⟩
    · rw [if_neg fun hall => heq hall.2.2, h.get?_bucket]
      simp [Ne.symm heq]

theorem Holds.foldl {done : List (String × PrefixScope)} (h : c.Holds longest done)
    (hlength : ∀ entry ∈ entries, entry.1.length ≤ longest)
    (hnodup : ((done ++ entries).map Prod.fst).Nodup) :
    (entries.foldl (fun c (name, entry) => c.addPrefix name entry) c).Holds longest
      (done ++ entries) := by
  induction entries generalizing c done with
  | nil => simpa using h
  | cons entry rest ih =>
      obtain ⟨name, entry⟩ := entry
      -- a repeated name would replace an entry of its bucket
      have hnew : name ∉ done.map Prod.fst := by
        intro hmem
        rw [List.map_append, List.nodup_append] at hnodup
        exact hnodup.2.2 name hmem name (by simp) rfl
      have hstep := h.addPrefix (hlength _ List.mem_cons_self) hnew entry
      rw [List.append_cons] at hnodup ⊢
      exact ih hstep (fun e he => hlength e (List.mem_cons_of_mem _ he)) hnodup

theorem holds_ofTable (table : ScopeTable) :
    (ofTable table).Holds (longestLength table) table.prefixes.entries := by
  have hlength : ∀ entry ∈ table.prefixes.entries, entry.1.length ≤ longestLength table := by
    intro entry hmem
    exact List.le_max_of_le' _ (List.mem_map.mpr ⟨entry.1, List.mem_map.mpr ⟨_, hmem, rfl⟩, rfl⟩)
      le_rfl
  let buckets : List (Table String String) := List.replicate (longestLength table + 1) .empty
  have hempty : ∀ n : Nat, (buckets[n]?).getD .empty = .empty := by
    intro n
    rw [List.getElem?_replicate]
    split <;> rfl
  have hstart : (⟨table.keywords.filter fun _ scope => scope ≠ "", buckets, buckets⟩ :
      Classifier).Holds (longestLength table) [] := by
    refine ⟨List.length_replicate, List.length_replicate, ?_⟩
    intro kind length name scope
    simp [bucket, hempty]
  exact hstart.foldl hlength table.prefixes.nodup

@[simp] theorem keywords_addPrefix (c : Classifier) (name : String) (entry : PrefixScope) :
    (c.addPrefix name entry).keywords = c.keywords := by
  unfold addPrefix
  split <;> rfl

theorem keywords_ofTable (table : ScopeTable) :
    (ofTable table).keywords = table.keywords.filter fun _ scope => scope ≠ "" := by
  suffices h : ∀ (entries : List (String × PrefixScope)) (c : Classifier),
      (entries.foldl (fun c (name, entry) => c.addPrefix name entry) c).keywords = c.keywords from
    h table.prefixes.entries _
  intro entries
  induction entries with
  | nil => exact fun _ => rfl
  | cons entry rest ih => exact fun c => (ih _).trans (keywords_addPrefix ..)

end Classifier

/-! ## The descent through the lengths -/

namespace ScopeTable.Fits

variable {table : ScopeTable} {name head other : String} {entry entry' : PrefixScope}

theorem eq_append (h : table.Fits name head entry) : ∃ rest, name.toList = head.toList ++ rest := by
  have hfits := h.fits
  split at hfits
  · rcases fitsVariable_iff.mp hfits with hplain | ⟨k, c, rest, -, -, heq⟩
    · obtain ⟨c, rest, -, heq⟩ := fitsPlain_iff.mp hplain
      exact ⟨_, heq⟩
    · exact ⟨_, heq⟩
  · obtain ⟨c, rest, -, heq⟩ := fitsPlain_iff.mp hfits
    exact ⟨_, heq⟩

theorem toList_eq_take (h : table.Fits name head entry) :
    head.toList = name.toList.take head.length := by
  obtain ⟨rest, heq⟩ := h.eq_append
  rw [heq, ← String.length_toList, List.take_left]

theorem length_le (h : table.Fits name head entry) : head.length ≤ name.length := by
  obtain ⟨rest, heq⟩ := h.eq_append
  rw [← String.length_toList, ← String.length_toList, heq, List.length_append]
  omega

theorem length_le_longest (h : table.Fits name head entry) :
    head.length ≤ Classifier.longestLength table := by
  have hmem := Table.get?_eq_some_iff.mp h.mem
  exact List.le_max_of_le' _ (List.mem_map.mpr ⟨head, List.mem_map.mpr ⟨_, hmem, rfl⟩, rfl⟩) le_rfl

/-- Prefixes of one length that fit are the same prefix. -/
theorem eq_of_length (h : table.Fits name head entry) (h' : table.Fits name other entry')
    (hlength : head.length = other.length) : head = other ∧ entry = entry' := by
  have heq : head = other := by
    rw [← String.toList_inj, h.toList_eq_take, h'.toList_eq_take, hlength]
  subst heq
  exact ⟨rfl, Option.some.inj (h.mem.symm.trans h'.mem)⟩

end ScopeTable.Fits

namespace Classifier

variable {table : ScopeTable} {name scope : String} {n m : Nat}

theorem scopeOfPlain_eq (own head : String) (name : String) :
    scopeOfPlain head.toList name.toList own =
      (⟨own, false⟩ : PrefixScope).scopeOf head name := by
  have hE : (head.toList = ['E']) ↔ head = "E" := by
    rw [← String.toList_inj]; rfl
  have hCF : (head.toList = ['C', 'F']) ↔ head = "CF" := by
    rw [← String.toList_inj]; rfl
  have hRef : (['R', 'e', 'f'] : List Char) = "Ref".toList := rfl
  simp [scopeOfPlain, PrefixScope.scopeOf, hE, hCF, endsWith_iff, hRef]

/-- Looking up a head of the identifier in the buckets finds the prefixes that fit. -/
theorem exists_bucket_iff {isVariable : Bool} {P : List Char → String → Prop} :
    (∃ own, ((ofTable table).bucket isVariable n).get? (String.ofList (name.toList.take n)) =
        some own ∧
      (if isVariable then fitsVariable else fitsPlain) (name.toList.take n) name.toList = true ∧
        P (name.toList.take n) own) ↔
      ∃ head own, table.Fits name head ⟨own, isVariable⟩ ∧ head.length = n ∧ P head.toList own := by
  constructor
  · rintro ⟨own, hget, hfits, hP⟩
    obtain ⟨hlength, hmem⟩ := ((holds_ofTable table).get?_bucket ..).mp hget
    refine ⟨_, own, ⟨Table.get?_eq_some_iff.mpr hmem, ?_⟩, hlength, ?_⟩
    · rwa [String.toList_ofList]
    · rwa [String.toList_ofList]
  · rintro ⟨head, own, hfits, rfl, hP⟩
    rw [← hfits.toList_eq_take, String.ofList_toList]
    have hmem := Table.get?_eq_some_iff.mp hfits.mem
    exact ⟨own, ((holds_ofTable table).get?_bucket ..).mpr ⟨rfl, hmem⟩, hfits.fits, hP⟩

theorem plainScope?_eq_some_iff :
    (ofTable table).plainScope? name.toList n = some scope ↔
      ∃ head own, table.Fits name head ⟨own, false⟩ ∧ head.length = n ∧
        (⟨own, false⟩ : PrefixScope).scopeOf head name = scope := by
  simp only [← scopeOfPlain_eq]
  rw [← exists_bucket_iff (P := fun head own => scopeOfPlain head name.toList own = scope)]
  unfold plainScope? bucket
  cases hbucket : (ofTable table).plainByLength[n]? <;> simp [hbucket, Option.bind_eq_some_iff]

theorem variableScope?_eq_some_iff :
    (ofTable table).variableScope? name.toList n = some scope ↔
      ∃ head own, table.Fits name head ⟨own, true⟩ ∧ head.length = n ∧ own = scope := by
  rw [← exists_bucket_iff (P := fun _ own => own = scope)]
  unfold variableScope? bucket
  cases hbucket : (ofTable table).variableByLength[n]? <;> simp [hbucket, Option.bind_eq_some_iff]

/-- At one length at most one prefix fits, whatever its kind. -/
theorem scopeAt?_eq_some_iff :
    (ofTable table).scopeAt? name.toList n = some scope ↔
      ∃ head entry, table.Fits name head entry ∧ head.length = n ∧
        entry.scopeOf head name = scope := by
  rw [scopeAt?, Option.or_eq_some_iff, plainScope?_eq_some_iff, variableScope?_eq_some_iff]
  constructor
  · rintro (⟨head, own, h⟩ | ⟨-, head, own, hfits, hlength, rfl⟩)
    · exact ⟨head, _, h⟩
    · exact ⟨head, _, hfits, hlength, by simp [PrefixScope.scopeOf]⟩
  · rintro ⟨head, ⟨own, isVariable⟩, hfits, hlength, hscope⟩
    cases isVariable with
    | false => exact .inl ⟨head, own, hfits, hlength, hscope⟩
    | true =>
        -- a plain prefix of this length would be the same prefix
        refine .inr ⟨?_, head, own, hfits, hlength, by simpa [PrefixScope.scopeOf] using hscope⟩
        rw [Option.eq_none_iff_forall_ne_some]
        intro scope' hplain
        obtain ⟨head', own', hfits', hlength', -⟩ := plainScope?_eq_some_iff.mp hplain
        cases (hfits.eq_of_length hfits' (hlength.trans hlength'.symm)).2

theorem scopeAt?_eq_none_iff : (ofTable table).scopeAt? name.toList n = none ↔
    ∀ head entry, table.Fits name head entry → head.length ≠ n := by
  rw [Option.eq_none_iff_forall_ne_some]
  constructor
  · intro h head entry hfits hlength
    exact h _ (scopeAt?_eq_some_iff.mpr ⟨head, entry, hfits, hlength, rfl⟩)
  · intro h scope hscope
    obtain ⟨head, entry, hfits, hlength, -⟩ := scopeAt?_eq_some_iff.mp hscope
    exact h head entry hfits hlength

theorem scopeUpTo?_eq_none_iff : (ofTable table).scopeUpTo? name.toList n = none ↔
    ∀ head entry, table.Fits name head entry → n < head.length := by
  induction n with
  | zero =>
      rw [scopeUpTo?, scopeAt?_eq_none_iff]
      exact forall₃_congr fun _ _ _ => Nat.pos_iff_ne_zero.symm
  | succ n ih =>
      rw [scopeUpTo?, Option.or_eq_none_iff, scopeAt?_eq_none_iff, ih]
      constructor
      · intro h head entry hfits
        have hne := h.1 head entry hfits
        have hlt := h.2 head entry hfits
        omega
      · intro h
        refine ⟨fun head entry hfits => ?_, fun head entry hfits => ?_⟩
        · exact (h head entry hfits).ne'
        · exact Nat.lt_of_succ_lt (h head entry hfits)

/-- The descent ends at the longest prefix that fits. -/
theorem scopeUpTo?_eq_some_iff : (ofTable table).scopeUpTo? name.toList n = some scope ↔
    ∃ head entry, table.Fits name head entry ∧ head.length ≤ n ∧
      (∀ other entry', table.Fits name other entry' → other.length ≤ n →
        other.length ≤ head.length) ∧
      entry.scopeOf head name = scope := by
  -- on the length that a prefix may still have
  induction n with
  | zero =>
      rw [scopeUpTo?, scopeAt?_eq_some_iff]
      refine exists₂_congr fun head entry => and_congr_right fun _ => ?_
      constructor
      · rintro ⟨hlength, hscope⟩
        exact ⟨hlength.le, fun _ _ _ h => h.trans (Nat.zero_le _), hscope⟩
      · exact fun h => ⟨Nat.le_zero.mp h.1, h.2.2⟩
  | succ n ih =>
      rw [scopeUpTo?, Option.or_eq_some_iff, scopeAt?_eq_some_iff, scopeAt?_eq_none_iff, ih]
      constructor
      · rintro (⟨head, entry, hfits, hlength, hscope⟩ |
          ⟨hnone, head, entry, hfits, hle, hmax, hscope⟩)
        · exact ⟨head, entry, hfits, hlength.le, fun _ _ _ h => h.trans hlength.ge, hscope⟩
        · refine ⟨head, entry, hfits, Nat.le_succ_of_le hle, fun other entry' hother hlength => ?_,
            hscope⟩
          have hne := hnone other entry' hother
          exact hmax other entry' hother (by omega)
      · rintro ⟨head, entry, hfits, hle, hmax, hscope⟩
        rcases Nat.lt_or_eq_of_le hle with hlt | heq
        · refine .inr ⟨fun other entry' hother hlength => ?_, head, entry, hfits,
            Nat.le_of_lt_succ hlt, fun other entry' hother h => hmax other entry' hother
              (Nat.le_succ_of_le h), hscope⟩
          have := hmax other entry' hother hlength.le
          omega
        · exact .inl ⟨head, entry, hfits, heq, hscope⟩

theorem maxLength_ofTable (table : ScopeTable) :
    (ofTable table).maxLength = longestLength table := by
  rw [maxLength, (holds_ofTable table).plain_size, Nat.add_sub_cancel]

end Classifier

/-! ## The answer -/

namespace ScopeTable

variable {table other : ScopeTable} {name scope : String} {result : Option String}

theorem classify_of_keyword (h : table.keywords.get? name = some scope) (hne : scope ≠ "") :
    table.classify name = some scope := by
  rw [classify, Classifier.classify, Classifier.keywords_ofTable, Table.get?_filter, h]
  simp [hne]

theorem classify_of_unlisted (h : table.Unlisted name) : table.classify name =
    (Classifier.ofTable table).scopeUpTo? name.toList
      (min name.length (Classifier.longestLength table)) := by
  have hnone : ((Classifier.ofTable table).keywords.get? name) = none := by
    rw [Classifier.keywords_ofTable, Table.get?_filter, Option.filter_eq_none_iff]
    intro scope hscope
    simp [h scope hscope]
  rw [classify, Classifier.classify, hnone, Option.none_or, Classifier.maxLength_ofTable]

theorem Fits.length_le_min {head : String} {entry : PrefixScope} (h : table.Fits name head entry) :
    head.length ≤ min name.length (Classifier.longestLength table) :=
  Nat.le_min.mpr ⟨h.length_le, h.length_le_longest⟩

theorem unlisted_or_keyword (table : ScopeTable) (name : String) :
    table.Unlisted name ∨ ∃ scope, table.keywords.get? name = some scope ∧ scope ≠ "" := by
  by_cases h : ∃ scope, table.keywords.get? name = some scope ∧ scope ≠ ""
  · exact .inr h
  · left
    intro scope hscope
    by_contra hne
    exact h ⟨scope, hscope, hne⟩

theorem Decides.classify_eq (h : table.Decides name result) : table.classify name = result := by
  cases h with
  | keyword hkeyword hne => exact classify_of_keyword hkeyword hne
  | unknown hunlisted hnone =>
      rw [classify_of_unlisted hunlisted, Classifier.scopeUpTo?_eq_none_iff]
      exact fun head entry hfits => absurd hfits (hnone head entry)
  | longest hunlisted hfits hmax =>
      rw [classify_of_unlisted hunlisted, Classifier.scopeUpTo?_eq_some_iff]
      refine ⟨_, _, hfits, hfits.length_le_min, ?_, rfl⟩
      intro other entry' hother _
      exact hmax other entry' hother

theorem decides_classify (table : ScopeTable) (name : String) :
    table.Decides name (table.classify name) := by
  rcases table.unlisted_or_keyword name with hunlisted | ⟨scope, hkeyword, hne⟩
  · rw [classify_of_unlisted hunlisted]
    cases hscope : (Classifier.ofTable table).scopeUpTo? name.toList
        (min name.length (Classifier.longestLength table)) with
    | none =>
        rw [Classifier.scopeUpTo?_eq_none_iff] at hscope
        apply Decides.unknown hunlisted
        intro head entry hfits
        exact absurd hfits.length_le_min (hscope head entry hfits).not_ge
    | some scope =>
        obtain ⟨head, entry, hfits, -, hmax, rfl⟩ :=
          Classifier.scopeUpTo?_eq_some_iff.mp hscope
        exact .longest hunlisted hfits fun other entry' hother =>
          hmax other entry' hother hother.length_le_min
  · rw [classify_of_keyword hkeyword hne]
    exact .keyword hkeyword hne

theorem classify_eq_iff : table.classify name = result ↔ table.Decides name result :=
  ⟨fun h => h ▸ decides_classify table name, Decides.classify_eq⟩

/-- Tables with the same look-ups decide alike. -/
theorem Decides.congr (hkeywords : ∀ key, other.keywords.get? key = table.keywords.get? key)
    (hprefixes : ∀ key, other.prefixes.get? key = table.prefixes.get? key)
    (h : table.Decides name result) : other.Decides name result := by
  have hfits {head : String} {entry : PrefixScope} :
      other.Fits name head entry ↔ table.Fits name head entry :=
    ⟨fun h => ⟨hprefixes head ▸ h.mem, h.fits⟩, fun h => ⟨hprefixes head ▸ h.mem, h.fits⟩⟩
  have hunlisted : table.Unlisted name → other.Unlisted name := fun h scope hscope =>
    h scope (hkeywords name ▸ hscope)
  cases h with
  | keyword hkeyword hne => exact .keyword ((hkeywords name).trans hkeyword) hne
  | unknown hlisted hnone =>
      exact .unknown (hunlisted hlisted) fun head entry h => hnone head entry (hfits.mp h)
  | longest hlisted hlongest hmax =>
      exact .longest (hunlisted hlisted) (hfits.mpr hlongest) fun head entry h =>
        hmax head entry (hfits.mp h)

/-- The scope of an identifier is that of its keyword, or else of its longest prefix that fits,
and the order of the entries has no effect on it. -/
theorem classify_eq_iff_decides (table : ScopeTable) (name : String) :
    (∀ result, table.classify name = result ↔ table.Decides name result) ∧
    ∀ other : ScopeTable, other.keywords.entries.Perm table.keywords.entries →
      other.prefixes.entries.Perm table.prefixes.entries →
      other.classify name = table.classify name := by
  refine ⟨fun result => classify_eq_iff, fun other hkeywords hprefixes => ?_⟩
  rw [classify_eq_iff]
  have hdecides := decides_classify table name
  exact hdecides.congr (Table.get?_congr hkeywords) (Table.get?_congr hprefixes)

/-- A prefix longer than the usual length, and one that starts it. -/
def orchard : ScopeTable :=
  ⟨.empty, ⟨[("Ä", ⟨"fruit", false⟩), ("ÄBÄUMCHEN", ⟨"tree", true⟩)], by decide⟩, []⟩

theorem orchard_decides : orchard.Decides "ÄBÄUMCHENpX" (some "tree") ∧
    ScopeTable.classify ⟨.empty, ⟨orchard.prefixes.entries.reverse, by decide⟩, []⟩ "ÄBÄUMCHENpX" =
      orchard.classify "ÄBÄUMCHENpX" := by
  have hdecides := classify_eq_iff_decides orchard "ÄBÄUMCHENpX"
  refine ⟨(hdecides.1 _).mp (by cbv), hdecides.2 _ (List.Perm.refl _) ?_⟩
  exact List.reverse_perm _

end ScopeTable

end Lexicolor
