import Mathlib
import Lexicolor.Pattern.Search
import Lexicolor.Proofs.Pattern.Language
import Lexicolor.Proofs.Pattern.Reading

/-!
# The language of a notation

The language of a text comes from those of its pieces: characters, classes,
repetitions, rows and groups. A text with assertions in it has a relation between
places instead.
-/

namespace Lexicolor.Pattern

open Computability

variable {text text' : List Char} {L M : Language Char} {depth : Nat}
variable {c : Char} {settled : Bool} {R R' : Spot → Spot → Prop}

/-! ## Rows of parts -/

/-- The text is one part with the language. -/
def Part (settled : Bool) (depth : Nat) (text : List Char) (L : Language Char) : Prop :=
  ∃ p : Leveled Pattern, ReadsAs settled text [p] ∧ p.levels ≤ depth ∧ p.value.Denotes L

/-- The text is a row of parts with the language. -/
def Row (depth : Nat) (text : List Char) (L : Language Char) : Prop :=
  ∃ parts : List (Leveled Pattern), ReadsAs false text parts ∧ (∀ p ∈ parts, p.levels ≤ depth) ∧
    (seqAll (parts.map Leveled.value)).Denotes L

theorem Part.row (h : Part settled depth text L) : Row depth text L := by
  obtain ⟨p, hread, hdepth, hL⟩ := h
  exact ⟨[p], hread.unsettle, by simpa using hdepth, denotes_seqAll_singleton hL⟩

/-! ## Rows with assertions -/

/-- The text is a row of parts whose matches follow the relation. -/
def Course (depth : Nat) (text : List Char) (R : Spot → Spot → Prop) : Prop :=
  ∃ parts : List (Leveled Pattern), ReadsAs false text parts ∧ (∀ p ∈ parts, p.levels ≤ depth) ∧
    (seqAll (parts.map Leveled.value)).Follows R

theorem Row.course (h : Row depth text L) : Course depth text fun s t => s.Through L t := h

theorem Course.append (h : Course depth text R) (h' : Course depth text' R') :
    Course depth (text ++ text') (Relation.Comp R R') := by
  obtain ⟨parts, hread, hdepth, hR⟩ := h
  obtain ⟨parts', hread', hdepth', hR'⟩ := h'
  refine ⟨parts ++ parts', hread.append hread', ?_, ?_⟩
  · intro p hp
    exact (List.mem_append.mp hp).elim (hdepth p) (hdepth' p)
  · rw [List.map_append]
    exact hR.seqAll_append hR'

theorem Course.mono {depth' : Nat} (h : Course depth text R) (hle : depth ≤ depth') :
    Course depth' text R := by
  obtain ⟨parts, hread, hdepth, hR⟩ := h
  exact ⟨parts, hread, fun p hp => Nat.le_trans (hdepth p hp) hle, hR⟩

theorem Row.append (h : Row depth text L) (h' : Row depth text' M) :
    Row depth (text ++ text') (L * M) := by
  obtain ⟨parts, hread, hdepth, hR⟩ := h.course.append h'.course
  exact ⟨parts, hread, hdepth, fun s t => (hR s t).trans through_mul.symm⟩

theorem Row.mono {depth' : Nat} (h : Row depth text L) (hle : depth ≤ depth') :
    Row depth' text L :=
  h.course.mono hle

theorem course_boundary : Course 0 ['\\', 'b'] fun s t => Assertion.boundary.holds s ∧ t = s :=
  ⟨[⟨place .boundary, 0⟩], readsAs_boundary.unsettle, by simp, fun _ _ => mem_ends_place⟩

/-! ## Characters -/

theorem denotes_single (c : Char) : (one (.single c)).Denotes {[c]} := by
  have h : ({[c]} : Language Char) = anyOf fun x => decide (x = c) := by
    ext w
    show w = [c] ↔ ∃ x, decide (x = c) ∧ w = [x]
    simp
  rw [h]
  exact denotes_one fun x => CharClass.holds_single c x

theorem denotes_word (word : List Char) : (seqAll (word.map char)).Denotes {word} := by
  induction word with
  | nil => exact denotes_empty
  | cons c word ih =>
      rw [← List.singleton_append, ← singleton_mul_singleton]
      exact (denotes_single c).seq ih

theorem part_char (h : c ∉ ['\\', '.', '^', '$', '(', ')', '|', '[', '*', '+', '?', '\x7b']) :
    Part true 0 [c] {[c]} :=
  ⟨⟨char c, 0⟩, readsAs_char h, Nat.le_refl 0, denotes_single c⟩

/-- An escaped text stands for itself. -/
theorem row_escape (word : List Char) : Row 0 (escape word) {word} := by
  refine ⟨_, readsAs_escape word, ?_, ?_⟩
  · intro p hp
    obtain ⟨c, -, rfl⟩ := List.mem_map.mp hp
    exact Nat.le_refl 0
  · rw [List.map_map]
    exact denotes_word word

/-! ## Classes and repetitions -/

theorem part_spans (spans : List Span) {f : Char → Bool} (hne : spans ≠ [])
    (h : ∀ span ∈ spans, span.Ordinary)
    (hplain : '\\' ∉ Span.textAll spans ∧ '\x7b' ∉ Span.textAll spans)
    (hf : ∀ c, (spans.any fun span => span.1 ≤ c && c ≤ span.2) = f c) :
    Part true 2 ('[' :: Span.textAll spans) (anyOf f) :=
  ⟨_, readsAs_spans spans hne h hplain, levels_union_le spans,
    denotes_one fun c => holds_union.trans (hf c)⟩

theorem Part.repeated {numbers : Nat × Option Nat} (h : Part true depth text L)
    (hc : c = '*' ∨ c = '+' ∨ c = '?') (hcount : ∀ ls, readCounts c ls = .ok (numbers, ls))
    (hM : ∀ p : Pattern, p.Denotes L → (p.repeated numbers.1 numbers.2 true).Denotes M) :
    Part false (depth + 1) (text ++ [c]) M := by
  obtain ⟨p, hread, hdepth, hL⟩ := h
  exact ⟨_, hread.repeated hc hcount, Nat.succ_le_succ hdepth, hM _ hL⟩

theorem Part.star (h : Part true depth text L) : Part false (depth + 1) (text ++ ['*']) L∗ :=
  h.repeated (.inl rfl) (fun _ => rfl) fun _ hp => hp.star true

theorem Part.plus (h : Part true depth text L) :
    Part false (depth + 1) (text ++ ['+']) (L * L∗) :=
  h.repeated (.inr (.inl rfl)) (fun _ => rfl) fun _ hp => hp.plus true

theorem Part.optional (h : Part true depth text L) :
    Part false (depth + 1) (text ++ ['?']) (1 + L) :=
  h.repeated (.inr (.inr rfl)) (fun _ => rfl) fun _ hp => hp.optional true

/-! ## Groups -/

theorem follows_altAll {rows : List Char → Pattern} {R : List Char → Spot → Spot → Prop}
    {texts : List (List Char)} (hne : texts ≠ [])
    (h : ∀ text ∈ texts, (rows text).Follows (R text)) :
    (altAll (texts.map rows)).Follows fun s t => ∃ text ∈ texts, R text s t := by
  induction texts with
  | nil => exact absurd rfl hne
  | cons text texts ih =>
      obtain ⟨htext, htexts⟩ := List.forall_mem_cons.mp h
      cases texts with
      | nil => simpa [altAll] using htext
      | cons next texts =>
          intro s t
          refine (htext.alt (ih (List.cons_ne_nil _ _) htexts) s t).trans ?_
          simp only [List.mem_cons, exists_eq_or_imp]

/-- A group of alternatives is one part. -/
theorem reads_group {R : List Char → Spot → Spot → Prop} {texts : List (List Char)}
    {mark : List Char} (hmark : Opening mark) (hne : texts ≠ [])
    (h : ∀ text ∈ texts, Course depth text (R text)) :
    ∃ p : Leveled Pattern, ReadsAs true ('(' :: mark ++ Text.join ['|'] texts ++ [')']) [p] ∧
      p.levels ≤ depth + 3 ∧ p.value.Follows fun s t => ∃ text ∈ texts, R text s t := by
  choose! parts hread hdepth hR using h
  have hrows : List.Forall₂ (ReadsAs false) texts (texts.map parts) :=
    List.forall₂_map_right_iff.mpr (List.forall₂_same.mpr hread)
  refine ⟨_, readsAs_group hmark hne hrows, ?_, ?_⟩
  · exact Nat.succ_le_succ (OpenGroup.levels_groupOf_le (List.forall_mem_map.mpr hdepth))
  · rw [OpenGroup.groupOf, List.map_map]
    exact follows_altAll hne hR

theorem part_group (words : List Char → Language Char) {texts : List (List Char)}
    (hne : texts ≠ []) (h : ∀ text ∈ texts, Row depth text (words text)) :
    Part true (depth + 3) ('(' :: Text.join ['|'] texts ++ [')']) (texts.map words).sum := by
  obtain ⟨p, hread, hdepth, hR⟩ :=
    reads_group Opening.plain hne fun text htext => (h text htext).course
  exact ⟨p, hread, hdepth, fun s t => (hR s t).trans through_sum.symm⟩

theorem course_group {R : List Char → Spot → Spot → Prop} {texts : List (List Char)}
    {mark : List Char} (hmark : Opening mark) (hne : texts ≠ [])
    (h : ∀ text ∈ texts, Course depth text (R text)) :
    Course (depth + 3) ('(' :: mark ++ Text.join ['|'] texts ++ [')'])
      fun s t => ∃ text ∈ texts, R text s t := by
  obtain ⟨p, hread, hdepth, hR⟩ := reads_group hmark hne h
  exact ⟨[p], hread.unsettle, by simpa using hdepth, hR.seqAll_singleton⟩

/-! ## Whole texts -/

/-- The words of a text's language, as far as the text is a pattern. -/
def words (text : List Char) : Language Char := {w | ∃ p, read text = .ok p ∧ p.fits w}

/-- The words of a language are those through which it leads to the end of a text. -/
theorem through_to_end {w : List Char} : (∃ t, (Spot.start w).Through L t ∧ t.rest = []) ↔ w ∈ L := by
  constructor
  · rintro ⟨t, ⟨v, hv, hrest, -⟩, hempty⟩
    rw [hempty, List.append_nil] at hrest
    obtain rfl : w = v := hrest
    exact hv
  · intro hw
    exact ⟨⟨w.getLast?.or none, []⟩, ⟨w, hw, (List.append_nil w).symm, rfl⟩, rfl⟩

theorem Denotes.fits_iff {p : Pattern} {w : List Char} (h : p.Denotes L) : p.fits w ↔ w ∈ L := by
  rw [fits, List.any_eq_true, ← through_to_end]
  exact exists_congr fun t => and_congr (h _ t) List.isEmpty_iff

theorem words_row (h : Row depth text L) (hdepth : depth < maxLevels) : words text = L := by
  obtain ⟨parts, hread, hparts, hL⟩ := h
  have hread := read_of_readsAs hread hparts hdepth
  ext w
  constructor
  · rintro ⟨p, hp, hfits⟩
    rw [hread] at hp
    cases hp
    exact hL.fits_iff.mp hfits
  · intro hw
    exact ⟨_, hread, hL.fits_iff.mpr hw⟩

theorem Spot.start_mem_onwards (w : List Char) : Spot.start w ∈ Spot.onwards none w := by
  cases w <;> exact List.mem_cons_self

theorem last_ne_none_of_mem_onwards (cs : List Char) (x : Char) :
    ∀ s ∈ Spot.onwards (some x) cs, s.last ≠ none := by
  induction cs generalizing x with
  | nil => simp [Spot.onwards]
  | cons c cs ih => exact List.forall_mem_cons.mpr ⟨by simp, ih c⟩

/-- Of all places in a text only its start has nothing before it. -/
theorem eq_start_of_mem_onwards {w : List Char} {s : Spot} (h : s ∈ Spot.onwards none w)
    (hlast : s.last = none) : s = .start w := by
  cases w with
  | nil => exact List.mem_singleton.mp h
  | cons c cs =>
      rcases List.mem_cons.mp h with h | h
      · exact h
      · exact absurd hlast (last_ne_none_of_mem_onwards cs c s h)

theorem isIn_between_ends {ps : List Pattern} (hR : (seqAll ps).Follows R) (w : List Char) :
    (seqAll ([place .textStart] ++ ps ++ [place .textEnd])).isIn w ↔
      ∃ t, R (.start w) t ∧ t.rest = [] := by
  have hends (s t : Spot) : t ∈ (seqAll ([place .textStart] ++ ps ++ [place .textEnd])).ends s ↔
      s.last.isNone ∧ R s t ∧ t.rest.isEmpty := by
    simp only [mem_ends_seqAll_append, mem_ends_place, hR _ _, Assertion.holds]
    constructor
    · rintro ⟨_, ⟨_, ⟨hlast, rfl⟩, hst⟩, hempty, rfl⟩
      exact ⟨hlast, hst, hempty⟩
    · rintro ⟨hlast, hst, hempty⟩
      exact ⟨t, ⟨s, ⟨hlast, rfl⟩, hst⟩, hempty, rfl⟩
  rw [isIn_iff]
  constructor
  · rintro ⟨s, hs, t, ht⟩
    obtain ⟨hlast, hst, hempty⟩ := (hends s t).mp ht
    rw [eq_start_of_mem_onwards hs (Option.isNone_iff_eq_none.mp hlast)] at hst
    exact ⟨t, hst, List.isEmpty_iff.mp hempty⟩
  · rintro ⟨t, ht, hempty⟩
    exact ⟨.start w, Spot.start_mem_onwards w, t,
      (hends _ t).mpr ⟨rfl, ht, List.isEmpty_iff.mpr hempty⟩⟩

/-- A row between the ends of the text is in exactly the texts that it follows to their end. -/
theorem read_between_ends (h : Course depth text R) (hdepth : depth < maxLevels) :
    ∃ p, read ('^' :: text ++ ['$']) = .ok p ∧
      ∀ w, p.isIn w ↔ ∃ t, R (.start w) t ∧ t.rest = [] := by
  obtain ⟨parts, hread, hparts, hR⟩ := h
  have hread := ((readsAs_place (.inl ⟨rfl, rfl⟩)).append hread).append
    (readsAs_place (.inr ⟨rfl, rfl⟩))
  have hlevels : ∀ p ∈ [⟨place .textStart, 0⟩] ++ parts ++ [⟨place .textEnd, 0⟩],
      p.levels ≤ depth := by
    intro p hp
    rcases List.mem_append.mp hp with hp | hp
    · exact (List.mem_cons.mp hp).elim (fun hp => hp ▸ Nat.zero_le depth) (hparts p)
    · exact List.mem_singleton.mp hp ▸ Nat.zero_le depth
  refine ⟨_, read_of_readsAs hread hlevels hdepth, fun w => ?_⟩
  rw [List.map_append]
  exact isIn_between_ends hR w

/-- A row between the ends of the text is in exactly the words of its language. -/
theorem read_whole (h : Row depth text L) (hdepth : depth < maxLevels) :
    ∃ p, read ('^' :: text ++ ['$']) = .ok p ∧ ∀ w, p.isIn w ↔ w ∈ L := by
  obtain ⟨p, hread, hp⟩ := read_between_ends h.course hdepth
  exact ⟨p, hread, fun w => (hp w).trans through_to_end⟩

end Lexicolor.Pattern
