import Mathlib
import Lexicolor.Proofs.Json.Documents

/-!
# Texts that are one value

A text is read in full where nothing but blanks and comments stands around its
value. The standard dialect takes just these texts. The relaxed dialect takes
every text that starts with a value, also where the text goes on with something
else.
-/

namespace Lexicolor.Json

variable {dialect : Dialect} {t : String} {v : Json} {cs rest : List Char} {node : Node}

/-- The text starts with the value, and the rest follows it. -/
def StartsWith (dialect : Dialect) (t : String) (v : Json) (rest : List Char) : Prop :=
  ∃ lead body node, t.toList = lead ++ (body ++ rest) ∧ Gap dialect lead ∧
    Spells dialect (.value node) body ∧ node.toJson maxDepth = .ok v

/-- The text is the value, with nothing but gaps around it. -/
def IsWhole (dialect : Dialect) (t : String) (v : Json) : Prop :=
  ∃ trail, StartsWith dialect t v trail ∧ Tail dialect trail

/-! ## Where no token is left -/

theorem Gap.tail_append (h : Gap dialect cs) (hrest : Tail dialect rest) :
    Tail dialect (cs ++ rest) := by
  cases hrest with
  | gap hrest => exact .gap (h.append hrest)
  | lastLine hdialect hrest hbody =>
      rw [← List.append_assoc]
      exact .lastLine hdialect (h.append hrest) hbody

theorem tail_of_tokens_eq_nil (h : tokens dialect cs = []) : Tail dialect cs := by
  induction scans dialect cs with
  | tail htail => exact htail
  | gap hgap _ ih =>
      rw [hgap.tokens_append] at h
      exact hgap.tail_append (ih h)
  | token _ heq | fault _ heq => cases heq.symm.trans h

theorem tail_iff : Tail dialect cs ↔ tokens dialect cs = [] :=
  ⟨Tail.tokens_eq_nil, tail_of_tokens_eq_nil⟩

theorem Tail.not_goesOn (h : Tail dialect cs) : ¬GoesOn cs := by
  cases h with
  | gap h =>
      have hend : ¬GoesOn [] := by simp [GoesOn]
      simpa using h.not_goesOn hend
  | lastLine _ h _ => exact h.not_goesOn (by simp [goesOn_cons])

/-! ## What is read -/

theorem read_eq_ok_iff : read dialect t = .ok v ↔
    (document dialect t).1.toJson maxDepth = .ok v ∧
      (dialect = .standard → (document dialect t).2 = []) := by
  show ((document dialect t).1.toJson maxDepth >>= fun value =>
    if dialect = .standard ∧ !(document dialect t).2.isEmpty then .error .malformed
    else pure value) = _ ↔ _
  cases (document dialect t).1.toJson maxDepth with
  | error f => simp [bind, Except.bind]
  | ok value =>
      cases dialect <;> cases (document _ t).2 <;> simp [bind, Except.bind, pure, Except.pure]

theorem startsWith_of_read (h : read dialect t = .ok v) :
    ∃ rest, StartsWith dialect t v rest ∧ tokens dialect rest = (document dialect t).2 := by
  obtain ⟨hvalue, -⟩ := read_eq_ok_iff.mp h
  obtain ⟨lead, body, rest, ht, hlead, hbody, hrest⟩ :=
    exists_spells_of_document rfl (Node.fine_of_toJson _ hvalue)
  exact ⟨rest, ⟨lead, body, _, ht, hlead, hbody, hvalue⟩, hrest⟩

/-- The texts that are whole are those that are read with no token left. -/
theorem isWhole_iff : IsWhole dialect t v ↔
    read dialect t = .ok v ∧ (document dialect t).2 = [] := by
  constructor
  · intro h
    obtain ⟨trail, ⟨lead, body, node, ht, hlead, hbody, hvalue⟩, htrail⟩ := h
    have hdocument := hbody.document_eq ht hlead htrail.not_goesOn
    rw [htrail.tokens_eq_nil] at hdocument
    rw [read_eq_ok_iff, hdocument]
    exact ⟨⟨hvalue, fun _ => rfl⟩, rfl⟩
  · intro h
    obtain ⟨rest, hstarts, hrest⟩ := startsWith_of_read h.1
    exact ⟨rest, hstarts, tail_iff.mpr (hrest.trans h.2)⟩

/-- The standard dialect takes a text if and only if it is whole. -/
theorem read_standard_iff : read .standard t = .ok v ↔ IsWhole .standard t v := by
  rw [isWhole_iff, read_eq_ok_iff]
  simp

/-- A text that starts with a value is taken, and it is whole if and only if only a gap is left. -/
theorem StartsWith.read_eq (h : StartsWith .relaxed t v rest) (hrest : ¬GoesOn rest) :
    read .relaxed t = .ok v ∧ (IsWhole .relaxed t v ↔ Tail .relaxed rest) := by
  obtain ⟨lead, body, node, ht, hlead, hbody, hvalue⟩ := h
  have hdocument := hbody.document_eq ht hlead hrest
  have hread : read .relaxed t = .ok v := by
    rw [read_eq_ok_iff, hdocument]
    exact ⟨hvalue, nofun⟩
  rw [isWhole_iff, tail_iff, hdocument]
  exact ⟨hread, and_iff_right hread⟩

/-- The relaxed dialect takes every text that starts with a value, and no others. It does not look
at what follows the value, be it a gap or not. -/
theorem read_relaxed_startsWith (t : String) (v : Json) :
    (∀ rest, StartsWith .relaxed t v rest → ¬GoesOn rest →
      read .relaxed t = .ok v ∧ (IsWhole .relaxed t v ↔ Tail .relaxed rest)) ∧
    (read .relaxed t = .ok v →
      ∃ rest, StartsWith .relaxed t v rest ∧ (IsWhole .relaxed t v ↔ Tail .relaxed rest)) := by
  refine ⟨fun rest h hrest => h.read_eq hrest, fun h => ?_⟩
  obtain ⟨rest, hstarts, hrest⟩ := startsWith_of_read h
  refine ⟨rest, hstarts, ?_⟩
  rw [isWhole_iff, tail_iff, hrest]
  exact and_iff_right h

/-- A brace too many is left after the object. -/
theorem read_relaxed_startsWith_brace :
    read .relaxed "\x7b\x7d\x7d" = .ok (.object []) ∧
      (IsWhole .relaxed "\x7b\x7d\x7d" (.object []) ↔ Tail .relaxed ['\x7d']) := by
  have hbody : Spells .relaxed (.value (.object [] .closed)) ['\x7b', '\x7d'] :=
    .objectEnd .noMembers .nil nofun
  have hstarts : StartsWith .relaxed "\x7b\x7d\x7d" (.object []) ['\x7d'] :=
    ⟨[], _, _, rfl, .nil, hbody, by cbv⟩
  exact (read_relaxed_startsWith _ _).1 _ hstarts (by simp [goesOn_cons])

theorem not_forall_isWhole_of_read :
    ¬∀ t v, read .relaxed t = .ok v → IsWhole .relaxed t v := by
  intro h
  have hread : read .relaxed "\x7b\x7d\x7d" = .ok (.object []) := by cbv
  have hrest := (isWhole_iff.mp (h _ _ hread)).2
  have hleft : (document .relaxed "\x7b\x7d\x7d").2.length = 1 := by cbv
  rw [hrest] at hleft
  cases hleft

end Lexicolor.Json
