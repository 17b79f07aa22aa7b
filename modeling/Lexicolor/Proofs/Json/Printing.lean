import Mathlib
import Lexicolor.Proofs.Json.Numerals
import Lexicolor.Proofs.Json.WholeTexts

/-!
# Texts of values as notation

The text of a value, with numbers or without, is JSON notation, and it is read
as the document that has the items and members of the value in their order. What
stands between the braces of an object is notation of its members also when the
blanks around it are left out.
-/

namespace Lexicolor.Json

variable {dialect : Dialect} {indent text gap : List Char} {node : Node}

/-- The document has the items and the members of the value in their order, its strings, and its
numbers as they are written. -/
inductive NotationOf : Json → Node → Prop
  | null : NotationOf .null .null
  | bool (b : Bool) : NotationOf (.bool b) (.bool b)
  | number {n : Number} {numeral : Numeral} (h : numeral.Spelled n.write) :
      NotationOf (.number n) (.number numeral)
  | string (s : String) : NotationOf (.string s) (.string (quotedOf s))
  | array {items : List Json} {nodes : List Node} (h : List.Forall₂ NotationOf items nodes) :
      NotationOf (.array items) (.array nodes .closed)
  | object {members : List (String × Json)} {nodes : List (Quoted × Node)}
      (hkeys : nodes.map Prod.fst = members.map fun m => quotedOf m.1)
      (hvalues : List.Forall₂ NotationOf (members.map Prod.snd) (nodes.map Prod.snd)) :
      NotationOf (.object members) (.object nodes .closed)

/-! ## Strings -/

theorem spelled_escape (c : Char) : (pieceOf c).Spelled (escape c) := by
  by_cases hquote : c = '"'
  · subst hquote
    exact .escape rfl
  by_cases hback : c = '\\'
  · subst hback
    exact .escape rfl
  by_cases hshort : c = '\x08' ∨ c = '\x0c' ∨ c = '\n' ∨ c = '\r' ∨ c = '\t'
  · rcases hshort with rfl | rfl | rfl | rfl | rfl <;> exact .escape rfl
  simp only [not_or] at hshort
  by_cases hcontrol : c.toNat < 0x20
  · have hunit := Piece.Spelled.unit (hexNumber?_hexPair hcontrol)
    simpa [escape, pieceOf, hquote, hback, hshort, hcontrol, Text.hexPair] using hunit
  · have hchar := Piece.Spelled.char hquote hback (Nat.not_lt.mp hcontrol)
    simpa [escape, pieceOf, hquote, hback, hshort, hcontrol] using hchar

theorem piecesText_flatMap_escape (cs : List Char) :
    PiecesText (cs.map pieceOf) (cs.flatMap escape) := by
  induction cs with
  | nil => exact .nil
  | cons c cs ih => exact .cons (spelled_escape c) ih

theorem spelled_quote (s : String) : (quotedOf s).Spelled (quote s) :=
  .mk (piecesText_flatMap_escape s.toList)

/-! ## Values -/

theorem gap_of_blank (h : text.all isBlank) : Gap dialect text := by
  induction text with
  | nil => exact .nil
  | cons c text ih =>
      rw [List.all_cons, Bool.and_eq_true] at h
      exact .blank h.1 (ih h.2)

theorem gap_newline (h : indent.all isBlank) (level : Nat) : Gap dialect (newline indent level) :=
  gap_of_blank (all_isBlank_newline h level)

/-- What may stand behind a value may also be longer. -/
theorem Spells.slot_append (h : Spells dialect (.slot node) text) (hgap : Gap dialect gap) :
    Spells dialect (.slot node) (text ++ gap) := by
  cases h with
  | slot hbefore hvalue hafter =>
      rw [List.append_assoc, List.append_assoc]
      exact .slot hbefore hvalue (hafter.append hgap)

/-- A value behind a gap. -/
theorem Spells.slot_of_value (hgap : Gap dialect gap) (h : Spells dialect (.value node) text) :
    Spells dialect (.slot node) (gap ++ text) := by
  simpa using Spells.slot hgap h .nil

theorem label_quote (hgap : Gap dialect gap) (key : String) :
    Label dialect (quotedOf key) (gap ++ (quote key ++ [':'])) :=
  .mk hgap (spelled_quote key) .nil

theorem gap_space : Gap dialect [' '] := .blank rfl .nil

/-- What stands between the braces of an object, but for the gaps at both ends. -/
def membersText (indent : List Char) (level : Nat) : List (String × Json) → List Char
  | [] => []
  | (key, value) :: members =>
      quote key ++ ([':', ' '] ++ (pretty indent level value ++ prettyMembers indent level members))

theorem prettyMembers_cons (indent : List Char) (level : Nat) (member : String × Json)
    (members : List (String × Json)) : prettyMembers indent level (member :: members) =
      ',' :: (newline indent level ++ membersText indent level (member :: members)) := by
  simp [prettyMembers, membersText]

theorem pretty_object {members : List (String × Json)} (h : members ≠ []) (indent : List Char)
    (level : Nat) : pretty indent level (.object members) =
      '\x7b' :: (newline indent (level + 1) ++ (membersText indent (level + 1) members ++
        (newline indent level ++ ['\x7d']))) := by
  obtain ⟨⟨key, value⟩, members, rfl⟩ := List.exists_cons_of_ne_nil h
  simp [pretty, membersText]

/-- The text is the value in whatever dialect it is read, and however it is indented. -/
def PrintsAs (v : Json) (node : Node) : Prop :=
  ∀ dialect indent level, indent.all isBlank → Spells dialect (.value node) (pretty indent level v)

/-- After an item, the text of further items and a bracket complete the array. -/
def PrintsItems (items : List Json) (nodes : List Node) : Prop :=
  ∀ (dialect : Dialect) (indent : List Char) (level : Nat) (done : List Node) (node : Node)
    (before text gap : List Char), indent.all isBlank → Spells dialect (.items done) before →
      Spells dialect (.slot node) text → Gap dialect gap →
      Spells dialect (.value (.array (done.reverse ++ node :: nodes) .closed))
        ('[' :: (before ++ (text ++ (prettyItems indent level items ++ (gap ++ [']'])))))

/-- After a member, the text of further members and a brace complete the object. -/
def PrintsMembers (members : List (String × Json)) (nodes : List (Quoted × Node)) : Prop :=
  ∀ (dialect : Dialect) (indent : List Char) (level : Nat) (done : List (Quoted × Node))
    (key : Quoted) (node : Node) (before label text gap : List Char), indent.all isBlank →
      Spells dialect (.members done) before → Label dialect key label →
      Spells dialect (.slot node) text → Gap dialect gap →
      Spells dialect (.value (.object (done.reverse ++ (key, node) :: nodes) .closed))
        ('\x7b' :: (before ++ (label ++ (text ++ (prettyMembers indent level members ++
          (gap ++ ['\x7d']))))))

/-- The members of an object and whatever gaps around them, in braces. -/
def PrintsBetween (members : List (String × Json)) (node : Node) : Prop :=
  ∀ dialect indent level lead trail, indent.all isBlank → Gap dialect lead → Gap dialect trail →
    Spells dialect (.value node)
      ('\x7b' :: (lead ++ (membersText indent level members ++ (trail ++ ['\x7d']))))

theorem PrintsBetween.printsAs {members : List (String × Json)} (h : PrintsBetween members node) :
    PrintsAs (.object members) node := by
  intro dialect indent level hindent
  by_cases hempty : members = []
  · subst hempty
    exact h dialect indent level [] [] hindent .nil .nil
  · rw [pretty_object hempty]
    exact h dialect indent (level + 1) _ _ hindent (gap_newline hindent _) (gap_newline hindent _)

mutual

/-- The text of a value is the notation of the value. -/
theorem exists_printsAs : ∀ v : Json, ∃ node, NotationOf v node ∧ PrintsAs v node
  | .null => ⟨_, .null, fun _ _ _ _ => .null⟩
  | .bool true => ⟨_, .bool true, fun _ _ _ _ => .trueWord⟩
  | .bool false => ⟨_, .bool false, fun _ _ _ _ => .falseWord⟩
  | .number n => by
      obtain ⟨numeral, hspelled⟩ := exists_spelled_write n
      exact ⟨_, .number hspelled, fun _ _ _ _ => .number hspelled⟩
  | .string s => ⟨_, .string s, fun _ _ _ _ => .string (spelled_quote s)⟩
  | .array [] => ⟨_, .array .nil, fun _ _ _ _ => .arrayEnd .noItems .nil nofun⟩
  | .array (item :: items) => by
      obtain ⟨node, hnode, hitem⟩ := exists_printsAs item
      obtain ⟨nodes, hnodes, hitems⟩ := exists_printsItems items
      refine ⟨_, .array (.cons hnode hnodes), fun dialect indent level hindent => ?_⟩
      have hslot := Spells.slot_of_value (gap_newline hindent (level + 1))
        (hitem dialect indent (level + 1) hindent)
      have harray := hitems dialect indent (level + 1) [] node [] _ _ hindent .noItems hslot
        (gap_newline hindent level)
      simpa [pretty] using harray
  | .object members => by
      obtain ⟨node, hnotation, hbetween⟩ := exists_printsBetween members
      exact ⟨node, hnotation, hbetween.printsAs⟩

/-- The text of an object stays its notation with other gaps inside of its braces. -/
theorem exists_printsBetween : ∀ members : List (String × Json),
    ∃ node, NotationOf (.object members) node ∧ PrintsBetween members node
  | [] => by
      have hnotation : NotationOf (.object []) (.object [] .closed) := .object rfl .nil
      refine ⟨_, hnotation, fun dialect indent level lead trail _ hlead htrail => ?_⟩
      have hobject := Spells.objectEnd .noMembers (hlead.append htrail) nofun
      simpa [membersText, endingAfter] using hobject
  | (key, value) :: members => by
      obtain ⟨node, hnode, hvalue⟩ := exists_printsAs value
      obtain ⟨nodes, hkeys, hnodes, hmembers⟩ := exists_printsMembers members
      have hnotation : NotationOf (.object ((key, value) :: members))
          (.object ((quotedOf key, node) :: nodes) .closed) :=
        .object (congrArg _ hkeys) (.cons hnode hnodes)
      refine ⟨_, hnotation, fun dialect indent level lead trail hindent hlead htrail => ?_⟩
      have hslot := Spells.slot_of_value gap_space (hvalue dialect indent level hindent)
      have hobject := hmembers dialect indent level [] _ node [] _ _ _ hindent .noMembers
        (label_quote hlead key) hslot htrail
      simpa [membersText] using hobject

theorem exists_printsItems : ∀ items : List Json,
    ∃ nodes, List.Forall₂ NotationOf items nodes ∧ PrintsItems items nodes
  | [] => by
      refine ⟨[], .nil, ?_⟩
      intro dialect indent level done node before text gap hindent hbefore htext hgap
      -- the gap before the bracket belongs to the last item
      have harray := Spells.array hbefore (htext.slot_append hgap)
      simpa [prettyItems] using harray
  | item :: items => by
      obtain ⟨node, hnode, hitem⟩ := exists_printsAs item
      obtain ⟨nodes, hnodes, hitems⟩ := exists_printsItems items
      refine ⟨node :: nodes, .cons hnode hnodes, ?_⟩
      intro dialect indent level done node' before text gap hindent hbefore htext hgap
      have hslot := Spells.slot_of_value (gap_newline hindent level)
        (hitem dialect indent level hindent)
      have harray := hitems dialect indent level _ node _ _ _ hindent (.item hbefore htext) hslot
        hgap
      simpa [prettyItems] using harray

theorem exists_printsMembers : ∀ members : List (String × Json),
    ∃ nodes, nodes.map Prod.fst = members.map (fun m => quotedOf m.1) ∧
      List.Forall₂ NotationOf (members.map Prod.snd) (nodes.map Prod.snd) ∧
      PrintsMembers members nodes
  | [] => by
      refine ⟨[], rfl, .nil, ?_⟩
      intro dialect indent level done key node before label text gap hindent hbefore hlabel htext
        hgap
      have hobject := Spells.object hbefore hlabel (htext.slot_append hgap)
      simpa [prettyMembers] using hobject
  | (key, value) :: members => by
      obtain ⟨node, hnode, hvalue⟩ := exists_printsAs value
      obtain ⟨nodes, hkeys, hnodes, hmembers⟩ := exists_printsMembers members
      refine ⟨(quotedOf key, node) :: nodes, congrArg _ hkeys, .cons hnode hnodes, ?_⟩
      intro dialect indent level done key' node' before label text gap hindent hbefore hlabel htext
        hgap
      have hslot := Spells.slot_of_value gap_space (hvalue dialect indent level hindent)
      have hobject := hmembers dialect indent level _ _ node _ _ _ _ hindent
        (.member hbefore hlabel htext) (label_quote (gap_newline hindent level) key) hslot hgap
      simpa [prettyMembers] using hobject

end

/-- A value that only a gap follows is read as its document, and nothing is left. -/
theorem Spells.document_ofList (h : Spells dialect (.value node) text) (hgap : Gap dialect gap) :
    document dialect (String.ofList (text ++ gap)) = (node, []) := by
  have hrest : ¬GoesOn gap := by
    have hend : ¬GoesOn [] := by simp [GoesOn]
    simpa using hgap.not_goesOn hend
  have htext : (String.ofList (text ++ gap)).toList = [] ++ (text ++ gap) := by simp
  rw [h.document_eq htext .nil hrest, (Tail.gap hgap).tokens_eq_nil]

/-- A file that holds a value is read as the notation of the value, and nothing follows. -/
theorem PrintsAs.document_write {v : Json} (h : PrintsAs v node) (hindent : indent.all isBlank)
    (dialect : Dialect) : document dialect (write indent v) = (node, []) :=
  (h dialect indent 0 hindent).document_ofList (.blank rfl .nil)

end Lexicolor.Json
