import Mathlib
import Lexicolor.Proofs.Json.Compact
import Lexicolor.Proofs.Json.Printing
import Lexicolor.Proofs.Text.Joining

/-!
# Lines and ends of the texts of values

Inside of a container every line is indented: a string has no line feed in its
text, and a line feed of the text is followed by the indentation of its level.
A value ends with a word, a digit, or the mark that closes it.
-/

namespace Lexicolor.Json

open Text (splitOn)

variable {indent cs ds : List Char} {c : Char} {level : Nat}

/-! ## Lines -/

/-- No character is a control character but line feeds, which are followed by the indentation of
a container at least. -/
inductive Indented (indent : List Char) : List Char → Prop
  | nil : Indented indent []
  | visible {c : Char} {cs : List Char} (hc : 0x20 ≤ c.toNat) (h : Indented indent cs) :
      Indented indent (c :: cs)
  | newline (level : Nat) {cs : List Char} (h : Indented indent cs) :
      Indented indent (newline indent (level + 1) ++ cs)

theorem Indented.append (h : Indented indent cs) (h' : Indented indent ds) :
    Indented indent (cs ++ ds) := by
  induction h with
  | nil => exact h'
  | visible hc _ ih => exact .visible hc ih
  | newline level _ ih =>
      rw [List.append_assoc]
      exact .newline level ih

theorem indented_of_visible (h : ∀ c ∈ cs, 0x20 ≤ c.toNat) : Indented indent cs := by
  induction cs with
  | nil => exact .nil
  | cons c cs ih =>
      obtain ⟨hc, h⟩ := List.forall_mem_cons.mp h
      exact .visible hc (ih h)

theorem visible_of_isNumeric (h : isNumeric c) : 0x20 ≤ c.toNat := by
  simp only [isNumeric, Char.isDigit, Bool.or_eq_true, Bool.and_eq_true, decide_eq_true_eq,
    beq_iff_eq] at h
  rcases h with (((⟨hdigit, -⟩ | rfl) | rfl) | rfl) | rfl
  · exact le_trans (by decide) (UInt32.le_iff_toNat_le.mp hdigit)
  all_goals decide

theorem visible_digitChar {n : Nat} (h : n < 16) : 0x20 ≤ n.digitChar.toNat := by
  interval_cases n <;> decide

theorem visible_escape (d : Char) : ∀ c ∈ escape d, 0x20 ≤ c.toNat := by
  have hpair : ∀ c ∈ ['\\', 'u', '0', '0'] ++ Text.hexPair d.toNat, 0x20 ≤ c.toNat := by
    simp [Text.hexPair, visible_digitChar, Nat.mod_lt]
  unfold escape
  split_ifs with hquote hback hbackspace hpage hfeed hreturn htab hcontrol
  -- a backslash and one character
  iterate 7 · simp
  · exact hpair
  · simpa using hcontrol

theorem visible_of_mem_quote {s : String} (h : c ∈ quote s) : 0x20 ≤ c.toNat := by
  simp only [quote, List.cons_append, List.mem_cons, List.mem_append, List.mem_flatMap,
    List.not_mem_nil, or_false] at h
  rcases h with rfl | ⟨d, -, hd⟩ | rfl
  · decide
  · exact visible_escape d c hd
  · decide

theorem indented_quote (s : String) : Indented indent (quote s) :=
  indented_of_visible fun _ => visible_of_mem_quote

/-- A member and the members behind it. -/
theorem indented_member {value : Json} {members : List (String × Json)}
    (hvalue : Indented indent (pretty indent level value))
    (hmembers : Indented indent (prettyMembers indent level members)) (key : String) :
    Indented indent (membersText indent level ((key, value) :: members)) := by
  have hcolon : Indented indent [':', ' '] := indented_of_visible (by simp)
  exact (indented_quote key).append (hcolon.append (hvalue.append hmembers))

mutual

/-- The lines of a value inside of a container are indented. -/
theorem indented_pretty (indent : List Char) (level : Nat) :
    ∀ v : Json, Indented indent (pretty indent (level + 1) v)
  | .null => indented_of_visible (by simp [pretty])
  | .bool true => indented_of_visible (by simp [pretty])
  | .bool false => indented_of_visible (by simp [pretty])
  | .number n => indented_of_visible fun _ hc => visible_of_isNumeric (isNumeric_of_mem_write hc)
  | .string s => indented_quote s
  | .array [] => indented_of_visible (by simp [pretty])
  | .array (item :: items) => by
      have hitem := indented_pretty indent (level + 1) item
      have hitems := indented_prettyItems indent (level + 1) items
      have hclose : Indented indent [']'] := indented_of_visible (by simp)
      have hinside := (hitem.append (hitems.append (hclose.newline level))).newline (level + 1)
      have hopen : Indented indent ['['] := indented_of_visible (by simp)
      simpa [pretty] using hopen.append hinside
  | .object [] => indented_of_visible (by simp [pretty])
  | .object ((key, value) :: members) => by
      have hvalue := indented_pretty indent (level + 1) value
      have hmembers := indented_prettyMembers indent (level + 1) members
      have hclose : Indented indent ['\x7d'] := indented_of_visible (by simp)
      have hall := indented_member hvalue hmembers key
      have hinside := (hall.append (hclose.newline level)).newline (level + 1)
      have hopen : Indented indent ['\x7b'] := indented_of_visible (by simp)
      rw [pretty_object (List.cons_ne_nil _ _)]
      exact hopen.append hinside

theorem indented_prettyItems (indent : List Char) (level : Nat) :
    ∀ items : List Json, Indented indent (prettyItems indent (level + 1) items)
  | [] => .nil
  | item :: items => by
      have hitem := indented_pretty indent level item
      have hitems := indented_prettyItems indent level items
      have hcomma : Indented indent [','] := indented_of_visible (by simp)
      simpa [prettyItems] using hcomma.append ((hitem.append hitems).newline level)

theorem indented_prettyMembers (indent : List Char) (level : Nat) :
    ∀ members : List (String × Json), Indented indent (prettyMembers indent (level + 1) members)
  | [] => .nil
  | (key, value) :: members => by
      have hvalue := indented_pretty indent level value
      have hmembers := indented_prettyMembers indent level members
      have hcomma : Indented indent [','] := indented_of_visible (by simp)
      rw [prettyMembers_cons]
      exact hcomma.append ((indented_member hvalue hmembers key).newline level)

end

theorem indented_membersText (indent : List Char) (level : Nat) (members : List (String × Json)) :
    Indented indent (membersText indent (level + 1) members) := by
  cases members with
  | nil => exact .nil
  | cons member members =>
      exact indented_member (indented_pretty indent level member.2)
        (indented_prettyMembers indent level members) member.1

theorem mem_newline (h : c ∈ newline indent level) : c = '\n' ∨ c ∈ indent := by
  rcases List.mem_cons.mp h with rfl | h
  · exact .inl rfl
  · obtain ⟨part, hpart, hc⟩ := List.mem_flatten.mp h
    exact .inr (List.eq_of_mem_replicate hpart ▸ hc)

theorem Indented.visible_of_mem (hindent : ∀ c ∈ indent, 0x20 ≤ c.toNat) (h : Indented indent cs) :
    ∀ c ∈ cs, c = '\n' ∨ 0x20 ≤ c.toNat := by
  induction h with
  | nil => simp
  | visible hc _ ih => exact List.forall_mem_cons.mpr ⟨.inr hc, ih⟩
  | newline level _ ih =>
      intro c hc
      rcases List.mem_append.mp hc with hc | hc
      · exact (mem_newline hc).imp_right (hindent c)
      · exact ih c hc

/-- Behind a line feed there is a line that is indented. -/
theorem Indented.prefix_of_mem_tail (hindent : ∀ c ∈ indent, 0x20 ≤ c.toNat)
    (h : Indented indent cs) : ∀ line ∈ (splitOn '\n' cs).tail, indent <+: line := by
  induction h with
  | nil => simp [splitOn]
  | @visible c cs hc _ ih =>
      have hfeed : '\n' ∉ [c] := by
        rw [List.mem_singleton]
        rintro rfl
        exact absurd hc (by decide)
      -- the character makes the first line longer and leaves the others
      obtain ⟨first, rest, heq, happend⟩ := Text.exists_splitOn_append hfeed cs
      rw [heq] at ih
      rw [← List.singleton_append, happend]
      exact ih
  | @newline level cs _ ih =>
      have hfeed : '\n' ∉ (List.replicate (level + 1) indent).flatten := by
        intro hmem
        obtain ⟨part, hpart, hc⟩ := List.mem_flatten.mp hmem
        exact absurd (hindent _ (List.eq_of_mem_replicate hpart ▸ hc)) (by decide)
      -- what was the first line is now behind the line feed and the indentation
      obtain ⟨first, rest, heq, happend⟩ := Text.exists_splitOn_append hfeed cs
      rw [heq] at ih
      rw [Json.newline, List.cons_append, splitOn, if_pos rfl, happend, List.tail_cons]
      refine List.forall_mem_cons.mpr ⟨?_, ih⟩
      rw [List.replicate_succ, List.flatten_cons, List.append_assoc]
      exact List.prefix_append indent _

/-! ## Ends -/

/-- What the text of a value may end with. -/
inductive ValueEnd : List Char → Prop
  | null : ValueEnd ['n', 'u', 'l', 'l']
  | trueWord : ValueEnd ['t', 'r', 'u', 'e']
  | falseWord : ValueEnd ['f', 'a', 'l', 's', 'e']
  | digit {c : Char} (h : c.isDigit) : ValueEnd [c]
  | mark {c : Char} (h : c = '"' ∨ c = ']' ∨ c = '\x7d') : ValueEnd [c]

/-- The text ends like a value. -/
def EndsAsValue (cs : List Char) : Prop := ∃ last, ValueEnd last ∧ last <:+ cs

theorem EndsAsValue.append_left (h : EndsAsValue cs) (ds : List Char) : EndsAsValue (ds ++ cs) := by
  obtain ⟨last, hlast, hsuffix⟩ := h
  exact ⟨last, hlast, hsuffix.trans (List.suffix_append ds cs)⟩

theorem endsAsValue_mark (h : c = '"' ∨ c = ']' ∨ c = '\x7d') (cs : List Char) :
    EndsAsValue (cs ++ [c]) := ⟨[c], .mark h, List.suffix_append cs [c]⟩

theorem endsAsValue_pretty (indent : List Char) (level : Nat) (v : Json) :
    EndsAsValue (pretty indent level v) := by
  cases v with
  | null => exact ⟨_, .null, by rw [pretty]⟩
  | bool b =>
      cases b
      · exact ⟨_, .falseWord, by rw [pretty]⟩
      · exact ⟨_, .trueWord, by rw [pretty]⟩
  | number n =>
      obtain ⟨c, hlast, hdigit⟩ := exists_getLast?_write n
      rw [pretty]
      exact ⟨[c], .digit hdigit, List.singleton_suffix_iff_getLast?_eq_some.mpr hlast⟩
  | string s =>
      rw [pretty]
      exact endsAsValue_mark (.inl rfl) _
  | array items =>
      cases items with
      | nil => exact endsAsValue_mark (.inr (.inl rfl)) ['[']
      | cons item items =>
          rw [pretty]
          exact endsAsValue_mark (.inr (.inl rfl)) _
  | object members =>
      cases members with
      | nil => exact endsAsValue_mark (.inr (.inr rfl)) ['\x7b']
      | cons member members =>
          rw [pretty]
          exact endsAsValue_mark (.inr (.inr rfl)) _

/-- Behind a value, more members end like a value. -/
theorem EndsAsValue.append_prettyMembers {cs : List Char} (h : EndsAsValue cs)
    (indent : List Char) (level : Nat) (members : List (String × Json)) :
    EndsAsValue (cs ++ prettyMembers indent level members) := by
  induction members generalizing cs with
  | nil => simpa [prettyMembers] using h
  | cons member members ih =>
      -- the last value is a later one, or the value of this member
      have hvalue := endsAsValue_pretty indent level member.2
      have hmember := ih (hvalue.append_left (cs ++ (',' :: newline indent level ++
        (quote member.1 ++ [':', ' ']))))
      simpa [prettyMembers] using hmember

/-- Members end like their last value. -/
theorem endsAsValue_membersText (indent : List Char) (level : Nat) {members : List (String × Json)}
    (h : members ≠ []) : EndsAsValue (membersText indent level members) := by
  obtain ⟨⟨key, value⟩, members, rfl⟩ := List.exists_cons_of_ne_nil h
  have hvalue := (endsAsValue_pretty indent level value).append_prettyMembers indent level members
  exact (hvalue.append_left [':', ' ']).append_left (quote key)

end Lexicolor.Json
