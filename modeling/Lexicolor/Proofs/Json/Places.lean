import Mathlib
import Lexicolor.Proofs.Outcome
import Lexicolor.Json.Value

/-!
# Places in a value

A place is where a part of a value stands, by the numbers of the parts around
it. The order of places is the order of the text. Two values are equal if they
have the same keys and leaves at all places.
-/

namespace Lexicolor.Json

variable {ε : Type} {v w : Json}

/-- A value with its key, if it stands under one. -/
abbrev Part := Option String × Json

/-- The numbers of the parts that lead to a part, from the outermost on. -/
abbrev Part.Place := List Nat

/-- What stands directly in a value, in order. -/
def parts : Json → List Part
  | .array items => items.map fun item => (none, item)
  | .object members => members.map fun m => (some m.1, m.2)
  | _ => []

/-- A value without its parts. -/
def shell : Json → Json
  | .array _ => .array []
  | .object _ => .object []
  | other => other

namespace Part

/-- The part at a place. -/
def at? : Part → Part.Place → Option Part
  | part, [] => some part
  | part, i :: place => part.2.parts[i]?.bind fun inner => at? inner place

/-- The key of a part, and its value without its own parts. -/
def outline (part : Part) : Part := (part.1, part.2.shell)

@[simp] theorem at?_nil (part : Part) : part.at? [] = some part := rfl

@[simp] theorem at?_cons (part : Part) (i : Nat) (place : Part.Place) :
    part.at? (i :: place) = part.2.parts[i]?.bind fun inner => inner.at? place := rfl

end Part

theorem sizeOf_lt_of_mem_parts {part : Part} (h : part ∈ v.parts) : sizeOf part.2 < sizeOf v := by
  cases v with
  | array items =>
      obtain ⟨item, hitem, rfl⟩ := List.mem_map.mp h
      have hlt := List.sizeOf_lt_of_mem hitem
      simp only [array.sizeOf_spec]
      omega
  | object members =>
      obtain ⟨⟨key, value⟩, hmember, rfl⟩ := List.mem_map.mp h
      have hlt := List.sizeOf_lt_of_mem hmember
      simp only [object.sizeOf_spec]
      simp only [Prod.mk.sizeOf_spec] at hlt
      omega
  | _ => exact absurd h List.not_mem_nil

/-- What holds of a value if it holds of its parts holds of every value. -/
theorem parts_induction {motive : Json → Prop}
    (h : ∀ v, (∀ part ∈ v.parts, motive part.2) → motive v) (v : Json) : motive v :=
  h v fun part hpart =>
    have := sizeOf_lt_of_mem_parts hpart
    parts_induction h part.2
termination_by sizeOf v

theorem eq_of_parts (hshell : v.shell = w.shell) (hparts : v.parts = w.parts) : v = w := by
  cases v with
  | array items =>
      cases w with
      | array others =>
          have hinj : Function.Injective fun item : Json => ((none, item) : Part) :=
            fun _ _ h => (Prod.mk.inj h).2
          rw [List.map_injective_iff.mpr hinj hparts]
      | _ => cases hshell
  | object members =>
      cases w with
      | object others =>
          have hinj : Function.Injective fun m : String × Json => ((some m.1, m.2) : Part) :=
            fun m m' h => Prod.ext (Option.some.inj (Prod.mk.inj h).1) (Prod.mk.inj h).2
          rw [List.map_injective_iff.mpr hinj hparts]
      | _ => cases hshell
  | _ => cases w <;> first | exact hshell | cases hshell

/-- Keys and leaves at all places tell a part from any other. -/
theorem Part.ext_outline (part : Part) : ∀ other : Part,
    (∀ place, (part.at? place).map outline = (other.at? place).map outline) → part = other := by
  obtain ⟨label, v⟩ := part
  induction v using parts_induction generalizing label with
  | h v ih =>
      intro ⟨label', w⟩ h
      obtain ⟨rfl, hshell⟩ := Prod.mk.inj (Option.some.inj (h []))
      -- the parts are the same one by one, and the shell tells what is made of them
      have hparts : v.parts = w.parts := by
        apply List.ext_getElem?
        intro i
        -- what holds at places behind `i` holds at those in the `i`th parts
        have hplace (place : Part.Place) := h (i :: place)
        simp only [at?_cons] at hplace
        cases hv : v.parts[i]? with
        | none =>
            cases hw : w.parts[i]? with
            | none => rfl
            | some inner' => simpa [hv, hw] using hplace []
        | some inner =>
            cases hw : w.parts[i]? with
            | none => simpa [hv, hw] using hplace []
            | some inner' =>
                simp only [hv, hw, Option.bind_some] at hplace
                exact congrArg some (ih inner (List.mem_of_getElem? hv) inner.1 inner' hplace)
      exact congrArg (Prod.mk label) (eq_of_parts hshell hparts)

/-- The value with other parts in the place of its own. -/
def rebuild : Json → List Part → Json
  | .array _, parts => .array (parts.map Prod.snd)
  | .object _, parts => .object (parts.map fun part => (part.1.getD "", part.2))
  | other, _ => other

theorem shell_rebuild (v : Json) (others : List Part) : (v.rebuild others).shell = v.shell := by
  cases v <;> rfl

/-- Parts with the same keys are taken over as they are. -/
theorem parts_rebuild {others : List Part} (h : others.map Prod.fst = v.parts.map Prod.fst) :
    (v.rebuild others).parts = others := by
  cases v with
  | array items =>
      have hlabels : ∀ part ∈ others, part.1 = none := by
        intro part hpart
        have hmem : part.1 ∈ (array items).parts.map Prod.fst := h ▸ List.mem_map_of_mem hpart
        simp only [parts, List.map_map, List.mem_map] at hmem
        obtain ⟨_, -, hnone⟩ := hmem
        exact hnone.symm
      rw [rebuild, parts, List.map_map]
      refine (List.map_congr_left fun part hpart => ?_).trans (List.map_id others)
      exact Prod.ext (hlabels part hpart).symm rfl
  | object members =>
      have hlabels : ∀ part ∈ others, part.1.isSome := by
        intro part hpart
        have hmem : part.1 ∈ (object members).parts.map Prod.fst := h ▸ List.mem_map_of_mem hpart
        simp only [parts, List.map_map, List.mem_map] at hmem
        obtain ⟨_, -, hsome⟩ := hmem
        exact hsome ▸ rfl
      rw [rebuild, parts, List.map_map]
      refine (List.map_congr_left fun part hpart => ?_).trans (List.map_id others)
      obtain ⟨key, hkey⟩ := Option.isSome_iff_exists.mp (hlabels part hpart)
      exact Prod.ext (by simp [hkey]) rfl
  | _ => exact (List.map_eq_nil_iff.mp h).symm

/-! ## Replacing texts -/

variable {At : Part.Place → String → Prop} {convert : String → Except ε String} {part : Part}

/-- One part is the other with the texts at some places replaced, each by what is made of it.
Keys, their order and all other leaves are the same. -/
structure Replaces (At : Part.Place → String → Prop) (convert : String → Except ε String)
    (part other : Part) : Prop where
  replaced : ∀ place text, At place text → ∃ label new, convert text = .ok new ∧
    part.at? place = some (label, .string text) ∧ other.at? place = some (label, .string new)
  kept : ∀ place, (∀ text, ¬At place text) →
    (other.at? place).map Part.outline = (part.at? place).map Part.outline

theorem Replaces.unique {other other' : Part} (h : Replaces At convert part other)
    (h' : Replaces At convert part other') : other = other' := by
  apply Part.ext_outline
  intro place
  by_cases hat : ∃ text, At place text
  · obtain ⟨text, htext⟩ := hat
    obtain ⟨label, new, hnew, hpart, hother⟩ := h.replaced place text htext
    obtain ⟨label', new', hnew', hpart', hother'⟩ := h'.replaced place text htext
    cases hpart.symm.trans hpart'
    cases hnew.symm.trans hnew'
    rw [hother, hother']
  · have hnot : ∀ text, ¬At place text := not_exists.mp hat
    rw [h.kept place hnot, h'.kept place hnot]

/-- Nothing is replaced where no text is named. -/
theorem Replaces.refl (h : ∀ place text, ¬At place text) (part : Part) :
    Replaces At convert part part :=
  ⟨fun place text hat => absurd hat (h place text), fun _ _ => rfl⟩

/-- A text is replaced as a whole. -/
theorem Replaces.string {label : Option String} {text new : String} (h : convert text = .ok new) :
    Replaces (fun place other => place = [] ∧ other = text) convert (label, .string text)
      (label, .string new) where
  replaced place other hat := by
    obtain ⟨rfl, rfl⟩ := hat
    exact ⟨label, new, h, rfl, rfl⟩
  kept place hnot := by
    cases place with
    | nil => exact absurd ⟨rfl, rfl⟩ (hnot text)
    | cons i place => rfl

/-- Texts are replaced in a value by replacing them in its parts. -/
theorem Replaces.of_parts {label : Option String} (hroot : ∀ text, ¬At [] text)
    (hshell : w.shell = v.shell) (hlength : w.parts.length = v.parts.length)
    (hinside : ∀ i place text, At (i :: place) text → i < v.parts.length)
    (hparts : ∀ i part other, v.parts[i]? = some part → w.parts[i]? = some other →
      Replaces (fun place text => At (i :: place) text) convert part other) :
    Replaces At convert (label, v) (label, w) where
  replaced place text hat := by
    cases place with
    | nil => exact absurd hat (hroot text)
    | cons i place =>
        have hi := hinside i place text hat
        have hi' : i < w.parts.length := hlength ▸ hi
        obtain ⟨label', new, hnew, hpart, hother⟩ := (hparts i _ _ (List.getElem?_eq_getElem hi)
          (List.getElem?_eq_getElem hi')).replaced place text hat
        refine ⟨label', new, hnew, ?_, ?_⟩
        · simpa [List.getElem?_eq_getElem hi] using hpart
        · simpa [List.getElem?_eq_getElem hi'] using hother
  kept place hnot := by
    cases place with
    | nil => simp [Part.outline, hshell]
    | cons i place =>
        by_cases hi : i < v.parts.length
        · have hi' : i < w.parts.length := hlength ▸ hi
          simpa [List.getElem?_eq_getElem hi, List.getElem?_eq_getElem hi'] using
            (hparts i _ _ (List.getElem?_eq_getElem hi) (List.getElem?_eq_getElem hi')).kept
              place hnot
        · have hv : v.parts[i]? = none := List.getElem?_eq_none (Nat.le_of_not_lt hi)
          have hw : w.parts[i]? = none :=
            List.getElem?_eq_none (hlength ▸ Nat.le_of_not_lt hi)
          simp [hv, hw]

end Lexicolor.Json
