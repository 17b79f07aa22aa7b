import Mathlib
import Lexicolor.Proofs.Json.Members
import Lexicolor.Theme.Variants

/-!
# Converted colours

Converting the colours of a value succeeds if each of them can be converted, and
changes nothing else. Otherwise the first one in order of the text decides.
-/

namespace Lexicolor.Theme

open Json (Part Replaces)

variable {ε : Type} {keys : List String} {convert : String → Except ε String}
variable {part other : Part} {v w : Json} {label : Option String} {key text : String}
variable {place : Part.Place} {i n : Nat} {At : Part.Place → String → Prop}

/-! ## Colours and their places -/

/-- A colour stands at the place: a text that starts with a hash, directly under one of the
keys. -/
def IsColorIn (keys : List String) (part : Part) (place : Part.Place) (text : String) : Prop :=
  ∃ key ∈ keys, part.at? place = some (some key, .string text) ∧ "#".toList <+: text.toList

/-- The colours of a value, which stands under no key itself. -/
def IsColorAt (keys : List String) (v : Json) : Part.Place → String → Prop :=
  IsColorIn keys (none, v)

/-- The colour that a part is itself. -/
def ownColor? (keys : List String) (part : Part) : Option String :=
  part.1.bind fun key => colorText? keys key part.2

theorem isColorText_iff : isColorText text ↔ "#".toList <+: text.toList := by
  rw [isColorText, decide_eq_true_iff]
  cases text.toList <;> simp [eq_comm]

theorem colorText?_eq_some_iff : colorText? keys key v = some text ↔
    key ∈ keys ∧ v = .string text ∧ "#".toList <+: text.toList := by
  rw [← isColorText_iff]
  cases v with
  | string s =>
      rw [colorText?]
      constructor
      · intro h
        split at h
        next hcolor =>
          cases h
          exact ⟨hcolor.1, rfl, hcolor.2⟩
        next => cases h
      · intro ⟨hkey, hs, hcolor⟩
        cases hs
        exact if_pos ⟨hkey, hcolor⟩
  | _ => simp [colorText?]

theorem isColorIn_nil : IsColorIn keys part [] text ↔ ownColor? keys part = some text := by
  obtain ⟨label, v⟩ := part
  cases label with
  | none => simp [IsColorIn, ownColor?]
  | some key => simp [IsColorIn, ownColor?, colorText?_eq_some_iff]

theorem isColorIn_cons : IsColorIn keys part (i :: place) text ↔
    ∃ inner, part.2.parts[i]? = some inner ∧ IsColorIn keys inner place text := by
  simp only [IsColorIn, Part.at?_cons, Option.bind_eq_some_iff]
  constructor
  · intro ⟨key, hkey, ⟨inner, hinner, hat⟩, hcolor⟩
    exact ⟨inner, hinner, key, hkey, hat, hcolor⟩
  · intro ⟨inner, hinner, key, hkey, hat, hcolor⟩
    exact ⟨key, hkey, ⟨inner, hinner, hat⟩, hcolor⟩

/-- A colour has no parts. -/
theorem eq_string_of_ownColor? (h : ownColor? keys part = some text) : part.2 = .string text := by
  obtain ⟨key, -, hcolor⟩ := Option.bind_eq_some_iff.mp h
  exact (colorText?_eq_some_iff.mp hcolor).2.1

/-! ## Recolouring by parts -/

/-- A part with its colours converted, and their number. -/
def recolorPart (keys : List String) (convert : String → Except ε String) (part : Part) :
    Except ε (Part × Nat) :=
  match ownColor? keys part with
  | some text => (fun new => ((part.1, .string new), 1)) <$> convert text
  | none => (fun r => ((part.1, r.1), r.2)) <$> recolor keys convert part.2

theorem recolorItems_eq (items : List Json) : recolorItems keys convert items =
    (fun rs => (rs.map fun r => r.1.2, (rs.map Prod.snd).sum)) <$>
      (items.map fun item => (none, item)).mapM (recolorPart keys convert) := by
  induction items with
  | nil => rfl
  | cons item items ih =>
      rw [recolorItems, ih, List.map_cons, List.mapM_cons, recolorPart, ownColor?, Option.bind_none]
      cases recolor keys convert item with
      | error e => rfl
      | ok r =>
          cases (items.map fun item => ((none, item) : Part)).mapM (recolorPart keys convert) with
          | error e => rfl
          | ok rs => rfl

theorem recolorMembers_eq (members : List (String × Json)) : recolorMembers keys convert members =
    (fun rs => (rs.map fun r => (r.1.1.getD "", r.1.2), (rs.map Prod.snd).sum)) <$>
      (members.map fun m => (some m.1, m.2)).mapM (recolorPart keys convert) := by
  induction members with
  | nil => rfl
  | cons m members ih =>
      obtain ⟨key, value⟩ := m
      rw [recolorMembers, ih, List.map_cons, List.mapM_cons, recolorPart, ownColor?,
        Option.bind_some]
      cases colorText? keys key value with
      | some text =>
          dsimp only
          cases convert text with
          | error e => rfl
          | ok new =>
              cases (members.map fun m => ((some m.1, m.2) : Part)).mapM
                (recolorPart keys convert) <;> rfl
      | none =>
          dsimp only
          cases recolor keys convert value with
          | error e => rfl
          | ok r =>
              cases (members.map fun m => ((some m.1, m.2) : Part)).mapM
                (recolorPart keys convert) <;> rfl

/-- A value is recoloured by recolouring its parts. -/
theorem recolor_eq (v : Json) : recolor keys convert v =
    (fun rs => (v.rebuild (rs.map Prod.fst), (rs.map Prod.snd).sum)) <$>
      v.parts.mapM (recolorPart keys convert) := by
  cases v with
  | array items =>
      rw [recolor, recolorItems_eq, Json.parts]
      cases (items.map fun item => ((none, item) : Part)).mapM (recolorPart keys convert) with
      | error e => rfl
      | ok rs =>
          simp only [Json.rebuild, List.map_map]
          rfl
  | object members =>
      rw [recolor, recolorMembers_eq, Json.parts]
      cases (members.map fun m => ((some m.1, m.2) : Part)).mapM (recolorPart keys convert) with
      | error e => rfl
      | ok rs =>
          simp only [Json.rebuild, List.map_map]
          rfl
  | _ => rfl

theorem fst_of_recolorPart (h : recolorPart keys convert part = .ok (other, n)) :
    other.1 = part.1 := by
  rw [recolorPart] at h
  split at h
  next =>
    obtain ⟨new, -, hother⟩ := map_eq_ok.mp h
    cases hother
    rfl
  next =>
    obtain ⟨r, -, hother⟩ := map_eq_ok.mp h
    cases hother
    rfl

theorem labels_of_mapM {parts : List Part} {rs : List (Part × Nat)}
    (h : parts.mapM (recolorPart keys convert) = .ok rs) :
    (rs.map Prod.fst).map Prod.fst = parts.map Prod.fst := by
  have hsame : List.Forall₂ (fun label label' => label = label') (parts.map Prod.fst)
      ((rs.map Prod.fst).map Prod.fst) := by
    rw [List.map_map, List.forall₂_map_left_iff, List.forall₂_map_right_iff]
    exact (mapM_eq_ok.mp h).imp fun part r hr => (fst_of_recolorPart hr).symm
  exact (List.forall₂_eq_eq_eq ▸ hsame).symm

/-- A recoloured value has the recoloured parts in the places of its own, under their keys. -/
theorem parts_of_recolor (h : recolor keys convert v = .ok (w, n)) : w.shell = v.shell ∧
    w.parts.map Prod.fst = v.parts.map Prod.fst ∧
    List.Forall₂ (fun part other => ∃ k, recolorPart keys convert part = .ok (other, k))
      v.parts w.parts := by
  rw [recolor_eq] at h
  obtain ⟨rs, hrs, hw⟩ := map_eq_ok.mp h
  cases hw
  have hlabels := labels_of_mapM hrs
  rw [Json.shell_rebuild, Json.parts_rebuild hlabels, List.forall₂_map_right_iff]
  exact ⟨rfl, hlabels, (mapM_eq_ok.mp hrs).imp fun part r hr => ⟨r.2, hr⟩⟩

/-! ## What is replaced -/

/-- A colour as a part is replaced as a whole. -/
theorem replaces_ownColor {new : String} (hcolor : ownColor? keys part = some text)
    (hnew : convert text = .ok new) :
    Replaces (IsColorIn keys part) convert part (part.1, .string new) where
  replaced place other hother := by
    cases place with
    | nil =>
        cases hcolor.symm.trans (isColorIn_nil.mp hother)
        exact ⟨part.1, new, hnew, congrArg some (Prod.ext rfl (eq_string_of_ownColor? hcolor)), rfl⟩
    | cons i place =>
        obtain ⟨inner, hinner, -⟩ := isColorIn_cons.mp hother
        rw [eq_string_of_ownColor? hcolor] at hinner
        cases hinner
  kept place hnot := by
    cases place with
    | nil => exact absurd (isColorIn_nil.mpr hcolor) (hnot text)
    | cons i place =>
        rw [Part.at?_cons, Part.at?_cons, eq_string_of_ownColor? hcolor]
        rfl

/-- Of a part that is no colour, the parts are recoloured. -/
theorem replaces_of_parts (hnone : ownColor? keys (label, v) = none) (hshell : w.shell = v.shell)
    (h : List.Forall₂ (fun part other => Replaces (IsColorIn keys part) convert part other)
      v.parts w.parts) :
    Replaces (IsColorIn keys (label, v)) convert (label, v) (label, w) := by
  refine .of_parts ?_ hshell h.length_eq.symm ?_ ?_
  · intro text htext
    cases hnone.symm.trans (isColorIn_nil.mp htext)
  · intro i place text htext
    obtain ⟨inner, hinner, -⟩ := isColorIn_cons.mp htext
    exact (List.getElem?_eq_some_iff.mp hinner).1
  · intro i part other hpart hother
    have hsame : (fun place text => IsColorIn keys (label, v) (i :: place) text) =
        IsColorIn keys part := by
      funext place text
      rw [isColorIn_cons, hpart]
      simp
    obtain ⟨hi, rfl⟩ := List.getElem?_eq_some_iff.mp hpart
    obtain ⟨hi', rfl⟩ := List.getElem?_eq_some_iff.mp hother
    rw [hsame]
    exact h.get hi hi'

theorem replaces_of_recolorPart (v : Json) : ∀ (label : Option String) (other : Part) (n : Nat),
    recolorPart keys convert (label, v) = .ok (other, n) →
      Replaces (IsColorIn keys (label, v)) convert (label, v) other := by
  induction v using Json.parts_induction with
  | h v ih =>
      intro label other n h
      rw [recolorPart] at h
      -- a colour is replaced where it stands, any other part by way of its own parts
      split at h
      next text hcolor =>
        obtain ⟨new, hnew, hother⟩ := map_eq_ok.mp h
        cases hother
        exact replaces_ownColor hcolor hnew
      next hnone =>
        obtain ⟨r, hr, hother⟩ := map_eq_ok.mp h
        cases hother
        obtain ⟨hshell, -, hparts⟩ := parts_of_recolor hr
        refine replaces_of_parts hnone hshell ?_
        rw [List.forall₂_iff_get] at hparts ⊢
        refine ⟨hparts.1, fun i hi hi' => ?_⟩
        obtain ⟨k, hk⟩ := hparts.2 i hi hi'
        exact ih _ (List.get_mem _ _) _ _ k hk

/-- The colours of a recoloured value are replaced, and nothing else is. -/
theorem replaces_of_recolor (h : recolor keys convert v = .ok (w, n)) :
    Replaces (IsColorAt keys v) convert (none, v) (none, w) := by
  refine replaces_of_recolorPart v none (none, w) n ?_
  show (fun r => ((none, r.1), r.2)) <$> recolor keys convert v = _
  rw [h]
  rfl

/-! ## Colours in order -/

/-- The places are those named, in order of the text. -/
structure Enumerates (At : Part.Place → String → Prop) (colors : List (Part.Place × String)) :
    Prop where
  mem_iff : ∀ place text, (place, text) ∈ colors ↔ At place text
  pairwise : colors.Pairwise fun earlier later => earlier.1 < later.1

/-- Counting the colours of a part is converting its texts. -/
def Tallies (keys : List String) (part : Part) (texts : List String) : Prop :=
  ∀ ⦃ε : Type⦄ (convert : String → Except ε String),
    Prod.snd <$> recolorPart keys convert part = List.length <$> texts.mapM convert

def TalliesAll (keys : List String) (parts : List Part) (texts : List String) : Prop :=
  ∀ ⦃ε : Type⦄ (convert : String → Except ε String),
    (fun rs => (rs.map Prod.snd).sum) <$> parts.mapM (recolorPart keys convert) =
      List.length <$> texts.mapM convert

theorem TalliesAll.cons {parts : List Part} {texts others : List String}
    (h : Tallies keys part texts) (hrest : TalliesAll keys parts others) :
    TalliesAll keys (part :: parts) (texts ++ others) := by
  intro ε convert
  have hpart := h convert
  have hparts := hrest convert
  rw [List.mapM_cons, List.mapM_append]
  -- the first part that fails decides, and else the counts add up
  cases hr : recolorPart keys convert part with
  | error e =>
      rw [hr] at hpart
      rw [map_eq_error.mp hpart.symm]
      rfl
  | ok r =>
      rw [hr] at hpart
      obtain ⟨news, hnews, hlength⟩ := map_eq_ok.mp hpart.symm
      rw [hnews]
      cases hrs : parts.mapM (recolorPart keys convert) with
      | error e =>
          rw [hrs] at hparts
          rw [map_eq_error.mp hparts.symm]
          rfl
      | ok rs =>
          rw [hrs] at hparts
          obtain ⟨others', hothers, hlength'⟩ := map_eq_ok.mp hparts.symm
          rw [hothers]
          show Except.ok ((r :: rs).map Prod.snd).sum = .ok (news ++ others').length
          rw [List.map_cons, List.sum_cons, List.length_append, hlength, hlength']

/-- The colours of parts from the `k`th on, by places with their numbers. -/
def IsColorAmong (keys : List String) (parts : List Part) (k : Nat) (place : Part.Place)
    (text : String) : Prop :=
  ∃ i part rest, parts[i]? = some part ∧ place = (k + i) :: rest ∧ IsColorIn keys part rest text

theorem isColorAmong_cons {parts : List Part} {k : Nat} :
    IsColorAmong keys (part :: parts) k place text ↔
      (∃ rest, place = k :: rest ∧ IsColorIn keys part rest text) ∨
        IsColorAmong keys parts (k + 1) place text := by
  constructor
  · intro ⟨i, inner, rest, hinner, hplace, hcolor⟩
    cases i with
    | zero =>
        cases hinner
        exact .inl ⟨rest, hplace, hcolor⟩
    | succ i => exact .inr ⟨i, inner, rest, hinner, by rw [hplace]; congr 1; omega, hcolor⟩
  · intro h
    cases h with
    | inl h =>
        obtain ⟨rest, hplace, hcolor⟩ := h
        exact ⟨0, part, rest, rfl, hplace, hcolor⟩
    | inr h =>
        obtain ⟨i, inner, rest, hinner, hplace, hcolor⟩ := h
        exact ⟨i + 1, inner, rest, hinner, by rw [hplace]; congr 1; omega, hcolor⟩

theorem exists_colors_of_parts (parts : List Part)
    (h : ∀ part ∈ parts, ∃ colors, Enumerates (IsColorIn keys part) colors ∧
      Tallies keys part (colors.map Prod.snd)) (k : Nat) :
    ∃ colors, Enumerates (IsColorAmong keys parts k) colors ∧
      TalliesAll keys parts (colors.map Prod.snd) := by
  induction parts generalizing k with
  | nil =>
      refine ⟨[], ⟨fun place text => ?_, .nil⟩, fun _ _ => rfl⟩
      simp [IsColorAmong]
  | cons part parts ih =>
      obtain ⟨first, hfirst, htally⟩ := h part List.mem_cons_self
      obtain ⟨rest, hrest, htallies⟩ :=
        ih (fun other hother => h other (List.mem_cons_of_mem _ hother)) (k + 1)
      refine ⟨first.map (fun color => (k :: color.1, color.2)) ++ rest, ⟨?_, ?_⟩, ?_⟩
      · intro place text
        rw [List.mem_append, hrest.mem_iff, isColorAmong_cons]
        refine or_congr_left ?_
        simp only [List.mem_map, Prod.exists, Prod.mk.injEq]
        constructor
        · intro ⟨inner, text', hmem, hplace, htext⟩
          exact ⟨inner, hplace.symm, htext ▸ (hfirst.mem_iff _ _).mp hmem⟩
        · intro ⟨inner, hplace, hcolor⟩
          exact ⟨inner, text, (hfirst.mem_iff _ _).mpr hcolor, hplace.symm, rfl⟩
      · -- all places in the first part come before those in the rest
        rw [List.pairwise_append, List.pairwise_map]
        refine ⟨hfirst.pairwise.imp fun hlt => List.cons_lt_cons_self.mpr hlt, hrest.pairwise, ?_⟩
        intro color hcolor later hlater
        obtain ⟨inner, -, rfl⟩ := List.mem_map.mp hcolor
        obtain ⟨i, -, tail, -, hplace, -⟩ := (hrest.mem_iff later.1 later.2).mp hlater
        rw [hplace]
        exact List.cons_lt_cons_iff.mpr (.inl (by omega))
      · rw [List.map_append, List.map_map]
        exact .cons htally htallies

theorem exists_colors (v : Json) : ∀ label : Option String, ∃ colors,
    Enumerates (IsColorIn keys (label, v)) colors ∧
      Tallies keys (label, v) (colors.map Prod.snd) := by
  induction v using Json.parts_induction with
  | h v ih =>
      intro label
      cases hown : ownColor? keys (label, v) with
      | some text =>
          -- a text has no parts, so there is no place but its own
          refine ⟨[([], text)], ⟨?_, List.pairwise_singleton _ _⟩, ?_⟩
          · intro place other
            cases place with
            | nil =>
                rw [isColorIn_nil, hown]
                simp [eq_comm]
            | cons i place =>
                rw [isColorIn_cons, eq_string_of_ownColor? hown]
                simp [Json.parts]
          · intro ε convert
            rw [recolorPart, hown]
            simp only [List.map_cons, List.map_nil, List.mapM_cons, List.mapM_nil]
            cases convert text <;> rfl
      | none =>
          obtain ⟨colors, hcolors, htallies⟩ :=
            exists_colors_of_parts v.parts (fun part hpart => ih part hpart part.1) 0
          refine ⟨colors, ⟨fun place text => (hcolors.mem_iff place text).trans ?_,
            hcolors.pairwise⟩, ?_⟩
          · cases place with
            | nil =>
                rw [isColorIn_nil, hown]
                simp [IsColorAmong]
            | cons i place =>
                rw [isColorIn_cons]
                simp [IsColorAmong]
          · intro ε convert
            rw [recolorPart, hown, ← htallies convert, recolor_eq]
            cases v.parts.mapM (recolorPart keys convert) <;> rfl

/-! ## The whole value -/

/-- A text at some place cannot be converted, and all those before it can. -/
def FirstFailure (At : Part.Place → String → Prop) (convert : String → Except ε String) (e : ε) :
    Prop :=
  ∃ place text, At place text ∧ convert text = .error e ∧
    ∀ earlier other, At earlier other → earlier < place → ∃ new, convert other = .ok new

/-- A value is converted if all its texts at the places can be. The result has the converted texts
there, is the same elsewhere, and has the number of the places with it. The first text that cannot
be converted is the failure. -/
structure Converts (At : Part.Place → String → Prop) (convert : String → Except ε String) (v : Json)
    (result : Except ε (Json × Nat)) : Prop where
  isOk_iff : (∃ w n, result = .ok (w, n)) ↔
    ∀ place text, At place text → ∃ new, convert text = .ok new
  ok_iff : ∀ w n, result = .ok (w, n) ↔
    Replaces At convert (none, v) (none, w) ∧ {place | ∃ text, At place text}.encard = n
  error_iff : ∀ e, result = .error e ↔ FirstFailure At convert e

theorem Enumerates.encard_eq {colors : List (Part.Place × String)} (h : Enumerates At colors) :
    {place | ∃ text, At place text}.encard = colors.length := by
  have hnodup : (colors.map Prod.fst).Nodup :=
    List.pairwise_map.mpr (h.pairwise.imp fun hlt => ne_of_lt hlt)
  have hset : {place | ∃ text, At place text} = ((colors.map Prod.fst).toFinset : Set _) := by
    ext place
    simp [h.mem_iff]
  rw [hset, Set.encard_coe_eq_coe_finsetCard, List.toFinset_card_of_nodup hnodup, List.length_map]

/-- What is converted first of all comes first in the list. -/
theorem Enumerates.firstFailure_iff {colors : List (Part.Place × String)} (h : Enumerates At colors)
    {e : ε} : (colors.map Prod.snd).mapM convert = .error e ↔ FirstFailure At convert e := by
  rw [List.mapM_map, mapM_eq_error]
  constructor
  · intro ⟨before, (place, text), after, hcolors, hbefore, herror⟩
    have hpairwise := hcolors ▸ h.pairwise
    obtain ⟨-, hrest, -⟩ := List.pairwise_append.mp hpairwise
    have hlater := (List.pairwise_cons.mp hrest).1
    refine ⟨place, text, (h.mem_iff _ _).mp (by simp [hcolors]), herror, ?_⟩
    intro earlier other hother hlt
    have hmem := (h.mem_iff earlier other).mpr hother
    rw [hcolors, List.mem_append, List.mem_cons] at hmem
    rcases hmem with hmem | heq | hmem
    · exact hbefore _ hmem
    · cases heq
      exact absurd hlt (lt_irrefl _)
    · exact absurd hlt (hlater _ hmem).asymm
  · intro ⟨place, text, hat, herror, hearlier⟩
    obtain ⟨before, after, hcolors⟩ := List.append_of_mem ((h.mem_iff place text).mpr hat)
    have hpairwise := hcolors ▸ h.pairwise
    -- what stands before the failure in the list has an earlier place
    refine ⟨before, (place, text), after, hcolors, fun color hcolor => ?_, herror⟩
    have hlt := (List.pairwise_append.mp hpairwise).2.2 color hcolor _ List.mem_cons_self
    exact hearlier color.1 color.2 ((h.mem_iff _ _).mp (by simp [hcolors, hcolor])) hlt

theorem converts_recolor (keys : List String) (convert : String → Except ε String) (v : Json) :
    Converts (IsColorAt keys v) convert v (recolor keys convert v) := by
  obtain ⟨colors, henumerates, htallies⟩ := @exists_colors keys v none
  have hcolors : Enumerates (IsColorAt keys v) colors := henumerates
  -- the number, or the failure, is that of converting the colours one after the other
  have htally : Prod.snd <$> recolor keys convert v =
      List.length <$> (colors.map Prod.snd).mapM convert := by
    rw [← htallies convert]
    show _ = Prod.snd <$> (fun r => (((none : Option String), r.1), r.2)) <$> recolor keys convert v
    cases recolor keys convert v <;> rfl
  have hsucceeds {w n} (h : recolor keys convert v = .ok (w, n)) :
      Replaces (IsColorAt keys v) convert (none, v) (none, w) ∧
        {place | ∃ text, IsColorAt keys v place text}.encard = n := by
    refine ⟨replaces_of_recolor h, ?_⟩
    rw [h] at htally
    obtain ⟨news, hnews, hlength⟩ := map_eq_ok.mp htally.symm
    have hsame := (mapM_eq_ok.mp hnews).length_eq
    rw [hcolors.encard_eq, ← List.length_map Prod.snd, hsame, hlength]
  have hfails {e} : recolor keys convert v = .error e ↔
      FirstFailure (IsColorAt keys v) convert e := by
    rw [← hcolors.firstFailure_iff, ← map_eq_error, htally, map_eq_error]
  have hconverts (h : ∀ place text, IsColorAt keys v place text → ∃ new, convert text = .ok new) :
      ∃ w n, recolor keys convert v = .ok (w, n) := by
    cases hresult : recolor keys convert v with
    | ok r => exact ⟨r.1, r.2, rfl⟩
    | error e =>
        obtain ⟨place, text, hat, herror, -⟩ := hfails.mp hresult
        obtain ⟨new, hnew⟩ := h place text hat
        cases herror.symm.trans hnew
  refine ⟨⟨?_, hconverts⟩, fun w n => ⟨hsucceeds, ?_⟩, fun _ => hfails⟩
  · intro ⟨w, n, h⟩ place text hat
    obtain ⟨-, new, hnew, -⟩ := (hsucceeds h).1.replaced place text hat
    exact ⟨new, hnew⟩
  · intro ⟨hreplaces, hn⟩
    obtain ⟨w', n', h⟩ := hconverts fun place text hat => by
      obtain ⟨-, new, hnew, -⟩ := hreplaces.replaced place text hat
      exact ⟨new, hnew⟩
    obtain ⟨hreplaces', hn'⟩ := hsucceeds h
    obtain rfl : n = n' := ENat.natCast_inj.mp (hn.symm.trans hn')
    rw [h, (Prod.mk.inj (hreplaces.unique hreplaces')).2]

/-! ## The theme in sRGB -/

/-- Without some members on both sides, a recoloured value differs in its colours only. -/
theorem replaces_without (h : recolor keys convert v = .ok (w, n)) (dropped : List String) :
    Replaces (IsColorAt keys (v.without dropped)) convert (none, v.without dropped)
      (none, w.without dropped) := by
  obtain ⟨hshell, -, hparts⟩ := parts_of_recolor h
  refine replaces_of_parts rfl ?_ ?_
  · rw [Json.shell_without, Json.shell_without, hshell]
  · rw [Json.parts_without, Json.parts_without]
    have hreplaces : List.Forall₂ (fun part other => part.1 = other.1 ∧
        Replaces (IsColorIn keys part) convert part other) v.parts w.parts :=
      hparts.imp fun part other ⟨k, hk⟩ =>
        ⟨(fst_of_recolorPart hk).symm, replaces_of_recolorPart part.2 part.1 other k hk⟩
    refine (List.rel_filter (fun part other hboth => ?_) hreplaces).imp fun _ _ hboth => hboth.2
    show (part.1.all fun key => key ∉ dropped) ↔ (other.1.all fun key => key ∉ dropped)
    rw [hboth.1]

theorem memberKeys_of_recolor (h : recolor keys convert v = .ok (w, n)) :
    w.memberKeys = v.memberKeys := by
  obtain ⟨-, hlabels, -⟩ := parts_of_recolor h
  have hkeys (x : Json) : x.memberKeys = (x.parts.map Prod.fst).filterMap id := by
    rw [Json.memberKeys, List.filterMap_map]
    rfl
  rw [hkeys, hkeys, hlabels]

/-- The keys of the colours that the theme in sRGB has converted. -/
def srgbKeys : List String := ["foreground", "background"]

/-- The keys of the members that the theme in sRGB has of its own. -/
def titleKeys : List String := ["name", "type", "highlightingColorSpace"]

/-- A value is the theme with its colours in sRGB, and an object has members of its own under
three keys. Of these the ones that are there keep their places, and the others go to the end. -/
structure IsSrgbOf (theme w : Json) : Prop where
  replaces : Replaces (IsColorAt srgbKeys (theme.without titleKeys)) Color.srgbText
    (none, theme.without titleKeys) (none, w.without titleKeys)
  memberKeys_eq : theme.IsObject → w.memberKeys =
    theme.memberKeys ++ titleKeys.filter fun key => key ∉ theme.memberKeys
  name : theme.IsObject → w.get? "name" = some (.string "Malterlib (sRGB)")
  type : theme.IsObject → w.get? "type" = some (.string "dark")
  colorSpace : theme.IsObject → w.get? "highlightingColorSpace" = some (.string "srgb")

/-- The theme in sRGB is there if all its colours can be converted, and differs in them and in
three members only. It comes with the number of the colours. -/
structure ConvertsTheme (theme : Json) (result : Except Problem (Json × Nat)) : Prop where
  isOk_iff : (∃ w n, result = .ok (w, n)) ↔
    ∀ place text, IsColorAt srgbKeys theme place text → ∃ new, Color.srgbText text = .ok new
  ok : ∀ w n, result = .ok (w, n) →
    IsSrgbOf theme w ∧ {place | ∃ text, IsColorAt srgbKeys theme place text}.encard = n
  error_iff : ∀ e, result = .error e ↔ FirstFailure (IsColorAt srgbKeys theme) Color.srgbText e

/-- The members that the theme in sRGB has of its own. -/
def titles : List (String × Json) :=
  [("name", .string "Malterlib (sRGB)"), ("type", .string "dark"),
    ("highlightingColorSpace", .string "srgb")]

theorem srgb_eq (theme : Json) : srgb theme =
    (fun r => (titles.foldl (fun v m => v.set m.1 m.2) r.1, r.2)) <$>
      recolor srgbKeys Color.srgbText theme := by
  rw [srgb]
  show (recolor srgbKeys Color.srgbText theme >>= _) = _
  cases recolor srgbKeys Color.srgbText theme <;> rfl

theorem isSrgbOf_recolor {theme recolored : Json}
    (h : recolor srgbKeys Color.srgbText theme = .ok (recolored, n)) :
    IsSrgbOf theme (titles.foldl (fun v m => v.set m.1 m.2) recolored) := by
  have hobject (htheme : theme.IsObject) : recolored.IsObject :=
    htheme.of_shell (parts_of_recolor h).1
  constructor
  case replaces =>
    have hreplaces := replaces_without h titleKeys
    simp only [titles, List.foldl_cons, List.foldl_nil]
    rw [Json.without_set (by decide), Json.without_set (by decide), Json.without_set (by decide)]
    exact hreplaces
  case memberKeys_eq =>
    intro htheme
    rw [(hobject htheme).memberKeys_foldl_set titles (by decide), memberKeys_of_recolor h]
    rfl
  all_goals
    intro htheme
    simp only [titles, List.foldl_cons, List.foldl_nil]
    simp [(((hobject htheme).set _ _).set _ _).get?_set, ((hobject htheme).set _ _).get?_set,
      (hobject htheme).get?_set]

theorem convertsTheme_srgb (theme : Json) : ConvertsTheme theme (srgb theme) := by
  have hconverts := converts_recolor srgbKeys Color.srgbText theme
  rw [srgb_eq]
  constructor
  case isOk_iff =>
    rw [← hconverts.isOk_iff]
    cases recolor srgbKeys Color.srgbText theme <;> simp [Functor.map, Except.map, Prod.ext_iff]
  case ok =>
    intro w n h
    obtain ⟨⟨recolored, count⟩, hrecolored, heq⟩ := map_eq_ok.mp h
    cases heq
    exact ⟨isSrgbOf_recolor hrecolored, ((hconverts.ok_iff _ _).mp hrecolored).2⟩
  case error_iff =>
    intro e
    rw [map_eq_error, hconverts.error_iff]

/-- Exactly the colours under the keys are converted, and the theme in sRGB has three members
of its own besides. -/
theorem recolor_replaces_colors :
    (∀ (ε : Type) (keys : List String) (convert : String → Except ε String) (v : Json),
      Converts (IsColorAt keys v) convert v (recolor keys convert v)) ∧
    ∀ theme, ConvertsTheme theme (srgb theme) :=
  ⟨fun _ => converts_recolor, convertsTheme_srgb⟩

/-- A foreground, and the same text in other places. -/
def brownTheme : Json :=
  .object [("name", .string "#804020"), ("colors", .object [("border", .string "#804020"),
    ("foreground", .string "#804020"), ("background", .array [.string "#804020"])])]

/-- Only the foreground is converted. -/
example : srgb brownTheme = .ok (.object [("name", .string "Malterlib (sRGB)"),
    ("colors", .object [("border", .string "#804020"),
      ("foreground", .string (Color.mk 0x80 0x40 0x20 none).toSrgb.toHex),
      ("background", .array [.string "#804020"])]),
    ("type", .string "dark"), ("highlightingColorSpace", .string "srgb")], 1) := by
  rfl

end Lexicolor.Theme
