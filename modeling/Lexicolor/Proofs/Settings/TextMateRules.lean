import Mathlib
import Lexicolor.Proofs.Theme.Recoloring
import Lexicolor.Settings.FromTheme

/-!
# Text mate rules in the settings

The settings made from a theme are the template with the theme's token colours.
In sRGB the colours of both are converted. What is wrong is reported in a fixed
order: the theme, its token colours, the template, then the colours.
-/

namespace Lexicolor

/-! ## Texts of colours -/

namespace Color

variable {text : String} {e : Problem}

/-- The text can be read as a colour. -/
def Readable (text : String) : Prop := ∃ color, read text = .ok color

theorem srgbText_eq_error : srgbText text = .error e ↔ ¬Readable text ∧ e = .invalidColor text := by
  rw [srgbText, Readable, read]
  cases ofDigits? (text.toList.dropWhile (· = '#')) with
  | none => simp [bind, Except.bind, eq_comm]
  | some color => simp [bind, Except.bind, pure, Except.pure]

theorem exists_srgbText : (∃ new, srgbText text = .ok new) ↔ Readable text := by
  rw [srgbText, Readable]
  cases read text <;> simp [bind, Except.bind, pure, Except.pure]

end Color

namespace Settings

open Json (Part FirstMember Replaces)
open Theme (IsColorAt FirstFailure isColorText_iff recolor)

variable {theme template rule rule' w : Json} {rules converted : List Json} {path text : String}
variable {place : Part.Place} {At : Part.Place → String → Prop} {e : Problem}

/-- The first text in order of the places is no colour. -/
def FirstUnreadable (At : Part.Place → String → Prop) (text : String) : Prop :=
  ∃ place, At place text ∧ ¬Color.Readable text ∧
    ∀ earlier other, At earlier other → earlier < place → Color.Readable other

theorem firstFailure_iff : FirstFailure At Color.srgbText e ↔
    ∃ text, FirstUnreadable At text ∧ e = .invalidColor text := by
  simp only [FirstFailure, FirstUnreadable, Color.srgbText_eq_error, Color.exists_srgbText]
  constructor
  · intro ⟨place, text, hat, ⟨hbad, he⟩, hearlier⟩
    exact ⟨text, ⟨place, hat, hbad, hearlier⟩, he⟩
  · intro ⟨text, ⟨place, hat, hbad, hearlier⟩, he⟩
    exact ⟨place, text, hat, ⟨hbad, he⟩, hearlier⟩

/-! ## Colours of rules -/

/-- The colour of a rule stands at the place: a text that starts with a hash, as the foreground
in the rule's settings. -/
def IsRuleColor (rule : Json) (place : Part.Place) (text : String) : Prop :=
  ∃ i j settings, place = [i, j] ∧ FirstMember "settings" rule i settings ∧
    FirstMember "foreground" settings j (.string text) ∧ "#".toList <+: text.toList

/-- The colours of rules by their places in the array of the rules. -/
def IsRuleColorAt (rules : List Json) : Part.Place → String → Prop
  | [], _ => False
  | i :: place, text => ∃ rule, rules[i]? = some rule ∧ IsRuleColor rule place text

theorem IsRuleColor.unique {place' : Part.Place} {text' : String} (h : IsRuleColor rule place text)
    (h' : IsRuleColor rule place' text') : place = place' ∧ text = text' := by
  obtain ⟨i, j, settings, rfl, hsettings, htext, -⟩ := h
  obtain ⟨i', j', settings', rfl, hsettings', htext', -⟩ := h'
  obtain ⟨rfl, rfl⟩ := hsettings.unique hsettings'
  obtain ⟨rfl, hsame⟩ := htext.unique htext'
  exact ⟨rfl, Json.string.inj hsame⟩

/-- A rule with a colour has it converted, and any other rule stays as it is. -/
theorem srgbRule_cases (rule : Json) :
    (∃ i j settings text, FirstMember "settings" rule i settings ∧
      FirstMember "foreground" settings j (.string text) ∧ "#".toList <+: text.toList ∧
      srgbRule rule = (fun new => rule.set "settings" (settings.set "foreground" (.string new))) <$>
        Color.srgbText text) ∨
    ((∀ place text, ¬IsRuleColor rule place text) ∧ srgbRule rule = .ok rule) := by
  rw [srgbRule]
  cases hsettings : rule.get? "settings" with
  | none =>
      refine .inr ⟨fun place text ⟨i, _, settings, _, hmember, _⟩ => ?_, rfl⟩
      cases hsettings.symm.trans (Json.get?_eq_some_iff.mpr ⟨i, hmember⟩)
  | some settings =>
      obtain ⟨i, hi⟩ := Json.get?_eq_some_iff.mp hsettings
      -- a colour of the rule is the foreground in these settings
      have hcolor {place text} (h : IsRuleColor rule place text) :
          settings.get? "foreground" = some (.string text) ∧ "#".toList <+: text.toList := by
        obtain ⟨_, j, _, -, hmember, htext, hhash⟩ := h
        obtain ⟨-, rfl⟩ := hi.unique hmember
        exact ⟨Json.get?_eq_some_iff.mpr ⟨j, htext⟩, hhash⟩
      dsimp only
      cases htext : (settings.get? "foreground").bind Json.asString? with
      | none =>
          refine .inr ⟨fun place text h => ?_, rfl⟩
          rw [(hcolor h).1] at htext
          cases htext
      | some text =>
          obtain ⟨value, hvalue, hstring⟩ := Option.bind_eq_some_iff.mp htext
          have hforeground : settings.get? "foreground" = some (.string text) := by
            cases value <;> cases hstring
            exact hvalue
          dsimp only
          split
          next hhash =>
            obtain ⟨j, hj⟩ := Json.get?_eq_some_iff.mp hforeground
            refine .inl ⟨i, j, settings, text, hi, hj, isColorText_iff.mp hhash, ?_⟩
            cases Color.srgbText text <;> rfl
          next hhash =>
            refine .inr ⟨fun place other h => ?_, rfl⟩
            cases hforeground.symm.trans (hcolor h).1
            exact hhash (isColorText_iff.mpr (hcolor h).2)

theorem srgbRule_eq_error : srgbRule rule = .error e ↔
    ∃ place text, IsRuleColor rule place text ∧ Color.srgbText text = .error e := by
  cases srgbRule_cases rule with
  | inl h =>
      obtain ⟨i, j, settings, text, hi, hj, hhash, hrule⟩ := h
      have hcolor : IsRuleColor rule [i, j] text := ⟨i, j, settings, rfl, hi, hj, hhash⟩
      rw [hrule, map_eq_error]
      constructor
      · intro h
        exact ⟨[i, j], text, hcolor, h⟩
      · intro ⟨place, other, hother, h⟩
        rwa [(hcolor.unique hother).2]
  | inr h =>
      rw [h.2]
      simp [h.1]

theorem exists_srgbRule : (∃ new, srgbRule rule = .ok new) ↔
    ∀ place text, IsRuleColor rule place text → Color.Readable text := by
  constructor
  · intro ⟨new, hnew⟩ place text hcolor
    by_contra hbad
    cases hnew.symm.trans
      (srgbRule_eq_error.mpr ⟨place, text, hcolor, Color.srgbText_eq_error.mpr ⟨hbad, rfl⟩⟩)
  · intro h
    cases hrule : srgbRule rule with
    | ok new => exact ⟨new, rfl⟩
    | error e =>
        obtain ⟨place, text, hcolor, herror⟩ := srgbRule_eq_error.mp hrule
        exact absurd (h place text hcolor) (Color.srgbText_eq_error.mp herror).1

theorem replaces_srgbRule (h : srgbRule rule = .ok rule') :
    Replaces (IsRuleColor rule) Color.srgbText (none, rule) (none, rule') := by
  cases srgbRule_cases rule with
  | inl hcases =>
      obtain ⟨i, j, settings, text, hi, hj, hhash, hrule⟩ := hcases
      obtain ⟨new, hnew, rfl⟩ := map_eq_ok.mp (hrule.symm.trans h)
      have hcolor : IsRuleColor rule [i, j] text := ⟨i, j, settings, rfl, hi, hj, hhash⟩
      -- the colour is the `j`th part of the settings, which are the `i`th part of the rule
      refine .set (fun rest other => rest = [j] ∧ other = text) hi ?_ ?_
      · intro place other
        constructor
        · intro hother
          obtain ⟨rfl, rfl⟩ := hcolor.unique hother
          exact ⟨[j], rfl, rfl, rfl⟩
        · rintro ⟨rest, rfl, rfl, rfl⟩
          exact hcolor
      · refine .set (fun rest other => rest = [] ∧ other = text) hj ?_ ?_
        · intro place other
          constructor
          · rintro ⟨rfl, rfl⟩
            exact ⟨[], rfl, rfl, rfl⟩
          · rintro ⟨rest, rfl, rfl, rfl⟩
            exact ⟨rfl, rfl⟩
        · exact .string hnew
  | inr hcases =>
      cases hcases.2.symm.trans h
      exact .refl hcases.1 _

theorem replaces_srgbRules (h : rules.mapM srgbRule = .ok converted) :
    Replaces (IsRuleColorAt rules) Color.srgbText (none, .array rules)
      (none, .array converted) := by
  have hall := mapM_eq_ok.mp h
  refine .of_parts (fun _ => id) rfl ?_ ?_ ?_
  · simp [Json.parts, hall.length_eq]
  · intro i place text hcolor
    obtain ⟨rule, hrule, -⟩ := hcolor
    simpa [Json.parts] using (List.getElem?_eq_some_iff.mp hrule).1
  · intro i part other hpart hother
    simp only [Json.parts, List.getElem?_map, Option.map_eq_some_iff] at hpart hother
    obtain ⟨rule, hrule, rfl⟩ := hpart
    obtain ⟨rule', hrule', rfl⟩ := hother
    have hsame : (fun place text => IsRuleColorAt rules (i :: place) text) = IsRuleColor rule := by
      funext place text
      simp [IsRuleColorAt, hrule]
    obtain ⟨hi, rfl⟩ := List.getElem?_eq_some_iff.mp hrule
    obtain ⟨hi', rfl⟩ := List.getElem?_eq_some_iff.mp hrule'
    rw [hsame]
    exact replaces_srgbRule (hall.get hi hi')

/-- The rules fail with the first of their colours that cannot be converted. -/
theorem srgbRules_eq_error : rules.mapM srgbRule = .error e ↔
    FirstFailure (IsRuleColorAt rules) Color.srgbText e := by
  rw [mapM_eq_error]
  constructor
  · intro ⟨before, rule, after, hrules, hbefore, herror⟩
    obtain ⟨place, text, hcolor, htext⟩ := srgbRule_eq_error.mp herror
    refine ⟨before.length :: place, text, ⟨rule, by simp [hrules], hcolor⟩, htext, ?_⟩
    intro earlier other hother hlt
    cases earlier with
    | nil => exact hother.elim
    | cons i earlier =>
        obtain ⟨rule', hrule', hother⟩ := hother
        -- the rules before are converted, and the rule itself has no other colour
        cases List.cons_lt_cons_iff.mp hlt with
        | inl hi =>
            rw [hrules, List.getElem?_append_left hi] at hrule'
            exact Color.exists_srgbText.mpr
              (exists_srgbRule.mp (hbefore rule' (List.mem_of_getElem? hrule')) _ _ hother)
        | inr h =>
            obtain ⟨rfl, hplace⟩ := h
            obtain rfl : rule = rule' := by simpa [hrules] using hrule'
            exact absurd hplace ((hcolor.unique hother).1 ▸ lt_irrefl _)
  · intro ⟨place, text, hcolor, htext, hearlier⟩
    cases place with
    | nil => exact hcolor.elim
    | cons i place =>
        obtain ⟨rule, hrule, hcolor⟩ := hcolor
        obtain ⟨hi, rfl⟩ := List.getElem?_eq_some_iff.mp hrule
        refine ⟨rules.take i, rules[i], rules.drop (i + 1), by simp, fun rule' hrule' => ?_,
          srgbRule_eq_error.mpr ⟨place, text, hcolor, htext⟩⟩
        obtain ⟨k, hk, rfl⟩ := List.mem_take_iff_getElem.mp hrule'
        refine exists_srgbRule.mpr fun place' other hother => Color.exists_srgbText.mp ?_
        exact hearlier (k :: place') other ⟨_, List.getElem?_eq_getElem _, hother⟩
          (List.cons_lt_cons_iff.mpr (.inl (by omega)))

/-! ## What the settings need -/

/-- The token colours of a theme, of which there must be some. -/
def HasTokenColors (theme : Json) (rules : List Json) : Prop :=
  theme.get? "tokenColors" = some (.array rules) ∧ rules ≠ []

theorem HasTokenColors.isObject (h : HasTokenColors theme rules) : theme.IsObject := by
  cases theme with
  | object members => exact ⟨members, rfl⟩
  | _ => cases h.1

theorem asObject?_isSome {v : Json} : v.asObject?.isSome ↔ v.IsObject := by
  cases v <;> simp [Json.asObject?, Json.IsObject]

theorem requiredTokenColors_of_not_isObject (h : ¬theme.IsObject) :
    requiredTokenColors theme path = .error (.notAnObject path) := by
  have hnone : theme.asObject? = none :=
    Option.not_isSome_iff_eq_none.mp fun hsome => h (asObject?_isSome.mp hsome)
  rw [requiredTokenColors, hnone]

theorem requiredTokenColors_of_hasTokenColors (h : HasTokenColors theme rules) :
    requiredTokenColors theme path = .ok rules := by
  obtain ⟨members, rfl⟩ := h.isObject
  rw [requiredTokenColors, h.1]
  cases rules with
  | nil => exact absurd rfl h.2
  | cons rule rules => rfl

theorem requiredTokenColors_of_none (htheme : theme.IsObject)
    (h : ∀ rules, ¬HasTokenColors theme rules) :
    requiredTokenColors theme path = .error (.missingTokenColors path) := by
  obtain ⟨members, rfl⟩ := htheme
  rw [requiredTokenColors]
  dsimp only [Json.asObject?]
  split
  next rule rules harray =>
    obtain ⟨value, hvalue, harray⟩ := Option.bind_eq_some_iff.mp harray
    cases value <;> cases harray
    exact absurd ⟨hvalue, List.cons_ne_nil _ _⟩ (h _)
  next => rfl

theorem templateObject_of_isObject (h : template.IsObject) :
    templateObject template = .ok template :=
  if_pos (asObject?_isSome.mpr h)

theorem templateObject_of_not_isObject (h : ¬template.IsObject) :
    templateObject template = .error (.notAnObject "settingsTemplate.json") :=
  if_neg fun hsome => h (asObject?_isSome.mp hsome)

/-- Why there are no settings. A reason counts only if none of those before it does. -/
inductive Fails (theme template : Json) (path : String) : Problem → Prop
  | themeShape (h : ¬theme.IsObject) : Fails theme template path (.notAnObject path)
  | tokenColors (htheme : theme.IsObject) (h : ∀ rules, ¬HasTokenColors theme rules) :
      Fails theme template path (.missingTokenColors path)
  | templateShape {rules : List Json} (hrules : HasTokenColors theme rules)
      (h : ¬template.IsObject) :
      Fails theme template path (.notAnObject "settingsTemplate.json")
  | ruleColor {rules : List Json} {text : String} (hrules : HasTokenColors theme rules)
      (htemplate : template.IsObject) (h : FirstUnreadable (IsRuleColorAt rules) text) :
      Fails theme template path (.invalidColor text)
  | templateColor {rules : List Json} {text : String} (hrules : HasTokenColors theme rules)
      (htemplate : template.IsObject)
      (hcolors : ∀ place text, IsRuleColorAt rules place text → Color.Readable text)
      (h : FirstUnreadable (IsColorAt ["foreground"] template) text) :
      Fails theme template path (.invalidColor text)

/-! ## The settings -/

/-- The key of the token colours in settings. -/
def rulesKey : String := "editor.tokenColorCustomizations"

/-- The key of the colour space in settings. -/
def spaceKey : String := "workbench.highlightingColorSpace"

/-- The value that token colours have in settings. -/
def ruleMember (rules : List Json) : Json := .object [("textMateRules", .array rules)]

/-- The settings are the template, with token colours as they are or with all its colours and
theirs in sRGB. Members that are set keep their places in the template or go to the end. -/
structure Carries (rules : List Json) (template : Json) (settings : Settings) : Prop where
  others : settings.displayP3.without [rulesKey] = template.without [rulesKey]
  keys : settings.displayP3.memberKeys =
    template.memberKeys ++ [rulesKey].filter fun key => key ∉ template.memberKeys
  tokenColors : settings.displayP3.get? rulesKey = some (ruleMember rules)
  srgbOthers : Replaces (IsColorAt ["foreground"] (template.without [spaceKey, rulesKey]))
    Color.srgbText (none, template.without [spaceKey, rulesKey])
    (none, settings.srgb.without [spaceKey, rulesKey])
  srgbKeys : settings.srgb.memberKeys =
    template.memberKeys ++ [spaceKey, rulesKey].filter fun key => key ∉ template.memberKeys
  srgbSpace : settings.srgb.get? spaceKey = some (.string "srgb")
  srgbTokenColors : ∃ converted, settings.srgb.get? rulesKey = some (ruleMember converted) ∧
    Replaces (IsRuleColorAt rules) Color.srgbText (none, .array rules) (none, .array converted)

/-- The settings that are made of converted parts. -/
def assembled (template : Json) (rules : List Json) (recolored : Json) (converted : List Json) :
    Settings :=
  ⟨template.set rulesKey (ruleMember rules),
    (recolored.set spaceKey (.string "srgb")).set rulesKey (ruleMember converted)⟩

theorem carries_assembled {recolored : Json} {n : Nat} (htemplate : template.IsObject)
    (hrules : rules.mapM srgbRule = .ok converted)
    (hrecolored : recolor ["foreground"] Color.srgbText template = .ok (recolored, n)) :
    Carries rules template (assembled template rules recolored converted) := by
  have hobject : recolored.IsObject := htemplate.of_shell (Theme.parts_of_recolor hrecolored).1
  constructor
  case others => exact Json.without_set (by decide) _ _
  case keys =>
    exact htemplate.memberKeys_foldl_set [(rulesKey, ruleMember rules)] (by simp)
  case tokenColors => simp [assembled, htemplate.get?_set]
  case srgbOthers =>
    have hreplaces := Theme.replaces_without hrecolored [spaceKey, rulesKey]
    rw [assembled, Json.without_set (by decide), Json.without_set (by decide)]
    exact hreplaces
  case srgbKeys =>
    rw [← Theme.memberKeys_of_recolor hrecolored]
    exact hobject.memberKeys_foldl_set
      [(spaceKey, .string "srgb"), (rulesKey, ruleMember converted)]
      (by simp [spaceKey, rulesKey])
  case srgbSpace =>
    simp [assembled, (hobject.set _ _).get?_set, hobject.get?_set, rulesKey, spaceKey]
  case srgbTokenColors =>
    exact ⟨converted, by simp [assembled, (hobject.set _ _).get?_set], replaces_srgbRules hrules⟩

/-- With token colours and a template, only colours are left to fail. -/
theorem ofTheme_eq (hrules : HasTokenColors theme rules) (htemplate : template.IsObject) :
    ofTheme theme template path = rules.mapM srgbRule >>= fun converted =>
      (fun r => assembled template rules r.1 converted) <$>
        recolor ["foreground"] Color.srgbText template := by
  rw [ofTheme, requiredTokenColors_of_hasTokenColors hrules]
  show (templateObject template >>= _) = _
  rw [templateObject_of_isObject htemplate]
  show (rules.mapM srgbRule >>= _) = _
  refine congrArg _ (funext fun converted => ?_)
  show (srgbTemplate template >>= _) = _
  rw [srgbTemplate]
  cases recolor ["foreground"] Color.srgbText template <;> rfl

/-- What comes of a theme and a template, and why nothing comes of them. -/
structure MakesSettings (theme template : Json) (path : String)
    (result : Except Problem Settings) : Prop where
  error_iff : ∀ e, result = .error e ↔ Fails theme template path e
  ok : ∀ settings, result = .ok settings →
    ∃ rules, HasTokenColors theme rules ∧ Carries rules template settings

theorem Fails.ofTheme_eq_error (h : Fails theme template path e) :
    ofTheme theme template path = .error e := by
  cases h with
  | themeShape h => rw [ofTheme, requiredTokenColors_of_not_isObject h]; rfl
  | tokenColors htheme h => rw [ofTheme, requiredTokenColors_of_none htheme h]; rfl
  | templateShape hrules h =>
      rw [ofTheme, requiredTokenColors_of_hasTokenColors hrules]
      show (templateObject template >>= _) = _
      rw [templateObject_of_not_isObject h]
      rfl
  | ruleColor hrules htemplate h =>
      rw [ofTheme_eq hrules htemplate,
        srgbRules_eq_error.mpr (firstFailure_iff.mpr ⟨_, h, rfl⟩)]
      rfl
  | @templateColor rules text hrules htemplate hcolors h =>
      have hconverts := Theme.converts_recolor ["foreground"] Color.srgbText template
      rw [ofTheme_eq hrules htemplate,
        (hconverts.error_iff _).mpr (firstFailure_iff.mpr ⟨_, h, rfl⟩)]
      cases hconverted : rules.mapM srgbRule with
      | ok converted => rfl
      | error e =>
          obtain ⟨place, text, hat, herror, -⟩ := srgbRules_eq_error.mp hconverted
          exact absurd (hcolors place text hat) (Color.srgbText_eq_error.mp herror).1

theorem fails_of_ofTheme_eq_error (h : ofTheme theme template path = .error e) :
    Fails theme template path e := by
  -- in the order of the checks: each failure rests on the checks before it
  by_cases htheme : theme.IsObject
  case neg =>
    cases (Fails.themeShape htheme).ofTheme_eq_error.symm.trans h
    exact .themeShape htheme
  by_cases hsome : ∃ rules, HasTokenColors theme rules
  case neg =>
    cases (Fails.tokenColors htheme (not_exists.mp hsome)).ofTheme_eq_error.symm.trans h
    exact .tokenColors htheme (not_exists.mp hsome)
  obtain ⟨rules, hrules⟩ := hsome
  by_cases htemplate : template.IsObject
  case neg =>
    cases (Fails.templateShape hrules htemplate).ofTheme_eq_error.symm.trans h
    exact .templateShape hrules htemplate
  rw [ofTheme_eq hrules htemplate] at h
  cases bind_eq_error.mp h with
  | inl h =>
      obtain ⟨text, hfirst, rfl⟩ := firstFailure_iff.mp (srgbRules_eq_error.mp h)
      exact .ruleColor hrules htemplate hfirst
  | inr h =>
      obtain ⟨converted, hconverted, h⟩ := h
      have hconverts := Theme.converts_recolor ["foreground"] Color.srgbText template
      obtain ⟨text, hfirst, rfl⟩ :=
        firstFailure_iff.mp ((hconverts.error_iff e).mp (map_eq_error.mp h))
      refine .templateColor hrules htemplate (fun place other hat => ?_) hfirst
      obtain ⟨-, new, hnew, -⟩ := (replaces_srgbRules hconverted).replaced place other hat
      exact Color.exists_srgbText.mp ⟨new, hnew⟩

/-- The settings made from a theme carry its token colours. Otherwise the first of the five
reasons is reported. -/
theorem ofTheme_carries (theme template : Json) (path : String) :
    MakesSettings theme template path (ofTheme theme template path) where
  error_iff _ := ⟨fails_of_ofTheme_eq_error, Fails.ofTheme_eq_error⟩
  ok settings h := by
    -- none of the reasons holds, as each would be reported
    have hnever {e} (hfails : Fails theme template path e) : False := by
      cases h.symm.trans hfails.ofTheme_eq_error
    have htheme : theme.IsObject := by_contra fun hnot => hnever (.themeShape hnot)
    obtain ⟨rules, hrules⟩ : ∃ rules, HasTokenColors theme rules :=
      by_contra fun hnone => hnever (.tokenColors htheme (not_exists.mp hnone))
    have htemplate : template.IsObject :=
      by_contra fun hnot => hnever (.templateShape hrules hnot)
    rw [ofTheme_eq hrules htemplate] at h
    obtain ⟨converted, hconverted, h⟩ := bind_eq_ok.mp h
    obtain ⟨⟨recolored, n⟩, hrecolored, rfl⟩ := map_eq_ok.mp h
    exact ⟨rules, hrules, carries_assembled htemplate hconverted hrecolored⟩

/-- A theme with one colour, and a rule without. -/
def brownRules (color : String) : List Json := [
  .object [("scope", .string "a"), ("settings", .ofStrings [("foreground", color)])],
  .object [("scope", .string "#804020")]]

/-- The colour of the rule is converted for the one form of the settings, and not for the other. The
colour space is there already, so it keeps its place. -/
example :
    let theme := Json.object [("tokenColors", .array (brownRules "#804020"))]
    let template := Json.ofStrings [(spaceKey, "p3"), ("color", "#804020")]
    ofTheme theme template "theme.json" = .ok
      ⟨.object [(spaceKey, .string "p3"), ("color", .string "#804020"),
        (rulesKey, ruleMember (brownRules "#804020"))],
      .object [(spaceKey, .string "srgb"), ("color", .string "#804020"),
        (rulesKey, ruleMember (brownRules (Color.mk 0x80 0x40 0x20 none).toSrgb.toHex))]⟩ := by
  rfl

end Settings

end Lexicolor
