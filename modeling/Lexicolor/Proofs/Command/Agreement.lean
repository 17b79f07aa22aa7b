import Mathlib
import Lexicolor.Proofs.Command.Steps
import Lexicolor.Proofs.Workspace.Agreement

/-!
# Runs that agree

Two runs of an action agree when they fail alike, or succeed with the same value
and leave workspaces in a relation. A step of an update, started on workspaces
that agree but for files that the step does not read, leaves workspaces that
agree on the files it wrote too.
-/

namespace Lexicolor

open Layout (File)

variable {layout : Layout} {files : List File}

namespace Action

variable {α β ε : Type} {s s' : Session} {a : Action α} {f : α → Action β} {path : String}
variable {R R' R'' : Workspace → Workspace → Prop}

/-- Both runs fail with the same failure, or both give the same value and leave workspaces in the
relation. -/
inductive Outcomes (R : Workspace → Workspace → Prop) :
    Except Failure α × Session → Except Failure α × Session → Prop
  | ok (x : α) {s s' : Session} (h : R s.workspace s'.workspace) : Outcomes R (.ok x, s) (.ok x, s')
  | error (failure : Failure) (s s' : Session) : Outcomes R (.error failure, s) (.error failure, s')

/-- Started on workspaces in the first relation, the runs agree with the second. -/
structure Agree (R R' : Workspace → Workspace → Prop) (a : Action α) : Prop where
  run : ∀ s s', R s.workspace s'.workspace → Outcomes R' (a s) (a s')

/-! ## Composition -/

namespace Outcomes

variable {x x' : Except Failure α × Session}

theorem fst_eq (h : Outcomes R x x') : x.1 = x'.1 := by
  cases h <;> rfl

theorem workspace (h : Outcomes R x x') {y : α} (hx : x.1 = .ok y) :
    R x.2.workspace x'.2.workspace := by
  cases h with
  | ok _ h => exact h
  | error => cases hx

end Outcomes

namespace Agree

protected theorem pure (x : α) : Agree R R (pure x : Action α) := ⟨fun _ _ => .ok x⟩

protected theorem bind (ha : Agree R R' a) (hf : ∀ x, Agree R' R'' (f x)) :
    Agree R R'' (a >>= f) := by
  constructor
  intro s s' h
  have hrun := ha.run s s' h
  generalize hs : a s = x at hrun
  generalize hs' : a s' = x' at hrun
  cases hrun with
  | ok x h' =>
      rw [bind_of_ok hs, bind_of_ok hs']
      exact (hf x).run _ _ h'
  | error failure m m' =>
      rw [bind_of_error hs, bind_of_error hs']
      exact .error failure m m'

theorem within (ha : Agree R R' a) (context : String) : Agree R R' (Action.within context a) := by
  constructor
  intro s s' h
  have hrun := ha.run s s' h
  unfold Action.within
  generalize a s = x at hrun ⊢
  generalize a s' = x' at hrun ⊢
  cases hrun with
  | ok x h' => exact .ok x h'
  | error failure m m' => exact .error _ m m'

/-- An action that only reads stays on its workspaces, also when it fails. -/
theorem of_quiet (ha : Quiet a)
    (h : ∀ s s', R s.workspace s'.workspace → (a s).1 = (a s').1) : Agree R R a := by
  constructor
  intro s s' hs
  have hresult := h s s' hs
  rw [ha.run s, ha.run s'] at hs
  generalize a s = x at hs hresult ⊢
  generalize a s' = x' at hs hresult ⊢
  obtain ⟨result, m⟩ := x
  obtain ⟨result', m'⟩ := x'
  obtain rfl : result = result' := hresult
  cases result with
  | ok y => exact .ok y hs
  | error failure => exact .error failure m m'

theorem attempt (ha : Agree R R' a) (hquiet : Quiet a) : Agree R R (Action.attempt a) := by
  apply of_quiet hquiet.attempt
  intro s s' h
  have hresult := (ha.run s s' h).fst_eq
  unfold Action.attempt
  generalize a s = x at hresult ⊢
  generalize a s' = x' at hresult ⊢
  exact congrArg Except.ok hresult

theorem ite {p : Prop} [Decidable p] {b : Action α} (ha : Agree R R' a) (hb : Agree R R' b) :
    Agree R R' (if p then a else b) := by
  split
  · exact ha
  · exact hb

theorem forM_cons {item : β} {items : List β} {g : β → Action Unit} (h : Agree R R' (g item))
    (hrest : Agree R' R'' (items.forM g)) : Agree R R'' ((item :: items).forM g) :=
  h.bind fun _ => hrest

theorem forM {items : List β} {g : β → Action Unit} (h : ∀ item ∈ items, Agree R R (g item)) :
    Agree R R (items.forM g) := by
  induction items with
  | nil => exact .pure ()
  | cons item items ih =>
      apply forM_cons (h item List.mem_cons_self)
      exact ih fun item hmem => h item (List.mem_cons_of_mem _ hmem)

theorem fail (failure : Failure) : Agree R R' (Action.fail failure : Action α) :=
  ⟨fun s s' _ => .error failure s s'⟩

theorem notice (n : Notice) : Agree R R (Action.notice n) := ⟨fun _ _ h => .ok () h⟩

theorem report (r : Report) : Agree R R (Action.report r) := ⟨fun _ _ h => .ok () h⟩

theorem orFail (cause : ε → Cause) (result : Except ε α) :
    Agree R R (Action.orFail cause result) := by
  cases result with
  | ok x => exact .pure x
  | error e => exact fail _

/-! ## Reading -/

theorem pathExists (h : ∀ w w', R w w' → w.pathExists path = w'.pathExists path) :
    Agree R R (Action.pathExists path) := by
  constructor
  intro s s' hs
  rw [pathExists_apply, pathExists_apply, h _ _ hs]
  exact .ok _ hs

theorem readBytes (h : ∀ w w', R w w' → w.read path = w'.read path) :
    Agree R R (Action.readBytes path) := by
  constructor
  intro s s' hs
  rw [readBytes_apply, readBytes_apply, h _ _ hs]
  exact ((orFail Cause.os (s'.workspace.read path)).within _).run s s' hs

section

variable (h : ∀ w w', R w w' → w.find path = w'.find path)

include h

theorem readText : Agree R R (Action.readText path) := by
  apply Agree.bind (readBytes fun w w' hw => Workspace.read_congr (h w w' hw))
  intro bytes
  split
  · exact .pure _
  · exact fail _

theorem readJson (dialect : Json.Dialect) (decoder : Json.Decoder α) :
    Agree R R (Action.readJson dialect decoder path) := by
  apply Agree.bind (readText h)
  intro text
  exact (orFail Cause.json (decoder.read dialect text)).within _

theorem readTable (decoder : Json.Decoder α) (empty : α) :
    Agree R R (Action.readTable decoder empty path) := by
  apply Agree.bind (pathExists fun w w' hw => Workspace.pathExists_congr (h w w' hw))
  intro found
  apply ite
  · exact readJson h .standard decoder
  · exact (notice _).bind fun _ => .pure empty

theorem readSource_of_find : Agree R R (Action.readSource path) := by
  apply Agree.bind (pathExists fun w w' hw => Workspace.pathExists_congr (h w w' hw))
  intro found
  apply ite
  · apply Agree.bind (readBytes fun w w' hw => Workspace.read_congr (h w w' hw))
    intro bytes
    exact (notice _).bind fun _ => .pure _
  · exact fail _

end

theorem pathExists_eq_false_of_find_ne {w w' : Workspace}
    (h : ∀ found, w.find path = .ok found → w'.find path = .ok found)
    (hne : w.find path ≠ w'.find path) : w.pathExists path = false := by
  unfold Workspace.pathExists
  cases hfound : w.find path with
  | ok found => exact absurd (hfound.trans (h found hfound).symm) hne
  | error e => rfl

/-- A source that is found alike, if at all, is read alike. -/
theorem readSource
    (h : ∀ w w' found, R w w' → (w.find path = .ok found ↔ w'.find path = .ok found)) :
    Agree R R (Action.readSource path) := by
  apply of_quiet (quiet_readSource path)
  intro s s' hs
  by_cases hfind : s.workspace.find path = s'.workspace.find path
  · exact ((readSource_of_find fun _ _ => id).run s s' hfind).fst_eq
  · have hmissing : s.workspace.pathExists path = false :=
      pathExists_eq_false_of_find_ne (fun found => (h _ _ found hs).mp) hfind
    have hmissing' : s'.workspace.pathExists path = false :=
      pathExists_eq_false_of_find_ne (fun found => (h _ _ found hs).mpr) (Ne.symm hfind)
    rw [readSource_of_missing hmissing, readSource_of_missing hmissing']

end Agree

end Action

namespace Command

open Lexicolor.Action Lexicolor.Workspace

/-! ## Steps -/

/-- The action, started on workspaces that agree but for the first files, answers the same and
leaves workspaces that agree but for the second files. -/
abbrev Settles (layout : Layout) (files files' : List File) (a : Action Unit) : Prop :=
  Agree (AgreeBut layout files) (AgreeBut layout files') a

theorem settles_write (file : File) (text : String) :
    Settles layout (file :: files) files (write (layout.path file) text) := by
  constructor
  intro s s' h
  obtain ⟨hresult, hwritten⟩ := h.writeBelow text.toUTF8
  rw [write_apply, write_apply]
  unfold Action.within
  rw [orFail_apply, orFail_apply, ← hresult]
  cases hw : s.workspace.writeBelow (layout.path file) text.toUTF8 with
  | mk m result => cases hw' : s'.workspace.writeBelow (layout.path file) text.toUTF8 with
    | mk m' result' =>
        rw [hw, hw'] at hresult
        obtain rfl : result = result' := hresult
        cases result with
        | error e => exact .error _ _ _
        | ok _ => exact .ok () (hwritten m m' hw hw')

theorem settles_wrote (file : File) (text : String) (n : Notice) :
    Settles layout (file :: files) files (write (layout.path file) text >>= fun _ => notice n) :=
  (settles_write file text).bind fun _ => .notice n

theorem find_eq_of_reads {reads : List File} (h : ∀ file ∈ reads, file ∉ files) (file : File)
    (hmem : file ∈ reads) (hsource : file.isSource = false) :
    ∀ w w', AgreeBut layout files w w' → w.find (layout.path file) = w'.find (layout.path file) :=
  fun _ _ hw => hw.find_eq file hsource (h file hmem)

theorem settles_extractPrefixes :
    Settles layout (.prefixMap :: files) files (extractPrefixes layout) := by
  apply Agree.bind (Agree.readSource fun w w' _ hw => hw.find_source_iff .cppSource rfl)
  intro source
  exact settles_wrote .prefixMap _ _

theorem settles_extractClassifications :
    Settles layout (.classifications :: files) files (extractClassifications layout) := by
  apply Agree.bind (Agree.readSource fun w w' _ hw => hw.find_source_iff .cppHeader rfl)
  intro header
  apply Agree.bind ((Agree.orFail _ _).within _)
  intro table
  exact settles_wrote .classifications _ _

theorem settles_extractKeywords :
    Settles layout (.keywords :: files) files (extractKeywords layout) := by
  apply Agree.bind (Agree.readSource fun w w' _ hw => hw.find_source_iff .cppSource rfl)
  intro source
  exact settles_wrote .keywords _ _

theorem settles_generateSettings
    (h : ∀ file ∈ [.theme, .settingsTemplate], file ∉ .settings :: .srgbSettings :: files) :
    Settles layout (.settings :: .srgbSettings :: files) files (generateSettings layout) := by
  apply Agree.bind (Agree.readJson (find_eq_of_reads h .theme (by decide) rfl) _ _)
  intro theme
  apply Agree.bind (Agree.readJson (find_eq_of_reads h .settingsTemplate (by decide) rfl) _ _)
  intro template
  apply Agree.bind ((Agree.orFail _ _).within _)
  intro settings
  apply Agree.bind (settles_write .settings _)
  intro _
  apply Agree.bind (Agree.notice _)
  intro _
  exact settles_wrote .srgbSettings _ _

theorem settles_combineTables
    (h : ∀ file ∈ [.keywords, .prefixMap, .classifications], file ∉ .scopes :: files) :
    Settles layout (.scopes :: files) files (combineTables layout) := by
  apply Agree.bind (Agree.readTable (find_eq_of_reads h .keywords (by decide) rfl) _ _)
  intro keywords
  apply Agree.bind (Agree.readTable (find_eq_of_reads h .prefixMap (by decide) rfl) _ _)
  intro prefixes
  apply Agree.bind (Agree.readTable (find_eq_of_reads h .classifications (by decide) rfl) _ _)
  intro classifications
  exact settles_wrote .scopes _ _

theorem settles_generateGrammar
    (h : ∀ file ∈ [.prefixMap, .keywords], file ∉ .grammar :: files) :
    Settles layout (.grammar :: files) files (generateGrammar layout) := by
  apply Agree.bind (Agree.readJson (find_eq_of_reads h .prefixMap (by decide) rfl) _ _)
  intro prefixes
  apply Agree.bind (Agree.readJson (find_eq_of_reads h .keywords (by decide) rfl) _ _)
  intro keywords
  exact settles_wrote .grammar _ _

theorem settles_generateSrgbTheme (h : .theme ∉ .srgbTheme :: files) :
    Settles layout (.srgbTheme :: files) files (generateSrgbTheme layout) := by
  apply Agree.bind (Agree.readJson (fun _ _ hw => hw.find_eq .theme rfl h) _ _)
  intro theme
  apply Agree.bind ((Agree.orFail _ _).within _)
  intro converted
  exact settles_wrote .srgbTheme _ _

theorem agree_readOtherTokenColors (h : .darkModern ∉ files) :
    Agree (AgreeBut layout files) (AgreeBut layout files) (readOtherTokenColors layout) := by
  have hread {α : Type} (dialect : Json.Dialect) (decoder : Json.Decoder α) :
      Agree (AgreeBut layout files) (AgreeBut layout files)
        (readJson dialect decoder layout.darkModern) :=
    .readJson (fun _ _ hw => hw.find_eq .darkModern rfl h) dialect decoder
  apply Agree.bind ((hread _ _).attempt (quiet_readJson _ _ _))
  intro result
  cases result with
  | ok theme =>
      apply Agree.ite
      · exact (Agree.notice _).bind fun _ => .pure _
      · exact .pure _
  | error failure => exact (Agree.notice _).bind fun _ => .pure _

theorem settles_generateNoTokensTheme
    (h : ∀ file ∈ [.theme, .darkModern], file ∉ .noTokensTheme :: files) :
    Settles layout (.noTokensTheme :: files) files (generateNoTokensTheme layout) := by
  apply Agree.bind (Agree.readJson (find_eq_of_reads h .theme (by decide) rfl) _ _)
  intro theme
  apply Agree.bind (agree_readOtherTokenColors (h .darkModern (by decide)))
  intro colors
  exact settles_wrote .noTokensTheme _ _

/-- The text of a file that need not be there. -/
theorem agree_readConfigTemplate (h : .configTemplate ∉ files) :
    Agree (AgreeBut layout files) (AgreeBut layout files) (readConfigTemplate layout) := by
  have hfind : ∀ w w', AgreeBut layout files w w' →
      w.find layout.configTemplate = w'.find layout.configTemplate :=
    fun _ _ hw => hw.find_eq .configTemplate rfl h
  apply Agree.bind (Agree.pathExists fun w w' hw => pathExists_congr (hfind w w' hw))
  intro found
  apply Agree.ite
  · exact (Agree.readText hfind).bind fun _ => .pure _
  · exact (Agree.notice _).bind fun _ => .pure _

theorem settles_generateConfig
    (h : ∀ file ∈ [.scopes, .configTemplate], file ∉ .config :: .manifestSection :: files) :
    Settles layout (.config :: .manifestSection :: files) files (generateConfig layout) := by
  apply Agree.bind (Agree.readJson (find_eq_of_reads h .scopes (by decide) rfl) _ _)
  intro table
  apply Agree.bind ((Agree.orFail _ _).within _)
  intro rules
  apply Agree.bind (agree_readConfigTemplate (h .configTemplate (by decide)))
  intro template
  apply Agree.bind (settles_write .config _)
  intro _
  apply Agree.bind (Agree.notice _)
  intro _
  exact settles_wrote .manifestSection _ _

theorem agree_readConfig (h : .config ∉ files) :
    Agree (AgreeBut layout files) (AgreeBut layout files) (readConfig layout) := by
  have hfind : ∀ w w', AgreeBut layout files w w' →
      w.find layout.config = w'.find layout.config :=
    fun _ _ hw => hw.find_eq .config rfl h
  apply Agree.bind (Agree.pathExists fun w w' hw => pathExists_congr (hfind w w' hw))
  intro found
  apply Agree.ite
  · exact Agree.readText hfind
  · exact (Agree.notice _).bind fun _ => .pure _

theorem settles_generateReadme
    (h : ∀ file ∈ [.readmeTemplate, .settings, .srgbSettings, .config], file ∉ .readme :: files) :
    Settles layout (.readme :: files) files (generateReadme layout) := by
  apply Agree.bind (Agree.readText (find_eq_of_reads h .readmeTemplate (by decide) rfl))
  intro template
  apply Agree.bind (Agree.readJson (find_eq_of_reads h .settings (by decide) rfl) _ _)
  intro settings
  apply Agree.bind (Agree.readJson (find_eq_of_reads h .srgbSettings (by decide) rfl) _ _)
  intro srgbSettings
  apply Agree.bind (agree_readConfig (h .config (by decide)))
  intro config
  exact settles_wrote .readme _ _

theorem settles_checkCoverage (h : ∀ file ∈ [.keywords, .grammar, .classifications], file ∉ files) :
    Settles layout files files (checkCoverage layout) := by
  apply Agree.bind (Agree.readJson (find_eq_of_reads h .keywords (by decide) rfl) _ _)
  intro keywords
  apply Agree.bind (Agree.readJson (find_eq_of_reads h .grammar (by decide) rfl) _ _)
  intro grammar
  apply Agree.bind (Agree.readTable (find_eq_of_reads h .classifications (by decide) rfl) _ _)
  intro classifications
  apply Agree.bind (Agree.forM fun _ _ => Agree.notice _)
  intro _
  apply Agree.bind (Agree.report _)
  intro _
  exact Agree.ite (Agree.notice _) (Agree.pure _)

end Command

end Lexicolor
