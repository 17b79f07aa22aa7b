import Mathlib
import Lexicolor.Proofs.Command.Handover
import Lexicolor.Proofs.Workspace.Agreement

/-!
# Updates that succeed

An update succeeds where its inputs are there, can be used, and its files can be
written. No step takes any of that from a later one, and what the steps read of
each other they find, so there is nothing else that can fail.
-/

namespace Lexicolor

open Layout (File)
open Lexicolor.Action Lexicolor.Workspace

variable {layout : Layout} {w w' : Workspace} {s s' : Session} {path : String} {file : File}
variable {files : List File}

namespace Command

/-! ## The check -/

/-- The action succeeds in every session. -/
def Succeeds (a : Action Unit) : Prop :=
  ∀ s, ∃ s', a s = (.ok (), s')

theorem succeeds_notice (n : Notice) : Succeeds (notice n) := fun _ => ⟨_, rfl⟩

theorem succeeds_report (r : Report) : Succeeds (report r) := fun _ => ⟨_, rfl⟩

theorem Succeeds.bind {a : Action Unit} {f : Unit → Action Unit} (ha : Succeeds a)
    (hf : Succeeds (f ())) : Succeeds (a >>= f) := by
  intro s
  obtain ⟨m, hm⟩ := ha s
  rw [bind_of_ok hm]
  exact hf m

theorem Succeeds.forM {β : Type} {g : β → Action Unit} (hg : ∀ item, Succeeds (g item)) :
    ∀ items : List β, Succeeds (items.forM g)
  | [], s => ⟨s, rfl⟩
  | item :: items, s => (hg item).bind (Succeeds.forM hg items) s

theorem checkCoverage_of_read {k : KeywordTable} {g : Grammar} {c : ClassificationTable}
    (hrepository : g.repository = .empty)
    (hk : s.workspace.read layout.keywords = .ok k.toJson.text.toUTF8)
    (hg : s.workspace.read layout.grammar = .ok g.toJson.text.toUTF8)
    (hc : s.workspace.read layout.classifications = .ok c.toJson.text.toUTF8) :
    ∃ s', checkCoverage layout s = (.ok (), s') := by
  unfold checkCoverage
  rw [bind_of_ok (readJson_of_read hk k.read_text),
    bind_of_ok (readJson_of_read hg (Grammar.read_text hrepository)),
    bind_of_ok (readTable_of_read hc c.read_text)]
  -- what is left only prints
  apply Succeeds.bind (.forM (fun _ => succeeds_notice _) _)
  apply Succeeds.bind (succeeds_report _)
  intro m
  split
  next => exact succeeds_notice _ m
  next => exact ⟨m, rfl⟩

/-- The check finds what the steps before it wrote, so it does not fail an update. -/
theorem update_of_writingSteps (h : writingSteps layout s = (.ok (), s')) :
    (update layout s).1 = .ok () := by
  obtain ⟨_, _, c, _, _, -, -, -, -, -, htables, -⟩ := holdsTables_of_writingSteps h
  obtain ⟨n, hcheck⟩ :=
    checkCoverage_of_read rfl htables.keywords htables.grammar htables.classifications
  exact congrArg Prod.fst (update_eq_ok_iff.mpr ⟨s', n, h, hcheck, rfl⟩)

/-! ## Inputs -/

/-- The file is there and its text is read as the value. -/
def HoldsJson (w : Workspace) (dialect : Json.Dialect) (path : String) (v : Json) : Prop :=
  ∃ text : String, w.read path = .ok text.toUTF8 ∧ Json.Decoder.json.read dialect text = .ok v

theorem readJson_of_holds {dialect : Json.Dialect} {v : Json}
    (h : HoldsJson s.workspace dialect path v) : readJson dialect .json path s = (.ok v, s) :=
  readJson_eq_ok_iff.mpr ⟨h, rfl⟩

/-- What an update works on. -/
structure Inputs where
  source : ByteArray
  header : ByteArray
  theme : Json
  settingsTemplate : Json
  configTemplate : Option String
  readmeTemplate : String

def Inputs.keywords (inputs : Inputs) : KeywordTable :=
  Source.keywords (Text.decodeLossy inputs.source)

def Inputs.prefixes (inputs : Inputs) : PrefixTable :=
  Source.prefixes (Text.decodeLossy inputs.source)

/-- A workspace holds the inputs, and the generated files can be written to it. -/
structure Supplied (layout : Layout) (inputs : Inputs) (w : Workspace) : Prop where
  source : w.read layout.cppSource = .ok inputs.source
  header : w.read layout.cppHeader = .ok inputs.header
  theme : HoldsJson w .relaxed layout.theme inputs.theme
  settingsTemplate : HoldsJson w .relaxed layout.settingsTemplate inputs.settingsTemplate
  configTemplate : HasText w layout.configTemplate inputs.configTemplate
  readmeTemplate : w.read layout.readmeTemplate = .ok inputs.readmeTemplate.toUTF8
  accepts : ∀ file ∈ File.artifacts, w.Accepts (layout.path file)

theorem HoldsJson.of_writes {dialect : Json.Dialect} {v : Json} (file : File)
    (h : HoldsJson w dialect (layout.path file) v) (hwrites : Writes layout files w w')
    (hfile : file ∉ files) : HoldsJson w' dialect (layout.path file) v := by
  obtain ⟨text, hread, hvalue⟩ := h
  exact ⟨text, hwrites.read file hread hfile, hvalue⟩

theorem HasText.congr {text : Option String} (h : HasText w path text)
    (hfind : w.find path = w'.find path) : HasText w' path text := by
  cases text with
  | some text => exact (read_congr hfind).symm.trans h
  | none => exact (pathExists_congr hfind).symm.trans h

theorem readConfigTemplate_of_hasText {template : Option String}
    (h : HasText s.workspace layout.configTemplate template) :
    ∃ s', readConfigTemplate layout s = (.ok template, s') ∧ s'.workspace = s.workspace := by
  unfold readConfigTemplate
  rw [bind_of_ok (pathExists_apply _ _)]
  cases template with
  | some text =>
      rw [if_pos (pathExists_of_read h)]
      exact ⟨s, bind_eq_ok_iff.mpr ⟨text, s, readText_eq_ok_iff.mpr ⟨h, rfl⟩, rfl⟩, rfl⟩
  | none =>
      have hmissing : s.workspace.pathExists layout.configTemplate = false := h
      rw [hmissing]
      exact ⟨_, rfl, rfl⟩

variable {inputs : Inputs}

namespace Supplied

/-- What an update writes takes nothing from the next step. -/
theorem of_writes (h : Supplied layout inputs w) (hwrites : Writes layout File.artifacts w w') :
    Supplied layout inputs w' := by
  obtain ⟨r, hroot⟩ := opens_of_read .readmeTemplate h.readmeTemplate
  obtain ⟨d, hopen⟩ := opens_of_read .cppSource h.source
  obtain ⟨text, htheme, -⟩ := h.theme
  have hagree : AgreeBelow layout File.artifacts r w w' := by
    apply AgreeBelow.of_grows (by decide) (by decide) hroot hopen
    exact hwrites.grows_grammar (fun _ => id) hroot (isDirectory_themes_of_read hroot htheme)
  have hfile : File.configTemplate.isSource = false ∧ File.configTemplate ∉ File.artifacts := by
    decide
  have htemplate := hagree.find_eq hfile.1 hfile.2
  refine ⟨?_, ?_, ?_, ?_, ?_, ?_, ?_⟩
  · exact hwrites.read .cppSource h.source (by decide)
  · exact hwrites.read .cppHeader h.header (by decide)
  · exact h.theme.of_writes .theme hwrites (by decide)
  · exact h.settingsTemplate.of_writes .settingsTemplate hwrites (by decide)
  · exact h.configTemplate.congr htemplate
  · exact hwrites.read .readmeTemplate h.readmeTemplate (by decide)
  · intro file hmem bytes
    rw [← hagree.writeBelow_snd_eq hmem bytes]
    exact h.accepts file hmem bytes

theorem of_run {a : Action Unit} (h : Supplied layout inputs s.workspace)
    (ha : Along (Writes layout files) a) (hfiles : files ⊆ File.artifacts)
    (hrun : a s = (.ok (), s')) : Supplied layout inputs s'.workspace :=
  h.of_writes ((writes_of_run ha hrun).mono hfiles)

theorem write (h : Supplied layout inputs s.workspace) (file : File)
    (hfile : file ∈ File.artifacts) (text : String) (n : Notice) :
    ∃ s', (Action.write (layout.path file) text >>= fun _ => notice n) s = (.ok (), s') := by
  have hwrote : Wrote (layout.path file) text s.workspace
      (s.workspace.writeBelow (layout.path file) text.toUTF8).1 :=
    Prod.ext rfl (h.accepts file hfile text.toUTF8)
  obtain ⟨s', hrun, -⟩ := write_of_wrote n hwrote
  exact ⟨s', hrun⟩

theorem write_both (h : Supplied layout inputs s.workspace) (file file' : File)
    (hfile : file ∈ File.artifacts) (hfile' : file' ∈ File.artifacts) (hne : file ≠ file')
    (text text' : String) (n n' : Notice) :
    ∃ s', (Action.write (layout.path file) text >>= fun _ => notice n >>= fun _ =>
        Action.write (layout.path file') text' >>= fun _ => notice n') s = (.ok (), s') ∧
      s'.workspace.read (layout.path file) = .ok text.toUTF8 ∧
      s'.workspace.read (layout.path file') = .ok text'.toUTF8 := by
  obtain ⟨m, hfirst⟩ := h.write file hfile text n
  have hwrote := wrote_of_write hfirst
  have hm : Supplied layout inputs m.workspace :=
    h.of_writes ((Wrote.writes file hwrote).mono (List.cons_subset.mpr ⟨hfile, List.nil_subset _⟩))
  obtain ⟨s', hsecond⟩ := hm.write file' hfile' text' n'
  have hwrote' := wrote_of_write hsecond
  refine ⟨s', ?_, ?_, hwrote'.read⟩
  · rw [← bind_assoc, bind_of_ok hfirst]
    exact hsecond
  · exact (Wrote.writes file' hwrote').read file hwrote.read (mt List.mem_singleton.mp hne)

/-! ## Steps -/

theorem extractPrefixes (h : Supplied layout inputs s.workspace) :
    ∃ s', Command.extractPrefixes layout s = (.ok (), s') := by
  obtain ⟨m, hread, hm⟩ := readSource_of_read h.source
  rw [← hm] at h
  unfold Command.extractPrefixes
  rw [bind_of_ok hread]
  exact h.write .prefixMap (by decide) _ _

theorem extractClassifications {table : ClassificationTable}
    (h : Supplied layout inputs s.workspace)
    (htable : Source.classifications (Text.decodeLossy inputs.header) = .ok table) :
    ∃ s', Command.extractClassifications layout s = (.ok (), s') := by
  obtain ⟨m, hread, hm⟩ := readSource_of_read h.header
  rw [← hm] at h
  unfold Command.extractClassifications
  rw [bind_of_ok hread, bind_of_ok (within_orFail_of_ok htable)]
  exact h.write .classifications (by decide) _ _

theorem extractKeywords (h : Supplied layout inputs s.workspace) :
    ∃ s', Command.extractKeywords layout s = (.ok (), s') := by
  obtain ⟨m, hread, hm⟩ := readSource_of_read h.source
  rw [← hm] at h
  unfold Command.extractKeywords
  rw [bind_of_ok hread]
  exact h.write .keywords (by decide) _ _

theorem generateSettings {settings : Settings} (h : Supplied layout inputs s.workspace)
    (hsettings : Settings.ofTheme inputs.theme inputs.settingsTemplate layout.theme =
      .ok settings) :
    ∃ s', Command.generateSettings layout s = (.ok (), s') ∧
      s'.workspace.read layout.settings = .ok settings.displayP3.text.toUTF8 ∧
      s'.workspace.read layout.srgbSettings = .ok settings.srgb.text.toUTF8 := by
  unfold Command.generateSettings
  rw [readTheme, bind_of_ok (readJson_of_holds h.theme),
    bind_of_ok (readJson_of_holds h.settingsTemplate), bind_of_ok (within_orFail_of_ok hsettings)]
  exact h.write_both .settings .srgbSettings (by decide) (by decide) nofun _ _ _ _

theorem generateSrgbTheme {converted : Json × Nat} (h : Supplied layout inputs s.workspace)
    (hconverted : Theme.srgb inputs.theme = .ok converted) :
    ∃ s', Command.generateSrgbTheme layout s = (.ok (), s') := by
  unfold Command.generateSrgbTheme
  rw [readTheme, bind_of_ok (readJson_of_holds h.theme),
    bind_of_ok (within_orFail_of_ok hconverted)]
  exact h.write .srgbTheme (by decide) _ _

/-- Without the other theme, there is a notice and no colours. -/
theorem exists_readOtherTokenColors (layout : Layout) (s : Session) :
    ∃ colors s', readOtherTokenColors layout s = (.ok colors, s') ∧
      s'.workspace = s.workspace := by
  have hquiet := (quiet_readOtherTokenColors layout).run s
  suffices hok : ∃ colors s', readOtherTokenColors layout s = (.ok colors, s') by
    obtain ⟨colors, s', hrun⟩ := hok
    rw [hrun] at hquiet
    exact ⟨colors, s', hrun, hquiet.symm⟩
  unfold readOtherTokenColors
  obtain ⟨result, m, hread⟩ : ∃ result m,
      attempt (readJson .relaxed .json layout.darkModern) s = (.ok result, m) := ⟨_, _, rfl⟩
  rw [bind_of_ok hread]
  cases result with
  | error failure => exact ⟨_, _, rfl⟩
  | ok theme =>
      simp only
      split
      next => exact ⟨_, _, rfl⟩
      next => exact ⟨_, _, rfl⟩

theorem generateNoTokensTheme (h : Supplied layout inputs s.workspace) :
    ∃ s', Command.generateNoTokensTheme layout s = (.ok (), s') := by
  obtain ⟨colors, m, hcolors, hm⟩ := exists_readOtherTokenColors layout s
  unfold Command.generateNoTokensTheme
  rw [readTheme, bind_of_ok (readJson_of_holds h.theme), bind_of_ok hcolors]
  rw [← hm] at h
  exact h.write .noTokensTheme (by decide) _ _

section

variable {k : KeywordTable} {p : PrefixTable} {c : ClassificationTable}

theorem combineTables (h : Supplied layout inputs s.workspace)
    (hk : s.workspace.read layout.keywords = .ok k.toJson.text.toUTF8)
    (hp : s.workspace.read layout.prefixMap = .ok p.toJson.text.toUTF8)
    (hc : s.workspace.read layout.classifications = .ok c.toJson.text.toUTF8) :
    ∃ s', Command.combineTables layout s = (.ok (), s') := by
  unfold Command.combineTables
  rw [bind_of_ok (readTable_of_read hk k.read_text), bind_of_ok (readTable_of_read hp p.read_text),
    bind_of_ok (readTable_of_read hc c.read_text)]
  exact h.write .scopes (by decide) _ _

theorem generateGrammar (h : Supplied layout inputs s.workspace)
    (hk : s.workspace.read layout.keywords = .ok k.toJson.text.toUTF8)
    (hp : s.workspace.read layout.prefixMap = .ok p.toJson.text.toUTF8) :
    ∃ s', Command.generateGrammar layout s = (.ok (), s') := by
  unfold Command.generateGrammar
  rw [bind_of_ok (readJson_of_read hp p.read_text), bind_of_ok (readJson_of_read hk k.read_text)]
  exact h.write .grammar (by decide) _ _

end

theorem generateConfig {table : ScopeTable} {rules : List Clangd.Rule}
    (h : Supplied layout inputs s.workspace)
    (hread : s.workspace.read layout.scopes = .ok table.toJson.text.toUTF8)
    (hrules : Clangd.rules table = .ok rules) :
    ∃ s', Command.generateConfig layout s = (.ok (), s') := by
  unfold Command.generateConfig
  rw [bind_of_ok (readJson_of_read hread table.read_text),
    bind_of_ok (within_orFail_of_ok hrules)]
  obtain ⟨m, htemplate, hm⟩ := readConfigTemplate_of_hasText h.configTemplate
  rw [bind_of_ok htemplate]
  rw [← hm] at h
  obtain ⟨s', hrun, -⟩ :=
    h.write_both .config .manifestSection (by decide) (by decide) nofun _ _ _ _
  exact ⟨s', hrun⟩

theorem generateReadme {config : String} {a b : Json} (h : Supplied layout inputs s.workspace)
    (ha : HoldsJson s.workspace .standard layout.settings a)
    (hb : HoldsJson s.workspace .standard layout.srgbSettings b)
    (hconfig : s.workspace.read layout.config = .ok config.toUTF8) :
    ∃ s', Command.generateReadme layout s = (.ok (), s') := by
  have hread : readConfig layout s = (.ok config, s) := by
    unfold readConfig
    rw [bind_of_ok (pathExists_apply _ _), if_pos (pathExists_of_read hconfig)]
    exact readText_eq_ok_iff.mpr ⟨hconfig, rfl⟩
  unfold Command.generateReadme
  rw [bind_of_ok (readText_eq_ok_iff.mpr ⟨h.readmeTemplate, rfl⟩),
    bind_of_ok (readJson_of_holds ha), bind_of_ok (readJson_of_holds hb), bind_of_ok hread]
  exact h.write .readme (by decide) _ _

/-! ## Chains of steps -/

/-- The first three steps, and the tables that they leave. -/
theorem exists_extracted {table : ClassificationTable} (h : Supplied layout inputs s.workspace)
    (htable : Source.classifications (Text.decodeLossy inputs.header) = .ok table) :
    ∃ s₁ s₂ s₃, Command.extractPrefixes layout s = (.ok (), s₁) ∧
      Command.extractClassifications layout s₁ = (.ok (), s₂) ∧
      Command.extractKeywords layout s₂ = (.ok (), s₃) ∧ Supplied layout inputs s₃.workspace ∧
      s₃.workspace.read layout.keywords = .ok inputs.keywords.toJson.text.toUTF8 ∧
      s₃.workspace.read layout.prefixMap = .ok inputs.prefixes.toJson.text.toUTF8 ∧
      s₃.workspace.read layout.classifications = .ok table.toJson.text.toUTF8 := by
  obtain ⟨s₁, h₁⟩ := h.extractPrefixes
  have i₁ := h.of_run (along_extractPrefixes layout) (by decide) h₁
  obtain ⟨s₂, h₂⟩ := i₁.extractClassifications htable
  have i₂ := i₁.of_run (along_extractClassifications layout) (by decide) h₂
  obtain ⟨s₃, h₃⟩ := i₂.extractKeywords
  have i₃ := i₂.of_run (along_extractKeywords layout) (by decide) h₃
  obtain ⟨src, hdr, c, hsrc, hhdr, hc, hreads⟩ := read_of_extract h₁ h₂ h₃
  obtain rfl := Except.ok.inj (hsrc.symm.trans h.source)
  obtain rfl := Except.ok.inj (hhdr.symm.trans h.header)
  obtain rfl := Except.ok.inj (hc.symm.trans htable)
  exact ⟨s₁, s₂, s₃, h₁, h₂, h₃, i₃, hreads⟩

/-- The steps from the settings to the themes, and what they leave to the last ones. -/
theorem exists_derived {k : KeywordTable} {p : PrefixTable} {c : ClassificationTable}
    {settings : Settings} {converted : Json × Nat} (h : Supplied layout inputs s.workspace)
    (hk : s.workspace.read layout.keywords = .ok k.toJson.text.toUTF8)
    (hp : s.workspace.read layout.prefixMap = .ok p.toJson.text.toUTF8)
    (hc : s.workspace.read layout.classifications = .ok c.toJson.text.toUTF8)
    (hsettings : Settings.ofTheme inputs.theme inputs.settingsTemplate layout.theme = .ok settings)
    (hconverted : Theme.srgb inputs.theme = .ok converted) :
    ∃ s₄ s₅ s₆ s₇ s₈, Command.generateSettings layout s = (.ok (), s₄) ∧
      Command.combineTables layout s₄ = (.ok (), s₅) ∧
      Command.generateGrammar layout s₅ = (.ok (), s₆) ∧
      Command.generateSrgbTheme layout s₆ = (.ok (), s₇) ∧
      Command.generateNoTokensTheme layout s₇ = (.ok (), s₈) ∧
      Supplied layout inputs s₈.workspace ∧
      s₈.workspace.read layout.scopes = .ok (ScopeTable.combine k p c).toJson.text.toUTF8 ∧
      s₈.workspace.read layout.settings = .ok settings.displayP3.text.toUTF8 ∧
      s₈.workspace.read layout.srgbSettings = .ok settings.srgb.text.toUTF8 := by
  obtain ⟨s₄, h₄, hdisplay, hsrgb⟩ := h.generateSettings hsettings
  have i₄ := h.of_run (along_generateSettings layout) (by decide) h₄
  have w₄ := writes_of_run (along_generateSettings layout) h₄
  have k₄ := w₄.read .keywords hk (by decide)
  have p₄ := w₄.read .prefixMap hp (by decide)
  have c₄ := w₄.read .classifications hc (by decide)
  obtain ⟨s₅, h₅⟩ := i₄.combineTables k₄ p₄ c₄
  have i₅ := i₄.of_run (along_combineTables layout) (by decide) h₅
  have w₅ := writes_of_run (along_combineTables layout) h₅
  obtain ⟨s₆, h₆⟩ := i₅.generateGrammar (w₅.read .keywords k₄ (by decide))
    (w₅.read .prefixMap p₄ (by decide))
  have i₆ := i₅.of_run (along_generateGrammar layout) (by decide) h₆
  have w₆ := writes_of_run (along_generateGrammar layout) h₆
  obtain ⟨s₇, h₇⟩ := i₆.generateSrgbTheme hconverted
  have i₇ := i₆.of_run (along_generateSrgbTheme layout) (by decide) h₇
  have w₇ := writes_of_run (along_generateSrgbTheme layout) h₇
  obtain ⟨s₈, h₈⟩ := i₇.generateNoTokensTheme
  have i₈ := i₇.of_run (along_generateNoTokensTheme layout) (by decide) h₈
  have w₈ := writes_of_run (along_generateNoTokensTheme layout) h₈
  have hlater : Writes layout [.grammar, .srgbTheme, .noTokensTheme] s₅.workspace s₈.workspace :=
    (w₆.mono (by decide)).trans ((w₇.mono (by decide)).trans (w₈.mono (by decide)))
  have hscopes := (wrote_of_combineTables h₅ k₄ p₄ c₄).read
  refine ⟨s₄, s₅, s₆, s₇, s₈, h₄, h₅, h₆, h₇, h₈, i₈, ?_, ?_, ?_⟩
  · exact hlater.read .scopes hscopes (by decide)
  · exact hlater.read .settings (w₅.read .settings hdisplay (by decide)) (by decide)
  · exact hlater.read .srgbSettings (w₅.read .srgbSettings hsrgb (by decide)) (by decide)

/-- The last two steps that write. -/
theorem exists_finished {table : ScopeTable} {rules : List Clangd.Rule} {a b : Json}
    (h : Supplied layout inputs s.workspace)
    (hscopes : s.workspace.read layout.scopes = .ok table.toJson.text.toUTF8)
    (hrules : Clangd.rules table = .ok rules)
    (ha : HoldsJson s.workspace .standard layout.settings a)
    (hb : HoldsJson s.workspace .standard layout.srgbSettings b) :
    ∃ s₉ s₁₀, Command.generateConfig layout s = (.ok (), s₉) ∧
      Command.generateReadme layout s₉ = (.ok (), s₁₀) := by
  obtain ⟨s₉, h₉⟩ := h.generateConfig hscopes hrules
  have i₉ := h.of_run (along_generateConfig layout) (by decide) h₉
  have w₉ := writes_of_run (along_generateConfig layout) h₉
  obtain ⟨_, _, _, _, hconfig, -⟩ := read_of_generateConfig h₉ hscopes
  obtain ⟨s₁₀, h₁₀⟩ := i₉.generateReadme (ha.of_writes .settings w₉ (by decide))
    (hb.of_writes .srgbSettings w₉ (by decide)) hconfig
  exact ⟨s₉, s₁₀, h₉, h₁₀⟩

end Supplied

/-- Everything that an update makes of its inputs can be made. -/
structure Usable (layout : Layout) (inputs : Inputs) : Prop where
  rules : ∃ table rules, Source.classifications (Text.decodeLossy inputs.header) = .ok table ∧
    Clangd.rules (ScopeTable.combine inputs.keywords inputs.prefixes table) = .ok rules
  settings : ∃ settings a b,
    Settings.ofTheme inputs.theme inputs.settingsTemplate layout.theme = .ok settings ∧
    Json.Decoder.json.read .standard settings.displayP3.text = .ok a ∧
    Json.Decoder.json.read .standard settings.srgb.text = .ok b
  srgbTheme : ∃ converted, Theme.srgb inputs.theme = .ok converted

/-- An update succeeds where its inputs are there and can be used, and where its files can be
written. -/
theorem update_of_supplied (h : Supplied layout inputs s.workspace) (hu : Usable layout inputs) :
    (update layout s).1 = .ok () := by
  obtain ⟨table, rules, htable, hrules⟩ := hu.rules
  obtain ⟨settings, a, b, hsettings, ha, hb⟩ := hu.settings
  obtain ⟨converted, hconverted⟩ := hu.srgbTheme
  obtain ⟨s₁, s₂, s₃, h₁, h₂, h₃, i₃, hk, hp, hc⟩ := h.exists_extracted htable
  obtain ⟨s₄, s₅, s₆, s₇, s₈, h₄, h₅, h₆, h₇, h₈, i₈, hscopes, hdisplay, hsrgb⟩ :=
    i₃.exists_derived hk hp hc hsettings hconverted
  obtain ⟨s₉, s₁₀, h₉, h₁₀⟩ := i₈.exists_finished hscopes hrules ⟨_, hdisplay, ha⟩ ⟨_, hsrgb, hb⟩
  apply update_of_writingSteps
  exact writingSteps_eq_ok_iff.mpr
    ⟨s₁, s₂, s₃, s₄, s₅, s₆, s₇, s₈, s₉, h₁, h₂, h₃, h₄, h₅, h₆, h₇, h₈, h₉, h₁₀⟩

/-! ## A workspace in which an update succeeds -/

/-- A prefix of the classification that the header declares. -/
def smallSource : String := "\x7b\"C\",EClassification::EClassification_T,true\x7d"

def smallHeader : String := "enum class EClassification \x7b EClassification_T \x7d"

/-- A workspace with all that an update needs. -/
def smallWorkspace : Workspace := ⟨.ofList [
  (⟨.above 0, ["HighlighterrCxx.cpp"]⟩, .file smallSource.toUTF8),
  (⟨.above 0, ["HighlighterrCxx.h"]⟩, .file smallHeader.toUTF8),
  (⟨.above 0, ["themes"]⟩, .directory),
  (⟨.above 0, ["themes", "malterlib.json"]⟩,
    .file "\x7b\"tokenColors\":[\x7b\x7d]\x7d".toUTF8),
  (⟨.above 0, ["settingsTemplate.json"]⟩, .file "\x7b\x7d".toUTF8),
  (⟨.above 0, ["README-template.md"]⟩, .file "".toUTF8)]⟩

/-- What the workspace holds for an update. -/
def smallInputs : Inputs where
  source := smallSource.toUTF8
  header := smallHeader.toUTF8
  theme := .object [("tokenColors", .array [.object []])]
  settingsTemplate := .object []
  configTemplate := none
  readmeTemplate := ""

theorem supplied_smallWorkspace : Supplied ⟨".", "."⟩ smallInputs smallWorkspace where
  source := rfl
  header := rfl
  theme := ⟨_, rfl, by decide +kernel⟩
  settingsTemplate := ⟨_, rfl, by decide +kernel⟩
  configTemplate := show smallWorkspace.pathExists _ = false from rfl
  readmeTemplate := rfl
  accepts := by
    have hempty : ∀ file ∈ File.artifacts,
        (smallWorkspace.writeBelow (Layout.path ⟨".", "."⟩ file) .empty).2 = .ok () := by
      decide +kernel
    exact fun file hmem => accepts_of_empty (hempty file hmem)

/-- The settings that are made of the theme, with the member for the colours in both. -/
def smallSettings : Settings :=
  let colors := ("editor.tokenColorCustomizations",
    Json.object [("textMateRules", .array [.object []])])
  ⟨.object [colors], .object [("workbench.highlightingColorSpace", .string "srgb"), colors]⟩

theorem usable_smallInputs : Usable ⟨".", "."⟩ smallInputs where
  rules := by
    have hrules : (Source.classifications (Text.decodeLossy smallInputs.header) >>= fun table =>
        Clangd.rules (ScopeTable.combine smallInputs.keywords smallInputs.prefixes table)) =
          .ok [⟨"^C([binpfro]?[A-Z][A-Za-z0-9_]*)$", ["Custom0"], "malterlib-t"⟩] := by
      decide +kernel
    obtain ⟨table, htable, hbuilt⟩ := bind_eq_ok.mp hrules
    exact ⟨table, _, htable, hbuilt⟩
  settings := ⟨smallSettings, smallSettings.displayP3, smallSettings.srgb, rfl,
    Json.Decoder.read_text _ rfl, Json.Decoder.read_text _ rfl⟩
  srgbTheme := ⟨_, rfl⟩

theorem update_smallWorkspace :
    (update ⟨".", "."⟩ { workspace := smallWorkspace }).1 = .ok () :=
  update_of_supplied supplied_smallWorkspace usable_smallInputs

end Command

end Lexicolor
