import Mathlib
import Lexicolor.Proofs.Command.Steps
import Lexicolor.Proofs.Json.Tables

/-!
# Tables from step to step

The steps of an update hand their tables on in files. A table that is written
is read back as it is, and no step writes a file that a later step still needs
as it was. So each step works on the tables made of the sources.
-/

namespace Lexicolor

open Layout (File)
open Lexicolor.Action Lexicolor.Workspace

variable {layout : Layout} {w w' : Workspace} {s s' : Session}

namespace Command

theorem forM_cons_eq_ok_iff {β : Type} {item : β} {items : List β} {g : β → Action Unit} :
    (item :: items).forM g s = (.ok (), s') ↔
      ∃ m, g item s = (.ok (), m) ∧ items.forM g m = (.ok (), s') := by
  show (g item >>= fun _ => items.forM g) s = _ ↔ _
  rw [bind_eq_ok_iff]
  exact ⟨fun ⟨_, m, hm⟩ => ⟨m, hm⟩, fun ⟨m, hm⟩ => ⟨(), m, hm⟩⟩

/-- The steps of an update before the last one, which only reports. -/
def writingSteps (layout : Layout) : Action Unit :=
  (steps layout).dropLast.forM fun (purpose, step) => within purpose step

/-- The steps that write succeed where they are a chain of steps that do. -/
theorem writingSteps_eq_ok_iff : writingSteps layout s = (.ok (), s') ↔
    ∃ s₁ s₂ s₃ s₄ s₅ s₆ s₇ s₈ s₉,
      extractPrefixes layout s = (.ok (), s₁) ∧
      extractClassifications layout s₁ = (.ok (), s₂) ∧
      extractKeywords layout s₂ = (.ok (), s₃) ∧
      generateSettings layout s₃ = (.ok (), s₄) ∧
      combineTables layout s₄ = (.ok (), s₅) ∧
      generateGrammar layout s₅ = (.ok (), s₆) ∧
      generateSrgbTheme layout s₆ = (.ok (), s₇) ∧
      generateNoTokensTheme layout s₇ = (.ok (), s₈) ∧
      generateConfig layout s₈ = (.ok (), s₉) ∧
      generateReadme layout s₉ = (.ok (), s') := by
  simp only [writingSteps, steps, List.dropLast, forM_cons_eq_ok_iff, within_eq_ok_iff]
  constructor
  · rintro ⟨s₁, h₁, s₂, h₂, s₃, h₃, s₄, h₄, s₅, h₅, s₆, h₆, s₇, h₇, s₈, h₈, s₉, h₉, s₁₀, h₁₀, hend⟩
    cases hend
    exact ⟨s₁, s₂, s₃, s₄, s₅, s₆, s₇, s₈, s₉, h₁, h₂, h₃, h₄, h₅, h₆, h₇, h₈, h₉, h₁₀⟩
  · rintro ⟨s₁, s₂, s₃, s₄, s₅, s₆, s₇, s₈, s₉, h₁, h₂, h₃, h₄, h₅, h₆, h₇, h₈, h₉, h₁₀⟩
    exact ⟨s₁, h₁, s₂, h₂, s₃, h₃, s₄, h₄, s₅, h₅, s₆, h₆, s₇, h₇, s₈, h₈, s₉, h₉, s', h₁₀, rfl⟩

/-- An update is the steps that write, the check behind them and a notice. -/
theorem update_eq_ok_iff : update layout s = (.ok (), s') ↔
    ∃ m n, writingSteps layout s = (.ok (), m) ∧ checkCoverage layout m = (.ok (), n) ∧
      notice .allUpdated n = (.ok (), s') := by
  have hsplit : update layout = (writingSteps layout >>= fun _ =>
      within "Checking grammar coverage" (checkCoverage layout) >>= fun _ =>
        notice .allUpdated) := by
    have hsteps : steps layout =
        (steps layout).dropLast ++ [("Checking grammar coverage", checkCoverage layout)] := rfl
    rw [update, hsteps, List.forM_eq_forM, List.forM_append, writingSteps, List.forM_eq_forM]
    simp only [List.forM_cons, List.forM_nil, bind_assoc, pure_bind]
  rw [hsplit]
  simp only [bind_eq_ok_iff, within_eq_ok_iff]
  constructor
  · rintro ⟨_, m, hsteps, _, n, hcheck, hnotice⟩
    exact ⟨m, n, hsteps, hcheck, hnotice⟩
  · rintro ⟨m, n, hsteps, hcheck, hnotice⟩
    exact ⟨(), m, hsteps, (), n, hcheck, hnotice⟩

theorem writes_of_run {files : List File} {a : Action Unit} (ha : Along (Writes layout files) a)
    (hrun : a s = (.ok (), s')) : Writes layout files s.workspace s'.workspace := by
  have hwrites := ha.run s
  rw [hrun] at hwrites
  exact hwrites

/-- The first three steps leave the tables of the sources. -/
theorem read_of_extract {s₁ s₂ s₃ : Session} (h₁ : extractPrefixes layout s = (.ok (), s₁))
    (h₂ : extractClassifications layout s₁ = (.ok (), s₂))
    (h₃ : extractKeywords layout s₂ = (.ok (), s₃)) :
    ∃ src hdr classifications, s.workspace.read layout.cppSource = .ok src ∧
      s.workspace.read layout.cppHeader = .ok hdr ∧
      Source.classifications (Text.decodeLossy hdr) = .ok classifications ∧
      s₃.workspace.read layout.keywords =
        .ok (Source.keywords (Text.decodeLossy src)).toJson.text.toUTF8 ∧
      s₃.workspace.read layout.prefixMap =
        .ok (Source.prefixes (Text.decodeLossy src)).toJson.text.toUTF8 ∧
      s₃.workspace.read layout.classifications = .ok classifications.toJson.text.toUTF8 := by
  have w₁ := writes_of_run (along_extractPrefixes layout) h₁
  have w₂ := writes_of_run (along_extractClassifications layout) h₂
  have w₃ := writes_of_run (along_extractKeywords layout) h₃
  obtain ⟨src, hsrc, hprefixes⟩ := extractPrefixes_eq_ok h₁
  obtain ⟨hdr, classifications, hhdr, hparse, hclassifications⟩ := extractClassifications_eq_ok h₂
  obtain ⟨src', hsrc', hkeywords⟩ := extractKeywords_eq_ok h₃
  -- the source is the same for both tables that are made of it
  have hsame := w₂.read .cppSource (w₁.read .cppSource hsrc (by decide)) (by decide)
  obtain rfl : src = src' := Except.ok.inj (hsame.symm.trans hsrc')
  obtain ⟨d, hopen⟩ := opens_of_read .cppSource hsrc
  refine ⟨src, hdr, classifications, hsrc, ?_, hparse, hkeywords.read, ?_, ?_⟩
  · exact w₁.read_of_opens .cppHeader hhdr (by decide) hopen
  · exact w₃.read .prefixMap (w₂.read .prefixMap hprefixes.read (by decide)) (by decide)
  · exact w₃.read .classifications hclassifications.read (by decide)

/-- The steps of an update after the first one. -/
def laterSteps (layout : Layout) : Action Unit := do
  (steps layout).tail.forM fun (purpose, step) => within purpose step
  notice .allUpdated

theorem update_eq_bind (layout : Layout) : update layout =
    (within "Updating prefix map" (extractPrefixes layout) >>= fun _ => laterSteps layout) :=
  bind_assoc (within "Updating prefix map" (extractPrefixes layout)) _ _

theorem along_laterSteps (layout : Layout) :
    Along (Writes layout File.artifacts.tail) (laterSteps layout) := by
  apply Along.bind _ fun _ => .of_quiet (quiet_notice _)
  apply Along.forM
  have hmono {files : List File} {a : Action Unit} (ha : Along (Writes layout files) a)
      (hfiles : files ⊆ File.artifacts.tail) : Along (Writes layout File.artifacts.tail) a :=
    ha.mono fun _ _ hwrites => hwrites.mono hfiles
  simp only [steps, List.tail_cons, List.forall_mem_cons, List.not_mem_nil, IsEmpty.forall_iff,
    implies_true, and_true]
  refine ⟨?_, ?_, ?_, ?_, ?_, ?_, ?_, ?_, ?_, ?_⟩ <;> apply Along.within
  · exact hmono (along_extractClassifications layout) (by decide)
  · exact hmono (along_extractKeywords layout) (by decide)
  · exact hmono (along_generateSettings layout) (by decide)
  · exact hmono (along_combineTables layout) (by decide)
  · exact hmono (along_generateGrammar layout) (by decide)
  · exact hmono (along_generateSrgbTheme layout) (by decide)
  · exact hmono (along_generateNoTokensTheme layout) (by decide)
  · exact hmono (along_generateConfig layout) (by decide)
  · exact hmono (along_generateReadme layout) (by decide)
  · exact .of_quiet (quiet_checkCoverage layout)

/-- Whatever an update answers, it writes generated files only. -/
theorem along_update (layout : Layout) :
    Along (Writes layout File.artifacts) (update layout) := by
  rw [update_eq_bind]
  apply Along.bind
  · apply Along.within
    exact (along_extractPrefixes layout).mono fun _ _ hwrites => hwrites.mono (by decide)
  · intro _
    exact (along_laterSteps layout).mono fun _ _ hwrites => hwrites.mono (by decide)

/-! ## Tables from file to file -/

section

variable {k : KeywordTable} {p : PrefixTable} {c : ClassificationTable}

theorem wrote_of_combineTables (h : combineTables layout s = (.ok (), s'))
    (hk : s.workspace.read layout.keywords = .ok k.toJson.text.toUTF8)
    (hp : s.workspace.read layout.prefixMap = .ok p.toJson.text.toUTF8)
    (hc : s.workspace.read layout.classifications = .ok c.toJson.text.toUTF8) :
    Wrote layout.scopes (ScopeTable.combine k p c).toJson.text s.workspace s'.workspace := by
  obtain ⟨keywords, prefixes, classifications, hkeywords, hprefixes, hclassifications, hwrote⟩ :=
    combineTables_eq_ok h hk hp hc
  rw [KeywordTable.read_text] at hkeywords
  rw [PrefixTable.read_text] at hprefixes
  rw [ClassificationTable.read_text] at hclassifications
  cases hkeywords
  cases hprefixes
  cases hclassifications
  exact hwrote

theorem wrote_of_generateGrammar (h : generateGrammar layout s = (.ok (), s'))
    (hk : s.workspace.read layout.keywords = .ok k.toJson.text.toUTF8)
    (hp : s.workspace.read layout.prefixMap = .ok p.toJson.text.toUTF8) :
    Wrote layout.grammar (Grammar.generate p k).toJson.text s.workspace s'.workspace := by
  obtain ⟨keywords, prefixes, hkeywords, hprefixes, hwrote⟩ := generateGrammar_eq_ok h hk hp
  rw [KeywordTable.read_text] at hkeywords
  rw [PrefixTable.read_text] at hprefixes
  cases hkeywords
  cases hprefixes
  exact hwrote

/-- Writing files next to the template leaves the template as it is. -/
theorem HasText.of_writes {files : List File} {template : Option String} {d : Location}
    (h : HasText w layout.configTemplate template) (hwrites : Writes layout files w w')
    (hopen : w.Opens layout.root d)
    (hfiles : ∀ file ∈ files, file.folder? = none ∧ file.isSource = false ∧ file ≠ .configTemplate) :
    HasText w' layout.configTemplate template := by
  have hfile : File.configTemplate ∉ files := fun hmem => (hfiles _ hmem).2.2 rfl
  cases template with
  | some text => exact hwrites.read .configTemplate h hfile
  | none =>
      have hgrows := hwrites.grows_below hopen fun file hmem => (hfiles file hmem).2.1
      apply (hgrows.pathExists_eq _ (mt sites_iff.mp hfile)).trans h
      rintro l ⟨file, hmem, rfl⟩
      rw [folderAt, (hfiles file hmem).1]
      exact hopen.2

theorem read_of_generateConfig {table : ScopeTable}
    (h : generateConfig layout s = (.ok (), s'))
    (hread : s.workspace.read layout.scopes = .ok table.toJson.text.toUTF8) :
    ∃ rules template, Clangd.rules table = .ok rules ∧
      HasText s.workspace layout.configTemplate template ∧
      s'.workspace.read layout.config = .ok (Clangd.config rules template).toUTF8 ∧
      s'.workspace.read layout.manifestSection = .ok (Clangd.manifest rules).text.toUTF8 := by
  obtain ⟨scopes, rules, template, w, hscopes, hrules, htemplate, hconfig, hmanifest⟩ :=
    generateConfig_eq_ok h hread
  rw [ScopeTable.read_text] at hscopes
  cases hscopes
  have hwrites := Wrote.writes .manifestSection hmanifest
  exact ⟨rules, template, hrules, htemplate, hwrites.read .config hconfig.read (by decide),
    hmanifest.read⟩

end

/-- The tables and the grammar of a workspace are those made of a source and a table of
classifications. -/
structure HoldsTables (layout : Layout) (source : String) (declared : ClassificationTable)
    (w : Workspace) : Prop where
  keywords : w.read layout.keywords = .ok (Source.keywords source).toJson.text.toUTF8
  prefixMap : w.read layout.prefixMap = .ok (Source.prefixes source).toJson.text.toUTF8
  classifications : w.read layout.classifications = .ok declared.toJson.text.toUTF8
  scopes : w.read layout.scopes =
    .ok (ScopeTable.combine (Source.keywords source) (Source.prefixes source)
      declared).toJson.text.toUTF8
  grammar : w.read layout.grammar =
    .ok (Grammar.generate (Source.prefixes source) (Source.keywords source)).toJson.text.toUTF8

/-- What the steps that write leave is made of the sources. -/
theorem holdsTables_of_writingSteps (h : writingSteps layout s = (.ok (), s')) :
    ∃ src hdr classifications rules template,
      s.workspace.read layout.cppSource = .ok src ∧
      s.workspace.read layout.cppHeader = .ok hdr ∧
      Source.classifications (Text.decodeLossy hdr) = .ok classifications ∧
      Clangd.rules (ScopeTable.combine (Source.keywords (Text.decodeLossy src))
        (Source.prefixes (Text.decodeLossy src)) classifications) = .ok rules ∧
      HasText s'.workspace layout.configTemplate template ∧
      HoldsTables layout (Text.decodeLossy src) classifications s'.workspace ∧
      s'.workspace.read layout.config = .ok (Clangd.config rules template).toUTF8 ∧
      s'.workspace.read layout.manifestSection = .ok (Clangd.manifest rules).text.toUTF8 := by
  obtain ⟨s₁, s₂, s₃, s₄, s₅, s₆, s₇, s₈, s₉, h₁, h₂, h₃, h₄, h₅, h₆, h₇, h₈, h₉, h₁₀⟩ :=
    writingSteps_eq_ok_iff.mp h
  -- each step writes files of its own, so what an earlier step wrote stays as it is
  have w₄ := writes_of_run (along_generateSettings layout) h₄
  have w₅ := writes_of_run (along_combineTables layout) h₅
  have w₆ := writes_of_run (along_generateGrammar layout) h₆
  have w₇ := writes_of_run (along_generateSrgbTheme layout) h₇
  have w₈ := writes_of_run (along_generateNoTokensTheme layout) h₈
  have w₉ := writes_of_run (along_generateConfig layout) h₉
  have w₁₀ := writes_of_run (along_generateReadme layout) h₁₀
  obtain ⟨src, hdr, c, hsrc, hhdr, hparse, hk, hp, hc⟩ := read_of_extract h₁ h₂ h₃
  have k₄ := w₄.read .keywords hk (by decide)
  have p₄ := w₄.read .prefixMap hp (by decide)
  have c₄ := w₄.read .classifications hc (by decide)
  have hscopes := wrote_of_combineTables h₅ k₄ p₄ c₄
  have k₅ := w₅.read .keywords k₄ (by decide)
  have p₅ := w₅.read .prefixMap p₄ (by decide)
  have hgrammar := wrote_of_generateGrammar h₆ k₅ p₅
  have t₈ : Writes layout [.config, .manifestSection, .readme] s₈.workspace s'.workspace :=
    (w₉.mono (by decide)).trans (w₁₀.mono (by decide))
  have t₆ : Writes layout [.srgbTheme, .noTokensTheme, .config, .manifestSection, .readme]
      s₆.workspace s'.workspace :=
    (w₇.mono (by decide)).trans ((w₈.mono (by decide)).trans (t₈.mono (by decide)))
  have s₆scopes := w₆.read .scopes hscopes.read (by decide)
  have s₈scopes := w₈.read .scopes (w₇.read .scopes s₆scopes (by decide)) (by decide)
  obtain ⟨rules, template, hrules, htemplate, hconfig, hmanifest⟩ :=
    read_of_generateConfig h₉ s₈scopes
  obtain ⟨d, hopen⟩ := opens_of_read .scopes s₈scopes
  have c₆ := w₆.read .classifications (w₅.read .classifications c₄ (by decide)) (by decide)
  refine ⟨src, hdr, c, rules, template, hsrc, hhdr, hparse, hrules, ?_, ⟨?_, ?_, ?_, ?_, ?_⟩, ?_,
    ?_⟩
  · exact htemplate.of_writes t₈ hopen (by decide)
  · exact t₆.read .keywords (w₆.read .keywords k₅ (by decide)) (by decide)
  · exact t₆.read .prefixMap (w₆.read .prefixMap p₅ (by decide)) (by decide)
  · exact t₆.read .classifications c₆ (by decide)
  · exact t₆.read .scopes s₆scopes (by decide)
  · exact t₆.read .grammar hgrammar.read (by decide)
  · exact w₁₀.read .config hconfig (by decide)
  · exact w₁₀.read .manifestSection hmanifest (by decide)

end Command

end Lexicolor
