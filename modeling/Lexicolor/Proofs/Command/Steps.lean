import Mathlib
import Lexicolor.Command.Basic
import Lexicolor.Proofs.Command.Atomicity

/-!
# What the steps do

Each step of an update reads what it needs and then writes its own files, so
what a step wrote stays until it is written again. A step that succeeds wrote
what it makes of the files that it read.
-/

namespace Lexicolor

open Layout (File)

variable {layout : Layout} {w w' : Workspace} {file : File} {files files' : List File}
variable {bytes : ByteArray} {text : String}

namespace Command

open Lexicolor.Action Lexicolor.Workspace

/-! ## Files that steps write -/

theorem emits_wrote (file : File) (hmem : file ∈ files) (text : String) (n : Notice) :
    Emits layout files (write (layout.path file) text >>= fun _ => notice n) :=
  (Emits.write file hmem text).bind fun _ => .notice n

variable (layout)

theorem atomic_extractPrefixes : Atomic layout [.prefixMap] (extractPrefixes layout) := by
  apply Atomic.quiet_bind (quiet_readSource layout.cppSource)
  intro source
  exact (emits_wrote .prefixMap List.mem_cons_self _ _).atomic

theorem atomic_extractClassifications :
    Atomic layout [.classifications] (extractClassifications layout) := by
  apply Atomic.quiet_bind (quiet_readSource layout.cppHeader)
  intro header
  apply Atomic.quiet_bind ((quiet_orFail _ _).within _)
  intro table
  exact (emits_wrote .classifications List.mem_cons_self _ _).atomic

theorem atomic_extractKeywords : Atomic layout [.keywords] (extractKeywords layout) := by
  apply Atomic.quiet_bind (quiet_readSource layout.cppSource)
  intro source
  exact (emits_wrote .keywords List.mem_cons_self _ _).atomic

theorem emits_writeSettings (settings : Settings) :
    Emits layout [.settings, .srgbSettings] (writeSettings layout settings) := by
  apply Emits.bind (.write .settings List.mem_cons_self _)
  intro _
  apply Emits.bind (.notice _)
  intro _
  exact emits_wrote .srgbSettings (by decide) _ _

theorem atomic_generateSettings :
    Atomic layout [.settings, .srgbSettings] (generateSettings layout) := by
  apply Atomic.quiet_bind (quiet_readJson _ _ _)
  intro theme
  apply Atomic.quiet_bind (quiet_readJson _ _ _)
  intro template
  apply Atomic.quiet_bind ((quiet_orFail _ _).within _)
  intro settings
  exact (emits_writeSettings layout settings).atomic

theorem atomic_combineTables : Atomic layout [.scopes] (combineTables layout) := by
  apply Atomic.quiet_bind (quiet_readTable _ _ _)
  intro keywords
  apply Atomic.quiet_bind (quiet_readTable _ _ _)
  intro prefixes
  apply Atomic.quiet_bind (quiet_readTable _ _ _)
  intro classifications
  exact (emits_wrote .scopes List.mem_cons_self _ _).atomic

theorem atomic_generateGrammar : Atomic layout [.grammar] (generateGrammar layout) := by
  apply Atomic.quiet_bind (quiet_readJson _ _ _)
  intro prefixes
  apply Atomic.quiet_bind (quiet_readJson _ _ _)
  intro keywords
  exact (emits_wrote .grammar List.mem_cons_self _ _).atomic

theorem atomic_generateSrgbTheme : Atomic layout [.srgbTheme] (generateSrgbTheme layout) := by
  apply Atomic.quiet_bind (quiet_readJson _ _ _)
  intro theme
  apply Atomic.quiet_bind ((quiet_orFail _ _).within _)
  intro converted
  exact (emits_wrote .srgbTheme List.mem_cons_self _ _).atomic

theorem quiet_readOtherTokenColors : Quiet (readOtherTokenColors layout) := by
  apply Along.bind ((quiet_readJson _ _ _).attempt)
  intro result
  cases result with
  | ok theme =>
      apply Along.ite
      · exact Along.bind (quiet_notice _) fun _ => Along.pure _
      · exact Along.pure _
  | error failure => exact Along.bind (quiet_notice _) fun _ => Along.pure _

theorem atomic_generateNoTokensTheme :
    Atomic layout [.noTokensTheme] (generateNoTokensTheme layout) := by
  apply Atomic.quiet_bind (quiet_readJson _ _ _)
  intro theme
  apply Atomic.quiet_bind (quiet_readOtherTokenColors layout)
  intro colors
  exact (emits_wrote .noTokensTheme List.mem_cons_self _ _).atomic

theorem quiet_readConfigTemplate : Quiet (readConfigTemplate layout) := by
  apply Along.bind (quiet_pathExists _)
  intro found
  apply Along.ite
  · exact Along.bind (quiet_readText _) fun text => Along.pure _
  · exact Along.bind (quiet_notice _) fun _ => Along.pure _

theorem atomic_generateConfig :
    Atomic layout [.config, .manifestSection] (generateConfig layout) := by
  apply Atomic.quiet_bind (quiet_readJson _ _ _)
  intro table
  apply Atomic.quiet_bind ((quiet_orFail _ _).within _)
  intro rules
  apply Atomic.quiet_bind (quiet_readConfigTemplate layout)
  intro template
  apply Emits.atomic
  apply Emits.bind (.write .config List.mem_cons_self _)
  intro _
  apply Emits.bind (.notice _)
  intro _
  exact emits_wrote .manifestSection (by decide) _ _

theorem quiet_readConfig : Quiet (readConfig layout) := by
  apply Along.bind (quiet_pathExists _)
  intro found
  apply Along.ite
  · exact quiet_readText _
  · exact Along.bind (quiet_notice _) fun _ => Along.pure _

theorem atomic_generateReadme : Atomic layout [.readme] (generateReadme layout) := by
  apply Atomic.quiet_bind (quiet_readText _)
  intro template
  apply Atomic.quiet_bind (quiet_readJson _ _ _)
  intro settings
  apply Atomic.quiet_bind (quiet_readJson _ _ _)
  intro srgbSettings
  apply Atomic.quiet_bind (quiet_readConfig layout)
  intro config
  exact (emits_wrote .readme List.mem_cons_self _ _).atomic

theorem quiet_checkCoverage : Quiet (checkCoverage layout) := by
  apply Along.bind (quiet_readJson _ _ _)
  intro keywords
  apply Along.bind (quiet_readJson _ _ _)
  intro grammar
  apply Along.bind (quiet_readTable _ _ _)
  intro classifications
  apply Along.bind (Along.forM fun item _ => quiet_notice _)
  intro _
  apply Along.bind (quiet_report _)
  intro _
  exact .ite (quiet_notice _) (Along.pure _)

theorem along_extractPrefixes : Along (Writes layout [.prefixMap]) (extractPrefixes layout) :=
  (atomic_extractPrefixes layout).along

theorem along_extractClassifications :
    Along (Writes layout [.classifications]) (extractClassifications layout) :=
  (atomic_extractClassifications layout).along

theorem along_extractKeywords : Along (Writes layout [.keywords]) (extractKeywords layout) :=
  (atomic_extractKeywords layout).along

theorem along_generateSettings :
    Along (Writes layout [.settings, .srgbSettings]) (generateSettings layout) :=
  (atomic_generateSettings layout).along

theorem along_combineTables : Along (Writes layout [.scopes]) (combineTables layout) :=
  (atomic_combineTables layout).along

theorem along_generateGrammar : Along (Writes layout [.grammar]) (generateGrammar layout) :=
  (atomic_generateGrammar layout).along

theorem along_generateSrgbTheme : Along (Writes layout [.srgbTheme]) (generateSrgbTheme layout) :=
  (atomic_generateSrgbTheme layout).along

theorem along_generateNoTokensTheme :
    Along (Writes layout [.noTokensTheme]) (generateNoTokensTheme layout) :=
  (atomic_generateNoTokensTheme layout).along

theorem along_generateConfig :
    Along (Writes layout [.config, .manifestSection]) (generateConfig layout) :=
  (atomic_generateConfig layout).along

theorem along_generateReadme : Along (Writes layout [.readme]) (generateReadme layout) :=
  (atomic_generateReadme layout).along

/-! ## Steps that succeed -/

variable {layout} {s s' : Session} {path : String}

/-- Writing the text to a file succeeded. -/
def Wrote (path text : String) (w w' : Workspace) : Prop :=
  w.writeBelow path text.toUTF8 = (w', .ok ())

theorem Wrote.read (h : Wrote path text w w') : w'.read path = .ok text.toUTF8 :=
  read_of_writeBelow h

theorem Wrote.writes (file : File) (h : Wrote (layout.path file) text w w') :
    Writes layout [file] w w' :=
  .single ⟨file, List.mem_cons_self, _, (congrArg Prod.fst h).symm⟩

theorem wrote_of_write {n : Notice}
    (h : (write path text >>= fun _ => notice n) s = (.ok (), s')) :
    Wrote path text s.workspace s'.workspace := by
  obtain ⟨_, m, hwrite, hnotice⟩ := bind_eq_ok_iff.mp h
  obtain ⟨w, hwritten, rfl⟩ := Action.write_eq_ok_iff.mp hwrite
  cases hnotice
  exact hwritten

theorem write_of_wrote (n : Notice) (h : Wrote path text s.workspace w) :
    ∃ s', (write path text >>= fun _ => notice n) s = (.ok (), s') ∧ s'.workspace = w :=
  ⟨_, bind_eq_ok_iff.mpr ⟨(), _, Action.write_eq_ok_iff.mpr ⟨w, h, rfl⟩, rfl⟩, rfl⟩

theorem extractPrefixes_eq_ok (h : extractPrefixes layout s = (.ok (), s')) :
    ∃ bytes, s.workspace.read layout.cppSource = .ok bytes ∧
      Wrote layout.prefixMap (Source.prefixes (Text.decodeLossy bytes)).toJson.text
        s.workspace s'.workspace := by
  obtain ⟨source, m, hread, hwrite⟩ := bind_eq_ok_iff.mp h
  obtain ⟨bytes, hbytes, rfl, hm⟩ := readSource_eq_ok hread
  have hwrote := wrote_of_write hwrite
  rw [hm] at hwrote
  exact ⟨bytes, hbytes, hwrote⟩

theorem extractClassifications_eq_ok (h : extractClassifications layout s = (.ok (), s')) :
    ∃ bytes table, s.workspace.read layout.cppHeader = .ok bytes ∧
      Source.classifications (Text.decodeLossy bytes) = .ok table ∧
      Wrote layout.classifications table.toJson.text s.workspace s'.workspace := by
  obtain ⟨header, m, hread, hrest⟩ := bind_eq_ok_iff.mp h
  obtain ⟨bytes, hbytes, rfl, hm⟩ := readSource_eq_ok hread
  obtain ⟨table, m', htable, hwrite⟩ := bind_eq_ok_iff.mp hrest
  rw [within_eq_ok_iff, orFail_eq_ok_iff] at htable
  obtain ⟨htable, rfl⟩ := htable
  have hwrote := wrote_of_write hwrite
  rw [hm] at hwrote
  exact ⟨bytes, table, hbytes, htable, hwrote⟩

theorem extractKeywords_eq_ok (h : extractKeywords layout s = (.ok (), s')) :
    ∃ bytes, s.workspace.read layout.cppSource = .ok bytes ∧
      Wrote layout.keywords (Source.keywords (Text.decodeLossy bytes)).toJson.text
        s.workspace s'.workspace := by
  obtain ⟨source, m, hread, hwrite⟩ := bind_eq_ok_iff.mp h
  obtain ⟨bytes, hbytes, rfl, hm⟩ := readSource_eq_ok hread
  have hwrote := wrote_of_write hwrite
  rw [hm] at hwrote
  exact ⟨bytes, hbytes, hwrote⟩

theorem read_theme_of_generateSettings (h : generateSettings layout s = (.ok (), s')) :
    ∃ bytes, s.workspace.read layout.theme = .ok bytes := by
  obtain ⟨theme, m, htheme, -⟩ := bind_eq_ok_iff.mp h
  obtain ⟨⟨text, hread, -⟩, -⟩ := readJson_eq_ok_iff.mp htheme
  exact ⟨_, hread⟩

theorem combineTables_eq_ok (h : combineTables layout s = (.ok (), s')) {k p c : String}
    (hk : s.workspace.read layout.keywords = .ok k.toUTF8)
    (hp : s.workspace.read layout.prefixMap = .ok p.toUTF8)
    (hc : s.workspace.read layout.classifications = .ok c.toUTF8) :
    ∃ keywords prefixes classifications, KeywordTable.decoder.read .standard k = .ok keywords ∧
      PrefixTable.decoder.read .standard p = .ok prefixes ∧
      ClassificationTable.decoder.read .standard c = .ok classifications ∧
      Wrote layout.scopes (ScopeTable.combine keywords prefixes classifications).toJson.text
        s.workspace s'.workspace := by
  obtain ⟨keywords, m, hreadKeywords, hrest⟩ := bind_eq_ok_iff.mp h
  obtain ⟨hkeywords, rfl⟩ := decoder_of_readTable hk hreadKeywords
  obtain ⟨prefixes, m', hreadPrefixes, hrest'⟩ := bind_eq_ok_iff.mp hrest
  obtain ⟨hprefixes, rfl⟩ := decoder_of_readTable hp hreadPrefixes
  obtain ⟨classifications, m'', hreadClassifications, hwrite⟩ := bind_eq_ok_iff.mp hrest'
  obtain ⟨hclassifications, rfl⟩ := decoder_of_readTable hc hreadClassifications
  exact ⟨keywords, prefixes, classifications, hkeywords, hprefixes, hclassifications,
    wrote_of_write hwrite⟩

theorem generateGrammar_eq_ok (h : generateGrammar layout s = (.ok (), s')) {k p : String}
    (hk : s.workspace.read layout.keywords = .ok k.toUTF8)
    (hp : s.workspace.read layout.prefixMap = .ok p.toUTF8) :
    ∃ keywords prefixes, KeywordTable.decoder.read .standard k = .ok keywords ∧
      PrefixTable.decoder.read .standard p = .ok prefixes ∧
      Wrote layout.grammar (Grammar.generate prefixes keywords).toJson.text
        s.workspace s'.workspace := by
  obtain ⟨prefixes, m, hreadPrefixes, hrest⟩ := bind_eq_ok_iff.mp h
  obtain ⟨hprefixes, rfl⟩ := decoder_of_readJson hp hreadPrefixes
  obtain ⟨keywords, m', hreadKeywords, hwrite⟩ := bind_eq_ok_iff.mp hrest
  obtain ⟨hkeywords, rfl⟩ := decoder_of_readJson hk hreadKeywords
  exact ⟨keywords, prefixes, hkeywords, hprefixes, wrote_of_write hwrite⟩

/-- The text of a file that need not be there. -/
def HasText (w : Workspace) (path : String) : Option String → Prop
  | some text => w.read path = .ok text.toUTF8
  | none => w.pathExists path = false

theorem readConfigTemplate_eq_ok {template : Option String}
    (h : readConfigTemplate layout s = (.ok template, s')) :
    HasText s.workspace layout.configTemplate template ∧ s'.workspace = s.workspace := by
  obtain ⟨found, m, hfound, hrest⟩ := bind_eq_ok_iff.mp h
  rw [pathExists_apply] at hfound
  cases hfound
  split at hrest
  next =>
    obtain ⟨text, m', hread, hpure⟩ := bind_eq_ok_iff.mp hrest
    obtain ⟨hbytes, rfl⟩ := readText_eq_ok_iff.mp hread
    cases hpure
    exact ⟨hbytes, rfl⟩
  next hnot =>
    obtain ⟨_, m', hnotice, hpure⟩ := bind_eq_ok_iff.mp hrest
    cases hnotice
    cases hpure
    exact ⟨Bool.eq_false_of_not_eq_true hnot, rfl⟩

theorem generateConfig_eq_ok (h : generateConfig layout s = (.ok (), s'))
    (hread : s.workspace.read layout.scopes = .ok text.toUTF8) :
    ∃ scopes rules template w, ScopeTable.decoder.read .standard text = .ok scopes ∧
      Clangd.rules scopes = .ok rules ∧ HasText s.workspace layout.configTemplate template ∧
      Wrote layout.config (Clangd.config rules template) s.workspace w ∧
      Wrote layout.manifestSection (Clangd.manifest rules).text w s'.workspace := by
  obtain ⟨scopes, m, hreadScopes, hrest⟩ := bind_eq_ok_iff.mp h
  obtain ⟨hscopes, rfl⟩ := decoder_of_readJson hread hreadScopes
  obtain ⟨rules, m₁, hbuild, hrest₁⟩ := bind_eq_ok_iff.mp hrest
  rw [within_eq_ok_iff, orFail_eq_ok_iff] at hbuild
  obtain ⟨hrules, rfl⟩ := hbuild
  obtain ⟨template, m₂, hreadTemplate, hrest₂⟩ := bind_eq_ok_iff.mp hrest₁
  obtain ⟨htemplate, hm⟩ := readConfigTemplate_eq_ok hreadTemplate
  obtain ⟨_, m₃, hconfig, hrest₃⟩ := bind_eq_ok_iff.mp hrest₂
  obtain ⟨w, hwritten, rfl⟩ := Action.write_eq_ok_iff.mp hconfig
  obtain ⟨_, m₄, hnotice, hmanifest⟩ := bind_eq_ok_iff.mp hrest₃
  cases hnotice
  rw [hm] at hwritten
  exact ⟨scopes, rules, template, w, hscopes, hrules, htemplate, hwritten, wrote_of_write hmanifest⟩

end Command

end Lexicolor
