import Mathlib
import Lexicolor.Proofs.Command.Pipeline

/-!
# What commands change

A command changes its own files only. A command other than an update reads all
that it needs before it writes, so where it fails otherwise than in writing, it
leaves the workspace as it was.
-/

namespace Lexicolor

open Layout (File)
open Lexicolor.Action Lexicolor.Workspace

namespace Command

/-- The files that a command may write. -/
def outputs : Command → List File
  | updateAll => File.artifacts
  | prefixMap => [.prefixMap]
  | classifications => [.classifications]
  | keywords => [.keywords]
  | grammar => [.grammar]
  | combine => [.scopes]
  | clangd => [.config, .manifestSection]
  | settings | semanticColors => [.settings, .srgbSettings]
  | srgbTheme => [.srgbTheme]
  | noTokensTheme => [.noTokensTheme]
  | dedupe => [.theme]
  | readme => [.readme]
  | coverage | compareScopes | tokens .. => []

variable (layout : Layout)

/-! ## The commands that are no steps of an update -/

theorem atomic_generateSemanticColors :
    Atomic layout [.settings, .srgbSettings] (generateSemanticColors layout) := by
  apply Atomic.quiet_bind (quiet_readJson _ _ _)
  intro scopes
  apply Atomic.quiet_bind (quiet_readJson _ _ _)
  intro examples
  apply Atomic.quiet_bind (quiet_readJson _ _ _)
  intro template
  apply Atomic.quiet_bind (quiet_report _)
  intro _
  apply Atomic.quiet_bind ((quiet_orFail _ _).within _)
  intro settings
  exact (emits_writeSettings layout settings).atomic

theorem quiet_readOrdering : Quiet (readOrdering layout) := by
  apply Along.bind (quiet_pathExists _)
  intro found
  apply Along.ite
  · exact quiet_readJson _ _ _
  · exact Along.bind (quiet_notice _) fun _ => Along.pure _

theorem atomic_dedupeTheme : Atomic layout [.theme] (dedupeTheme layout) := by
  apply Atomic.quiet_bind (quiet_readJson _ _ _)
  intro theme
  apply Atomic.quiet_bind (quiet_readOrdering layout)
  intro examples
  apply Emits.atomic
  apply Emits.bind (.write .theme List.mem_cons_self _)
  intro _
  exact (Emits.report _).bind fun _ => .notice _

theorem quiet_compareWithPackage : Quiet (compareWithPackage layout) := by
  apply Along.bind (quiet_readJson _ _ _)
  intro theme
  apply Along.bind (quiet_readJson _ _ _)
  intro package
  exact quiet_report _

theorem quiet_listTokens (file : String) (asJson : Bool) :
    Quiet (listTokens layout file asJson) := by
  apply Along.bind (quiet_readJson _ _ _)
  intro scopes
  apply Along.bind (quiet_readSource _)
  intro text
  exact Along.bind (quiet_notice _) fun _ => quiet_report _

/-! ## All commands -/

theorem atomic_run {command : Command} (h : command ≠ .updateAll) :
    Atomic layout command.outputs (command.run layout) := by
  cases command with
  | updateAll => exact absurd rfl h
  | prefixMap => exact atomic_extractPrefixes layout
  | classifications => exact atomic_extractClassifications layout
  | keywords => exact atomic_extractKeywords layout
  | grammar => exact atomic_generateGrammar layout
  | coverage => exact .of_quiet (quiet_checkCoverage layout)
  | combine => exact atomic_combineTables layout
  | clangd => exact atomic_generateConfig layout
  | settings => exact atomic_generateSettings layout
  | semanticColors => exact atomic_generateSemanticColors layout
  | srgbTheme => exact atomic_generateSrgbTheme layout
  | noTokensTheme => exact atomic_generateNoTokensTheme layout
  | dedupe => exact atomic_dedupeTheme layout
  | compareScopes => exact .of_quiet (quiet_compareWithPackage layout)
  | readme => exact atomic_generateReadme layout
  | tokens file asJson => exact .of_quiet (quiet_listTokens layout file asJson)

theorem along_run (command : Command) :
    Along (Writes layout command.outputs) (command.run layout) := by
  by_cases h : command = .updateAll
  · subst h
    exact along_update layout
  · exact (atomic_run layout h).along

end Command

namespace Invocation

/-- A command other than an update that fails otherwise than in writing one of its files leaves the
workspace as it was; and whatever a command does, it changes no file but its own. -/
theorem perform_keeps (invocation : Invocation) (workspace : Workspace) :
    let command := invocation.command.getD .updateAll
    let outcome := invocation.perform workspace
    (command ≠ .updateAll → ∀ failure, outcome.1 = .error failure →
      (∀ file ∈ command.outputs, ¬failure.OfWriting (invocation.layout.path file)) →
      outcome.2.workspace = workspace) ∧
    ∀ l bytes, ¬Sites invocation.layout command.outputs l →
      (outcome.2.workspace.entry? l = some (.file bytes) ↔
        workspace.entry? l = some (.file bytes)) := by
  intro command outcome
  constructor
  · intro hcommand failure hfailure hother
    have hatomic := Atomic.quiet_bind (quiet_notice (.paths invocation.layout.root
      invocation.layout.source)) fun _ => Command.atomic_run invocation.layout hcommand
    exact hatomic.unchanged (Prod.ext hfailure rfl) hother
  · intro l bytes hl
    have halong := Along.quiet_bind (quiet_notice (.paths invocation.layout.root
      invocation.layout.source)) fun _ => Command.along_run invocation.layout command
    exact (halong.run { workspace }).grows.entry?_eq_file_iff hl

/-- A table of scopes, a configuration, and a template that is no text. -/
def garbledWorkspace : Workspace := ⟨.ofList [
  (⟨.above 0, ["scopes.json"]⟩, .file "\x7b\"keywords\": \x7b\"auto\": \"word\"\x7d\x7d".toUTF8),
  (⟨.above 0, [".clangd"]⟩, .file "old".toUTF8),
  (⟨.above 0, [".clangd-template"]⟩, .file ⟨#[0xff]⟩)]⟩

theorem perform_keeps_garbledWorkspace :
    let clangd : Invocation := { source := some "src", command := some .clangd }
    let after := (clangd.perform garbledWorkspace).2.workspace
    let scopes : Location := .ofPath (clangd.layout.path .scopes)
    (clangd.perform garbledWorkspace).1 =
      .error ⟨["Reading ./.clangd-template"], .invalidUtf8⟩ ∧
    after = garbledWorkspace ∧
    ∀ bytes, after.entry? scopes = some (.file bytes) ↔
      garbledWorkspace.entry? scopes = some (.file bytes) := by
  intro clangd after scopes
  have hfailure : (clangd.perform garbledWorkspace).1 =
      .error ⟨["Reading ./.clangd-template"], .invalidUtf8⟩ := by decide +kernel
  obtain ⟨hunchanged, hframe⟩ := perform_keeps clangd garbledWorkspace
  refine ⟨hfailure, hunchanged (by decide) _ hfailure ?_, fun bytes => hframe scopes bytes ?_⟩
  · rintro file - ⟨e, heq⟩
    cases congrArg Failure.cause heq
  · exact mt sites_iff.mp (by decide)

end Invocation

end Lexicolor
