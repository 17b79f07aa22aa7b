import Mathlib
import Lexicolor.Proofs.Command.Progress

/-!
# The files of an update

No step of an update changes a file that a later step needs as it was, and
none changes a file that is not generated. So the files that an update leaves
are those computed from the sources without any files in between.
-/

namespace Lexicolor

open Layout (File)
open Lexicolor.Action Lexicolor.Workspace

variable {layout : Layout} {s : Session}

namespace Command

/-- After an update that succeeds, the tables, the grammar and the configuration are those made of
the sources, and no file is changed that is not generated. -/
theorem read_of_update (h : (update layout s).1 = .ok ()) :
    let final := (update layout s).2.workspace
    ∃ src hdr classifications rules template,
      s.workspace.read layout.cppSource = .ok src ∧
      s.workspace.read layout.cppHeader = .ok hdr ∧
      let keywords := Source.keywords (Text.decodeLossy src)
      let prefixes := Source.prefixes (Text.decodeLossy src)
      Source.classifications (Text.decodeLossy hdr) = .ok classifications ∧
      let scopes := ScopeTable.combine keywords prefixes classifications
      Clangd.rules scopes = .ok rules ∧
      HasText final layout.configTemplate template ∧
      final.read layout.keywords = .ok keywords.toJson.text.toUTF8 ∧
      final.read layout.prefixMap = .ok prefixes.toJson.text.toUTF8 ∧
      final.read layout.classifications = .ok classifications.toJson.text.toUTF8 ∧
      final.read layout.scopes = .ok scopes.toJson.text.toUTF8 ∧
      final.read layout.grammar = .ok (Grammar.generate prefixes keywords).toJson.text.toUTF8 ∧
      final.read layout.config = .ok (Clangd.config rules template).toUTF8 ∧
      final.read layout.manifestSection = .ok (Clangd.manifest rules).text.toUTF8 ∧
      ∀ l bytes, ¬Sites layout File.artifacts l →
        (final.entry? l = some (.file bytes) ↔ s.workspace.entry? l = some (.file bytes)) := by
  obtain ⟨s', hrun⟩ : ∃ s', update layout s = (.ok (), s') := ⟨_, Prod.ext h rfl⟩
  have hwrites := writes_of_run (along_update layout) hrun
  obtain ⟨m, n, hsteps, hcheck, hnotice⟩ := update_eq_ok_iff.mp hrun
  obtain ⟨src, hdr, c, rules, template, hsrc, hhdr, hparse, hrules, htemplate, htables, hconfig,
    hmanifest⟩ := holdsTables_of_writingSteps hsteps
  -- the check and the notice behind it leave the workspace as it is
  have hquiet : m.workspace = s'.workspace := by
    have hreported := (quiet_checkCoverage layout).run m
    rw [hcheck] at hreported
    cases hnotice
    exact hreported
  rw [hquiet] at htemplate htables hconfig hmanifest
  rw [hrun]
  exact ⟨src, hdr, c, rules, template, hsrc, hhdr, hparse, hrules, htemplate, htables.keywords,
    htables.prefixMap, htables.classifications, htables.scopes, htables.grammar, hconfig,
    hmanifest, fun _ _ hl => hwrites.grows.entry?_eq_file_iff hl⟩

/-- The text of the prefix table. -/
def smallPrefixes : String :=
  "\x7b\n  \"C\": \x7b\n    \"classification\": \"EClassification_T\",\n" ++
    "    \"variable\": true\n  \x7d\n\x7d\n"

/-- The text of the scope table. -/
def smallScopes : String :=
  "\x7b\n  \"keywords\": \x7b\x7d,\n  \"prefixes\": \x7b\n    \"C\": \x7b\n" ++
    "      \"scope\": \"malterlib-t\",\n      \"variable\": true\n    \x7d\n  \x7d,\n" ++
    "  \"scopes\": [\n    \"malterlib-t\"\n  ]\n\x7d\n"

/-- The prefix is in its own table, and in the table of scopes with the scope of its
classification. -/
theorem read_of_update_smallWorkspace :
    (update ⟨".", "."⟩ { workspace := smallWorkspace }).1 = .ok () ∧
      (update ⟨".", "."⟩ { workspace := smallWorkspace }).2.workspace.read
        (Layout.prefixMap ⟨".", "."⟩) = .ok smallPrefixes.toUTF8 ∧
      (update ⟨".", "."⟩ { workspace := smallWorkspace }).2.workspace.read
        (Layout.scopes ⟨".", "."⟩) = .ok smallScopes.toUTF8 := by
  obtain ⟨src, hdr, classifications, -, -, hsrc, hhdr, hclassifications, -, -, -, hprefixes, -,
    hscopes, -⟩ := read_of_update update_smallWorkspace
  have hread : smallWorkspace.read (Layout.cppSource ⟨".", "."⟩) = .ok smallSource.toUTF8 := rfl
  obtain rfl := Except.ok.inj (hread.symm.trans hsrc)
  have hread : smallWorkspace.read (Layout.cppHeader ⟨".", "."⟩) = .ok smallHeader.toUTF8 := rfl
  obtain rfl := Except.ok.inj (hread.symm.trans hhdr)
  have hsource : Text.decodeLossy smallSource.toUTF8 = smallSource := by decide +kernel
  have hheader : Text.decodeLossy smallHeader.toUTF8 = smallHeader := by decide +kernel
  have hprefixText : (Source.prefixes smallSource).toJson.text = smallPrefixes := by
    decide +kernel
  have hscopeTexts : (fun table => (ScopeTable.combine (Source.keywords smallSource)
      (Source.prefixes smallSource) table).toJson.text) <$> Source.classifications smallHeader =
        .ok smallScopes := by
    decide +kernel
  rw [hheader] at hclassifications
  rw [hclassifications] at hscopeTexts
  have hscopeText : (ScopeTable.combine (Source.keywords smallSource)
      (Source.prefixes smallSource) classifications).toJson.text = smallScopes :=
    Except.ok.inj hscopeTexts
  rw [hsource] at hprefixes hscopes
  rw [hprefixText] at hprefixes
  rw [hscopeText] at hscopes
  exact ⟨update_smallWorkspace, hprefixes, hscopes⟩

end Command

end Lexicolor
