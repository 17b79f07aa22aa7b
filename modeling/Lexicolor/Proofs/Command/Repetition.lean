import Mathlib
import Lexicolor.Proofs.Command.Agreement
import Lexicolor.Proofs.Command.Pipeline

/-!
# Updates of stale workspaces

An update writes every generated file before it reads it, so it does not depend
on what generated files it finds. An update of a workspace that was just updated
finds all of them as it writes them.
-/

namespace Lexicolor

open Layout (File)
open Lexicolor.Action Lexicolor.Workspace

variable {layout : Layout} {s s₁ s' t : Session}

namespace Command

theorem settles_laterSteps (layout : Layout) :
    Settles layout File.artifacts.tail [] (laterSteps layout) := by
  apply Agree.bind _ fun _ => .notice _
  rw [steps, List.tail_cons]
  refine .forM_cons (settles_extractClassifications.within _) ?_
  refine .forM_cons (settles_extractKeywords.within _) ?_
  refine .forM_cons ((settles_generateSettings (by decide)).within _) ?_
  refine .forM_cons ((settles_combineTables (by decide)).within _) ?_
  refine .forM_cons ((settles_generateGrammar (by decide)).within _) ?_
  refine .forM_cons ((settles_generateSrgbTheme (by decide)).within _) ?_
  refine .forM_cons ((settles_generateNoTokensTheme (by decide)).within _) ?_
  refine .forM_cons ((settles_generateConfig (by decide)).within _) ?_
  refine .forM_cons ((settles_generateReadme (by decide)).within _) ?_
  exact .forM_cons ((settles_checkCoverage (by decide)).within _) (.pure ())

theorem settles_update (layout : Layout) : Settles layout File.artifacts [] (update layout) := by
  rw [update_eq_bind]
  exact (settles_extractPrefixes.within _).bind fun _ => settles_laterSteps layout

/-- The first step, taken again after other files were written, finds its table as it writes it. -/
theorem extractPrefixes_again (h : extractPrefixes layout s = (.ok (), s₁))
    (hwrites : Writes layout File.artifacts.tail s₁.workspace t.workspace) :
    ∃ t₁, extractPrefixes layout t = (.ok (), t₁) ∧ Same t.workspace t₁.workspace := by
  have hfirst := writes_of_run (along_extractPrefixes layout) h
  obtain ⟨src, hsrc, hwrote⟩ := extractPrefixes_eq_ok h
  have hsource := hwrites.read .cppSource (hfirst.read .cppSource hsrc (by decide)) (by decide)
  obtain ⟨m, hread, hm⟩ := readSource_of_read (s := t) hsource
  obtain ⟨w, hwritten, hsame⟩ :=
    writeBelow_again hwrote hwrites.grows (hwrites.read .prefixMap hwrote.read (by decide))
  rw [← hm] at hwritten
  obtain ⟨t₁, hrun, rfl⟩ := write_of_wrote _ hwritten
  exact ⟨t₁, bind_eq_ok_iff.mpr ⟨_, m, hread, hrun⟩, hsame⟩

theorem laterSteps_eq_ok (h : update layout s = (.ok (), s'))
    (h₁ : extractPrefixes layout s = (.ok (), s₁)) : laterSteps layout s₁ = (.ok (), s') := by
  rw [update_eq_bind] at h
  obtain ⟨_, m, hfirst, hrest⟩ := bind_eq_ok_iff.mp h
  rw [within_eq_ok_iff, h₁] at hfirst
  cases hfirst
  exact hrest

/-- The theme is there before the first step that reads it, so its directory is. -/
theorem isDirectory_themes {s₂ s₃ s₄ : Session} {r : Location}
    (hroot : s₁.workspace.Opens layout.root r)
    (h₂ : extractClassifications layout s₁ = (.ok (), s₂))
    (h₃ : extractKeywords layout s₂ = (.ok (), s₃))
    (h₄ : generateSettings layout s₃ = (.ok (), s₄)) :
    s₁.workspace.IsDirectory (folderAt r .theme) := by
  have w₂ := writes_of_run (along_extractClassifications layout) h₂
  have w₃ := writes_of_run (along_extractKeywords layout) h₃
  have hwrites : Writes layout [.classifications, .keywords] s₁.workspace s₃.workspace :=
    (w₂.mono (by decide)).trans (w₃.mono (by decide))
  have hgrows := hwrites.grows_below hroot (by decide)
  obtain ⟨bytes, htheme⟩ := read_theme_of_generateSettings h₄
  apply (hgrows.isDirectory_iff _).mp (isDirectory_themes_of_read (hroot.of_grows hgrows) htheme)
  have hfolders : ∀ file ∈ [File.classifications, .keywords], file.folder? = none := by decide
  rintro l ⟨file, hmem, rfl⟩
  rw [folderAt, hfolders file hmem]
  exact hroot.2

/-- After its first step, an update agrees with what it leaves but for the files of later steps. -/
theorem agreeBut_of_update (h : update layout s = (.ok (), s'))
    (h₁ : extractPrefixes layout s = (.ok (), s₁)) {w : Workspace} (hsame : Same s'.workspace w) :
    AgreeBut layout File.artifacts.tail s₁.workspace w := by
  obtain ⟨m, -, hsteps, -⟩ := update_eq_ok_iff.mp h
  obtain ⟨s₁', s₂, s₃, s₄, -, -, -, -, -, h₁', h₂, h₃, h₄, -⟩ := writingSteps_eq_ok_iff.mp hsteps
  rw [h₁] at h₁'
  cases h₁'
  have hfirst := writes_of_run (along_extractPrefixes layout) h₁
  have hrest : Writes layout File.artifacts.tail s₁.workspace s'.workspace :=
    writes_of_run (along_laterSteps layout) (laterSteps_eq_ok h h₁)
  obtain ⟨src, hsrc, hwrote⟩ := extractPrefixes_eq_ok h₁
  obtain ⟨d, hopen⟩ := opens_of_read .cppSource hsrc
  obtain ⟨r, hroot⟩ := opens_of_read .prefixMap hwrote.read
  have hthemes := isDirectory_themes hroot h₂ h₃ h₄
  refine ⟨.inr ⟨r, .of_grows (by decide) (by decide) hroot (hopen.of_grows hfirst.grows) ?_⟩, ?_⟩
  · refine Grows.trans ?_ hsame.grows
    exact hrest.grows_grammar (List.tail_subset _) hroot hthemes
  · have honly : ∀ file ∈ File.artifacts, file ∉ File.artifacts.tail → file = .prefixMap := by decide
    intro file hmem hnot
    rw [honly file hmem hnot]
    exact ⟨_, hwrote.read⟩

/-- An update right after one that succeeded succeeds, and changes nothing. -/
theorem update_again (hok : (update layout s).1 = .ok ())
    (ht : t.workspace = (update layout s).2.workspace) :
    (update layout t).1 = .ok () ∧ Same (update layout t).2.workspace t.workspace := by
  obtain ⟨s', h⟩ : ∃ s', update layout s = (.ok (), s') := ⟨_, Prod.ext hok rfl⟩
  rw [h] at ht
  obtain ⟨m, -, hsteps, -⟩ := update_eq_ok_iff.mp h
  obtain ⟨s₁, -, -, -, -, -, -, -, -, h₁, -⟩ := writingSteps_eq_ok_iff.mp hsteps
  have hrest := laterSteps_eq_ok h h₁
  have hwrites := writes_of_run (along_laterSteps layout) hrest
  rw [← ht] at hwrites
  obtain ⟨t₁, ht₁, hsame⟩ := extractPrefixes_again h₁ hwrites
  rw [ht] at hsame
  have houtcomes := (settles_laterSteps layout).run s₁ t₁ (agreeBut_of_update h h₁ hsame)
  rw [hrest] at houtcomes
  have hupdate : update layout t = laterSteps layout t₁ := by
    rw [update_eq_bind, bind_of_ok (within_eq_ok_iff.mpr ht₁)]
  rw [hupdate]
  refine ⟨houtcomes.fst_eq.symm, fun l => ?_⟩
  rw [ht]
  exact ((houtcomes.workspace rfl).same l).symm

/-- An update does not depend on the generated files that it finds, and another update right after
one that succeeded succeeds and changes nothing. -/
theorem update_congr (hdirs : ∀ l, s.workspace.IsDirectory l ↔ t.workspace.IsDirectory l)
    (hentries : ∀ l, (∀ file ∈ File.artifacts, s.workspace.locate (layout.path file) ≠ .ok l) →
      s.workspace.entry? l = t.workspace.entry? l) :
    (update layout s).1 = (update layout t).1 ∧
      ((update layout s).1 = .ok () →
        (∀ file ∈ File.artifacts, ∃ bytes,
          (update layout s).2.workspace.read (layout.path file) = .ok bytes ∧
          (update layout t).2.workspace.read (layout.path file) = .ok bytes) ∧
        (∀ l, (update layout s).2.workspace.entry? l = (update layout t).2.workspace.entry? l) ∧
        ∀ again : Session, again.workspace = (update layout s).2.workspace →
          (update layout again).1 = .ok () ∧
            ∀ l, (update layout again).2.workspace.entry? l = again.workspace.entry? l) := by
  have houtcomes := (settles_update layout).run s t (.of_entries hdirs hentries)
  refine ⟨houtcomes.fst_eq, fun hok => ?_⟩
  have hfinal := houtcomes.workspace hok
  refine ⟨fun file hmem => ?_, hfinal.same, fun again hagain => ?_⟩
  · obtain ⟨bytes, hread⟩ := hfinal.readable file hmem List.not_mem_nil
    refine ⟨bytes, hread, ?_⟩
    rw [← hread]
    exact (read_congr (hfinal.same.find_eq _)).symm
  · exact update_again hok hagain

/-- A workspace as `smallWorkspace`, with a table of keywords that is no table. -/
def staleWorkspace : Workspace :=
  smallWorkspace.set ⟨.above 0, ["keywords.json"]⟩ (.file "stale".toUTF8)

theorem update_congr_staleWorkspace :
    (∀ l, smallWorkspace.IsDirectory l ↔ staleWorkspace.IsDirectory l) ∧
      (∀ l, (∀ file ∈ File.artifacts, smallWorkspace.locate (Layout.path ⟨".", "."⟩ file) ≠ .ok l) →
        smallWorkspace.entry? l = staleWorkspace.entry? l) ∧
      (update ⟨".", "."⟩ { workspace := staleWorkspace }).1 = .ok () ∧
      ∀ l, (update ⟨".", "."⟩ { workspace := smallWorkspace }).2.workspace.entry? l =
        (update ⟨".", "."⟩ { workspace := staleWorkspace }).2.workspace.entry? l := by
  have hdirs : ∀ l, smallWorkspace.IsDirectory l ↔ staleWorkspace.IsDirectory l := by
    intro l
    have hnone : smallWorkspace.entry? ⟨.above 0, ["keywords.json"]⟩ = none := rfl
    exact (isDirectory_set_file (not_isDirectory_of_eq_none hnone)).symm
  have hentries : ∀ l,
      (∀ file ∈ File.artifacts, smallWorkspace.locate (Layout.path ⟨".", "."⟩ file) ≠ .ok l) →
        smallWorkspace.entry? l = staleWorkspace.entry? l := by
    intro l hl
    rw [staleWorkspace, entry?_set, if_neg]
    rintro ⟨rfl, -⟩
    exact hl .keywords (by decide) (by decide)
  obtain ⟨hresult, hfinal⟩ :=
    @update_congr ⟨".", "."⟩ { workspace := smallWorkspace } { workspace := staleWorkspace } hdirs
      hentries
  rw [update_smallWorkspace] at hresult
  exact ⟨hdirs, hentries, hresult.symm, (hfinal update_smallWorkspace).2.1⟩

end Command

end Lexicolor
