import Mathlib
import Lexicolor.Proofs.Workspace.Joined

/-!
# The files of a layout

The files that commands know have different names, so their paths lead to
different locations wherever the root and the source are. Once the root is
there, writing files below it creates no directories but those of the files.
-/

namespace Lexicolor

namespace Layout

/-- The files that commands read or write. -/
inductive File where
  | cppSource
  | cppHeader
  | prefixMap
  | keywords
  | classifications
  | scopes
  | grammar
  | theme
  | srgbTheme
  | noTokensTheme
  | darkModern
  | colorExamples
  | settingsTemplate
  | settings
  | srgbSettings
  | config
  | configTemplate
  | manifestSection
  | package
  | readmeTemplate
  | readme
  deriving DecidableEq

/-- All files, in the order of `Layout.files`. -/
def File.all : List File :=
  [cppSource, cppHeader, prefixMap, keywords, classifications, scopes, grammar, theme, srgbTheme,
    noTokensTheme, darkModern, colorExamples, settingsTemplate, settings, srgbSettings, config,
    configTemplate, manifestSection, package, readmeTemplate, readme]

theorem File.mem_all (file : File) : file ∈ all := by
  cases file <;> decide

/-- The files that an update writes, in the order in which it writes them. -/
def File.artifacts : List File :=
  [prefixMap, classifications, keywords, settings, srgbSettings, scopes, grammar, srgbTheme,
    noTokensTheme, config, manifestSection, readme]

def File.name : File → String
  | cppSource => "HighlighterrCxx.cpp"
  | cppHeader => "HighlighterrCxx.h"
  | prefixMap => "prefixmap.json"
  | keywords => "keywords.json"
  | classifications => "classifications.json"
  | scopes => "scopes.json"
  | grammar => "malterlib.tmLanguage.json"
  | theme => "malterlib.json"
  | srgbTheme => "malterlibSRGB.json"
  | noTokensTheme => "malterlibNoTokens.json"
  | darkModern => "darkModern.json"
  | colorExamples => "colorexamples.json"
  | settingsTemplate => "settingsTemplate.json"
  | settings => "settings.json"
  | srgbSettings => "settingsSRGB.json"
  | config => ".clangd"
  | configTemplate => ".clangd-template"
  | manifestSection => "semanticScopesForPackage.json"
  | package => "package.json"
  | readmeTemplate => "README-template.md"
  | readme => "README.md"

/-- The file is one of the sources, which are not below the root. -/
def File.isSource : File → Bool
  | cppSource | cppHeader => true
  | _ => false

/-- The directory below the root in which a file is. -/
def File.folder? : File → Option String
  | grammar => some "syntaxes"
  | theme | srgbTheme | noTokensTheme => some "themes"
  | _ => none

/-- The directory in which a file is. -/
def folder (layout : Layout) (file : File) : String :=
  if file.isSource then layout.source else file.folder?.elim layout.root layout.inRoot

/-- The path of a file. -/
def path (layout : Layout) (file : File) : String := join (layout.folder file) file.name

instance (name : List Char) : Decidable (Path.IsName name) :=
  decidable_of_iff (Path.isName name = true) ⟨Path.IsName.mk, Path.IsName.isName⟩

theorem File.isName (file : File) : Path.IsName file.name.toList := by
  cases file <;> decide

theorem File.name_injective : Function.Injective File.name := by
  intro file file' h
  have hnames : ∀ f ∈ all, ∀ g ∈ all, f.name = g.name → f = g := by decide
  exact hnames file file.mem_all file' file'.mem_all h

/-- The paths of different files lead to different locations. -/
theorem ofPath_injective (layout : Layout) :
    Function.Injective fun file => Location.ofPath (layout.path file) := by
  intro file file' h
  simp only [path, Workspace.ofPath_join file.isName, Workspace.ofPath_join file'.isName] at h
  have hnames := List.append_inj_right' (congrArg Location.names h) rfl
  exact File.name_injective (List.singleton_inj.mp hnames)

end Layout

namespace Workspace

open Layout (File)

variable {layout : Layout} {w w' : Workspace} {file : File} {files files' : List File}
variable {r : Location} {bytes : ByteArray}

/-! ## Writing files -/

/-- The workspaces that writing some of the files leads to. -/
abbrev Writes (layout : Layout) (files : List File) : Workspace → Workspace → Prop :=
  Relation.ReflTransGen fun w w' =>
    ∃ file ∈ files, ∃ bytes, w' = (w.writeBelow (layout.path file) bytes).1

/-- The locations that the paths of the files lead to. -/
def Sites (layout : Layout) (files : List File) (l : Location) : Prop :=
  ∃ file ∈ files, l = .ofPath (layout.path file)

theorem sites_iff : Sites layout files (.ofPath (layout.path file)) ↔ file ∈ files := by
  constructor
  · rintro ⟨other, hmem, heq⟩
    rw [layout.ofPath_injective heq]
    exact hmem
  · intro hmem
    exact ⟨file, hmem, rfl⟩

theorem Writes.mono (h : Writes layout files w w') (hle : files ⊆ files') :
    Writes layout files' w w' :=
  Relation.ReflTransGen.mono (fun _ _ ⟨file, hmem, hwrite⟩ => ⟨file, hle hmem, hwrite⟩) _ _ h

/-- What holds of each write to one of the files holds of all of them together. -/
theorem Writes.to_preorder {R : Workspace → Workspace → Prop} [IsPreorder Workspace R]
    (hwrite : ∀ file ∈ files, ∀ (w : Workspace) bytes,
      R w (w.writeBelow (layout.path file) bytes).1)
    (h : Writes layout files w w') : R w w' := by
  induction h with
  | refl => exact refl_of R w
  | tail _ hstep ih =>
      obtain ⟨file, hmem, bytes, rfl⟩ := hstep
      exact trans_of R ih (hwrite file hmem _ bytes)

instance {sites places : Location → Prop} : IsPreorder Workspace (Grows sites places) where
  refl := Grows.refl sites places
  trans _ _ _ := Grows.trans

theorem Writes.grows (h : Writes layout files w w') :
    Grows Anywhere (Sites layout files) w w' := by
  apply h.to_preorder
  intro file hmem w bytes
  apply (grows_writeBelow w (layout.path file) bytes).mono fun _ => id
  rintro l rfl
  exact ⟨file, hmem, rfl⟩

/-- The files that are not written stay as they are. -/
theorem Writes.read (h : Writes layout files w w') (file : File)
    (hread : w.read (layout.path file) = .ok bytes) (hfile : file ∉ files) :
    w'.read (layout.path file) = .ok bytes :=
  h.grows.read hread (mt sites_iff.mp hfile)

/-! ## Below the root -/

/-- The path leads to a directory. -/
def Opens (w : Workspace) (base : String) (d : Location) : Prop :=
  w.enter base = .ok d ∧ w.IsDirectory d

theorem Opens.of_grows {sites places : Location → Prop} {base : String} {d : Location}
    (h : w.Opens base d) (hgrows : Grows sites places w w') : w'.Opens base d :=
  ⟨enter_mono (fun _ => hgrows.isDirectory) h.1, hgrows.isDirectory h.2⟩

/-- A file can be read only where the path to its directory leads to one. -/
theorem opens_of_read (file : File) (h : w.read (layout.path file) = .ok bytes) :
    ∃ d, w.Opens (layout.folder file) d := by
  obtain ⟨l, hlocate, -⟩ := read_eq_ok_iff.mp h
  obtain ⟨-, d, henter, hdir, -⟩ := (locate_join_eq_ok_iff file.isName).mp hlocate
  exact ⟨d, henter, hdir⟩

/-- A file that is not written was there before if its directory was. -/
theorem Writes.read_of_opens {d : Location} (h : Writes layout files w w') (file : File)
    (hread : w'.read (layout.path file) = .ok bytes) (hfile : file ∉ files)
    (hopen : w.Opens (layout.folder file) d) : w.read (layout.path file) = .ok bytes := by
  obtain ⟨l, hlocate, hentry⟩ := read_eq_ok_iff.mp hread
  obtain ⟨hfault, d', henter, -, hl⟩ := (locate_join_eq_ok_iff file.isName).mp hlocate
  have henter' := (hopen.of_grows h.grows).1
  rw [henter] at henter'
  cases henter'
  refine read_eq_ok_iff.mpr ⟨l, ?_, ?_⟩
  · exact (locate_join_eq_ok_iff file.isName).mpr ⟨hfault, d, hopen.1, hopen.2, hl⟩
  · rw [eq_ofPath_of_locate hlocate] at hentry ⊢
    exact (h.grows.entry?_eq_file_iff (mt sites_iff.mp hfile)).mp hentry

theorem isName_of_folder? {sub : String} (h : file.folder? = some sub) :
    Path.IsName sub.toList := by
  cases file <;> cases h <;> decide

/-- The location of the directory of a file below the root at `r`. -/
def folderAt (r : Location) (file : File) : Location := file.folder?.elim r r.child

theorem Opens.enter_folder (h : w.Opens layout.root r) (hsource : file.isSource = false) :
    w.enter (layout.folder file) = .ok (folderAt r file) := by
  rw [Layout.folder, if_neg (by simp [hsource]), folderAt]
  cases hfolder : file.folder? with
  | none => exact h.1
  | some sub => exact enter_join_of_enter (isName_of_folder? hfolder) h.1 h.2

theorem Opens.ofPath_path (h : w.Opens layout.root r) (hsource : file.isSource = false) :
    Location.ofPath (layout.path file) = (folderAt r file).child file.name :=
  ofPath_join_of_enter file.isName (h.enter_folder hsource)

/-- No file has the name of a directory of files. -/
theorem child_name_ne {sub : String} (h : file.folder? = some sub) (l : Location) (other : File) :
    l.child other.name ≠ folderAt r file := by
  have hname : ∀ f ∈ File.all, ∀ g ∈ File.all, f.folder? ≠ some g.name := by decide
  intro heq
  have hnames := congrArg Location.names heq
  rw [folderAt, h] at hnames
  have hlast := List.append_inj_right' hnames rfl
  rw [← List.singleton_inj.mp hlast] at h
  exact hname file file.mem_all other other.mem_all h

theorem folderAt_ne (r : Location) (file other : File) :
    folderAt r file ≠ (folderAt r other).child other.name := by
  intro heq
  cases hfolder : file.folder? with
  | some sub => exact child_name_ne hfolder _ other heq.symm
  | none =>
      have hlength := congrArg (fun l => l.names.length) heq
      cases hother : other.folder? <;> simp [folderAt, hfolder, hother, Location.child] at hlength

theorem eq_grammar_of_folderAt_eq (h : folderAt r file = folderAt r .grammar) : file = .grammar := by
  have hnames := congrArg Location.names h
  cases file <;> first | rfl | simp [folderAt, File.folder?, Location.child] at hnames

/-- Writing files below the root creates no directories but theirs. -/
theorem Writes.grows_below (h : Writes layout files w w') (hopen : w.Opens layout.root r)
    (hsource : ∀ file ∈ files, file.isSource = false) :
    Grows (fun l => ∃ file ∈ files, l = folderAt r file) (Sites layout files) w w' := by
  induction h with
  | refl => exact Grows.refl _ _ w
  | tail _ hstep ih =>
      obtain ⟨file, hmem, bytes, rfl⟩ := hstep
      have henter := (hopen.of_grows ih).enter_folder (hsource file hmem)
      apply ih.trans
      apply (grows_writeBelow_join file.isName henter bytes).mono
      · rintro l rfl
        exact ⟨file, hmem, rfl⟩
      · rintro l rfl
        exact ⟨file, hmem, rfl⟩

end Workspace

end Lexicolor
