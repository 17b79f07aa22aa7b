import Mathlib
import Lexicolor.Proofs.Workspace.Layout

/-!
# Workspaces that agree

Two workspaces agree up to some generated files when they have the same entries
but for those files. Reading any other file gives the same in both, and so does
writing one of those files, after which the workspaces agree on it too.
-/

namespace Lexicolor.Workspace

open Layout (File)

variable {layout : Layout} {w w' : Workspace} {path : String} {l r : Location}
variable {file : File} {files : List File} {bytes : ByteArray}

/-! ## The same entries -/

/-- The workspaces have the same entries. -/
def Same (w w' : Workspace) : Prop := ∀ l, w.entry? l = w'.entry? l

theorem step_congr (h : w.entry? l = w'.entry? l) (piece : List Char) :
    w.step l piece = w'.step l piece := by
  unfold step
  rw [h]

/-- What a path leads to depends on its location and on the entry there. -/
theorem find_congr (hlocate : w.locate path = w'.locate path)
    (hentry : ∀ l, w.locate path = .ok l → w.entry? l = w'.entry? l) :
    w.find path = w'.find path := by
  unfold find
  rw [← hlocate]
  cases hl : w.locate path with
  | error e => rfl
  | ok l =>
      simp only [bind, Except.bind]
      rw [hentry l hl]

theorem read_congr (h : w.find path = w'.find path) : w.read path = w'.read path := by
  unfold read
  rw [h]

theorem pathExists_congr (h : w.find path = w'.find path) :
    w.pathExists path = w'.pathExists path := by
  unfold pathExists
  rw [h]

theorem isDirectory_congr (h : w.find path = w'.find path) :
    w.isDirectory path = w'.isDirectory path := by
  unfold isDirectory
  rw [h]

namespace Same

variable (h : Same w w')

include h

theorem symm : Same w' w := fun l => (h l).symm

theorem set (l : Location) (entry : Entry) : Same (w.set l entry) (w'.set l entry) := by
  intro m
  rw [entry?_set, entry?_set, h m]

theorem locate_eq (path : String) : w.locate path = w'.locate path := by
  have hstep : w.step = w'.step := by
    funext l piece
    exact step_congr (h l) piece
  unfold locate
  rw [hstep]

theorem find_eq (path : String) : w.find path = w'.find path :=
  find_congr (h.locate_eq path) fun l _ => h l

theorem makeDirectory_error {e : OsError} (hmake : w.makeDirectory path = .error e) :
    w'.makeDirectory path = .error e := by
  unfold makeDirectory at hmake ⊢
  rw [← h.locate_eq path]
  cases hl : w.locate path with
  | error e' =>
      rw [hl] at hmake
      exact hmake
  | ok l =>
      rw [hl] at hmake
      simp only [bind, Except.bind] at hmake ⊢
      rw [← h l]
      cases hentry : w.entry? l with
      | some entry =>
          rw [hentry] at hmake
          exact hmake
      | none =>
          rw [hentry] at hmake
          cases hmake

theorem makeDirectory_ok {m : Workspace} (hmake : w.makeDirectory path = .ok m) :
    ∃ m', w'.makeDirectory path = .ok m' ∧ Same m m' := by
  obtain ⟨l, hlocate, hnone, rfl⟩ := makeDirectory_eq_ok_iff.mp hmake
  rw [h.locate_eq] at hlocate
  rw [h l] at hnone
  exact ⟨_, makeDirectory_eq_ok_iff.mpr ⟨l, hlocate, hnone, rfl⟩, h.set l .directory⟩

end Same

/-- The operation answers the same and leaves the same entries. -/
def Alike (x x' : Workspace × Except OsError Unit) : Prop := x.2 = x'.2 ∧ Same x.1 x'.1

theorem Alike.exists_eq {x' : Workspace × Except OsError Unit} {m : Workspace}
    {result : Except OsError Unit} (h : Alike (m, result) x') : ∃ m', x' = (m', result) ∧ Same m m' :=
  ⟨x'.1, Prod.ext rfl h.1.symm, h.2⟩

theorem Same.makeLast (h : Same w w') (cs : List Char) :
    Alike (w.makeLast cs) (w'.makeLast cs) := by
  cases hmake : w.makeDirectory (String.ofList cs) with
  | ok made =>
      obtain ⟨made', hmake', hsame⟩ := h.makeDirectory_ok hmake
      rw [makeLast_of_ok hmake, makeLast_of_ok hmake']
      exact ⟨rfl, hsame⟩
  | error e =>
      rw [makeLast_of_error hmake, makeLast_of_error (h.makeDirectory_error hmake),
        isDirectory_congr (h.find_eq _)]
      exact ⟨rfl, h⟩

theorem Same.makeDirectory_found (h : Same w w')
    (hfound : w.makeDirectory path ≠ .error .notFound) :
    w'.makeDirectory path ≠ .error .notFound :=
  fun hmissing => hfound (h.symm.makeDirectory_error hmissing)

/-- The directories are made in the same way. -/
theorem Same.makes {cs : List Char} {result : Workspace × Except OsError Unit} (h : Same w w')
    (hmakes : w.Makes cs result) : ∃ result', w'.Makes cs result' ∧ Alike result result' := by
  induction hmakes with
  | here => exact ⟨_, .here, rfl, h⟩
  | once hcs hfound => exact ⟨_, .once hcs (h.makeDirectory_found hfound), h.makeLast _⟩
  | top hcs hmissing hparent =>
      exact ⟨_, .top hcs (h.makeDirectory_error hmissing) hparent, rfl, h⟩
  | stopped hcs hmissing hparent _ ih =>
      obtain ⟨result', habove, halike⟩ := ih
      obtain ⟨above', rfl, hsame⟩ := halike.exists_eq
      exact ⟨_, .stopped hcs (h.makeDirectory_error hmissing) hparent habove, rfl, hsame⟩
  | last hcs hmissing hparent _ ih =>
      obtain ⟨result', habove, halike⟩ := ih
      obtain ⟨above', rfl, hsame⟩ := halike.exists_eq
      exact ⟨_, .last hcs (h.makeDirectory_error hmissing) hparent habove, hsame.makeLast _⟩

theorem Same.makeDirectories (h : Same w w') (cs : List Char) :
    Alike (w.makeDirectories cs) (w'.makeDirectories cs) := by
  obtain ⟨result', hmakes, halike⟩ := h.makes (w.makes cs)
  exact hmakes.eq ▸ halike

theorem Same.write (h : Same w w') (path : String) (bytes : ByteArray) :
    (∃ e, w.write path bytes = .error e ∧ w'.write path bytes = .error e) ∨
      ∃ m m', w.write path bytes = .ok m ∧ w'.write path bytes = .ok m' ∧ Same m m' := by
  unfold Workspace.write
  rw [← h.locate_eq path]
  cases w.locate path with
  | error e => exact .inl ⟨e, rfl, rfl⟩
  | ok l =>
      simp only [bind, Except.bind]
      rw [← h l]
      cases w.entry? l with
      | none => exact .inr ⟨_, _, rfl, rfl, h.set l (.file bytes)⟩
      | some entry => cases entry with
        | directory => exact .inl ⟨.isDirectory, rfl, rfl⟩
        | file _ => exact .inr ⟨_, _, rfl, rfl, h.set l (.file bytes)⟩

/-- Writing a file answers the same and leaves the same entries. -/
theorem Same.writeBelow (h : Same w w') (path : String) (bytes : ByteArray) :
    Alike (w.writeBelow path bytes) (w'.writeBelow path bytes) := by
  rw [writeBelow_eq, writeBelow_eq]
  have hmade := h.makeDirectories (parentOf path)
  cases hw : w.makeDirectories (parentOf path) with
  | mk made result =>
      rw [hw] at hmade
      obtain ⟨made', hw', hsame⟩ := hmade.exists_eq
      rw [hw']
      cases result with
      | error e => exact ⟨rfl, hsame⟩
      | ok _ =>
          rcases hsame.write path bytes with ⟨e, he, he'⟩ | ⟨m, m', hm, hm', hsame'⟩
          · simp only [he, he']
            exact ⟨rfl, hsame⟩
          · simp only [hm, hm']
            exact ⟨rfl, hsame'⟩

theorem Same.grows {sites places : Location → Prop} (h : Same w w') : Grows sites places w w' :=
  fun l => .inl (h l).symm

/-- The directory of a file that was written is there. -/
theorem isDirectory_parentOf_of_writeBelow (h : w.writeBelow path bytes = (w', .ok ()))
    (hne : parentOf path ≠ []) : w'.isDirectory (String.ofList (parentOf path)) := by
  rw [writeBelow_eq] at h
  split at h
  next => cases h
  next made hmade =>
    split at h
    next written hwrite =>
      cases h
      have hgrows : Grows Anywhere (· = .ofPath path) made w' := grows_of_write hwrite
      exact hgrows.isDirectory_path (isDirectory_of_makeDirectories hne hmade)
    next => cases h

/-- What was written can be written again, which changes nothing. -/
theorem writeBelow_again {sites places : Location → Prop} {v : Workspace}
    (h : w.writeBelow path bytes = (w', .ok ())) (hgrows : Grows sites places w' v)
    (hread : v.read path = .ok bytes) :
    ∃ v', v.writeBelow path bytes = (v', .ok ()) ∧ Same v v' := by
  obtain ⟨l, hlocate, hentry⟩ := read_eq_ok_iff.mp hread
  have hparent (hne : parentOf path ≠ []) : v.isDirectory (String.ofList (parentOf path)) :=
    hgrows.isDirectory_path (isDirectory_parentOf_of_writeBelow h hne)
  have hwrite : v.write path bytes = .ok (v.set l (.file bytes)) :=
    write_eq_ok_iff.mpr ⟨l, hlocate, not_isDirectory_of_eq_file hentry, rfl⟩
  refine ⟨v.set l (.file bytes), ?_, fun m => ?_⟩
  · rw [writeBelow_eq, makeDirectories_of_isDirectory hparent]
    simp only [hwrite]
  · rw [entry?_set]
    split
    next hl => rw [← hl.1, hentry]
    next => rfl

/-! ## Writing whatever the text -/

theorem writeBelow_snd_congr (w : Workspace) (path : String) (bytes bytes' : ByteArray) :
    (w.writeBelow path bytes).2 = (w.writeBelow path bytes').2 := by
  have hwrite (made : Workspace) : (∃ e, made.write path bytes = .error e ∧
      made.write path bytes' = .error e) ∨
      ∃ m m', made.write path bytes = .ok m ∧ made.write path bytes' = .ok m' := by
    unfold write
    cases made.locate path with
    | error e => exact .inl ⟨e, rfl, rfl⟩
    | ok l =>
        simp only [bind, Except.bind]
        split
        next => exact .inl ⟨_, rfl, rfl⟩
        next => exact .inr ⟨_, _, rfl, rfl⟩
  rw [writeBelow_eq, writeBelow_eq]
  split
  next => rfl
  next made _ =>
    rcases hwrite made with ⟨e, he, he'⟩ | ⟨m, m', hm, hm'⟩
    · rw [he, he']
    · rw [hm, hm']

/-- Every text can be written to the path. -/
def Accepts (w : Workspace) (path : String) : Prop :=
  ∀ bytes, (w.writeBelow path bytes).2 = .ok ()

theorem accepts_of_empty (h : (w.writeBelow path .empty).2 = .ok ()) : w.Accepts path :=
  fun bytes => (writeBelow_snd_congr w path bytes .empty).trans h

/-! ## The same but for generated files -/

/-- Below a root at `r`, the workspaces agree but for some files that are no directories in either.
The directory of the grammar may come late: it may be missing in the first workspace while the
grammar is one of the files. -/
structure AgreeBelow (layout : Layout) (files : List File) (r : Location) (w w' : Workspace) :
    Prop where
  below : ∀ file ∈ files, file.isSource = false
  opens : w.Opens layout.root r
  opens' : w'.Opens layout.root r
  entry : ∀ l, w.entry? l = w'.entry? l ∨
    (Sites layout files l ∧ ¬w.IsDirectory l ∧ ¬w'.IsDirectory l) ∨
    (.grammar ∈ files ∧ l = folderAt r .grammar ∧ w.entry? l = none ∧ w'.IsDirectory l ∧
      ∃ d, w.Opens layout.source d)

namespace AgreeBelow

variable (h : AgreeBelow layout files r w w')

include h

theorem isDirectory (hdir : w.IsDirectory l) : w'.IsDirectory l := by
  rcases h.entry l with heq | ⟨-, hnot, -⟩ | ⟨-, -, -, hdir', -⟩
  · exact heq.symm.trans hdir
  · exact absurd hdir hnot
  · exact hdir'

theorem entry?_eq (hsite : ¬Sites layout files l)
    (hlate : .grammar ∈ files → l ≠ folderAt r .grammar) : w.entry? l = w'.entry? l := by
  rcases h.entry l with heq | ⟨hl, -⟩ | ⟨hmem, hl, -⟩
  · exact heq
  · exact absurd hl hsite
  · exact absurd hl (hlate hmem)

theorem folder_not_site (file : File) : ¬Sites layout files (folderAt r file) := by
  rintro ⟨other, hmem, heq⟩
  rw [h.opens.ofPath_path (h.below other hmem)] at heq
  exact folderAt_ne r file other heq

/-- The other files below the root are found alike. -/
theorem find_eq (hsource : file.isSource = false) (hfile : file ∉ files) :
    w.find (layout.path file) = w'.find (layout.path file) := by
  have hfolder : w.entry? (folderAt r file) = w'.entry? (folderAt r file) := by
    apply h.entry?_eq (h.folder_not_site file)
    intro hgrammar heq
    rw [eq_grammar_of_folderAt_eq heq] at hfile
    exact hfile hgrammar
  apply find_congr
  · unfold Layout.path
    rw [locate_join file.isName (h.opens.enter_folder hsource),
      locate_join file.isName (h.opens'.enter_folder hsource), step_congr hfolder]
  · intro l hlocate
    obtain rfl := eq_ofPath_of_locate hlocate
    apply h.entry?_eq (mt sites_iff.mp hfile)
    intro _ heq
    rw [h.opens.ofPath_path hsource] at heq
    exact folderAt_ne r .grammar file heq.symm

/-- The sources are at the same location, if at any. -/
theorem locate_source_iff (hsource : file.isSource = true) :
    w.locate (layout.path file) = .ok l ↔ w'.locate (layout.path file) = .ok l := by
  refine ⟨locate_mono fun _ => h.isDirectory, fun hlocate => ?_⟩
  have hfolder : layout.folder file = layout.source := if_pos hsource
  by_cases hopen : ∃ d, w.Opens layout.source d
  · obtain ⟨d, henter, hdir⟩ := hopen
    obtain ⟨hfault, d', henter', -, hl⟩ := (locate_join_eq_ok_iff file.isName).mp hlocate
    rw [← hfolder] at henter
    rw [enter_mono (fun _ => h.isDirectory) henter] at henter'
    cases henter'
    exact (locate_join_eq_ok_iff file.isName).mpr ⟨hfault, d, henter, hdir, hl⟩
  · refine locate_mono (fun m hdir => ?_) hlocate
    rcases h.entry m with heq | ⟨-, -, hnot⟩ | ⟨-, -, -, -, hlate⟩
    · exact heq.trans hdir
    · exact absurd hdir hnot
    · exact absurd hlate hopen

theorem entry?_source (hsource : file.isSource = true) :
    w.entry? (.ofPath (layout.path file)) = w'.entry? (.ofPath (layout.path file)) := by
  apply h.entry?_eq
  · rw [sites_iff]
    intro hmem
    rw [h.below file hmem] at hsource
    cases hsource
  · intro _ heq
    rw [Layout.path, ofPath_join file.isName] at heq
    exact child_name_ne rfl _ file heq

end AgreeBelow

/-- Workspaces agree but for the files written between them, the grammar among them. -/
theorem AgreeBelow.of_grows {d : Location} (hsource : ∀ file ∈ files, file.isSource = false)
    (hgrammar : .grammar ∈ files) (hroot : w.Opens layout.root r) (hopen : w.Opens layout.source d)
    (h : Grows (· = folderAt r .grammar) (Sites layout files) w w') :
    AgreeBelow layout files r w w' := by
  refine ⟨hsource, hroot, hroot.of_grows h, fun l => ?_⟩
  rcases h l with heq | ⟨hsite, hdir, hnone⟩ | ⟨hplace, hnot, bytes, hfile⟩
  · exact .inl heq.symm
  · exact .inr (.inr ⟨hgrammar, hsite, hnone, hdir, d, hopen⟩)
  · exact .inr (.inl ⟨hplace, hnot, not_isDirectory_of_eq_file hfile⟩)

/-- Where the themes have a directory, writing generated files creates at most that of the
grammar. -/
theorem Writes.grows_grammar (h : Writes layout files w w') (hfiles : files ⊆ File.artifacts)
    (hroot : w.Opens layout.root r) (hthemes : w.IsDirectory (folderAt r .theme)) :
    Grows (· = folderAt r .grammar) (Sites layout files) w w' := by
  have hsource : ∀ file ∈ File.artifacts, file.isSource = false := by decide
  have hfolder : ∀ file ∈ File.artifacts,
      file.folder? = none ∨ file.folder? = File.theme.folder? ∨ file = .grammar := by decide
  apply (h.grows_below hroot fun file hmem => hsource file (hfiles hmem)).of_isDirectory
  rintro l ⟨file, hmem, rfl⟩
  rcases hfolder file (hfiles hmem) with hnone | htheme | rfl
  · rw [folderAt, hnone]
    exact .inl hroot.2
  · rw [folderAt, htheme]
    exact .inl hthemes
  · exact .inr rfl

theorem isDirectory_themes_of_read {bytes : ByteArray} (hroot : w.Opens layout.root r)
    (h : w.read layout.theme = .ok bytes) : w.IsDirectory (folderAt r .theme) := by
  obtain ⟨d, henter, hdir⟩ := opens_of_read .theme h
  rw [hroot.enter_folder rfl] at henter
  cases henter
  exact hdir

/-- Writing one of the files answers the same. -/
theorem AgreeBelow.writeBelow_snd_eq (h : AgreeBelow layout files r w w') (hfile : file ∈ files)
    (bytes : ByteArray) :
    (w.writeBelow (layout.path file) bytes).2 = (w'.writeBelow (layout.path file) bytes).2 := by
  have hsource := h.below file hfile
  apply writeBelow_join_snd_eq file.isName (h.opens.enter_folder hsource)
    (h.opens'.enter_folder hsource)
  · rcases h.entry (folderAt r file) with heq | ⟨hsite, -⟩ | ⟨-, -, hnone, hdir, -⟩
    · exact .inl heq
    · exact absurd hsite (h.folder_not_site file)
    · exact .inr ⟨hnone, hdir⟩
  · rcases h.entry ((folderAt r file).child file.name) with heq | ⟨-, hnot, hnot'⟩ | ⟨-, hl, -⟩
    · rw [IsDirectory, IsDirectory, heq]
    · exact iff_of_false hnot hnot'
    · exact absurd hl.symm (folderAt_ne r .grammar file)

/-- After the first of the files is written, the workspaces agree on it too. -/
theorem AgreeBelow.of_writeBelow {m m' : Workspace}
    (h : AgreeBelow layout (file :: files) r w w')
    (hw : w.writeBelow (layout.path file) bytes = (m, .ok ()))
    (hw' : w'.writeBelow (layout.path file) bytes = (m', .ok ())) :
    AgreeBelow layout files r m m' := by
  have hsource := h.below file List.mem_cons_self
  have henter := h.opens.enter_folder hsource
  have henter' := h.opens'.enter_folder hsource
  have hgrows := grows_writeBelow w (layout.path file) bytes
  rw [hw] at hgrows
  have hgrows' := grows_writeBelow w' (layout.path file) bytes
  rw [hw'] at hgrows'
  refine ⟨fun other hmem => h.below other (List.mem_cons_of_mem _ hmem),
    h.opens.of_grows hgrows, h.opens'.of_grows hgrows', fun l => ?_⟩
  -- both have the file and its directory now, and anything else is as it was
  rw [IsDirectory, IsDirectory, entry?_of_writeBelow_join file.isName henter hw,
    entry?_of_writeBelow_join file.isName henter' hw']
  by_cases hchild : l = (folderAt r file).child file.name
  · rw [if_pos hchild, if_pos hchild]
    exact .inl rfl
  by_cases hdir : l = folderAt r file
  · rw [if_neg hchild, if_neg hchild, if_pos hdir, if_pos hdir]
    exact .inl rfl
  rw [if_neg hchild, if_neg hchild, if_neg hdir, if_neg hdir]
  rcases h.entry l with heq | ⟨⟨other, hmem, hl⟩, hnot⟩ | ⟨hmem, hl, hnone, hdir', d, hopen⟩
  · exact .inl heq
  · refine .inr (.inl ⟨⟨other, ?_, hl⟩, hnot⟩)
    refine (List.mem_cons.mp hmem).resolve_left ?_
    rintro rfl
    exact hchild (hl.trans (h.opens.ofPath_path hsource))
  · refine .inr (.inr ⟨?_, hl, hnone, hdir', d, hopen.of_grows hgrows⟩)
    refine (List.mem_cons.mp hmem).resolve_left ?_
    rintro rfl
    exact hdir hl

/-- The workspaces agree below a root, or there is no difference at all. The generated files that
are not among the others are there. -/
structure AgreeBut (layout : Layout) (files : List File) (w w' : Workspace) : Prop where
  same_or_below : Same w w' ∨ ∃ r, AgreeBelow layout files r w w'
  readable : ∀ file ∈ File.artifacts, file ∉ files → ∃ bytes, w.read (layout.path file) = .ok bytes

/-- A file below the root can only be found where the root is a directory. -/
theorem opens_root_of_locate (hsource : file.isSource = false)
    (h : w.locate (layout.path file) = .ok l) : ∃ r, w.Opens layout.root r := by
  obtain ⟨-, d, henter, hdir, -⟩ := (locate_join_eq_ok_iff file.isName).mp h
  rw [Layout.folder, if_neg (by simp [hsource])] at henter
  cases hfolder : file.folder? with
  | none =>
      rw [hfolder] at henter
      exact ⟨d, henter, hdir⟩
  | some sub =>
      rw [hfolder] at henter
      change w.enter (Layout.join layout.root sub) = .ok d at henter
      rw [enter_join (isName_of_folder? hfolder)] at henter
      obtain ⟨r, hroot, hstep⟩ := bind_eq_ok.mp henter
      exact ⟨r, hroot, (step_eq_ok_iff.mp hstep).1⟩

namespace AgreeBut

/-- Workspaces with the same directories agree but for the generated files if their entries do. -/
theorem of_entries (hdirs : ∀ l, w.IsDirectory l ↔ w'.IsDirectory l)
    (hentries : ∀ l, (∀ file ∈ File.artifacts, w.locate (layout.path file) ≠ .ok l) →
      w.entry? l = w'.entry? l) : AgreeBut layout File.artifacts w w' := by
  have hsource : ∀ file ∈ File.artifacts, file.isSource = false := by decide
  refine ⟨?_, fun _ hmem hnot => absurd hmem hnot⟩
  by_cases hroot : ∃ r, w.Opens layout.root r
  · obtain ⟨r, henter, hdir⟩ := hroot
    refine .inr ⟨r, hsource, ⟨henter, hdir⟩, ?_, fun l => ?_⟩
    · exact ⟨enter_mono (fun m => (hdirs m).mp) henter, (hdirs r).mp hdir⟩
    · by_cases hl : w.IsDirectory l
      · exact .inl (Eq.trans hl (Eq.symm ((hdirs l).mp hl)))
      by_cases hsite : Sites layout File.artifacts l
      · exact .inr (.inl ⟨hsite, hl, mt (hdirs l).mpr hl⟩)
      · refine .inl (hentries l fun file hmem hlocate => hsite ?_)
        exact ⟨file, hmem, eq_ofPath_of_locate hlocate⟩
  · refine .inl fun l => hentries l fun file hmem hlocate => hroot ?_
    exact opens_root_of_locate (hsource file hmem) hlocate

/-- Workspaces that agree but for no file have the same entries. -/
theorem same (h : AgreeBut layout [] w w') : Same w w' := by
  rcases h.same_or_below with hsame | ⟨r, hbelow⟩
  · exact hsame
  · intro l
    apply hbelow.entry?_eq
    · rintro ⟨file, hmem, -⟩
      cases hmem
    · exact fun hmem => absurd hmem List.not_mem_nil

variable (h : AgreeBut layout files w w')

include h

/-- Other files below the root are found alike, also where there are none. -/
theorem find_eq (file : File) (hsource : file.isSource = false) (hfile : file ∉ files) :
    w.find (layout.path file) = w'.find (layout.path file) := by
  rcases h.same_or_below with hsame | ⟨r, hbelow⟩
  · exact hsame.find_eq _
  · exact hbelow.find_eq hsource hfile

/-- The sources are found alike. -/
theorem find_source_iff (file : File) (hsource : file.isSource = true) {found : Location × Entry} :
    w.find (layout.path file) = .ok found ↔ w'.find (layout.path file) = .ok found := by
  rcases h.same_or_below with hsame | ⟨r, hbelow⟩
  · rw [hsame.find_eq]
  · obtain ⟨l, entry⟩ := found
    rw [find_eq_ok_iff, find_eq_ok_iff, hbelow.locate_source_iff hsource]
    refine and_congr_right fun hlocate => ?_
    rw [eq_ofPath_of_locate hlocate, hbelow.entry?_source hsource]

end AgreeBut

/-- After the first of the files is written, it can be read too. -/
theorem AgreeBut.readable_of_writeBelow {m : Workspace}
    (h : AgreeBut layout (file :: files) w w')
    (hm : w.writeBelow (layout.path file) bytes = (m, .ok ())) :
    ∀ other ∈ File.artifacts, other ∉ files →
      ∃ bytes, m.read (layout.path other) = .ok bytes := by
  intro other hmem hnot
  by_cases heq : other = file
  · rw [heq]
    exact ⟨bytes, read_of_writeBelow hm⟩
  · have hrest : other ∉ file :: files := fun hcons => (List.mem_cons.mp hcons).elim heq hnot
    obtain ⟨found, hread⟩ := h.readable other hmem hrest
    have hwrites : Writes layout [file] w m :=
      .single ⟨file, List.mem_cons_self, bytes, (congrArg Prod.fst hm).symm⟩
    exact ⟨found, hwrites.read other hread fun hin => heq (List.mem_singleton.mp hin)⟩

/-- Writing the first of the files answers the same, and then the workspaces agree on it. -/
theorem AgreeBut.writeBelow (h : AgreeBut layout (file :: files) w w') (bytes : ByteArray) :
    (w.writeBelow (layout.path file) bytes).2 = (w'.writeBelow (layout.path file) bytes).2 ∧
      ∀ m m', w.writeBelow (layout.path file) bytes = (m, .ok ()) →
        w'.writeBelow (layout.path file) bytes = (m', .ok ()) → AgreeBut layout files m m' := by
  rcases h.same_or_below with hsame | ⟨r, hbelow⟩
  · obtain ⟨hresult, hwritten⟩ := hsame.writeBelow (layout.path file) bytes
    refine ⟨hresult, fun m m' hm hm' => ⟨.inl ?_, h.readable_of_writeBelow hm⟩⟩
    rw [hm, hm'] at hwritten
    exact hwritten
  · exact ⟨hbelow.writeBelow_snd_eq List.mem_cons_self bytes,
      fun m m' hm hm' => ⟨.inr ⟨r, hbelow.of_writeBelow hm hm'⟩,
        h.readable_of_writeBelow hm⟩⟩

end Lexicolor.Workspace
