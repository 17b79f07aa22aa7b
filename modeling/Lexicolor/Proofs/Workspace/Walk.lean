import Mathlib
import Lexicolor.Proofs.Outcome
import Lexicolor.Workspace.Files

/-!
# Where paths lead

A path leads to one location only, in whatever workspace, and it leads there
wherever the locations on its way are directories. Writing a file adds
directories and one file, and takes nothing away.
-/

namespace Lexicolor

variable {w w' : Workspace} {l l' m : Location} {piece : List Char} {pieces : List (List Char)}
variable {path : String} {bytes : ByteArray}

namespace Location

/-- The location that a piece of a path leads to from a directory. -/
def descend (l : Location) (piece : List Char) : Location :=
  if piece = [] ∨ piece = ['.'] then l
  else if piece = ['.', '.'] then l.up
  else l.child (String.ofList piece)

/-- Where paths start. -/
def startOf (cs : List Char) : Location := if cs.head? = some '/' then ⟨.root, []⟩ else .here

/-- The location that a path leads to where it leads anywhere. -/
def ofPath (path : String) : Location :=
  (Text.splitOn '/' path.toList).foldl descend (startOf path.toList)

end Location

namespace Workspace

/-- A directory is at the location. -/
def IsDirectory (w : Workspace) (l : Location) : Prop := w.entry? l = some .directory

theorem entry?_set (w : Workspace) (l l' : Location) (entry : Entry) :
    entry? (w.set l entry) l' = if l = l' ∧ l.names ≠ [] then some entry else w.entry? l' := by
  unfold entry? set
  by_cases heq : l = l'
  · subst heq
    by_cases hnames : l.names = [] <;> simp [hnames]
  · simp [heq, Table.get?_set_of_ne]

/-- Where no directory is, there is something to name. -/
theorem names_ne_nil (h : ¬w.IsDirectory l) : l.names ≠ [] := fun hnil => h (if_pos hnil)

theorem not_isDirectory_of_eq_none (h : w.entry? l = none) : ¬w.IsDirectory l := by
  intro hdir
  rw [hdir] at h
  cases h

theorem not_isDirectory_of_eq_file (h : w.entry? l = some (.file bytes)) : ¬w.IsDirectory l := by
  intro hdir
  rw [hdir] at h
  cases h

/-- A file that is no directory's place makes no difference to the directories. -/
theorem isDirectory_set_file (h : ¬w.IsDirectory l) :
    (w.set l (.file bytes)).IsDirectory m ↔ w.IsDirectory m := by
  by_cases hm : m = l
  · have hfile : entry? (w.set l (.file bytes)) l = some (.file bytes) := by
      rw [entry?_set, if_pos ⟨rfl, names_ne_nil h⟩]
    rw [hm]
    exact iff_of_false (not_isDirectory_of_eq_file hfile) h
  · rw [IsDirectory, IsDirectory, entry?_set, if_neg]
    exact fun heq => hm heq.1.symm

/-! ## Walks -/

/-- The way along the pieces of a path. -/
def walk (w : Workspace) (l : Location) (pieces : List (List Char)) : Except OsError Location :=
  pieces.foldlM w.step l

theorem walk_cons : w.walk l (piece :: pieces) = w.step l piece >>= fun m => w.walk m pieces := rfl

theorem walk_append (pieces' : List (List Char)) :
    w.walk l (pieces ++ pieces') = w.walk l pieces >>= fun m => w.walk m pieces' :=
  List.foldlM_append

/-- The piece is no name, or one that is not too long. -/
def Fits (piece : List Char) : Prop :=
  piece = [] ∨ piece = ['.'] ∨ piece = ['.', '.'] ∨ Text.byteLength piece ≤ maxName

theorem step_eq_ok_iff :
    w.step l piece = .ok l' ↔ w.IsDirectory l ∧ Fits piece ∧ l' = l.descend piece := by
  unfold step IsDirectory Fits Location.descend
  cases w.entry? l with
  | none => simp
  | some entry =>
      cases entry with
      | file bytes => simp
      | directory =>
          simp only [true_and, ← or_assoc]
          split
          next h => simp [h, eq_comm]
          next h =>
            split
            next hup =>
              simp only [hup, or_true, true_or, true_and, Except.ok.injEq]
              exact eq_comm
            next hup =>
              split
              next hlong => simp [h, hup, hlong]
              next hlong => simp [Nat.not_lt.mp hlong, eq_comm]

theorem walk_eq_ok_iff : w.walk l (piece :: pieces) = .ok l' ↔
    w.IsDirectory l ∧ Fits piece ∧ w.walk (l.descend piece) pieces = .ok l' := by
  rw [walk_cons]
  constructor
  · intro h
    obtain ⟨m, hstep, hwalk⟩ := bind_eq_ok.mp h
    obtain ⟨hdir, hfits, rfl⟩ := step_eq_ok_iff.mp hstep
    exact ⟨hdir, hfits, hwalk⟩
  · rintro ⟨hdir, hfits, hwalk⟩
    exact bind_eq_ok.mpr ⟨_, step_eq_ok_iff.mpr ⟨hdir, hfits, rfl⟩, hwalk⟩

theorem foldl_descend_of_walk (h : w.walk l pieces = .ok l') :
    l' = pieces.foldl Location.descend l := by
  induction pieces generalizing l with
  | nil =>
      cases h
      rfl
  | cons piece pieces ih => exact ih (walk_eq_ok_iff.mp h).2.2

/-- Where directories stay, ways stay. -/
theorem walk_mono (hdirs : ∀ m, w.IsDirectory m → w'.IsDirectory m)
    (h : w.walk l pieces = .ok l') : w'.walk l pieces = .ok l' := by
  induction pieces generalizing l with
  | nil => exact h
  | cons piece pieces ih =>
      obtain ⟨hdir, hfits, hwalk⟩ := walk_eq_ok_iff.mp h
      exact walk_eq_ok_iff.mpr ⟨hdirs l hdir, hfits, ih hwalk⟩

/-! ## Paths -/

/-- What makes a text no path. -/
def pathFault? (cs : List Char) : Option OsError :=
  if cs = [] then some .notFound
  else if '\x00' ∈ cs then some .nulInPath
  else if maxPath < Text.byteLength cs then some .nameTooLong
  else none

theorem locate_eq (w : Workspace) (path : String) : w.locate path =
    match pathFault? path.toList with
    | some e => .error e
    | none => w.walk (Location.startOf path.toList) (Text.splitOn '/' path.toList) := by
  unfold locate pathFault?
  simp only
  split
  next => rfl
  next =>
    split
    next => rfl
    next => split <;> rfl

theorem locate_eq_ok_iff : w.locate path = .ok l ↔ pathFault? path.toList = none ∧
    w.walk (Location.startOf path.toList) (Text.splitOn '/' path.toList) = .ok l := by
  rw [locate_eq]
  cases pathFault? path.toList <;> simp

/-- A path leads to the same location everywhere. -/
theorem eq_ofPath_of_locate (h : w.locate path = .ok l) : l = .ofPath path :=
  foldl_descend_of_walk (locate_eq_ok_iff.mp h).2

theorem locate_mono (hdirs : ∀ m, w.IsDirectory m → w'.IsDirectory m)
    (h : w.locate path = .ok l) : w'.locate path = .ok l := by
  obtain ⟨hfault, hwalk⟩ := locate_eq_ok_iff.mp h
  exact locate_eq_ok_iff.mpr ⟨hfault, walk_mono hdirs hwalk⟩

theorem find_eq_ok_iff {entry : Entry} :
    w.find path = .ok (l, entry) ↔ w.locate path = .ok l ∧ w.entry? l = some entry := by
  unfold find
  rw [bind_eq_ok]
  constructor
  · rintro ⟨m, hlocate, h⟩
    cases hentry : w.entry? m with
    | none =>
        rw [hentry] at h
        cases h
    | some found =>
        rw [hentry] at h
        cases h
        exact ⟨hlocate, hentry⟩
  · rintro ⟨hlocate, hentry⟩
    refine ⟨l, hlocate, ?_⟩
    rw [hentry]
    rfl

theorem read_eq_ok_iff :
    w.read path = .ok bytes ↔ ∃ l, w.locate path = .ok l ∧ w.entry? l = some (.file bytes) := by
  unfold read
  rw [bind_eq_ok]
  constructor
  · rintro ⟨⟨m, entry⟩, hfind, h⟩
    obtain ⟨hlocate, hentry⟩ := find_eq_ok_iff.mp hfind
    cases entry with
    | directory => cases h
    | file found =>
        cases h
        exact ⟨m, hlocate, hentry⟩
  · rintro ⟨m, hlocate, hentry⟩
    exact ⟨_, find_eq_ok_iff.mpr ⟨hlocate, hentry⟩, rfl⟩

theorem isDirectory_iff : w.isDirectory path ↔ ∃ l, w.locate path = .ok l ∧ w.IsDirectory l := by
  unfold isDirectory
  split
  next m hfind =>
    obtain ⟨hlocate, hdir⟩ := find_eq_ok_iff.mp hfind
    exact iff_of_true rfl ⟨m, hlocate, hdir⟩
  next hnot =>
    refine iff_of_false Bool.false_ne_true ?_
    rintro ⟨m, hlocate, hdir⟩
    exact hnot m (find_eq_ok_iff.mpr ⟨hlocate, hdir⟩)

theorem pathExists_iff : w.pathExists path ↔
    ∃ l entry, w.locate path = .ok l ∧ w.entry? l = some entry := by
  unfold pathExists
  cases hfind : w.find path with
  | ok found => exact iff_of_true rfl ⟨found.1, found.2, find_eq_ok_iff.mp hfind⟩
  | error e =>
      refine iff_of_false Bool.false_ne_true ?_
      rintro ⟨m, entry, hentry⟩
      rw [find_eq_ok_iff.mpr hentry] at hfind
      cases hfind

theorem pathExists_of_read (h : w.read path = .ok bytes) : w.pathExists path := by
  obtain ⟨l, hlocate, hfile⟩ := read_eq_ok_iff.mp h
  exact pathExists_iff.mpr ⟨l, _, hlocate, hfile⟩

/-! ## Growth -/

/-- Nothing is taken away: where entries change, there are new directories at one of the sites, or
files at one of the places, where no directory was. -/
def Grows (sites places : Location → Prop) (w w' : Workspace) : Prop :=
  ∀ l, w'.entry? l = w.entry? l ∨ (sites l ∧ w'.IsDirectory l ∧ w.entry? l = none) ∨
    (places l ∧ ¬w.IsDirectory l ∧ ∃ bytes, w'.entry? l = some (.file bytes))

namespace Grows

variable {sites sites' places places' : Location → Prop} {w'' : Workspace}

theorem refl (sites places : Location → Prop) (w : Workspace) : Grows sites places w w :=
  fun _ => .inl rfl

theorem mono (h : Grows sites places w w') (hsites : ∀ l, sites l → sites' l)
    (hplaces : ∀ l, places l → places' l) : Grows sites' places' w w' :=
  fun l => (h l).imp_right (.imp (.imp_left (hsites l)) (.imp_left (hplaces l)))

theorem trans (h : Grows sites places w w') (h' : Grows sites places w' w'') :
    Grows sites places w w'' := by
  intro l
  rcases h' l with heq | ⟨hsite, hdir, hnone⟩ | ⟨hplace, hdir, hfile⟩
  · rw [heq, IsDirectory, heq]
    exact h l
  · rcases h l with heq' | ⟨-, hdir', -⟩ | ⟨-, -, bytes, hfile⟩
    · exact .inr (.inl ⟨hsite, hdir, heq' ▸ hnone⟩)
    · rw [hdir'] at hnone
      cases hnone
    · rw [hfile] at hnone
      cases hnone
  · refine .inr (.inr ⟨hplace, ?_, hfile⟩)
    intro hold
    rcases h l with heq' | ⟨-, -, hnone⟩ | ⟨-, hdir', -⟩
    · exact hdir (heq'.trans hold)
    · rw [hold] at hnone
      cases hnone
    · exact hdir' hold

theorem isDirectory (h : Grows sites places w w') (hdir : w.IsDirectory l) : w'.IsDirectory l := by
  rcases h l with heq | ⟨-, -, hnone⟩ | ⟨-, hnot, -⟩
  · exact heq.trans hdir
  · rw [hdir] at hnone
    cases hnone
  · exact absurd hdir hnot

theorem locate (h : Grows sites places w w') (hlocate : w.locate path = .ok l) :
    w'.locate path = .ok l :=
  locate_mono (fun _ => h.isDirectory) hlocate

theorem isDirectory_path (h : Grows sites places w w') (hdir : w.isDirectory path) :
    w'.isDirectory path := by
  obtain ⟨l, hlocate, hl⟩ := Workspace.isDirectory_iff.mp hdir
  exact Workspace.isDirectory_iff.mpr ⟨l, h.locate hlocate, h.isDirectory hl⟩

/-- Sites that are directories already need not be named. -/
theorem of_isDirectory (h : Grows sites places w w')
    (hsites : ∀ l, sites l → w.IsDirectory l ∨ sites' l) : Grows sites' places w w' := by
  intro l
  rcases h l with heq | ⟨hsite, hdir, hnone⟩ | hfile
  · exact .inl heq
  · have hsite' := (hsites l hsite).resolve_left (not_isDirectory_of_eq_none hnone)
    exact .inr (.inl ⟨hsite', hdir, hnone⟩)
  · exact .inr (.inr hfile)

/-- Files that are not at one of the places stay, and there are no others. -/
theorem entry?_eq_file_iff (h : Grows sites places w w') (hplace : ¬places l) :
    w'.entry? l = some (.file bytes) ↔ w.entry? l = some (.file bytes) := by
  rcases h l with heq | ⟨-, hdir, hnone⟩ | ⟨hl, -⟩
  · rw [heq]
  · rw [hdir, hnone]
    simp
  · exact absurd hl hplace

/-- A file that is not at one of the places stays. -/
theorem read (h : Grows sites places w w') (hread : w.read path = .ok bytes)
    (hplace : ¬places (.ofPath path)) : w'.read path = .ok bytes := by
  obtain ⟨l, hlocate, hfile⟩ := read_eq_ok_iff.mp hread
  rw [← eq_ofPath_of_locate hlocate] at hplace
  exact read_eq_ok_iff.mpr ⟨l, h.locate hlocate, (h.entry?_eq_file_iff hplace).mpr hfile⟩

/-- Where all sites are directories, there are no new directories. -/
theorem isDirectory_iff (h : Grows sites places w w') (hsites : ∀ l, sites l → w.IsDirectory l) :
    w'.IsDirectory l ↔ w.IsDirectory l := by
  refine ⟨fun hdir => ?_, h.isDirectory⟩
  rcases h l with heq | ⟨hsite, -, -⟩ | ⟨-, -, bytes, hfile⟩
  · exact heq.symm.trans hdir
  · exact hsites l hsite
  · exact absurd hdir (not_isDirectory_of_eq_file hfile)

/-- Without new directories, no path leads to anything new but to the places. -/
theorem pathExists_eq (h : Grows sites places w w') (hsites : ∀ l, sites l → w.IsDirectory l)
    (hplace : ¬places (.ofPath path)) : w'.pathExists path = w.pathExists path := by
  rw [Bool.eq_iff_iff, pathExists_iff, pathExists_iff]
  have hlocate {l : Location} : w'.locate path = .ok l ↔ w.locate path = .ok l :=
    ⟨locate_mono fun _ => (h.isDirectory_iff hsites).mp, h.locate⟩
  refine exists_congr fun l => exists_congr fun entry => ?_
  rw [hlocate]
  refine and_congr_right fun hl => ?_
  rcases h l with heq | ⟨hsite, -, hnone⟩ | ⟨hl', -⟩
  · rw [heq]
  · exact absurd (hsites l hsite) (not_isDirectory_of_eq_none hnone)
  · rw [eq_ofPath_of_locate hl] at hl'
    exact absurd hl' hplace

end Grows

variable {sites places : Location → Prop}

theorem grows_set_directory (hsite : sites l) (hnone : w.entry? l = none) :
    Grows sites places w (w.set l .directory) := by
  intro m
  rw [IsDirectory, entry?_set]
  split
  next h => exact .inr (.inl (h.1 ▸ ⟨hsite, rfl, hnone⟩))
  next => exact .inl rfl

theorem grows_set_file (hplace : places l) (hdir : ¬w.IsDirectory l) (bytes : ByteArray) :
    Grows sites places w (w.set l (.file bytes)) := by
  intro m
  rw [entry?_set]
  split
  next h => exact .inr (.inr (h.1 ▸ ⟨hplace, hdir, bytes, rfl⟩))
  next => exact .inl rfl

/-- Directories may come anywhere. -/
abbrev Anywhere : Location → Prop := fun _ => True

theorem makeDirectory_eq_ok_iff : w.makeDirectory path = .ok w' ↔
    ∃ l, w.locate path = .ok l ∧ w.entry? l = none ∧ w' = w.set l .directory := by
  unfold makeDirectory
  rw [bind_eq_ok]
  refine exists_congr fun l => and_congr_right fun _ => ?_
  cases w.entry? l with
  | none => simp [pure, Except.pure, eq_comm]
  | some entry => simp

theorem grows_of_makeDirectory (h : w.makeDirectory path = .ok w') :
    Grows Anywhere places w w' := by
  obtain ⟨l, -, hnone, rfl⟩ := makeDirectory_eq_ok_iff.mp h
  exact grows_set_directory trivial hnone

theorem isDirectory_of_makeDirectory (h : w.makeDirectory path = .ok w') :
    w'.isDirectory path := by
  obtain ⟨l, hlocate, hnone, rfl⟩ := makeDirectory_eq_ok_iff.mp h
  have hgrows : Grows Anywhere Anywhere w (w.set l .directory) := grows_set_directory trivial hnone
  refine isDirectory_iff.mpr ⟨l, hgrows.locate hlocate, ?_⟩
  rw [IsDirectory, entry?_set, if_pos ⟨rfl, names_ne_nil (not_isDirectory_of_eq_none hnone)⟩]

/-! ## Directories above a file -/

variable {cs parent : List Char} {above : Workspace} {e : OsError}
variable {result : Workspace × Except OsError Unit}

/-- Makes the last directory of a path, which may be there already. -/
def makeLast (w : Workspace) (cs : List Char) : Workspace × Except OsError Unit :=
  match w.makeDirectory (String.ofList cs) with
  | .ok made => (made, .ok ())
  | .error e => (w, if w.isDirectory (String.ofList cs) then .ok () else .error e)

theorem makeLast_of_ok (h : w.makeDirectory (String.ofList cs) = .ok w') :
    w.makeLast cs = (w', .ok ()) := by
  simp only [makeLast, h]

theorem makeLast_of_error (h : w.makeDirectory (String.ofList cs) = .error e) : w.makeLast cs =
    (w, if w.isDirectory (String.ofList cs) then .ok () else .error e) := by
  simp only [makeLast, h]

theorem grows_makeLast (w : Workspace) (cs : List Char) :
    Grows Anywhere places w (w.makeLast cs).1 := by
  cases hmake : w.makeDirectory (String.ofList cs) with
  | ok made => exact makeLast_of_ok hmake ▸ grows_of_makeDirectory hmake
  | error e => exact makeLast_of_error hmake ▸ Grows.refl Anywhere places w

theorem isDirectory_of_makeLast (h : (w.makeLast cs).2 = .ok ()) :
    (w.makeLast cs).1.isDirectory (String.ofList cs) := by
  cases hmake : w.makeDirectory (String.ofList cs) with
  | ok made =>
      rw [makeLast_of_ok hmake]
      exact isDirectory_of_makeDirectory hmake
  | error e =>
      rw [makeLast_of_error hmake] at h ⊢
      by_contra hdir
      rw [if_neg hdir] at h
      cases h

/-- How the directories of a path are made: the last one at once unless the one above it is missing,
and then after those above it. -/
inductive Makes (w : Workspace) : List Char → Workspace × Except OsError Unit → Prop
  | here : Makes w [] (w, .ok ())
  | once {cs : List Char} (hcs : cs ≠ [])
      (hfound : w.makeDirectory (String.ofList cs) ≠ .error .notFound) : Makes w cs (w.makeLast cs)
  | top {cs : List Char} (hcs : cs ≠ [])
      (hmissing : w.makeDirectory (String.ofList cs) = .error .notFound)
      (hparent : Path.parent? cs = none) : Makes w cs (w, .error .notFound)
  | stopped {above : Workspace} {cs parent : List Char} {e : OsError} (hcs : cs ≠ [])
      (hmissing : w.makeDirectory (String.ofList cs) = .error .notFound)
      (hparent : Path.parent? cs = some parent) (habove : Makes w parent (above, .error e)) :
      Makes w cs (above, .error e)
  | last {above : Workspace} {cs parent : List Char} (hcs : cs ≠ [])
      (hmissing : w.makeDirectory (String.ofList cs) = .error .notFound)
      (hparent : Path.parent? cs = some parent) (habove : Makes w parent (above, .ok ())) :
      Makes w cs (above.makeLast cs)

theorem makes (w : Workspace) (cs : List Char) : Makes w cs (w.makeDirectories cs) := by
  fun_induction makeDirectories w cs with
  | case1 => exact .here
  | case2 cs hcs name made hmade =>
      have hfound : w.makeDirectory (String.ofList cs) ≠ .error .notFound := by
        rw [hmade]
        nofun
      exact makeLast_of_ok hmade ▸ .once hcs hfound
  | case3 cs hcs name hmissing hparent => exact .top hcs hmissing hparent
  | case4 cs hcs name hmissing parent hparent above e habove ih =>
      exact .stopped hcs hmissing hparent (habove ▸ ih)
  | case5 cs hcs name hmissing parent hparent above made hmade habove ih =>
      exact makeLast_of_ok hmade ▸ .last hcs hmissing hparent (habove ▸ ih)
  | case6 cs hcs name hmissing parent hparent above e hfail habove ih =>
      exact makeLast_of_error hfail ▸ .last hcs hmissing hparent (habove ▸ ih)
  | case7 cs hcs name e hne hfail =>
      have hfound : w.makeDirectory (String.ofList cs) ≠ .error .notFound := by
        rw [hfail]
        exact fun heq => hne (Except.error.inj heq)
      exact makeLast_of_error hfail ▸ .once hcs hfound

/-- Where the directory above is missing, it is made first. -/
theorem makeDirectories_of_notFound (hcs : cs ≠ [])
    (hmissing : w.makeDirectory (String.ofList cs) = .error .notFound)
    (hparent : Path.parent? cs = some parent) : w.makeDirectories cs =
      match w.makeDirectories parent with
      | (above, .error e) => (above, .error e)
      | (above, .ok ()) => above.makeLast cs := by
  rw [makeDirectories, if_neg hcs]
  simp only [hmissing]
  split
  next hnone =>
    rw [hparent] at hnone
    cases hnone
  next parent' hparent' =>
    rw [hparent] at hparent'
    cases hparent'
    generalize w.makeDirectories parent = result
    obtain ⟨above, _ | _⟩ := result <;> rfl

/-- The directories are made in one way only. -/
theorem Makes.eq (h : Makes w cs result) : w.makeDirectories cs = result := by
  induction h with
  | here => rw [makeDirectories, if_pos rfl]
  | @once cs hcs hfound =>
      rw [makeDirectories, if_neg hcs]
      cases hmake : w.makeDirectory (String.ofList cs) with
      | ok made =>
          rw [makeLast_of_ok hmake]
          simp only [hmake]
      | error e =>
          rw [makeLast_of_error hmake]
          simp only [hmake]
          cases e <;> first | exact absurd hmake hfound | rfl
  | top hcs hmissing hparent =>
      rw [makeDirectories, if_neg hcs]
      simp only [hmissing]
      split
      next => rfl
      next heq =>
        rw [hparent] at heq
        cases heq
  | stopped hcs hmissing hparent _ ih =>
      rw [makeDirectories_of_notFound hcs hmissing hparent, ih]
  | last hcs hmissing hparent _ ih =>
      rw [makeDirectories_of_notFound hcs hmissing hparent, ih]

theorem Makes.grows (h : Makes w cs result) : Grows Anywhere places w result.1 := by
  induction h with
  | here | top => exact Grows.refl Anywhere places _
  | once => exact grows_makeLast _ _
  | stopped _ _ _ _ ih => exact ih
  | last _ _ _ _ ih => exact ih.trans (grows_makeLast _ _)

theorem grows_makeDirectories (w : Workspace) (cs : List Char) :
    Grows Anywhere places w (w.makeDirectories cs).1 :=
  (makes w cs).grows

theorem Makes.isDirectory (h : Makes w cs result) (hcs : cs ≠ []) (hok : result.2 = .ok ()) :
    result.1.isDirectory (String.ofList cs) := by
  cases h with
  | here => exact absurd rfl hcs
  | top | stopped => cases hok
  | once => exact isDirectory_of_makeLast hok
  | last => exact isDirectory_of_makeLast hok

/-- Directories that were made are there. -/
theorem isDirectory_of_makeDirectories (hcs : cs ≠ [])
    (h : w.makeDirectories cs = (w', .ok ())) : w'.isDirectory (String.ofList cs) := by
  have hmakes := makes w cs
  rw [h] at hmakes
  exact hmakes.isDirectory hcs rfl

theorem makeDirectories_of_isDirectory
    (h : cs ≠ [] → w.isDirectory (String.ofList cs)) : w.makeDirectories cs = (w, .ok ()) := by
  by_cases hcs : cs = []
  · exact hcs ▸ Makes.here.eq
  obtain ⟨l, hlocate, hdir⟩ := isDirectory_iff.mp (h hcs)
  have hmake : w.makeDirectory (String.ofList cs) = .error .alreadyExists := by
    rw [makeDirectory, hlocate]
    simp only [bind, Except.bind, show w.entry? l = _ from hdir]
  have hmakes : Makes w cs (w.makeLast cs) := .once hcs (by rw [hmake]; nofun)
  rw [hmakes.eq, makeLast_of_error hmake, if_pos (h hcs)]

theorem write_eq_ok_iff : w.write path bytes = .ok w' ↔
    ∃ l, w.locate path = .ok l ∧ ¬w.IsDirectory l ∧ w' = w.set l (.file bytes) := by
  unfold write IsDirectory
  rw [bind_eq_ok]
  refine exists_congr fun l => and_congr_right fun _ => ?_
  cases hentry : w.entry? l with
  | none => simp [pure, Except.pure, eq_comm]
  | some entry => cases entry <;> simp [pure, Except.pure, eq_comm]

/-- A file that was written can be read. -/
theorem read_of_write (h : w.write path bytes = .ok w') : w'.read path = .ok bytes := by
  obtain ⟨l, hlocate, hdir, rfl⟩ := write_eq_ok_iff.mp h
  have hgrows : Grows Anywhere Anywhere w (w.set l (.file bytes)) :=
    grows_set_file trivial hdir bytes
  refine read_eq_ok_iff.mpr ⟨l, hgrows.locate hlocate, ?_⟩
  rw [entry?_set, if_pos ⟨rfl, names_ne_nil hdir⟩]

theorem grows_of_write (h : w.write path bytes = .ok w') :
    Grows sites (· = .ofPath path) w w' := by
  obtain ⟨l, hlocate, hdir, rfl⟩ := write_eq_ok_iff.mp h
  refine grows_set_file ?_ hdir bytes
  exact eq_ofPath_of_locate hlocate

/-- The directories above a file. -/
def parentOf (path : String) : List Char := (Path.parent? path.toList).getD []

theorem writeBelow_eq (w : Workspace) (path : String) (bytes : ByteArray) :
    w.writeBelow path bytes = match w.makeDirectories (parentOf path) with
      | (made, .error e) => (made, .error e)
      | (made, .ok ()) => match made.write path bytes with
        | .ok written => (written, .ok ())
        | .error e => (made, .error e) := by
  unfold writeBelow parentOf
  simp only
  generalize w.makeDirectories ((Path.parent? path.toList).getD []) = result
  obtain ⟨made, _ | _⟩ := result <;> rfl

theorem grows_writeBelow (w : Workspace) (path : String) (bytes : ByteArray) :
    Grows Anywhere (· = .ofPath path) w (w.writeBelow path bytes).1 := by
  have hmade : Grows Anywhere (· = .ofPath path) w (w.makeDirectories (parentOf path)).1 :=
    grows_makeDirectories w (parentOf path)
  rw [writeBelow_eq]
  split
  next made e heq =>
    rw [heq] at hmade
    exact hmade
  next made heq =>
    rw [heq] at hmade
    split
    next written hwrite => exact hmade.trans (grows_of_write hwrite)
    next => exact hmade

theorem read_of_writeBelow (h : w.writeBelow path bytes = (w', .ok ())) :
    w'.read path = .ok bytes := by
  rw [writeBelow_eq] at h
  split at h
  next => cases h
  next made heq =>
    split at h
    next written hwrite =>
      cases h
      exact read_of_write hwrite
    next => cases h

end Workspace

end Lexicolor
