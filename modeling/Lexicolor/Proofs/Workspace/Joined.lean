import Mathlib
import Lexicolor.Proofs.Text.Search
import Lexicolor.Proofs.Workspace.Walk
import Lexicolor.Workspace.Layout

/-!
# Files in a directory

The path of a file in a directory leads through the directory, and the directory
above the file is that directory. So where the directory is there, writing the
file creates nothing else.
-/

namespace Lexicolor

variable {w w' : Workspace} {r : Location} {base name p : List Char} {head : Nat}

namespace Path

open Workspace

/-- The text names a file or a directory. -/
def isName (name : List Char) : Bool :=
  name != [] && name != ['.'] && name != ['.', '.'] && name.all (· != '/') &&
    Text.byteLength name ≤ maxName

structure IsName (name : List Char) : Prop where
  isName : Path.isName name = true

namespace IsName

theorem ne_nil (h : IsName name) : name ≠ [] := by
  have h := h.isName
  simp [Path.isName] at h
  tauto

theorem notMem (h : IsName name) : '/' ∉ name := by
  have h := h.isName
  simp [Path.isName] at h
  tauto

theorem component? (h : IsName name) : Path.component? name = some (.name name) := by
  have h := h.isName
  simp [Path.isName] at h
  simp [Path.component?, h]

theorem fits (h : IsName name) : Workspace.Fits name := by
  have h := h.isName
  simp [Path.isName] at h
  exact .inr (.inr (.inr h.2))

theorem descend (h : IsName name) (l : Location) : l.descend name = l.child (String.ofList name) := by
  have h := h.isName
  simp [Path.isName] at h
  simp [Location.descend, h]

theorem startsHere (h : IsName name) : ¬Path.startsHere name := by
  have hpiece : pieceOf name = name := by
    rw [pieceOf, List.takeWhile_eq_self_iff]
    intro c hc
    rw [decide_eq_true_iff]
    rintro rfl
    exact h.notMem hc
  have h := h.isName
  simp [Path.isName] at h
  simp [Path.startsHere, hpiece, h]

theorem head?_ne (h : IsName name) : name.head? ≠ some '/' := by
  intro hhead
  obtain ⟨rest, rfl⟩ := List.head?_eq_some_iff.mp hhead
  exact h.notMem List.mem_cons_self

end IsName

/-- The pieces of a path to a directory. -/
def heads (base : List Char) : List (List Char) :=
  if base = [] then []
  else if base.getLast? = some '/' then (Text.splitOn '/' base).dropLast
  else Text.splitOn '/' base

/-- A path in a directory: the name alone in the working directory, else the directory's path, a
slash and the name. -/
theorem join_cases (hname : IsName name) (base : List Char) :
    (base = [] ∧ join base name = name) ∨
    (base = ['/'] ∧ join base name = '/' :: name) ∨
    ∃ b, b ≠ [] ∧ join base name = b ++ '/' :: name ∧ heads base = Text.splitOn '/' b ∧
      b.head? = base.head? := by
  by_cases hbase : base = []
  · exact .inl ⟨hbase, by simp [join, hbase]⟩
  have hjoin : join base name =
      if base.getLast? = some '/' then base ++ name else base ++ '/' :: name := by
    simp [join, hbase, hname.head?_ne]
  by_cases hlast : base.getLast? = some '/'
  · obtain ⟨b, rfl⟩ := List.getLast?_eq_some_iff.mp hlast
    rw [hjoin, if_pos hlast]
    cases b with
    | nil => exact .inr (.inl ⟨rfl, rfl⟩)
    | cons c b =>
        refine .inr (.inr ⟨c :: b, List.cons_ne_nil c b, by simp, ?_, by simp⟩)
        rw [heads, if_neg hbase, if_pos hlast, Text.splitOn_append]
        simp [Text.splitOn]
  · refine .inr (.inr ⟨base, hbase, by rw [hjoin, if_neg hlast], ?_, rfl⟩)
    rw [heads, if_neg hbase, if_neg hlast]

theorem splitOn_join (hname : IsName name) (base : List Char) :
    Text.splitOn '/' (join base name) = heads base ++ [name] := by
  have hsplit := Text.splitOn_of_notMem hname.notMem
  rcases join_cases hname base with ⟨rfl, heq⟩ | ⟨rfl, heq⟩ | ⟨b, -, heq, hheads, -⟩
  · rw [heq, hsplit]
    rfl
  · rw [heq, ← List.nil_append ('/' :: name), Text.splitOn_append, hsplit]
    rfl
  · rw [heq, Text.splitOn_append, hsplit, hheads]

theorem startOf_join (hname : IsName name) (base : List Char) :
    Location.startOf (join base name) = Location.startOf base := by
  unfold Location.startOf
  rcases join_cases hname base with ⟨rfl, heq⟩ | ⟨rfl, heq⟩ | ⟨b, hne, heq, -, hhead⟩
  · rw [heq, if_neg hname.head?_ne]
    rfl
  · rw [heq]
    rfl
  · rw [heq, ← hhead]
    obtain ⟨c, b, rfl⟩ := List.exists_cons_of_ne_nil hne
    rfl

/-! ## The directory above -/

theorem lastPiece_of_slash {b piece : List Char} (hpiece : '/' ∉ piece) (hhead : head ≤ b.length) :
    lastPiece head (b ++ '/' :: piece) = piece ∧ beforeLast head (b ++ '/' :: piece) = b := by
  have hlast : lastPiece head (b ++ '/' :: piece) = piece := by
    have hall : ∀ c ∈ piece.reverse, decide (c ≠ '/') := by
      intro c hc
      rw [decide_eq_true_iff]
      rintro rfl
      exact hpiece (List.mem_reverse.mp hc)
    rw [lastPiece, List.drop_append_of_le_length hhead, List.reverse_append, List.reverse_cons,
      List.append_assoc, List.takeWhile_append_of_pos hall]
    simp
  refine ⟨hlast, ?_⟩
  have hlength : (b ++ '/' :: piece).length = b.length + 1 + piece.length := by
    simp only [List.length_append, List.length_cons]
    omega
  rw [beforeLast, hlast]
  simp only [hlength]
  rw [if_pos (by omega), List.take_append_of_le_length (by omega), List.take_of_length_le (by omega)]

theorem lastPiece_of_notMem (hp : '/' ∉ p.drop head) (hhead : head ≤ p.length) :
    lastPiece head p = p.drop head ∧ beforeLast head p = p.take head := by
  have hlast : lastPiece head p = p.drop head := by
    have hall : ∀ c ∈ (p.drop head).reverse, decide (c ≠ '/') := by
      intro c hc
      rw [decide_eq_true_iff]
      rintro rfl
      exact hp (List.mem_reverse.mp hc)
    rw [lastPiece, List.takeWhile_eq_self_iff.mpr hall, List.reverse_reverse]
  refine ⟨hlast, ?_⟩
  rw [beforeLast, hlast]
  simp only [List.length_drop]
  rw [if_neg (by omega)]
  congr 1
  omega

/-- The last slash of a path, if there is one after its head. -/
theorem exists_last_slash (head : Nat) (p : List Char) : '/' ∉ p.drop head ∨
    ∃ b piece, '/' ∉ piece ∧ head ≤ b.length ∧ p = b ++ '/' :: piece := by
  by_cases hmem : '/' ∈ p.drop head
  · obtain ⟨after, before, heq, hnot⟩ := List.eq_append_cons_of_mem (List.mem_reverse.mpr hmem)
    refine .inr ⟨p.take head ++ before.reverse, after.reverse, by simpa using hnot, ?_, ?_⟩
    · have hlt : head < p.length := by
        by_contra hle
        rw [List.drop_of_length_le (Nat.not_lt.mp hle)] at hmem
        cases hmem
      simp only [List.length_append, List.length_take]
      omega
    · have heq := congrArg List.reverse heq
      rw [List.reverse_reverse, List.reverse_append, List.reverse_cons] at heq
      rw [List.append_assoc]
      conv_lhs => rw [← List.take_append_drop head p, heq]
      simp
  · exact .inl hmem

theorem trimEnd_slash {b : List Char} (hname : IsName name) (hhead : head ≤ b.length) :
    trimEnd head (b ++ '/' :: name) = b ++ '/' :: name := by
  rw [trimEnd, dif_pos, (lastPiece_of_slash hname.notMem hhead).1, hname.component?]
  simp only [List.length_append, List.length_cons]
  omega

/-- A piece that gives no component leads nowhere else. -/
theorem descend_of_component?_eq_none {piece : List Char} (h : component? piece = none)
    (l : Location) : l.descend piece = l := by
  unfold component? at h
  split at h
  next hpiece => exact if_pos hpiece
  next => split at h <;> cases h

theorem pieceOf_slash (b rest : List Char) : pieceOf (b ++ '/' :: rest) = pieceOf b := by
  induction b with
  | nil => simp [pieceOf]
  | cons c b ih =>
      unfold pieceOf at ih ⊢
      rw [List.cons_append, List.takeWhile_cons, List.takeWhile_cons, ih]

theorem walk_concat_of_none {l : Location} {pieces : List (List Char)} {piece : List Char}
    (hpiece : component? piece = none) (h : w.walk l (pieces ++ [piece]) = .ok r) :
    w.walk l pieces = .ok r ∧ w.IsDirectory r := by
  rw [walk_append] at h
  obtain ⟨m, hm, hlast⟩ := bind_eq_ok.mp h
  obtain ⟨hdir, -, hr⟩ := walk_eq_ok_iff.mp hlast
  rw [descend_of_component?_eq_none hpiece] at hr
  cases hr
  exact ⟨hm, hdir⟩

/-- A path that starts with a dot as its first piece goes on after a slash, if at all. -/
theorem eq_nil_of_startsHere {c : Char} {rest : List Char} (hdot : startsHere (c :: rest))
    (hrest : '/' ∉ rest) : rest = [] := by
  have hpiece : pieceOf (c :: rest) = ['.'] := eq_of_beq hdot
  rw [pieceOf, List.takeWhile_cons] at hpiece
  split at hpiece
  next =>
    obtain ⟨-, hnil⟩ := List.cons.inj hpiece
    rwa [List.takeWhile_eq_self_iff.mpr] at hnil
    intro d hd
    rw [decide_eq_true_iff]
    rintro rfl
    exact hrest hd
  next => cases hpiece

/-- A last piece that is no component leads no further than the root before it. -/
theorem walk_root_of_none {rest : List Char} (hrest : '/' ∉ rest) (hnone : component? rest = none)
    (hwalk : w.walk (Location.startOf ('/' :: rest)) (Text.splitOn '/' ('/' :: rest)) = .ok r) :
    w.walk (Location.startOf ['/']) (Text.splitOn '/' ['/']) = .ok r := by
  have hsplit := Text.splitOn_append '/' [] rest
  rw [Text.splitOn_of_notMem hrest, List.nil_append] at hsplit
  rw [hsplit] at hwalk
  obtain ⟨hfirst, hdir⟩ := walk_concat_of_none hnone hwalk
  show w.walk _ ([[]] ++ [[]]) = _
  rw [walk_append]
  exact bind_eq_ok.mpr ⟨r, hfirst, walk_eq_ok_iff.mpr ⟨hdir, .inl rfl, rfl⟩⟩

/-- Where the head of a path is followed by no component, the head leads there alone. -/
theorem walk_take_head (hhead : head = 0 ∨ head = 1 ∧ (p.head? = some '/' ∨ startsHere p))
    (hlt : head < p.length) (hnot : '/' ∉ p.drop head) (hnone : component? (p.drop head) = none)
    (hwalk : w.walk (Location.startOf p) (Text.splitOn '/' p) = .ok r) :
    p.take head = [] ∧ w.IsDirectory r ∨
      w.walk (Location.startOf (p.take head)) (Text.splitOn '/' (p.take head)) = .ok r := by
  rcases hhead with rfl | ⟨rfl, hhead⟩
  · rw [List.drop_zero] at hnone hnot
    rw [Text.splitOn_of_notMem hnot, ← List.nil_append [p]] at hwalk
    exact .inl ⟨rfl, (walk_concat_of_none hnone hwalk).2⟩
  · obtain ⟨c, rest, rfl⟩ := List.exists_cons_of_length_pos (Nat.lt_of_succ_lt hlt)
    rcases hhead with hslash | hdot
    · obtain rfl : c = '/' := by simpa using hslash
      exact .inr (walk_root_of_none hnot hnone hwalk)
    · simp [eq_nil_of_startsHere hdot hnot] at hlt

/-- What is left out at the end leads nowhere else. -/
theorem walk_trimEnd (hhead : head = 0 ∨ head = 1 ∧ (p.head? = some '/' ∨ startsHere p))
    (hwalk : w.walk (Location.startOf p) (Text.splitOn '/' p) = .ok r) :
    trimEnd head p = [] ∧ w.IsDirectory r ∨
      w.walk (Location.startOf (trimEnd head p)) (Text.splitOn '/' (trimEnd head p)) = .ok r := by
  fun_induction trimEnd head p with
  | case1 | case3 => exact .inr hwalk
  | case2 p hlt hnone ih =>
      rcases exists_last_slash head p with hnot | ⟨b, piece, hpiece, hle, rfl⟩
      · -- nothing but the head is left, which ends the recursion
        obtain ⟨hlast, hbefore⟩ := lastPiece_of_notMem hnot (Nat.le_of_lt hlt)
        rw [hlast] at hnone
        rw [hbefore, trimEnd, dif_neg (by simp)]
        exact walk_take_head hhead hlt hnot hnone hwalk
      · obtain ⟨hlast, hbefore⟩ := lastPiece_of_slash hpiece hle
        rw [hlast] at hnone
        rw [hbefore] at ih ⊢
        rw [Text.splitOn_append, Text.splitOn_of_notMem hpiece] at hwalk
        obtain ⟨hwalk, hdir⟩ := walk_concat_of_none hnone hwalk
        cases b with
        | nil => exact .inl ⟨by rw [trimEnd, dif_neg (by simp)], hdir⟩
        | cons c b =>
            apply ih _ hwalk
            rw [startsHere, pieceOf_slash] at hhead
            exact hhead

theorem lastPiece_of_name (hname : IsName name) (hdrop : p.drop head = name) :
    lastPiece head p = name ∧ beforeLast head p = p.take head := by
  have hlt : head < p.length := by
    by_contra hle
    rw [List.drop_of_length_le (Nat.not_lt.mp hle)] at hdrop
    exact hname.ne_nil hdrop.symm
  have hnot : '/' ∉ p.drop head := by
    rw [hdrop]
    exact hname.notMem
  rw [← hdrop]
  exact lastPiece_of_notMem hnot (Nat.le_of_lt hlt)

/-- Above a name alone is what stands before it. -/
theorem parent?_of_name (hname : IsName name) (hdrop : p.drop (headLength p) = name) :
    parent? p = some (p.take (headLength p)) := by
  obtain ⟨hlast, hbefore⟩ := lastPiece_of_name hname hdrop
  have hlt : headLength p < p.length := by
    by_contra hle
    rw [List.drop_of_length_le (Nat.not_lt.mp hle)] at hdrop
    exact hname.ne_nil hdrop.symm
  have htrim : trimEnd (headLength p) p = p := by
    rw [trimEnd, dif_pos hlt, hlast, hname.component?]
  unfold parent?
  simp only
  rw [htrim, if_pos hlt, hbefore, trimEnd, dif_neg]
  rw [List.length_take]
  omega

theorem parent?_slash {b : List Char} (hname : IsName name) (hb : b ≠ []) :
    parent? (b ++ '/' :: name) = some (trimEnd (headLength (b ++ '/' :: name)) b) := by
  have hle : headLength (b ++ '/' :: name) ≤ b.length := by
    have hpos := List.length_pos_iff.mpr hb
    unfold headLength
    split <;> omega
  unfold parent?
  simp only
  rw [trimEnd_slash hname hle, (lastPiece_of_slash hname.notMem hle).2, if_pos]
  simp only [List.length_append, List.length_cons]
  omega

theorem headLength_slash {b : List Char} (hb : b ≠ []) (rest : List Char) :
    headLength (b ++ '/' :: rest) = 0 ∨ headLength (b ++ '/' :: rest) = 1 ∧
      (b.head? = some '/' ∨ startsHere b) := by
  obtain ⟨c, b, rfl⟩ := List.exists_cons_of_ne_nil hb
  unfold headLength
  split
  next h =>
    rw [startsHere, pieceOf_slash] at h
    exact .inr ⟨rfl, h⟩
  next => exact .inl rfl

end Path

namespace Workspace

open Lexicolor.Path

variable {base name sub : String} {cs : List Char} {d : Location} {bytes : ByteArray}
  {path : String}

/-- Where the path to a directory leads. -/
def enter (w : Workspace) (base : String) : Except OsError Location :=
  w.walk (Location.startOf base.toList) (heads base.toList)

theorem toList_join (base name : String) :
    (Layout.join base name).toList = join base.toList name.toList := String.toList_ofList ..

theorem enter_mono (hdirs : ∀ m, w.IsDirectory m → w'.IsDirectory m)
    (h : w.enter base = .ok d) : w'.enter base = .ok d :=
  walk_mono hdirs h

theorem walk_join (hname : IsName name.toList) (w : Workspace) (base : String) :
    w.walk (Location.startOf (Layout.join base name).toList)
      (Text.splitOn '/' (Layout.join base name).toList) =
        w.enter base >>= fun d => w.step d name.toList := by
  rw [toList_join, startOf_join hname, splitOn_join hname, walk_append]
  apply congrArg (w.enter base >>= ·)
  funext d
  rw [walk_cons]
  cases w.step d name.toList <;> rfl

/-- Without a fault the path of a file in a directory leads through the directory. -/
theorem locate_join (hname : IsName name.toList) (henter : w.enter base = .ok d) :
    w.locate (Layout.join base name) = match pathFault? (Layout.join base name).toList with
      | some e => .error e
      | none => w.step d name.toList := by
  rw [locate_eq, walk_join hname, henter]
  cases pathFault? (Layout.join base name).toList <;> rfl

theorem step_name (hname : IsName name.toList) (hdir : w.IsDirectory d) :
    w.step d name.toList = .ok (d.child name) := by
  have hdescend := hname.descend d
  rw [String.ofList_toList] at hdescend
  exact step_eq_ok_iff.mpr ⟨hdir, hname.fits, hdescend.symm⟩

theorem locate_join_eq_ok_iff (hname : IsName name.toList) {l : Location} :
    w.locate (Layout.join base name) = .ok l ↔
      pathFault? (Layout.join base name).toList = none ∧
        ∃ d, w.enter base = .ok d ∧ w.IsDirectory d ∧ l = d.child name := by
  rw [locate_eq_ok_iff, walk_join hname, bind_eq_ok]
  refine and_congr_right fun _ => exists_congr fun d => and_congr_right fun _ => ?_
  constructor
  · intro hstep
    have hdir := (step_eq_ok_iff.mp hstep).1
    rw [step_name hname hdir] at hstep
    cases hstep
    exact ⟨hdir, rfl⟩
  · rintro ⟨hdir, rfl⟩
    exact step_name hname hdir

theorem ofPath_join (hname : IsName name.toList) (base : String) :
    Location.ofPath (Layout.join base name) =
      ((heads base.toList).foldl Location.descend (Location.startOf base.toList)).child name := by
  rw [Location.ofPath, toList_join, startOf_join hname, splitOn_join hname, List.foldl_append]
  have hdescend := hname.descend ((heads base.toList).foldl Location.descend
    (Location.startOf base.toList))
  rw [String.ofList_toList] at hdescend
  exact hdescend

theorem ofPath_join_of_enter (hname : IsName name.toList) (henter : w.enter base = .ok d) :
    Location.ofPath (Layout.join base name) = d.child name := by
  rw [ofPath_join hname, ← foldl_descend_of_walk henter]

theorem exists_join_eq_append (hsub : IsName sub.toList) (base : String) :
    ∃ b, (Layout.join base sub).toList = b ++ sub.toList := by
  rw [toList_join]
  rcases join_cases hsub base.toList with ⟨-, heq⟩ | ⟨-, heq⟩ | ⟨b, -, heq, -, -⟩
  · exact ⟨[], heq⟩
  · exact ⟨['/'], heq⟩
  · exact ⟨b ++ ['/'], by rw [heq, List.append_assoc, List.singleton_append]⟩

/-- A path that ends in a name has no slash at its end. -/
theorem heads_join (hsub : IsName sub.toList) (base : String) :
    heads (Layout.join base sub).toList = Text.splitOn '/' (Layout.join base sub).toList := by
  obtain ⟨b, hb⟩ := exists_join_eq_append hsub base
  have hne : (Layout.join base sub).toList ≠ [] := by
    rw [hb]
    exact List.append_ne_nil_of_right_ne_nil b hsub.ne_nil
  have hlast : (Layout.join base sub).toList.getLast? ≠ some '/' := by
    rw [hb, List.getLast?_append_of_ne_nil b hsub.ne_nil]
    intro hslash
    exact hsub.notMem (List.mem_of_getLast? hslash)
  rw [heads, if_neg hne, if_neg hlast]

theorem enter_join (hsub : IsName sub.toList) (w : Workspace) (base : String) :
    w.enter (Layout.join base sub) = w.enter base >>= fun d => w.step d sub.toList := by
  rw [enter, heads_join hsub, walk_join hsub]

theorem enter_join_of_enter (hsub : IsName sub.toList) (henter : w.enter base = .ok d)
    (hdir : w.IsDirectory d) : w.enter (Layout.join base sub) = .ok (d.child sub) := by
  rw [enter_join hsub, henter]
  exact step_name hsub hdir

/-! ## Writing into a directory -/

/-- Makes a directory at a location, where there is none, for a path that leads there. -/
def settle (w : Workspace) (cs : List Char) (d : Location) : Workspace × Except OsError Unit :=
  if cs = [] then (w, .ok ())
  else match pathFault? cs with
    | some e => (w, .error e)
    | none => match w.entry? d with
      | none => (w.set d .directory, .ok ())
      | some .directory => (w, .ok ())
      | some (.file _) => (w, .error .alreadyExists)

theorem pathFault?_ne (hcs : cs ≠ []) : pathFault? cs ≠ some .notFound := by
  rw [pathFault?, if_neg hcs]
  split
  · nofun
  · split <;> nofun

theorem makeLast_of_fault {e : OsError} (hfault : pathFault? cs = some e) :
    w.makeDirectory (String.ofList cs) = .error e ∧ w.makeLast cs = (w, .error e) := by
  have hlocate : w.locate (String.ofList cs) = .error e := by
    rw [locate_eq, String.toList_ofList, hfault]
  have hmake : w.makeDirectory (String.ofList cs) = .error e := by
    rw [makeDirectory, hlocate]
    rfl
  have hdir : w.isDirectory (String.ofList cs) = false := by
    rw [isDirectory, find, hlocate]
    rfl
  exact ⟨hmake, by rw [makeLast_of_error hmake, hdir]; rfl⟩

theorem makeDirectories_of_walk
    (hwalk : cs = [] ∨ w.walk (Location.startOf cs) (Text.splitOn '/' cs) = .ok d) :
    w.makeDirectories cs = w.settle cs d := by
  by_cases hcs : cs = []
  · rw [settle, if_pos hcs, hcs]
    exact Makes.here.eq
  rw [settle, if_neg hcs]
  -- where the path leads, no directory above it is missing, so it is made at once
  have honce {result : Workspace × Except OsError Unit}
      (hfound : w.makeDirectory (String.ofList cs) ≠ .error .notFound)
      (hlast : w.makeLast cs = result) : w.makeDirectories cs = result :=
    hlast ▸ (Makes.once hcs hfound).eq
  cases hfault : pathFault? cs with
  | some e =>
      obtain ⟨hmake, hlast⟩ := makeLast_of_fault (w := w) hfault
      refine honce (fun hmissing => pathFault?_ne hcs ?_) hlast
      rw [hfault, Except.error.inj (hmake.symm.trans hmissing)]
  | none =>
      have hlocate : w.locate (String.ofList cs) = .ok d := by
        rw [locate_eq, String.toList_ofList, hfault]
        exact hwalk.resolve_left hcs
      cases hentry : w.entry? d with
      | none =>
          have hmake := makeDirectory_eq_ok_iff.mpr ⟨d, hlocate, hentry, rfl⟩
          exact honce (by simp [hmake]) (makeLast_of_ok hmake)
      | some entry =>
          have hmake : w.makeDirectory (String.ofList cs) = .error .alreadyExists := by
            rw [makeDirectory, hlocate]
            simp only [bind, Except.bind, hentry]
          apply honce (by simp [hmake])
          rw [makeLast_of_error hmake]
          cases entry with
          | directory => rw [if_pos (isDirectory_iff.mpr ⟨d, hlocate, hentry⟩)]
          | file bytes =>
              rw [isDirectory, find_eq_ok_iff.mpr ⟨hlocate, hentry⟩]
              rfl

/-- The directory above a file is the one that the path leads through. -/
theorem walk_parentOf (hname : IsName name.toList) (henter : w.enter base = .ok d) :
    parentOf (Layout.join base name) = [] ∧ w.IsDirectory d ∨
      w.walk (Location.startOf (parentOf (Layout.join base name)))
        (Text.splitOn '/' (parentOf (Layout.join base name))) = .ok d := by
  rw [enter] at henter
  rw [parentOf, toList_join]
  rcases join_cases hname base.toList with ⟨hbase, heq⟩ | ⟨hbase, heq⟩ | ⟨b, hb, heq, hheads, hhead⟩
  · obtain rfl : base = "" := String.toList_eq_nil_iff.mp hbase
    cases henter
    have hhead : headLength name.toList = 0 := if_neg (not_or.mpr ⟨hname.head?_ne, hname.startsHere⟩)
    rw [heq, parent?_of_name hname (by rw [hhead, List.drop_zero]), hhead]
    exact .inl ⟨rfl, rfl⟩
  · rw [heq, parent?_of_name hname rfl]
    rw [hbase] at henter
    cases henter
    exact .inr rfl
  · rw [heq, parent?_slash hname hb, Option.getD_some]
    apply walk_trimEnd (headLength_slash hb name.toList)
    rw [← hheads, Location.startOf, hhead]
    exact henter

theorem isDirectory_of_parentOf_eq_nil (hname : IsName name.toList) (henter : w.enter base = .ok d)
    (hparent : parentOf (Layout.join base name) = []) : w.IsDirectory d := by
  rcases walk_parentOf hname henter with ⟨-, hdir⟩ | hwalk
  · exact hdir
  · rw [hparent] at hwalk
    cases hwalk
    rfl

variable {m : Workspace} {e : OsError} {sites places : Location → Prop}

/-- After its directory is settled, only a directory may be new. -/
theorem entry?_of_settle (hcs : cs = [] → w.IsDirectory d) (h : w.settle cs d = (m, .ok ()))
    (l : Location) : m.entry? l = if l = d then some .directory else w.entry? l := by
  have hkept (hdir : w.IsDirectory d) :
      w.entry? l = if l = d then some .directory else w.entry? l := by
    split
    next heq =>
      rw [heq]
      exact hdir
    next => rfl
  unfold settle at h
  split at h
  next hnil =>
    cases h
    exact hkept (hcs hnil)
  next =>
    split at h
    next => cases h
    next =>
      split at h
      next hnone =>
        cases h
        have hnames := names_ne_nil (not_isDirectory_of_eq_none hnone)
        rw [entry?_set]
        simp only [hnames, ne_eq, not_false_eq_true, and_true, eq_comm]
      next hdir =>
        cases h
        exact hkept hdir
      next => cases h

theorem grows_settle (hsite : sites d) (w : Workspace) (cs : List Char) :
    Grows sites places w (w.settle cs d).1 := by
  unfold settle
  split
  next => exact Grows.refl sites places w
  next =>
    split
    next => exact Grows.refl sites places w
    next =>
      split
      next hnone => exact grows_set_directory hsite hnone
      next => exact Grows.refl sites places w
      next => exact Grows.refl sites places w

/-- Whether a directory can be settled is the same where it is there already. -/
theorem settle_snd_eq (h : w.entry? d = w'.entry? d ∨ w.entry? d = none ∧ w'.IsDirectory d)
    (cs : List Char) : (w.settle cs d).2 = (w'.settle cs d).2 := by
  unfold settle
  split
  next => rfl
  next =>
    cases pathFault? cs with
    | some e => rfl
    | none =>
        rcases h with heq | ⟨hnone, hdir⟩
        · rw [← heq]
          cases w.entry? d with
          | none => rfl
          | some entry => cases entry <;> rfl
        · rw [hnone, hdir]

/-- Writes a file at a location whose directory exists, for a path that leads there. -/
def put (w : Workspace) (path : String) (l : Location) (bytes : ByteArray) :
    Workspace × Except OsError Unit :=
  match pathFault? path.toList with
  | some e => (w, .error e)
  | none => match w.entry? l with
    | some .directory => (w, .error .isDirectory)
    | _ => (w.set l (.file bytes), .ok ())

theorem put_eq_error {l : Location} (h : w.put path l bytes = (m, .error e)) : m = w := by
  unfold put at h
  split at h
  next => cases h; rfl
  next => split at h <;> cases h; rfl

theorem put_eq_ok {l : Location} (h : w.put path l bytes = (m, .ok ())) :
    ¬w.IsDirectory l ∧ m = w.set l (.file bytes) := by
  unfold put at h
  split at h
  next => cases h
  next =>
    split at h
    next => cases h
    next hdir =>
      cases h
      exact ⟨hdir, rfl⟩

theorem grows_put {l : Location} (hplace : places l) (w : Workspace) (path : String)
    (bytes : ByteArray) : Grows sites places w (w.put path l bytes).1 := by
  cases hput : w.put path l bytes with
  | mk m result =>
      cases result with
      | error e => exact put_eq_error hput ▸ Grows.refl sites places w
      | ok _ =>
          obtain ⟨hdir, rfl⟩ := put_eq_ok hput
          exact grows_set_file hplace hdir bytes

/-- Whether a file can be put depends on whether a directory is there. -/
theorem put_snd_eq {l : Location} (h : w.IsDirectory l ↔ w'.IsDirectory l) (path : String)
    (bytes : ByteArray) : (w.put path l bytes).2 = (w'.put path l bytes).2 := by
  simp only [IsDirectory] at h
  unfold put
  cases pathFault? path.toList with
  | some e => rfl
  | none =>
      cases hentry : w.entry? l with
      | none => cases hentry' : w'.entry? l with
        | none => rfl
        | some entry' => cases entry' <;> simp_all
      | some entry => cases hentry' : w'.entry? l with
        | none => cases entry <;> simp_all
        | some entry' => cases entry <;> cases entry' <;> simp_all

/-- Writing a file settles the directory that its path leads through and puts the file there. -/
theorem writeBelow_join (hname : IsName name.toList) (henter : w.enter base = .ok d)
    (bytes : ByteArray) :
    w.writeBelow (Layout.join base name) bytes =
      match w.settle (parentOf (Layout.join base name)) d with
      | (made, .error e) => (made, .error e)
      | (made, .ok ()) => made.put (Layout.join base name) (d.child name) bytes := by
  have hparent := walk_parentOf hname henter
  rw [writeBelow_eq, makeDirectories_of_walk (hparent.imp_left And.left)]
  cases hsettle : w.settle (parentOf (Layout.join base name)) d with
  | mk made result =>
      cases result with
      | error e => rfl
      | ok _ =>
          -- the directory is there now, so the path leads to the file
          have hdir : made.IsDirectory d := by
            rw [IsDirectory, entry?_of_settle (isDirectory_of_parentOf_eq_nil hname henter) hsettle,
              if_pos rfl]
          have hgrows : Grows Anywhere Anywhere w made := by
            have h : Grows Anywhere Anywhere w (w.settle (parentOf (Layout.join base name)) d).1 :=
              grows_settle trivial w (parentOf (Layout.join base name))
            rw [hsettle] at h
            exact h
          have hlocate := locate_join hname (enter_mono (fun _ => hgrows.isDirectory) henter)
          rw [step_name hname hdir] at hlocate
          simp only [write, put, hlocate]
          cases pathFault? (Layout.join base name).toList with
          | some e => rfl
          | none =>
              simp only [bind, Except.bind]
              cases made.entry? (d.child name) with
              | none => rfl
              | some entry => cases entry <;> rfl

theorem child_ne (d : Location) (name : String) : d.child name ≠ d := by
  intro heq
  have hlength := congrArg (fun l => l.names.length) heq
  simp [Location.child] at hlength

/-- After a file is written, it is there and so is its directory; all else is as before. -/
theorem entry?_of_writeBelow_join (hname : IsName name.toList) (henter : w.enter base = .ok d)
    (h : w.writeBelow (Layout.join base name) bytes = (m, .ok ())) (l : Location) :
    m.entry? l = if l = d.child name then some (.file bytes)
      else if l = d then some .directory else w.entry? l := by
  rw [writeBelow_join hname henter] at h
  cases hsettle : w.settle (parentOf (Layout.join base name)) d with
  | mk made result =>
      rw [hsettle] at h
      cases result with
      | error e => cases h
      | ok _ =>
          have hmade := entry?_of_settle (isDirectory_of_parentOf_eq_nil hname henter) hsettle l
          obtain ⟨-, rfl⟩ := put_eq_ok h
          have hnames : (d.child name).names ≠ [] := by simp [Location.child]
          rw [entry?_set, hmade]
          simp only [hnames, ne_eq, not_false_eq_true, and_true, eq_comm]

/-- Whether a file can be written depends on its directory and on whether it is one itself. -/
theorem writeBelow_join_snd_eq (hname : IsName name.toList) (henter : w.enter base = .ok d)
    (henter' : w'.enter base = .ok d)
    (hd : w.entry? d = w'.entry? d ∨ w.entry? d = none ∧ w'.IsDirectory d)
    (hl : w.IsDirectory (d.child name) ↔ w'.IsDirectory (d.child name)) (bytes : ByteArray) :
    (w.writeBelow (Layout.join base name) bytes).2 =
      (w'.writeBelow (Layout.join base name) bytes).2 := by
  have hsettle := settle_snd_eq hd (parentOf (Layout.join base name))
  rw [writeBelow_join hname henter, writeBelow_join hname henter']
  cases hw : w.settle (parentOf (Layout.join base name)) d with
  | mk made result => cases hw' : w'.settle (parentOf (Layout.join base name)) d with
    | mk made' result' =>
        rw [hw, hw'] at hsettle
        obtain rfl : result = result' := hsettle
        cases result with
        | error e => rfl
        | ok _ =>
            apply put_snd_eq
            have hkept {v m : Workspace} (henter : v.enter base = .ok d)
                (h : v.settle (parentOf (Layout.join base name)) d = (m, .ok ())) :
                m.IsDirectory (d.child name) ↔ v.IsDirectory (d.child name) := by
              rw [IsDirectory, IsDirectory,
                entry?_of_settle (isDirectory_of_parentOf_eq_nil hname henter) h,
                if_neg (child_ne d name)]
            rw [hkept henter hw, hkept henter' hw']
            exact hl

/-- Writing a file creates no directory but its own. -/
theorem grows_writeBelow_join (hname : IsName name.toList) (henter : w.enter base = .ok d)
    (bytes : ByteArray) :
    Grows (· = d) (· = .ofPath (Layout.join base name)) w
      (w.writeBelow (Layout.join base name) bytes).1 := by
  have hmade : Grows (· = d) (· = .ofPath (Layout.join base name)) w
      (w.settle (parentOf (Layout.join base name)) d).1 := by
    apply grows_settle
    rfl
  rw [writeBelow_join hname henter]
  cases hsettle : w.settle (parentOf (Layout.join base name)) d with
  | mk made result =>
      rw [hsettle] at hmade
      cases result with
      | error e => exact hmade
      | ok _ =>
          apply hmade.trans
          apply grows_put
          exact (ofPath_join_of_enter hname henter).symm

end Workspace

end Lexicolor
