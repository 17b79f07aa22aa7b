import Mathlib
import Lexicolor.Command.Action
import Lexicolor.Proofs.Workspace.Walk

/-!
# Runs of actions

What a successful run of an action did is told step by step: a sequence of
actions succeeds if each of them does, and reading leaves a session's workspace
as it is. What an action does to a workspace, whether it succeeds or not, is a
relation between workspaces that each of its writes keeps to.
-/

namespace Lexicolor

theorem Text.fromUTF8?_eq_some_iff {bytes : ByteArray} {text : String} :
    String.fromUTF8? bytes = some text ↔ bytes = text.toUTF8 := by
  unfold String.fromUTF8?
  constructor
  · intro h
    split at h
    next hvalid =>
      cases h
      rfl
    next => cases h
  · rintro rfl
    exact dif_pos text.isValidUTF8

namespace Action

variable {α β ε : Type} {s s' : Session} {a : Action α} {f : α → Action β} {x : α} {path : String}
variable {bytes : ByteArray} {text : String}

/-! ## Successful runs -/

theorem bind_of_ok (h : a s = (.ok x, s')) : (a >>= f) s = f x s' := by
  change StateT.bind a (ExceptT.bindCont f) s = f x s'
  rw [StateT.bind, h]
  rfl

theorem bind_of_error {failure : Failure} (h : a s = (.error failure, s')) :
    (a >>= f) s = (.error failure, s') := by
  change StateT.bind a (ExceptT.bindCont f) s = (.error failure, s')
  rw [StateT.bind, h]
  rfl

theorem bind_eq_ok_iff {y : β} : (a >>= f) s = (.ok y, s') ↔
    ∃ x m, a s = (.ok x, m) ∧ f x m = (.ok y, s') := by
  cases hrun : a s with
  | mk result m => cases result with
    | error failure =>
        rw [bind_of_error hrun]
        constructor
        · intro h
          cases h
        · rintro ⟨x, m', h, -⟩
          cases h
    | ok x =>
        rw [bind_of_ok hrun]
        constructor
        · intro h
          exact ⟨x, m, rfl, h⟩
        · rintro ⟨x', m', hx, h⟩
          cases hx
          exact h

/-- A sequence fails with its first action, or after it. -/
theorem bind_eq_error_iff {failure : Failure} : (a >>= f) s = (.error failure, s') ↔
    a s = (.error failure, s') ∨ ∃ x m, a s = (.ok x, m) ∧ f x m = (.error failure, s') := by
  cases hrun : a s with
  | mk result m => cases result with
    | error e =>
        rw [bind_of_error hrun]
        constructor
        · intro h
          cases h
          exact .inl rfl
        · rintro (h | ⟨x, m', h, -⟩) <;> cases h
          rfl
    | ok x =>
        rw [bind_of_ok hrun]
        constructor
        · intro h
          exact .inr ⟨x, m, rfl, h⟩
        · rintro (h | ⟨x', m', hx, h⟩)
          · cases h
          · cases hx
            exact h

theorem within_eq_ok_iff {context : String} : within context a s = (.ok x, s') ↔
    a s = (.ok x, s') := by
  unfold within
  rcases a s with ⟨result, m⟩
  cases result with
  | error failure => exact ⟨nofun, nofun⟩
  | ok x => rfl

theorem orFail_apply (cause : ε → Cause) (result : Except ε α) (s : Session) :
    orFail cause result s = (result.mapError fun e => .of (cause e), s) := by
  cases result <;> rfl

theorem orFail_eq_ok_iff {cause : ε → Cause} {result : Except ε α} :
    orFail cause result s = (.ok x, s') ↔ result = .ok x ∧ s' = s := by
  rw [orFail_apply]
  cases result with
  | error e => exact ⟨nofun, nofun⟩
  | ok y =>
      constructor
      · intro h
        cases h
        exact ⟨rfl, rfl⟩
      · rintro ⟨heq, rfl⟩
        cases heq
        rfl

theorem within_orFail_of_ok {context : String} {cause : ε → Cause} {result : Except ε α}
    (h : result = .ok x) : within context (orFail cause result) s = (.ok x, s) :=
  within_eq_ok_iff.mpr (orFail_eq_ok_iff.mpr ⟨h, rfl⟩)

theorem pathExists_apply (path : String) (s : Session) :
    pathExists path s = (.ok (s.workspace.pathExists path), s) := rfl

theorem readBytes_apply (path : String) (s : Session) :
    readBytes path s = within ("Reading " ++ path) (orFail .os (s.workspace.read path)) s := rfl

theorem readBytes_eq_ok_iff : readBytes path s = (.ok bytes, s') ↔
    s.workspace.read path = .ok bytes ∧ s' = s := by
  rw [readBytes_apply, within_eq_ok_iff, orFail_eq_ok_iff]

theorem readText_eq_ok_iff : readText path s = (.ok text, s') ↔
    s.workspace.read path = .ok text.toUTF8 ∧ s' = s := by
  unfold readText
  simp only [bind_eq_ok_iff, readBytes_eq_ok_iff]
  constructor
  · rintro ⟨bytes, m, ⟨hread, rfl⟩, h⟩
    cases hdecode : String.fromUTF8? bytes with
    | some decoded =>
        rw [hdecode] at h
        cases h
        rw [← Text.fromUTF8?_eq_some_iff.mp hdecode]
        exact ⟨hread, rfl⟩
    | none =>
        rw [hdecode] at h
        cases h
  · rintro ⟨hread, rfl⟩
    refine ⟨text.toUTF8, s', ⟨hread, rfl⟩, ?_⟩
    rw [Text.fromUTF8?_eq_some_iff.mpr rfl]
    rfl

/-- Where a source is read, only a notice is new. -/
theorem readSource_eq_ok (h : readSource path s = (.ok text, s')) :
    ∃ bytes, s.workspace.read path = .ok bytes ∧ text = Text.decodeLossy bytes ∧
      s'.workspace = s.workspace := by
  unfold readSource at h
  obtain ⟨found, m, hfound, h⟩ := bind_eq_ok_iff.mp h
  rw [pathExists_apply] at hfound
  cases hfound
  split at h
  next =>
    obtain ⟨bytes, m, hbytes, hrest⟩ := bind_eq_ok_iff.mp h
    obtain ⟨hread, rfl⟩ := readBytes_eq_ok_iff.mp hbytes
    obtain ⟨_, m', hnotice, hpure⟩ := bind_eq_ok_iff.mp hrest
    cases hnotice
    cases hpure
    exact ⟨bytes, hread, rfl, rfl⟩
  next => cases h

theorem readSource_of_read (h : s.workspace.read path = .ok bytes) :
    ∃ s', readSource path s = (.ok (Text.decodeLossy bytes), s') ∧ s'.workspace = s.workspace := by
  refine ⟨{ s with notices := s.notices ++ [.sourceRead path bytes.size] }, ?_, rfl⟩
  unfold readSource
  refine bind_eq_ok_iff.mpr ⟨true, s, ?_, ?_⟩
  · rw [pathExists_apply, Workspace.pathExists_of_read h]
  · exact bind_eq_ok_iff.mpr ⟨bytes, s, readBytes_eq_ok_iff.mpr ⟨h, rfl⟩, rfl⟩

theorem readSource_of_missing (h : s.workspace.pathExists path = false) :
    readSource path s = (.error (.of (.missing path)), s) := by
  have hmissing : pathExists path s = (.ok false, s) := by
    rw [pathExists_apply, h]
  unfold readSource
  rw [bind_of_ok hmissing]
  rfl

theorem readJson_eq_ok_iff {dialect : Json.Dialect} {decoder : Json.Decoder α} :
    readJson dialect decoder path s = (.ok x, s') ↔
      (∃ text : String, s.workspace.read path = .ok text.toUTF8 ∧
        decoder.read dialect text = .ok x) ∧ s' = s := by
  unfold readJson
  simp only [bind_eq_ok_iff, readText_eq_ok_iff, within_eq_ok_iff, orFail_eq_ok_iff]
  constructor
  · rintro ⟨text, m, ⟨hread, rfl⟩, hvalue, rfl⟩
    exact ⟨⟨text, hread, hvalue⟩, rfl⟩
  · rintro ⟨⟨text, hread, hvalue⟩, rfl⟩
    exact ⟨text, s', ⟨hread, rfl⟩, hvalue, rfl⟩

theorem readJson_of_read {dialect : Json.Dialect} {decoder : Json.Decoder α}
    (hread : s.workspace.read path = .ok text.toUTF8) (hvalue : decoder.read dialect text = .ok x) :
    readJson dialect decoder path s = (.ok x, s) :=
  readJson_eq_ok_iff.mpr ⟨⟨text, hread, hvalue⟩, rfl⟩

theorem toUTF8_inj {text' : String} (h : text.toUTF8 = text'.toUTF8) : text = text' :=
  Option.some.inj ((Text.fromUTF8?_eq_some_iff.mpr rfl).symm.trans
    (Text.fromUTF8?_eq_some_iff.mpr h))

/-- The text of a file decides what reading the file gives. -/
theorem decoder_of_readJson {dialect : Json.Dialect} {decoder : Json.Decoder α}
    (hread : s.workspace.read path = .ok text.toUTF8)
    (h : readJson dialect decoder path s = (.ok x, s')) :
    decoder.read dialect text = .ok x ∧ s' = s := by
  obtain ⟨⟨found, hfound, hvalue⟩, rfl⟩ := readJson_eq_ok_iff.mp h
  rw [hread] at hfound
  rw [toUTF8_inj (Except.ok.inj hfound)]
  exact ⟨hvalue, rfl⟩

/-- A table that is there is not taken to be empty. -/
theorem decoder_of_readTable {decoder : Json.Decoder α} {empty : α}
    (hread : s.workspace.read path = .ok text.toUTF8)
    (h : readTable decoder empty path s = (.ok x, s')) :
    decoder.read .standard text = .ok x ∧ s' = s := by
  obtain ⟨found, m, hfound, hrest⟩ := bind_eq_ok_iff.mp h
  rw [pathExists_apply] at hfound
  cases hfound
  rw [if_pos (Workspace.pathExists_of_read hread)] at hrest
  exact decoder_of_readJson hread hrest

theorem readTable_of_read {decoder : Json.Decoder α} {empty : α}
    (hread : s.workspace.read path = .ok text.toUTF8) (hvalue : decoder.read .standard text = .ok x) :
    readTable decoder empty path s = (.ok x, s) := by
  have hfound : pathExists path s = (.ok true, s) := by
    rw [pathExists_apply, Workspace.pathExists_of_read hread]
  unfold readTable
  rw [bind_of_ok hfound, if_pos rfl]
  exact readJson_of_read hread hvalue

theorem write_apply (path text : String) (s : Session) : write path text s =
    within ("Writing " ++ path) (orFail .os (s.workspace.writeBelow path text.toUTF8).2)
      { s with workspace := (s.workspace.writeBelow path text.toUTF8).1 } := rfl

theorem write_eq_ok_iff : write path text s = (.ok (), s') ↔
    ∃ w, s.workspace.writeBelow path text.toUTF8 = (w, .ok ()) ∧ s' = { s with workspace := w } := by
  rw [write_apply, within_eq_ok_iff, orFail_eq_ok_iff]
  rcases s.workspace.writeBelow path text.toUTF8 with ⟨w, result⟩
  constructor
  · rintro ⟨rfl, rfl⟩
    exact ⟨w, rfl, rfl⟩
  · rintro ⟨w', heq, rfl⟩
    cases heq
    exact ⟨rfl, rfl⟩

/-! ## What actions do to a workspace -/

/-- The action takes every workspace to one in the relation, also where it fails. -/
structure Along (R : Workspace → Workspace → Prop) (a : Action α) : Prop where
  run : ∀ s, R s.workspace (a s).2.workspace

/-- The action leaves every workspace as it is. -/
abbrev Quiet (a : Action α) : Prop := Along Eq a

namespace Along

variable {R R' : Workspace → Workspace → Prop}

theorem mono (h : Along R a) (hle : ∀ w w', R w w' → R' w w') : Along R' a :=
  ⟨fun s => hle _ _ (h.run s)⟩

theorem within (h : Along R a) (context : String) : Along R (Action.within context a) := by
  constructor
  intro s
  have hrun := h.run s
  unfold Action.within
  cases h : a s with
  | mk result m =>
      rw [h] at hrun
      cases result <;> exact hrun

theorem attempt (h : Along R a) : Along R (Action.attempt a) := by
  constructor
  intro s
  have hrun := h.run s
  unfold Action.attempt
  cases h : a s with
  | mk result m =>
      rw [h] at hrun
      exact hrun

theorem ite {p : Prop} [Decidable p] {b : Action α} (ha : Along R a) (hb : Along R b) :
    Along R (if p then a else b) := by
  split
  · exact ha
  · exact hb

theorem write (h : ∀ w : Workspace, R w (w.writeBelow path text.toUTF8).1) :
    Along R (Action.write path text) := by
  constructor
  intro s
  rw [write_apply]
  unfold Action.within
  rw [orFail_apply]
  have hwrite := h s.workspace
  generalize s.workspace.writeBelow path text.toUTF8 = written at hwrite ⊢
  obtain ⟨w, _ | _⟩ := written <;> exact hwrite

variable [IsPreorder Workspace R]

theorem of_quiet (h : Quiet a) : Along R a := by
  constructor
  intro s
  rw [← h.run s]
  exact refl_of R s.workspace

protected theorem pure (x : α) : Along R (pure x : Action α) := ⟨fun s => refl_of R s.workspace⟩

protected theorem bind (ha : Along R a) (hf : ∀ x, Along R (f x)) : Along R (a >>= f) := by
  constructor
  intro s
  have hfirst := ha.run s
  cases h : a s with
  | mk result m =>
      rw [h] at hfirst
      cases result with
      | error failure =>
          rw [bind_of_error h]
          exact hfirst
      | ok x =>
          rw [bind_of_ok h]
          exact trans_of R hfirst ((hf x).run m)

/-- What is done first may leave the workspace as it is. -/
theorem quiet_bind (ha : Quiet a) (hf : ∀ x, Along R (f x)) : Along R (a >>= f) :=
  (of_quiet ha).bind hf

theorem forM {items : List β} {g : β → Action Unit} (h : ∀ item ∈ items, Along R (g item)) :
    Along R (items.forM g) := by
  induction items with
  | nil => exact Along.pure ()
  | cons item items ih =>
      apply Along.bind (h item List.mem_cons_self)
      intro _
      exact ih fun item hmem => h item (List.mem_cons_of_mem _ hmem)

end Along

/-! ## Reading -/

instance : IsPreorder Workspace Eq where
  refl := Eq.refl
  trans _ _ _ := Eq.trans

theorem quiet_orFail (cause : ε → Cause) (result : Except ε α) : Quiet (orFail cause result) := by
  constructor
  intro s
  rw [orFail_apply]

theorem quiet_fail (failure : Failure) : Quiet (fail failure : Action α) := ⟨fun _ => rfl⟩

theorem quiet_notice (n : Notice) : Quiet (notice n) := ⟨fun _ => rfl⟩

theorem quiet_report (r : Report) : Quiet (report r) := ⟨fun _ => rfl⟩

theorem quiet_pathExists (path : String) : Quiet (pathExists path) := ⟨fun _ => rfl⟩

theorem quiet_readBytes (path : String) : Quiet (readBytes path) := by
  constructor
  intro s
  rw [readBytes_apply]
  exact ((quiet_orFail Cause.os (s.workspace.read path)).within ("Reading " ++ path)).run s

theorem quiet_readText (path : String) : Quiet (readText path) := by
  apply Along.bind (quiet_readBytes path)
  intro bytes
  split
  · exact Along.pure _
  · exact quiet_fail _

theorem quiet_readSource (path : String) : Quiet (readSource path) := by
  apply Along.bind (quiet_pathExists path)
  intro found
  apply Along.ite
  · apply Along.bind (quiet_readBytes path)
    intro bytes
    exact Along.bind (quiet_notice _) fun _ => Along.pure _
  · exact quiet_fail _

theorem quiet_readJson (dialect : Json.Dialect) (decoder : Json.Decoder α) (path : String) :
    Quiet (readJson dialect decoder path) := by
  apply Along.bind (quiet_readText path)
  intro text
  exact (quiet_orFail Cause.json (decoder.read dialect text)).within ("Parsing " ++ path)

theorem quiet_readTable (decoder : Json.Decoder α) (empty : α) (path : String) :
    Quiet (readTable decoder empty path) := by
  apply Along.bind (quiet_pathExists path)
  intro found
  apply Along.ite
  · exact quiet_readJson .standard decoder path
  · exact Along.bind (quiet_notice _) fun _ => Along.pure empty

end Action

end Lexicolor
