import Mathlib
import Lexicolor.Proofs.Command.Actions
import Lexicolor.Proofs.Workspace.Layout

/-!
# Actions that read before they write

Where an action reads all that it needs before it writes, nothing but writing
can fail once the workspace has changed. So a failure of any other kind leaves
the workspace as it was.
-/

namespace Lexicolor

open Layout (File)
open Lexicolor.Workspace

/-- The failure to write a file. -/
def Failure.OfWriting (path : String) (failure : Failure) : Prop :=
  ∃ e, failure = ⟨["Writing " ++ path], .os e⟩

namespace Action

variable {α β : Type} {layout : Layout} {files : List File} {a : Action α} {f : α → Action β}

/-- The action writes some of the files, and nothing else in it can fail. -/
structure Emits (layout : Layout) (files : List File) (a : Action α) : Prop where
  along : Along (Writes layout files) a
  ofWriting : ∀ {s failure s'}, a s = (.error failure, s') →
    ∃ file ∈ files, failure.OfWriting (layout.path file)

/-- The action writes some of the files. Failing otherwise than in writing one of them, it leaves
the workspace as it was. -/
structure Atomic (layout : Layout) (files : List File) (a : Action α) : Prop where
  along : Along (Writes layout files) a
  unchanged : ∀ {s failure s'}, a s = (.error failure, s') →
    (∀ file ∈ files, ¬failure.OfWriting (layout.path file)) → s'.workspace = s.workspace

namespace Emits

theorem write (file : File) (hmem : file ∈ files) (text : String) :
    Emits layout files (Action.write (layout.path file) text) := by
  refine ⟨.write fun _ => .single ⟨file, hmem, _, rfl⟩, ?_⟩
  intro s failure s' h
  rw [write_apply] at h
  cases hresult : (s.workspace.writeBelow (layout.path file) text.toUTF8).2 with
  | ok =>
      rw [hresult] at h
      cases h
  | error e =>
      rw [hresult] at h
      cases h
      exact ⟨file, hmem, e, rfl⟩

theorem notice (n : Notice) : Emits layout files (Action.notice n) :=
  ⟨.of_quiet (quiet_notice n), nofun⟩

theorem report (r : Report) : Emits layout files (Action.report r) :=
  ⟨.of_quiet (quiet_report r), nofun⟩

protected theorem bind (ha : Emits layout files a) (hf : ∀ x, Emits layout files (f x)) :
    Emits layout files (a >>= f) := by
  refine ⟨ha.along.bind fun x => (hf x).along, ?_⟩
  intro s failure s' h
  rcases bind_eq_error_iff.mp h with h | ⟨x, m, -, h⟩
  · exact ha.ofWriting h
  · exact (hf x).ofWriting h

theorem atomic (h : Emits layout files a) : Atomic layout files a := by
  refine ⟨h.along, ?_⟩
  intro s failure s' hrun hother
  obtain ⟨file, hmem, hwriting⟩ := h.ofWriting hrun
  exact absurd hwriting (hother file hmem)

end Emits

namespace Atomic

theorem of_quiet (h : Quiet a) : Atomic layout files a := by
  refine ⟨.of_quiet h, ?_⟩
  intro s failure s' hrun _
  have hsame := h.run s
  rw [hrun] at hsame
  exact hsame.symm

/-- What is done first may leave the workspace as it is. -/
theorem quiet_bind (ha : Quiet a) (hf : ∀ x, Atomic layout files (f x)) :
    Atomic layout files (a >>= f) := by
  refine ⟨.quiet_bind ha fun x => (hf x).along, ?_⟩
  intro s failure s' h hother
  rcases bind_eq_error_iff.mp h with h | ⟨x, m, hfirst, h⟩
  · exact (of_quiet ha).unchanged h hother
  · have hsame := ha.run s
    rw [hfirst] at hsame
    exact ((hf x).unchanged h hother).trans hsame.symm

end Atomic

end Action

end Lexicolor
