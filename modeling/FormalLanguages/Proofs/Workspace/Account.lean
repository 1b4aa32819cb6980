/-
# What is kept can be read, and is counted

In a sound workspace the element of every holder is stored, so it can be read, and every stored
element has as many references as holders.  The workspaces that a run reaches from empty grammars or
from new automata are sound.
-/

import FormalLanguages.Proofs.Automaton
import FormalLanguages.Proofs.Grammar
import FormalLanguages.Proofs.Workspace.Step

namespace FormalLanguages.Workspace

variable {C α P E : Type} [Container C α P E]

/-- The number of references to the element of a handle. -/
def references (workspace : Workspace C P) (handle : Handle) : Except Fault Nat := do
  (Container.graph (← workspace.container handle.container)).store.references handle.key

theorem read_eq {workspace : Workspace C P} {handle : Handle} {entry : Entry α}
    (hentry : entryAt workspace.containers handle = some entry) :
    workspace.read handle = .ok entry.toElement := by
  obtain ⟨container, hcontainer, hstored⟩ := entryAt_eq_some_iff.mp hentry
  simp only [read, Workspace.container, containerAt_eq hcontainer, ok_bind]
  exact Graph.element_of_stored hstored

theorem entryAt_of_references {workspace : Workspace C P} {handle : Handle} {count : Nat}
    (hcount : workspace.references handle = .ok count) :
    ∃ entry, entryAt workspace.containers handle = some entry ∧ entry.references = count := by
  rcases workspace.container_eq handle.container with ⟨container, hcontainer, heq⟩ | heq
  · simp only [references, heq, ok_bind] at hcount
    cases hcell : (Container.graph container).store.cell handle.key with
    | error fault => simp [Store.references, hcell] at hcount
    | ok cell =>
        rw [Store.references_eq (Store.cell_eq_ok_iff.mp hcell)] at hcount
        refine ⟨cell.entry, entryAt_eq_some_iff.mpr ⟨container, hcontainer, ?_⟩,
          Except.ok.inj hcount⟩
        exact Graph.stored?_eq_some_iff.mpr ⟨cell, Store.cell_eq_ok_iff.mp hcell, rfl⟩
  · simp [references, heq] at hcount

variable [LawfulContainer C α P E] {workspace : Workspace C P}

namespace Sound

variable (hsound : workspace.Sound)

include hsound

/-- Every stored element has as many references as holders. -/
theorem references_eq {handle : Handle} {count : Nat}
    (hcount : workspace.references handle = .ok count) :
    count = workspace.holders.count handle := by
  obtain ⟨entry, hentry, rfl⟩ := entryAt_of_references hcount
  exact hsound.owed.counted handle entry hentry

/-- Every holder's element can be read. -/
theorem exists_read {handle : Handle} (hhandle : handle ∈ workspace.holders) :
    ∃ element, workspace.read handle = .ok element := by
  obtain ⟨entry, hentry⟩ := hsound.owed.readable handle hhandle
  exact ⟨entry.toElement, read_eq hentry⟩

end Sound

section Reached

variable {A : Type} [DecidableEq A] (count : Nat)

/-- Whatever is done to grammars, the workspace is sound. -/
theorem sound_grammars (commands : List (Command Grammar.Pattern (Grammar.Edit A))) :
    (reached (Grammar.empty : Grammar A) count commands).Sound :=
  sound_reached Grammar.sound_empty Grammar.stored?_empty count commands

/-- Whatever is done to automata, the workspace is sound. -/
theorem sound_automata (commands : List (Command Automaton.Pattern (Automaton.Edit A))) :
    (reached (Automaton.initial : Automaton A) count commands).Sound :=
  sound_reached Automaton.sound_initial Automaton.stored?_initial count commands

end Reached

end FormalLanguages.Workspace
