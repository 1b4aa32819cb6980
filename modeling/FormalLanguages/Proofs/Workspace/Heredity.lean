/-
# What every step of a search keeps holds of all searches

A search that is kept in a workspace was new when it was stored, or it is what a rewinding or a step
has left of the search that was kept before.  So a property that new searches have, and that
rewinding and going on keep, is one of every search in every workspace that a run reaches.
-/

import FormalLanguages.Proofs.Search.Restart
import FormalLanguages.Proofs.Workspace.Writing

namespace FormalLanguages

namespace Workspace

variable {C α P E : Type} [Container C α P E] {workspace after : Workspace C P}
  {command : Command P E} {reply : Reply} {search : Search P} {holds : Search P → Prop}

/-- Every search that is kept has a property. -/
def Searches (holds : Search P → Prop) (workspace : Workspace C P) : Prop :=
  ∀ name search, workspace.searches.get? name = some search → holds search

/-- The search that a command finds under a name has the property. -/
theorem Searches.of_register (hsearches : workspace.Searches holds) {name : String}
    (hregister : register workspace.searches name = .ok search) : holds search := by
  rcases register_eq workspace.searches name with ⟨found, hfound, heq⟩ | heq
  · cases hregister.symm.trans heq
    exact hsearches name search hfound
  · cases hregister.symm.trans heq

end Workspace

namespace Search.Hereditary

variable {C α P E : Type} [Container C α P E] {workspace after : Workspace C P}
  {command : Command P E} {reply : Reply} {search : Search P} {holds : Search P → Prop}
  (hereditary : Hereditary C holds)

include hereditary

/-- A search that a command writes has the property. -/
theorem write (hsearches : workspace.Searches holds)
    (hwrite : workspace.write command = .ok (reply, some search)) : holds search := by
  cases command with
  | search target keep =>
      cases target with
      | none =>
          cases hwrite
          exact hereditary.fresh _
      | some target =>
          simp only [Workspace.write, bind_eq_ok, Prod.exists] at hwrite
          obtain ⟨-, -, axis, serial, -, heq⟩ := hwrite
          cases heq
          exact hereditary.fresh _
  | matchNext name =>
      simp only [Workspace.write, bind_eq_ok, Prod.exists] at hwrite
      obtain ⟨before, hregister, found, next, hnext, heq⟩ := hwrite
      cases heq
      exact hereditary.matchNext (hsearches.of_register hregister) hnext
  | rewind name =>
      simp only [Workspace.write, bind_eq_ok] at hwrite
      obtain ⟨before, -, rewound, hrewind, heq⟩ := hwrite
      cases heq
      exact hereditary.rewound hrewind
  | next name keep =>
      simp only [Workspace.write, bind_eq_ok, Prod.exists] at hwrite
      obtain ⟨before, hregister, found, next, hnext, heq⟩ := hwrite
      cases heq
      exact hereditary.matchNext (hsearches.of_register hregister) hnext
  | drain name limit =>
      simp only [Workspace.write, bind_eq_ok, Prod.exists] at hwrite
      obtain ⟨before, hregister, rows, last, htake, heq⟩ := hwrite
      cases heq
      exact hereditary.takeUpTo (hsearches.of_register hregister) htake
  | copySearch source keep =>
      simp only [Workspace.write, bind_eq_ok] at hwrite
      obtain ⟨before, -, heq⟩ := hwrite
      cases heq
      exact hereditary.fresh _
  | assignSearch target source =>
      simp only [Workspace.write, bind_eq_ok] at hwrite
      obtain ⟨before, -, copied, -, heq⟩ := hwrite
      split at heq
      · cases heq
      · cases heq
        exact hereditary.fresh _
  | _ => cases hwrite

variable [LawfulContainer C α P E]

theorem behind (hsound : workspace.Sound) (hsearches : workspace.Searches holds)
    (hstep : workspace.step command = .ok (reply, after)) : after.Searches holds := by
  intro name search hsearch
  by_cases htouches : command.Touches name
  · have hwrite := hsound.write_of_step (Command.touches_iff.mp htouches) hstep
    rw [hsearch] at hwrite
    exact hereditary.write hsearches hwrite
  · have hkeeps := hsound.step_keeps command
    rw [hstep] at hkeeps
    exact hsearches name search ((hkeeps.2.2 name htouches).symm.trans hsearch)

theorem run (hsound : workspace.Sound) (hsearches : workspace.Searches holds)
    (commands : List (Command P E)) : (workspace.run commands).2.Searches holds := by
  apply (hsound.run_preserves (·.Searches holds) ?_ hsearches).2
  intro before after command reply hbefore _ hstep hholds
  exact hereditary.behind hbefore hholds hstep

/-- Whatever is done to new containers, the searches that are kept have the property. -/
theorem reached {start : C} {count : Nat}
    (hreached : ∀ commands : List (Command P E), (Workspace.reached start count commands).Sound)
    (commands : List (Command P E)) :
    (Workspace.reached start count commands).Searches holds := by
  have hbeginning :
      (Workspace.reached start count ([] : List (Command P E))).Searches holds := by
    intro name search hsearch
    cases hsearch
  exact hereditary.run (hreached []) hbeginning commands

end Search.Hereditary

end FormalLanguages
