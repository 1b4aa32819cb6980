/-
# What a container makes of its changes

A container has data that no graph shows: an alphabet, a start, the marks of its states.  Only the
changes that the container carries out itself touch this data.  Counting references, removing
elements and freeing them leaves it alone, and so does whatever is done to other containers.

So such data can be told from the changes of the container alone, each with its answer, in the order
in which a run carries them out.  What is claimed of the data has to be handed on by every change,
and then holds at any moment of a run of the changes that were made until then.
-/

import FormalLanguages.Proofs.Workspace.Identity

namespace FormalLanguages

variable {C α P E : Type} [Container C α P E]

/-- A statement about a container and the changes that were made to it so far, which every change
hands on and nothing else affects. -/
structure Follows [LawfulContainer C α P E] (Holds : List (E × Answer) → C → Prop) : Prop where
  edited : ∀ past container change answer after, LawfulContainer.Sound container →
    Container.edit container change = .ok (answer, after) →
      Holds past container → Holds (past ++ [(change, answer)]) after
  relabeled : ∀ past container graph, (Container.graph container).Relabeled graph →
    Holds past container → Holds past (Container.setGraph container graph)
  reclaimed : ∀ past container count after, LawfulContainer.Sound container →
    Container.reclaim container = .ok (count, after) → Holds past container → Holds past after

theorem Follows.counts [LawfulContainer C α P E] {Holds : List (E × Answer) → C → Prop}
    (hfollows : Follows Holds) {past : List (E × Answer)} {container now : C}
    (hcounts : Counts container now) (hholds : Holds past container) : Holds past now := by
  induction hcounts with
  | refl => exact hholds
  | step _ _ hrecounted _ ih => exact hfollows.relabeled past _ _ hrecounted.toRelabeled ih

namespace Workspace

/-- The change of a container that a command is, with its answer, if it was carried out. -/
def changeOf (number : Nat) : Command P E × Except Fault Reply → Option (E × Answer)
  | (.edit place change _, .ok (.changed answer)) =>
      if place = number then some (change, answer) else none
  | _ => none

/-- The changes of a container that a run carries out, in order, each with its answer. -/
def changes (workspace : Workspace C P) (number : Nat) (commands : List (Command P E)) :
    List (E × Answer) :=
  (commands.zip (workspace.run commands).1).filterMap (changeOf number)

/-- The changes that a run carries out in one of a number of new containers. -/
def changesFrom (start : C) (count number : Nat) (commands : List (Command P E)) :
    List (E × Answer) :=
  (ofContainers (Array.replicate count start)).changes number commands

variable {workspace after : Workspace C P} {number : Nat} {command : Command P E} {reply : Reply}

theorem changes_of_ok (hstep : workspace.step command = .ok (reply, after))
    (rest : List (Command P E)) :
    workspace.changes number (command :: rest) =
      (changeOf number (command, .ok reply)).toList ++ after.changes number rest := by
  simp only [changes, run, hstep, List.zip_cons_cons, List.filterMap_cons]
  cases changeOf number (command, .ok reply) <;> rfl

theorem changes_of_error {fault : Fault} (hstep : workspace.step command = .error fault)
    (rest : List (Command P E)) :
    workspace.changes number (command :: rest) = workspace.changes number rest := by
  have hnone : changeOf number (command, (.error fault : Except Fault Reply)) = none := by
    unfold changeOf
    split
    · next heq => cases heq
    · rfl
  simp only [changes, run, hstep, List.zip_cons_cons, List.filterMap_cons, hnone]

/-- What a run has changed stays changed. -/
theorem changes_append (workspace : Workspace C P) (number : Nat)
    (earlier later : List (Command P E)) :
    ∃ rest, workspace.changes number (earlier ++ later) =
      workspace.changes number earlier ++ rest := by
  induction earlier generalizing workspace with
  | nil => exact ⟨_, rfl⟩
  | cons command commands ih =>
      rw [List.cons_append]
      cases hstep : workspace.step command with
      | error fault =>
          rw [changes_of_error hstep, changes_of_error hstep]
          exact ih workspace
      | ok result =>
          have ⟨reply, after⟩ := result
          have ⟨rest, hrest⟩ := ih after
          rw [changes_of_ok hstep, changes_of_ok hstep, hrest]
          exact ⟨rest, (List.append_assoc ..).symm⟩

/-- A command that is not a change of the container itself changes nothing of it. -/
theorem changeOf_eq_none (hother : ∀ change keep, command ≠ .edit number change keep)
    (outcome : Except Fault Reply) : changeOf number (command, outcome) = none := by
  unfold changeOf
  split
  · next place change keep answer heq =>
      cases heq
      have hne : place ≠ number := fun heq => hother change keep (heq ▸ rfl)
      exact if_neg hne
  · rfl

variable [LawfulContainer C α P E] {Holds : List (E × Answer) → C → Prop} {container : C}
  {past : List (E × Answer)}

/-- Where references are counted anew, statements about the changes so far hold on. -/
theorem follows_counted {containers after : Array C} (hfollows : Follows Holds)
    (hcounted : Counted containers after) (hcontainer : containers[number]? = some container)
    (hholds : Holds past container) :
    ∃ now, after[number]? = some now ∧ Holds past now := by
  have ⟨now, hnow, hcounts⟩ := hcounted.counts number container hcontainer
  exact ⟨now, hnow, hfollows.counts hcounts hholds⟩

/-- A change in a workspace is handed on in its own container and leaves all others. -/
theorem follows_edit (hsound : workspace.Sound) (hfollows : Follows Holds) {place : Nat}
    {change : E} {keep : Option String} {answer : Answer}
    (hedit : workspace.edit place change keep = .ok (answer, after))
    (hcontainer : workspace.containers[number]? = some container)
    (hholds : Holds past container) :
    ∃ now, after.containers[number]? = some now ∧
      Holds (past ++ (if place = number then some (change, answer) else none).toList) now := by
  have ⟨before, edited, hbefore, hchange, hcounted⟩ := edit_replaced hsound.containers hedit
  have hreplaced := getElem?_replaced hbefore edited number
  by_cases hplace : place = number
  · subst hplace
    cases hbefore.symm.trans hcontainer
    rw [if_pos rfl] at hreplaced ⊢
    apply follows_counted hfollows hcounted hreplaced
    exact hfollows.edited past _ _ _ _ (hsound.containers place _ hbefore) hchange hholds
  · rw [if_neg fun heq => hplace heq.symm, hcontainer] at hreplaced
    rw [if_neg hplace, Option.toList_none, List.append_nil]
    exact follows_counted hfollows hcounted hreplaced hholds

/-- A container that is replaced by one of which the same holds leaves all statements. -/
theorem follows_replaced {containers : Array C} {place : Nat} {before now : C}
    (hbefore : containers[place]? = some before) (hnow : Holds past before → Holds past now)
    (hcontainer : containers[number]? = some container) (hholds : Holds past container) :
    ∃ found, (containers.setIfInBounds place now)[number]? = some found ∧ Holds past found := by
  rw [getElem?_replaced hbefore]
  split
  · next heq =>
      subst heq
      cases hbefore.symm.trans hcontainer
      exact ⟨now, rfl, hnow hholds⟩
  · exact ⟨container, hcontainer, hholds⟩

/-- What every change hands on is handed on by every command. -/
theorem follows_step (hsound : workspace.Sound) (hfollows : Follows Holds)
    (hstep : workspace.step command = .ok (reply, after))
    (hcontainer : workspace.containers[number]? = some container)
    (hholds : Holds past container) :
    ∃ now, after.containers[number]? = some now ∧
      Holds (past ++ (changeOf number (command, .ok reply)).toList) now := by
  by_cases hedit : ∃ place change keep, command = .edit place change keep
  · obtain ⟨place, change, keep, rfl⟩ := hedit
    simp only [step, bind_eq_ok, Prod.exists] at hstep
    obtain ⟨answer, edited, hedit, hafter⟩ := hstep
    cases hafter
    exact follows_edit hsound hfollows hedit hcontainer hholds
  · have hnone : changeOf number (command, (.ok reply : Except Fault Reply)) = none :=
      changeOf_eq_none (fun change keep heq => hedit ⟨number, change, keep, heq⟩) _
    rw [hnone, Option.toList_none, List.append_nil]
    by_cases halters : command.Alters
    · cases command with
      | edit place change keep => exact absurd ⟨place, change, keep, rfl⟩ hedit
      | remove place name =>
          simp only [step, bind_eq_ok, Prod.exists] at hstep
          obtain ⟨handle, -, removed, rest, hremove, hafter⟩ := hstep
          cases hafter
          obtain ⟨before, graph, hbefore, -, hrelabeled, -, hcontainers⟩ :=
            remove_replaced hsound.containers hremove
          rw [hcontainers]
          exact follows_replaced hbefore (hfollows.relabeled past before graph hrelabeled)
            hcontainer hholds
      | reclaim place =>
          simp only [step, bind_eq_ok, Prod.exists] at hstep
          obtain ⟨count, rest, hreclaim, hafter⟩ := hstep
          cases hafter
          obtain ⟨before, now, hbefore, hnow, hcontainers⟩ := reclaim_replaced hreclaim
          rw [hcontainers]
          have hbeforeSound := hsound.containers place before hbefore
          exact follows_replaced hbefore (hfollows.reclaimed past before _ now hbeforeSound hnow)
            hcontainer hholds
      | _ => exact halters.elim
    · exact follows_counted hfollows (step_counted hsound.containers halters hstep) hcontainer
        hholds

/-- What every change hands on is handed on by every run. -/
theorem Sound.follows_run (hsound : workspace.Sound) (hfollows : Follows Holds)
    (hcontainer : workspace.containers[number]? = some container)
    (hholds : Holds past container) (commands : List (Command P E)) :
    ∃ now, (workspace.run commands).2.containers[number]? = some now ∧
      Holds (past ++ workspace.changes number commands) now := by
  induction commands generalizing workspace container past with
  | nil => exact ⟨container, hcontainer, (List.append_nil past).symm ▸ hholds⟩
  | cons command rest ih =>
      have hkeeps := hsound.step_keeps command
      cases hstep : workspace.step command with
      | error fault =>
          rw [changes_of_error hstep]
          simp only [Workspace.run, hstep]
          exact ih hsound hcontainer hholds
      | ok result =>
          obtain ⟨reply, after⟩ := result
          rw [hstep] at hkeeps
          obtain ⟨middle, hmiddle, hheld⟩ := follows_step hsound hfollows hstep hcontainer hholds
          rw [changes_of_ok hstep, ← List.append_assoc]
          simp only [Workspace.run, hstep]
          exact ih hkeeps.1 hmiddle hheld

/-- What holds of a new container without changes, and is handed on by every change, holds of the
container at any moment of a run. -/
theorem follows_reached {start now : C} {count : Nat} {commands : List (Command P E)}
    (hreached : ∀ commands : List (Command P E), (reached start count commands).Sound)
    (hfollows : Follows Holds) (hstart : Holds [] start)
    (hnow : (reached start count commands).containers[number]? = some now) :
    Holds (changesFrom start count number commands) now := by
  have hbeginning : (reached start count ([] : List (Command P E))).containers[number]? =
      some start := container_of_lt (lt_of_reached hreached hnow)
  obtain ⟨found, hfound, hholds⟩ :=
    (hreached []).follows_run hfollows hbeginning hstart commands
  cases hnow.symm.trans hfound
  exact hholds

end Workspace

end FormalLanguages
