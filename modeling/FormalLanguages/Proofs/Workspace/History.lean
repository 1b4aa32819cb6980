/-
# Every container has a history

A run changes a container in a few ways only: a change that the container carries out itself, the
removal of an element or a new count of its references, which leave the tables of the container
alone, and a reclaim.  The history of a container lists what was done to it, and whatever each of
these ways preserves holds of the container from some moment of a run until its end.

The first thing that follows is that numbers are handed out in increasing order: the number of the
next element never decreases, so it is greater than every number that an element of the container
had at an earlier moment.
-/

import Mathlib.Logic.Relation
import FormalLanguages.Proofs.Workspace.Account
import FormalLanguages.Proofs.Workspace.Frame

namespace FormalLanguages

/-- The commands that do more to a container than count references. -/
def Command.Alters {P E : Type} : Command P E → Prop
  | .edit .. => True
  | .remove .. => True
  | .reclaim _ => True
  | _ => False

/-- Whether a command keeps or drops a pattern. -/
def Command.isPattern {P E : Type} : Command P E → Bool
  | .keepPattern .. => true
  | .dropPattern _ => true
  | _ => false

variable {C α P E : Type} [Container C α P E]

/-- One thing that was done to a container. -/
inductive Develops (container : C) : C → Prop
  | edited {change : E} {answer : Answer} {after : C}
      (hedit : Container.edit container change = .ok (answer, after)) : Develops container after
  | relabeled {graph : Graph α} (hgraph : graph.Sound)
      (hrelabeled : (Container.graph container).Relabeled graph)
      (hpersists : (Container.graph container).Persists graph) :
      Develops container (Container.setGraph container graph)
  | reclaimed {count : Nat} {after : C}
      (hreclaim : Container.reclaim container = .ok (count, after)) : Develops container after

/-- What a container has become by what was done to it. -/
def Descends (container now : C) : Prop := Relation.ReflTransGen Develops container now

theorem Counts.descends {container now : C} (hcounts : Counts container now) :
    Descends container now := by
  induction hcounts with
  | refl => exact .refl
  | step _ hgraph hrecounted _ ih =>
      exact ih.tail (.relabeled hgraph hrecounted.toRelabeled hrecounted.persists)

variable [LawfulContainer C α P E] {container now : C}

/-- A change that succeeded left a sound container. -/
theorem edited_of_edit_eq_ok {change : E} {answer : Answer} {after : C}
    (hsound : LawfulContainer.Sound container)
    (hedit : Container.edit container change = .ok (answer, after)) :
    Edited LawfulContainer.Sound container answer after := by
  rcases LawfulContainer.edit_spec hsound change with
    ⟨answer', after', hedit', hedited⟩ | ⟨kind, hedit'⟩
  · cases hedit.symm.trans hedit'
    exact hedited
  · cases hedit.symm.trans hedit'

/-- A reclaim that succeeded left a sound container from which the dead elements are gone. -/
theorem swept_of_reclaim_eq_ok {count : Nat} {after : C} (hsound : LawfulContainer.Sound container)
    (hreclaim : Container.reclaim container = .ok (count, after)) :
    LawfulContainer.Sound after ∧
      (Container.graph container).Swept (Container.graph container).store.reclaimable
        (Container.graph after) := by
  obtain ⟨count', after', hreclaim', hafter⟩ := LawfulContainer.reclaim_spec hsound
  cases hreclaim.symm.trans hreclaim'
  exact hafter

theorem Develops.sound (hdevelops : Develops container now)
    (hsound : LawfulContainer.Sound container) : LawfulContainer.Sound now := by
  cases hdevelops with
  | edited hedit => exact (edited_of_edit_eq_ok hsound hedit).sound
  | relabeled hgraph _ hpersists => exact LawfulContainer.sound_setGraph hsound hgraph hpersists
  | reclaimed hreclaim => exact (swept_of_reclaim_eq_ok hsound hreclaim).1

theorem Develops.ages (hdevelops : Develops container now)
    (hsound : LawfulContainer.Sound container) :
    (Container.graph container).Ages (Container.graph now) := by
  cases hdevelops with
  | edited hedit => exact (edited_of_edit_eq_ok hsound hedit).evolves.ages
  | relabeled _ hrelabeled hpersists =>
      rw [LawfulContainer.graph_setGraph]
      exact hpersists.ages (Nat.le_of_eq (congrArg Index.value hrelabeled.nextId_eq.symm))
  | reclaimed hreclaim => exact (swept_of_reclaim_eq_ok hsound hreclaim).2.evolves.ages

namespace Descends

/-- What everything that may be done to a sound container preserves holds along its history. -/
theorem preserves (Holds : C → Prop) (hdescends : Descends container now)
    (hstep : ∀ before after, LawfulContainer.Sound before → Develops before after →
      Holds before → Holds after)
    (hsound : LawfulContainer.Sound container) (hholds : Holds container) :
    LawfulContainer.Sound now ∧ Holds now := by
  induction hdescends with
  | refl => exact ⟨hsound, hholds⟩
  | tail _ hdevelops ih =>
      exact ⟨hdevelops.sound ih.1, hstep _ _ ih.1 hdevelops ih.2⟩

theorem nextId_le (hdescends : Descends container now)
    (hsound : LawfulContainer.Sound container) :
    (Container.graph container).nextId.value ≤ (Container.graph now).nextId.value := by
  refine (hdescends.preserves (fun after => (Container.graph container).nextId.value ≤
    (Container.graph after).nextId.value) ?_ hsound (Nat.le_refl _)).2
  intro before after hbefore hdevelops hle
  exact Nat.le_trans hle (hdevelops.ages hbefore).nextId_le

end Descends

/-- Containers after a part of a run. -/
structure Descendants (containers after : Array C) : Prop where
  size_eq : after.size = containers.size
  descends : ∀ (number : Nat) (container : C), containers[number]? = some container →
    ∃ now, after[number]? = some now ∧ Descends container now

omit [LawfulContainer C α P E] in
theorem Descendants.refl (containers : Array C) : Descendants containers containers :=
  ⟨rfl, fun _ container hcontainer => ⟨container, hcontainer, .refl⟩⟩

omit [LawfulContainer C α P E] in
theorem Descendants.trans {containers middle after : Array C}
    (hfirst : Descendants containers middle) (hsecond : Descendants middle after) :
    Descendants containers after where
  size_eq := hsecond.size_eq.trans hfirst.size_eq
  descends number container hcontainer := by
    obtain ⟨found, hfound, hdescends⟩ := hfirst.descends number container hcontainer
    obtain ⟨now, hnow, hdescends'⟩ := hsecond.descends number found hfound
    exact ⟨now, hnow, hdescends.trans hdescends'⟩

theorem Counted.descendants {containers after : Array C} (hcounted : Counted containers after) :
    Descendants containers after where
  size_eq := hcounted.size_eq
  descends number container hcontainer := by
    obtain ⟨now, hnow, hcounts⟩ := hcounted.counts number container hcontainer
    exact ⟨now, hnow, hcounts.descends⟩

omit [LawfulContainer C α P E] in
theorem descendants_replaced {containers : Array C} {number : Nat}
    (hcontainer : containers[number]? = some container) (hdevelops : Develops container now) :
    Descendants containers (containers.setIfInBounds number now) where
  size_eq := Array.size_setIfInBounds
  descends := exists_replaced hcontainer now (Relation.ReflTransGen.single hdevelops) fun _ => .refl

namespace Workspace

variable {workspace after : Workspace C P} {command : Command P E} {reply : Reply}

omit [LawfulContainer C α P E] in
theorem container_of_eq_ok {number : Nat}
    (hcontainer : workspace.container number = .ok container) :
    workspace.containers[number]? = some container := by
  rcases workspace.container_eq number with ⟨found, hfound, heq⟩ | heq
  · cases hcontainer.symm.trans heq
    exact hfound
  · cases hcontainer.symm.trans heq

/-- A change of a workspace replaces the container by the changed one, and then counts the
references of what is kept. -/
theorem edit_replaced {number : Nat} {change : E} {keep : Option String} {answer : Answer}
    (hall : AllSound workspace.containers)
    (hedit : workspace.edit number change keep = .ok (answer, after)) :
    ∃ container now, workspace.containers[number]? = some container ∧
      Container.edit container change = .ok (answer, now) ∧
      Counted (workspace.containers.setIfInBounds number now) after.containers := by
  simp only [edit, bind_eq_ok, Prod.exists] at hedit
  obtain ⟨container, hcontainer, answer', now, hchange, hafter⟩ := hedit
  have hfound := container_of_eq_ok hcontainer
  have hallNow : AllSound (workspace.setContainer number now).containers :=
    allSound_replaced hfound now hall
      (edited_of_edit_eq_ok (hall number container hfound) hchange).sound
  split at hafter
  · obtain ⟨kept, hkeep, hafter⟩ := bind_eq_ok.mp hafter
    cases hafter
    obtain ⟨containers, hcounted, rfl⟩ := keepHandle_counted hallNow hkeep
    exact ⟨container, now, hfound, hchange, hcounted⟩
  · cases hafter
    exact ⟨container, now, hfound, hchange, .refl hallNow⟩

theorem edit_descends {number : Nat} {change : E} {keep : Option String} {answer : Answer}
    (hall : AllSound workspace.containers)
    (hedit : workspace.edit number change keep = .ok (answer, after)) :
    Descendants workspace.containers after.containers := by
  obtain ⟨container, now, hfound, hchange, hcounted⟩ := edit_replaced hall hedit
  exact (descendants_replaced hfound (.edited hchange)).trans hcounted.descendants

/-- A removal replaces the container by one in which labels have changed. -/
theorem remove_replaced {number : Nat} {handle : Handle} {removed : Bool}
    (hall : AllSound workspace.containers)
    (hremove : workspace.remove number handle = .ok (removed, after)) :
    ∃ container graph, workspace.containers[number]? = some container ∧ graph.Sound ∧
      (Container.graph container).Relabeled graph ∧ (Container.graph container).Persists graph ∧
      after.containers =
        workspace.containers.setIfInBounds number (Container.setGraph container graph) := by
  obtain ⟨container, hcontainer, hrest⟩ := bind_eq_ok.mp hremove
  have hfound := container_of_eq_ok hcontainer
  have hgraph := LawfulContainer.graph_sound (hall number container hfound)
  split at hrest
  · cases hrest
  · obtain ⟨⟨removed', graph⟩, hgraphRemove, hafter⟩ := bind_eq_ok.mp hrest
    cases hafter
    obtain ⟨⟨_, store⟩, htombstone, -⟩ := bind_eq_ok.mp hgraphRemove
    obtain ⟨cell, hcell, -⟩ := bind_eq_ok.mp htombstone
    have hentry : (Container.graph container).stored? handle.key = some cell.entry :=
      Graph.stored?_eq_some_iff.mpr ⟨cell, Store.cell_eq_ok_iff.mp hcell, rfl⟩
    obtain ⟨graph', hgraphRemove', hsound, hremoved⟩ := Graph.remove_removed hgraph hentry
    cases hgraphRemove.symm.trans hgraphRemove'
    exact ⟨container, graph, hfound, hsound, hremoved.toRelabeled, hremoved.persists, rfl⟩

theorem remove_descends {number : Nat} {handle : Handle} {removed : Bool}
    (hall : AllSound workspace.containers)
    (hremove : workspace.remove number handle = .ok (removed, after)) :
    Descendants workspace.containers after.containers := by
  obtain ⟨container, graph, hfound, hsound, hrelabeled, hpersists, hafter⟩ :=
    remove_replaced hall hremove
  rw [hafter]
  exact descendants_replaced hfound (.relabeled hsound hrelabeled hpersists)

omit [LawfulContainer C α P E] in
/-- A reclaim replaces the container by the reclaimed one. -/
theorem reclaim_replaced {number : Nat} {count : Nat}
    (hreclaim : workspace.reclaim number = .ok (count, after)) :
    ∃ container now, workspace.containers[number]? = some container ∧
      Container.reclaim container = .ok (count, now) ∧
      after.containers = workspace.containers.setIfInBounds number now := by
  obtain ⟨container, hcontainer, hrest⟩ := bind_eq_ok.mp hreclaim
  obtain ⟨⟨count', now⟩, hnow, hafter⟩ := bind_eq_ok.mp hrest
  cases hafter
  exact ⟨container, now, container_of_eq_ok hcontainer, hnow, rfl⟩

omit [LawfulContainer C α P E] in
theorem reclaim_descends {number : Nat} {count : Nat}
    (hreclaim : workspace.reclaim number = .ok (count, after)) :
    Descendants workspace.containers after.containers := by
  obtain ⟨container, now, hfound, hnow, hafter⟩ := reclaim_replaced hreclaim
  rw [hafter]
  exact descendants_replaced hfound (.reclaimed hnow)

omit [LawfulContainer C α P E] in
/-- Giving a pattern an identity changes no more than the identity of the next one. -/
theorem axisOf_serial {query : Query P} {axis : Axis P}
    (haxis : workspace.axisOf query = .ok (axis, after)) :
    ∃ serial, after = { workspace with serial } := by
  rcases workspace.axisOf_spec query with ⟨axis', serial, haxis', -⟩ | ⟨name, haxis'⟩
  · cases haxis.symm.trans haxis'
    exact ⟨serial, rfl⟩
  · cases haxis.symm.trans haxis'

theorem newSearch_framed {target : Option (Nat × Query P)} {keep : String}
    (hall : AllSound workspace.containers)
    (hnew : workspace.newSearch target keep = .ok after) : workspace.Framed after := by
  cases target with
  | none => exact keepSearch_framed hall hnew
  | some target =>
      simp only [newSearch, bind_eq_ok, Prod.exists] at hnew
      obtain ⟨-, -, axis, shared, haxis, hkeep⟩ := hnew
      obtain ⟨serial, rfl⟩ := axisOf_serial haxis
      have hserial : AllSound ({ workspace with serial } : Workspace C P).containers := hall
      obtain ⟨containers, hcounted, rfl⟩ := keepSearch_counted hserial hkeep
      exact ⟨hcounted, rfl⟩

theorem takeElement_framed {found : Match} {keep : String} (hall : AllSound workspace.containers)
    (htake : workspace.takeElement found keep = .ok (reply, after)) : workspace.Framed after := by
  unfold takeElement at htake
  split at htake
  · cases htake
    exact ⟨.refl hall, rfl⟩
  · obtain ⟨kept, hkeep, hafter⟩ := bind_eq_ok.mp htake
    cases hafter
    exact keepHandle_framed hall hkeep

section Commands

variable (hall : AllSound workspace.containers)

include hall

theorem copyHandle_framed {source keep : String}
    (hstep : workspace.step (.copyHandle source keep : Command P E) = .ok (reply, after)) :
    workspace.Framed after := by
  simp only [step, bind_eq_ok] at hstep
  obtain ⟨handle, -, kept, hkeep, hafter⟩ := hstep
  cases hafter
  exact keepHandle_framed hall hkeep


theorem assignHandle_framed {target source : String}
    (hstep : workspace.step (.assignHandle target source : Command P E) = .ok (reply, after)) :
    workspace.Framed after := by
  simp only [step, bind_eq_ok] at hstep
  obtain ⟨-, -, handle, -, kept, hkeep, hafter⟩ := hstep
  cases hafter
  exact keepHandle_framed hall hkeep


theorem dropHandle_framed {name : String}
    (hstep : workspace.step (.dropHandle name : Command P E) = .ok (reply, after)) :
    workspace.Framed after := by
  simp only [step, bind_eq_ok, Prod.exists] at hstep
  obtain ⟨full, dropped, hdrop, hafter⟩ := hstep
  cases hafter
  obtain ⟨containers, hcounted, rfl⟩ := dropHandle_counted hall hdrop
  exact ⟨hcounted, rfl⟩


theorem search_framed {target : Option (Nat × Query P)} {keep : String}
    (hstep : workspace.step (.search target keep : Command P E) = .ok (reply, after)) :
    workspace.Framed after := by
  simp only [step, bind_eq_ok] at hstep
  obtain ⟨kept, hnew, hafter⟩ := hstep
  cases hafter
  exact newSearch_framed hall hnew


theorem matchNext_framed {name : String}
    (hstep : workspace.step (.matchNext name : Command P E) = .ok (reply, after)) :
    workspace.Framed after := by
  simp only [step, bind_eq_ok, Prod.exists] at hstep
  obtain ⟨search, -, found, next, -, kept, hkeep, hafter⟩ := hstep
  cases hafter
  exact keepSearch_framed hall hkeep


theorem rewind_framed {name : String}
    (hstep : workspace.step (.rewind name : Command P E) = .ok (reply, after)) :
    workspace.Framed after := by
  simp only [step, bind_eq_ok] at hstep
  obtain ⟨search, -, next, -, kept, hkeep, hafter⟩ := hstep
  cases hafter
  exact keepSearch_framed hall hkeep


theorem next_framed {name : String} {keep : Option String}
    (hstep : workspace.step (.next name keep : Command P E) = .ok (reply, after)) :
    workspace.Framed after := by
  simp only [step, bind_eq_ok, Prod.exists] at hstep
  obtain ⟨search, -, found, next, -, kept, hkeep, hafter⟩ := hstep
  have hframed := keepSearch_framed hall hkeep
  cases found with
  | error fault =>
      cases hafter
      exact hframed
  | ok found =>
      cases found with
      | false =>
          cases hafter
          exact hframed
      | true =>
          cases keep with
          | none =>
              cases hafter
              exact hframed
          | some keep =>
              obtain ⟨last, hkeepMatch, hafter⟩ := bind_eq_ok.mp hafter
              cases hafter
              exact hframed.trans (keepMatch_framed hframed.counted.sound hkeepMatch)


theorem drain_framed {name : String} {limit : Option Nat}
    (hstep : workspace.step (.drain name limit : Command P E) = .ok (reply, after)) :
    workspace.Framed after := by
  simp only [step, bind_eq_ok, Prod.exists] at hstep
  obtain ⟨search, -, rows, last, -, kept, hkeep, hafter⟩ := hstep
  cases hafter
  exact keepSearch_framed hall hkeep


theorem copySearch_framed {source keep : String}
    (hstep : workspace.step (.copySearch source keep : Command P E) = .ok (reply, after)) :
    workspace.Framed after := by
  simp only [step, bind_eq_ok] at hstep
  obtain ⟨search, -, kept, hkeep, hafter⟩ := hstep
  cases hafter
  exact keepSearch_framed hall hkeep


theorem assignSearch_framed {target source : String}
    (hstep : workspace.step (.assignSearch target source : Command P E) = .ok (reply, after)) :
    workspace.Framed after := by
  simp only [step, bind_eq_ok] at hstep
  obtain ⟨search, -, copied, -, hrest⟩ := hstep
  split at hrest
  · cases hrest
  · obtain ⟨kept, hkeep, hafter⟩ := bind_eq_ok.mp hrest
    cases hafter
    exact keepSearch_framed hall hkeep


theorem dropSearch_framed {name : String}
    (hstep : workspace.step (.dropSearch name : Command P E) = .ok (reply, after)) :
    workspace.Framed after := by
  simp only [step, bind_eq_ok, Prod.exists] at hstep
  obtain ⟨full, dropped, hdrop, hafter⟩ := hstep
  cases hafter
  obtain ⟨containers, hcounted, rfl⟩ := dropSearch_counted hall hdrop
  exact ⟨hcounted, rfl⟩


theorem takeFromSearch_framed {source keep : String}
    (hstep : workspace.step (.takeFromSearch source keep : Command P E) = .ok (reply, after)) :
    workspace.Framed after := by
  simp only [step, bind_eq_ok] at hstep
  obtain ⟨search, -, htake⟩ := hstep
  exact takeElement_framed hall htake


theorem takeFromMatch_framed {source keep : String}
    (hstep : workspace.step (.takeFromMatch source keep : Command P E) = .ok (reply, after)) :
    workspace.Framed after := by
  simp only [step, bind_eq_ok] at hstep
  obtain ⟨found, -, htake⟩ := hstep
  exact takeElement_framed hall htake


theorem copyMatch_framed {source keep : String}
    (hstep : workspace.step (.copyMatch source keep : Command P E) = .ok (reply, after)) :
    workspace.Framed after := by
  simp only [step, bind_eq_ok] at hstep
  obtain ⟨found, -, kept, hkeep, hafter⟩ := hstep
  cases hafter
  exact keepMatch_framed hall hkeep


theorem dropMatch_framed {name : String}
    (hstep : workspace.step (.dropMatch name : Command P E) = .ok (reply, after)) :
    workspace.Framed after := by
  simp only [step, bind_eq_ok, Prod.exists] at hstep
  obtain ⟨full, dropped, hdrop, hafter⟩ := hstep
  cases hafter
  obtain ⟨containers, hcounted, rfl⟩ := dropMatch_counted hall hdrop
  exact ⟨hcounted, rfl⟩


/-- A command that alters no container and no pattern counts references, and does nothing else to
either. -/
theorem step_framed (halters : ¬command.Alters) (hpattern : command.isPattern = false)
    (hstep : workspace.step command = .ok (reply, after)) : workspace.Framed after := by
  cases command with
  | edit number change keep => exact absurd trivial halters
  | remove number name => exact absurd trivial halters
  | reclaim number => exact absurd trivial halters
  | copyHandle source keep => exact copyHandle_framed hall hstep
  | assignHandle target source => exact assignHandle_framed hall hstep
  | dropHandle name => exact dropHandle_framed hall hstep
  | search target keep => exact search_framed hall hstep
  | matchNext name => exact matchNext_framed hall hstep
  | rewind name => exact rewind_framed hall hstep
  | next name keep => exact next_framed hall hstep
  | drain name limit => exact drain_framed hall hstep
  | copySearch source keep => exact copySearch_framed hall hstep
  | assignSearch target source => exact assignSearch_framed hall hstep
  | dropSearch name => exact dropSearch_framed hall hstep
  | takeFromSearch source keep => exact takeFromSearch_framed hall hstep
  | takeFromMatch source keep => exact takeFromMatch_framed hall hstep
  | copyMatch source keep => exact copyMatch_framed hall hstep
  | dropMatch name => exact dropMatch_framed hall hstep
  | keepPattern pattern keep => cases hpattern
  | dropPattern name => cases hpattern

end Commands

/-- A command that alters no container counts references, and does nothing else to the
containers. -/
theorem step_counted (hall : AllSound workspace.containers) (halters : ¬command.Alters)
    (hstep : workspace.step command = .ok (reply, after)) :
    Counted workspace.containers after.containers := by
  cases hpattern : command.isPattern with
  | false => exact (step_framed hall halters hpattern hstep).counted
  | true =>
      cases command with
      | keepPattern pattern keep =>
          cases hstep
          exact .refl hall
      | dropPattern name =>
          cases hstep
          exact .refl hall
      | _ => cases hpattern

/-- What a command does to the containers is part of their history. -/
theorem step_descends (hall : AllSound workspace.containers)
    (hstep : workspace.step command = .ok (reply, after)) :
    Descendants workspace.containers after.containers := by
  by_cases halters : command.Alters
  · cases command with
    | edit number change keep =>
        simp only [step, bind_eq_ok, Prod.exists] at hstep
        obtain ⟨answer, edited, hedit, hafter⟩ := hstep
        cases hafter
        exact edit_descends hall hedit
    | remove number name =>
        simp only [step, bind_eq_ok, Prod.exists] at hstep
        obtain ⟨handle, -, removed, rest, hremove, hafter⟩ := hstep
        cases hafter
        exact remove_descends hall hremove
    | reclaim number =>
        simp only [step, bind_eq_ok, Prod.exists] at hstep
        obtain ⟨count, rest, hreclaim, hafter⟩ := hstep
        cases hafter
        exact reclaim_descends hreclaim
    | _ => exact halters.elim
  · exact (step_counted hall halters hstep).descendants

/-- What a run does to the containers is part of their history. -/
theorem Sound.run_descends (hsound : workspace.Sound) (commands : List (Command P E)) :
    Descendants workspace.containers (workspace.run commands).2.containers := by
  apply (hsound.run_preserves (fun after => Descendants workspace.containers after.containers)
    ?_ (.refl _)).2
  intro before after command reply hbefore _ hstep hdescends
  exact hdescends.trans (step_descends hbefore.containers hstep)

section Reached

variable (start : C) (count : Nat) (commands : List (Command P E)) (number : Nat)

/-- What could be read of an element of a container at some moment of a run. -/
def Recorded (element : Element α) : Prop :=
  ∃ earlier later, commands = earlier ++ later ∧ ∃ container key,
    (reached start count earlier).containers[number]? = some container ∧
      (Container.graph container).element key = .ok element

end Reached

omit [LawfulContainer C α P E] in
theorem run_append (workspace : Workspace C P) (earlier later : List (Command P E)) :
    (workspace.run (earlier ++ later)).2 = ((workspace.run earlier).2.run later).2 := by
  induction earlier generalizing workspace with
  | nil => rfl
  | cons command rest ih =>
      simp only [List.cons_append, run]
      cases workspace.step command with
      | ok result => exact ih result.2
      | error fault => exact ih workspace

omit [LawfulContainer C α P E] in
/-- A run begins with new containers. -/
theorem container_of_lt {start : C} {count number : Nat} (hnumber : number < count) :
    (reached start count ([] : List (Command P E))).containers[number]? = some start := by
  simp [reached, Workspace.run, ofContainers, hnumber]

/-- A run adds no containers. -/
theorem lt_of_reached {start : C} {count number : Nat} {commands : List (Command P E)}
    (hreached : ∀ commands : List (Command P E), (reached start count commands).Sound)
    (hnow : (reached start count commands).containers[number]? = some now) : number < count := by
  have hsize := ((hreached []).run_descends commands).size_eq
  have hlt := (Array.getElem?_eq_some_iff.mp hnow).1
  simp only [reached, Workspace.run, ofContainers, Array.size_replicate] at hsize hlt
  exact hsize ▸ hlt

/-- A container has become what it is from what it was at the beginning of the run. -/
theorem descends_of_reached {start : C} {count number : Nat} {commands : List (Command P E)}
    (hreached : ∀ commands : List (Command P E), (reached start count commands).Sound)
    (hnow : (reached start count commands).containers[number]? = some now) :
    LawfulContainer.Sound start ∧ Descends start now := by
  have hbeginning := hreached []
  have hstart : (reached start count ([] : List (Command P E))).containers[number]? = some start :=
    container_of_lt (lt_of_reached hreached hnow)
  obtain ⟨found, hfound, hdescends⟩ :=
    (hbeginning.run_descends commands).descends number start hstart
  cases hnow.symm.trans hfound
  exact ⟨hbeginning.containers number start hstart, hdescends⟩

/-- A container has become what it is from what it was at any earlier moment of the run. -/
theorem descends_of_recorded {start : C} {count number : Nat} {commands : List (Command P E)}
    (hreached : ∀ commands : List (Command P E), (reached start count commands).Sound)
    (hnow : (reached start count commands).containers[number]? = some now) {element : Element α}
    (hrecorded : Recorded start count commands number element) :
    ∃ container key, LawfulContainer.Sound container ∧
      (Container.graph container).element key = .ok element ∧ Descends container now := by
  obtain ⟨earlier, later, rfl, container, key, hcontainer, helement⟩ := hrecorded
  obtain ⟨found, hfound, hdescends⟩ :=
    ((hreached earlier).run_descends later).descends number container hcontainer
  rw [reached, run_append] at hnow
  cases hnow.symm.trans hfound
  exact ⟨container, key, (hreached earlier).containers number container hcontainer, helement,
    hdescends⟩

/-- The number of the next element is greater than that of every element before it. -/
theorem id_lt_nextId {start : C} {count number : Nat} {commands : List (Command P E)}
    (hreached : ∀ commands : List (Command P E), (reached start count commands).Sound)
    (hnow : (reached start count commands).containers[number]? = some now) {element : Element α}
    (hrecorded : Recorded start count commands number element) :
    element.id < (Container.graph now).nextId.value := by
  obtain ⟨container, key, hsound, helement, hdescends⟩ :=
    descends_of_recorded hreached hnow hrecorded
  obtain ⟨entry, hentry, rfl⟩ := Graph.element_eq_ok_iff.mp helement
  exact Nat.lt_of_lt_of_le ((LawfulContainer.graph_sound hsound).numbered key entry.place
    (Graph.place?_of_stored hentry)) (hdescends.nextId_le hsound)

end Workspace

end FormalLanguages
