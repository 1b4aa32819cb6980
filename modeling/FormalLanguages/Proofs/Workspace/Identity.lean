/-
# What is held reads the same for as long as it is held

A handle names its element by a key, and keys are used again when slots are freed.  Whoever holds
a reference never notices: from the moment it is taken until it is given back the element reads
the same, whatever is added, removed and freed in between, and all that can happen to it is that
it is removed.

The elements of a container are numbered in the order of their creation, from zero and without
gaps, over its whole life.  Of the handles that are held at one time, two are equal exactly if they
read the same number.
-/

import FormalLanguages.Proofs.Workspace.Creation

namespace FormalLanguages.Workspace

variable {C α P E : Type} [Container C α P E]

/-- The element that a command creates in a container.  It was not there before under the key that
the answer names. -/
def created (workspace : Workspace C P) (number : Nat) (command : Command P E) :
    Option (Element α) :=
  match command, workspace.step command with
  | .edit container _ _, .ok (.changed (.element key), after) =>
      if container = number then
        match workspace.read ⟨number, key⟩ with
        | .ok _ => none
        | .error _ => (after.read ⟨number, key⟩).toOption
      else none
  | _, _ => none

/-- The elements that a run creates in a container, in the order of their creation. -/
def creations (workspace : Workspace C P) (number : Nat) : List (Command P E) → List (Element α)
  | [] => []
  | command :: rest =>
      (workspace.created number command).toList ++
        (workspace.run [command]).2.creations number rest

/-- The elements that a run creates in one of a number of new containers. -/
def creationsFrom (start : C) (count number : Nat) (commands : List (Command P E)) :
    List (Element α) :=
  (ofContainers (Array.replicate count start)).creations number commands

theorem read_of_container {workspace : Workspace C P} {number : Nat} {container : C}
    (hcontainer : workspace.containers[number]? = some container) (key : Key) :
    workspace.read ⟨number, key⟩ = (Container.graph container).element key := by
  simp [read, Workspace.container, containerAt_eq hcontainer]

theorem run_cons (workspace : Workspace C P) (command : Command P E)
    (rest : List (Command P E)) :
    (workspace.run (command :: rest)).2 = ((workspace.run [command]).2.run rest).2 :=
  run_append workspace [command] rest

theorem creations_append (workspace : Workspace C P) (number : Nat)
    (earlier later : List (Command P E)) :
    workspace.creations number (earlier ++ later) =
      workspace.creations number earlier ++
        (workspace.run earlier).2.creations number later := by
  induction earlier generalizing workspace with
  | nil => rfl
  | cons command rest ih =>
      rw [List.cons_append, creations, creations, ih, run_cons workspace command rest,
        List.append_assoc]

/-- A command that is not a change of the container itself creates nothing in it. -/
theorem created_eq_none {workspace : Workspace C P} {number : Nat} {command : Command P E}
    (hother : ∀ change keep, command ≠ .edit number change keep) :
    workspace.created number command = none := by
  cases command with
  | edit place change keep =>
      have hne : place ≠ number := fun heq => hother change keep (heq ▸ rfl)
      unfold created
      split
      · next heq _ =>
          cases heq
          rw [if_neg hne]
      · rfl
  | _ => rfl

variable [LawfulContainer C α P E] {workspace after : Workspace C P} {number : Nat} {container : C}

/-- Where references are counted anew, nothing comes in. -/
theorem counted_calm {containers after : Array C} (hcounted : Counted containers after)
    (hcontainer : containers[number]? = some container) :
    ∃ now, after[number]? = some now ∧
      (Container.graph container).Calm (Container.graph now) := by
  obtain ⟨now, hnow, hcounts⟩ := hcounted.counts number container hcontainer
  exact ⟨now, hnow, hcounts.recounted.calm⟩

/-- Where one container is replaced, and references are counted anew behind it, a container grows
by what comes into it when it is the one that is replaced, and by nothing otherwise. -/
theorem replaced_grows {containers after : Array C} {place : Nat} {before now : C}
    {created : Option (Element α)} (hbefore : containers[place]? = some before)
    (hcontainer : containers[number]? = some container)
    (hgrows : (Container.graph before).Grows (Container.graph now) created)
    (hcounted : Counted (containers.setIfInBounds place now) after) :
    ∃ found, after[number]? = some found ∧
      (Container.graph container).Grows (Container.graph found)
        (if place = number then created else none) := by
  by_cases hplace : place = number
  · subst hplace
    cases hbefore.symm.trans hcontainer
    have hnow := getElem?_replaced_self hbefore now
    obtain ⟨found, hfound, hcalm⟩ := counted_calm hcounted hnow
    exact ⟨found, hfound, by rw [if_pos rfl]; exact hgrows.calm_after hcalm⟩
  · have hsame : (containers.setIfInBounds place now)[number]? = some container := by
      rw [getElem?_replaced hbefore, if_neg fun heq => hplace heq.symm, hcontainer]
    obtain ⟨found, hfound, hcalm⟩ := counted_calm hcounted hsame
    exact ⟨found, hfound, by rw [if_neg hplace]; exact .calm hcalm⟩

/-- An element that a change brought into a container can be read afterwards and could not be read
before; one that the answer names without being new could. -/
theorem grows_of_edit [Numbering C α P E] (hsound : workspace.Sound) {place : Nat} {change : E}
    {keep : Option String} {reply : Reply}
    (hstep : workspace.step (.edit place change keep) = .ok (reply, after)) :
    ∃ before now created, workspace.containers[place]? = some before ∧
      (Container.graph before).Grows (Container.graph now) created ∧
      Counted (workspace.containers.setIfInBounds place now) after.containers ∧
      workspace.created place (.edit place change keep) = created := by
  have hstep' := hstep
  simp only [step, bind_eq_ok, Prod.exists] at hstep'
  obtain ⟨answer, edited, hedit, heq⟩ := hstep'
  cases heq
  obtain ⟨before, now, hbefore, hchange, hcounted⟩ := edit_replaced hsound.containers hedit
  have hnow := getElem?_replaced_self hbefore now
  obtain ⟨last, hlast, hcounts⟩ := hcounted.counts place now hnow
  have hnumbers := Numbering.edit_numbers (hsound.containers place before hbefore) change
  rw [hchange] at hnumbers
  have hedited := edited_of_edit_eq_ok (hsound.containers place before hbefore) hchange
  generalize hanswer : answer = answer' at hnumbers
  cases hnumbers with
  | calm hcalm =>
      refine ⟨before, now, none, hbefore, .calm hcalm, hcounted, ?_⟩
      cases answer with
      | element key =>
          obtain ⟨entry, hentry⟩ := hedited.stored key rfl
          obtain ⟨found, hfound, -⟩ :=
            hcalm.origin key _ (Graph.element_of_stored hentry)
          simp only [created, hstep, ↓reduceIte, read_of_container hbefore, hfound]
      | _ => simp only [created, hstep]
  | @created number data key _ happended =>
      subst hanswer
      refine ⟨before, now, _, hbefore, happended.grows, hcounted, ?_⟩
      have hlastElement : (Container.graph last).element key =
          .ok ⟨(Container.graph before).nextId.value, number, data, false⟩ := by
        have hentry := happended.stored?_eq key
        rw [if_pos rfl] at hentry
        obtain ⟨entry, hentry', heq⟩ := hcounts.recounted.exists_entry hentry
        exact Graph.element_eq_ok_iff.mpr ⟨entry, hentry', heq⟩
      cases hgone : (Container.graph before).element key with
      | ok element =>
          obtain ⟨entry, hentry, -⟩ := Graph.element_eq_ok_iff.mp hgone
          rw [happended.stored?_key] at hentry
          cases hentry
      | error fault =>
          simp only [created, hstep, ↓reduceIte, read_of_container hbefore,
            read_of_container hlast, hgone, hlastElement]
          rfl

variable [Numbering C α P E]

/-- At one command a container grows by the element that is created in it. -/
theorem Sound.created_spec (hsound : workspace.Sound)
    (hcontainer : workspace.containers[number]? = some container) (command : Command P E) :
    ∃ now, (workspace.run [command]).2.containers[number]? = some now ∧
      (Container.graph container).Grows (Container.graph now)
        (workspace.created number command) := by
  cases hstep : workspace.step command with
  | error fault =>
      have hnone : workspace.created number command = none := by
        unfold created
        split
        · next heq =>
            rw [hstep] at heq
            cases heq
        · rfl
      simp only [Workspace.run, hstep, hnone]
      exact ⟨container, hcontainer, .calm (.refl _)⟩
  | ok result =>
      obtain ⟨reply, after⟩ := result
      have hkeeps := hsound.step_keeps command
      rw [hstep] at hkeeps
      have hafter := hkeeps.1.containers
      simp only [Workspace.run, hstep]
      by_cases halters : command.Alters
      · cases command with
        | edit place change keep =>
            obtain ⟨before, now, created, hbefore, hgrows, hcounted, hcreated⟩ :=
              grows_of_edit hsound hstep
            obtain ⟨found, hfound, hgrows⟩ :=
              replaced_grows hbefore hcontainer hgrows hcounted
            refine ⟨found, hfound, ?_⟩
            by_cases hplace : place = number
            · subst hplace
              rwa [if_pos rfl, ← hcreated] at hgrows
            · rw [if_neg hplace] at hgrows
              rwa [created_eq_none fun change keep heq => hplace (by cases heq; rfl)]
        | remove place name =>
            simp only [step, bind_eq_ok, Prod.exists] at hstep
            obtain ⟨handle, -, removed, rest, hremove, heq⟩ := hstep
            cases heq
            obtain ⟨before, graph, hbefore, -, hrelabeled, hpersists, hcontainers⟩ :=
              remove_replaced hsound.containers hremove
            rw [hcontainers, created_eq_none fun change keep heq => by cases heq]
            rw [hcontainers] at hafter
            have hcalm := hpersists.calm hrelabeled.nextId_eq hrelabeled.slots_eq
            rw [← LawfulContainer.graph_setGraph before graph] at hcalm
            simpa using replaced_grows hbefore hcontainer (.calm hcalm) (.refl hafter)
        | reclaim place =>
            simp only [step, bind_eq_ok, Prod.exists] at hstep
            obtain ⟨count, rest, hreclaim, heq⟩ := hstep
            cases heq
            obtain ⟨before, now, hbefore, hnow, hcontainers⟩ := reclaim_replaced hreclaim
            rw [hcontainers, created_eq_none fun change keep heq => by cases heq]
            rw [hcontainers] at hafter
            have hbeforeSound := hsound.containers place before hbefore
            have hcalm := (swept_of_reclaim_eq_ok hbeforeSound hnow).2.calm
              (Numbering.reclaim_slots hbeforeSound hnow)
            simpa using replaced_grows hbefore hcontainer (.calm hcalm) (.refl hafter)
        | _ => exact halters.elim
      · have hnone : workspace.created number command = none :=
          created_eq_none fun change keep heq => halters (heq ▸ trivial)
        obtain ⟨now, hnow, hcalm⟩ :=
          counted_calm (step_counted hsound.containers halters hstep) hcontainer
        exact ⟨now, hnow, hnone ▸ .calm hcalm⟩

/-- A run numbers the elements that it creates in a container one after the other, and every element
that can be read afterwards could be read before or was created. -/
theorem Sound.creations_spec (hsound : workspace.Sound)
    (hcontainer : workspace.containers[number]? = some container) (commands : List (Command P E)) :
    ∃ now, (workspace.run commands).2.containers[number]? = some now ∧
      (Container.graph now).nextId.value =
        (Container.graph container).nextId.value + (workspace.creations number commands).length ∧
      (workspace.creations number commands).map Element.id =
        List.range' (Container.graph container).nextId.value
          (workspace.creations number commands).length ∧
      (Container.graph now).store.slots.size ≤
        (Container.graph container).store.slots.size +
          (workspace.creations number commands).length ∧
      ∀ key element, (Container.graph now).element key = .ok element →
        (∃ before, (Container.graph container).element key = .ok before ∧
          before.Endures element) ∨
        ∃ creation ∈ workspace.creations number commands, creation.Endures element := by
  induction commands generalizing workspace container with
  | nil =>
      exact ⟨container, hcontainer, rfl, rfl, Nat.le_refl _, fun key element helement =>
        .inl ⟨element, helement, rfl, id⟩⟩
  | cons command rest ih =>
      obtain ⟨middle, hmiddle, hgrows⟩ := hsound.created_spec hcontainer command
      obtain ⟨now, hnow, hnextId, hids, hslots, horigin⟩ := ih (hsound.run [command]) hmiddle
      refine ⟨now, run_cons workspace command rest ▸ hnow, ?_⟩
      rw [creations]
      generalize workspace.created number command = created at hgrows ⊢
      generalize (workspace.run [command]).2.creations number rest = later
        at hnextId hids hslots horigin ⊢
      cases hgrows with
      | calm hcalm =>
          rw [hcalm.nextId_eq] at hnextId hids
          rw [hcalm.slots_eq] at hslots
          refine ⟨hnextId, hids, hslots, fun key element helement => ?_⟩
          rcases horigin key element helement with ⟨found, hfound, hendures⟩ | hcreated
          · obtain ⟨before, hbefore, hendures'⟩ := hcalm.origin key found hfound
            exact .inl ⟨before, hbefore, hendures'.trans hendures⟩
          · exact .inr hcreated
      | created hid hnext hadded hnew =>
          rw [hnext] at hnextId hids
          simp only [Option.toList_some, List.singleton_append, List.length_cons, List.map_cons,
            List.range'_succ, hid, hids, true_and]
          refine ⟨by omega, by omega, fun key element helement => ?_⟩
          rcases horigin key element helement with ⟨found, hfound, hendures⟩ | ⟨creation, hmem, h⟩
          · rcases hnew key found hfound with ⟨before, hbefore, hendures'⟩ | hcreated
            · exact .inl ⟨before, hbefore, hendures'.trans hendures⟩
            · exact .inr ⟨_, List.mem_cons_self, hcreated.trans hendures⟩
          · exact .inr ⟨creation, List.mem_cons_of_mem _ hmem, h⟩

omit [Numbering C α P E] in
/-- A command leaves a holder its element. -/
theorem Sound.read_step (hsound : workspace.Sound) {handle : Handle}
    (hhandle : handle ∈ workspace.holders) {element : Element α}
    (hread : workspace.read handle = .ok element) (command : Command P E) :
    ∃ now, (workspace.run [command]).2.read handle = .ok now ∧ element.Endures now := by
  have hkeeps := hsound.step_keeps command
  cases hstep : workspace.step command with
  | error fault =>
      simp only [Workspace.run, hstep]
      exact ⟨element, hread, rfl, id⟩
  | ok result =>
      obtain ⟨reply, after⟩ := result
      rw [hstep] at hkeeps
      simp only [Workspace.run, hstep]
      obtain ⟨entry, hentry⟩ := hsound.owed.readable handle hhandle
      cases hread.symm.trans (read_eq hentry)
      obtain ⟨container, hcontainer, hstored⟩ := entryAt_eq_some_iff.mp hentry
      obtain ⟨container', hcontainer', hages⟩ := hkeeps.2.1.ages _ container hcontainer
      have hheld := hsound.owed.references_ne_zero hhandle hentry
      obtain ⟨now, hnow, hbecomes⟩ := hages.held handle.key entry hstored hheld
      exact ⟨now.toElement, read_eq (entryAt_eq_some_iff.mpr ⟨container', hcontainer', hnow⟩),
        hbecomes.endures⟩

omit [Numbering C α P E] in
/-- A run leaves a holder its element for as long as there is a holder. -/
theorem Sound.read_run (hsound : workspace.Sound) {handle : Handle} {commands : List (Command P E)}
    (hheld : ∀ middle, middle <+: commands → handle ∈ (workspace.run middle).2.holders)
    {element : Element α} (hread : workspace.read handle = .ok element) :
    ∃ now, (workspace.run commands).2.read handle = .ok now ∧ element.Endures now := by
  induction commands generalizing workspace element with
  | nil => exact ⟨element, hread, rfl, id⟩
  | cons command rest ih =>
      obtain ⟨found, hfound, hendures⟩ :=
        hsound.read_step (hheld [] List.nil_prefix) hread command
      have hrest : ∀ middle, middle <+: rest →
          handle ∈ ((workspace.run [command]).2.run middle).2.holders := fun middle hmiddle => by
        rw [← run_cons]
        exact hheld (command :: middle) ((List.prefix_cons_inj command).mpr hmiddle)
      obtain ⟨now, hnow, hendures'⟩ := ih (hsound.run [command]) hrest hfound
      exact ⟨now, run_cons workspace command rest ▸ hnow, hendures.trans hendures'⟩

omit [Numbering C α P E] in
/-- Two holders of one container read the same number only if they are equal. -/
theorem Sound.eq_of_id_eq (hsound : workspace.Sound) {first second : Handle}
    {element other : Element α} (hcontainer : first.container = second.container)
    (hfirst : workspace.read first = .ok element) (hsecond : workspace.read second = .ok other)
    (hid : element.id = other.id) : first = second := by
  obtain ⟨number, key⟩ := first
  obtain ⟨number', key'⟩ := second
  change number = number' at hcontainer
  subst hcontainer
  rcases workspace.container_eq number with ⟨container, hfound, -⟩ | hmissing
  · rw [read_of_container hfound] at hfirst hsecond
    obtain ⟨entry, hentry, rfl⟩ := Graph.element_eq_ok_iff.mp hfirst
    obtain ⟨entry', hentry', rfl⟩ := Graph.element_eq_ok_iff.mp hsecond
    have hgraph := LawfulContainer.graph_sound (hsound.containers number container hfound)
    have hkey := hgraph.distinct key key' entry.place entry'.place
      (Graph.place?_of_stored hentry) (Graph.place?_of_stored hentry') hid
    rw [hkey]
  · simp [read, hmissing] at hfirst

/-- A run in which handles can be told apart, and recognized, by the numbers of their elements. -/
structure Identifies (start : C) (count : Nat) (commands : List (Command P E)) : Prop where
  /-- A handle that is held from some moment on reads now what it read then, apart from the mark of
  removal, which may have been set. -/
  endures : ∀ earlier later, commands = earlier ++ later → ∀ handle,
    (∀ middle, middle <+: later →
      handle ∈ (reached start count (earlier ++ middle)).holders) →
    ∃ element now, (reached start count earlier).read handle = .ok element ∧
      (reached start count commands).read handle = .ok now ∧ element.Endures now
  /-- The elements of a container are numbered from zero in the order of their creation. -/
  numbered : ∀ number < count, (creationsFrom start count number commands).map Element.id =
    List.range (creationsFrom start count number commands).length
  /-- Whatever could ever be read of a container is an element that was created in it. -/
  created : ∀ number element, Recorded start count commands number element →
    ∃ creation ∈ creationsFrom start count number commands, creation.Endures element
  /-- Of two handles to elements of one container that are held, both read the same number or they
  are different. -/
  equal_iff : ∀ first ∈ (reached start count commands).holders,
    ∀ second ∈ (reached start count commands).holders, first.container = second.container →
      ∃ element other, (reached start count commands).read first = .ok element ∧
        (reached start count commands).read second = .ok other ∧
        (first = second ↔ element.id = other.id)

/-- A run of new containers that store nothing and number from zero tells handles apart. -/
theorem identifies_reached {start : C} (hsound : LawfulContainer.Sound start)
    (hempty : ∀ key, (Container.graph start).stored? key = none)
    (hzero : (Container.graph start).nextId.value = 0) (count : Nat)
    (commands : List (Command P E)) : Identifies start count commands := by
  have hreached := sound_reached (P := P) (E := E) hsound hempty count
  refine ⟨fun earlier later heq handle hheld => ?_, fun number hnumber => ?_,
    fun number element hrecorded => ?_, fun first hfirst second hsecond hcontainer => ?_⟩
  · subst heq
    obtain ⟨element, hread⟩ := (hreached earlier).exists_read
      (by simpa using hheld [] List.nil_prefix)
    have hlater : ∀ middle, middle <+: later →
        handle ∈ ((reached start count earlier).run middle).2.holders := fun middle hmiddle => by
      rw [reached, ← run_append]
      exact hheld middle hmiddle
    obtain ⟨now, hnow, hendures⟩ := (hreached earlier).read_run hlater hread
    refine ⟨element, now, hread, ?_, hendures⟩
    rw [reached, run_append]
    exact hnow
  · obtain ⟨now, -, -, hids, -⟩ := (hreached []).creations_spec (container_of_lt hnumber) commands
    rw [hzero, ← List.range_eq_range'] at hids
    exact hids
  · obtain ⟨earlier, later, rfl, container, key, hcontainer, helement⟩ := hrecorded
    have hstart : (reached start count ([] : List (Command P E))).containers[number]? =
        some start := container_of_lt (lt_of_reached hreached hcontainer)
    obtain ⟨now, hnow, -, -, -, horigin⟩ := (hreached []).creations_spec hstart earlier
    cases hcontainer.symm.trans hnow
    rw [creationsFrom, creations_append]
    rcases horigin key element helement with ⟨before, hbefore, -⟩ | ⟨creation, hmem, hendures⟩
    · obtain ⟨entry, hentry, -⟩ := Graph.element_eq_ok_iff.mp hbefore
      rw [hempty] at hentry
      cases hentry
    · exact ⟨creation, List.mem_append_left _ hmem, hendures⟩
  · obtain ⟨element, helement⟩ := (hreached commands).exists_read hfirst
    obtain ⟨other, hother⟩ := (hreached commands).exists_read hsecond
    refine ⟨element, other, helement, hother, fun heq => ?_,
      (hreached commands).eq_of_id_eq hcontainer helement hother⟩
    subst heq
    cases helement.symm.trans hother
    rfl

/-- Whatever is done to grammars, or to automata, handles keep their elements and are told apart by
the numbers of these. -/
theorem handles_identify (A : Type) [DecidableEq A] (count : Nat) :
    (∀ commands : List (Command Grammar.Pattern (Grammar.Edit A)),
      Identifies (Grammar.empty : Grammar A) count commands) ∧
    ∀ commands : List (Command Automaton.Pattern (Automaton.Edit A)),
      Identifies (Automaton.initial : Automaton A) count commands := by
  constructor
  · intro commands
    exact identifies_reached Grammar.sound_empty Grammar.stored?_empty rfl count commands
  · intro commands
    exact identifies_reached Automaton.sound_initial Automaton.stored?_initial rfl count commands

/-- A production that is added again after it was freed gets the slot it had and the next number. -/
example :
    let commands : List (Command Grammar.Pattern (Grammar.Edit Nat)) :=
      [.edit 0 (.addVariables 1) none,
        .edit 0 (.addProduction (.ofVariable 1) .empty) (some "held"),
        .remove 0 "held", .dropHandle "held", .reclaim 0,
        .edit 0 (.addProduction (.ofVariable 1) .empty) (some "held")]
    (creationsFrom (Grammar.empty : Grammar Nat) 1 0 commands).map Element.id = [0, 1] ∧
      (reached (Grammar.empty : Grammar Nat) 1 commands).handles.get? "held" =
        some ⟨0, ⟨0, 1⟩⟩ := by
  decide +kernel

end FormalLanguages.Workspace
