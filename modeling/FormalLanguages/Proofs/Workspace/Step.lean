/-
# No command breaks what the others rely on

Each command has one lemma of one shape: carried out in a sound workspace, it leaves a sound one in
which the containers have aged, or it ends in a fault that its caller has to expect.  Giving back a
reference that nobody has, reading through a stale key and freeing something that is in use are not
among these faults, and neither is a walk that does not end.

What holds of every step holds of every run.
-/

import FormalLanguages.Proofs.Workspace
import FormalLanguages.Workspace.Command

namespace FormalLanguages

/-- The faults that a caller has to expect: a name under which nothing is kept, a container that
does not exist or does not own the element, a search that is attached already, or numbers that have
run out. -/
def Fault.Expected : Fault → Prop
  | overflow _ => True
  | boundAssignment => True
  | foreignElement _ => True
  | missingContainer _ => True
  | emptyRegister _ => True
  | _ => False

/-- The commands that write the search kept under a name. -/
def Command.Touches {P E : Type} (name : String) : Command P E → Prop
  | .search _ keep => keep = name
  | .matchNext other => other = name
  | .rewind other => other = name
  | .next other _ => other = name
  | .drain other _ => other = name
  | .copySearch _ keep => keep = name
  | .assignSearch target _ => target = name
  | .dropSearch other => other = name
  | _ => False

@[simp] theorem Reply.orBroken_ok {β : Type} (reply : β → Reply) (result : β) :
    orBroken reply (.ok result) = reply result := rfl

@[simp] theorem Reply.orBroken_error {β : Type} (reply : β → Reply) (fault : Fault) :
    orBroken reply (.error fault) = .broken fault := rfl

theorem Reply.eq_ok_of_orBroken_flag {found : Except Fault Bool} {hit : Bool}
    (hreply : orBroken flag found = flag hit) : found = .ok hit := by
  cases found with
  | error fault => cases hreply
  | ok found =>
      cases hreply
      rfl

theorem Reply.eq_error_of_orBroken {β : Type} {reply : β → Reply} {result : Except Fault β}
    {fault : Fault} (hproper : ∀ value, reply value ≠ .broken fault)
    (hreply : orBroken reply result = .broken fault) : result = .error fault := by
  cases result with
  | error other =>
      cases hreply
      rfl
  | ok value => exact absurd hreply (hproper value)

namespace Workspace

variable {C α P E : Type} [Container C α P E]

theorem register_of_get? {ν : Type} {table : Table String ν} {name : String} {value : ν}
    (hvalue : table.get? name = some value) : register table name = .ok value := by
  simp [register, hvalue]

theorem register_eq {ν : Type} (table : Table String ν) (name : String) :
    (∃ value, table.get? name = some value ∧ register table name = .ok value) ∨
      register table name = .error (.emptyRegister name) := by
  cases hvalue : table.get? name with
  | none => exact .inr (by simp [register, hvalue])
  | some value => exact .inl ⟨value, rfl, register_of_get? hvalue⟩

theorem container_eq (workspace : Workspace C P) (number : Nat) :
    (∃ container, workspace.containers[number]? = some container ∧
      workspace.container number = .ok container) ∨
      workspace.container number = .error (.missingContainer number) := by
  cases hcontainer : workspace.containers[number]? with
  | none => exact .inr (by simp [container, containerAt, hcontainer])
  | some found => exact .inl ⟨found, rfl, containerAt_eq hcontainer⟩

/-- The axis of a new search is at no element, and finding it changes no more than the identity of
the next pattern. -/
theorem axisOf_spec (workspace : Workspace C P) (query : Query P) :
    (∃ axis serial, workspace.axisOf query = .ok (axis, { workspace with serial }) ∧
      axis.cursor = none) ∨
    ∃ name, workspace.axisOf query = .error (.emptyRegister name) := by
  cases query with
  | elements => exact .inl ⟨_, _, rfl, rfl⟩
  | groups => exact .inl ⟨_, _, rfl, rfl⟩
  | terminals => exact .inl ⟨_, _, rfl, rfl⟩
  | matching pattern => exact .inl ⟨_, _, rfl, rfl⟩
  | sharing name =>
      rcases register_eq workspace.patterns name with ⟨shared, -, hregister⟩ | hregister
      · exact .inl ⟨.matching shared none, workspace.serial, by simp [axisOf, hregister], rfl⟩
      · exact .inr ⟨name, by simp [axisOf, hregister]⟩

/-- An element of another container is not removed. -/
theorem remove_foreign {workspace : Workspace C P} {number : Nat} {name : String} {handle : Handle}
    {container : C}
    (hhandle : workspace.handles.get? name = some handle)
    (hcontainer : workspace.containers[number]? = some container)
    (hforeign : handle.container ≠ number) :
    workspace.step (.remove number name : Command P E) =
      .error (.foreignElement (Container.graph container).nextId.kind) := by
  have heq : workspace.container number = .ok container := containerAt_eq hcontainer
  simp only [step, register_of_get? hhandle, ok_bind, remove, heq, ne_eq, hforeign,
    not_false_eq_true, ↓reduceIte, error_bind]

/-- A search of a container does not become a copy of another one. -/
theorem assignSearch_bound {workspace : Workspace C P} {target source : String}
    {before search : Search P}
    (htarget : workspace.searches.get? target = some before)
    (hsearch : workspace.searches.get? source = some search) (hbound : before.isBound = true) :
    workspace.step (.assignSearch target source : Command P E) = .error .boundAssignment := by
  simp only [step, register_of_get? htarget, register_of_get? hsearch, ok_bind, hbound,
    ↓reduceIte]

/-- A change of a container answers what the container answers.  Unless an element was added, no
handle is kept. -/
theorem step_edit {workspace : Workspace C P} {number : Nat} {container now : C} {change : E}
    {answer : Answer} (hcontainer : workspace.containers[number]? = some container)
    (hedit : Container.edit container change = .ok (answer, now)) (keep : Option String)
    (hanswer : ∀ key, answer ≠ .element key) :
    workspace.step (.edit number change keep : Command P E) =
      .ok (.changed answer, workspace.setContainer number now) := by
  have heq : workspace.container number = .ok container := containerAt_eq hcontainer
  cases answer with
  | element key => exact absurd rfl (hanswer key)
  | _ => simp only [step, edit, heq, hedit, ok_bind, pure_eq_ok]

/-- A reclaim of a container answers what the container answers. -/
theorem step_reclaim {workspace : Workspace C P} {number count : Nat} {container now : C}
    (hcontainer : workspace.containers[number]? = some container)
    (hreclaim : Container.reclaim container = .ok (count, now)) :
    workspace.step (.reclaim number : Command P E) =
      .ok (.count count, workspace.setContainer number now) := by
  have heq : workspace.container number = .ok container := containerAt_eq hcontainer
  simp only [step, reclaim, heq, hreclaim, ok_bind, pure_eq_ok]

variable [LawfulContainer C α P E] {workspace after middle : Workspace C P}
  {searches : Table String (Search P)} {name : String} {search : Search P} {handle : Handle}
  {found : Match}

/-- What every command does in a sound workspace: it leaves a sound one, in which the containers
have aged and the searches that it does not write are as before, or ends in a fault that was to be
expected. -/
def Keeps (workspace : Workspace C P) (command : Command P E) :
    Except Fault (Reply × Workspace C P) → Prop
  | .ok (_, after) => after.Sound ∧ Aged workspace.containers after.containers ∧
      ∀ name, ¬command.Touches name → after.searches.get? name = workspace.searches.get? name
  | .error fault => fault.Expected

theorem Changed.keeps {command : Command P E} {reply : Reply}
    (hchanged : workspace.Changed after searches)
    (hsearches : ∀ name, ¬command.Touches name →
      searches.get? name = workspace.searches.get? name) :
    workspace.Keeps command (.ok (reply, after)) :=
  ⟨hchanged.sound, hchanged.aged, fun name htouches => by
    rw [hchanged.searches_eq, hsearches name htouches]⟩

/-- Writing the search under one name leaves all others as they are. -/
theorem keeps_of_insert {command : Command P E} {reply : Reply}
    (hexchanged : workspace.Exchanged after (workspace.searches.insert name search))
    (htouches : command.Touches name) : workspace.Keeps command (.ok (reply, after)) :=
  hexchanged.changed.keeps fun other hother => by
    have hne : other ≠ name := fun heq => hother (heq ▸ htouches)
    rw [Table.get?_insert, if_neg hne]

namespace Sound

variable (hsound : workspace.Sound)

include hsound

/-- A change that its container carries out can be carried out in the workspace. -/
theorem edit_step {number : Nat} {container now : C} {change : E} {answer : Answer}
    (hcontainer : workspace.containers[number]? = some container)
    (hedit : Container.edit container change = .ok (answer, now))
    (hedited : Edited LawfulContainer.Sound container answer now) (keep : Option String) :
    ∃ after, workspace.step (.edit number change keep : Command P E) =
        .ok (.changed answer, after) ∧
      workspace.Changed after workspace.searches := by
  have heq : workspace.container number = .ok container := containerAt_eq hcontainer
  have hchanged := hsound.replaced now hcontainer hedited.sound hedited.evolves
  cases answer with
  | element key =>
      cases keep with
      | none =>
          exact ⟨_, by simp only [step, edit, heq, hedit, ok_bind, pure_eq_ok], hchanged⟩
      | some name =>
          obtain ⟨entry, hentry⟩ := hedited.stored key rfl
          have hreadable : Readable (workspace.setContainer number now).containers
              ⟨number, key⟩ := by
            refine ⟨entry, (entryAt_replaced hcontainer now _).trans ?_⟩
            rw [if_pos rfl, hentry]
          obtain ⟨after, hkeep, hexchanged⟩ := hchanged.sound.keepHandle_spec name hreadable
          exact ⟨after, by simp only [step, edit, heq, hedit, ok_bind, pure_eq_ok, hkeep],
            hchanged.exchange (hchanged.searches_eq ▸ hexchanged)⟩
  | _ =>
      cases keep <;>
        exact ⟨_, by simp only [step, edit, heq, hedit, ok_bind, pure_eq_ok], hchanged⟩

theorem edit_keeps (number : Nat) (change : E) (keep : Option String) :
    workspace.Keeps (.edit number change keep : Command P E)
      (workspace.step (.edit number change keep)) := by
  rcases workspace.container_eq number with ⟨container, hcontainer, heq⟩ | heq
  · rcases LawfulContainer.edit_spec (hsound.containers number container hcontainer) change with
      ⟨answer, now, hedit, hedited⟩ | ⟨kind, hedit⟩
    · obtain ⟨after, hstep, hchanged⟩ := hsound.edit_step hcontainer hedit hedited keep
      rw [hstep]
      exact hchanged.keeps fun _ _ => rfl
    · simp only [step, edit, heq, hedit, ok_bind, error_bind]
      exact trivial
  · simp only [step, edit, heq, error_bind]
    exact trivial

/-- An element that is kept can be removed from the container that owns it. -/
theorem remove_step (hhandle : workspace.handles.get? name = some handle) :
    ∃ removed after, workspace.step (.remove handle.container name : Command P E) =
        .ok (.flag removed, after) ∧
      workspace.Changed after workspace.searches := by
  obtain ⟨entry, hentry⟩ := hsound.readable_of_handle hhandle
  obtain ⟨container, hcontainer, hstored⟩ := entryAt_eq_some_iff.mp hentry
  have heq : workspace.container handle.container = .ok container := containerAt_eq hcontainer
  obtain ⟨graph, hremove, hgraph, hremoved⟩ := Graph.remove_removed
    (LawfulContainer.graph_sound (hsound.containers _ container hcontainer)) hstored
  refine ⟨!entry.deleted, _, ?_, hsound.removed hcontainer hgraph hremoved⟩
  simp only [step, register_of_get? hhandle, ok_bind, remove, heq, ne_eq, not_true_eq_false,
    ↓reduceIte, hremove, pure_eq_ok]

theorem remove_keeps (number : Nat) (name : String) :
    workspace.Keeps (.remove number name : Command P E) (workspace.step (.remove number name)) := by
  rcases register_eq workspace.handles name with ⟨handle, hhandle, hregister⟩ | hregister
  · rcases workspace.container_eq number with ⟨container, hcontainer, heq⟩ | heq
    · by_cases hforeign : handle.container = number
      · subst hforeign
        obtain ⟨removed, after, hstep, hchanged⟩ := hsound.remove_step (E := E) hhandle
        rw [hstep]
        exact hchanged.keeps fun _ _ => rfl
      · rw [remove_foreign hhandle hcontainer hforeign]
        exact trivial
    · simp only [step, hregister, ok_bind, remove, heq, error_bind]
      exact trivial
  · simp only [step, hregister, error_bind]
    exact trivial

theorem reclaim_step {number : Nat} {container : C}
    (hcontainer : workspace.containers[number]? = some container) :
    ∃ count after, workspace.step (.reclaim number : Command P E) = .ok (.count count, after) ∧
      workspace.Changed after workspace.searches := by
  obtain ⟨count, now, hreclaim, hnow, hswept⟩ :=
    LawfulContainer.reclaim_spec (hsound.containers number container hcontainer)
  exact ⟨count, _, step_reclaim hcontainer hreclaim,
    hsound.replaced now hcontainer hnow hswept.evolves⟩

theorem reclaim_keeps (number : Nat) :
    workspace.Keeps (.reclaim number : Command P E) (workspace.step (.reclaim number)) := by
  rcases workspace.container_eq number with ⟨container, hcontainer, -⟩ | heq
  · obtain ⟨count, after, hstep, hchanged⟩ := hsound.reclaim_step (E := E) hcontainer
    rw [hstep]
    exact hchanged.keeps fun _ _ => rfl
  · simp only [step, reclaim, heq, error_bind]
    exact trivial

theorem copyHandle_step {source : String} (hhandle : workspace.handles.get? source = some handle)
    (keep : String) :
    ∃ after, workspace.step (.copyHandle source keep : Command P E) = .ok (.done, after) ∧
      workspace.Exchanged after workspace.searches := by
  obtain ⟨after, hkeep, hexchanged⟩ :=
    hsound.keepHandle_spec keep (hsound.readable_of_handle hhandle)
  exact ⟨after, by simp only [step, register_of_get? hhandle, hkeep, ok_bind, pure_eq_ok],
    hexchanged⟩

theorem copyHandle_keeps (source keep : String) :
    workspace.Keeps (.copyHandle source keep : Command P E)
      (workspace.step (.copyHandle source keep)) := by
  rcases register_eq workspace.handles source with ⟨handle, hhandle, -⟩ | hregister
  · obtain ⟨after, hstep, hexchanged⟩ := hsound.copyHandle_step (E := E) hhandle keep
    rw [hstep]
    exact hexchanged.changed.keeps fun _ _ => rfl
  · simp only [step, hregister, error_bind]
    exact trivial

theorem assignHandle_step {target source : String} {before : Handle}
    (htarget : workspace.handles.get? target = some before)
    (hhandle : workspace.handles.get? source = some handle) :
    ∃ after, workspace.step (.assignHandle target source : Command P E) =
        .ok (.handle (some handle), after) ∧
      workspace.Exchanged after workspace.searches := by
  obtain ⟨after, hkeep, hexchanged⟩ :=
    hsound.keepHandle_spec target (hsound.readable_of_handle hhandle)
  exact ⟨after, by simp only [step, register_of_get? htarget, register_of_get? hhandle, hkeep,
    ok_bind, pure_eq_ok], hexchanged⟩

theorem assignHandle_keeps (target source : String) :
    workspace.Keeps (.assignHandle target source : Command P E)
      (workspace.step (.assignHandle target source)) := by
  rcases register_eq workspace.handles target with ⟨before, hbefore, htarget⟩ | htarget
  · rcases register_eq workspace.handles source with ⟨handle, hhandle, -⟩ | hregister
    · obtain ⟨after, hstep, hexchanged⟩ := hsound.assignHandle_step (E := E) hbefore hhandle
      rw [hstep]
      exact hexchanged.changed.keeps fun _ _ => rfl
    · simp only [step, htarget, hregister, ok_bind, error_bind]
      exact trivial
  · simp only [step, htarget, error_bind]
    exact trivial

theorem dropHandle_step (name : String) :
    ∃ after, workspace.step (.dropHandle name : Command P E) =
        .ok (.flag (workspace.handles.get? name).isSome, after) ∧
      workspace.Exchanged after workspace.searches := by
  obtain ⟨after, hdrop, hexchanged⟩ := hsound.dropHandle_spec name
  exact ⟨after, by simp only [step, hdrop, ok_bind, pure_eq_ok], hexchanged⟩

theorem dropHandle_keeps (name : String) :
    workspace.Keeps (.dropHandle name : Command P E) (workspace.step (.dropHandle name)) := by
  obtain ⟨after, hstep, hexchanged⟩ := hsound.dropHandle_step (E := E) name
  rw [hstep]
  exact hexchanged.changed.keeps fun _ _ => rfl

/-- A new search of a container refers to nothing and can be kept. -/
theorem search_step {number : Nat} {container : C} {query : Query P} {axis : Axis P} {serial : Nat}
    (hcontainer : workspace.containers[number]? = some container)
    (haxis : workspace.axisOf query = .ok (axis, { workspace with serial }))
    (hcursor : axis.cursor = none) (keep : String) :
    ∃ after, workspace.step (.search (some (number, query)) keep : Command P E) =
        .ok (.done, after) ∧
      workspace.Exchanged after (workspace.searches.insert keep (.along number axis)) := by
  have heq : workspace.container number = .ok container := containerAt_eq hcontainer
  have hserial := hsound.withPatterns workspace.patterns serial
  obtain ⟨after, hkeep, hexchanged⟩ := hserial.sound.keepSearch_spec keep
    (Search.fit_along hcontainer axis) (Search.held_along hcursor)
  refine ⟨after, ?_, hexchanged.sound, hexchanged.recounted, hexchanged.searches_eq⟩
  simp only [step, newSearch, heq, haxis, hkeep, ok_bind, pure_eq_ok]

/-- A new search of nothing can be kept. -/
theorem search_unbound_step (keep : String) :
    ∃ after, workspace.step (.search none keep : Command P E) = .ok (.done, after) ∧
      workspace.Exchanged after (workspace.searches.insert keep .unbound) := by
  obtain ⟨after, hkeep, hexchanged⟩ := hsound.keepSearch_spec keep
    (Search.fit_unbound workspace.containers.size) fun handle hhandle => by cases hhandle
  exact ⟨after, by simp only [step, newSearch, hkeep, ok_bind, pure_eq_ok], hexchanged⟩

theorem search_keeps (target : Option (Nat × Query P)) (keep : String) :
    workspace.Keeps (.search target keep : Command P E) (workspace.step (.search target keep)) := by
  cases target with
  | none =>
      obtain ⟨after, hstep, hexchanged⟩ := hsound.search_unbound_step (E := E) keep
      rw [hstep]
      exact keeps_of_insert hexchanged rfl
  | some target =>
      obtain ⟨number, query⟩ := target
      rcases workspace.container_eq number with ⟨container, hcontainer, heq⟩ | heq
      · rcases workspace.axisOf_spec query with ⟨axis, serial, haxis, hcursor⟩ | ⟨name, haxis⟩
        · obtain ⟨after, hstep, hexchanged⟩ :=
            hsound.search_step (E := E) hcontainer haxis hcursor keep
          rw [hstep]
          exact keeps_of_insert hexchanged rfl
        · simp only [step, newSearch, heq, haxis, ok_bind, error_bind]
          exact trivial
      · simp only [step, newSearch, heq, error_bind]
        exact trivial

/-- Going on to the next match of a search that is kept keeps the search behind it. -/
theorem matchNext_step (hsearch : workspace.searches.get? name = some search) :
    ∃ found next after, search.matchNext workspace.containers = .ok (found, next) ∧
      workspace.step (.matchNext name : Command P E) = .ok (.orBroken .flag found, after) ∧
      workspace.Exchanged after (workspace.searches.insert name next) := by
  have hregister := register_of_get? hsearch
  obtain ⟨found, next, hnext, hstepped⟩ :=
    Search.matchNext_spec hsound.containers (hsound.fit name search hsearch) (hsound.held hsearch)
  obtain ⟨after, hkeep, hexchanged⟩ := hsound.keepSearch_spec name hstepped.fit hstepped.held
  refine ⟨found, next, after, hnext, ?_, hexchanged⟩
  simp only [step, hregister, hnext, hkeep, ok_bind, pure_eq_ok]

theorem next_step (hsearch : workspace.searches.get? name = some search) (keep : Option String) :
    ∃ found next after, search.matchNext workspace.containers = .ok (found, next) ∧
      workspace.step (.next name keep : Command P E) =
        .ok (.orBroken (fun hit => .row (if hit then some next.current else none)) found, after) ∧
      workspace.Exchanged after (workspace.searches.insert name next) := by
  have hregister := register_of_get? hsearch
  obtain ⟨found, next, hnext, hstepped⟩ :=
    Search.matchNext_spec hsound.containers (hsound.fit name search hsearch) (hsound.held hsearch)
  obtain ⟨middle, hkeep, hexchanged⟩ := hsound.keepSearch_spec name hstepped.fit hstepped.held
  cases found with
  | error fault =>
      refine ⟨.error fault, next, middle, hnext, ?_, hexchanged⟩
      simp only [step, hregister, hnext, hkeep, ok_bind, pure_eq_ok]
      rfl
  | ok found =>
      cases found with
      | false =>
          refine ⟨.ok false, next, middle, hnext, ?_, hexchanged⟩
          simp only [step, hregister, hnext, hkeep, ok_bind, pure_eq_ok]
          rfl
      | true =>
          cases keep with
          | none =>
              refine ⟨.ok true, next, middle, hnext, ?_, hexchanged⟩
              simp only [step, hregister, hnext, hkeep, ok_bind, pure_eq_ok]
              rfl
          | some keep =>
              have hreadable (handle : Handle) (hhandle : next.current.element = some handle) :
                  Readable middle.containers handle :=
                hexchanged.recounted.readable
                  (hstepped.held handle (List.mem_append_left _ (by simp [hhandle])))
              obtain ⟨after, hkeepMatch, hexchangedMatch⟩ :=
                hexchanged.sound.keepMatch_spec keep hreadable
              refine ⟨.ok true, next, after, hnext, ?_, hexchanged.trans hexchangedMatch⟩
              simp only [step, hregister, hnext, hkeep, hkeepMatch, ok_bind, pure_eq_ok]
              rfl

theorem drain_step (hsearch : workspace.searches.get? name = some search) (limit : Option Nat) :
    ∃ rows last after, search.takeUpTo workspace.containers limit = .ok (rows, last) ∧
      workspace.step (.drain name limit : Command P E) = .ok (.orBroken .rows rows, after) ∧
      workspace.Exchanged after (workspace.searches.insert name last) := by
  have hregister := register_of_get? hsearch
  obtain ⟨rows, last, bound, htake, htaken⟩ := Search.takeUpTo_spec hsound.containers
    (hsound.fit name search hsearch) (hsound.held hsearch) limit
  obtain ⟨after, hkeep, hexchanged⟩ := hsound.keepSearch_spec name htaken.fit htaken.held
  refine ⟨rows, last, after, htake, ?_, hexchanged⟩
  simp only [step, hregister, htake, hkeep, ok_bind, pure_eq_ok]

/-- A search whose pattern does not name the greatest slot is not broken off. -/
theorem drain_fitting_step (hsearch : workspace.searches.get? name = some search)
    (hfits : ¬search.Overruns C) (limit : Option Nat) :
    ∃ rows last after, search.takeUpTo workspace.containers limit = .ok (.ok rows, last) ∧
      workspace.step (.drain name limit : Command P E) = .ok (.rows rows, after) ∧
      workspace.Exchanged after (workspace.searches.insert name last) := by
  obtain ⟨rows, last, after, htake, hstep, hexchanged⟩ :=
    hsound.drain_step (E := E) hsearch limit
  obtain ⟨_, _, _, htake', htaken⟩ := Search.takeUpTo_spec hsound.containers
    (hsound.fit name search hsearch) (hsound.held hsearch) limit
  cases htake.symm.trans htake'
  cases rows with
  | error fault => exact absurd (htaken.broken fault rfl) hfits
  | ok rows => exact ⟨rows, last, after, htake, hstep, hexchanged⟩

theorem rewind_step (hsearch : workspace.searches.get? name = some search) :
    ∃ rewound after, search.rewind workspace.containers = .ok rewound ∧
      workspace.step (.rewind name : Command P E) = .ok (.done, after) ∧
      workspace.Exchanged after (workspace.searches.insert name rewound) := by
  have hregister := register_of_get? hsearch
  obtain ⟨rewound, hrewind, hfit, hheld, -⟩ :=
    Search.rewind_spec hsound.containers (hsound.fit name search hsearch)
  obtain ⟨after, hkeep, hexchanged⟩ := hsound.keepSearch_spec name hfit hheld
  refine ⟨rewound, after, hrewind, ?_, hexchanged⟩
  simp only [step, hregister, hrewind, hkeep, ok_bind, pure_eq_ok]

theorem copySearch_step {source : String}
    (hsearch : workspace.searches.get? source = some search) (keep : String) :
    ∃ after, workspace.step (.copySearch source keep : Command P E) = .ok (.done, after) ∧
      workspace.Exchanged after (workspace.searches.insert keep search.copy) := by
  obtain ⟨after, hkeep, hexchanged⟩ := hsound.keepSearch_spec keep
    (Search.fit_copy (hsound.fit source search hsearch)) (Search.held_copy (hsound.held hsearch))
  exact ⟨after, by simp only [step, register_of_get? hsearch, hkeep, ok_bind, pure_eq_ok],
    hexchanged⟩

theorem copySearch_keeps (source keep : String) :
    workspace.Keeps (.copySearch source keep : Command P E)
      (workspace.step (.copySearch source keep)) := by
  rcases register_eq workspace.searches source with ⟨search, hsearch, -⟩ | hregister
  · obtain ⟨after, hstep, hexchanged⟩ := hsound.copySearch_step (E := E) hsearch keep
    rw [hstep]
    exact keeps_of_insert hexchanged rfl
  · simp only [step, hregister, error_bind]
    exact trivial

/-- A search of nothing can become a copy of any other. -/
theorem assignSearch_step {target source : String} {before : Search P}
    (htarget : workspace.searches.get? target = some before)
    (hsearch : workspace.searches.get? source = some search) (hunbound : before.isBound = false) :
    ∃ after, workspace.step (.assignSearch target source : Command P E) =
        .ok (.flag search.isBound, after) ∧
      workspace.Exchanged after (workspace.searches.insert target search.copy) := by
  obtain ⟨after, hkeep, hexchanged⟩ := hsound.keepSearch_spec target
    (Search.fit_copy (hsound.fit source search hsearch)) (Search.held_copy (hsound.held hsearch))
  exact ⟨after, by simp only [step, register_of_get? htarget, register_of_get? hsearch, ok_bind,
    hunbound, Bool.false_eq_true, ↓reduceIte, hkeep, pure_eq_ok], hexchanged⟩

theorem assignSearch_keeps (target source : String) :
    workspace.Keeps (.assignSearch target source : Command P E)
      (workspace.step (.assignSearch target source)) := by
  rcases register_eq workspace.searches target with ⟨before, hbefore, htarget⟩ | htarget
  · rcases register_eq workspace.searches source with ⟨search, hsearch, hregister⟩ | hregister
    · cases hbound : before.isBound with
      | true =>
          rw [assignSearch_bound hbefore hsearch hbound]
          exact trivial
      | false =>
          obtain ⟨after, hstep, hexchanged⟩ :=
            hsound.assignSearch_step (E := E) hbefore hsearch hbound
          rw [hstep]
          exact keeps_of_insert hexchanged rfl
    · simp only [step, htarget, hregister, ok_bind, error_bind]
      exact trivial
  · simp only [step, htarget, error_bind]
    exact trivial

theorem dropSearch_step (name : String) :
    ∃ after, workspace.step (.dropSearch name : Command P E) =
        .ok (.flag (workspace.searches.get? name).isSome, after) ∧
      workspace.Exchanged after (workspace.searches.erase name) := by
  obtain ⟨after, hdrop, hexchanged⟩ := hsound.dropSearch_spec name
  exact ⟨after, by simp only [step, hdrop, ok_bind, pure_eq_ok], hexchanged⟩

theorem dropSearch_keeps (name : String) :
    workspace.Keeps (.dropSearch name : Command P E) (workspace.step (.dropSearch name)) := by
  obtain ⟨after, hstep, hexchanged⟩ := hsound.dropSearch_step (E := E) name
  rw [hstep]
  apply hexchanged.changed.keeps
  intro other hother
  have hne : other ≠ name := fun heq => hother heq.symm
  rw [Table.get?_erase, if_neg hne]

/-- Keeping a handle to the element of a match needs no more than that the element is stored. -/
theorem takeElement_step {found : Match} (keep : String)
    (hreadable : ∀ handle, found.element = some handle → Readable workspace.containers handle) :
    ∃ after, workspace.takeElement found keep = .ok (.handle found.element, after) ∧
      workspace.Exchanged after workspace.searches := by
  cases helement : found.element with
  | none =>
      exact ⟨workspace, by simp only [takeElement, helement, pure_eq_ok], hsound, .refl _, rfl⟩
  | some handle =>
      obtain ⟨after, hkeep, hexchanged⟩ := hsound.keepHandle_spec keep (hreadable handle helement)
      exact ⟨after, by simp only [takeElement, helement, hkeep, ok_bind, pure_eq_ok], hexchanged⟩

theorem takeFromSearch_step {source : String}
    (hsearch : workspace.searches.get? source = some search) (keep : String) :
    ∃ after, workspace.step (.takeFromSearch source keep : Command P E) =
        .ok (.handle search.current.element, after) ∧
      workspace.Exchanged after workspace.searches := by
  obtain ⟨after, htake, hexchanged⟩ :=
    hsound.takeElement_step keep fun handle => hsound.readable_of_current hsearch
  exact ⟨after, by simp only [step, register_of_get? hsearch, ok_bind, htake], hexchanged⟩

theorem takeFromSearch_keeps (source keep : String) :
    workspace.Keeps (.takeFromSearch source keep : Command P E)
      (workspace.step (.takeFromSearch source keep)) := by
  rcases register_eq workspace.searches source with ⟨search, hsearch, -⟩ | hregister
  · obtain ⟨after, hstep, hexchanged⟩ := hsound.takeFromSearch_step (E := E) hsearch keep
    rw [hstep]
    exact hexchanged.changed.keeps fun _ _ => rfl
  · simp only [step, hregister, error_bind]
    exact trivial

theorem takeFromMatch_step {source : String}
    (hfound : workspace.results.get? source = some found) (keep : String) :
    ∃ after, workspace.step (.takeFromMatch source keep : Command P E) =
        .ok (.handle found.element, after) ∧
      workspace.Exchanged after workspace.searches := by
  obtain ⟨after, htake, hexchanged⟩ :=
    hsound.takeElement_step keep fun handle => hsound.readable_of_match hfound
  exact ⟨after, by simp only [step, register_of_get? hfound, ok_bind, htake], hexchanged⟩

theorem takeFromMatch_keeps (source keep : String) :
    workspace.Keeps (.takeFromMatch source keep : Command P E)
      (workspace.step (.takeFromMatch source keep)) := by
  rcases register_eq workspace.results source with ⟨found, hfound, -⟩ | hregister
  · obtain ⟨after, hstep, hexchanged⟩ := hsound.takeFromMatch_step (E := E) hfound keep
    rw [hstep]
    exact hexchanged.changed.keeps fun _ _ => rfl
  · simp only [step, hregister, error_bind]
    exact trivial

theorem copyMatch_step {source : String} (hfound : workspace.results.get? source = some found)
    (keep : String) :
    ∃ after, workspace.step (.copyMatch source keep : Command P E) =
        .ok (.row (some found), after) ∧
      workspace.Exchanged after workspace.searches := by
  obtain ⟨after, hkeep, hexchanged⟩ :=
    hsound.keepMatch_spec keep fun handle => hsound.readable_of_match hfound
  exact ⟨after, by simp only [step, register_of_get? hfound, hkeep, ok_bind, pure_eq_ok],
    hexchanged⟩

theorem copyMatch_keeps (source keep : String) :
    workspace.Keeps (.copyMatch source keep : Command P E)
      (workspace.step (.copyMatch source keep)) := by
  rcases register_eq workspace.results source with ⟨found, hfound, -⟩ | hregister
  · obtain ⟨after, hstep, hexchanged⟩ := hsound.copyMatch_step (E := E) hfound keep
    rw [hstep]
    exact hexchanged.changed.keeps fun _ _ => rfl
  · simp only [step, hregister, error_bind]
    exact trivial

theorem dropMatch_step (name : String) :
    ∃ after, workspace.step (.dropMatch name : Command P E) =
        .ok (.flag (workspace.results.get? name).isSome, after) ∧
      workspace.Exchanged after workspace.searches := by
  obtain ⟨after, hdrop, hexchanged⟩ := hsound.dropMatch_spec name
  exact ⟨after, by simp only [step, hdrop, ok_bind, pure_eq_ok], hexchanged⟩

theorem dropMatch_keeps (name : String) :
    workspace.Keeps (.dropMatch name : Command P E) (workspace.step (.dropMatch name)) := by
  obtain ⟨after, hstep, hexchanged⟩ := hsound.dropMatch_step (E := E) name
  rw [hstep]
  exact hexchanged.changed.keeps fun _ _ => rfl

/-- Every command keeps a workspace sound, or ends in a fault that was to be expected. -/
theorem step_keeps (command : Command P E) : workspace.Keeps command (workspace.step command) := by
  cases command with
  | edit number change keep => exact hsound.edit_keeps number change keep
  | remove number name => exact hsound.remove_keeps number name
  | reclaim number => exact hsound.reclaim_keeps number
  | copyHandle source keep => exact hsound.copyHandle_keeps source keep
  | assignHandle target source => exact hsound.assignHandle_keeps target source
  | dropHandle name => exact hsound.dropHandle_keeps name
  | search target keep => exact hsound.search_keeps target keep
  | matchNext name =>
      rcases register_eq workspace.searches name with ⟨search, hsearch, -⟩ | hregister
      · obtain ⟨found, next, after, -, hstep, hexchanged⟩ := hsound.matchNext_step (E := E) hsearch
        exact hstep ▸ keeps_of_insert hexchanged rfl
      · simp only [step, hregister, error_bind]
        exact trivial
  | rewind name =>
      rcases register_eq workspace.searches name with ⟨search, hsearch, -⟩ | hregister
      · obtain ⟨rewound, after, -, hstep, hexchanged⟩ := hsound.rewind_step (E := E) hsearch
        exact hstep ▸ keeps_of_insert hexchanged rfl
      · simp only [step, hregister, error_bind]
        exact trivial
  | next name keep =>
      rcases register_eq workspace.searches name with ⟨search, hsearch, -⟩ | hregister
      · obtain ⟨found, next, after, -, hstep, hexchanged⟩ :=
          hsound.next_step (E := E) hsearch keep
        exact hstep ▸ keeps_of_insert hexchanged rfl
      · simp only [step, hregister, error_bind]
        exact trivial
  | drain name limit =>
      rcases register_eq workspace.searches name with ⟨search, hsearch, -⟩ | hregister
      · obtain ⟨rows, last, after, -, hstep, hexchanged⟩ :=
          hsound.drain_step (E := E) hsearch limit
        exact hstep ▸ keeps_of_insert hexchanged rfl
      · simp only [step, hregister, error_bind]
        exact trivial
  | copySearch source keep => exact hsound.copySearch_keeps source keep
  | assignSearch target source => exact hsound.assignSearch_keeps target source
  | dropSearch name => exact hsound.dropSearch_keeps name
  | takeFromSearch source keep => exact hsound.takeFromSearch_keeps source keep
  | takeFromMatch source keep => exact hsound.takeFromMatch_keeps source keep
  | copyMatch source keep => exact hsound.copyMatch_keeps source keep
  | dropMatch name => exact hsound.dropMatch_keeps name
  | keepPattern pattern keep =>
      exact (hsound.withPatterns (workspace.keepPattern keep pattern).patterns
        (workspace.serial + 1)).changed.keeps fun _ _ => rfl
  | dropPattern name =>
      exact (hsound.withPatterns (workspace.patterns.erase name)
        workspace.serial).changed.keeps fun _ _ => rfl

/-- What every command of a run preserves, in workspaces that are sound, holds behind the run. -/
theorem run_preserves {commands : List (Command P E)} (Holds : Workspace C P → Prop)
    (hstep : ∀ (before after : Workspace C P) (command : Command P E) (reply : Reply),
      before.Sound → command ∈ commands → before.step command = .ok (reply, after) →
        Holds before → Holds after)
    (hholds : Holds workspace) :
    (workspace.run commands).2.Sound ∧ Holds (workspace.run commands).2 := by
  induction commands generalizing workspace with
  | nil => exact ⟨hsound, hholds⟩
  | cons command rest ih =>
      have hrest (before after : Workspace C P) (other : Command P E) (reply : Reply)
          (hbefore : before.Sound) (hother : other ∈ rest) :=
        hstep before after other reply hbefore (List.mem_cons_of_mem _ hother)
      have hkeeps := hsound.step_keeps command
      cases hresult : workspace.step command with
      | ok result =>
          obtain ⟨reply, after⟩ := result
          rw [hresult] at hkeeps
          simp only [Workspace.run, hresult]
          exact ih hkeeps.1 hrest
            (hstep workspace after command reply hsound List.mem_cons_self hresult hholds)
      | error fault =>
          simp only [Workspace.run, hresult]
          exact ih hsound hrest hholds

/-- A run keeps a workspace sound. -/
theorem run (commands : List (Command P E)) : (workspace.run commands).2.Sound :=
  (hsound.run_preserves (fun _ => True) (fun _ _ _ _ _ _ _ => id) trivial).1

end Sound

/-- The workspace that a run of commands reaches from a number of new containers. -/
def reached (start : C) (count : Nat) (commands : List (Command P E)) : Workspace C P :=
  ((ofContainers (Array.replicate count start)).run commands).2

/-- Whatever is done to new containers that store nothing, the workspace is sound. -/
theorem sound_reached {start : C} (hstart : LawfulContainer.Sound start)
    (hempty : ∀ key, (Container.graph start).stored? key = none) (count : Nat)
    (commands : List (Command P E)) : (reached start count commands).Sound := by
  have hcontainer (number : Nat) (container : C)
      (hfound : (Array.replicate count start)[number]? = some container) : container = start := by
    rw [Array.getElem?_replicate] at hfound
    split at hfound
    · exact (Option.some.inj hfound).symm
    · cases hfound
  have hinitial : (ofContainers (Array.replicate count start) : Workspace C P).Sound := by
    refine ⟨?_, ⟨?_, ?_⟩, ?_⟩
    · intro number container hfound
      exact hcontainer number container hfound ▸ hstart
    · intro handle entry hentry
      obtain ⟨container, hfound, hstored⟩ := entryAt_eq_some_iff.mp hentry
      rw [hcontainer _ container hfound, hempty] at hstored
      cases hstored
    · intro handle hhandle
      cases hhandle
    · intro name search hsearch
      cases hsearch
  exact hinitial.run commands

end Workspace

end FormalLanguages
