/-
# Only a misuse ends in a fault

An operation can go wrong in many places: a link of a chain, an entry of an index or the position of
a search might lead to an element that has been freed, a reference might be given back twice, a slot
might be missing, a new element might be put where another one is.  None of this happens in a run
whose commands are applied to things that exist, as long as there are numbers left for new elements.
A command then ends in a fault exactly if it hands an element to a container that does not own it,
or assigns to a search that is attached, and nothing changes.

Matching an element against a pattern directly, with slots of the caller's own, is the one other
operation that can be misused: there may be too few of them.  A search provides its slots itself,
and they are enough unless its pattern names the greatest of all slots.
-/

import Mathlib.Algebra.Group.Nat.Defs
import FormalLanguages.Proofs.Workspace.Identity

namespace FormalLanguages

/-- Whether a store has a place for one more value: the slot that is used next is empty, or there
is none to be used again and a key is left for a new one. -/
def Store.Open {α : Type} (store : Store α) : Prop :=
  match store.free with
  | [] => store.slots.size < 2 ^ 32
  | index :: _ => ∃ generation, store.slots[index]? = some ⟨generation, none⟩

theorem Store.Tidy.isOpen {α : Type} {store : Store α} (htidy : store.Tidy)
    (hsize : store.slots.size < 2 ^ 32) : store.Open := by
  unfold Open
  split
  · exact hsize
  · next index rest hfree => exact (htidy.mem_free_iff index).mp (hfree ▸ List.mem_cons_self)

namespace Automaton

variable {A : Type} {automaton after : Automaton A}

/-- Whether each state, and nothing else, has a mark that tells whether it accepts. -/
def Marked (automaton : Automaton A) : Prop := automaton.accepting.size = automaton.stateCount

theorem Marked.congr (hmarked : automaton.Marked)
    (haccepting : after.accepting.size = automaton.accepting.size)
    (hsize : after.graph.groups.size = automaton.graph.groups.size) : after.Marked :=
  haccepting.trans (hmarked.trans hsize.symm)

theorem Marked.edited [DecidableEq A] {change : Edit A} {answer : Answer}
    (hmarked : automaton.Marked) (hsound : automaton.Sound)
    (hedit : automaton.edit change = .ok (answer, after)) : after.Marked := by
  cases hsound.effect_of_edit hedit with
  | widened _ hwidened =>
      have hsize := hwidened.size_eq
      simp only [Marked, stateCount] at hmarked ⊢
      simp [hmarked, hsize]
  | marked => exact hmarked.congr Array.size_setIfInBounds rfl
  | created _ _ _ happended => exact hmarked.congr rfl happended.size_eq
  | _ => exact hmarked

theorem Marked.develops [DecidableEq A] (hmarked : automaton.Marked) (hsound : automaton.Sound)
    (hdevelops : Develops automaton after) : after.Marked := by
  cases hdevelops with
  | edited hedit => exact hmarked.edited hsound hedit
  | relabeled hgraph hrelabeled hpersists =>
      exact hmarked.congr rfl hrelabeled.size_eq
  | reclaimed hreclaim =>
      have hsize := (swept_of_reclaim_eq_ok hsound hreclaim).2.size_eq
      obtain ⟨_, -, hreclaim⟩ := bind_eq_ok.mp hreclaim
      cases hreclaim
      exact hmarked.congr rfl hsize

end Automaton

namespace Workspace

variable {C α P E : Type} [Container C α P E]

/-- Whether something is kept under a name. -/
def Full {ν : Type} (table : Table String ν) (name : String) : Prop :=
  ∃ value, table.get? name = some value

/-- Whether the things that a command is applied to exist: the containers that it numbers and what
it takes from under a name. -/
def Provides (workspace : Workspace C P) : Command P E → Prop
  | .edit number _ _ => number < workspace.containers.size
  | .remove number name => number < workspace.containers.size ∧ Full workspace.handles name
  | .reclaim number => number < workspace.containers.size
  | .copyHandle source _ => Full workspace.handles source
  | .assignHandle target source => Full workspace.handles target ∧ Full workspace.handles source
  | .search (some (number, .sharing name)) _ =>
      number < workspace.containers.size ∧ Full workspace.patterns name
  | .search (some (number, _)) _ => number < workspace.containers.size
  | .matchNext name => Full workspace.searches name
  | .rewind name => Full workspace.searches name
  | .next name _ => Full workspace.searches name
  | .drain name _ => Full workspace.searches name
  | .copySearch source _ => Full workspace.searches source
  | .assignSearch target source => Full workspace.searches target ∧ Full workspace.searches source
  | .takeFromSearch source _ => Full workspace.searches source
  | .takeFromMatch source _ => Full workspace.results source
  | .copyMatch source _ => Full workspace.results source
  | _ => True

/-- The two ways to misuse a command, with the fault that each of them ends in.  The kind is that of
the numbers of the elements. -/
inductive Misuse (kind : IndexKind) (workspace : Workspace C P) : Command P E → Fault → Prop
  /-- The element is one of another container. -/
  | foreign {number : Nat} {name : String} {handle : Handle}
      (hhandle : workspace.handles.get? name = some handle)
      (hforeign : handle.container ≠ number) :
      Misuse kind workspace (.remove number name) (.foreignElement kind)
  /-- The search that is to be replaced is one of a container. -/
  | bound {target source : String} {search : Search P}
      (hsearch : workspace.searches.get? target = some search) (hbound : search.isBound = true) :
      Misuse kind workspace (.assignSearch target source) .boundAssignment

/-- A workspace in which only misuse ends in a fault. -/
structure Faultless (kind : IndexKind) (workspace : Workspace C P) : Prop where
  step_eq_error_iff : ∀ command : Command P E, workspace.Provides command → ∀ fault,
    workspace.step command = .error fault ↔ Misuse kind workspace command fault
  /-- A fault changes nothing. -/
  unchanged : ∀ (command : Command P E) fault, workspace.step command = .error fault →
    workspace.run [command] = ([.error fault], workspace)
  /-- Whatever is held can be read. -/
  readable : ∀ handle ∈ workspace.holders, ∃ element, workspace.read handle = .ok element
  shared : ∀ name, Full workspace.patterns name → ∃ count, workspace.shareCount name = .ok count
  /-- There is always a place for the next element. -/
  storable : ∀ (number : Nat) (container : C), workspace.containers[number]? = some container →
    (Container.graph container).store.Open
  /-- A search is broken off only if its pattern names the greatest slot. -/
  unbroken : ∀ (command : Command P E) fault after,
    workspace.step command = .ok (.broken fault, after) → ∃ name search, command.Touches name ∧
      workspace.searches.get? name = some search ∧ search.Overruns C
  /-- Matching what is held against a pattern directly faults only for a slot of the pattern that
  the caller has not provided. -/
  tested : ∀ (pattern : P), ¬Container.Overruns C pattern → ∀ handle ∈ workspace.holders,
    ∀ slots, ∃ verdict last, workspace.test pattern handle slots = .ok (verdict, last) ∧
      ∀ fault, verdict = .error fault → ∃ slot, slots.length ≤ slot ∧
        slot < Container.slotCount C pattern ∧ fault = .outOfBounds slots.length slot

variable {workspace : Workspace C P} {command : Command P E} {kind : IndexKind}

theorem exists_container {number : Nat} (hnumber : number < workspace.containers.size) :
    ∃ container, workspace.containers[number]? = some container :=
  ⟨workspace.containers[number], Array.getElem?_eq_getElem hnumber⟩

theorem run_of_error {fault : Fault} (hstep : workspace.step command = .error fault) :
    workspace.run [command] = ([.error fault], workspace) := by
  simp only [Workspace.run, hstep]

theorem shareCount_of_full {name : String} (hfull : Full workspace.patterns name) :
    ∃ count, workspace.shareCount name = .ok count := by
  obtain ⟨shared, hshared⟩ := hfull
  exact ⟨_, by simp only [shareCount, register_of_get? hshared, ok_bind, pure_eq_ok]; rfl⟩

/-- Containers whose elements are numbered in one kind, with a number and a key left in each. -/
def Roomy (kind : IndexKind) (workspace : Workspace C P) : Prop :=
  ∀ (number : Nat) (container : C), workspace.containers[number]? = some container →
    (Container.graph container).nextId.kind = kind ∧
      (∃ next, (Container.graph container).nextId.succ = .ok next) ∧
      (Container.graph container).store.slots.size < 2 ^ 32

/-- A misused command ends in its fault. -/
theorem Misuse.step_eq {fault : Fault} (hmisuse : Misuse kind workspace command fault)
    (hroomy : workspace.Roomy kind) (hprovides : workspace.Provides command) :
    workspace.step command = .error fault := by
  cases hmisuse with
  | foreign hhandle hforeign =>
      obtain ⟨container, hcontainer⟩ := exists_container hprovides.1
      rw [remove_foreign hhandle hcontainer hforeign, (hroomy _ container hcontainer).1]
  | bound hsearch hbound =>
      obtain ⟨source, hsource⟩ := hprovides.2
      exact assignSearch_bound hsearch hsource hbound

variable [LawfulContainer C α P E]

/-- Every query has an axis, if the pattern that it shares is there. -/
theorem exists_axis {number : Nat} {query : Query P} {keep : String}
    (hprovides : workspace.Provides (.search (some (number, query)) keep : Command P E)) :
    number < workspace.containers.size ∧
      ∃ axis serial, workspace.axisOf query = .ok (axis, { workspace with serial }) ∧
        axis.cursor = none := by
  cases query with
  | sharing name =>
      obtain ⟨hnumber, shared, hshared⟩ := hprovides
      refine ⟨hnumber, .matching shared none, workspace.serial, ?_, rfl⟩
      simp only [axisOf, register_of_get? hshared, ok_bind, pure_eq_ok]
  | elements => exact ⟨hprovides, _, _, rfl, rfl⟩
  | groups => exact ⟨hprovides, _, _, rfl, rfl⟩
  | terminals => exact ⟨hprovides, _, _, rfl, rfl⟩
  | matching pattern => exact ⟨hprovides, _, _, rfl, rfl⟩

/-- A change is carried out as long as there is a number left for an element. -/
theorem Sound.edit_eq_ok [Numbering C α P E] (hsound : workspace.Sound)
    (hroomy : workspace.Roomy kind) {number : Nat} (hnumber : number < workspace.containers.size)
    (change : E) (keep : Option String) :
    ∃ reply after,
      workspace.step (.edit number change keep : Command P E) = .ok (reply, after) := by
  obtain ⟨container, hcontainer⟩ := exists_container hnumber
  have hcontainerSound := hsound.containers number container hcontainer
  obtain ⟨-, ⟨next, hnext⟩, -⟩ := hroomy number container hcontainer
  have hnumbers := Numbering.edit_numbers hcontainerSound change
  generalize hedit : Container.edit container change = outcome at hnumbers
  cases hnumbers with
  | calm hcalm =>
      obtain ⟨after, hstep, -⟩ := hsound.edit_step hcontainer hedit
        (edited_of_edit_eq_ok hcontainerSound hedit) keep
      exact ⟨_, after, hstep⟩
  | created happended =>
      obtain ⟨after, hstep, -⟩ := hsound.edit_step hcontainer hedit
        (edited_of_edit_eq_ok hcontainerSound hedit) keep
      exact ⟨_, after, hstep⟩
  | exhausted hfull => cases hnext.symm.trans hfull

theorem Sound.search_eq_ok (hsound : workspace.Sound) {target : Option (Nat × Query P)}
    {keep : String} (hprovides : workspace.Provides (.search target keep : Command P E)) :
    ∃ reply after, workspace.step (.search target keep : Command P E) = .ok (reply, after) := by
  cases target with
  | none =>
      obtain ⟨after, hstep, -⟩ := hsound.search_unbound_step (E := E) keep
      exact ⟨_, after, hstep⟩
  | some target =>
      obtain ⟨number, query⟩ := target
      obtain ⟨hnumber, axis, serial, haxis, hcursor⟩ := exists_axis hprovides
      obtain ⟨container, hcontainer⟩ := exists_container hnumber
      obtain ⟨after, hstep, -⟩ := hsound.search_step (E := E) hcontainer haxis hcursor keep
      exact ⟨_, after, hstep⟩

/-- A command that is not misused is carried out. -/
theorem Sound.step_eq_ok [Numbering C α P E] (hsound : workspace.Sound)
    (hroomy : workspace.Roomy kind) (hprovides : workspace.Provides command)
    (hproper : ∀ fault, ¬Misuse kind workspace command fault) :
    ∃ reply after, workspace.step command = .ok (reply, after) := by
  cases command with
  | edit number change keep => exact hsound.edit_eq_ok hroomy hprovides change keep
  | remove number name =>
      obtain ⟨-, handle, hhandle⟩ := hprovides
      by_cases hforeign : handle.container = number
      · subst hforeign
        obtain ⟨removed, after, hstep, -⟩ := hsound.remove_step (E := E) hhandle
        exact ⟨_, after, hstep⟩
      · exact absurd (.foreign hhandle hforeign) (hproper _)
  | reclaim number =>
      obtain ⟨container, hcontainer⟩ := exists_container hprovides
      obtain ⟨count, after, hstep, -⟩ := hsound.reclaim_step (E := E) hcontainer
      exact ⟨_, after, hstep⟩
  | copyHandle source keep =>
      obtain ⟨handle, hhandle⟩ := hprovides
      obtain ⟨after, hstep, -⟩ := hsound.copyHandle_step (E := E) hhandle keep
      exact ⟨_, after, hstep⟩
  | assignHandle target source =>
      obtain ⟨⟨before, hbefore⟩, handle, hhandle⟩ := hprovides
      obtain ⟨after, hstep, -⟩ := hsound.assignHandle_step (E := E) hbefore hhandle
      exact ⟨_, after, hstep⟩
  | dropHandle name =>
      obtain ⟨after, hstep, -⟩ := hsound.dropHandle_step (E := E) name
      exact ⟨_, after, hstep⟩
  | search target keep => exact hsound.search_eq_ok hprovides
  | matchNext name =>
      obtain ⟨search, hsearch⟩ := hprovides
      obtain ⟨found, next, after, -, hstep, -⟩ := hsound.matchNext_step (E := E) hsearch
      exact ⟨_, after, hstep⟩
  | rewind name =>
      obtain ⟨search, hsearch⟩ := hprovides
      obtain ⟨rewound, after, -, hstep, -⟩ := hsound.rewind_step (E := E) hsearch
      exact ⟨_, after, hstep⟩
  | next name keep =>
      obtain ⟨search, hsearch⟩ := hprovides
      obtain ⟨found, next, after, -, hstep, -⟩ := hsound.next_step (E := E) hsearch keep
      exact ⟨_, after, hstep⟩
  | drain name limit =>
      obtain ⟨search, hsearch⟩ := hprovides
      obtain ⟨rows, last, after, -, hstep, -⟩ := hsound.drain_step (E := E) hsearch limit
      exact ⟨_, after, hstep⟩
  | copySearch source keep =>
      obtain ⟨search, hsearch⟩ := hprovides
      obtain ⟨after, hstep, -⟩ := hsound.copySearch_step (E := E) hsearch keep
      exact ⟨_, after, hstep⟩
  | assignSearch target source =>
      obtain ⟨⟨before, hbefore⟩, search, hsearch⟩ := hprovides
      cases hbound : before.isBound with
      | true => exact absurd (.bound hbefore hbound) (hproper _)
      | false =>
          obtain ⟨after, hstep, -⟩ := hsound.assignSearch_step (E := E) hbefore hsearch hbound
          exact ⟨_, after, hstep⟩
  | dropSearch name =>
      obtain ⟨after, hstep, -⟩ := hsound.dropSearch_step (E := E) name
      exact ⟨_, after, hstep⟩
  | takeFromSearch source keep =>
      obtain ⟨search, hsearch⟩ := hprovides
      obtain ⟨after, hstep, -⟩ := hsound.takeFromSearch_step (E := E) hsearch keep
      exact ⟨_, after, hstep⟩
  | takeFromMatch source keep =>
      obtain ⟨found, hfound⟩ := hprovides
      obtain ⟨after, hstep, -⟩ := hsound.takeFromMatch_step (E := E) hfound keep
      exact ⟨_, after, hstep⟩
  | copyMatch source keep =>
      obtain ⟨found, hfound⟩ := hprovides
      obtain ⟨after, hstep, -⟩ := hsound.copyMatch_step (E := E) hfound keep
      exact ⟨_, after, hstep⟩
  | dropMatch name =>
      obtain ⟨after, hstep, -⟩ := hsound.dropMatch_step (E := E) name
      exact ⟨_, after, hstep⟩
  | keepPattern pattern keep => exact ⟨_, _, rfl⟩
  | dropPattern name => exact ⟨_, _, rfl⟩

omit [LawfulContainer C α P E] in
/-- Taking an element answers with the element. -/
theorem reply_of_takeElement {found : Match} {keep : String} {reply : Reply} {after : Workspace C P}
    (htake : workspace.takeElement found keep = .ok (reply, after)) :
    reply = .handle found.element := by
  unfold takeElement at htake
  split at htake
  · next hnone =>
      cases htake
      rw [hnone]
  · next handle hsome =>
      obtain ⟨kept, -, heq⟩ := bind_eq_ok.mp htake
      cases heq
      rw [hsome]

/-- Only going on with a search is broken off, and only if the pattern names the greatest slot. -/
theorem Sound.overruns_of_broken (hsound : workspace.Sound) {fault : Fault}
    {after : Workspace C P} (hstep : workspace.step command = .ok (.broken fault, after)) :
    ∃ name search, command.Touches name ∧ workspace.searches.get? name = some search ∧
      search.Overruns C := by
  have hgoing {name : String} {search : Search P} {found : Except Fault Bool} {next : Search P}
      (hsearch : workspace.searches.get? name = some search)
      (hnext : search.matchNext workspace.containers = .ok (found, next))
      (hfound : found = .error fault) : search.Overruns C := by
    obtain ⟨found', next', hnext', hstepped⟩ := Search.matchNext_spec hsound.containers
      (hsound.fit name search hsearch) (hsound.held hsearch)
    cases hnext.symm.trans hnext'
    exact hstepped.broken fault hfound
  cases command with
  | matchNext name =>
      rcases register_eq workspace.searches name with ⟨search, hsearch, -⟩ | hregister
      · obtain ⟨found, next, _, hnext, hstep', -⟩ := hsound.matchNext_step (E := E) hsearch
        obtain ⟨hreply, -⟩ := Prod.mk.inj (Except.ok.inj (hstep'.symm.trans hstep))
        refine ⟨name, search, rfl, hsearch, hgoing hsearch hnext ?_⟩
        exact Reply.eq_error_of_orBroken (fun hit heq => by cases heq) hreply
      · simp [step, hregister] at hstep
  | next name keep =>
      rcases register_eq workspace.searches name with ⟨search, hsearch, -⟩ | hregister
      · obtain ⟨found, next, _, hnext, hstep', -⟩ := hsound.next_step (E := E) hsearch keep
        obtain ⟨hreply, -⟩ := Prod.mk.inj (Except.ok.inj (hstep'.symm.trans hstep))
        refine ⟨name, search, rfl, hsearch, hgoing hsearch hnext ?_⟩
        exact Reply.eq_error_of_orBroken (fun hit heq => by cases heq) hreply
      · simp [step, hregister] at hstep
  | drain name limit =>
      rcases register_eq workspace.searches name with ⟨search, hsearch, -⟩ | hregister
      · obtain ⟨rows, last, _, htake, hstep', -⟩ := hsound.drain_step (E := E) hsearch limit
        obtain ⟨rows', last', bound, htake', htaken⟩ := Search.takeUpTo_spec hsound.containers
          (hsound.fit name search hsearch) (hsound.held hsearch) limit
        cases htake.symm.trans htake'
        obtain ⟨hreply, -⟩ := Prod.mk.inj (Except.ok.inj (hstep'.symm.trans hstep))
        refine ⟨name, search, rfl, hsearch, htaken.broken fault ?_⟩
        exact Reply.eq_error_of_orBroken (fun found heq => by cases heq) hreply
      · simp [step, hregister] at hstep
  | assignSearch target source =>
      simp only [step, bind_eq_ok] at hstep
      obtain ⟨_, -, _, -, hrest⟩ := hstep
      split at hrest
      · cases hrest
      · simp [bind_eq_ok] at hrest
  | takeFromSearch source keep =>
      obtain ⟨search, -, htake⟩ := bind_eq_ok.mp hstep
      cases reply_of_takeElement htake
  | takeFromMatch source keep =>
      obtain ⟨found, -, htake⟩ := bind_eq_ok.mp hstep
      cases reply_of_takeElement htake
  | _ => simp [step, bind_eq_ok] at hstep

/-- Matching what can be read against a pattern asks for no slot beyond those of the pattern. -/
theorem test_spec {pattern : P} (hfits : ¬Container.Overruns C pattern) {handle : Handle}
    {element : Element α} (hread : workspace.read handle = .ok element) (slots : Slots) :
    ∃ verdict last, workspace.test pattern handle slots = .ok (verdict, last) ∧
      ∀ fault, verdict = .error fault → ∃ slot, slots.length ≤ slot ∧
        slot < Container.slotCount C pattern ∧ fault = .outOfBounds slots.length slot := by
  let solved := Constraint.solve (Container.constraints C pattern element) slots
  refine ⟨solved.1, solved.2, by simp only [test, hread, ok_bind, pure_eq_ok, solved, examine],
    fun fault hfault => ?_⟩
  have hsolved : solved = (.error fault, solved.2) := Prod.ext hfault rfl
  obtain ⟨slot, value, hasked, hexceeds, heq⟩ := Constraint.exceeds_of_solve hsolved
  exact ⟨slot, hexceeds, within_of_not_overruns hfits element _ hasked, heq⟩

/-- In a sound workspace with room only misuse ends in a fault. -/
theorem Sound.faultless [Numbering C α P E] (hsound : workspace.Sound)
    (hroomy : workspace.Roomy kind) : workspace.Faultless kind where
  step_eq_error_iff command hprovides fault := by
    refine ⟨fun hstep => ?_, fun hmisuse => hmisuse.step_eq hroomy hprovides⟩
    by_cases hmisused : ∃ other, Misuse kind workspace command other
    · obtain ⟨other, hother⟩ := hmisused
      cases hstep.symm.trans (hother.step_eq hroomy hprovides)
      exact hother
    · obtain ⟨reply, after, hcarried⟩ :=
        hsound.step_eq_ok hroomy hprovides fun other hother => hmisused ⟨other, hother⟩
      cases hstep.symm.trans hcarried
  unchanged _ _ := run_of_error
  readable _ hhandle := hsound.exists_read hhandle
  shared _ := shareCount_of_full
  storable number container hcontainer :=
    (LawfulContainer.graph_sound (hsound.containers number container hcontainer)).tidy.isOpen
      (hroomy number container hcontainer).2.2
  unbroken _ _ _ := hsound.overruns_of_broken
  tested pattern hfits handle hhandle slots := by
    obtain ⟨element, helement⟩ := hsound.exists_read hhandle
    exact test_spec hfits helement slots

/-- A run of new containers whose numbers are of one kind leaves room, as long as fewer elements
than numbers have been created in each. -/
theorem roomy_reached [Numbering C α P E] [Deduplicating C α P E] {start : C}
    (hsound : LawfulContainer.Sound start)
    (hempty : ∀ key, (Container.graph start).stored? key = none)
    (hfirst : (Container.graph start).nextId = .first kind 32)
    (hslots : (Container.graph start).store.slots.size = 0) {count : Nat}
    {commands : List (Command P E)}
    (hfew : ∀ number < count, (creationsFrom start count number commands).length < 2 ^ 32 - 1) :
    (reached start count commands).Roomy kind := by
  intro number container hcontainer
  have hreached := sound_reached (P := P) (E := E) hsound hempty count
  obtain ⟨-, hdescends⟩ := descends_of_reached hreached hcontainer
  obtain ⟨value, hnextId⟩ := hdescends.nextId hsound
  have hnumber := lt_of_reached hreached hcontainer
  obtain ⟨now, hnow, hvalue, -, hsize, -⟩ :=
    (hreached []).creations_spec (container_of_lt hnumber) commands
  cases hcontainer.symm.trans hnow
  rw [hslots, Nat.zero_add] at hsize
  rw [hfirst] at hnextId hvalue
  rw [hnextId] at hvalue ⊢
  have hvalue : value = (creationsFrom start count number commands).length :=
    hvalue.trans (Nat.zero_add _)
  have hroom := Nat.add_lt_of_lt_sub (hfew number hnumber)
  exact ⟨rfl, ⟨_, Index.succ_eq_ok_iff.mpr ⟨hvalue ▸ hroom, rfl⟩⟩,
    Nat.lt_of_le_of_lt hsize (Nat.lt_of_lt_of_le (hfew number hnumber) (Nat.sub_le _ _))⟩

/-- Each state of an automaton has its mark at any moment of a run. -/
theorem marked_reached {A : Type} [DecidableEq A] {count : Nat}
    {commands : List (Command Automaton.Pattern (Automaton.Edit A))} {number : Nat}
    {automaton : Automaton A}
    (hautomaton : (reached Automaton.initial count commands).containers[number]? = some automaton) :
    automaton.Marked := by
  obtain ⟨hsound, hdescends⟩ := descends_of_reached (sound_automata count) hautomaton
  exact (hdescends.preserves Automaton.Marked
    (fun _ _ hbefore hdevelops hmarked => hmarked.develops hbefore hdevelops) hsound rfl).2

/-- Whatever is done to grammars, or to automata, only misuse ends in a fault, as long as fewer than
`2 ^ 32 - 1` elements have been created in each of them.  The table of the accepting states of an
automaton is always as long as it has to be. -/
theorem faultless_reached (A : Type) [DecidableEq A] (count : Nat) :
    (∀ commands : List (Command Grammar.Pattern (Grammar.Edit A)),
      (∀ number < count,
        (creationsFrom (Grammar.empty : Grammar A) count number commands).length < 2 ^ 32 - 1) →
      (reached (Grammar.empty : Grammar A) count commands).Faultless .production) ∧
    ∀ commands : List (Command Automaton.Pattern (Automaton.Edit A)),
      (∀ number < count,
        (creationsFrom (Automaton.initial : Automaton A) count number commands).length <
          2 ^ 32 - 1) →
      (reached (Automaton.initial : Automaton A) count commands).Faultless .transition ∧
        ∀ (number : Nat) (automaton : Automaton A),
          (reached Automaton.initial count commands).containers[number]? = some automaton →
            automaton.Marked := by
  constructor
  · intro commands hfew
    exact (sound_grammars count commands).faultless
      (roomy_reached Grammar.sound_empty Grammar.stored?_empty rfl rfl hfew)
  · intro commands hfew
    exact ⟨(sound_automata count commands).faultless
      (roomy_reached Automaton.sound_initial Automaton.stored?_initial rfl rfl hfew),
      fun _ _ => marked_reached⟩

/-- A run with two grammars, a production of the first one and a search of it. -/
def misused : List (Command Grammar.Pattern (Grammar.Edit Nat)) :=
  [.edit 0 (.addVariables 1) none,
    .edit 0 (.addProduction (.ofVariable 1) .empty) (some "production"),
    .search (some (0, .elements)) "search"]

/-- A run with an automaton of two states, a transition that has been removed and dropped, and
another state. -/
def dropped : List (Command Automaton.Pattern (Automaton.Edit Nat)) :=
  [.edit 0 (.addStates 1) none,
    .edit 0 (.addTransition ⟨⟨.epsilon, .epsilon, .epsilon, 0⟩, 1⟩) (some "transition"),
    .remove 0 "transition", .dropHandle "transition", .edit 0 (.setAccepting 1 true) none]

/-- The production cannot be removed from the second grammar, and the search cannot be assigned to.
Removing the production from its own grammar is carried out, and so is a reclaim of the
automaton. -/
theorem faultless_reached_misused :
    let workspace := reached (Grammar.empty : Grammar Nat) 2 misused
    (∀ command : Command Grammar.Pattern (Grammar.Edit Nat),
      command = .remove 1 "production" ∨ command = .assignSearch "search" "search" →
        ∃ fault, workspace.step command = .error fault ∧
          workspace.run [command] = ([.error fault], workspace)) ∧
      (∀ fault, workspace.step (.remove 0 "production") ≠ .error fault) ∧
      ∀ fault, (reached (Automaton.initial : Automaton Nat) 1 dropped).step
        (.reclaim 0 : Command Automaton.Pattern (Automaton.Edit Nat)) ≠ .error fault := by
  intro workspace
  have hfaultless : workspace.Faultless .production :=
    (faultless_reached Nat 2).1 misused (by decide +kernel)
  have hhandle : workspace.handles.get? "production" = some ⟨0, ⟨0, 0⟩⟩ := by decide +kernel
  obtain ⟨search, hsearch, hbound⟩ : ∃ search, workspace.searches.get? "search" = some search ∧
      search.isBound = true := ⟨_, rfl, by decide +kernel⟩
  have hsize : workspace.containers.size = 2 := by decide +kernel
  refine ⟨?_, fun fault hfault => ?_, fun fault hfault => ?_⟩
  · rintro command (rfl | rfl)
    · have hprovides : workspace.Provides
          (.remove 1 "production" : Command Grammar.Pattern (Grammar.Edit Nat)) :=
        ⟨by omega, _, hhandle⟩
      have hstep := (hfaultless.step_eq_error_iff _ hprovides _).mpr (.foreign hhandle (by decide))
      exact ⟨_, hstep, hfaultless.unchanged _ _ hstep⟩
    · have hprovides : workspace.Provides
          (.assignSearch "search" "search" : Command Grammar.Pattern (Grammar.Edit Nat)) :=
        ⟨⟨_, hsearch⟩, _, hsearch⟩
      have hstep := (hfaultless.step_eq_error_iff _ hprovides _).mpr (.bound hsearch hbound)
      exact ⟨_, hstep, hfaultless.unchanged _ _ hstep⟩
  · have hprovides : workspace.Provides
        (.remove 0 "production" : Command Grammar.Pattern (Grammar.Edit Nat)) :=
      ⟨by omega, _, hhandle⟩
    cases (hfaultless.step_eq_error_iff _ hprovides fault).mp hfault with
    | foreign hhandle' hforeign =>
        cases hhandle.symm.trans hhandle'
        exact hforeign rfl
  · have hautomaton := ((faultless_reached Nat 1).2 dropped (by decide +kernel)).1
    have hsize : 0 < (reached (Automaton.initial : Automaton Nat) 1 dropped).containers.size := by
      decide +kernel
    cases (hautomaton.step_eq_error_iff (.reclaim 0) hsize fault).mp hfault

end Workspace

end FormalLanguages
