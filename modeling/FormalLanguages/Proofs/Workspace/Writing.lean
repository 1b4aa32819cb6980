/-
# What is written is computed from what is read

A command that writes a search reads the containers, the patterns and a few searches.  What it
answers and the search that it leaves under the name are computed from these alone; the references
that it exchanges, and whatever else is kept, do not enter into it.

So in two workspaces whose containers differ in reference counts only, and whose patterns and
searches differ in serials only, such a command answers the same and leaves the same search, up to
the serial of its pattern.
-/

import FormalLanguages.Proofs.Search.Uncounted
import FormalLanguages.Proofs.Workspace.Step

namespace FormalLanguages

namespace Command

variable {P E : Type}

/-- The name under which a command writes a search. -/
def search? : Command P E → Option String
  | .search _ keep => some keep
  | .matchNext name => some name
  | .rewind name => some name
  | .next name _ => some name
  | .drain name _ => some name
  | .copySearch _ keep => some keep
  | .assignSearch target _ => some target
  | .dropSearch name => some name
  | _ => none

/-- The names of the searches that decide what a command writes. -/
def sources : Command P E → List String
  | .matchNext name => [name]
  | .rewind name => [name]
  | .next name _ => [name]
  | .drain name _ => [name]
  | .copySearch source _ => [source]
  | .assignSearch target source => [target, source]
  | .dropSearch name => [name]
  | _ => []

theorem touches_iff {command : Command P E} {name : String} :
    command.Touches name ↔ command.search? = some name := by
  cases command <;> simp [Touches, search?]

end Command

namespace Workspace

variable {C α P E : Type} [Container C α P E] {workspace other : Workspace C P}
  {command : Command P E} {name : String}

/-- What a command that writes a search answers, and the search that it leaves under the name, if
it does not drop it.  Other commands leave no search. -/
def write (workspace : Workspace C P) : Command P E → Except Fault (Reply × Option (Search P))
  | .search none _ => return (.done, some .unbound)
  | .search (some (number, query)) _ => do
      let _ ← workspace.container number
      let (axis, _) ← workspace.axisOf query
      return (.done, some (.along number axis))
  | .matchNext name => do
      let search ← register workspace.searches name
      let (found, next) ← search.matchNext workspace.containers
      return (.orBroken .flag found, some next)
  | .rewind name => do
      let search ← register workspace.searches name
      return (.done, some (← search.rewind workspace.containers))
  | .next name _ => do
      let search ← register workspace.searches name
      let (found, next) ← search.matchNext workspace.containers
      return (.orBroken (fun hit => .row (if hit then some next.current else none)) found,
        some next)
  | .drain name limit => do
      let search ← register workspace.searches name
      let (rows, last) ← search.takeUpTo workspace.containers limit
      return (.orBroken .rows rows, some last)
  | .copySearch source _ => do
      let search ← register workspace.searches source
      return (.done, some search.copy)
  | .assignSearch target source => do
      let search ← register workspace.searches target
      let copied ← register workspace.searches source
      if search.isBound then .error .boundAssignment
      else return (.flag copied.isBound, some copied.copy)
  | .dropSearch name => return (.flag (workspace.searches.get? name).isSome, none)
  | _ => return (.done, none)

/-- A command writes what `write` computes, under the given name. -/
def Writes (workspace : Workspace C P) (name : String) (command : Command P E) : Prop :=
  Agree (fun written result => result.1 = written.1 ∧ result.2.searches.get? name = written.2)
    (workspace.write command) (workspace.step command)

/-- A command that begins with a register writes what `write` computes if it does so with what is
in the register. -/
theorem writes_of_register {ν : Type} {table : Table String ν} {source : String}
    {first : ν → Except Fault (Reply × Option (Search P))}
    {second : ν → Except Fault (Reply × Workspace C P)}
    (hwrite : workspace.write command = register table source >>= first)
    (hstep : workspace.step command = register table source >>= second)
    (hwrites : ∀ value, table.get? source = some value → workspace.Writes name command) :
    workspace.Writes name command := by
  rcases register_eq table source with ⟨value, hvalue, -⟩ | hregister
  · exact hwrites value hvalue
  · rw [Writes, hwrite, hstep, hregister]
    exact .error _

section Steps

variable [LawfulContainer C α P E] (hsound : workspace.Sound)

include hsound

theorem Sound.search_writes (target : Option (Nat × Query P)) (keep : String) :
    workspace.Writes keep (.search target keep : Command P E) := by
  cases target with
  | none =>
      obtain ⟨after, hstep, hexchanged⟩ := hsound.search_unbound_step (E := E) keep
      rw [Writes, hstep]
      exact .ok ⟨rfl, get?_of_exchanged hexchanged⟩
  | some target =>
      obtain ⟨number, query⟩ := target
      rcases workspace.container_eq number with ⟨container, hcontainer, heq⟩ | heq
      · rcases workspace.axisOf_spec query with ⟨axis, serial, haxis, hcursor⟩ | ⟨other, haxis⟩
        · obtain ⟨after, hstep, hexchanged⟩ :=
            hsound.search_step (E := E) hcontainer haxis hcursor keep
          simp only [Writes, hstep, write, heq, haxis, ok_bind]
          exact .ok ⟨rfl, get?_of_exchanged hexchanged⟩
        · simp only [Writes, step, newSearch, write, heq, haxis, ok_bind, error_bind]
          exact .error _
      · simp only [Writes, step, newSearch, write, heq, error_bind]
        exact .error _

theorem Sound.matchNext_writes (source : String) :
    workspace.Writes source (.matchNext source : Command P E) := by
  apply writes_of_register rfl rfl
  intro search hsearch
  obtain ⟨found, next, after, hnext, hstep, hexchanged⟩ := hsound.matchNext_step (E := E) hsearch
  simp only [Writes, hstep, write, register_of_get? hsearch, hnext, ok_bind]
  exact .ok ⟨rfl, get?_of_exchanged hexchanged⟩

theorem Sound.rewind_writes (source : String) :
    workspace.Writes source (.rewind source : Command P E) := by
  apply writes_of_register rfl rfl
  intro search hsearch
  obtain ⟨rewound, after, hrewind, hstep, hexchanged⟩ := hsound.rewind_step (E := E) hsearch
  simp only [Writes, hstep, write, register_of_get? hsearch, hrewind, ok_bind]
  exact .ok ⟨rfl, get?_of_exchanged hexchanged⟩

theorem Sound.next_writes (source : String) (keep : Option String) :
    workspace.Writes source (.next source keep : Command P E) := by
  apply writes_of_register rfl rfl
  intro search hsearch
  obtain ⟨found, next, after, hnext, hstep, hexchanged⟩ := hsound.next_step (E := E) hsearch keep
  simp only [Writes, hstep, write, register_of_get? hsearch, hnext, ok_bind]
  exact .ok ⟨rfl, get?_of_exchanged hexchanged⟩

theorem Sound.drain_writes (source : String) (limit : Option Nat) :
    workspace.Writes source (.drain source limit : Command P E) := by
  apply writes_of_register rfl rfl
  intro search hsearch
  obtain ⟨rows, last, after, htake, hstep, hexchanged⟩ :=
    hsound.drain_step (E := E) hsearch limit
  simp only [Writes, hstep, write, register_of_get? hsearch, htake, ok_bind]
  exact .ok ⟨rfl, get?_of_exchanged hexchanged⟩

theorem Sound.copySearch_writes (source keep : String) :
    workspace.Writes keep (.copySearch source keep : Command P E) := by
  apply writes_of_register rfl rfl
  intro search hsearch
  obtain ⟨after, hstep, hexchanged⟩ := hsound.copySearch_step (E := E) hsearch keep
  simp only [Writes, hstep, write, register_of_get? hsearch, ok_bind]
  exact .ok ⟨rfl, get?_of_exchanged hexchanged⟩

/-- Assigning looks up the target before it looks up the source. -/
theorem Sound.assignSearch_writes (target source : String) :
    workspace.Writes target (.assignSearch target source : Command P E) := by
  apply writes_of_register rfl rfl
  intro before hbefore
  rcases register_eq workspace.searches source with ⟨search, hsearch, hregister⟩ | hregister
  · cases hbound : before.isBound with
    | true =>
        simp only [Writes, assignSearch_bound hbefore hsearch hbound, write,
          register_of_get? hbefore, hregister, ok_bind, hbound, ↓reduceIte]
        exact .error _
    | false =>
        obtain ⟨after, hstep, hexchanged⟩ :=
          hsound.assignSearch_step (E := E) hbefore hsearch hbound
        simp only [Writes, hstep, write, register_of_get? hbefore, hregister, ok_bind, hbound,
          Bool.false_eq_true, ↓reduceIte]
        exact .ok ⟨rfl, get?_of_exchanged hexchanged⟩
  · simp only [Writes, step, write, register_of_get? hbefore, hregister, ok_bind, error_bind]
    exact .error _

theorem Sound.dropSearch_writes (source : String) :
    workspace.Writes source (.dropSearch source : Command P E) := by
  obtain ⟨after, hstep, hexchanged⟩ := hsound.dropSearch_step (E := E) source
  rw [Writes, hstep]
  refine .ok ⟨rfl, ?_⟩
  rw [hexchanged.searches_eq, Table.get?_erase, if_pos rfl]

theorem Sound.step_writes (hname : command.search? = some name) :
    workspace.Writes name command := by
  cases command with
  | search target keep =>
      obtain rfl := Option.some.inj hname
      exact hsound.search_writes target keep
  | matchNext source =>
      obtain rfl := Option.some.inj hname
      exact hsound.matchNext_writes source
  | rewind source =>
      obtain rfl := Option.some.inj hname
      exact hsound.rewind_writes source
  | next source keep =>
      obtain rfl := Option.some.inj hname
      exact hsound.next_writes source keep
  | drain source limit =>
      obtain rfl := Option.some.inj hname
      exact hsound.drain_writes source limit
  | copySearch source keep =>
      obtain rfl := Option.some.inj hname
      exact hsound.copySearch_writes source keep
  | assignSearch target source =>
      obtain rfl := Option.some.inj hname
      exact hsound.assignSearch_writes target source
  | dropSearch source =>
      obtain rfl := Option.some.inj hname
      exact hsound.dropSearch_writes source
  | _ => cases hname

end Steps

/-- A command answers what `write` computes. -/
theorem Sound.answer_of_write [LawfulContainer C α P E] {reply : Reply}
    {written : Option (Search P)} (hsound : workspace.Sound)
    (hwrite : workspace.write command = .ok (reply, written))
    (hname : command.search? = some name) :
    Prod.fst <$> workspace.step command = .ok reply := by
  have hagrees := hsound.step_writes hname
  rw [Writes, hwrite] at hagrees
  rcases hagrees.results with ⟨_, result, hfound, hstep, hreply, -⟩ | ⟨_, hfault, -⟩
  · cases hfound
    rw [hstep]
    exact congrArg Except.ok hreply
  · cases hfault

/-- What a command has left under the name of its search is what it writes. -/
theorem Sound.write_of_step [LawfulContainer C α P E] {reply : Reply} {after : Workspace C P}
    (hsound : workspace.Sound) (hname : command.search? = some name)
    (hstep : workspace.step command = .ok (reply, after)) :
    workspace.write command = .ok (reply, after.searches.get? name) := by
  have hagrees := hsound.step_writes hname
  rw [Writes, hstep] at hagrees
  rcases hagrees.results with
    ⟨⟨reply', written⟩, _, hwrite, hfound, hreply, hafter⟩ | ⟨_, -, hfault⟩
  · cases hfound
    obtain rfl : reply = reply' := hreply
    rw [hwrite, hafter]
  · cases hfault

section Shadows

variable [LawfulContainer C α P E]

/-- Workspaces that cannot be told apart by the searches under the given names: their containers
differ in reference counts only, their patterns and these searches in serials only. -/
structure Shadows (names : List String) (workspace other : Workspace C P) : Prop where
  sound : workspace.Sound
  sound' : other.Sound
  containers_eq :
    workspace.containers.map Container.uncounted = other.containers.map Container.uncounted
  patterns_eq : ∀ name, Shared.pattern <$> workspace.patterns.get? name =
    Shared.pattern <$> other.patterns.get? name
  searches_eq : ∀ name ∈ names, Search.anonymous <$> workspace.searches.get? name =
    Search.anonymous <$> other.searches.get? name

/-- What is kept under a name in two tables is the same once something is forgotten of it. -/
theorem register_agree {ν β : Type} {forget : ν → β} {table table' : Table String ν}
    (hname : forget <$> table.get? name = forget <$> table'.get? name) :
    Agree (fun value value' => forget value = forget value') (register table name)
      (register table' name) := by
  unfold register
  cases hvalue : table.get? name with
  | none =>
      rw [hvalue, eq_comm] at hname
      rw [Option.map_eq_none_iff.mp hname]
      exact .error _
  | some value =>
      rw [hvalue, eq_comm] at hname
      obtain ⟨value', hvalue', hforget⟩ := Option.map_eq_some_iff.mp hname
      rw [hvalue']
      exact .ok hforget.symm

namespace Shadows

variable {names : List String} (hshadows : Shadows names workspace other)

include hshadows

theorem container_agree (number : Nat) :
    Agree (fun container twin => Container.uncounted container = Container.uncounted twin)
      (workspace.container number) (other.container number) := by
  have hnumber := congrArg (·[number]?) hshadows.containers_eq
  simp only [Array.getElem?_map] at hnumber
  unfold Workspace.container containerAt
  cases hcontainer : workspace.containers[number]? with
  | none =>
      rw [hcontainer, eq_comm] at hnumber
      rw [Option.map_eq_none_iff.mp hnumber]
      exact .error _
  | some container =>
      rw [hcontainer, eq_comm] at hnumber
      obtain ⟨twin, htwin, huncounted⟩ := Option.map_eq_some_iff.mp hnumber
      rw [htwin]
      exact .ok huncounted.symm

/-- A new search is along the same axis in both, up to the serial of its pattern. -/
theorem axisOf_agree (query : Query P) :
    Agree (fun result result' => result.1.anonymous = result'.1.anonymous)
      (workspace.axisOf query) (other.axisOf query) := by
  cases query with
  | elements => exact .ok rfl
  | groups => exact .ok rfl
  | terminals => exact .ok rfl
  | matching pattern => exact .ok rfl
  | sharing name =>
      apply (register_agree (hshadows.patterns_eq name)).bind
      intro shared shared' hpattern
      exact .ok (by simp only [Axis.anonymous, hpattern])

/-- A command answers the same in both and writes the same, up to the serial of a pattern. -/
theorem write_agree [Uncounting C α P E] (hsources : ∀ name ∈ command.sources, name ∈ names) :
    Agree (fun written written' => written.1 = written'.1 ∧
      Search.anonymous <$> written.2 = Search.anonymous <$> written'.2)
      (workspace.write command) (other.write command) := by
  have hsearch (name : String) (hname : name ∈ command.sources) :=
    register_agree (hshadows.searches_eq name (hsources name hname))
  cases command with
  | search target keep =>
      cases target with
      | none => exact .ok ⟨rfl, rfl⟩
      | some target =>
          apply (hshadows.container_agree target.1).bind
          intro _ _ _
          apply (hshadows.axisOf_agree target.2).bind
          intro result result' haxis
          refine .ok ⟨rfl, congrArg some ?_⟩
          exact congrArg (Search.along target.1) haxis
  | matchNext name =>
      apply (hsearch name List.mem_cons_self).bind
      intro search search' hsame
      apply (agree_of_map_eq (Search.matchNext_congr hshadows.containers_eq hsame)).bind
      rintro ⟨found, next⟩ ⟨found', next'⟩ heq
      obtain ⟨rfl, hnext⟩ := Prod.mk.inj heq
      exact .ok ⟨rfl, congrArg some hnext⟩
  | rewind name =>
      apply (hsearch name List.mem_cons_self).bind
      intro search search' hsame
      apply (agree_of_map_eq (Search.rewind_congr hshadows.containers_eq hsame)).bind
      intro rewound rewound' hrewound
      exact .ok ⟨rfl, congrArg some hrewound⟩
  | next name keep =>
      apply (hsearch name List.mem_cons_self).bind
      intro search search' hsame
      apply (agree_of_map_eq (Search.matchNext_congr hshadows.containers_eq hsame)).bind
      rintro ⟨found, next⟩ ⟨found', next'⟩ heq
      obtain ⟨rfl, hnext⟩ := Prod.mk.inj heq
      have hcurrent : next.current = next'.current := by
        rw [← Search.current_anonymous, hnext, Search.current_anonymous]
      exact .ok ⟨by simp only [hcurrent, id_eq], congrArg some hnext⟩
  | drain name limit =>
      apply (hsearch name List.mem_cons_self).bind
      intro search search' hsame
      apply (agree_of_map_eq (Search.takeUpTo_congr hshadows.containers_eq hsame limit)).bind
      rintro ⟨rows, last⟩ ⟨rows', last'⟩ heq
      obtain ⟨rfl, hlast⟩ := Prod.mk.inj heq
      exact .ok ⟨rfl, congrArg some hlast⟩
  | copySearch source keep =>
      apply (hsearch source List.mem_cons_self).bind
      intro search search' hsame
      exact .ok ⟨rfl, congrArg (some ∘ Search.copy) hsame⟩
  | assignSearch target source =>
      apply (hsearch target List.mem_cons_self).bind
      intro search search' hsame
      apply (hsearch source (List.mem_cons_of_mem _ List.mem_cons_self)).bind
      intro copied copied' hcopied
      have hbound : search.isBound = search'.isBound := by
        rw [← Search.isBound_anonymous, hsame, Search.isBound_anonymous]
      have hbound' : copied.isBound = copied'.isBound := by
        rw [← Search.isBound_anonymous, hcopied, Search.isBound_anonymous]
      simp only [hbound, hbound']
      split
      · exact .error _
      · exact .ok ⟨rfl, congrArg (some ∘ Search.copy) hcopied⟩
  | dropSearch name =>
      have hname := hshadows.searches_eq name (hsources name List.mem_cons_self)
      have hfull := congrArg Option.isSome hname
      simp only [Option.map_eq_map, Option.isSome_map] at hfull
      exact .ok ⟨congrArg Reply.flag hfull, rfl⟩
  | _ => exact .ok ⟨rfl, rfl⟩

end Shadows

end Shadows

end Workspace

end FormalLanguages
