/-
# Reclaiming goes unnoticed

When tombstones are freed is a matter of memory only.  Two runs that differ in where they reclaim,
and in which nothing is added, give the same answers, name the same elements in them, and leave
workspaces in which nothing can be told apart: not what is kept or found, not what can be read of
it, and not what the containers hold.

The runs proceed side by side.  A reclaim is a step of one of them alone, and any other command is
taken by both at once.
-/

import FormalLanguages.Proofs.Concealing
import FormalLanguages.Proofs.Workspace.Alike
import FormalLanguages.Proofs.Workspace.Enumeration

namespace FormalLanguages

/-- The elements that an answer names by handles. -/
def Reply.handles : Reply → List Handle
  | .handle kept => kept.toList
  | .row found => found.toList.flatMap Workspace.heldByMatch
  | .rows found => found.flatMap Workspace.heldByMatch
  | _ => []

/-- Whether a command answers with no handle and no row. -/
def Command.isSilent {P E : Type} : Command P E → Bool
  | .assignHandle .. => false
  | .next .. => false
  | .drain .. => false
  | .takeFromSearch .. => false
  | .takeFromMatch .. => false
  | .copyMatch .. => false
  | _ => true

namespace Workspace

variable {C α P E T : Type} [Container C α P E]

/-- What a run shows, apart from its reclaims: the answer of each command, with what can be read
behind it of the elements that the answer names. -/
def shown (workspace : Workspace C P) :
    List (Command P E) → List (Except Fault (Reply × List (Except Fault (Element α))))
  | [] => []
  | command :: rest =>
      match workspace.step command with
      | .ok (reply, after) =>
          if command.isReclaim then after.shown rest
          else .ok (reply, reply.handles.map after.read) :: after.shown rest
      | .error fault =>
          if command.isReclaim then workspace.shown rest
          else .error fault :: workspace.shown rest

/-- The elements to which a caller has access: those of the handles and matches that are kept, and
those of the last matches of searches. -/
def named (workspace : Workspace C P) : List Handle :=
  workspace.handles.values ++ workspace.results.values.flatMap heldByMatch ++
    workspace.searches.values.flatMap fun search => heldByMatch search.current

/-- Two workspaces in which everything that can be seen without a command is the same. -/
structure Indistinguishable [LawfulContainer C α P E] [Concealing C α P E T]
    (workspace other : Workspace C P) : Prop where
  handles_eq : workspace.handles = other.handles
  results_eq : workspace.results = other.results
  patterns_eq : workspace.patterns = other.patterns
  /-- Searches have the same last match, and have been attached, started and exhausted alike. -/
  searches_eq : ∀ name,
    (workspace.searches.get? name).map
        (fun search => (search.isBound, search.progress, search.current)) =
      (other.searches.get? name).map
        (fun search => (search.isBound, search.progress, search.current))
  named_eq : workspace.named = other.named
  read_eq : ∀ handle ∈ workspace.named, workspace.read handle = other.read handle
  shareCount_eq : ∀ name, workspace.shareCount name = other.shareCount name
  /-- Containers have the same live elements, and the same groups and tables. -/
  containers : ∀ number, Agree (fun container twin =>
    (Container.graph container).listing = (Container.graph twin).listing ∧
      (Container.graph container).size = (Container.graph twin).size ∧
      (Container.graph container).groups.size = (Container.graph twin).groups.size ∧
      Concealing.tables container = Concealing.tables twin)
    (workspace.container number) (other.container number)

variable [LawfulContainer C α P E] {workspace other after : Workspace C P}
  {commands commands' : List (Command P E)}

namespace Sound

variable (hsound : workspace.Sound) {command : Command P E} {reply : Reply} {name keep : String}
  {handle : Handle}

include hsound

/-- Every command that is carried out leaves a sound workspace. -/
theorem behind (hstep : workspace.step command = .ok (reply, after)) : after.Sound := by
  have hkeeps := hsound.step_keeps command
  rw [hstep] at hkeeps
  exact hkeeps.1

theorem readable_of_keepHandle {kept : Handle} (hafter : after.Sound)
    (hkeep : workspace.keepHandle name kept = .ok after) : Readable after.containers kept := by
  obtain ⟨containers, -, rfl⟩ := keepHandle_counted hsound.containers hkeep
  have hhandle : (workspace.handles.insert name kept).get? name = some kept := by
    simp [Table.get?_insert]
  exact hafter.readable_of_handle hhandle

theorem readable_of_takeElement {found : Match} (hafter : after.Sound)
    (htake : workspace.takeElement found keep = .ok (reply, after))
    (hhandle : handle ∈ reply.handles) : Readable after.containers handle := by
  unfold takeElement at htake
  split at htake
  · cases htake
    cases hhandle
  · obtain ⟨kept, hkeep, heq⟩ := bind_eq_ok.mp htake
    cases heq
    cases List.mem_singleton.mp hhandle
    exact hsound.readable_of_keepHandle hafter hkeep

theorem readable_of_assignHandle {target source : String}
    (hstep : workspace.step (.assignHandle target source : Command P E) = .ok (reply, after))
    (hhandle : handle ∈ reply.handles) : Readable after.containers handle := by
  have hafter := hsound.behind hstep
  simp only [step, bind_eq_ok] at hstep
  obtain ⟨-, -, source, -, kept, hkeep, heq⟩ := hstep
  cases heq
  cases List.mem_singleton.mp hhandle
  exact hsound.readable_of_keepHandle hafter hkeep

theorem readable_of_next {keep : Option String}
    (hstep : workspace.step (.next name keep : Command P E) = .ok (reply, after))
    (hhandle : handle ∈ reply.handles) : Readable after.containers handle := by
  have hafter := hsound.behind hstep
  rcases register_eq workspace.searches name with ⟨search, hsearch, -⟩ | hregister
  · obtain ⟨found, next, _, -, hstep', hexchanged⟩ := hsound.next_step (E := E) hsearch keep
    cases hstep.symm.trans hstep'
    cases found with
    | error fault => cases hhandle
    | ok found =>
        cases found with
        | false => cases hhandle
        | true =>
            have hcurrent : next.current.element = some handle := by
              simpa [Reply.handles, heldByMatch] using hhandle
            exact hafter.readable_of_current (get?_of_exchanged hexchanged) hcurrent
  · simp [step, hregister] at hstep

theorem readable_of_drain {limit : Option Nat}
    (hstep : workspace.step (.drain name limit : Command P E) = .ok (reply, after))
    (hhandle : handle ∈ reply.handles) : Readable after.containers handle := by
  rcases register_eq workspace.searches name with ⟨search, hsearch, -⟩ | hregister
  · obtain ⟨rows, last, _, htake, hstep', hexchanged⟩ :=
      hsound.drain_step (E := E) hsearch limit
    obtain ⟨rows', last', bound, htake', htaken⟩ := Search.takeUpTo_spec hsound.containers
      (hsound.fit name search hsearch) (hsound.held hsearch) limit
    cases htake.symm.trans htake'
    cases hstep.symm.trans hstep'
    cases rows with
    | error fault => cases hhandle
    | ok rows =>
        obtain ⟨row, hrow, helement⟩ := List.mem_flatMap.mp hhandle
        exact hexchanged.recounted.readable
          (htaken.readable rows rfl row hrow handle (Option.mem_toList.mp helement))
  · simp [step, hregister] at hstep

theorem readable_of_takeFromSearch {source : String}
    (hstep : workspace.step (.takeFromSearch source keep : Command P E) = .ok (reply, after))
    (hhandle : handle ∈ reply.handles) : Readable after.containers handle := by
  have hafter := hsound.behind hstep
  simp only [step, bind_eq_ok] at hstep
  obtain ⟨search, -, htake⟩ := hstep
  exact hsound.readable_of_takeElement hafter htake hhandle

theorem readable_of_takeFromMatch {source : String}
    (hstep : workspace.step (.takeFromMatch source keep : Command P E) = .ok (reply, after))
    (hhandle : handle ∈ reply.handles) : Readable after.containers handle := by
  have hafter := hsound.behind hstep
  simp only [step, bind_eq_ok] at hstep
  obtain ⟨found, -, htake⟩ := hstep
  exact hsound.readable_of_takeElement hafter htake hhandle

theorem readable_of_copyMatch {source : String}
    (hstep : workspace.step (.copyMatch source keep : Command P E) = .ok (reply, after))
    (hhandle : handle ∈ reply.handles) : Readable after.containers handle := by
  have hafter := hsound.behind hstep
  simp only [step, bind_eq_ok] at hstep
  obtain ⟨found, -, kept, hkeep, heq⟩ := hstep
  cases heq
  obtain ⟨containers, -, rfl⟩ := keepMatch_counted hsound.containers hkeep
  have helement : found.element = some handle := by
    simpa [Reply.handles, heldByMatch] using hhandle
  have hfound : (workspace.results.insert keep found).get? keep = some found := by
    simp [Table.get?_insert]
  exact hafter.readable_of_match hfound helement

omit [LawfulContainer C α P E] hsound in
/-- No other command answers with a handle or a row. -/
theorem handles_eq_nil (hstep : workspace.step command = .ok (reply, after))
    (hsilent : command.isSilent = true) : reply.handles = [] := by
  cases command with
  | assignHandle _ _ | next _ _ | drain _ _ | takeFromSearch _ _ | takeFromMatch _ _
    | copyMatch _ _ => cases hsilent
  | matchNext _ =>
      simp only [step, bind_eq_ok, Prod.exists] at hstep
      obtain ⟨_, -, found, _, -, _, -, heq⟩ := hstep
      cases heq
      cases found <;> rfl
  | assignSearch _ _ =>
      simp only [step, bind_eq_ok] at hstep
      obtain ⟨_, -, _, -, hrest⟩ := hstep
      split at hrest
      · cases hrest
      · obtain ⟨_, -, heq⟩ := bind_eq_ok.mp hrest
        cases heq
        rfl
  | _ =>
      simp only [step, bind_eq_ok, pure_eq_ok, Except.ok.injEq, Prod.mk.injEq] at hstep
      grind [Reply.handles]

/-- Every element that an answer names is stored behind the command. -/
theorem readable_of_reply (hstep : workspace.step command = .ok (reply, after))
    (hhandle : handle ∈ reply.handles) : Readable after.containers handle := by
  cases hsilent : command.isSilent with
  | true =>
      rw [handles_eq_nil hstep hsilent] at hhandle
      cases hhandle
  | false =>
      cases command with
      | assignHandle target source => exact hsound.readable_of_assignHandle hstep hhandle
      | next name keep => exact hsound.readable_of_next hstep hhandle
      | drain name limit => exact hsound.readable_of_drain hstep hhandle
      | takeFromSearch source keep => exact hsound.readable_of_takeFromSearch hstep hhandle
      | takeFromMatch source keep => exact hsound.readable_of_takeFromMatch hstep hhandle
      | copyMatch source keep => exact hsound.readable_of_copyMatch hstep hhandle
      | _ => cases hsilent

end Sound

variable [Concealing C α P E T]

namespace Alike

variable (halike : workspace.Alike other)

include halike

/-- What is stored in both workspaces reads the same. -/
theorem read_eq {handle : Handle} (hreadable : Readable workspace.containers handle)
    (hreadable' : Readable other.containers handle) :
    workspace.read handle = other.read handle := by
  obtain ⟨entry, hentry⟩ := hreadable
  obtain ⟨entry', hentry'⟩ := hreadable'
  obtain ⟨container, hcontainer, hstored⟩ := entryAt_eq_some_iff.mp hentry
  obtain ⟨twin, htwin, hstored'⟩ := entryAt_eq_some_iff.mp hentry'
  have htwins := halike.twins.twins _ container twin hcontainer htwin
  rw [Workspace.read_eq hentry, Workspace.read_eq hentry',
    htwins.alike.toElement_eq hstored hstored']

omit [LawfulContainer C α P E] [Concealing C α P E T] halike in
theorem holders_of_named {handle : Handle} (hhandle : handle ∈ workspace.named) :
    handle ∈ workspace.holders := by
  rcases List.mem_append.mp hhandle with hkept | hcurrent
  · exact List.mem_append_left _ hkept
  · obtain ⟨search, hsearch, hcurrent⟩ := List.mem_flatMap.mp hcurrent
    exact List.mem_append_right _
      (List.mem_flatMap.mpr ⟨search, hsearch, List.mem_append_left _ hcurrent⟩)

theorem named_eq : workspace.named = other.named := by
  have hcurrent := halike.searches.map_values_eq fun _ _ hkept =>
    congrArg heldByMatch hkept.current_eq
  simp only [named, halike.handles_eq, halike.results_eq, List.flatMap_def, hcurrent]

theorem shareCount_eq (name : String) : workspace.shareCount name = other.shareCount name := by
  have hcount (serial : Nat) :
      (workspace.searches.values.filter (searchesFor serial)).length =
        (other.searches.values.filter (searchesFor serial)).length := by
    have hmap := halike.searches.map_values_eq fun _ _ hkept => hkept.searchesFor_eq serial
    simpa [← List.countP_eq_length_filter, List.countP_map] using congrArg (List.countP id) hmap
  simp only [shareCount, halike.patterns_eq, hcount]

theorem indistinguishable : workspace.Indistinguishable other where
  handles_eq := halike.handles_eq
  results_eq := halike.results_eq
  patterns_eq := halike.patterns_eq
  searches_eq name := by
    rcases halike.searches.get? name with ⟨hnone, hnone'⟩ | ⟨search, search', hsome, hsome', hkept⟩
    · rw [hnone, hnone']
    · rw [hsome, hsome', Option.map_some, Option.map_some, hkept.isBound_eq, hkept.progress_eq,
        hkept.current_eq]
  named_eq := halike.named_eq
  read_eq handle hhandle :=
    halike.read_eq (halike.sound.owed.readable handle (holders_of_named hhandle))
      (halike.sound'.owed.readable handle (holders_of_named (halike.named_eq ▸ hhandle)))
  shareCount_eq := halike.shareCount_eq
  containers number := by
    refine (halike.container_agree number).imp fun container twin ⟨hcontainer, htwin⟩ => ?_
    have htwins := halike.twins.twins number container twin hcontainer htwin
    have hgraph := LawfulContainer.graph_sound htwins.sound
    have hgraph' := LawfulContainer.graph_sound htwins.sound'
    exact ⟨htwins.alike.listing_eq hgraph hgraph', htwins.alike.live_eq hgraph hgraph',
      htwins.alike.size_eq.symm, htwins.tables_eq⟩

/-- Reclaiming a container of one of the two leaves them alike. -/
theorem reclaim {number : Nat} {reply : Reply}
    (hstep : workspace.step (.reclaim number : Command P E) = .ok (reply, after)) :
    after.Alike other := by
  simp only [Workspace.step, Workspace.reclaim, bind_eq_ok, Prod.exists] at hstep
  obtain ⟨count, reclaimed, ⟨container, hcontainer, count', now, hreclaim, heq⟩, heq'⟩ := hstep
  cases heq
  cases heq'
  have hfound := container_of_eq_ok hcontainer
  obtain ⟨twin, htwin, htwins⟩ := halike.twins.exists_other hfound
  obtain ⟨hnow, hswept⟩ := swept_of_reclaim_eq_ok htwins.sound hreclaim
  have hsame : other.setContainer number twin = other := by
    have hcontainers : other.containers.setIfInBounds number twin = other.containers := by
      refine Array.ext_getElem? fun place => ?_
      rw [getElem?_replaced htwin]
      split
      · next heq => rw [heq, htwin]
      · rfl
    rw [setContainer, hcontainers]
  have hafter := halike.replaced hfound htwin
    ⟨hnow, htwins.sound', htwins.alike.swept hswept,
      (Concealing.tables_reclaim hreclaim).trans htwins.tables_eq⟩
    hswept.wanes (.refl _) (halike.sound.replaced now hfound hnow hswept.evolves).sound
    (hsame.symm ▸ halike.sound')
  rwa [hsame] at hafter

/-- A part of a run that only reclaims shows nothing and leaves the two alike. -/
theorem reclaims {front : List (Command P E)}
    (hfront : ∀ command ∈ front, command.isReclaim = true) (back : List (Command P E)) :
    (workspace.run front).2.Alike other ∧
      workspace.shown (front ++ back) = (workspace.run front).2.shown back := by
  induction front generalizing workspace with
  | nil => exact ⟨halike, rfl⟩
  | cons command rest ih =>
      have hrest : ∀ command ∈ rest, command.isReclaim = true :=
        fun other hother => hfront other (List.mem_cons_of_mem command hother)
      obtain ⟨number, rfl⟩ := Command.eq_reclaim (hfront command List.mem_cons_self)
      cases hstep : workspace.step (.reclaim number : Command P E) with
      | ok result =>
          obtain ⟨reply, after⟩ := result
          simp only [List.cons_append, Workspace.run, shown, hstep, Command.isReclaim, ↓reduceIte]
          exact ih (halike.reclaim hstep) hrest
      | error fault =>
          simp only [List.cons_append, Workspace.run, shown, hstep, Command.isReclaim, ↓reduceIte]
          exact ih halike hrest

/-- Two runs that differ in their reclaims only, and in which nothing is added, show the same and
leave workspaces that are alike. -/
theorem run (hadds : ∀ command ∈ commands, ¬command.Adds C)
    (hsame : commands.filter (!·.isReclaim) = commands'.filter (!·.isReclaim)) :
    workspace.shown commands = other.shown commands' ∧
      (workspace.run commands).2.Alike (other.run commands').2 := by
  induction commands generalizing workspace other commands' with
  | nil =>
      have hfront : ∀ command ∈ commands', command.isReclaim = true := by
        simpa [List.filter_eq_nil_iff] using hsame.symm
      obtain ⟨hother, hshown⟩ := halike.symm.reclaims hfront []
      rw [List.append_nil] at hshown
      exact ⟨hshown.symm, hother.symm⟩
  | cons command rest ih =>
      have haddsRest : ∀ command ∈ rest, ¬command.Adds C :=
        fun other hother => hadds other (List.mem_cons_of_mem command hother)
      cases hreclaim : command.isReclaim with
      | true =>
          -- The run on the left takes a step alone.
          rw [List.filter_cons_of_neg (by simp [hreclaim])] at hsame
          have hfront : ∀ other ∈ [command], other.isReclaim = true := by simpa using hreclaim
          obtain ⟨hafter, hshown⟩ := halike.reclaims hfront rest
          have hrun := run_append workspace [command] rest
          rw [List.singleton_append] at hshown hrun
          rw [hshown, hrun]
          exact ih hafter haddsRest hsame
      | false =>
          -- The run on the right catches up first.
          rw [List.filter_cons_of_pos (by simp [hreclaim])] at hsame
          obtain ⟨front, back, rfl, hfront, -, hback⟩ := List.filter_eq_cons_iff.mp hsame.symm
          obtain ⟨hother, hshown⟩ :=
            halike.symm.reclaims (by simpa using hfront) (command :: back)
          rw [hshown, run_append]
          generalize (other.run front).2 = other at hother
          have hagree := hother.symm.step (hadds command List.mem_cons_self) hreclaim
          generalize hfirst : workspace.step command = first,
            hsecond : other.step command = second at hagree
          cases hagree with
          | @ok result result' hresult =>
              obtain ⟨reply, after⟩ := result
              obtain ⟨reply', next⟩ := result'
              obtain ⟨rfl, hafter⟩ := hresult
              have hreads : reply.handles.map after.read = reply.handles.map next.read :=
                List.map_congr_left fun handle hhandle => hafter.read_eq
                  (halike.sound.readable_of_reply hfirst hhandle)
                  (hother.sound.readable_of_reply hsecond hhandle)
              obtain ⟨hrest, hlast⟩ := ih hafter haddsRest hback.symm
              simp only [Workspace.run, shown, hfirst, hsecond, hreclaim, hrest, hreads,
                Bool.false_eq_true, ↓reduceIte, true_and]
              exact hlast
          | error fault =>
              obtain ⟨hrest, hlast⟩ := ih hother.symm haddsRest hback.symm
              simp only [Workspace.run, shown, hfirst, hsecond, hreclaim, hrest, Bool.false_eq_true,
                ↓reduceIte, true_and]
              exact hlast

end Alike

/-- Whatever is done to grammars, or to automata, it cannot be noticed afterwards where they are
reclaimed: two runs that go on from there, add no production or transition, and differ in their
reclaims only show the same and end in workspaces that cannot be distinguished.  The runs may be cut
off anywhere, so this holds of every moment of theirs. -/
theorem reclaiming_unnoticed (A : Type) [DecidableEq A] (count : Nat) :
    (∀ history commands commands' : List (Command Grammar.Pattern (Grammar.Edit A)),
      (∀ number lhs rhs keep, .edit number (.addProduction lhs rhs) keep ∉ commands) →
      commands.filter (!·.isReclaim) = commands'.filter (!·.isReclaim) →
      let workspace := reached (Grammar.empty : Grammar A) count history
      workspace.shown commands = workspace.shown commands' ∧
        (workspace.run commands).2.Indistinguishable (workspace.run commands').2) ∧
    ∀ history commands commands' : List (Command Automaton.Pattern (Automaton.Edit A)),
      (∀ number transition keep, .edit number (.addTransition transition) keep ∉ commands) →
      commands.filter (!·.isReclaim) = commands'.filter (!·.isReclaim) →
      let workspace := reached (Automaton.initial : Automaton A) count history
      workspace.shown commands = workspace.shown commands' ∧
        (workspace.run commands).2.Indistinguishable (workspace.run commands').2 := by
  constructor
  · intro history commands commands' hadds hsame
    have hnone : ∀ command ∈ commands, ¬command.Adds (Grammar A) := by
      intro command hcommand hadding
      cases command with
      | edit number change keep =>
          cases change with
          | addProduction lhs rhs => exact hadds number lhs rhs keep hcommand
          | _ => exact hadding
      | _ => exact hadding
    obtain ⟨hshown, halike⟩ := (sound_grammars count history).alike.run hnone hsame
    exact ⟨hshown, halike.indistinguishable⟩
  · intro history commands commands' hadds hsame
    have hnone : ∀ command ∈ commands, ¬command.Adds (Automaton A) := by
      intro command hcommand hadding
      cases command with
      | edit number change keep =>
          cases change with
          | addTransition transition => exact hadds number transition keep hcommand
          | _ => exact hadding
      | _ => exact hadding
    obtain ⟨hshown, halike⟩ := (sound_automata count history).alike.run hnone hsame
    exact ⟨hshown, halike.indistinguishable⟩

/-- A run that removes a production and frees it before a search can come to it. -/
def freeingEarly : List (Command Grammar.Pattern (Grammar.Edit Nat)) :=
  [.remove 0 "second", .dropHandle "second", .reclaim 0, .matchNext "search",
    .drain "search" none]

/-- A run that differs from that one in that the search is at the removed production when the
grammar is reclaimed, which therefore stays stored. -/
def freeingLate : List (Command Grammar.Pattern (Grammar.Edit Nat)) :=
  [.remove 0 "second", .dropHandle "second", .matchNext "search", .reclaim 0,
    .drain "search" none]

/-- A run that removes a transition and searches the state that it left. -/
def leaving : List (Command Automaton.Pattern (Automaton.Edit Nat)) :=
  [.next "search" (some "found"), .takeFromMatch "found" "old", .remove 0 "old", .dropMatch "found",
    .dropHandle "old", .rewind "search", .drain "search" none]

/-- The reclaims free a production in one run and none in the other, and in both the search goes on
to the same production. -/
theorem reclaiming_unnoticed_freeing :
    (let workspace := reached (Grammar.empty : Grammar Nat) 1 filling
     workspace.shown freeingEarly =
          [.ok (.flag true, []), .ok (.flag true, []), .ok (.flag true, []),
            .ok (.rows [{ element := some ⟨0, ⟨2, 0⟩⟩, group := some 1 }],
              [.ok ⟨2, 1, .ofSymbol (.ofVariable 1), false⟩])] ∧
        (workspace.run freeingEarly).1[2]? = some (.ok (.count 1)) ∧
        (workspace.run freeingLate).1[3]? = some (.ok (.count 0)) ∧
        workspace.shown freeingEarly = workspace.shown freeingLate ∧
        (workspace.run freeingEarly).2.Indistinguishable (workspace.run freeingLate).2) ∧
    let workspace := reached (Automaton.initial : Automaton Nat) 1 connecting
    workspace.shown leaving = workspace.shown (leaving ++ [.reclaim 0]) ∧
      (workspace.run leaving).2.Indistinguishable (workspace.run (leaving ++ [.reclaim 0])).2 :=
  ⟨⟨rfl, rfl, rfl,
      (reclaiming_unnoticed Nat 1).1 filling freeingEarly freeingLate (by simp [freeingEarly]) rfl⟩,
    (reclaiming_unnoticed Nat 1).2 connecting leaving (leaving ++ [.reclaim 0])
      (by simp [leaving]) rfl⟩

end Workspace

end FormalLanguages
