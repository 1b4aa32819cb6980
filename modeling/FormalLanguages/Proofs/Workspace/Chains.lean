/-
# Chains hold all that is stored, in every run

Elements are appended behind the last one of their group, taken out at the beginning, in the middle
and at the end, many at once and in the order of their slots, and what takes their slots may belong
to another group.  Through all of this a walk along the links of a group meets the stored elements
of the group and no others, tombstones included, in the order of their numbers, and it ends at the
element that the group keeps as its last.

The statements here speak of walks, of keys and of what can be read through them, and not of the
views by which they are proved.
-/

import FormalLanguages.Proofs.Workspace.Account

namespace FormalLanguages

namespace Graph

variable {α : Type} {graph : Graph α} {number : Nat} {keys : List Key}

/-- The links of a group spell a list, which holds the stored elements of the group in order. -/
structure Spells (graph : Graph α) (number : Nat) (keys : List Key) : Prop where
  /-- Following the links from the first element ends, and meets the keys of the list. -/
  walk : graph.chain number = .ok keys
  /-- No element is met twice. -/
  nodup : keys.Nodup
  /-- The elements that are met are those of the group, live or removed. -/
  mem_iff : ∀ key, key ∈ keys ↔ ∃ element, graph.element key = .ok element ∧ element.group = number
  /-- The elements are met in the order of their numbers. -/
  increasing : keys.Pairwise fun first second => ∀ element other,
    graph.element first = .ok element → graph.element second = .ok other → element.id < other.id
  /-- The group keeps the two ends of the list. -/
  ends : ∃ group, graph.group number = .ok group ∧ group.first = keys.head? ∧
    group.last = keys.getLast?
  /-- Each element keeps the key of its successor, and the last one keeps none. -/
  successor : ∀ (place : Nat) key, keys[place]? = some key →
    ∃ node, graph.store.get key = .ok node ∧ node.next = keys[place + 1]?

/-- There are so many stored elements that have not been removed. -/
def LiveCount (graph : Graph α) (count : Nat) : Prop :=
  ∃ live : List Key, live.Nodup ∧ live.length = count ∧
    ∀ key, key ∈ live ↔ ∃ element, graph.element key = .ok element ∧ element.deleted = false

/-- The groups of a graph follow each other in the order of their numbers, from the first one to the
last. -/
structure Sequenced (graph : Graph α) : Prop where
  next_eq : ∀ number group, graph.group number = .ok group →
    group.next = if number + 1 < graph.groups.size then some (number + 1) else none
  lastGroup_eq : graph.lastGroup =
    if graph.groups.size = 0 then none else some (graph.groups.size - 1)

/-- In a list that is spelled by links, the element at a place links to the one at the next. -/
theorem Links.successor {start : Option Key} (hlinks : graph.Links start keys none) {place : Nat}
    {key : Key} (hkey : keys[place]? = some key) :
    ∃ node, graph.node? key = some node ∧ node.next = keys[place + 1]? := by
  generalize hstop : (none : Option Key) = stop at hlinks
  induction hlinks generalizing place with
  | nil => cases hkey
  | @cons first node rest stop hnode hrest ih =>
      subst hstop
      cases place with
      | zero =>
          cases hkey
          refine ⟨node, hnode, hrest.start_eq_head?.trans ?_⟩
          simp [List.head?_eq_getElem?]
      | succ place =>
          have hplace : rest[place]? = some key := by simpa using hkey
          obtain ⟨found, hfound, hnext⟩ := ih hplace rfl
          exact ⟨found, hfound, by simpa using hnext⟩

/-- The keys of a chain are those of the stored elements of its group. -/
theorem Chain.mem_iff_element (hchain : graph.Chain number keys) (key : Key) :
    key ∈ keys ↔ ∃ element, graph.element key = .ok element ∧ element.group = number := by
  rw [hchain.mem_iff]
  constructor
  · rintro ⟨id, hplace⟩
    obtain ⟨entry, hentry, hplace⟩ := place?_eq_some_iff.mp hplace
    exact ⟨entry.toElement, element_of_stored hentry, congrArg Place.group hplace⟩
  · rintro ⟨element, helement, rfl⟩
    obtain ⟨entry, hentry, rfl⟩ := element_eq_ok_iff.mp helement
    exact ⟨entry.id, place?_of_stored hentry⟩

theorem Chain.group_of_mem (hchain : graph.Chain number keys) {key : Key} (hkey : key ∈ keys)
    {element : Element α} (helement : graph.element key = .ok element) :
    element.group = number := by
  obtain ⟨found, hfound, hgroup⟩ := (hchain.mem_iff_element key).mp hkey
  cases helement.symm.trans hfound
  exact hgroup

theorem Chain.spells (hchain : graph.Chain number keys) (hnumber : number < graph.groups.size) :
    graph.Spells number keys where
  walk := hchain.chain_eq hnumber
  nodup := hchain.nodup
  mem_iff := hchain.mem_iff_element
  increasing := by
    apply hchain.increasing.imp_of_mem
    intro first second hfirst hsecond hlt element other helement hother
    rw [placeAt_of_element helement, placeAt_of_element hother] at hlt
    have hgroup := hchain.group_of_mem hfirst helement
    have hgroup' := hchain.group_of_mem hsecond hother
    rcases hlt with hlt | ⟨-, hlt⟩
    · exact absurd hlt (by simp [Element.place, hgroup, hgroup'])
    · exact hlt
  ends := by
    refine ⟨graph.groups[number], group_eq hnumber, ?_, ?_⟩
    · rw [← hchain.head?_eq]
      simp [head?, hnumber]
    · rw [← hchain.last_eq]
      simp [last?, hnumber]
  successor place key hkey := by
    obtain ⟨node, hnode, hnext⟩ := hchain.links.successor hkey
    exact ⟨node, get_eq_of_node? hnode, hnext⟩

theorem Sound.exists_spells (hsound : graph.Sound) (hnumber : number < graph.groups.size) :
    ∃ keys, graph.Spells number keys := by
  obtain ⟨keys, hchain⟩ := hsound.chained number hnumber
  exact ⟨keys, hchain.spells hnumber⟩

theorem Sound.liveCount (hsound : graph.Sound) : graph.LiveCount graph.size := by
  refine ⟨graph.store.keysWhere fun cell => !cell.deleted, Store.nodup_keysWhere _, ?_, ?_⟩
  · rw [Store.length_keysWhere]
    exact hsound.tidy.live_eq.symm
  · intro key
    rw [Store.mem_keysWhere]
    constructor
    · rintro ⟨cell, hcell, hlive⟩
      refine ⟨cell.entry.toElement, element_of_stored (stored?_eq_entry hcell), ?_⟩
      simpa [Cell.entry] using hlive
    · rintro ⟨element, helement, hlive⟩
      obtain ⟨entry, hentry, rfl⟩ := element_eq_ok_iff.mp helement
      obtain ⟨cell, hcell, rfl⟩ := stored?_eq_some_iff.mp hentry
      exact ⟨cell, hcell, by simpa [Cell.entry] using hlive⟩

theorem Sound.sequenced (hsound : graph.Sound) : graph.Sequenced where
  next_eq number group hgroup := by
    by_cases hnumber : number < graph.groups.size
    · rw [group_eq hnumber] at hgroup
      rw [← Except.ok.inj hgroup]
      exact hsound.next_eq hnumber
    · simp [Graph.group, hnumber] at hgroup
  lastGroup_eq := hsound.lastGroup_eq

/-- The first element from a group on is the first one of the first group from there on that has
any. -/
theorem Sound.findSome?_drop (hsound : graph.Sound) (number : Nat) :
    (graph.groups.toList.drop number).findSome? Group.first = (graph.orderFrom number).head? := by
  generalize hleft : graph.groups.size - number = left
  induction left generalizing number with
  | zero =>
      have hsize : graph.groups.size ≤ number := Nat.le_of_sub_eq_zero hleft
      rw [orderFrom_of_size_le hsize, List.drop_eq_nil_of_le (by simpa using hsize)]
      rfl
  | succ left ih =>
      have hnumber : number < graph.groups.size := by omega
      have hhead := (hsound.chain_chainKeys hnumber).head?_eq
      rw [head?, Array.getElem?_eq_getElem hnumber, Option.bind_some] at hhead
      rw [orderFrom_eq hnumber, List.head?_append, ← ih (number + 1) (by omega), ← hhead,
        List.drop_eq_getElem_cons (by simpa using hnumber), List.findSome?_cons,
        Array.getElem_toList]
      cases graph.groups[number].first <;> rfl

end Graph

/-- Following the links of an automaton is counting its states. -/
structure Automaton.Counts {A : Type} (automaton : Automaton A) : Prop where
  nextState_eq : ∀ state group, automaton.graph.group state = .ok group →
    group.next = automaton.nextState state
  firstElement_eq : automaton.graph.firstElement = .ok automaton.firstTransition
  findNext_eq : ∀ key confined,
    automaton.graph.findNext key confined = automaton.nextTransition key confined

namespace Automaton

variable {A : Type} {automaton : Automaton A} (hsound : automaton.graph.Sound)

include hsound

theorem transitionBehind_eq (state : Nat) :
    automaton.transitionBehind state = (automaton.graph.orderFrom (state + 1)).head? := by
  induction state using transitionBehind.induct automaton with
  | case1 state hstate ih =>
      rw [transitionBehind, if_pos hstate, ih, Graph.orderFrom_eq hstate, List.head?_append,
        (hsound.chain_chainKeys hstate).head?_eq]
  | case2 state hstate =>
      rw [transitionBehind, if_neg hstate, Graph.orderFrom_of_size_le (Nat.le_of_not_lt hstate)]
      rfl

theorem counts : automaton.Counts where
  nextState_eq := hsound.sequenced.next_eq
  firstElement_eq := by
    rw [Graph.firstElement_eq hsound, ← hsound.findSome?_drop 0, List.drop_zero,
      Array.findSome?_toList]
    rfl
  findNext_eq key confined := by
    cases hcell : automaton.graph.store.cell key with
    | error fault => simp only [Graph.findNext, nextTransition, Store.get, hcell, error_bind]
    | ok cell =>
        have hnode : automaton.graph.node? key = some cell.content :=
          Graph.node?_eq_some_iff.mpr ⟨cell, Store.cell_eq_ok_iff.mp hcell, rfl⟩
        have hgroup : cell.content.group < automaton.graph.groups.size :=
          hsound.grouped key _ (Graph.place?_of_node? hnode)
        have hhead := Graph.headFrom_eq hsound
          (Nat.sub_le automaton.graph.groups.size (cell.content.group + 1))
        rw [← hsound.next_eq hgroup, ← transitionBehind_eq hsound] at hhead
        simp only [Graph.findNext, nextTransition, Graph.get_eq_of_node? hnode, ok_bind,
          Graph.group_eq hgroup, hhead, pure_eq_ok]
        cases cell.content.next <;> cases confined <;> rfl

end Automaton

namespace Workspace

/-- Whatever is done to grammars, the variables follow each other in the order of their numbers, the
links of each variable spell its stored productions, and the count of productions is the number of
live ones. -/
theorem productions_chained {A : Type} [DecidableEq A] {count : Nat}
    {commands : List (Command Grammar.Pattern (Grammar.Edit A))} {number : Nat}
    {grammar : Grammar A}
    (hgrammar : (reached (Grammar.empty : Grammar A) count commands).containers[number]? =
      some grammar) :
    grammar.graph.Sequenced ∧
      (∀ group, group < grammar.variableCount → ∃ keys, grammar.graph.Spells group keys) ∧
      grammar.graph.LiveCount grammar.productionCount := by
  have hsound := (sound_grammars count commands).containers number grammar hgrammar
  have hgraph : grammar.graph.Sound := LawfulContainer.graph_sound hsound
  exact ⟨hgraph.sequenced, fun _ => hgraph.exists_spells, hgraph.liveCount⟩

/-- The first production of a variable is removed but still held, and the one between it and the
last is freed. -/
theorem productions_chained_past_held :
    ∃ grammar, (reached (Grammar.empty : Grammar Nat) 1
        [.edit 0 (.addVariables 2) none,
          .edit 0 (.addProduction (.ofVariable 1) .empty) (some "first"),
          .edit 0 (.addProduction (.ofVariable 1) (.ofSymbol (.ofVariable 1))) (some "second"),
          .edit 0 (.addProduction (.ofVariable 1) (.ofSymbol (.ofVariable 2))) none,
          .remove 0 "first", .remove 0 "second", .dropHandle "second",
          .reclaim 0]).containers[0]? = some grammar ∧
      grammar.graph.Sequenced ∧
      (∀ group, group < grammar.variableCount → ∃ keys, grammar.graph.Spells group keys) ∧
      grammar.graph.LiveCount grammar.productionCount :=
  ⟨_, rfl, productions_chained (Array.getElem?_eq_getElem _)⟩

/-- Whatever is done to automata, the links of each state spell the stored transitions that leave
it, and the count of transitions is the number of live ones. -/
theorem transitions_chained {A : Type} [DecidableEq A] {count : Nat}
    {commands : List (Command Automaton.Pattern (Automaton.Edit A))} {number : Nat}
    {automaton : Automaton A}
    (hautomaton : (reached (Automaton.initial : Automaton A) count commands).containers[number]? =
      some automaton) :
    (∀ state, state < automaton.stateCount → ∃ keys, automaton.graph.Spells state keys) ∧
      automaton.graph.LiveCount automaton.transitionCount := by
  have hsound := (sound_automata count commands).containers number automaton hautomaton
  have hgraph : automaton.graph.Sound := LawfulContainer.graph_sound hsound
  exact ⟨fun _ => hgraph.exists_spells, hgraph.liveCount⟩

/-- Whatever is done to automata, the links that walks follow are in the order in which states are
counted. -/
theorem states_counted {A : Type} [DecidableEq A] {count : Nat}
    {commands : List (Command Automaton.Pattern (Automaton.Edit A))} {number : Nat}
    {automaton : Automaton A}
    (hautomaton : (reached (Automaton.initial : Automaton A) count commands).containers[number]? =
      some automaton) : automaton.Counts :=
  Automaton.counts
    (LawfulContainer.graph_sound ((sound_automata count commands).containers number _ hautomaton))

/-- The last transition of a state is freed, and its place is used again by one of another state. -/
theorem transitions_chained_reusing :
    ∃ automaton, (reached (Automaton.initial : Automaton Nat) 1
        [.edit 0 (.addStates 1) none,
          .edit 0 (.addTransition ⟨⟨.epsilon, .epsilon, .epsilon, 0⟩, 0⟩) none,
          .edit 0 (.addTransition ⟨⟨.epsilon, .epsilon, .epsilon, 1⟩, 0⟩) (some "last"),
          .remove 0 "last", .dropHandle "last", .reclaim 0,
          .edit 0 (.addTransition ⟨⟨.epsilon, .epsilon, .epsilon, 0⟩, 1⟩) none]).containers[0]? =
        some automaton ∧
      (∀ state, state < automaton.stateCount → ∃ keys, automaton.graph.Spells state keys) ∧
      automaton.graph.LiveCount automaton.transitionCount :=
  ⟨_, rfl, transitions_chained (Array.getElem?_eq_getElem _)⟩

end Workspace

end FormalLanguages
