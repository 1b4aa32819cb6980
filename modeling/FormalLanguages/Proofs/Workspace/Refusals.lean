/-
# A refusal names the first thing that is unknown, and nothing changes

Whatever numbers a container is handed, it refuses a change exactly if one of them means nothing to
it, and the refusal is about the first one that does, in the order in which they are checked: the
variable of a production before the symbols of its right-hand side, from left to right, and the
source of a transition before its sink, before what it reads, pops and pushes.  Adding variables,
states and values is never refused.

A refused change leaves the whole workspace as it was: every container with its chains, its index,
its counts of references and its next numbers, and everything that is kept under names.
-/

import FormalLanguages.Proofs.Workspace.History

namespace FormalLanguages

namespace Grammar

variable {A : Type} [DecidableEq A] {grammar after : Grammar A} {refusal : Refusal}

/-- On what grounds a grammar objects to a change. -/
inductive Objects (grammar : Grammar A) : Edit A → Refusal → Prop
  | lhs {x : Symbol} {rhs : SymbolString} {refusal : Refusal}
      (hx : grammar.DeclinesVariable x refusal) : Objects grammar (.addProduction x rhs) refusal
  | rhs {x : Symbol} {rhs : SymbolString} {refusal : Refusal}
      (hx : 1 ≤ x.value.toInt ∧ x.value.toInt ≤ grammar.variableCount)
      (hrhs : Refusal.First grammar.DeclinesSymbol rhs.symbols refusal) :
      Objects grammar (.addProduction x rhs) refusal
  | removal {x : Symbol} {refusal : Refusal} (hx : grammar.DeclinesVariable x refusal) :
      Objects grammar (.removeVariable x) refusal

omit [DecidableEq A] in
theorem objects_addProduction_iff {x : Symbol} {rhs : SymbolString} :
    grammar.Objects (.addProduction x rhs) refusal ↔
      grammar.checkProduction x rhs = .error refusal := by
  rw [checkProduction_eq_error_iff]
  constructor
  · rintro (hx | ⟨hx, hrhs⟩)
    · exact .inl hx
    · exact .inr ⟨hx, hrhs⟩
  · rintro (hx | ⟨hx, hrhs⟩)
    · exact .lhs hx
    · exact .rhs hx hrhs

omit [DecidableEq A] in
theorem objects_removeVariable_iff {x : Symbol} :
    grammar.Objects (.removeVariable x) refusal ↔ grammar.checkVariable x = .error refusal := by
  rw [checkVariable_eq_error_iff]
  constructor
  · intro hobjects
    cases hobjects with
    | removal hx => exact hx
  · exact .removal

/-- A grammar refuses what it objects to, and is then as before. -/
theorem Objects.edit_eq {change : Edit A} (hobjects : grammar.Objects change refusal) :
    Container.edit grammar change = .ok (.refused refusal, grammar) := by
  cases change with
  | addVariables count => cases hobjects
  | intern values => cases hobjects
  | addProduction x rhs =>
      have hcheck := objects_addProduction_iff.mp hobjects
      simp [Container.edit, edit, addProduction, hcheck, Answer.orRefused]
  | removeVariable x =>
      have hcheck := objects_removeVariable_iff.mp hobjects
      simp [Container.edit, edit, removeVariable, hcheck, Answer.orRefused]

/-- A sound grammar refuses nothing else. -/
theorem Sound.objects_of_edit (hsound : grammar.Sound) {change : Edit A}
    (hedit : Container.edit grammar change = .ok (.refused refusal, after)) :
    grammar.Objects change refusal := by
  cases hsound.effect_of_edit hedit with
  | refusedProduction hcheck => exact objects_addProduction_iff.mpr hcheck
  | refusedVariable hcheck => exact objects_removeVariable_iff.mpr hcheck

end Grammar

namespace Automaton

variable {A : Type} [DecidableEq A] {automaton after : Automaton A} {refusal : Refusal}

/-- On what grounds an automaton objects to a change. -/
inductive Objects (automaton : Automaton A) : Edit A → Refusal → Prop
  | start {state : Nat} {refusal : Refusal} (hstate : automaton.DeclinesState state refusal) :
      Objects automaton (.setStart state) refusal
  | mark {state : Nat} {accept : Bool} {refusal : Refusal}
      (hstate : automaton.DeclinesState state refusal) :
      Objects automaton (.setAccepting state accept) refusal
  | source {transition : Transition} {refusal : Refusal}
      (hsource : automaton.DeclinesState transition.source refusal) :
      Objects automaton (.addTransition transition) refusal
  | sink {transition : Transition} {refusal : Refusal}
      (hsource : transition.source < automaton.stateCount)
      (hsink : automaton.DeclinesState transition.sink refusal) :
      Objects automaton (.addTransition transition) refusal
  | symbol {transition : Transition} {refusal : Refusal}
      (hsource : transition.source < automaton.stateCount)
      (hsink : transition.sink < automaton.stateCount)
      (hsymbols : Refusal.First automaton.DeclinesSymbol
        [transition.read, transition.pop, transition.push] refusal) :
      Objects automaton (.addTransition transition) refusal

omit [DecidableEq A] in
theorem objects_addTransition_iff {transition : Transition} :
    automaton.Objects (.addTransition transition) refusal ↔
      automaton.checkTransition transition = .error refusal := by
  rw [checkTransition_eq_error_iff]
  constructor
  · rintro (_ | _ | hsource | ⟨hsource, hsink⟩ | ⟨hsource, hsink, hsymbols⟩)
    · exact .inl hsource
    · exact .inr ⟨hsource, .inl hsink⟩
    · exact .inr ⟨hsource, .inr ⟨hsink, hsymbols⟩⟩
  · rintro (hsource | ⟨hsource, hsink | ⟨hsink, hsymbols⟩⟩)
    · exact .source hsource
    · exact .sink hsource hsink
    · exact .symbol hsource hsink hsymbols

/-- An automaton refuses what it objects to, and is then as before. -/
theorem Objects.edit_eq {change : Edit A} (hobjects : automaton.Objects change refusal) :
    Container.edit automaton change = .ok (.refused refusal, automaton) := by
  cases change with
  | addStates count => cases hobjects
  | intern values => cases hobjects
  | setStart state =>
      have hcheck : automaton.checkState state = .error refusal := by
        cases hobjects with
        | start hstate => exact checkState_eq_error_iff.mpr hstate
      simp [Container.edit, edit, setStart, hcheck, Except.map, Answer.orRefused]
  | setAccepting state accept =>
      have hcheck : automaton.checkState state = .error refusal := by
        cases hobjects with
        | mark hstate => exact checkState_eq_error_iff.mpr hstate
      simp [Container.edit, edit, setAccepting, hcheck, Except.map, Answer.orRefused]
  | addTransition transition =>
      have hcheck := objects_addTransition_iff.mp hobjects
      simp [Container.edit, edit, addTransition, hcheck, Answer.orRefused]

/-- A sound automaton refuses nothing else. -/
theorem Sound.objects_of_edit (hsound : automaton.Sound) {change : Edit A}
    (hedit : Container.edit automaton change = .ok (.refused refusal, after)) :
    automaton.Objects change refusal := by
  cases hsound.effect_of_edit hedit with
  | refusedStart hstate => exact .start (.unknownState (Nat.le_of_not_lt hstate))
  | refusedMark hstate => exact .mark (.unknownState (Nat.le_of_not_lt hstate))
  | refusedTransition hcheck => exact objects_addTransition_iff.mpr hcheck

end Automaton

namespace Workspace

section Refused

variable {C α P E : Type} [Container C α P E] [LawfulContainer C α P E]

/-- Whether a change of a container is refused exactly on the given grounds, and nothing of the
workspace is changed by it when it is. -/
def Refuses (workspace : Workspace C P) (number : Nat) (change : E) (grounds : Refusal → Prop) :
    Prop :=
  ∀ (keep : Option String) (refusal : Refusal) (after : Workspace C P),
    workspace.step (.edit number change keep) = .ok (.changed (.refused refusal), after) ↔
      grounds refusal ∧ after = workspace

/-- A change is refused in the workspace exactly if the container refuses it. -/
theorem Sound.refuses {workspace : Workspace C P} (hsound : workspace.Sound) {number : Nat}
    {container : C} {change : E} {grounds : Refusal → Prop}
    (hcontainer : workspace.containers[number]? = some container)
    (hrefused : ∀ refusal, grounds refusal →
      Container.edit container change = .ok (.refused refusal, container))
    (hgrounds : ∀ refusal now, Container.edit container change = .ok (.refused refusal, now) →
      grounds refusal) :
    workspace.Refuses number change grounds := by
  intro keep refusal after
  have hstep (hground : grounds refusal) : workspace.step (.edit number change keep) =
      .ok (.changed (.refused refusal), workspace) := by
    rw [step_edit hcontainer (hrefused refusal hground) keep (fun _ => nofun),
      setContainer_self hcontainer]
  constructor
  · intro hafter
    obtain ⟨⟨answer, edited⟩, hedit, hreply⟩ := bind_eq_ok.mp hafter
    cases hreply
    obtain ⟨found, now, hfound, hchange, _⟩ := edit_replaced hsound.containers hedit
    cases hcontainer.symm.trans hfound
    have hground := hgrounds refusal now hchange
    cases hafter.symm.trans (hstep hground)
    exact ⟨hground, rfl⟩
  · rintro ⟨hground, rfl⟩
    exact hstep hground

end Refused

/-- Whatever is done to grammars, or to automata, each of them refuses exactly the changes to which
there is an objection, names in the refusal what the objection is about, and leaves the workspace as
it was. -/
theorem refusals_reached (A : Type) [DecidableEq A] (count number : Nat) :
    (∀ (commands : List (Command Grammar.Pattern (Grammar.Edit A))) (grammar : Grammar A),
      (reached Grammar.empty count commands).containers[number]? = some grammar →
        ∀ change, (reached (Grammar.empty : Grammar A) count commands).Refuses number change
          (grammar.Objects change)) ∧
    ∀ (commands : List (Command Automaton.Pattern (Automaton.Edit A))) (automaton : Automaton A),
      (reached Automaton.initial count commands).containers[number]? = some automaton →
        ∀ change, (reached (Automaton.initial : Automaton A) count commands).Refuses number change
          (automaton.Objects change) := by
  constructor
  · intro commands grammar hgrammar change
    have hsound : (reached (Grammar.empty : Grammar A) count commands).Sound :=
      sound_grammars count commands
    exact hsound.refuses hgrammar (fun refusal hobjects => hobjects.edit_eq)
      fun refusal now hedit => (hsound.containers number grammar hgrammar).objects_of_edit hedit
  · intro commands automaton hautomaton change
    have hsound : (reached (Automaton.initial : Automaton A) count commands).Sound :=
      sound_automata count commands
    exact hsound.refuses hautomaton (fun refusal hobjects => hobjects.edit_eq)
      fun refusal now hedit => (hsound.containers number automaton hautomaton).objects_of_edit hedit

/-- A run that leaves a grammar with one variable, one terminal, and a production of which nothing
but a tombstone is left. -/
def withdrawn : List (Command Grammar.Pattern (Grammar.Edit Nat)) :=
  [.edit 0 (.addVariables 1) none, .edit 0 (.intern [7]) none,
    .edit 0 (.addProduction (.ofVariable 1) .empty) (some "production"), .remove 0 "production"]

/-- A run that leaves an automaton with two states and one symbol. -/
def paired : List (Command Automaton.Pattern (Automaton.Edit Nat)) :=
  [.edit 0 (.addStates 1) none, .edit 0 (.intern [7]) none]

/-- The addition of a production with two unknown symbols behind one that is known. -/
def misspelled : Grammar.Edit Nat :=
  .addProduction (.ofVariable 1) (.ofSymbols [.ofTerminal 1, ⟨Int32.minValue⟩, .ofVariable 2])

/-- The addition of a transition from an unknown state that reads a variable. -/
def adrift : Automaton.Edit Nat := .addTransition ⟨⟨.ofVariable 1, .epsilon, .epsilon, 1⟩, 2⟩

/-- Of the unknown symbols of the right-hand side the first one is objected to.  The transition is
objected to for its state, whatever it reads. -/
theorem refusals_reached_first :
    ∃ (grammar : Grammar Nat) (automaton : Automaton Nat),
      (reached Grammar.empty 1 withdrawn).containers[0]? = some grammar ∧
      (reached Automaton.initial 1 paired).containers[0]? = some automaton ∧
      grammar.Objects misspelled (.unknownTerminal ⟨Int32.minValue⟩) ∧
      automaton.Objects adrift (.unknownState 2) := by
  have ⟨grammar, hgrammar⟩ : ∃ grammar,
      (reached (Grammar.empty : Grammar Nat) 1 withdrawn).containers[0]? = some grammar := ⟨_, rfl⟩
  have ⟨automaton, hautomaton⟩ : ∃ automaton,
      (reached (Automaton.initial : Automaton Nat) 1 paired).containers[0]? = some automaton :=
    ⟨_, rfl⟩
  have hproduction : (reached (Grammar.empty : Grammar Nat) 1 withdrawn).step
      (.edit 0 misspelled none) = .ok (.changed (.refused (.unknownTerminal ⟨Int32.minValue⟩)),
        reached Grammar.empty 1 withdrawn) := rfl
  have htransition : (reached (Automaton.initial : Automaton Nat) 1 paired).step
      (.edit 0 adrift none) = .ok (.changed (.refused (.unknownState 2)),
        reached Automaton.initial 1 paired) := rfl
  have hgrammars := (refusals_reached Nat 1 0).1 withdrawn grammar hgrammar
  have hautomata := (refusals_reached Nat 1 0).2 paired automaton hautomaton
  have ⟨hmisspelled, _⟩ := (hgrammars misspelled none _ _).mp hproduction
  have ⟨hadrift, _⟩ := (hautomata adrift none _ _).mp htransition
  exact ⟨grammar, automaton, hgrammar, hautomaton, hmisspelled, hadrift⟩

end Workspace

end FormalLanguages
