/-
# Interning pairs values and symbols for good

Grammars and automata intern values through a change that may name any number of them.  Nothing else
adds to the alphabet of a container, and nothing takes anything out of it.  So whatever a run does
in between, the values that it interns are listed in the order in which they came first, each has
the symbol of its place, and a symbol has a value exactly if it is one of those handed out.
-/

import FormalLanguages.Proofs.Alphabet
import FormalLanguages.Proofs.Workspace.Changes

namespace FormalLanguages

/-- The symbols that an answer hands out. -/
def Answer.handedOut : Answer → List Symbol
  | .symbols handed => handed
  | _ => []

/-- Containers with an alphabet that one kind of change adds to. -/
class Lexical (C : Type) (A α P E : outParam Type) [DecidableEq A] [Container C α P E]
    [LawfulContainer C α P E] where
  alphabet : C → Alphabet A
  /-- The change that interns values. -/
  intern : List A → E
  /-- The values that a change interns. -/
  valuesOf : E → List A
  /-- The value of a symbol, if it is one of the container. -/
  value? : C → Symbol → Option A
  valuesOf_intern (values : List A) : valuesOf (intern values) = values
  value?_eq (container : C) (x : Symbol) : value? container x = (alphabet container).value? x
  terminalCount_eq (container : C) : Container.terminalCount container = (alphabet container).size
  alphabet_setGraph (container : C) (graph : Graph α) :
    alphabet (Container.setGraph container graph) = alphabet container
  alphabet_reclaim {container after : C} {count : Nat}
    (hreclaim : Container.reclaim container = .ok (count, after)) :
    alphabet after = alphabet container
  /-- A change adds the values that it interns, and answers with their symbols if there are any. -/
  edit_interns {container after : C} {change : E} {answer : Answer}
    (hsound : LawfulContainer.Sound container)
    (hedit : Container.edit container change = .ok (answer, after)) :
    alphabet after = ((alphabet container).internAll (valuesOf change)).2 ∧
      (valuesOf change).zip answer.handedOut =
        (valuesOf change).zip ((alphabet container).internAll (valuesOf change)).1
  /-- Interning is always answered, and changes no more than the alphabet. -/
  edit_intern (container : C) (values : List A) :
    ∃ after, Container.edit container (intern values) =
        .ok (.symbols ((alphabet container).internAll values).1, after) ∧
      (((alphabet container).internAll values).2 = alphabet container → after = container)

namespace Grammar

variable {A : Type} [DecidableEq A]

/-- The values that a change of a grammar interns. -/
def Edit.valuesOf : Edit A → List A
  | .intern values => values
  | _ => []

theorem alphabet_setGraph (grammar : Grammar A) (graph : Graph SymbolString) :
    (Container.setGraph grammar graph).alphabet = grammar.alphabet := rfl

/-- A reclaim leaves the alphabet. -/
theorem alphabet_of_reclaim {grammar after : Grammar A} {count : Nat}
    (hreclaim : Container.reclaim grammar = .ok (count, after)) :
    after.alphabet = grammar.alphabet := by
  obtain ⟨_, _, hafter⟩ := bind_eq_ok.mp hreclaim
  cases hafter
  rfl

/-- A change adds the values that it interns, and answers with their symbols. -/
theorem interns_of_edit {grammar after : Grammar A} {change : Edit A} {answer : Answer}
    (hsound : LawfulContainer.Sound grammar)
    (hedit : Container.edit grammar change = .ok (answer, after)) :
    after.alphabet = (grammar.alphabet.internAll change.valuesOf).2 ∧
      change.valuesOf.zip answer.handedOut =
        change.valuesOf.zip (grammar.alphabet.internAll change.valuesOf).1 := by
  cases Sound.effect_of_edit hsound hedit <;> exact ⟨rfl, rfl⟩

theorem edit_intern (grammar : Grammar A) (values : List A) :
    ∃ after, Container.edit grammar (.intern values) =
        .ok (.symbols (grammar.alphabet.internAll values).1, after) ∧
      ((grammar.alphabet.internAll values).2 = grammar.alphabet → after = grammar) :=
  ⟨_, rfl, congrArg fun alphabet => { grammar with alphabet }⟩

/-- Grammars intern the values of terminals. -/
instance lexical : Lexical (Grammar A) A SymbolString Pattern (Edit A) where
  alphabet := alphabet
  intern := .intern
  valuesOf := Edit.valuesOf
  value? := terminalValue?
  valuesOf_intern _ := rfl
  value?_eq _ _ := rfl
  terminalCount_eq _ := rfl
  alphabet_setGraph := alphabet_setGraph
  alphabet_reclaim := alphabet_of_reclaim
  edit_interns := interns_of_edit
  edit_intern := edit_intern

end Grammar

namespace Automaton

variable {A : Type} [DecidableEq A]

/-- The values that a change of an automaton interns. -/
def Edit.valuesOf : Edit A → List A
  | .intern values => values
  | _ => []

theorem alphabet_setGraph (automaton : Automaton A) (graph : Graph Move) :
    (Container.setGraph automaton graph).alphabet = automaton.alphabet := rfl

/-- A reclaim leaves the alphabet. -/
theorem alphabet_of_reclaim {automaton after : Automaton A} {count : Nat}
    (hreclaim : Container.reclaim automaton = .ok (count, after)) :
    after.alphabet = automaton.alphabet := by
  obtain ⟨_, _, hafter⟩ := bind_eq_ok.mp hreclaim
  cases hafter
  rfl

/-- A change adds the values that it interns, and answers with their symbols. -/
theorem interns_of_edit {automaton after : Automaton A} {change : Edit A} {answer : Answer}
    (hsound : LawfulContainer.Sound automaton)
    (hedit : Container.edit automaton change = .ok (answer, after)) :
    after.alphabet = (automaton.alphabet.internAll change.valuesOf).2 ∧
      change.valuesOf.zip answer.handedOut =
        change.valuesOf.zip (automaton.alphabet.internAll change.valuesOf).1 := by
  cases Sound.effect_of_edit hsound hedit <;> exact ⟨rfl, rfl⟩

theorem edit_intern (automaton : Automaton A) (values : List A) :
    ∃ after, Container.edit automaton (.intern values) =
        .ok (.symbols (automaton.alphabet.internAll values).1, after) ∧
      ((automaton.alphabet.internAll values).2 = automaton.alphabet → after = automaton) :=
  ⟨_, rfl, congrArg fun alphabet => { automaton with alphabet }⟩

/-- Automata intern the values of symbols. -/
instance lexical : Lexical (Automaton A) A Move Pattern (Edit A) where
  alphabet := alphabet
  intern := .intern
  valuesOf := Edit.valuesOf
  value? := symbolValue?
  valuesOf_intern _ := rfl
  value?_eq _ _ := rfl
  terminalCount_eq _ := rfl
  alphabet_setGraph := alphabet_setGraph
  alphabet_reclaim := alphabet_of_reclaim
  edit_interns := interns_of_edit
  edit_intern := edit_intern

end Automaton

section Calls

variable (C : Type) {A α P E : Type} [DecidableEq A] [Container C α P E] [LawfulContainer C α P E]
  [Lexical C A α P E]

/-- The values that changes interned, each with the symbol that it was answered. -/
def calls (past : List (E × Answer)) : List (A × Symbol) :=
  past.flatMap fun (change, answer) => (Lexical.valuesOf C change).zip answer.handedOut

/-- An alphabet that lists what was interned, each value once and in order, and a symbol for each
call that it names. -/
structure Lists (past : List (E × Answer)) (container : C) : Prop where
  values_eq : (Lexical.alphabet container).values =
    ((calls C past).map Prod.fst).eraseDups
  names : ∀ call ∈ calls C past, (Lexical.alphabet container).Names call.2 call.1

variable {C}

/-- Every change adds to the alphabet what it interns. -/
theorem follows_lists : Follows (Lists C : List (E × Answer) → C → Prop) where
  edited past container change answer after hsound hedit hlists := by
    have ⟨halphabet, hzip⟩ := Lexical.edit_interns hsound hedit
    have hlength := Alphabet.length_internAll (Lexical.alphabet container)
      (Lexical.valuesOf C change)
    have hcalls : calls C (past ++ [(change, answer)]) = calls C past ++
        (Lexical.valuesOf C change).zip
          ((Lexical.alphabet container).internAll (Lexical.valuesOf C change)).1 := by
      rw [← hzip]
      simp [calls]
    constructor
    · rw [hcalls, List.map_append, List.map_fst_zip (Nat.le_of_eq hlength.symm), halphabet]
      exact Alphabet.values_internAll hlists.values_eq _
    · intro call hcall
      rw [hcalls] at hcall
      rw [halphabet]
      rcases List.mem_append.mp hcall with hpast | hnew
      · exact (hlists.names call hpast).mono (Alphabet.extends_internAll _ _)
      · exact Alphabet.names_internAll _ _ call.1 call.2 hnew
  relabeled past container graph _ hlists :=
    ⟨(Lexical.alphabet_setGraph container graph).symm ▸ hlists.values_eq,
      (Lexical.alphabet_setGraph container graph).symm ▸ hlists.names⟩
  reclaimed past container count after _ hreclaim hlists :=
    ⟨(Lexical.alphabet_reclaim hreclaim).symm ▸ hlists.values_eq,
      (Lexical.alphabet_reclaim hreclaim).symm ▸ hlists.names⟩

end Calls

namespace Workspace

section Interns

variable {C A α P E : Type} [DecidableEq A] [Container C α P E] [LawfulContainer C α P E]
  [Lexical C A α P E]

/-- The values that a run interns in one of a number of new containers, each with the symbol that it
is answered. -/
def internedFrom (start : C) (count number : Nat) (commands : List (Command P E)) :
    List (A × Symbol) :=
  calls C (changesFrom start count number commands)

/-- A run after which values and symbols of a container name each other. -/
structure Interns (start : C) (count number : Nat) (commands : List (Command P E)) (now : C) :
    Prop where
  /-- Interning is always answered, with one symbol for each value. -/
  answered : ∀ values keep, ∃ handed after,
    (reached start count commands).step (.edit number (Lexical.intern C values) keep) =
        .ok (.changed (.symbols handed), after) ∧ handed.length = values.length
  /-- Two calls are answered the same symbol exactly if they intern the same value. -/
  eq_iff : ∀ first ∈ internedFrom start count number commands,
    ∀ second ∈ internedFrom start count number commands,
      first.2 = second.2 ↔ first.1 = second.1
  /-- The alphabet has as many values as were ever interned. -/
  count_eq : Container.terminalCount now =
    ((internedFrom start count number commands).map Prod.fst).eraseDups.length
  /-- The values have the symbols `-1`, `-2` and so on in the order in which they came first. -/
  place_eq : ∀ call ∈ internedFrom start count number commands, ∀ place : Nat,
    ((internedFrom start count number commands).map Prod.fst).eraseDups[place]? = some call.1 →
      call.2.value.toInt = -(place + 1 : Int)
  /-- The value of a symbol that was answered at some moment is what was interned then. -/
  value_eq : ∀ earlier later, commands = earlier ++ later →
    ∀ call ∈ internedFrom start count number earlier, Lexical.value? now call.2 = some call.1
  /-- A symbol has a value exactly if it is one of those handed out. -/
  exists_value_iff : ∀ x, (∃ value, Lexical.value? now x = some value) ↔
    -(Container.terminalCount now : Int) ≤ x.value.toInt ∧ x.value.toInt ≤ -1
  /-- Interning the value of a symbol gives the symbol back and changes nothing. -/
  again : ∀ x value keep, Lexical.value? now x = some value →
    (reached start count commands).step (.edit number (Lexical.intern C [value]) keep) =
      .ok (.changed (.symbols [x]), reached start count commands)

variable {start now : C} {count number : Nat} {commands : List (Command P E)}

/-- What was interned in the beginning of a run was interned in the run. -/
theorem internedFrom_append (start : C) (count number : Nat)
    (earlier later : List (Command P E)) :
    ∃ rest, internedFrom start count number (earlier ++ later) =
      internedFrom start count number earlier ++ rest := by
  have ⟨rest, hrest⟩ :=
    changes_append (ofContainers (Array.replicate count start)) number earlier later
  exact ⟨calls C rest, by simp [internedFrom, changesFrom, hrest, calls]⟩

/-- A run of containers that intern nothing at first pairs values and symbols, as long as fewer than
`2 ^ 31` values have been interned. -/
theorem interns_reached
    (hreached : ∀ commands : List (Command P E), (reached start count commands).Sound)
    (hempty : (Lexical.alphabet start).values = [])
    (hnow : (reached start count commands).containers[number]? = some now)
    (hfew : Container.terminalCount now < 2 ^ 31) : Interns start count number commands now := by
  have hstart : Lists C ([] : List (E × Answer)) start := ⟨hempty, fun call hcall => by cases hcall⟩
  have hlists := follows_reached hreached follows_lists hstart hnow
  have hsize : (Lexical.alphabet now).size < 2 ^ 31 := Lexical.terminalCount_eq now ▸ hfew
  have hvalue (call : A × Symbol) (hcall : call ∈ internedFrom start count number commands) :
      Lexical.value? now call.2 = some call.1 := by
    rw [Lexical.value?_eq]
    exact (hlists.names call hcall).value?_eq hsize
  constructor
  · intro values keep
    have ⟨after, hedit, _⟩ := Lexical.edit_intern now values
    exact ⟨_, _, step_edit hnow hedit keep (fun _ => nofun), Alphabet.length_internAll _ values⟩
  · intro first hfirst second hsecond
    constructor
    · intro hsame
      have hvalues := hvalue first hfirst
      rw [hsame, hvalue second hsecond] at hvalues
      exact (Option.some.inj hvalues).symm
    · intro hsame
      have ⟨place, hplace, hx⟩ := hlists.names first hfirst
      have htoInt := (hlists.names first hfirst).toInt_eq hsize hplace
      have htoInt' := (hlists.names second hsecond).toInt_eq hsize (hsame ▸ hplace)
      exact congrArg Symbol.mk (Int32.toInt_inj.mp (htoInt.trans htoInt'.symm))
  · rw [Lexical.terminalCount_eq]
    exact congrArg List.length hlists.values_eq
  · intro call hcall place hplace
    apply (hlists.names call hcall).toInt_eq hsize
    rwa [hlists.values_eq]
  · intro earlier later heq call hcall
    apply hvalue
    have ⟨rest, hrest⟩ := internedFrom_append start count number earlier later
    rw [heq, hrest]
    exact List.mem_append_left rest hcall
  · intro x
    rw [Lexical.terminalCount_eq, ← Alphabet.exists_value_iff]
    simp only [Lexical.value?_eq]
  · intro x value keep hx
    rw [Lexical.value?_eq] at hx
    have hintern := Alphabet.internAll_of_value? hsize hx
    have ⟨after, hedit, hkept⟩ := Lexical.edit_intern now [value]
    rw [hintern] at hedit hkept
    rw [step_edit hnow hedit keep (fun _ => nofun), hkept rfl, setContainer_self hnow]

end Interns

/-- Whatever is done to grammars, or to automata, the values that are interned in one of them and
its symbols name each other, as long as they are fewer than `2 ^ 31`. -/
theorem interning_pairs (A : Type) [DecidableEq A] (count number : Nat) :
    (∀ (commands : List (Command Grammar.Pattern (Grammar.Edit A))) (grammar : Grammar A),
      (reached Grammar.empty count commands).containers[number]? = some grammar →
        grammar.terminalCount < 2 ^ 31 →
          Interns Grammar.empty count number commands grammar) ∧
    ∀ (commands : List (Command Automaton.Pattern (Automaton.Edit A))) (automaton : Automaton A),
      (reached Automaton.initial count commands).containers[number]? = some automaton →
        automaton.symbolCount < 2 ^ 31 →
          Interns Automaton.initial count number commands automaton := by
  constructor
  · intro commands grammar hgrammar hfew
    exact interns_reached (sound_grammars count) rfl hgrammar hfew
  · intro commands automaton hautomaton hfew
    exact interns_reached (sound_automata count) rfl hautomaton hfew

/-- A run that interns some values twice, with a production in between that is removed and freed. -/
def spelled : List (Command Grammar.Pattern (Grammar.Edit Nat)) :=
  [.edit 0 (.addVariables 1) none, .edit 0 (.intern [7, 8]) none,
    .edit 0 (.addProduction (.ofVariable 1) .empty) (some "production"),
    .remove 0 "production", .dropHandle "production", .reclaim 0,
    .edit 0 (.intern [8, 9, 7]) none]

/-- A run that interns a value of an automaton twice, with another state in between. -/
def stacked : List (Command Automaton.Pattern (Automaton.Edit Nat)) :=
  [.edit 0 (.intern [5]) none, .edit 0 (.addStates 1) none, .edit 0 (.intern [6, 5]) none]

/-- Five calls intern three values of the grammar, and each symbol still has the value that it was
handed out for.  Among the symbols without a value are that of a variable and the least one.
Neither the grammar nor the automaton changes when a value is interned again. -/
theorem interning_pairs_again :
    ∃ (grammar : Grammar Nat) (automaton : Automaton Nat),
      (reached Grammar.empty 1 spelled).containers[0]? = some grammar ∧
      (reached Automaton.initial 1 stacked).containers[0]? = some automaton ∧
      internedFrom (Grammar.empty : Grammar Nat) 1 0 spelled =
        [(7, ⟨-1⟩), (8, ⟨-2⟩), (8, ⟨-2⟩), (9, ⟨-3⟩), (7, ⟨-1⟩)] ∧
      (∀ call ∈ internedFrom (Grammar.empty : Grammar Nat) 1 0 spelled,
        grammar.terminalValue? call.2 = some call.1) ∧
      (∀ x : Symbol, x.value = 1 ∨ x.value = Int32.minValue →
        ¬∃ value, grammar.terminalValue? x = some value) ∧
      (reached (Grammar.empty : Grammar Nat) 1 spelled).step
          (.edit 0 (Grammar.Edit.intern [9]) none) =
        .ok (.changed (.symbols [⟨-3⟩]), reached Grammar.empty 1 spelled) ∧
      (reached (Automaton.initial : Automaton Nat) 1 stacked).step
          (.edit 0 (Automaton.Edit.intern [5]) none) =
        .ok (.changed (.symbols [⟨-1⟩]), reached Automaton.initial 1 stacked) := by
  have ⟨grammar, hgrammar⟩ : ∃ grammar,
      (reached (Grammar.empty : Grammar Nat) 1 spelled).containers[0]? = some grammar := ⟨_, rfl⟩
  have ⟨automaton, hautomaton⟩ : ∃ automaton,
      (reached (Automaton.initial : Automaton Nat) 1 stacked).containers[0]? = some automaton :=
    ⟨_, rfl⟩
  have hcount : grammar.terminalCount = 3 := by
    cases hgrammar
    decide +kernel
  have hcount' : automaton.symbolCount = 2 := by
    cases hautomaton
    decide +kernel
  have hinterns := (interning_pairs Nat 1 0).1 spelled grammar hgrammar (by omega)
  have hinterns' := (interning_pairs Nat 1 0).2 stacked automaton hautomaton (by omega)
  have hcalls : internedFrom (Grammar.empty : Grammar Nat) 1 0 spelled =
      [(7, ⟨-1⟩), (8, ⟨-2⟩), (8, ⟨-2⟩), (9, ⟨-3⟩), (7, ⟨-1⟩)] := by decide +kernel
  have hcalls' : internedFrom (Automaton.initial : Automaton Nat) 1 0 stacked =
      [(5, ⟨-1⟩), (6, ⟨-2⟩), (5, ⟨-1⟩)] := by decide +kernel
  have hvalues := hinterns.value_eq spelled [] (List.append_nil spelled).symm
  have hvalues' := hinterns'.value_eq stacked [] (List.append_nil stacked).symm
  refine ⟨grammar, automaton, hgrammar, hautomaton, hcalls, hvalues, fun x hx hvalue => ?_,
    hinterns.again ⟨-3⟩ 9 none (hvalues (9, ⟨-3⟩) (by simp [hcalls])),
    hinterns'.again ⟨-1⟩ 5 none (hvalues' (5, ⟨-1⟩) (by simp [hcalls']))⟩
  have ⟨hlow, hhigh⟩ := (hinterns.exists_value_iff x).mp hvalue
  have hterminals : Container.terminalCount grammar = 3 := hcount
  rw [hterminals] at hlow
  rcases hx with hx | hx
  · rw [hx] at hhigh
    exact absurd hhigh (by decide)
  · rw [hx] at hlow
    exact absurd hlow (by decide)

end Workspace

end FormalLanguages
