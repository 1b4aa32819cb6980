/-
# A number is declined exactly if it means nothing to the container

Variables are the numbers from one up to the number of variables, terminals are the numbers from
minus one down to minus the number of terminals, and states are counted from zero.  Each check of a
grammar or an automaton passes exactly the numbers in its range.  A number outside of it is declined
on the one of two grounds that its sign leaves, and of several numbers that are checked in order the
first one that is outside is declined.
-/

import FormalLanguages.Automaton
import FormalLanguages.Grammar
import FormalLanguages.Proofs.Alphabet
import FormalLanguages.Proofs.Outcome

namespace FormalLanguages

/-- What is said of the first of several arguments that has something to be said against it. -/
def Refusal.First {ι : Type} (declines : ι → Refusal → Prop) (arguments : List ι)
    (refusal : Refusal) : Prop :=
  ∃ before x after, arguments = before ++ x :: after ∧
    (∀ y ∈ before, ∀ other, ¬declines y other) ∧ declines x refusal

/-- A check of several arguments in order declines the first one that is declined by itself. -/
theorem Refusal.forM_eq_error_iff_first {ι : Type} {check : ι → Except Refusal Unit}
    {declines : ι → Refusal → Prop}
    (hcheck : ∀ x refusal, check x = .error refusal ↔ declines x refusal) (arguments : List ι)
    (refusal : Refusal) :
    arguments.forM check = .error refusal ↔ First declines arguments refusal := by
  have hpasses (y : ι) : check y = .ok () ↔ ∀ other, ¬declines y other := by
    simp only [← hcheck]
    cases check y <;> simp
  simp only [forM_eq_error_iff, First, hpasses, hcheck]

namespace Grammar

variable {A : Type} {grammar : Grammar A} {x : Symbol} {refusal : Refusal}

/-- On what grounds a symbol is declined where a variable of the grammar is wanted. -/
inductive DeclinesVariable (grammar : Grammar A) (x : Symbol) : Refusal → Prop
  | notAVariable (hx : x.value.toInt ≤ 0) : DeclinesVariable grammar x (.notAVariable x)
  | unknownVariable (hx : grammar.variableCount < x.value.toInt) :
      DeclinesVariable grammar x (.unknownVariable x)

/-- On what grounds a symbol is declined on the right-hand side of a production. -/
inductive DeclinesSymbol (grammar : Grammar A) (x : Symbol) : Refusal → Prop
  | unknownVariable (hx : grammar.variableCount < x.value.toInt) :
      DeclinesSymbol grammar x (.unknownVariable x)
  | unknownTerminal (hx : x.value.toInt < -(grammar.terminalCount : Int)) :
      DeclinesSymbol grammar x (.unknownTerminal x)

/-- The variables that pass their check are those of the grammar, and each is the variable of the
group that the check gives. -/
theorem checkVariable_eq_ok_iff {group : Nat} :
    grammar.checkVariable x = .ok group ↔
      x.value.toInt = group + 1 ∧ group < grammar.variableCount := by
  unfold checkVariable
  split
  · next hnone =>
      have hx := Symbol.variableId_eq_none_iff.mp hnone
      simp only [reduceCtorEq, false_iff]
      omega
  · next id hid =>
      have ⟨hx, hpos⟩ := Symbol.variableId_eq_some_iff.mp hid
      split
      · rw [Except.ok.injEq]
        omega
      · simp only [reduceCtorEq, false_iff]
        omega

theorem checkVariable_eq_error_iff :
    grammar.checkVariable x = .error refusal ↔ grammar.DeclinesVariable x refusal := by
  unfold checkVariable
  split
  · next hnone =>
      have hx := Symbol.variableId_eq_none_iff.mp hnone
      constructor
      · rintro ⟨⟩
        exact .notAVariable hx
      · rintro (_ | hbeyond)
        · rfl
        · omega
  · next id hid =>
      have ⟨hx, hpos⟩ := Symbol.variableId_eq_some_iff.mp hid
      split
      · constructor
        · intro hok
          cases hok
        · rintro (hkind | hbeyond) <;> omega
      · constructor
        · rintro ⟨⟩
          exact .unknownVariable (by omega)
        · rintro (hkind | hbeyond)
          · omega
          · rfl

/-- The symbols that may stand on a right-hand side are the empty one and those of the grammar. -/
theorem checkSymbol_eq_ok_iff :
    grammar.checkSymbol x = .ok () ↔
      -(grammar.terminalCount : Int) ≤ x.value.toInt ∧
        x.value.toInt ≤ grammar.variableCount := by
  unfold checkSymbol
  split
  · next offset hoffset =>
      have ⟨hx, hpos⟩ := Symbol.terminalOffset_eq_some_iff.mp hoffset
      split
      · simp only [true_iff]
        omega
      · simp only [reduceCtorEq, false_iff]
        omega
  · next hnone =>
      have hx := Symbol.terminalOffset_eq_none_iff.mp hnone
      split
      · next hvariable =>
          have hpos := Symbol.isVariable_iff.mp hvariable
          cases hcheck : grammar.checkVariable x with
          | ok group =>
              have ⟨hgroup, hlt⟩ := checkVariable_eq_ok_iff.mp hcheck
              simp only [Except.map, true_iff]
              omega
          | error refusal =>
              simp only [Except.map, reduceCtorEq, false_iff]
              rcases checkVariable_eq_error_iff.mp hcheck with hkind | hbeyond <;> omega
      · next hnot =>
          have hnonpos := mt Symbol.isVariable_iff.mpr hnot
          simp only [true_iff]
          omega

theorem checkSymbol_eq_error_iff :
    grammar.checkSymbol x = .error refusal ↔ grammar.DeclinesSymbol x refusal := by
  unfold checkSymbol
  split
  · next offset hoffset =>
      have ⟨hx, hpos⟩ := Symbol.terminalOffset_eq_some_iff.mp hoffset
      split
      · constructor
        · intro hok
          cases hok
        · rintro (hvariable | hterminal) <;> omega
      · constructor
        · rintro ⟨⟩
          exact .unknownTerminal (by omega)
        · rintro (hvariable | hterminal)
          · omega
          · rfl
  · next hnone =>
      have hx := Symbol.terminalOffset_eq_none_iff.mp hnone
      split
      · next hvariable =>
          have hpos := Symbol.isVariable_iff.mp hvariable
          have hmap : (grammar.checkVariable x).map (fun _ => ()) = .error refusal ↔
              grammar.checkVariable x = .error refusal := by
            cases grammar.checkVariable x <;> simp [Except.map]
          rw [hmap, checkVariable_eq_error_iff]
          constructor
          · rintro (hkind | hbeyond)
            · omega
            · exact .unknownVariable hbeyond
          · rintro (hbeyond | hterminal)
            · exact .unknownVariable hbeyond
            · omega
      · next hnot =>
          have hnonpos := mt Symbol.isVariable_iff.mpr hnot
          constructor
          · intro hok
            cases hok
          · rintro (hvariable | hterminal) <;> omega

/-- A production is declined for its variable, or else for the first symbol of its right-hand side
that may not stand there. -/
theorem checkProduction_eq_error_iff {lhs : Symbol} {rhs : SymbolString} :
    grammar.checkProduction lhs rhs = .error refusal ↔
      grammar.DeclinesVariable lhs refusal ∨
        (1 ≤ lhs.value.toInt ∧ lhs.value.toInt ≤ grammar.variableCount) ∧
          Refusal.First grammar.DeclinesSymbol rhs.symbols refusal := by
  unfold checkProduction
  rw [bind_eq_error, checkVariable_eq_error_iff]
  have hrest (group : Nat) :
      (do
        rhs.symbols.forM grammar.checkSymbol
        return group) = .error refusal ↔
        Refusal.First grammar.DeclinesSymbol rhs.symbols refusal := by
    rw [check_bind_eq_error, Refusal.forM_eq_error_iff_first fun _ _ => checkSymbol_eq_error_iff]
    simp
  simp only [hrest, checkVariable_eq_ok_iff]
  constructor
  · rintro (hvariable | ⟨group, ⟨hlhs, hlt⟩, hfirst⟩)
    · exact .inl hvariable
    · exact .inr ⟨by omega, hfirst⟩
  · rintro (hvariable | ⟨hlhs, hfirst⟩)
    · exact .inl hvariable
    · exact .inr ⟨lhs.value.toInt.toNat - 1, by omega, hfirst⟩

end Grammar

namespace Automaton

variable {A : Type} {automaton : Automaton A} {state : Nat} {x : Symbol} {refusal : Refusal}

/-- On what ground a state is declined. -/
inductive DeclinesState (automaton : Automaton A) (state : Nat) : Refusal → Prop
  | unknownState (hstate : automaton.stateCount ≤ state) :
      DeclinesState automaton state (.unknownState state)

/-- On what grounds a symbol is declined on a transition. -/
inductive DeclinesSymbol (automaton : Automaton A) (x : Symbol) : Refusal → Prop
  | unknownTerminal (hx : x.value.toInt < -(automaton.symbolCount : Int)) :
      DeclinesSymbol automaton x (.unknownTerminal x)
  | notATerminal (hx : 0 < x.value.toInt) : DeclinesSymbol automaton x (.notATerminal x)

theorem checkState_eq_ok_iff :
    automaton.checkState state = .ok () ↔ state < automaton.stateCount := by
  unfold checkState
  split <;> simp [*]

theorem checkState_eq_error_iff :
    automaton.checkState state = .error refusal ↔ automaton.DeclinesState state refusal := by
  unfold checkState
  split
  · next hlt =>
      constructor
      · intro hok
        cases hok
      · rintro ⟨hle⟩
        omega
  · next hnot =>
      constructor
      · rintro ⟨⟩
        exact .unknownState (Nat.le_of_not_lt hnot)
      · rintro ⟨-⟩
        rfl

/-- The symbols that may stand on a transition are the empty one and those of the automaton. -/
theorem checkSymbol_eq_ok_iff :
    automaton.checkSymbol x = .ok () ↔
      -(automaton.symbolCount : Int) ≤ x.value.toInt ∧ x.value.toInt ≤ 0 := by
  unfold checkSymbol
  split
  · next offset hoffset =>
      have ⟨hx, hpos⟩ := Symbol.terminalOffset_eq_some_iff.mp hoffset
      split
      · simp only [true_iff]
        omega
      · simp only [reduceCtorEq, false_iff]
        omega
  · next hnone =>
      have hx := Symbol.terminalOffset_eq_none_iff.mp hnone
      split
      · next hvariable =>
          have hpos := Symbol.isVariable_iff.mp hvariable
          simp only [reduceCtorEq, false_iff]
          omega
      · next hnot =>
          have hnonpos := mt Symbol.isVariable_iff.mpr hnot
          simp only [true_iff]
          omega

theorem checkSymbol_eq_error_iff :
    automaton.checkSymbol x = .error refusal ↔ automaton.DeclinesSymbol x refusal := by
  unfold checkSymbol
  split
  · next offset hoffset =>
      have ⟨hx, hpos⟩ := Symbol.terminalOffset_eq_some_iff.mp hoffset
      split
      · constructor
        · intro hok
          cases hok
        · rintro (hterminal | hvariable) <;> omega
      · constructor
        · rintro ⟨⟩
          exact .unknownTerminal (by omega)
        · rintro (hterminal | hvariable)
          · rfl
          · omega
  · next hnone =>
      have hx := Symbol.terminalOffset_eq_none_iff.mp hnone
      split
      · next hvariable =>
          constructor
          · rintro ⟨⟩
            exact .notATerminal (Symbol.isVariable_iff.mp hvariable)
          · rintro (hterminal | hvariable)
            · omega
            · rfl
      · next hnot =>
          have hnonpos := mt Symbol.isVariable_iff.mpr hnot
          constructor
          · intro hok
            cases hok
          · rintro (hterminal | hvariable) <;> omega

/-- A transition is declined for its source, or else for its sink, or else for the first of the
symbols that it reads, pops and pushes that may not stand there. -/
theorem checkTransition_eq_error_iff {transition : Transition} :
    automaton.checkTransition transition = .error refusal ↔
      automaton.DeclinesState transition.source refusal ∨
        transition.source < automaton.stateCount ∧
          (automaton.DeclinesState transition.sink refusal ∨
            transition.sink < automaton.stateCount ∧
              Refusal.First automaton.DeclinesSymbol
                [transition.read, transition.pop, transition.push] refusal) := by
  have hsymbols : (do
      automaton.checkSymbol transition.read
      automaton.checkSymbol transition.pop
      automaton.checkSymbol transition.push) =
      [transition.read, transition.pop, transition.push].forM automaton.checkSymbol := by
    simp only [List.forM, bind_pure_unit]
  have hfirst : [transition.read, transition.pop, transition.push].forM automaton.checkSymbol =
        .error refusal ↔ Refusal.First automaton.DeclinesSymbol
          [transition.read, transition.pop, transition.push] refusal :=
    Refusal.forM_eq_error_iff_first (fun _ _ => checkSymbol_eq_error_iff) _ _
  unfold checkTransition
  rw [hsymbols]
  simp only [check_bind_eq_error, checkState_eq_error_iff, checkState_eq_ok_iff, hfirst]

end Automaton

end FormalLanguages
