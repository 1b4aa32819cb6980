/-
# Emptying a variable

A search for the productions of a variable is confined to the chain of the variable, and it accepts
every live production there.  So it is to find just what removing the variable removes, and going
through its rows and removing the production of each, one by one, leaves the grammar in the same
state.  All productions of the variable are tombstones then, so removing it again changes nothing.
-/

import FormalLanguages.Proofs.Workspace.Productions
import FormalLanguages.Proofs.Workspace.Removal

namespace FormalLanguages

namespace Grammar

variable {A : Type} {grammar : Grammar A} {x : Symbol} {group : Nat}

/-- A pattern that fixes the variable is confined to its group. -/
theorem scope_productionsOf (hcheck : grammar.checkVariable x = .ok group) :
    ({ lhs := .is x } : Pattern).scope = some group := by
  simp only [checkVariable] at hcheck
  split at hcheck
  · cases hcheck
  · next id hid =>
      split at hcheck
      · cases hcheck
        simp [Pattern.scope, hid]
      · cases hcheck

/-- A pattern that fixes nothing but the variable matches each production of the variable. -/
theorem matchOf_productionsOf [DecidableEq A] {element : Element SymbolString}
    (hgroup : element.group = group) :
    matchOf (Grammar A) ({ lhs := .is (variableOf group) } : Pattern) element = some [] := by
  subst hgroup
  have hslots : slotsOf (C := Grammar A) ({ lhs := .is (variableOf element.group) } : Pattern)
      element = .ok (some []) := by
    simp [slotsOf, examine, Container.constraints, Container.slotCount, Container.slots,
      Pattern.constraints, Pattern.slots, RhsPattern.constraints, RhsPattern.slots, Term.constraint,
      Term.slot?, slotsNeeded, Constraint.solve, Constraint.check, productionOf]
  rw [matchOf, hslots]
  rfl

/-- A pattern that fixes nothing but the variable names no slot. -/
theorem fits_productionsOf [DecidableEq A] (x : Symbol) :
    ¬Container.Overruns (Grammar A) ({ lhs := .is x } : Pattern) := by
  simp [Container.Overruns, Container.slots, Pattern.slots, RhsPattern.slots, Term.slot?]

theorem edit_removeVariable [DecidableEq A] {after : Grammar A} {count : Nat}
    (hremove : grammar.removeVariable x = .ok (.ok (count, after))) :
    Container.edit grammar (.removeVariable x) = .ok (.count count, after) := by
  simp [Container.edit, edit, hremove, Answer.orRefused]

/-- Removing a variable removes the productions that a new search for its productions is to find. -/
theorem Sound.removeVariable_pending [DecidableEq A] (hsound : grammar.Sound)
    (hcheck : grammar.checkVariable x = .ok group) (serial number : Nat) :
    let axis : Axis Pattern := .matching ⟨serial, { lhs := .is x }⟩ none
    ∃ found graph, (Search.along number axis).Pending grammar number axis found ∧
      grammar.removeVariable x = .ok (.ok (found.length, { grammar with graph })) ∧
      grammar.graph.removeAll (found.map Prod.fst) = .ok (found.length, graph) ∧ graph.Sound ∧
      graph.size + found.length = grammar.graph.size ∧
      grammar.graph.Removed graph fun _ element => element.group == group := by
  intro axis
  have hgroup := (checkVariable_spec hcheck).1
  have hscope : Container.scope (Grammar A) ({ lhs := .is x } : Pattern) = some group :=
    scope_productionsOf hcheck
  have haccepts (element : Element SymbolString) (helement : element.group = group) :
      matchOf (Grammar A) ({ lhs := .is x } : Pattern) element ≠ none := by
    rw [eq_variableOf_of_checkVariable hcheck, matchOf_productionsOf helement]
    exact Option.some_ne_none []
  have ⟨graph, hremove, hall⟩ := Graph.removeGroup_found hsound.graph hgroup haccepts
  have ⟨count, after, hagain, hgraph, hsize, hremoved⟩ :=
    Graph.removeGroup_removed hsound.graph hgroup
  cases hremove.symm.trans hagain
  refine ⟨_, graph, Search.pending_scoped ⟨serial, _⟩ hsound.graph hgroup hscope number, ?_, hall,
    hgraph, hsize, hremoved⟩
  simp only [removeVariable, hcheck, hremove, ok_bind, pure_eq_ok]
  rfl

/-- A variable whose productions have been removed can be removed again, which changes nothing. -/
theorem removeVariable_removed {graph : Graph SymbolString}
    (hcheck : grammar.checkVariable x = .ok group) (hgraph : graph.Sound)
    (hremoved : grammar.graph.Removed graph fun _ element => element.group == group) :
    { grammar with graph }.removeVariable x = .ok (.ok (0, { grammar with graph })) := by
  have ⟨hx, hgroup⟩ := checkVariable_eq_ok_iff.mp hcheck
  have hcheckAfter : { grammar with graph }.checkVariable x = .ok group :=
    checkVariable_eq_ok_iff.mpr
      ⟨hx, Nat.lt_of_lt_of_eq hgroup (congrArg Array.size hremoved.groups_eq).symm⟩
  have hdeleted (key : Key) (entry : Entry SymbolString) (hentry : graph.stored? key = some entry)
      (hgroup : entry.group = group) : entry.deleted = true := by
    rw [hremoved.stored?_eq, Option.map_eq_some_iff] at hentry
    obtain ⟨before, _, rfl⟩ := hentry
    simpa using .inr hgroup
  have hremove := Graph.removeGroup_deleted hgraph (checkVariable_spec hcheckAfter).1 hdeleted
  simp [removeVariable, hcheckAfter, hremove]

end Grammar

namespace Workspace

/-- Whatever is done to grammars, removing a variable removes as many productions as a search for
its productions has rows, and leaves just the state that removing the production of each row leaves.
No other production is affected, and removing the variable again changes nothing. -/
theorem variable_removed_row_by_row {A : Type} [DecidableEq A] {count number : Nat}
    {commands : List (Command Grammar.Pattern (Grammar.Edit A))} {grammar : Grammar A}
    (hgrammar : (reached (Grammar.empty : Grammar A) count commands).containers[number]? =
      some grammar) {x : Symbol} {id : Nat} (hx : x.variableId = some id)
    (hid : id ≤ grammar.variableCount) :
    let workspace := reached Grammar.empty count commands
    let removing : Command Grammar.Pattern (Grammar.Edit A) :=
      .edit number (.removeVariable x) none
    ∃ (rows : List Match) (now : Grammar A),
      let after := workspace.setContainer number now
      workspace.step removing = .ok (.changed (.count rows.length), after) ∧
        workspace.RemovesRows number { lhs := .is x } rows after ∧
        now.productionCount + rows.length = grammar.productionCount ∧
        (∀ key, (∀ element, grammar.graph.element key = .ok element →
            (Grammar.productionOf element).lhs ≠ x) →
          now.graph.store.cell key = grammar.graph.store.cell key) ∧
        after.step removing = .ok (.changed (.count 0), after) := by
  intro workspace removing
  have hsound : workspace.Sound := sound_grammars count commands
  have hlawful : grammar.Sound := hsound.containers number grammar hgrammar
  have hcheck : grammar.checkVariable x = .ok (id - 1) := by
    simp [Grammar.checkVariable, hx, hid]
  have ⟨found, graph, hpending, hremove, hall, hgraph, hsize, hremoved⟩ :=
    hlawful.removeVariable_pending hcheck workspace.serial number
  have hafter := (hsound.removed hgrammar hgraph hremoved).sound
  have hedit := Grammar.edit_removeVariable hremove
  have heditAgain :=
    Grammar.edit_removeVariable (Grammar.removeVariable_removed hcheck hgraph hremoved)
  have hnow : (workspace.setContainer number { grammar with graph }).containers[number]? =
      some { grammar with graph } := getElem?_replaced_self hgrammar _
  refine ⟨_, { grammar with graph }, ?_,
    hsound.removesRows hgrammar hpending (Grammar.fits_productionsOf x) hall hafter, ?_,
    fun key hothers => hremoved.cell_eq fun element helement => ?_, ?_⟩
  · rw [List.length_map]
    exact step_edit hgrammar hedit none fun _ => nofun
  · rw [List.length_map]
    exact hsize
  · have hne : element.group ≠ id - 1 := fun heq =>
      hothers element helement ((congrArg Grammar.variableOf heq).trans
        (Grammar.eq_variableOf_of_checkVariable hcheck).symm)
    exact beq_false_of_ne hne
  · rw [step_edit hnow heditAgain none (fun _ => nofun), setContainer_self hnow]

/-- A run after which one of three productions of a variable is a tombstone, one is held, and a
search stands between the two that are live. -/
def thinned : List (Command Grammar.Pattern (Grammar.Edit Nat)) :=
  [.edit 0 (.addVariables 2) none,
    .edit 0 (.addProduction (.ofVariable 1) (.ofSymbol (.ofVariable 1))) none,
    .edit 0 (.addProduction (.ofVariable 1) .empty) (some "removed"),
    .edit 0 (.addProduction (.ofVariable 2) .empty) none,
    .edit 0 (.addProduction (.ofVariable 1) (.ofSymbol (.ofVariable 2))) (some "held"),
    .remove 0 "removed", .search (some (0, .elements)) "walk", .next "walk" none]

/-- The two live productions are removed row by row, in front of the tombstone and behind it. -/
theorem variable_removed_row_by_row_thinned :
    let workspace := reached (Grammar.empty : Grammar Nat) 1 thinned
    ∃ grammar rows now, workspace.containers[0]? = some grammar ∧
      grammar.graph.chain 0 = .ok [⟨0, 0⟩, ⟨1, 0⟩, ⟨3, 0⟩] ∧ rows.length = 2 ∧
      workspace.RemovesRows 0 { lhs := .is (.ofVariable 1) } rows (workspace.setContainer 0 now) ∧
      now.productionCount + 2 = grammar.productionCount := by
  intro workspace
  have hgrammar := Array.getElem?_eq_getElem
    (show 0 < workspace.containers.size by decide +kernel)
  have ⟨rows, now, hstep, hrows, hsize, _⟩ := variable_removed_row_by_row hgrammar
    (show (Symbol.ofVariable 1).variableId = some 1 from rfl) (by decide +kernel)
  have hcount : (workspace.step (.edit 0 (.removeVariable (.ofVariable 1)) none)).map Prod.fst =
      .ok (.changed (.count 2)) := by decide +kernel
  rw [hstep] at hcount
  have hlength : rows.length = 2 := by simpa [Except.map] using hcount
  exact ⟨_, rows, now, hgrammar, by decide +kernel, hlength, hrows, hlength ▸ hsize⟩

end Workspace

end FormalLanguages
