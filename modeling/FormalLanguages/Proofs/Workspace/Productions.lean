/-
# Adding a production agrees with a scan of what is stored

A grammar looks for a live copy of a production in one file of its index only, and the file mixes
live productions, tombstones and productions of other strings that share a fingerprint.  In every
run the answer is the one that reading all stored productions would give: the live copy, or a new
production at the end of the chain of its variable.  Behind this stands that the index files what
is stored, under its own place, and nothing else.
-/

import Mathlib.Data.List.Nodup
import FormalLanguages.Proofs.Workspace.Duplicates

namespace FormalLanguages

namespace Grammar

variable {A : Type} {grammar : Grammar A} {lhs : Symbol} {rhs : SymbolString} {group : Nat}

/-- The index of a grammar files each stored production once, under its own place, and it has no
file without productions. -/
structure Files (grammar : Grammar A) : Prop where
  count_eq : ∀ key element, grammar.graph.element key = .ok element → ∀ place,
    (fileOf grammar.index place).count key =
      if place = placeOf element.group element.data then 1 else 0
  current : ∀ place keys, grammar.index.get? place = some keys → keys ≠ [] ∧
    ∀ key ∈ keys, ∃ element, grammar.graph.element key = .ok element ∧
      placeOf element.group element.data = place

theorem Sound.files (hsound : grammar.Sound) : grammar.Files where
  count_eq key element helement place := by
    obtain ⟨entry, hentry, rfl⟩ := Graph.element_eq_ok_iff.mp helement
    have hmem : key ∈ fileOf grammar.index place ↔ place = placeOf entry.group entry.data := by
      rw [hsound.filed]
      constructor
      · rintro ⟨found, hfound, hplace⟩
        cases hentry.symm.trans hfound
        exact hplace.symm
      · exact fun hplace => ⟨entry, hentry, hplace.symm⟩
    split
    · next hplace =>
        exact List.count_eq_one_of_mem (hsound.nodup place) (hmem.mpr hplace)
    · next hplace => exact List.count_eq_zero.mpr fun hkey => hplace (hmem.mp hkey)
  current place keys hkeys := by
    refine ⟨fun hempty => hsound.nonempty place (hempty ▸ hkeys), fun key hkey => ?_⟩
    have hfile : key ∈ fileOf grammar.index place := by rwa [fileOf, hkeys]
    obtain ⟨entry, hentry, hplace⟩ := (hsound.filed place key).mp hfile
    exact ⟨entry.toElement, Graph.element_of_stored hentry, hplace⟩

/-- A variable that passes its check is the one that owns the group. -/
theorem eq_variableOf_of_checkVariable (hcheck : grammar.checkVariable lhs = .ok group) :
    lhs = variableOf group := by
  have ⟨hx, hlt⟩ := checkVariable_eq_ok_iff.mp hcheck
  have hbound := lhs.value.toInt_lt
  have hvalue : (Int32.ofNat (group + 1)).toInt = lhs.value.toInt := by
    rw [Int32.toInt_ofNat_of_lt (by omega)]
    omega
  exact congrArg Symbol.mk (Int32.toInt_inj.mp hvalue.symm)

theorem lacks_of_stored? (hnone : ∀ key entry, grammar.graph.stored? key = some entry →
    entry.group = group → entry.data = rhs → entry.deleted = true) :
    grammar.graph.Lacks group rhs := by
  intro key element helement
  obtain ⟨entry, hentry, rfl⟩ := Graph.element_eq_ok_iff.mp helement
  exact hnone key entry hentry

/-- Looking in one file agrees with a scan of all stored productions. -/
theorem Sound.adds [DecidableEq A] (hsound : grammar.Sound) (hunique : grammar.graph.Unique)
    {value : Nat} (hnextId : grammar.graph.nextId = ⟨.production, 32, value⟩)
    (hcheck : grammar.checkProduction lhs rhs = .ok group) :
    Adds .production grammar group rhs (grammar.addProduction lhs rhs) := by
  have haddition := hsound.addProduction_spec lhs rhs
  generalize grammar.addProduction lhs rhs = outcome at haddition ⊢
  cases haddition with
  | refused hcheck' => cases hcheck.symm.trans hcheck'
  | @found _ key entry hcheck' hentry hlive hgroup hdata =>
      cases hcheck.symm.trans hcheck'
      exact adds_of_found hunique (Graph.element_of_stored hentry) hgroup hdata
        hlive
  | created hcheck' hnone happended =>
      cases hcheck.symm.trans hcheck'
      have hlt := (checkVariable_spec (checkVariable_of_checkProduction hcheck)).1
      exact adds_of_created hsound.graph hlt hnextId (lacks_of_stored? hnone) happended
  | exhausted hcheck' hnone hfull =>
      cases hcheck.symm.trans hcheck'
      exact adds_of_exhausted hnextId (lacks_of_stored? hnone) hfull

/-- Of the changes of a grammar only adding a production brings in a new one. -/
instance deduplicating [DecidableEq A] :
    Deduplicating (Grammar A) SymbolString Pattern (Edit A) where
  edit_turns {grammar after change answer} hsound hedit := by
    cases Sound.effect_of_edit hsound hedit with
    | widened _ hwidened => exact .kept hwidened.persists hwidened.nextId_eq
    | created _ hnone _ happended => exact .created (lacks_of_stored? hnone) happended
    | removed _ _ _ hremoved => exact .kept hremoved.persists hremoved.nextId_eq
    | _ => exact .kept (Graph.Widened.refl _).persists rfl

end Grammar

namespace Workspace

/-- Whatever is done to grammars, adding a production whose symbols are those of the grammar
finds the live production of the variable with that right-hand side, or creates one, with a number
greater than every number that any production of the grammar has ever had.  No two live
productions of a variable are equal, and the index files what is stored. -/
theorem productions_deduplicated {A : Type} [DecidableEq A] {count : Nat}
    {commands : List (Command Grammar.Pattern (Grammar.Edit A))} {number : Nat}
    {grammar : Grammar A}
    (hgrammar : (reached (Grammar.empty : Grammar A) count commands).containers[number]? =
      some grammar) :
    (∀ lhs rhs group, grammar.checkProduction lhs rhs = .ok group →
      lhs = Grammar.variableOf group ∧
        Adds .production grammar group rhs (grammar.addProduction lhs rhs)) ∧
      (∀ element, Recorded (Grammar.empty : Grammar A) count commands number element →
        element.id < grammar.graph.nextId.value) ∧
      grammar.graph.Unique ∧ grammar.Files := by
  have hreached := sound_grammars (A := A) count
  have hsound := (hreached commands).containers number grammar hgrammar
  obtain ⟨hempty, hdescends⟩ := descends_of_reached hreached hgrammar
  have hunique : grammar.graph.Unique :=
    hdescends.unique hempty (Graph.unique_of_stored?_eq_none Grammar.stored?_empty)
  obtain ⟨value, hnextId⟩ := hdescends.nextId hempty
  refine ⟨fun lhs rhs group hcheck => ⟨?_, hsound.adds hunique hnextId hcheck⟩,
    fun _ => id_lt_nextId hreached hgrammar, hunique, Grammar.Sound.files hsound⟩
  exact Grammar.eq_variableOf_of_checkVariable (Grammar.checkVariable_of_checkProduction hcheck)

/-- A right-hand side, and another one that shares its fingerprint. -/
def sharing : SymbolString × SymbolString :=
  (.ofSymbols ([2, 4, 6, 7, 8, 1].map .ofVariable),
    .ofSymbols ([8, 8, 7, 4, 4, 4].map .ofVariable))

/-- A run that leaves a tombstone, a production that shares its fingerprint and a second copy of
the removed production in one file. -/
def crowding : List (Command Grammar.Pattern (Grammar.Edit Nat)) :=
  [.edit 0 (.addVariables 8) none,
    .edit 0 (.addProduction (.ofVariable 1) sharing.1) (some "held"), .remove 0 "held",
    .edit 0 (.addProduction (.ofVariable 1) sharing.2) none, .reclaim 0,
    .edit 0 (.addProduction (.ofVariable 1) sharing.1) none]

/-- Of three productions in one file, adding finds the one that is live and equal. -/
theorem productions_deduplicated_sharing :
    ∃ grammar, (reached (Grammar.empty : Grammar Nat) 1 crowding).containers[0]? = some grammar ∧
      Grammar.fileOf grammar.index (Grammar.placeOf 0 sharing.2) = [⟨0, 0⟩, ⟨1, 0⟩, ⟨2, 0⟩] ∧
      grammar.graph.Unique ∧ grammar.Files ∧
      grammar.addProduction (.ofVariable 1) sharing.1 = .ok (.ok (⟨2, 0⟩, grammar)) :=
  have hgrammar := Array.getElem?_eq_getElem
    (show 0 < (reached (Grammar.empty : Grammar Nat) 1 crowding).containers.size by decide +kernel)
  have hdeduplicated := productions_deduplicated hgrammar
  ⟨_, hgrammar, by decide +kernel, hdeduplicated.2.2.1, hdeduplicated.2.2.2,
    (hdeduplicated.1 (.ofVariable 1) sharing.1 0 (by decide +kernel)).2.found ⟨2, 0⟩
      ⟨2, 0, sharing.1, false⟩ (by decide +kernel) rfl rfl rfl⟩

end Workspace

end FormalLanguages
