/-
# Containers are closed under their own symbols

Symbols carry no trace of the container that handed them out, and a caller may make up any of them.
A container therefore checks what it is given, and what it stores names only variables, states and
symbols of its own.  Its own may become more later, but never fewer, so this stays true of what was
stored before, of tombstones as well as of live elements, and of what a slot that was freed is used
for again.

An automaton also keeps a start and one mark for each state, and a mark tells what its state was
last set to.
-/

import FormalLanguages.Proofs.Workspace.Faults
import FormalLanguages.Proofs.Workspace.Interning

namespace FormalLanguages

namespace Grammar

variable {A : Type} {grammar after : Grammar A}

/-- Whether a symbol is a variable or a terminal of a grammar. -/
def Owns (grammar : Grammar A) (x : Symbol) : Prop :=
  (1 ≤ x.value.toInt ∧ x.value.toInt ≤ grammar.variableCount) ∨
    (-(grammar.terminalCount : Int) ≤ x.value.toInt ∧ x.value.toInt ≤ -1)

/-- A grammar whose stored productions consist of its own symbols. -/
structure Closed (grammar : Grammar A) : Prop where
  owned_lhs : ∀ key element, grammar.graph.element key = .ok element →
    1 ≤ (productionOf element).lhs.value.toInt ∧
      (productionOf element).lhs.value.toInt ≤ grammar.variableCount
  owned_rhs : ∀ key element, grammar.graph.element key = .ok element →
    ∀ x ∈ (productionOf element).rhs.symbols, grammar.Owns x
  /-- Every terminal of a stored production has a value. -/
  valued : ∀ key element, grammar.graph.element key = .ok element →
    ∀ x ∈ (productionOf element).rhs.symbols, x.isTerminal = true →
      ∃ value, grammar.terminalValue? x = some value

/-- A symbol that passes its check and is not empty is one of the grammar. -/
theorem owns_of_checkSymbol {x : Symbol} (hcheck : grammar.checkSymbol x = .ok ())
    (hfull : x.isEpsilon = false) : grammar.Owns x := by
  have hrange := checkSymbol_eq_ok_iff.mp hcheck
  have hzero : x.value.toInt ≠ 0 := by
    simpa [Symbol.isEpsilon, ← Int32.toInt_inj] using hfull
  unfold Owns
  omega

/-- What a grammar owns it owns for good. -/
theorem Owns.mono {x : Symbol} (howns : grammar.Owns x)
    (hvariables : grammar.variableCount ≤ after.variableCount)
    (hterminals : grammar.terminalCount ≤ after.terminalCount) : after.Owns x := by
  unfold Owns at howns ⊢
  omega

/-- A grammar whose stored right-hand sides consist of its own symbols. -/
def Spelled (grammar : Grammar A) : Prop :=
  ∀ key entry, grammar.graph.stored? key = some entry →
    ∀ x ∈ entry.data.symbols, grammar.Owns x

theorem spelled_empty : (empty : Grammar A).Spelled := by
  intro key entry hentry
  rw [stored?_empty] at hentry
  cases hentry

/-- Where nothing new is stored and nothing is taken from what the grammar owns, its productions
consist of its own symbols as before. -/
theorem Spelled.mono (hspelled : grammar.Spelled)
    (hstored : ∀ key now, after.graph.stored? key = some now →
      ∃ entry, grammar.graph.stored? key = some entry ∧ now.data = entry.data)
    (hvariables : grammar.variableCount ≤ after.variableCount)
    (hterminals : grammar.terminalCount ≤ after.terminalCount) : after.Spelled := by
  intro key now hnow x hx
  have ⟨entry, hentry, hdata⟩ := hstored key now hnow
  exact (hspelled key entry hentry x (hdata ▸ hx)).mono hvariables hterminals

variable [DecidableEq A]

theorem Spelled.edited (hspelled : grammar.Spelled) (hsound : grammar.Sound) {change : Edit A}
    {answer : Answer} (hedit : grammar.edit change = .ok (answer, after)) : after.Spelled := by
  cases hsound.effect_of_edit hedit with
  | widened _ hwidened =>
      refine hspelled.mono (fun key now hnow => ⟨now, hwidened.stored?_eq key ▸ hnow, rfl⟩) ?_
        (Nat.le_refl _)
      show grammar.graph.groups.size ≤ _
      have hsize := hwidened.size_eq
      exact Nat.le.intro hsize.symm
  | interned values =>
      refine hspelled.mono (fun key now hnow => ⟨now, hnow, rfl⟩) (Nat.le_refl _) ?_
      exact (Alphabet.extends_internAll grammar.alphabet values).length_le
  | @created lhs rhs group new graph index hcheck _ _ happended =>
      have hsame : graph.groups.size = grammar.graph.groups.size := happended.size_eq
      intro key now hnow x hx
      rw [happended.stored?_eq] at hnow
      have howns : grammar.Owns x := by
        split at hnow
        · cases hnow
          obtain ⟨_, _, hrest⟩ := bind_eq_ok.mp hcheck
          obtain ⟨_, hsymbols, _⟩ := bind_eq_ok.mp hrest
          exact owns_of_checkSymbol (forM_eq_ok hsymbols x hx) (rhs.epsilonFree x hx)
        · exact hspelled key now hnow x hx
      exact howns.mono (Nat.le_of_eq hsame.symm) (Nat.le_refl _)
  | removed _ _ _ hremoved =>
      refine hspelled.mono (fun key now hnow => ?_) (Nat.le_of_eq hremoved.size_eq.symm)
        (Nat.le_refl _)
      have ⟨entry, hentry, hbecomes⟩ := hremoved.persists.origin key now hnow
      exact ⟨entry, hentry, hbecomes.data_eq⟩
  | _ => exact hspelled

theorem Spelled.develops (hspelled : grammar.Spelled) (hsound : grammar.Sound)
    (hdevelops : Develops grammar after) : after.Spelled := by
  cases hdevelops with
  | edited hedit => exact hspelled.edited hsound hedit
  | relabeled _ hrelabeled hpersists =>
      refine hspelled.mono (fun key now hnow => ?_) (Nat.le_of_eq hrelabeled.size_eq.symm)
        (Nat.le_refl _)
      have ⟨entry, hentry, hbecomes⟩ := hpersists.origin key now hnow
      exact ⟨entry, hentry, hbecomes.data_eq⟩
  | reclaimed hreclaim =>
      have hswept := (swept_of_reclaim_eq_ok hsound hreclaim).2
      have halphabet : after.alphabet = grammar.alphabet :=
        Lexical.alphabet_reclaim (C := Grammar A) hreclaim
      exact hspelled.mono (fun key now hnow => ⟨now, hswept.stored?_before hnow, rfl⟩)
        (Nat.le_of_eq hswept.size_eq.symm) (Nat.le_of_eq (congrArg Alphabet.size halphabet.symm))

omit [DecidableEq A] in
/-- The symbols of a stored production are those of the grammar, and its terminals have values. -/
theorem Spelled.closed (hspelled : grammar.Spelled) (hsound : grammar.Sound) :
    grammar.Closed where
  owned_lhs key element helement := by
    have ⟨entry, hentry, heq⟩ := Graph.element_eq_ok_iff.mp helement
    subst heq
    have hnamed := hsound.named key entry hentry
    have hgroup : entry.group < grammar.graph.groups.size :=
      hsound.graph.grouped key entry.place (Graph.place?_of_stored hentry)
    have hvalue : (productionOf entry.toElement).lhs.value.toInt = entry.group + 1 := by
      exact_mod_cast Int32.toInt_ofNat_of_lt hnamed
    rw [hvalue]
    show _ ∧ _ ≤ (grammar.graph.groups.size : Int)
    omega
  owned_rhs key element helement := by
    have ⟨entry, hentry, heq⟩ := Graph.element_eq_ok_iff.mp helement
    subst heq
    exact hspelled key entry hentry
  valued key element helement x hx hterminal := by
    have ⟨entry, hentry, heq⟩ := Graph.element_eq_ok_iff.mp helement
    subst heq
    have hnegative : x.value.toInt < 0 := by
      simpa [Symbol.isTerminal, Int32.lt_iff_toInt_lt] using hterminal
    rcases hspelled key entry hentry x hx with ⟨hlow, _⟩ | hown
    · omega
    · exact Alphabet.exists_value_iff.mpr hown

end Grammar

namespace Automaton

variable {A : Type} {automaton after : Automaton A}

/-- Whether a symbol is empty or one of an automaton. -/
def Owns (automaton : Automaton A) (x : Symbol) : Prop :=
  x = .epsilon ∨ (-(automaton.symbolCount : Int) ≤ x.value.toInt ∧ x.value.toInt ≤ -1)

/-- An automaton whose start is a state, whose states are marked, and whose stored transitions
consist of its own states and symbols. -/
structure Closed (automaton : Automaton A) : Prop where
  owned_states : ∀ key element, automaton.graph.element key = .ok element →
    (transitionOf element).source < automaton.stateCount ∧
      (transitionOf element).sink < automaton.stateCount
  owned_symbols : ∀ key element, automaton.graph.element key = .ok element →
    automaton.Owns (transitionOf element).read ∧ automaton.Owns (transitionOf element).pop ∧
      automaton.Owns (transitionOf element).push
  start_lt : automaton.start < automaton.stateCount
  marked : automaton.Marked

/-- A symbol that passes its check is empty or one of the automaton. -/
theorem owns_of_checkSymbol {x : Symbol} (hcheck : automaton.checkSymbol x = .ok ()) :
    automaton.Owns x := by
  have ⟨hlow, hhigh⟩ := checkSymbol_eq_ok_iff.mp hcheck
  rcases Int.lt_or_eq_of_le hhigh with hneg | hzero
  · exact .inr ⟨hlow, by omega⟩
  · exact .inl (congrArg Symbol.mk (Int32.toInt_inj.mp hzero))

theorem Owns.mono {x : Symbol} (howns : automaton.Owns x)
    (hsymbols : automaton.symbolCount ≤ after.symbolCount) : after.Owns x := by
  rcases howns with hempty | hown
  · exact .inl hempty
  · exact .inr (by omega)

/-- A move to a state of an automaton under its own symbols. -/
structure Leads (automaton : Automaton A) (move : Move) : Prop where
  sink_lt : move.sink < automaton.stateCount
  read : automaton.Owns move.read
  pop : automaton.Owns move.pop
  push : automaton.Owns move.push

/-- The move of a transition that passes its checks leads to a state of the automaton. -/
theorem leads_of_checkTransition {transition : Transition}
    (hcheck : automaton.checkTransition transition = .ok ()) :
    automaton.Leads transition.toMove := by
  have ⟨_, _, hcheck⟩ := bind_eq_ok.mp hcheck
  have ⟨_, hsink, hcheck⟩ := bind_eq_ok.mp hcheck
  have ⟨_, hread, hcheck⟩ := bind_eq_ok.mp hcheck
  have ⟨_, hpop, hpush⟩ := bind_eq_ok.mp hcheck
  exact ⟨checkState_eq_ok_iff.mp hsink, owns_of_checkSymbol hread, owns_of_checkSymbol hpop,
    owns_of_checkSymbol hpush⟩

theorem Leads.mono {move : Move} (hleads : automaton.Leads move)
    (hstates : automaton.stateCount ≤ after.stateCount)
    (hsymbols : automaton.symbolCount ≤ after.symbolCount) : after.Leads move :=
  ⟨Nat.lt_of_lt_of_le hleads.sink_lt hstates, hleads.read.mono hsymbols, hleads.pop.mono hsymbols,
    hleads.push.mono hsymbols⟩

/-- An automaton whose start is a state and whose stored moves lead to its own states. -/
structure Wired (automaton : Automaton A) : Prop where
  leads : ∀ key entry, automaton.graph.stored? key = some entry → automaton.Leads entry.data
  start_lt : automaton.start < automaton.stateCount

theorem wired_initial : (initial : Automaton A).Wired where
  leads key entry hentry := by
    rw [stored?_initial] at hentry
    cases hentry
  start_lt := Nat.zero_lt_one

/-- Where nothing new is stored and nothing is taken from what the automaton owns, its moves lead to
its own states as before. -/
theorem Wired.mono (hwired : automaton.Wired)
    (hstored : ∀ key now, after.graph.stored? key = some now →
      ∃ entry, automaton.graph.stored? key = some entry ∧ now.data = entry.data)
    (hstart : after.start = automaton.start) (hstates : automaton.stateCount ≤ after.stateCount)
    (hsymbols : automaton.symbolCount ≤ after.symbolCount) : after.Wired where
  leads key now hnow := by
    have ⟨entry, hentry, hdata⟩ := hstored key now hnow
    rw [hdata]
    exact (hwired.leads key entry hentry).mono hstates hsymbols
  start_lt := Nat.lt_of_lt_of_le (hstart.symm ▸ hwired.start_lt) hstates

/-- The mark that a change gives a state, if it was carried out. -/
def markOf (state : Nat) : Edit A × Answer → Option Bool
  | (.setAccepting other accept, .done) => if other = state then some accept else none
  | _ => none

/-- The marks that changes gave a state, in order. -/
def marksOf (state : Nat) (past : List (Edit A × Answer)) : List Bool :=
  past.filterMap (markOf state)

/-- An automaton in which every state has the last mark that it was given. -/
structure Marks (past : List (Edit A × Answer)) (automaton : Automaton A) : Prop where
  marked : automaton.Marked
  last : ∀ state, automaton.isAccepting state = (marksOf state past).getLastD false

/-- A mark that is set is the one that is read of its state, and of no other. -/
theorem isAccepting_marked (hmarked : automaton.Marked) {state : Nat}
    (hstate : state < automaton.stateCount) (accept : Bool) (other : Nat) :
    { automaton with accepting := automaton.accepting.setIfInBounds state accept }.isAccepting
        other =
      if state = other then accept else automaton.isAccepting other := by
  have hlt : state < automaton.accepting.size := hmarked.symm ▸ hstate
  unfold isAccepting
  split
  · next heq =>
      subst heq
      simp [hlt]
  · next hne => simp [hne]

/-- States are added without a mark. -/
theorem isAccepting_widened (automaton : Automaton A) (graph : Graph Move) (count other : Nat) :
    { automaton with
      graph
      accepting := automaton.accepting ++ Array.replicate count false }.isAccepting other =
      automaton.isAccepting other := by
  unfold isAccepting
  by_cases hlt : other < automaton.accepting.size
  · simp [Array.getElem?_append_left, hlt]
  · have hle := Nat.not_lt.mp hlt
    simp only [Array.getElem?_append_right hle, Array.getElem?_replicate]
    split <;> simp [hle]

theorem marksOf_append (state : Nat) (past : List (Edit A × Answer)) (change : Edit A)
    (answer : Answer) :
    marksOf state (past ++ [(change, answer)]) =
      marksOf state past ++ (markOf state (change, answer)).toList := by
  simp only [marksOf, List.filterMap_append, List.filterMap_cons, List.filterMap_nil]
  cases markOf state (change, answer) <;> rfl

/-- A change that gives no state a mark leaves all marks as they are. -/
theorem Marks.unmarked {past : List (Edit A × Answer)} (hmarks : Marks past automaton)
    {change : Edit A} {answer : Answer} (hmarked : after.Marked)
    (hnone : ∀ state, markOf state (change, answer) = none)
    (hsame : ∀ state, after.isAccepting state = automaton.isAccepting state) :
    Marks (past ++ [(change, answer)]) after where
  marked := hmarked
  last state := by
    rw [marksOf_append, hnone, Option.toList_none, List.append_nil, hsame]
    exact hmarks.last state

variable [DecidableEq A]

theorem Wired.edited (hwired : automaton.Wired) (hsound : automaton.Sound) {change : Edit A}
    {answer : Answer} (hedit : automaton.edit change = .ok (answer, after)) : after.Wired := by
  cases hsound.effect_of_edit hedit with
  | widened _ hwidened =>
      refine hwired.mono (fun key now hnow => ⟨now, hwidened.stored?_eq key ▸ hnow, rfl⟩) rfl ?_
        (Nat.le_refl _)
      show automaton.graph.groups.size ≤ _
      exact Nat.le.intro hwidened.size_eq.symm
  | interned values =>
      refine hwired.mono (fun key now hnow => ⟨now, hnow, rfl⟩) rfl (Nat.le_refl _) ?_
      exact (Alphabet.extends_internAll automaton.alphabet values).length_le
  | started hstate =>
      refine ⟨fun key now hnow => ?_, hstate⟩
      exact (hwired.leads key now hnow).mono (Nat.le_refl _) (Nat.le_refl _)
  | marked =>
      exact hwired.mono (fun key now hnow => ⟨now, hnow, rfl⟩) rfl (Nat.le_refl _)
        (Nat.le_refl _)
  | @created transition new graph hcheck _ _ happended =>
      have hsize : graph.groups.size = automaton.graph.groups.size := happended.size_eq
      have hle := Nat.le_of_eq hsize.symm
      refine ⟨fun key now hnow => ?_, Nat.lt_of_lt_of_le hwired.start_lt hle⟩
      rw [happended.stored?_eq] at hnow
      have hleads : automaton.Leads now.data := by
        split at hnow
        · cases hnow
          exact leads_of_checkTransition hcheck
        · exact hwired.leads key now hnow
      exact hleads.mono hle (Nat.le_refl _)
  | _ => exact hwired

theorem Wired.develops (hwired : automaton.Wired) (hsound : automaton.Sound)
    (hdevelops : Develops automaton after) : after.Wired := by
  cases hdevelops with
  | edited hedit => exact hwired.edited hsound hedit
  | relabeled _ hrelabeled hpersists =>
      refine hwired.mono (fun key now hnow => ?_) rfl (Nat.le_of_eq hrelabeled.size_eq.symm)
        (Nat.le_refl _)
      obtain ⟨entry, hentry, hbecomes⟩ := hpersists.origin key now hnow
      exact ⟨entry, hentry, hbecomes.data_eq⟩
  | reclaimed hreclaim =>
      have hswept := (swept_of_reclaim_eq_ok hsound hreclaim).2
      have halphabet : after.alphabet = automaton.alphabet :=
        Lexical.alphabet_reclaim (C := Automaton A) hreclaim
      have hstart : after.start = automaton.start := by
        obtain ⟨_, _, hafter⟩ := bind_eq_ok.mp hreclaim
        cases hafter
        rfl
      exact hwired.mono (fun key now hnow => ⟨now, hswept.stored?_before hnow, rfl⟩) hstart
        (Nat.le_of_eq hswept.size_eq.symm) (Nat.le_of_eq (congrArg Alphabet.size halphabet.symm))

omit [DecidableEq A] in
/-- The states and the symbols of a stored transition are those of the automaton. -/
theorem Wired.closed (hwired : automaton.Wired) (hsound : automaton.Sound)
    (hmarked : automaton.Marked) : automaton.Closed where
  owned_states key element helement := by
    have ⟨entry, hentry, heq⟩ := Graph.element_eq_ok_iff.mp helement
    subst heq
    have hgroup : entry.group < automaton.graph.groups.size :=
      hsound.graph.grouped key entry.place (Graph.place?_of_stored hentry)
    exact ⟨hgroup, (hwired.leads key entry hentry).sink_lt⟩
  owned_symbols key element helement := by
    have ⟨entry, hentry, heq⟩ := Graph.element_eq_ok_iff.mp helement
    subst heq
    have hleads := hwired.leads key entry hentry
    exact ⟨hleads.read, hleads.pop, hleads.push⟩
  start_lt := hwired.start_lt
  marked := hmarked

/-- Every change gives the states the marks that it sets, and no others. -/
theorem follows_marks : Follows (Marks : List (Edit A × Answer) → Automaton A → Prop) where
  edited past automaton change answer after hsound hedit hmarks := by
    have hmarked := hmarks.marked.edited hsound hedit
    cases Sound.effect_of_edit hsound hedit with
    | widened =>
        exact hmarks.unmarked hmarked (fun _ => rfl) (isAccepting_widened automaton _ _)
    | @marked state accept hstate =>
        refine ⟨hmarked, fun other => ?_⟩
        rw [isAccepting_marked hmarks.marked hstate, marksOf_append]
        by_cases heq : state = other
        · simp [markOf, heq]
        · simp [markOf, heq, hmarks.last other]
    | _ => exact hmarks.unmarked hmarked (fun _ => rfl) fun _ => rfl
  relabeled past automaton graph hrelabeled hmarks :=
    ⟨hmarks.marked.congr rfl hrelabeled.size_eq, hmarks.last⟩
  reclaimed past automaton count after hsound hreclaim hmarks := by
    have hmarked := hmarks.marked.develops hsound (.reclaimed hreclaim)
    have ⟨_, _, hafter⟩ := bind_eq_ok.mp hreclaim
    cases hafter
    exact ⟨hmarked, hmarks.last⟩

end Automaton

namespace Workspace

/-- Whatever is done to grammars, or to automata, what one of them stores, live or removed, consists
of its own variables, terminals, states and symbols.  The start of an automaton is one of its
states, and a state accepts if the last mark that the run gave it says so. -/
theorem closed_reached (A : Type) [DecidableEq A] (count number : Nat) :
    (∀ (commands : List (Command Grammar.Pattern (Grammar.Edit A))) (grammar : Grammar A),
      (reached Grammar.empty count commands).containers[number]? = some grammar →
        grammar.Closed) ∧
    ∀ (commands : List (Command Automaton.Pattern (Automaton.Edit A))) (automaton : Automaton A),
      (reached Automaton.initial count commands).containers[number]? = some automaton →
        automaton.Closed ∧
          ∀ state, automaton.isAccepting state =
            (Automaton.marksOf state
              (changesFrom (Automaton.initial : Automaton A) count number commands)).getLastD
                false := by
  constructor
  · intro commands grammar hgrammar
    have ⟨hstart, hdescends⟩ := descends_of_reached (sound_grammars count) hgrammar
    have ⟨hsound, hspelled⟩ := hdescends.preserves Grammar.Spelled
      (fun _ _ hbefore hdevelops hspelled => hspelled.develops hbefore hdevelops) hstart
      Grammar.spelled_empty
    exact hspelled.closed hsound
  · intro commands automaton hautomaton
    have ⟨hstart, hdescends⟩ := descends_of_reached (sound_automata count) hautomaton
    have ⟨hsound, hwired⟩ := hdescends.preserves Automaton.Wired
      (fun _ _ hbefore hdevelops hwired => hwired.develops hbefore hdevelops) hstart
      Automaton.wired_initial
    have hunmarked : Automaton.Marks [] (Automaton.initial : Automaton A) :=
      ⟨rfl, fun state => by cases state <;> rfl⟩
    have hmarks :=
      follows_reached (sound_automata count) Automaton.follows_marks hunmarked hautomaton
    exact ⟨hwired.closed hsound hmarks.marked, hmarks.last⟩

/-- A run that adds a production under its own symbols, removes it while it is held, and asks for
productions with symbols that nobody handed out. -/
def foreign : List (Command Grammar.Pattern (Grammar.Edit Nat)) :=
  [.edit 0 (.addVariables 1) none, .edit 0 (.intern [7]) none,
    .edit 0 (.addProduction (.ofVariable 1) (.ofSymbols [.ofVariable 1, .ofTerminal 1]))
      (some "production"),
    .remove 0 "production",
    .edit 0 (.addProduction (.ofVariable 1) (.ofSymbols [⟨Int32.minValue⟩])) none,
    .edit 0 (.addProduction (.ofVariable 2) .empty) none]

/-- A run that marks both states of an automaton, one of them twice, and asks for the mark of a
third one. -/
def remarked : List (Command Automaton.Pattern (Automaton.Edit Nat)) :=
  [.edit 0 (.addStates 1) none, .edit 0 (.setAccepting 0 true) none,
    .edit 0 (.setAccepting 1 true) none, .edit 0 (.setAccepting 0 false) none,
    .edit 0 (.setAccepting 2 true) none]

/-- The symbols of the removed production are still those of the grammar.  Of the states of the
automaton only the second one accepts. -/
theorem closed_reached_refusing :
    ∃ (grammar : Grammar Nat) (automaton : Automaton Nat) (element : Element SymbolString),
      (reached Grammar.empty 1 foreign).containers[0]? = some grammar ∧
      (reached Automaton.initial 1 remarked).containers[0]? = some automaton ∧
      grammar.graph.element ⟨0, 0⟩ = .ok element ∧ element.deleted = true ∧
      (∀ x ∈ (Grammar.productionOf element).rhs.symbols, grammar.Owns x) ∧
      automaton.isAccepting 0 = false ∧ automaton.isAccepting 1 = true ∧
      automaton.isAccepting 2 = false := by
  have ⟨grammar, hgrammar⟩ : ∃ grammar,
      (reached (Grammar.empty : Grammar Nat) 1 foreign).containers[0]? = some grammar := ⟨_, rfl⟩
  have ⟨automaton, hautomaton⟩ : ∃ automaton,
      (reached (Automaton.initial : Automaton Nat) 1 remarked).containers[0]? = some automaton :=
    ⟨_, rfl⟩
  have ⟨element, helement, hdeleted⟩ : ∃ element,
      grammar.graph.element ⟨0, 0⟩ = .ok element ∧ element.deleted = true := by
    cases hgrammar
    exact ⟨_, rfl, by decide +kernel⟩
  have hclosed := (closed_reached Nat 1 0).1 foreign grammar hgrammar
  have hmarks := ((closed_reached Nat 1 0).2 remarked automaton hautomaton).2
  refine ⟨grammar, automaton, element, hgrammar, hautomaton, helement, hdeleted,
    hclosed.owned_rhs ⟨0, 0⟩ element helement, ?_, ?_, ?_⟩
  · rw [hmarks]
    decide +kernel
  · rw [hmarks]
    decide +kernel
  · rw [hmarks]
    decide +kernel

end Workspace

end FormalLanguages
