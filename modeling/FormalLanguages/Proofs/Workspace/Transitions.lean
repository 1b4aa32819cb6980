/-
# Adding a transition agrees with a scan of what is stored

An automaton looks for a live copy of a transition at one key only, the one that its index keeps
for the source and the move.  Adding a copy of a removed transition overwrites this key, and freeing
a tombstone erases it only if it is still the one of the tombstone.  So the key is always that of
the copy that was created last, and if any copy is live then it is this one.

What the index finds after a change is what it found before or something new, and what is stored
keeps its number.  From this it follows that no copy that ever existed is newer than the one that
is found.
-/

import FormalLanguages.Proofs.Workspace.Duplicates

namespace FormalLanguages

namespace Automaton

variable {A : Type} {automaton after : Automaton A} {transition : Transition}

/-- The index of an automaton keeps keys of stored transitions, each under the source and the move
of its transition, and finds all that are live. -/
structure Finds (automaton : Automaton A) : Prop where
  current : ∀ place key, automaton.index.get? place = some key →
    ∃ element, automaton.graph.element key = .ok element ∧ (element.group, element.data) = place
  live : ∀ key element, automaton.graph.element key = .ok element → element.deleted = false →
    automaton.index.get? (element.group, element.data) = some key

theorem Sound.finds (hsound : automaton.Sound) : automaton.Finds where
  current place key hkey := by
    obtain ⟨entry, hentry, hplace⟩ := hsound.entered place key hkey
    exact ⟨entry.toElement, Graph.element_of_stored hentry, hplace⟩
  live key element helement hlive := by
    obtain ⟨entry, hentry, rfl⟩ := Graph.element_eq_ok_iff.mp helement
    exact hsound.found key entry hentry hlive

/-- The live transitions differ, because the index keeps one key for each source and move. -/
theorem Finds.unique (hfinds : automaton.Finds) : automaton.graph.Unique := by
  intro first second element other hfirst hsecond hlive hlive' hgroup hdata
  have hfound := hfinds.live first element hfirst hlive
  rw [hgroup, hdata, hfinds.live second other hsecond hlive'] at hfound
  exact (Option.some.inj hfound).symm

theorem lacks_of_stored? (hnone : ∀ key entry, automaton.graph.stored? key = some entry →
    (entry.group, entry.data) = (transition.source, transition.toMove) → entry.deleted = true) :
    automaton.graph.Lacks transition.source transition.toMove := by
  intro key element helement hgroup hdata
  obtain ⟨entry, hentry, rfl⟩ := Graph.element_eq_ok_iff.mp helement
  exact hnone key entry hentry (Prod.ext hgroup hdata)

/-- What the index finds under a place is never older than the given number. -/
structure Outruns (automaton : Automaton A) (place : Nat × Move) (id : Nat) : Prop where
  lt_nextId : id < automaton.graph.nextId.value
  le_found : ∀ key entry, automaton.index.get? place = some key →
    automaton.graph.stored? key = some entry → id ≤ entry.id

/-- What is stored is not newer than what the index finds. -/
theorem Sound.outruns (hsound : automaton.Sound) {key : Key} {entry : Entry Move}
    (hentry : automaton.graph.stored? key = some entry) :
    automaton.Outruns (entry.group, entry.data) entry.id where
  lt_nextId :=
    hsound.graph.numbered key entry.place (Graph.place?_of_stored hentry)
  le_found other found hother hfound := by
    obtain ⟨_, hfound', hplace⟩ := hsound.entered _ other hother
    cases hfound.symm.trans hfound'
    exact hsound.newest other key found entry hfound (hplace.symm ▸ hother) hentry hplace.symm

variable [DecidableEq A]

/-- Looking at one key agrees with a scan of all stored transitions. -/
theorem Sound.adds (hsound : automaton.Sound) {value : Nat}
    (hnextId : automaton.graph.nextId = ⟨.transition, 32, value⟩)
    (hcheck : automaton.checkTransition transition = .ok ()) :
    Adds .transition automaton transition.source transition.toMove
      (automaton.addTransition transition) := by
  have haddition := hsound.addTransition_spec transition
  generalize automaton.addTransition transition = outcome at haddition ⊢
  cases haddition with
  | refused hcheck' => cases hcheck.symm.trans hcheck'
  | @found key entry _ hentry hlive hplace =>
      exact adds_of_found hsound.finds.unique
        (Graph.element_of_stored hentry) (congrArg Prod.fst hplace)
        (congrArg Prod.snd hplace) hlive
  | created _ hnone happended =>
      exact adds_of_created hsound.graph (source_lt_of_checkTransition hcheck) hnextId
        (lacks_of_stored? hnone) happended
  | exhausted _ hnone hfull => exact adds_of_exhausted hnextId (lacks_of_stored? hnone) hfull

/-- A change of an automaton leaves the index and the numbers as they are and makes nothing live, or
it creates a transition that no live one equals and makes it the one that is found. -/
theorem Sound.edit_cases (hsound : automaton.Sound) {change : Edit A} {answer : Answer}
    (hedit : Container.edit automaton change = .ok (answer, after)) :
    (after.index = automaton.index ∧ automaton.graph.Persists after.graph ∧
      after.graph.nextId = automaton.graph.nextId) ∨
    ∃ source move key, automaton.graph.Lacks source move ∧
      automaton.graph.Appended source move key after.graph ∧
      after.index = automaton.index.insert (source, move) key := by
  cases hsound.effect_of_edit hedit with
  | widened _ hwidened => exact .inl ⟨rfl, hwidened.persists, hwidened.nextId_eq⟩
  | created _ hnone _ happended =>
      exact .inr ⟨_, _, _, lacks_of_stored? hnone, happended, rfl⟩
  | _ => exact .inl ⟨rfl, (Graph.Widened.refl _).persists, rfl⟩

instance deduplicating : Deduplicating (Automaton A) Move Pattern (Edit A) where
  edit_turns {automaton after change answer} hsound hedit := by
    rcases Sound.edit_cases hsound hedit with
      ⟨-, hpersists, hnextId⟩ | ⟨source, move, key, hlacks, happended, -⟩
    · exact .kept hpersists hnextId
    · exact .created hlacks happended

/-- What the index finds was found before, or has a new number. -/
theorem found_of_develops (hsound : automaton.Sound) (hdevelops : Develops automaton after)
    {place : Nat × Move} {key : Key} (hkey : after.index.get? place = some key) :
    automaton.index.get? place = some key ∨
      ∀ entry, after.graph.stored? key = some entry → automaton.graph.nextId.value ≤ entry.id := by
  cases hdevelops with
  | relabeled => exact .inl hkey
  | reclaimed hreclaim => exact .inl (get?_of_reclaim hreclaim hkey)
  | edited hedit =>
      rcases hsound.edit_cases hedit with
        ⟨hindex, -⟩ | ⟨source, move, new, -, happended, hindex⟩
      · exact .inl (hindex ▸ hkey)
      · rw [hindex, Table.get?_insert] at hkey
        split at hkey
        · cases hkey
          refine .inr fun entry hentry => ?_
          rw [happended.stored?_eq, if_pos rfl] at hentry
          cases hentry
          exact Nat.le_refl _
        · exact .inl hkey

/-- A change does not bring back what was outrun. -/
theorem Outruns.develops {place : Nat × Move} {id : Nat} (houtruns : automaton.Outruns place id)
    (hsound : automaton.Sound) (hdevelops : Develops automaton after) :
    after.Outruns place id where
  lt_nextId := Nat.lt_of_lt_of_le houtruns.lt_nextId (hdevelops.ages hsound).nextId_le
  le_found key now hkey hnow := by
    by_cases hold : now.id < automaton.graph.nextId.value
    · rcases found_of_develops hsound hdevelops hkey with hbefore | hnew
      · obtain ⟨entry, hentry, hbecomes⟩ := (hdevelops.ages hsound).origin key now hnow hold
        exact hbecomes.id_eq ▸ houtruns.le_found key entry hbefore hentry
      · exact absurd hold (Nat.not_lt.mpr (hnew now hnow))
    · exact Nat.le_trans (Nat.le_of_lt houtruns.lt_nextId) (Nat.not_lt.mp hold)

end Automaton

namespace Workspace

section Reached

variable {A : Type} [DecidableEq A] {count : Nat}
  {commands : List (Command Automaton.Pattern (Automaton.Edit A))} {number : Nat}
  {automaton : Automaton A}
  (hautomaton : (reached (Automaton.initial : Automaton A) count commands).containers[number]? =
    some automaton)

include hautomaton

/-- No transition that ever existed is newer than the one with its source and its move that the
index finds. -/
theorem outruns_recorded {element : Element Move}
    (hrecorded : Recorded (Automaton.initial : Automaton A) count commands number element) :
    automaton.Outruns (element.group, element.data) element.id := by
  obtain ⟨earlier, key, hsound, helement, hdescends⟩ :=
    descends_of_recorded (sound_automata count) hautomaton hrecorded
  obtain ⟨entry, hentry, rfl⟩ := Graph.element_eq_ok_iff.mp helement
  exact (hdescends.preserves (fun now => now.Outruns (entry.group, entry.data) entry.id)
    (fun _ _ hbefore hdevelops houtruns => houtruns.develops hbefore hdevelops) hsound
    (Automaton.Sound.outruns hsound hentry)).2

/-- Whatever is done to automata, adding a transition whose states and symbols are those of the
automaton finds the live transition that equals it, or creates one.  No transition of the automaton
ever had a number as great as the next one, or one greater than that of the equal transition that
the index finds.  No two live transitions are equal, and each is the one that the index finds. -/
theorem transitions_deduplicated :
    (∀ transition, automaton.checkTransition transition = .ok () →
      Adds .transition automaton transition.source transition.toMove
        (automaton.addTransition transition)) ∧
      (∀ element, Recorded (Automaton.initial : Automaton A) count commands number element →
        element.id < automaton.graph.nextId.value ∧
          ∀ key now, automaton.index.get? (element.group, element.data) = some key →
            automaton.graph.element key = .ok now → element.id ≤ now.id) ∧
      automaton.graph.Unique ∧ automaton.Finds := by
  have hreached := sound_automata (A := A) count
  have hsound := (hreached commands).containers number automaton hautomaton
  obtain ⟨hinitial, hdescends⟩ := descends_of_reached hreached hautomaton
  obtain ⟨value, hnextId⟩ := hdescends.nextId hinitial
  have hfinds := Automaton.Sound.finds hsound
  refine ⟨fun transition hcheck => hsound.adds hnextId hcheck, fun element hrecorded => ?_,
    hfinds.unique, hfinds⟩
  have houtruns := outruns_recorded hautomaton hrecorded
  refine ⟨houtruns.lt_nextId, fun key now hkey hnow => ?_⟩
  obtain ⟨entry, hentry, rfl⟩ := Graph.element_eq_ok_iff.mp hnow
  exact houtruns.le_found key entry hkey hentry

end Reached

/-- A run that leaves two tombstones of a transition and a live copy, and then frees the older
tombstone. -/
def reviving : List (Command Automaton.Pattern (Automaton.Edit Nat)) :=
  [.edit 0 (.addTransition ⟨⟨.epsilon, .epsilon, .epsilon, 0⟩, 0⟩) (some "old"), .remove 0 "old",
    .edit 0 (.addTransition ⟨⟨.epsilon, .epsilon, .epsilon, 0⟩, 0⟩) (some "new"), .remove 0 "new",
    .edit 0 (.addTransition ⟨⟨.epsilon, .epsilon, .epsilon, 0⟩, 0⟩) none,
    .dropHandle "old", .reclaim 0]

/-- Beside a tombstone of the same transition the live one is found, and it is newer than the
transition that was created second. -/
theorem transitions_deduplicated_reviving :
    ∃ automaton, (reached (Automaton.initial : Automaton Nat) 1 reviving).containers[0]? =
        some automaton ∧
      automaton.index.get? (0, ⟨.epsilon, .epsilon, .epsilon, 0⟩) = some ⟨2, 0⟩ ∧
      automaton.graph.element ⟨1, 0⟩ =
        .ok ⟨1, 0, ⟨.epsilon, .epsilon, .epsilon, 0⟩, true⟩ ∧
      automaton.graph.Unique ∧ automaton.Finds ∧
      automaton.addTransition ⟨⟨.epsilon, .epsilon, .epsilon, 0⟩, 0⟩ =
        .ok (.ok (⟨2, 0⟩, automaton)) :=
  have hautomaton := Array.getElem?_eq_getElem
    (show 0 < (reached (Automaton.initial : Automaton Nat) 1 reviving).containers.size by
      decide +kernel)
  have hdeduplicated := transitions_deduplicated hautomaton
  ⟨_, hautomaton, by decide +kernel, rfl, hdeduplicated.2.2.1, hdeduplicated.2.2.2,
    (hdeduplicated.1 ⟨⟨.epsilon, .epsilon, .epsilon, 0⟩, 0⟩ rfl).found ⟨2, 0⟩
      ⟨2, 0, ⟨.epsilon, .epsilon, .epsilon, 0⟩, false⟩ rfl rfl rfl rfl⟩

end Workspace

end FormalLanguages
