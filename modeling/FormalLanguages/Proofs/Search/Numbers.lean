/-
# A search along numbers leaves out nothing that is shown

Groups and terminals are numbered, and a search along either of them remembers the number from which
it is to look on.  What it has produced is below this number, and so is what it has passed over.  A
table may grow while the search runs, and what is shown of it may change, but a number that the
search does not refuse to show whenever it comes by is either produced or still to come.

The two kinds of tables differ in where they begin: groups are counted from zero, and a search for
them starts at the first group that the container names, while terminals are counted from one.
-/

import Mathlib.Data.List.Range
import FormalLanguages.Proofs.Search
import FormalLanguages.Proofs.Search.Uncounted

namespace FormalLanguages

variable {C α P E : Type} [Container C α P E] {containers : Array C} {container now : C}
  {number offset : Nat} {axis : Axis P} {seen : List Nat} {search : Search P}

namespace Axis

/-- An axis that runs along numbers. -/
def AlongNumbers : Axis P → Prop
  | elements _ => False
  | matching _ _ => False
  | groups _ => True
  | terminals _ => True

/-- The axis at another number. -/
def skipTo (offset : Nat) : Axis P → Axis P
  | elements cursor => elements cursor
  | matching pattern cursor => matching pattern cursor
  | groups _ => groups offset
  | terminals _ => terminals offset

/-- Whether the table along which an axis runs has a number. -/
def Has (container : C) : Axis P → Nat → Prop
  | terminals _, n => 1 ≤ n ∧ n ≤ Container.terminalCount container
  | _, n => n < (Container.graph container).groups.size

/-- Whether a search shows a number that the table has. -/
def Shows (container : C) : Axis P → Nat → Prop
  | terminals _, _ => True
  | _, n => Container.shows container n = .ok true

/-- Whether a search does not leave a number out that starts or goes on now: it does not start
behind it, and it shows it if the table has it. -/
def Admits (container : C) (axis : Axis P) (n : Nat) : Prop :=
  (∀ first, axis.start container = .ok (axis.skipTo first) → first ≤ n) ∧
    (axis.Has container n → axis.Shows container n)

/-- The row of a number. -/
def numberRow : Axis P → Nat → Match
  | terminals _, n => { symbol := some (.ofTerminal n) }
  | _, n => { group := some n }

theorem start_skipTo (axis : Axis P) (offset : Nat) (container : C) :
    (axis.skipTo offset).start container = axis.start container := by
  cases axis <;> rfl

theorem detach_skipTo (haxis : axis.AlongNumbers) :
    (axis.skipTo offset).detach = axis.skipTo offset := by
  cases axis with
  | elements cursor => exact haxis.elim
  | matching pattern cursor => exact haxis.elim
  | groups before => rfl
  | terminals before => rfl

section Uncounted

variable [LawfulContainer C α P E] [Uncounting C α P E]

/-- Reference counts do not matter for what a table has. -/
theorem has_congr (huncounted : Container.uncounted now = Container.uncounted container) (n : Nat) :
    axis.Has now n ↔ axis.Has container n := by
  have hsize : (Container.graph now).groups.size = (Container.graph container).groups.size := by
    rw [← Graph.uncounted_groups, ← graph_uncounted, huncounted, graph_uncounted,
      Graph.uncounted_groups]
  have hcount : Container.terminalCount now = Container.terminalCount container := by
    rw [← Uncounting.terminalCount_uncounted, huncounted, Uncounting.terminalCount_uncounted]
  cases axis <;> simp only [Has, hsize, hcount]

/-- Reference counts do not matter for what is shown of a table. -/
theorem shows_congr (huncounted : Container.uncounted now = Container.uncounted container)
    (n : Nat) : axis.Shows now n ↔ axis.Shows container n := by
  have hshows : Container.shows now n = Container.shows container n := by
    rw [← Uncounting.shows_uncounted, huncounted, Uncounting.shows_uncounted]
  cases axis <;> simp only [Shows, hshows]

end Uncounted

variable [LawfulContainer C α P E] (hsound : LawfulContainer.Sound container)
  (haxis : axis.AlongNumbers)

include hsound haxis

theorem start_numbers : ∃ first, axis.start container = .ok (axis.skipTo first) := by
  cases axis with
  | elements cursor => exact haxis.elim
  | matching pattern cursor => exact haxis.elim
  | groups offset =>
      have ⟨first, hfirst⟩ := LawfulContainer.firstGroup_spec hsound
      exact ⟨first, by simp [start, hfirst, skipTo]⟩
  | terminals offset => exact ⟨1, rfl⟩

omit haxis in
/-- Looking for a group that is shown gives the first one from an offset on. -/
theorem findM?_shows (offset : Nat) :
    let count := (Container.graph container).groups.size
    let search := (List.range' offset (count - offset)).findM? (Container.shows container)
    (search = .ok none ∧ ∀ n, n < count → Container.shows container n = .ok true → n < offset) ∨
    ∃ group, search = .ok (some group) ∧ offset ≤ group ∧ group < count ∧
      Container.shows container group = .ok true ∧
      ∀ other, other < group → Container.shows container other = .ok true → other < offset := by
  intro count search
  let shown (group : Nat) : Bool := (Container.shows container group).toOption.getD false
  have hshows (group : Nat) : Container.shows container group = .ok (shown group) := by
    obtain ⟨shows, hshows⟩ := LawfulContainer.shows_spec hsound group
    simp [shown, hshows, Except.toOption]
  have hsearch : search = .ok ((List.range' offset (count - offset)).find? shown) :=
    findM?_eq_ok _ fun group _ => hshows group
  cases hgroup : (List.range' offset (count - offset)).find? shown with
  | none =>
      left
      refine ⟨hsearch.trans (congrArg Except.ok hgroup), fun n hlt hn => ?_⟩
      by_contra hge
      have hmem : n ∈ List.range' offset (count - offset) :=
        List.mem_range'_1.mpr ⟨Nat.le_of_not_lt hge, by omega⟩
      exact List.find?_eq_none.mp hgroup n hmem (Except.ok.inj ((hshows n).symm.trans hn))
  | some group =>
      obtain ⟨hshown, hmem, hfirst⟩ := List.find?_range'_eq_some.mp hgroup
      have hrange := List.mem_range'_1.mp hmem
      right
      refine ⟨group, hsearch.trans (congrArg Except.ok hgroup), hrange.1, by omega,
        (hshows group).trans (congrArg Except.ok hshown), fun other hother hn => ?_⟩
      by_contra hge
      have hhidden := hfirst other (Nat.le_of_not_lt hge) hother
      rw [Except.ok.inj ((hshows other).symm.trans hn)] at hhidden
      cases hhidden

/-- The next match of an axis is the first number from its offset that the table has and that is
shown. -/
theorem advance_numbers (hready : (axis.skipTo offset).Ready container) (number : Nat) :
    ((axis.skipTo offset).advance container number = .ok (.ok none) ∧
      ∀ n, axis.Admits container n → axis.Has container n → n < offset) ∨
    ∃ n, (axis.skipTo offset).advance container number =
        .ok (.ok (some (axis.numberRow n, axis.skipTo (n + 1)))) ∧
      offset ≤ n ∧ axis.Has container n ∧ axis.Shows container n ∧
      ∀ other, axis.Admits container other → other < n → other < offset := by
  cases axis with
  | elements cursor => exact haxis.elim
  | matching pattern cursor => exact haxis.elim
  | terminals before =>
      have hpos : 1 ≤ offset := hready.terminals_pos offset rfl
      by_cases hle : offset ≤ Container.terminalCount container
      · right
        refine ⟨offset, by simp [skipTo, advance, hle, numberRow], Nat.le_refl _, ⟨hpos, hle⟩,
          trivial, ?_⟩
        exact fun other _ hlt => hlt
      · left
        refine ⟨by simp [skipTo, advance, hle], fun n _ hhas => ?_⟩
        exact Nat.lt_of_le_of_lt hhas.2 (Nat.lt_of_not_le hle)
  | groups before =>
      have hshown (n : Nat) (hadmits : (groups before : Axis P).Admits container n)
          (hlt : n < (Container.graph container).groups.size) :
          Container.shows container n = .ok true := hadmits.2 hlt
      rcases findM?_shows hsound offset with
        ⟨hfind, hnone⟩ | ⟨group, hfind, hle, hlt, hshows, hfirst⟩
      · left
        exact ⟨by simp [skipTo, advance, hfind], fun n hadmits hhas =>
          hnone n hhas (hshown n hadmits hhas)⟩
      · right
        refine ⟨group, by simp [skipTo, advance, hfind, numberRow], hle, hlt, hshows, ?_⟩
        exact fun other hadmits hother =>
          hfirst other hother (hshown other hadmits (Nat.lt_trans hother hlt))

end Axis

/-- How far a search along numbers has come that looks on from an offset: it has produced numbers
below it only, each of them once and in order, and it has passed over none that is admitted. -/
structure Passed (admitted : Nat → Prop) (offset : Nat) (seen : List Nat) : Prop where
  increasing : seen.Pairwise (· < ·)
  below : ∀ n ∈ seen, n < offset
  complete : ∀ n, admitted n → n < offset → n ∈ seen

namespace Passed

variable {admitted : Nat → Prop}

theorem start (hfirst : ∀ n, admitted n → offset ≤ n) : Passed admitted offset [] where
  increasing := .nil
  below n hn := by cases hn
  complete n hadmitted hlt := absurd (hfirst n hadmitted) (Nat.not_le.mpr hlt)

/-- The search has come on by the next number that is shown. -/
theorem found (hpassed : Passed admitted offset seen) {n : Nat} (hle : offset ≤ n)
    (hnone : ∀ other, admitted other → other < n → other < offset) :
    Passed admitted (n + 1) (seen ++ [n]) where
  increasing := by
    apply List.pairwise_append.mpr
    refine ⟨hpassed.increasing, List.pairwise_singleton _ n, fun earlier hearlier last hlast => ?_⟩
    rw [List.mem_singleton.mp hlast]
    exact Nat.lt_of_lt_of_le (hpassed.below earlier hearlier) hle
  below m hm := by
    rcases List.mem_append.mp hm with hearlier | hlast
    · exact Nat.lt_succ_of_lt (Nat.lt_of_lt_of_le (hpassed.below m hearlier) hle)
    · exact List.mem_singleton.mp hlast ▸ Nat.lt_succ_self n
  complete other hadmitted hlt := by
    apply List.mem_append.mpr
    rcases Nat.lt_or_eq_of_le (Nat.le_of_lt_succ hlt) with hbefore | rfl
    · exact .inl (hpassed.complete other hadmitted (hnone other hadmitted hbefore))
    · exact .inr List.mem_cons_self

end Passed

namespace Search

/-- A search along numbers that is tracked from its beginning, with the numbers it has produced
since.  What is admitted is not passed over, and at the end of the search what is also kept in the
table has been produced. -/
inductive Scans (admitted kept : Nat → Prop) (container : C) (number : Nat) (axis : Axis P) :
    Search P → List Nat → Prop
  | unstarted {offset : Nat} {current : Match} :
      Scans admitted kept container number axis
        ⟨some (number, axis.skipTo offset), .unstarted, current⟩ []
  | running {offset : Nat} {current : Match} {seen : List Nat}
      (hpassed : Passed admitted offset seen)
      (hwithin : ∀ n ∈ seen, axis.Has container n) :
      Scans admitted kept container number axis
        ⟨some (number, axis.skipTo offset), .running, current⟩ seen
  | exhausted {offset : Nat} {current : Match} {seen : List Nat}
      (hincreasing : seen.Pairwise (· < ·)) (hwithin : ∀ n ∈ seen, axis.Has container n)
      (hcomplete : ∀ n, admitted n → kept n → n ∈ seen) :
      Scans admitted kept container number axis
        ⟨some (number, axis.skipTo offset), .exhausted, current⟩ seen

variable {admitted kept : Nat → Prop}

/-- A search stays tracked while the table loses nothing. -/
theorem Scans.grows (hscans : Scans admitted kept container number axis search seen)
    (hhas : ∀ n, axis.Has container n → axis.Has now n) :
    Scans admitted kept now number axis search seen := by
  cases hscans with
  | unstarted => exact .unstarted
  | running hpassed hwithin => exact .running hpassed fun n hn => hhas n (hwithin n hn)
  | exhausted hincreasing hwithin hcomplete =>
      exact .exhausted hincreasing (fun n hn => hhas n (hwithin n hn)) hcomplete

/-- Until the end of a search nothing depends on what is kept. -/
theorem Scans.retarget (hscans : Scans admitted kept container number axis search seen)
    (hprogress : search.progress ≠ .exhausted) (others : Nat → Prop) :
    Scans admitted others container number axis search seen := by
  cases hscans with
  | unstarted => exact .unstarted
  | running hpassed hwithin => exact .running hpassed hwithin
  | exhausted => exact absurd rfl hprogress

theorem Scans.increasing (hscans : Scans admitted kept container number axis search seen) :
    seen.Pairwise (· < ·) := by
  cases hscans with
  | unstarted => exact .nil
  | running hpassed hwithin => exact hpassed.increasing
  | exhausted hincreasing hwithin hcomplete => exact hincreasing

theorem Scans.within (hscans : Scans admitted kept container number axis search seen) :
    ∀ n ∈ seen, axis.Has container n := by
  cases hscans with
  | unstarted => exact fun n hn => by cases hn
  | running hpassed hwithin => exact hwithin
  | exhausted hincreasing hwithin hcomplete => exact hwithin

/-- At the end of a search what is admitted and kept has been produced. -/
theorem Scans.complete (hscans : Scans admitted kept container number axis search seen)
    (hexhausted : search.progress = .exhausted) (n : Nat) (hadmitted : admitted n)
    (hkept : kept n) : n ∈ seen := by
  cases hscans with
  | unstarted => cases hexhausted
  | running hpassed hwithin => cases hexhausted
  | exhausted hincreasing hwithin hcomplete => exact hcomplete n hadmitted hkept

section Going

variable [LawfulContainer C α P E] (hall : AllSound containers) (haxis : axis.AlongNumbers)
  (hcontainer : containers[number]? = some container)
  (hadmits : ∀ n, admitted n → axis.Admits container n)

include hall haxis hcontainer hadmits

/-- A search that is rewound has passed over nothing that is admitted. -/
theorem rewind_passed (offset : Nat) (progress : Progress) (current : Match) :
    ∃ first, (⟨some (number, axis.skipTo offset), progress, current⟩ : Search P).rewind containers =
        .ok ⟨some (number, axis.skipTo first), .running, .empty⟩ ∧ Passed admitted first [] := by
  have hsound := hall number container hcontainer
  have ⟨first, hstart⟩ := Axis.start_numbers hsound haxis
  exact ⟨first, by simp [rewind, containerAt_eq hcontainer, Axis.start_skipTo, hstart],
    .start fun n hadmitted => (hadmits n hadmitted).1 first hstart⟩

variable (hkept : ∀ n, kept n → axis.Has container n)

include hkept

/-- One more step of a search that is running. -/
theorem advance_scans (current : Match) (hready : (axis.skipTo offset).Ready container)
    (hpassed : Passed admitted offset seen) (hwithin : ∀ n ∈ seen, axis.Has container n) :
    ∃ outcome, (⟨some (number, axis.skipTo offset), .running, current⟩ : Search P).advance
        containers = .ok outcome ∧
      Moves (Scans admitted kept container number axis)
        (fun found n => found = axis.numberRow n ∧ axis.Shows container n) seen outcome := by
  have hsound := hall number container hcontainer
  rcases Axis.advance_numbers hsound haxis hready number with
    ⟨hadvance, hnone⟩ | ⟨n, hadvance, hle, hhas, hshows, hnone⟩
  · refine ⟨(.ok false, exhaust ⟨some (number, axis.skipTo offset), .running, current⟩),
      by simp [advance, containerAt_eq hcontainer, hadvance], ?_⟩
    show Scans admitted kept container number axis
      ⟨some (number, (axis.skipTo offset).detach), .exhausted, .empty⟩ seen
    rw [Axis.detach_skipTo haxis]
    apply Scans.exhausted hpassed.increasing hwithin
    intro n hadmitted hkeep
    exact hpassed.complete n hadmitted (hnone n (hadmits n hadmitted) (hkept n hkeep))
  · refine ⟨(.ok true, ⟨some (number, axis.skipTo (n + 1)), .running, axis.numberRow n⟩),
      by simp [advance, containerAt_eq hcontainer, hadvance], n, ⟨rfl, hshows⟩, ?_⟩
    apply Scans.running
    · exact hpassed.found hle fun other hadmitted => hnone other (hadmits other hadmitted)
    · intro m hm
      rcases List.mem_append.mp hm with hearlier | hlast
      · exact hwithin m hearlier
      · exact List.mem_singleton.mp hlast ▸ hhas

/-- Going on to the next match keeps track of a search along numbers. -/
theorem Scans.matchNext (hfit : search.Fit containers.size) (hheld : search.Held containers)
    (hscans : Scans admitted kept container number axis search seen) :
    ∃ outcome, search.matchNext containers = .ok outcome ∧
      Moves (Scans admitted kept container number axis)
        (fun found n => found = axis.numberRow n ∧ axis.Shows container n) seen outcome := by
  cases hscans with
  | @unstarted offset current =>
      obtain ⟨first, hrewind, hpassed⟩ :=
        rewind_passed hall haxis hcontainer hadmits offset .unstarted current
      obtain ⟨begun, hbegun, hfitBegun, hheldBegun, hrunning, _⟩ := rewind_spec hall hfit
      cases hrewind.symm.trans hbegun
      have hready := hfitBegun.ready hheldBegun hrunning rfl hcontainer
      obtain ⟨outcome, hadvance, hmoves⟩ := advance_scans hall haxis hcontainer hadmits hkept
        .empty hready hpassed fun n hn => by cases hn
      exact ⟨outcome, by simp [Search.matchNext, hrewind, hadvance], hmoves⟩
  | @running offset current _ hpassed hwithin =>
      have hready := hfit.ready hheld rfl rfl hcontainer
      obtain ⟨outcome, hadvance, hmoves⟩ := advance_scans hall haxis hcontainer hadmits hkept
        current hready hpassed hwithin
      exact ⟨outcome, by simp [Search.matchNext, hadvance], hmoves⟩
  | exhausted hincreasing hwithin hcomplete =>
      exact ⟨_, rfl, .exhausted hincreasing hwithin hcomplete⟩

end Going

end Search

end FormalLanguages
