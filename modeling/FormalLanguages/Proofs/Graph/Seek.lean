/-
# Seeking finds the first element ahead that is live and accepted

A walk is positioned at a cursor, and what it may still meet are the places onward from there: that
of the element at the cursor and those behind it.  At the end of a walk there are none.

Seeking from a cursor gives the least of these places whose element is live and accepted, and moves
the cursor just behind it.  Nothing that is accepted is stepped over on the way, and what is onward
from the new cursor is what was behind the element that was found.  The trail gets shorter with
every element found, so a walk ends.

The candidates of a scan share what accepting them writes to.  As it is reset after each of them
that is rejected, every candidate is decided as if it were the first.
-/

import FormalLanguages.Proofs.Graph.Order

namespace FormalLanguages.Graph

variable {α β : Type} {graph : Graph α} {key : Key} {keys : List Key} {confined : Bool}
  {cursor : Option Key} {place : Place} {region : Place → Prop} {bound : Nat}

/-- The places that a walk at a cursor has not passed. -/
def Onward (graph : Graph α) (confined : Bool) (cursor : Option Key) (place : Place) : Prop :=
  ∃ key front, cursor = some key ∧ graph.place? key = some front ∧
    (place = front ∨ Behind confined front place)

/-- The element at a cursor, if there is one, is stored. -/
def Positioned (graph : Graph α) (cursor : Option Key) : Prop :=
  ∀ key, cursor = some key → ∃ entry, graph.stored? key = some entry

theorem positioned_none (graph : Graph α) : graph.Positioned none := by
  intro key hkey
  cases hkey

theorem Behind.trans {first second third : Place} (hfirst : Behind confined first second)
    (hsecond : Behind confined second third) : Behind confined first third :=
  ⟨Place.lt_trans hfirst.1 hsecond.1, fun hconfined =>
    (hsecond.2 hconfined).trans (hfirst.2 hconfined)⟩

theorem not_onward_none (graph : Graph α) (confined : Bool) (place : Place) :
    ¬graph.Onward confined none place := by
  rintro ⟨key, front, hcursor, -⟩
  cases hcursor

theorem Trail.eq_head? (htrail : graph.Trail confined cursor keys) : cursor = keys.head? := by
  cases htrail <;> rfl

/-- From a stored element, a trail meets what is onward from there. -/
theorem ahead_onward (hsound : graph.Sound) (confined : Bool)
    (hpositioned : graph.Positioned cursor) :
    ∃ keys, graph.Ahead confined (graph.Onward confined cursor) cursor keys := by
  cases cursor with
  | none =>
      refine ⟨[], .done, fun key => ?_, .nil⟩
      constructor
      · intro hkey
        cases hkey
      · rintro ⟨place, -, honward⟩
        exact absurd honward (not_onward_none graph confined place)
  | some key =>
      obtain ⟨entry, hentry⟩ := hpositioned key rfl
      have hplace : graph.place? key = some entry.place := place?_of_stored hentry
      have honward (place : Place) : graph.Onward confined (some key) place ↔
          place = entry.place ∨ Behind confined entry.place place := by
        constructor
        · rintro ⟨key', front, hkey, hfront, hbehind⟩
          cases hkey
          cases hplace.symm.trans hfront
          exact hbehind
        · intro hbehind
          exact ⟨key, _, rfl, hplace, hbehind⟩
      obtain ⟨next, rest, hnext, hahead⟩ := ahead_behind hsound confined hplace
      refine ⟨key :: rest, .step hentry hnext hahead.trail, ?_, ?_⟩
      · intro other
        simp only [List.mem_cons, hahead.mem_iff, honward]
        constructor
        · rintro (rfl | ⟨place, hother, hbehind⟩)
          · exact ⟨_, hplace, .inl rfl⟩
          · exact ⟨place, hother, .inr hbehind⟩
        · rintro ⟨place, hother, rfl | hbehind⟩
          · exact .inl (hsound.distinct other key _ _ hother hplace rfl)
          · exact .inr ⟨place, hother, hbehind⟩
      · refine List.pairwise_cons.mpr ⟨fun other hother => ?_, hahead.increasing⟩
        obtain ⟨place, hother, hbehind⟩ := (hahead.mem_iff other).mp hother
        rw [placeAt_eq hplace, placeAt_eq hother]
        exact hbehind.1

namespace Ahead

variable (hahead : graph.Ahead confined region cursor keys)

include hahead

/-- A trail through a region is at or in front of every element of the region. -/
theorem onward (hgroup : ∀ first second, confined = true → region first → region second →
    first.group = second.group) (hplace : graph.place? key = some place) (hregion : region place) :
    graph.Onward confined cursor place := by
  have hkey : key ∈ keys := (hahead.mem_iff key).mpr ⟨place, hplace, hregion⟩
  cases keys with
  | nil => cases hkey
  | cons first rest =>
      obtain ⟨front, hfront, hregionFront⟩ := (hahead.mem_iff first).mp List.mem_cons_self
      refine ⟨first, front, hahead.trail.eq_head?, hfront, ?_⟩
      rcases List.mem_cons.mp hkey with rfl | hrest
      · rw [hplace] at hfront
        exact .inl (Option.some.inj hfront)
      · have hlt := (List.pairwise_cons.mp hahead.increasing).1 key hrest
        rw [placeAt_eq hfront, placeAt_eq hplace] at hlt
        exact .inr ⟨hlt, fun hconfined => hgroup _ _ hconfined hregion hregionFront⟩

/-- What is onward from the beginning of a trail through a region, and stored, is in the region,
if the region holds all that is behind its elements. -/
theorem region_of_onward (hclosed : ∀ front place, region front →
    Behind confined front place → region place) (honward : graph.Onward confined cursor place) :
    region place := by
  obtain ⟨key, front, rfl, hfront, hbehind⟩ := honward
  have hkey : key ∈ keys := List.mem_of_mem_head? (Option.mem_def.mpr hahead.trail.eq_head?.symm)
  obtain ⟨front', hfront', hregion⟩ := (hahead.mem_iff key).mp hkey
  cases hfront.symm.trans hfront'
  rcases hbehind with rfl | hbehind
  · exact hregion
  · exact hclosed front place hregion hbehind

theorem nodup : keys.Nodup := by
  apply hahead.increasing.imp
  intro first second hlt heq
  subst heq
  exact Place.lt_irrefl _ hlt

theorem positioned : graph.Positioned cursor := by
  intro key hcursor
  have hkey : key ∈ keys :=
    List.mem_of_mem_head? (Option.mem_def.mpr (hahead.trail.eq_head?.symm.trans hcursor))
  obtain ⟨place, hplace, -⟩ := (hahead.mem_iff key).mp hkey
  obtain ⟨entry, hentry, -⟩ := place?_eq_some_iff.mp hplace
  exact ⟨entry, hentry⟩

/-- No trail is longer than there are slots. -/
theorem length_le : keys.length ≤ graph.store.slots.size := by
  apply Store.length_le_of_stored hahead.nodup
  intro key hkey
  obtain ⟨place, hplace, -⟩ := (hahead.mem_iff key).mp hkey
  obtain ⟨entry, hentry, -⟩ := place?_eq_some_iff.mp hplace
  obtain ⟨cell, hcell, -⟩ := stored?_eq_some_iff.mp hentry
  exact ⟨cell, hcell⟩

end Ahead

/-- What seeking gives at a key: the element has to be live and accepted. -/
def visit (graph : Graph α) (accept : Element α → Option β) (key : Key) : Option (Key × β) :=
  (graph.stored? key).bind fun entry =>
    if entry.deleted then none else (accept entry.toElement).map (key, ·)

theorem visit_eq_some_iff {accept : Element α → Option β} {found : Key × β} :
    graph.visit accept key = some found ↔
      found.1 = key ∧ ∃ entry, graph.stored? key = some entry ∧ entry.deleted = false ∧
        accept entry.toElement = some found.2 := by
  obtain ⟨key', value⟩ := found
  cases hentry : graph.stored? key with
  | none => simp [visit, hentry]
  | some entry =>
      cases hdeleted : entry.deleted with
      | true => simp [visit, hentry, hdeleted]
      | false =>
          simp only [visit, hentry, hdeleted, Option.bind_some, Bool.false_eq_true, ↓reduceIte,
            Option.map_eq_some_iff, Prod.mk.injEq, Option.some.injEq, exists_eq_left', true_and]
          constructor
          · rintro ⟨value', haccept, rfl, rfl⟩
            exact ⟨rfl, haccept⟩
          · rintro ⟨rfl, haccept⟩
            exact ⟨value, haccept, rfl, rfl⟩

theorem visit_map {γ : Type} (accepts : Element α → Option β) (value : β → γ) (key : Key) :
    graph.visit (fun element => (accepts element).map value) key =
      (graph.visit accepts key).map (Prod.map id value) := by
  simp only [visit]
  cases graph.stored? key with
  | none => rfl
  | some entry =>
      cases hdeleted : entry.deleted with
      | true => simp [hdeleted]
      | false => cases haccept : accepts entry.toElement <;> simp [hdeleted, haccept]

/-- The first of the elements on a trail that is live. -/
theorem Trail.nextLiveWithin_eq (htrail : graph.Trail confined cursor keys)
    (hbound : keys.length ≤ bound) :
    graph.nextLiveWithin confined bound cursor =
      .ok ((keys.findSome? (graph.visit fun _ => some ())).map Prod.fst) := by
  induction htrail generalizing bound with
  | done => cases bound <;> rfl
  | @step key next rest entry hentry hnext _ ih =>
      cases bound with
      | zero => simp at hbound
      | succ bound =>
          have hdead := isDeleted_of_stored hentry
          have hrest := ih (Nat.le_of_succ_le_succ hbound)
          cases hdeleted : entry.deleted with
          | true => simp [nextLiveWithin, hdead, hdeleted, hnext, hrest, visit, hentry]
          | false => simp [nextLiveWithin, hdead, hdeleted, visit, hentry]

theorem Trail.nextLive_eq (htrail : graph.Trail confined cursor keys)
    (hlength : keys.length ≤ graph.store.slots.size) :
    graph.nextLive confined cursor =
      .ok ((keys.findSome? (graph.visit fun _ => some ())).map Prod.fst) :=
  htrail.nextLiveWithin_eq hlength

/-- What follows a key, if it can be found. -/
def following (graph : Graph α) (confined : Bool) (key : Key) : Option Key :=
  (graph.findNext key confined).toOption.join

theorem following_eq {next : Option Key} (hnext : graph.findNext key confined = .ok next) :
    graph.following confined key = next := by
  rw [following, hnext]
  rfl

/-- What accepting an element with clean work comes to, unless the element is rejected. -/
def verdict {σ : Type} (accept : Element α → σ → Except Fault Bool × σ) (clean : σ)
    (element : Element α) : Option (Except Fault σ) :=
  match accept element clean with
  | (.ok true, work) => some (.ok work)
  | (.ok false, _) => none
  | (.error fault, _) => some (.error fault)

/-- Resetting makes work clean again after an element that is rejected, and leaves clean work as it
is. -/
structure Cleans {σ : Type} (accept : Element α → σ → Except Fault Bool × σ) (reset : σ → σ)
    (clean : σ) : Prop where
  reset_clean : reset clean = clean
  reset_rejected : ∀ element work, accept element clean = (.ok false, work) → reset work = clean

section Scan

variable {σ : Type} {accept : Element α → σ → Except Fault Bool × σ} {reset : σ → σ} {clean : σ}
  (hcleans : Cleans accept reset clean)

include hcleans

/-- Scanning along a trail that fits into its bound stops at the first visit that finds something.
Every candidate is decided with clean work, whatever the ones before it have written. -/
theorem Trail.scanWithin_eq (htrail : graph.Trail confined (some key) keys)
    (hbound : keys.length ≤ bound) :
    graph.scanWithin confined accept reset bound key clean =
      .ok ((keys.findSome? (graph.visit (verdict accept clean))).map fun found =>
        ⟨found.1, graph.following confined found.1, found.2⟩) := by
  induction bound generalizing key keys with
  | zero =>
      cases htrail
      simp at hbound
  | succ bound ih =>
      cases htrail with
      | @step _ next rest entry hentry hnext hrest =>
          have helement := element_of_stored hentry
          have hfollowing := following_eq hnext
          have hlength : rest.length ≤ bound := Nat.le_of_succ_le_succ hbound
          have hlast (hnone : next = none) : rest = [] := by
            cases hrest with
            | done => rfl
            | step => cases hnone
          have hgo (onward : Key) (hsome : next = some onward) :=
            ih (hsome ▸ hrest) hlength
          simp only [scanWithin, hnext, helement, ok_bind, List.findSome?_cons, visit, hentry,
            Option.bind_some]
          cases hdeleted : entry.deleted with
          | true =>
              cases next with
              | none => simp [hlast rfl]
              | some onward => simp [hcleans.reset_clean, hgo onward rfl]
          | false =>
              cases haccept : accept entry.toElement clean with
              | mk accepted work =>
                  cases accepted with
                  | error fault =>
                      cases next <;> simp [haccept, verdict, hfollowing]
                  | ok accepted =>
                      cases accepted with
                      | true => cases next <;> simp [haccept, verdict, hfollowing]
                      | false =>
                          -- The work is clean again when the scan goes on.
                          have hreset := hcleans.reset_rejected _ _ haccept
                          cases next with
                          | none => simp [haccept, verdict, hlast rfl]
                          | some onward =>
                              simp [haccept, verdict, hreset, hgo onward rfl]

/-- Seeking along a trail finds the first element that is not rejected, decided with clean work. -/
theorem Trail.seek_eq (htrail : graph.Trail confined cursor keys)
    (hlength : keys.length ≤ graph.store.slots.size) :
    graph.seek confined accept reset clean cursor =
      .ok ((keys.findSome? (graph.visit (verdict accept clean))).map fun found =>
        ⟨found.1, graph.following confined found.1, found.2⟩) := by
  have hlive := htrail.nextLive_eq hlength
  -- Only tombstones are stepped over before the scan, and the trail goes on from where it begins.
  have hfrom : ∀ key, (keys.findSome? (graph.visit fun _ => some ())).map Prod.fst = some key →
      ∃ rest, graph.Trail confined (some key) rest ∧ rest.length ≤ keys.length ∧
        rest.findSome? (graph.visit (verdict accept clean)) =
          keys.findSome? (graph.visit (verdict accept clean)) := by
    clear hlive hlength
    induction htrail with
    | done => exact fun key hkey => by cases hkey
    | @step first next rest entry hentry hnext hrest ih =>
        intro key hkey
        cases hdeleted : entry.deleted with
        | true =>
            obtain ⟨others, hothers, hle, hsame⟩ := ih key (by
              simpa [visit, hentry, hdeleted] using hkey)
            refine ⟨others, hothers, Nat.le_succ_of_le hle, ?_⟩
            simpa [visit, hentry, hdeleted] using hsame
        | false =>
            obtain rfl : first = key := by simpa [visit, hentry, hdeleted] using hkey
            exact ⟨first :: rest, .step hentry hnext hrest, Nat.le_refl _, rfl⟩
  rw [seek, hlive, ok_bind]
  cases hfirst : (keys.findSome? (graph.visit fun _ => some ())).map Prod.fst with
  | none =>
      have hnone : keys.findSome? (graph.visit (verdict accept clean)) = none := by
        rw [Option.map_eq_none_iff, List.findSome?_eq_none_iff] at hfirst
        refine List.findSome?_eq_none_iff.mpr fun key hkey => ?_
        have hdead := hfirst key hkey
        cases hentry : graph.stored? key with
        | none => simp [visit, hentry]
        | some entry =>
            have hdeleted : entry.deleted = true := by simpa [visit, hentry] using hdead
            simp [visit, hentry, hdeleted]
      rw [hnone]
      rfl
  | some key =>
      obtain ⟨rest, hrest, hle, hsame⟩ := hfrom key hfirst
      exact hsame ▸ hrest.scanWithin_eq hcleans (Nat.le_trans hle hlength)

end Scan

variable {accepts : Element α → Option β}

/-- The trail goes on behind each of its elements. -/
theorem Trail.behind {pre post : List Key}
    (htrail : graph.Trail confined cursor (pre ++ key :: post)) :
    ∃ next, graph.findNext key confined = .ok next ∧ graph.Trail confined next post := by
  induction pre generalizing cursor with
  | nil =>
      cases htrail with
      | step _ hnext hrest => exact ⟨_, hnext, hrest⟩
  | cons first rest ih =>
      cases htrail with
      | step _ _ hrest => exact ih hrest

/-- There is nothing to find on a trail, or the trail goes on behind what is found first. -/
theorem Trail.first_cases (htrail : graph.Trail confined cursor keys)
    (accepts : Element α → Option β) :
    (keys.findSome? (graph.visit accepts) = none ∧ keys.filterMap (graph.visit accepts) = []) ∨
    ∃ key value next rest, keys.findSome? (graph.visit accepts) = some (key, value) ∧
      graph.visit accepts key = some (key, value) ∧ graph.findNext key confined = .ok next ∧
      graph.Trail confined next rest ∧ key :: rest <:+ keys ∧
      keys.filterMap (graph.visit accepts) =
        (key, value) :: rest.filterMap (graph.visit accepts) := by
  cases hfind : keys.findSome? (graph.visit accepts) with
  | none =>
      exact .inl ⟨rfl, List.filterMap_eq_nil_iff.mpr (List.findSome?_eq_none_iff.mp hfind)⟩
  | some found =>
      obtain ⟨key, value⟩ := found
      obtain ⟨pre, key', post, rfl, hvisit, hpre⟩ := List.findSome?_eq_some_iff.mp hfind
      obtain rfl : key = key' := (visit_eq_some_iff.mp hvisit).1
      obtain ⟨next, hnext, hrest⟩ := htrail.behind
      refine .inr ⟨key, value, next, post, rfl, hvisit, hnext, hrest, ⟨pre, rfl⟩, ?_⟩
      rw [List.filterMap_append, List.filterMap_eq_nil_iff.mpr hpre, List.nil_append,
        List.filterMap_cons, hvisit]

/-- The first element onward from a cursor that is live and accepted, what accepting it gave, and
the cursor behind it. -/
structure Found (graph : Graph α) (confined : Bool) (accepts : Element α → Option β)
    (cursor : Option Key) (key : Key) (entry : Entry α) (value : β) (next : Option Key) :
    Prop where
  entry_eq : graph.stored? key = some entry
  live : entry.deleted = false
  accepted : accepts entry.toElement = some value
  onward : graph.Onward confined cursor entry.place
  /-- Whatever else is live, accepted and onward from the cursor is behind the element. -/
  least : ∀ other found, graph.stored? other = some found → found.deleted = false →
    accepts found.toElement ≠ none → graph.Onward confined cursor found.place →
      other = key ∨ Behind confined entry.place found.place
  next_eq : graph.findNext key confined = .ok next
  positioned : graph.Positioned next
  onward_next : ∀ other place, graph.place? other = some place →
    Behind confined entry.place place → graph.Onward confined next place
  behind : ∀ place, graph.Onward confined next place → Behind confined entry.place place
  shorter : ∀ trail, graph.Trail confined cursor trail →
    ∃ rest, graph.Trail confined next rest ∧ rest.length < trail.length

/-- What is found first is found first as well where no more is accepted. -/
theorem Found.restrict {γ : Type} {others : Element α → Option γ} {entry : Entry α} {value : β}
    {restricted : γ} {next : Option Key}
    (hfound : graph.Found confined accepts cursor key entry value next)
    (haccepted : others entry.toElement = some restricted)
    (hless : ∀ element, others element ≠ none → accepts element ≠ none) :
    graph.Found confined others cursor key entry restricted next :=
  { hfound with
    accepted := haccepted
    least := fun other found hother hlive hothers =>
      hfound.least other found hother hlive (hless _ hothers) }

theorem Trail.unique {others : List Key} (htrail : graph.Trail confined cursor keys)
    (hothers : graph.Trail confined cursor others) : keys = others := by
  induction htrail generalizing others with
  | done =>
      cases hothers
      rfl
  | step _ hnext _ ih =>
      cases hothers with
      | step _ hnext' hrest =>
          cases hnext.symm.trans hnext'
          rw [ih hrest]

/-- Two places onward from the cursor of a confined walk belong to one group. -/
theorem Onward.group_eq {other : Place} (hplace : graph.Onward true cursor place)
    (hother : graph.Onward true cursor other) : place.group = other.group := by
  obtain ⟨key, front, rfl, hfront, hbehind⟩ := hplace
  obtain ⟨key', front', hkey, hfront', hbehind'⟩ := hother
  cases hkey
  cases hfront.symm.trans hfront'
  have hgroup (place : Place) (h : place = front ∨ Behind true front place) :
      place.group = front.group := by
    rcases h with rfl | hbehind
    · rfl
    · exact hbehind.2 rfl
  rw [hgroup place hbehind, hgroup other hbehind']

/-- The trail behind an element of a trail is shorter. -/
theorem Ahead.length_behind_lt {next : Option Key} {rest : List Key}
    (hahead : graph.Ahead confined (graph.Onward confined cursor) cursor keys) (hkey : key ∈ keys)
    (hplace : graph.place? key = some place)
    (hrest : graph.Ahead confined (Behind confined place) next rest) :
    rest.length < keys.length := by
  have hsubset : key :: rest ⊆ keys := by
    intro other hother
    rcases List.mem_cons.mp hother with rfl | hother
    · exact hkey
    · obtain ⟨behind, hbehindPlace, hbehind⟩ := (hrest.mem_iff other).mp hother
      obtain ⟨found, hfound, start, front, hcursor, hfront, hreach⟩ :=
        (hahead.mem_iff key).mp hkey
      cases hplace.symm.trans hfound
      refine (hahead.mem_iff other).mpr ⟨behind, hbehindPlace, start, front, hcursor, hfront, ?_⟩
      rcases hreach with heq | hreach
      · exact .inr (heq ▸ hbehind)
      · exact .inr (hreach.trans hbehind)
  have hnodup : (key :: rest).Nodup := by
    apply List.nodup_cons.mpr
    refine ⟨?_, hrest.nodup⟩
    intro hmem
    obtain ⟨found, hfound, hbehind⟩ := (hrest.mem_iff key).mp hmem
    cases hplace.symm.trans hfound
    exact Place.lt_irrefl _ hbehind.1
  exact hnodup.length_le_of_subset hsubset

variable (accepts) in
/-- From a stored element on there is a first element that is live and accepted, or there is none
onward from there. -/
theorem Ahead.first_found (hsound : graph.Sound)
    (hahead : graph.Ahead confined (graph.Onward confined cursor) cursor keys) :
    (keys.findSome? (graph.visit accepts) = none ∧
      ∀ key entry, graph.stored? key = some entry → entry.deleted = false →
        graph.Onward confined cursor entry.place → accepts entry.toElement = none) ∨
    ∃ key entry value next, keys.findSome? (graph.visit accepts) = some (key, value) ∧
      graph.Found confined accepts cursor key entry value next := by
  have hmem (key : Key) (entry : Entry α) (hentry : graph.stored? key = some entry)
      (honward : graph.Onward confined cursor entry.place) : key ∈ keys :=
    (hahead.mem_iff key).mpr ⟨_, place?_of_stored hentry, honward⟩
  have hpassed (key : Key) (entry : Entry α) (hentry : graph.stored? key = some entry)
      (hlive : entry.deleted = false) (hvisit : graph.visit accepts key = none) :
      accepts entry.toElement = none := by
    simpa [visit, hentry, hlive] using hvisit
  cases hfind : keys.findSome? (graph.visit accepts) with
  | none =>
      refine .inl ⟨rfl, ?_⟩
      intro key entry hentry hlive honward
      exact hpassed key entry hentry hlive
        (List.findSome?_eq_none_iff.mp hfind key (hmem key entry hentry honward))
  | some found =>
      obtain ⟨key, value⟩ := found
      obtain ⟨pre, key', post, rfl, hvisit, hpre⟩ := List.findSome?_eq_some_iff.mp hfind
      obtain ⟨rfl, entry, hentry, hlive, haccepted⟩ := visit_eq_some_iff.mp hvisit
      have hplace : graph.place? key = some entry.place := place?_of_stored hentry
      have honward : graph.Onward confined cursor entry.place := by
        obtain ⟨place, hplace', honward⟩ := (hahead.mem_iff key).mp (by simp)
        cases hplace.symm.trans hplace'
        exact honward
      obtain ⟨next, rest, hnext, hrest⟩ := ahead_behind hsound confined hplace
      refine .inr ⟨key, entry, value, next, rfl, hentry, hlive, haccepted, honward, ?_, hnext,
        hrest.positioned, ?_, ?_, ?_⟩
      · intro other found hother hliveOther hacceptOther honwardOther
        rcases List.mem_append.mp (hmem other found hother honwardOther) with hfront | hback
        · exact absurd (hpassed other found hother hliveOther (hpre other hfront)) hacceptOther
        · apply (List.mem_cons.mp hback).imp id
          intro hpost
          obtain ⟨-, hincreasing, -⟩ := List.pairwise_append.mp hahead.increasing
          have hlt := (List.pairwise_cons.mp hincreasing).1 other hpost
          rw [placeAt_eq hplace, placeAt_eq (place?_of_stored hother)] at hlt
          refine ⟨hlt, ?_⟩
          intro hconfined
          subst hconfined
          exact honwardOther.group_eq honward
      · intro other place
        exact hrest.onward fun first second hconfined hfirst hsecond =>
          (hfirst.2 hconfined).trans (hsecond.2 hconfined).symm
      · intro place
        exact hrest.region_of_onward fun _ _ => Behind.trans
      · intro trail htrail
        rw [htrail.unique hahead.trail]
        exact ⟨rest, hrest.trail, hahead.length_behind_lt (by simp) hplace hrest⟩

/-- Whether a group has a live element is decided without a fault. -/
theorem hasLive_spec (hsound : graph.Sound) (number : Nat) :
    ∃ shown, graph.hasLive number = .ok shown ∧
      (shown = true ↔ ∃ key entry, graph.stored? key = some entry ∧ entry.deleted = false ∧
        entry.group = number) := by
  by_cases hnumber : number < graph.groups.size
  · have hchain := hsound.chain_chainKeys hnumber
    let deleted (key : Key) : Bool := (graph.store.cell? key).any Cell.deleted
    have hdeleted (key : Key) (hkey : key ∈ graph.chainKeys number) :
        graph.store.isDeleted key = .ok (deleted key) := by
      obtain ⟨cell, hcell⟩ := hchain.stored_of_mem hkey
      simp [Store.isDeleted_eq hcell, hcell, deleted]
    refine ⟨((graph.chainKeys number).map deleted).any (!·), ?_, ?_⟩
    · simp only [hasLive, Array.getElem?_eq_getElem hnumber, hchain.chain_eq hnumber,
        mapM_eq_ok hdeleted, ok_bind, pure_eq_ok]
    · simp only [List.any_map, List.any_eq_true, Function.comp_apply, Bool.not_eq_true']
      constructor
      · rintro ⟨key, hkey, hlive⟩
        obtain ⟨cell, hcell⟩ := hchain.stored_of_mem hkey
        have hentry := stored?_eq_entry hcell
        obtain ⟨id, hplace⟩ := (hchain.mem_iff key).mp hkey
        obtain ⟨entry, hentry', hplace⟩ := place?_eq_some_iff.mp hplace
        cases hentry.symm.trans hentry'
        exact ⟨key, _, hentry, by simpa [deleted, hcell, Cell.entry] using hlive,
          congrArg Place.group hplace⟩
      · rintro ⟨key, entry, hentry, hlive, rfl⟩
        obtain ⟨cell, hcell, rfl⟩ := stored?_eq_some_iff.mp hentry
        exact ⟨key, (hchain.mem_iff key).mpr ⟨_, place?_of_stored hentry⟩,
          by simpa [deleted, hcell, Cell.entry] using hlive⟩
  · refine ⟨false, by simp [hasLive, hnumber], by simp, ?_⟩
    rintro ⟨key, entry, hentry, -, rfl⟩
    exact absurd (hsound.grouped key entry.place (place?_of_stored hentry)) hnumber

end FormalLanguages.Graph
