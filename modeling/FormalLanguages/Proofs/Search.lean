/-
# A search always finds its way on

A search refers to two elements at most, that of its last match and that of its position.  As long
as these are stored, whatever the search does next ends without a fault, and the elements it refers
to afterwards are stored as well.  With every match there is less left of its axis, so a search that
is drained comes to its end before the bound of its rows is used up.

A search may be broken off by a fault of matching, and is then left without a position.
-/

import FormalLanguages.Proofs.Axis

namespace FormalLanguages

variable {C α P E : Type} [Container C α P E] {containers : Array C} {container : C} {number : Nat}

namespace Search

variable {search : Search P}

/-- A search whose container exists and whose position is one that it may be in. -/
structure Fit (size : Nat) (search : Search P) : Prop where
  target_lt : ∀ number axis, search.target = some (number, axis) → number < size
  terminals_pos : search.progress = .running → ∀ number offset,
    search.target = some (number, .terminals offset) → 1 ≤ offset

/-- The container of a search exists. -/
theorem Fit.exists_container {number : Nat} {axis : Axis P} (hfit : search.Fit containers.size)
    (htarget : search.target = some (number, axis)) :
    ∃ container, containers[number]? = some container :=
  ⟨_, Array.getElem?_eq_getElem (hfit.target_lt number axis htarget)⟩

/-- Every element to which a search refers is stored. -/
def Held (containers : Array C) (search : Search P) : Prop :=
  ∀ handle ∈ search.holds, Readable containers handle

theorem fit_unbound (size : Nat) : (unbound : Search P).Fit size :=
  ⟨fun number axis heq => (by cases heq), fun _ number offset heq => by cases heq⟩

theorem fit_along (hcontainer : containers[number]? = some container) (axis : Axis P) :
    (along number axis).Fit containers.size := by
  refine ⟨fun number' axis' heq => ?_, fun hrunning => by cases hrunning⟩
  cases heq
  exact (Array.getElem?_eq_some_iff.mp hcontainer).1

theorem fit_exhaust {size : Nat} (hfit : search.Fit size) : search.exhaust.Fit size := by
  refine ⟨fun number axis heq => ?_, fun hrunning => by cases hrunning⟩
  obtain ⟨⟨number, axis⟩, htarget, rfl, rfl⟩ := Option.map_eq_some_iff.mp heq
  exact hfit.target_lt _ _ htarget

theorem fit_lose {size : Nat} (hfit : search.Fit size) : search.lose.Fit size := by
  refine ⟨fun number axis heq => ?_, fun hrunning number offset heq => ?_⟩
  · obtain ⟨⟨number, axis⟩, htarget, rfl, rfl⟩ := Option.map_eq_some_iff.mp heq
    exact hfit.target_lt _ _ htarget
  · obtain ⟨⟨number', axis⟩, htarget, heq⟩ := Option.map_eq_some_iff.mp heq
    cases axis with
    | terminals offset' =>
        cases heq
        exact hfit.terminals_pos hrunning _ _ htarget
    | elements _ => cases heq
    | matching _ _ => cases heq
    | groups _ => cases heq

theorem fit_copy {size : Nat} (hfit : search.Fit size) : search.copy.Fit size :=
  ⟨hfit.target_lt, fun hrunning => by cases hrunning⟩

/-- An exhausted search refers to nothing. -/
theorem holds_exhaust (search : Search P) : search.exhaust.holds = [] := by
  obtain ⟨target, progress, current⟩ := search
  cases target with
  | none => rfl
  | some target =>
      obtain ⟨number, axis⟩ := target
      cases axis <;> rfl

theorem held_exhaust (containers : Array C) (search : Search P) :
    search.exhaust.Held containers := by
  intro handle hhandle
  rw [holds_exhaust] at hhandle
  cases hhandle

/-- A search that has lost its position refers to its last match only. -/
theorem holds_lose (search : Search P) : search.lose.holds = search.current.element.toList := by
  obtain ⟨target, progress, current⟩ := search
  cases target with
  | none => exact List.append_nil _
  | some target =>
      obtain ⟨number, axis⟩ := target
      cases axis <;> exact List.append_nil _

/-- A search that has lost its position ends as it would have with it. -/
theorem exhaust_lose (search : Search P) : search.lose.exhaust = search.exhaust := by
  obtain ⟨target, progress, current⟩ := search
  cases target with
  | none => rfl
  | some target =>
      obtain ⟨number, axis⟩ := target
      cases axis <;> rfl

theorem held_lose (hheld : search.Held containers) : search.lose.Held containers := by
  intro handle hhandle
  rw [holds_lose] at hhandle
  exact hheld handle (List.mem_append_left _ hhandle)

/-- A new search refers to nothing. -/
theorem held_along {axis : Axis P} (hcursor : axis.cursor = none) :
    (along number axis).Held containers := by
  intro handle hhandle
  simp [holds, along, Match.empty, hcursor] at hhandle

/-- A copy refers to the position only. -/
theorem held_copy (hheld : search.Held containers) : search.copy.Held containers :=
  fun handle hhandle => hheld handle (List.mem_append_right _ hhandle)

/-- The position of a search that is running is one from which it can go on. -/
theorem Fit.ready {axis : Axis P} (hfit : search.Fit containers.size)
    (hheld : search.Held containers) (hrunning : search.progress = .running)
    (htarget : search.target = some (number, axis))
    (hcontainer : containers[number]? = some container) : axis.Ready container where
  positioned key hkey := by
    have hhandle : Handle.mk number key ∈ search.holds := by
      simp [holds, htarget, hkey]
    obtain ⟨entry, hentry⟩ := hheld _ hhandle
    exact ⟨entry, (entryAt_eq hcontainer key).symm.trans hentry⟩
  terminals_pos offset heq := hfit.terminals_pos hrunning number offset (heq ▸ htarget)

/-- A search that has just been set to a position, with or without a match, refers to stored
elements only. -/
theorem held_of_ready {axis : Axis P} {current : Match} {progress : Progress}
    (hready : axis.Ready container) (hcontainer : containers[number]? = some container)
    (hcurrent : ∀ handle, current.element = some handle → Readable containers handle) :
    (⟨some (number, axis), progress, current⟩ : Search P).Held containers := by
  intro handle hhandle
  rcases List.mem_append.mp hhandle with hmatch | hcursor
  · exact hcurrent handle (Option.mem_toList.mp hmatch)
  · obtain ⟨key, hkey, rfl⟩ := List.mem_map.mp hcursor
    obtain ⟨entry, hentry⟩ := hready.positioned key (Option.mem_toList.mp hkey)
    exact ⟨entry, (entryAt_eq hcontainer key).trans hentry⟩

theorem matchNext_exhausted (hexhausted : search.progress = .exhausted) :
    search.matchNext containers = .ok (.ok false, search) := by
  simp only [matchNext, hexhausted, pure_eq_ok]

/-- An exhausted search produces no rows, and stays as it is. -/
theorem take_exhausted (hexhausted : search.progress = .exhausted) (limit : Nat) :
    search.take containers limit = .ok (.ok [], search) := by
  cases limit with
  | zero => rfl
  | succ limit => simp [take, matchNext_exhausted hexhausted]

/-- How many matches are left of a search at most. -/
def Left (containers : Array C) (search : Search P) (bound : Nat) : Prop :=
  match search.progress with
  | .unstarted => search.rowBound containers = .ok bound
  | .running => ∀ number axis container, search.target = some (number, axis) →
      containers[number]? = some container → axis.Left container bound
  | .exhausted => True

/-- A search that has gone on until it was exhausted, unless it was broken off. -/
def Ended (rows : Except Fault (List Match)) (last : Search P) : Prop :=
  ∀ found, rows = .ok found → last.progress = .exhausted

theorem Ended.of_map {rows : Except Fault (List Match)} {last : Search P} {first : Match}
    (hended : Ended (rows.map (first :: ·)) last) : Ended rows last :=
  fun found hfound => hended (first :: found) (by rw [hfound]; rfl)

/-- Draining a search is going on with it until its end. -/
theorem take_of_drain {rows : Except Fault (List Match)} {last : Search P}
    (hdrain : search.drain containers = .ok (rows, last)) :
    ∃ limit, search.take containers limit = .ok (rows, last) ∧ Ended rows last := by
  obtain ⟨bound, -, hdrain⟩ := bind_eq_ok.mp hdrain
  obtain ⟨⟨found, final⟩, htake, hend⟩ := bind_eq_ok.mp hdrain
  cases found with
  | error fault =>
      cases hend
      exact ⟨_, htake, nofun⟩
  | ok found =>
      simp only at hend
      split at hend
      · next hexhausted =>
          cases hend
          exact ⟨_, htake, fun _ _ => hexhausted⟩
      · cases hend

variable (C) in
/-- The pattern of a search names the greatest slot. -/
def Overruns (search : Search P) : Prop :=
  ∃ number axis, search.target = some (number, axis) ∧ axis.Overruns C

/-- The outcome of one more step of a search that is followed: it has come to its end, or it has
been broken off, or it has produced one more row for some value. -/
def Moves {β : Type} (tracks : Search P → List β → Prop) (row : Match → β → Prop) (seen : List β) :
    Except Fault Bool × Search P → Prop
  | (.ok true, next) => ∃ value, row next.current value ∧ tracks next (seen ++ [value])
  | (_, next) => tracks next seen

theorem overruns_of_exhaust (hoverruns : search.exhaust.Overruns C) : search.Overruns C := by
  obtain ⟨number, _, htarget, hoverruns⟩ := hoverruns
  obtain ⟨⟨_, axis⟩, hbefore, rfl, rfl⟩ := Option.map_eq_some_iff.mp htarget
  rw [Axis.detach_eq, Axis.overruns_moveTo] at hoverruns
  exact ⟨_, axis, hbefore, hoverruns⟩

variable [LawfulContainer C α P E] (hall : AllSound containers)

include hall

/-- Rewinding a search gives one that is running from a position where it can go on. -/
theorem rewind_spec (hfit : search.Fit containers.size) :
    ∃ after, search.rewind containers = .ok after ∧ after.Fit containers.size ∧
      after.Held containers ∧ after.progress = .running ∧
      (∀ bound, search.rowBound containers = .ok bound → after.Left containers bound) ∧
      (after.Overruns C → search.Overruns C) := by
  obtain ⟨target, progress, current⟩ := search
  cases target with
  | none =>
      refine ⟨{ progress := .running }, rfl, ⟨?_, ?_⟩, ?_, rfl, ?_, ?_⟩
      · intro number axis heq
        cases heq
      · intro _ number offset heq
        cases heq
      · intro handle hhandle
        cases hhandle
      · intro bound _ number axis container htarget
        cases htarget
      · rintro ⟨_, _, htarget, _⟩
        cases htarget
  | some target =>
      obtain ⟨number, axis⟩ := target
      obtain ⟨container, hcontainer⟩ := hfit.exists_container rfl
      have hsound := hall number container hcontainer
      obtain ⟨axis', hstart, hready, hoverruns⟩ := axis.start_spec hsound
      refine ⟨{ target := some (number, axis'), progress := .running },
        by simp [rewind, containerAt_eq hcontainer, hstart],
        ⟨?_, ?_⟩,
        held_of_ready hready hcontainer ?_, rfl,
        ?_, ?_⟩
      · intro number' axis'' heq
        cases heq
        exact hfit.target_lt number axis rfl
      · intro _ number' offset heq
        cases heq
        exact hready.terminals_pos offset rfl
      · intro handle hhandle
        cases hhandle
      · intro bound hbound number' axis'' container' htarget hcontainer'
        cases htarget
        cases hcontainer.symm.trans hcontainer'
        simp only [rowBound, containerAt_eq hcontainer, ok_bind, pure_eq_ok] at hbound
        exact Except.ok.inj hbound ▸ hready.left hsound
      · rintro ⟨_, _, htarget, hafter⟩
        cases htarget
        exact ⟨number, axis, rfl, hoverruns hafter⟩

/-- There is a bound of the rows of a search, and no more matches are left of it. -/
theorem rowBound_spec (hfit : search.Fit containers.size) (hheld : search.Held containers) :
    ∃ bound, search.rowBound containers = .ok bound ∧ search.Left containers bound := by
  cases htarget : search.target with
  | none =>
      have hbound : search.rowBound containers = .ok 0 := by simp [rowBound, htarget]
      refine ⟨0, hbound, ?_⟩
      unfold Left
      split
      · exact hbound
      · intro number axis container htarget'
        rw [htarget] at htarget'
        cases htarget'
      · exact trivial
  | some target =>
      obtain ⟨number, axis⟩ := target
      obtain ⟨container, hcontainer⟩ := hfit.exists_container htarget
      let graph := Container.graph container
      have hbound : search.rowBound containers = .ok (graph.store.slots.size + graph.groups.size +
          Container.terminalCount container) := by
        simp [rowBound, htarget, containerAt_eq hcontainer, graph]
      refine ⟨_, hbound, ?_⟩
      unfold Left
      split
      · exact hbound
      · next hrunning =>
          intro number' axis' container' htarget' hcontainer'
          cases htarget.symm.trans htarget'
          cases hcontainer.symm.trans hcontainer'
          exact (hfit.ready hheld hrunning htarget hcontainer).left (hall number _ hcontainer)
      · exact trivial

/-- A search after one more step: what it refers to is stored, and it has come to its end, or has
been broken off, or has less left. -/
structure Stepped (containers : Array C) (search : Search P) (found : Except Fault Bool)
    (after : Search P) : Prop where
  fit : after.Fit containers.size
  held : after.Held containers
  exhausted : found = .ok false → after.progress = .exhausted
  left : found = .ok true → ∀ bound, search.Left containers bound →
    ∃ less, less < bound ∧ after.Left containers less
  /-- Nothing is found for a pattern that names the greatest slot. -/
  fits : found = .ok true → ¬after.Overruns C
  /-- Only the search for such a pattern is broken off. -/
  broken : ∀ fault, found = .error fault → search.Overruns C
  overruns : after.Overruns C → search.Overruns C

/-- Going on to the next match ends without a fault. -/
theorem advance_spec (hfit : search.Fit containers.size) (hheld : search.Held containers)
    (hrunning : search.progress = .running) :
    ∃ found after, search.advance containers = .ok (found, after) ∧
      Stepped containers search found after := by
  have hexhaust : Stepped containers search (.ok false) search.exhaust :=
    ⟨fit_exhaust hfit, held_exhaust containers search, fun _ => rfl, nofun, nofun, nofun,
      overruns_of_exhaust⟩
  cases htarget : search.target with
  | none => exact ⟨.ok false, search.exhaust, by simp [advance, htarget], hexhaust⟩
  | some target =>
      obtain ⟨number, axis⟩ := target
      obtain ⟨container, hcontainer⟩ := hfit.exists_container htarget
      have hready := hfit.ready hheld hrunning htarget hcontainer
      obtain ⟨outcome, hadvance, hlooks⟩ :=
        Axis.advance_spec (hall number _ hcontainer) hready hcontainer
      cases hlooks with
      | none =>
          exact ⟨.ok false, search.exhaust,
            by simp [advance, htarget, containerAt_eq hcontainer, hadvance], hexhaust⟩
      | @broken fault hoverruns =>
          exact ⟨.error fault, search.lose,
            by simp [advance, htarget, containerAt_eq hcontainer, hadvance],
            fit_lose hfit, held_lose hheld, nofun, nofun, nofun,
            fun _ _ => ⟨number, axis, htarget, hoverruns⟩,
            fun _ => ⟨number, axis, htarget, hoverruns⟩⟩
      | @found found axis' hadvanced =>
          have hfits : ¬({ search with target := some (number, axis'), current := found } :
              Search P).Overruns C := by
            rintro ⟨_, _, heq, hafter⟩
            cases heq
            exact hadvanced.fits hafter
          refine ⟨.ok true, { search with target := some (number, axis'), current := found },
            by simp [advance, htarget, containerAt_eq hcontainer, hadvance],
            ⟨?_, ?_⟩,
            held_of_ready hadvanced.ready hcontainer hadvanced.readable, nofun, ?_, fun _ => hfits,
            nofun, fun hoverruns => absurd hoverruns hfits⟩
          · intro number' axis'' heq
            cases heq
            exact hfit.target_lt number axis htarget
          · intro _ number' offset heq
            cases heq
            exact hadvanced.ready.terminals_pos offset rfl
          · intro _ bound hleft
            simp only [Left, hrunning] at hleft ⊢
            obtain ⟨less, hless, hleftAfter⟩ :=
              hadvanced.left bound (hleft number axis _ htarget hcontainer)
            refine ⟨less, hless, ?_⟩
            intro number' axis'' container' htarget' hcontainer'
            cases htarget'
            cases hcontainer.symm.trans hcontainer'
            exact hleftAfter

theorem matchNext_spec (hfit : search.Fit containers.size) (hheld : search.Held containers) :
    ∃ found after, search.matchNext containers = .ok (found, after) ∧
      Stepped containers search found after := by
  cases hprogress : search.progress with
  | unstarted =>
      obtain ⟨rewound, hrewind, hfitRewound, hheldRewound, hrunning, hleft, hoverruns⟩ :=
        rewind_spec hall hfit
      obtain ⟨found, after, hadvance, hstepped⟩ :=
        advance_spec hall hfitRewound hheldRewound hrunning
      refine ⟨found, after, by simp [matchNext, hprogress, hrewind, hadvance], hstepped.fit,
        hstepped.held, hstepped.exhausted, fun hfound bound hbound => ?_, hstepped.fits,
        fun fault hfault => hoverruns (hstepped.broken fault hfault),
        fun hafter => hoverruns (hstepped.overruns hafter)⟩
      simp only [Left, hprogress] at hbound
      exact hstepped.left hfound bound (hleft bound hbound)
  | running =>
      obtain ⟨found, after, hadvance, hstepped⟩ := advance_spec hall hfit hheld hprogress
      exact ⟨found, after, by simp [matchNext, hprogress, hadvance], hstepped⟩
  | exhausted =>
      exact ⟨.ok false, search, by simp [matchNext, hprogress], hfit, hheld, fun _ => hprogress,
        nofun, nofun, nofun, id⟩

/-- A search after a number of steps: what it refers to is stored, and it has come to its end if
there were fewer matches left than that, or has been broken off. -/
structure Taken (containers : Array C) (search : Search P) (limit : Nat)
    (rows : Except Fault (List Match)) (last : Search P) : Prop where
  fit : last.Fit containers.size
  held : last.Held containers
  exhausted : ∀ found, rows = .ok found → ∀ bound, search.Left containers bound →
    bound < limit → last.progress = .exhausted
  broken : ∀ fault, rows = .error fault → search.Overruns C
  /-- The elements of the rows are stored. -/
  readable : ∀ found, rows = .ok found → ∀ row ∈ found, ∀ handle, row.element = some handle →
    Readable containers handle
  overruns : last.Overruns C → search.Overruns C

/-- Going on a number of times ends without a fault. -/
theorem take_spec (hfit : search.Fit containers.size) (hheld : search.Held containers)
    (limit : Nat) :
    ∃ rows last, search.take containers limit = .ok (rows, last) ∧
      Taken containers search limit rows last := by
  induction limit generalizing search with
  | zero =>
      refine ⟨.ok [], search, rfl, hfit, hheld,
        fun _ _ bound _ hlt => absurd hlt (Nat.not_lt_zero _), nofun,
        fun found hfound row hrow => ?_, id⟩
      cases hfound
      cases hrow
  | succ limit ih =>
      obtain ⟨found, after, hnext, hstepped⟩ := matchNext_spec hall hfit hheld
      cases found with
      | error fault =>
          exact ⟨.error fault, after, by simp [take, hnext], hstepped.fit, hstepped.held, nofun,
            fun _ _ => hstepped.broken fault rfl, nofun, hstepped.overruns⟩
      | ok found =>
          cases found with
          | false =>
              refine ⟨.ok [], after, by simp [take, hnext], hstepped.fit, hstepped.held,
                fun _ _ _ _ _ => hstepped.exhausted rfl, nofun, fun found hfound row hrow => ?_,
                hstepped.overruns⟩
              cases hfound
              cases hrow
          | true =>
              obtain ⟨rows, last, htake, htaken⟩ := ih hstepped.fit hstepped.held
              refine ⟨rows.map (after.current :: ·), last, by simp [take, hnext, htake], htaken.fit,
                htaken.held, ?_, ?_, ?_, fun hlast => hstepped.overruns (htaken.overruns hlast)⟩
              · intro found hfound bound hleft hlt
                obtain ⟨rest, hrest, -⟩ := Except.map_eq_ok_iff.mp hfound
                obtain ⟨less, hless, hleftAfter⟩ := hstepped.left rfl bound hleft
                exact htaken.exhausted rest hrest less hleftAfter (by omega)
              · intro fault hfault
                exact hstepped.overruns (htaken.broken fault (Except.map_eq_error_iff.mp hfault))
              · intro found hfound row hrow handle hhandle
                obtain ⟨rest, hrest, rfl⟩ := Except.map_eq_ok_iff.mp hfound
                rcases List.mem_cons.mp hrow with rfl | hrow
                · exact hstepped.held handle (List.mem_append_left _ (by simp [hhandle]))
                · exact htaken.readable rest hrest row hrow handle hhandle

/-- Draining a search ends without a fault: the bound of its rows is never used up. -/
theorem takeUpTo_spec (hfit : search.Fit containers.size) (hheld : search.Held containers)
    (limit : Option Nat) :
    ∃ rows last bound, search.takeUpTo containers limit = .ok (rows, last) ∧
      Taken containers search bound rows last := by
  cases limit with
  | some limit =>
      obtain ⟨rows, last, htake, htaken⟩ := take_spec hall hfit hheld limit
      exact ⟨rows, last, limit, htake, htaken⟩
  | none =>
      obtain ⟨bound, hbound, hleft⟩ := rowBound_spec hall hfit hheld
      obtain ⟨rows, last, htake, htaken⟩ := take_spec hall hfit hheld (bound + 1)
      refine ⟨rows, last, bound + 1, ?_, htaken⟩
      cases rows with
      | error fault => simp [takeUpTo, drain, hbound, htake]
      | ok rows =>
          have hexhausted := htaken.exhausted rows rfl bound hleft (Nat.lt_succ_self bound)
          simp [takeUpTo, drain, hbound, htake, hexhausted]

end Search

end FormalLanguages
