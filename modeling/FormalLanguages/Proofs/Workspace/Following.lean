/-
# What a search produces can be followed through a run

What is known of a search depends on the axis along which it runs, and so does what one more match
of it says.  How this knowledge is carried through a run does not.  A search that is kept under a
name goes on by a match, or by several in one command, and between two of its own commands its
container may be changed by others, but nobody writes the search except to set it to a beginning.

So it is enough to say of one match what is known behind it, and to show that what is known stays
true while a container develops that does not lose what the search refers to.
-/

import Mathlib.Data.List.Forall2
import FormalLanguages.Proofs.Workspace.History

namespace FormalLanguages

variable {C α P E : Type} [Container C α P E]

/-- Lists whose members have the same values, one by one, have the same list of values. -/
theorem map_eq_of_forall₂ {α β γ : Type} {f : α → γ} {g : β → γ} {first : List α}
    {second : List β} (hsame : List.Forall₂ (fun x y => f x = g y) first second) :
    first.map f = second.map g := by
  have heq : List.Forall₂ (· = ·) (first.map f) (second.map g) := by
    rw [List.forall₂_map_left_iff, List.forall₂_map_right_iff]
    exact hsame
  rwa [List.forall₂_eq_eq_eq] at heq

/-- The commands that set the search kept under a name to a beginning, put another search in its
place, or drop it. -/
def Command.Renews {P E : Type} (name : String) : Command P E → Prop
  | .search _ keep => keep = name
  | .rewind other => other = name
  | .copySearch _ keep => keep = name
  | .dropSearch other => other = name
  | _ => False

/-- A command that writes a search does no more to the containers than count references. -/
theorem Command.not_alters_of_touches {P E : Type} {name : String} {command : Command P E}
    (htouches : command.Touches name) : ¬command.Alters := by
  intro halters
  cases command <;> first | exact halters.elim | exact htouches.elim

namespace Workspace

/-- The rows that a command has produced from the search kept under a name, from what the command
answered and the workspace behind it. -/
def rowsOf (name : String) (after : Workspace C P) : Command P E → Reply → List Match
  | .matchNext other, .flag true =>
      if other = name then (after.searches.get? name).toList.map Search.current else []
  | .next other _, .row found => if other = name then found.toList else []
  | .drain other _, .rows rows => if other = name then rows else []
  | _, _ => []

/-- The rows that a run produces from the search kept under a name, each with the workspace behind
the command that produced it. -/
def produced (name : String) (workspace : Workspace C P) :
    List (Command P E) → List (Match × Workspace C P)
  | [] => []
  | command :: rest =>
      match workspace.step command with
      | .ok (reply, after) =>
          (rowsOf name after command reply).map (·, after) ++ produced name after rest
      | .error _ => produced name workspace rest

theorem produced_append (name : String) (workspace : Workspace C P)
    (earlier later : List (Command P E)) :
    workspace.produced name (earlier ++ later) =
      workspace.produced name earlier ++ (workspace.run earlier).2.produced name later := by
  induction earlier generalizing workspace with
  | nil => rfl
  | cons command rest ih =>
      simp only [List.cons_append, produced, run]
      cases workspace.step command with
      | ok result => simp only [ih, List.append_assoc]
      | error fault => simp only [ih]

/-- The workspaces in which the search kept under a name is at the beginning of an axis. -/
inductive Begins (start : C) (name : String) (number : Nat) (axis : Axis P) : Workspace C P → Prop
  /-- The search has not been started, so its first step will rewind it. -/
  | unstarted {count : Nat} {earlier : List (Command P E)} {search : Search P}
      (hsearch : (reached start count earlier).searches.get? name = some search)
      (htarget : search.target = some (number, axis)) (hprogress : search.progress = .unstarted) :
      Begins start name number axis (reached start count earlier)
  /-- The search has just been rewound. -/
  | rewound {count : Nat} {earlier : List (Command P E)} {search : Search P} {reply : Reply}
      {after : Workspace C P}
      (hsearch : (reached start count earlier).searches.get? name = some search)
      (htarget : search.target = some (number, axis))
      (hstep : (reached start count earlier).step (.rewind name) = .ok (reply, after)) :
      Begins start name number axis after

end Workspace

variable {β : Type}

/-- A way to follow a search of the container with a number, from its beginning: what is known of it
and of the values it has produced, and what a row was produced for. -/
structure Follower (C : Type) {α P E : Type} [Container C α P E] [LawfulContainer C α P E]
    (number : Nat) (β : Type) where
  /-- What the container is expected to be like whenever the search goes on. -/
  allows : C → Prop
  tracks : C → Search P → List β → Prop
  row : C → Match → β → Prop
  isBound {container : C} {search : Search P} {seen : List β}
    (htracks : tracks container search seen) : search.isBound = true
  /-- What is known stays true while the container develops and keeps what the search refers to. -/
  descends {containers : Array C} {container now : C} {search : Search P} {seen : List β}
    (htracks : tracks container search seen) (hcontainer : containers[number]? = some container)
    (hsound : LawfulContainer.Sound container) (hheld : search.Held containers)
    (hdescends : Descends container now)
    (hages : (Container.graph container).Ages (Container.graph now))
    (hkept : ∀ key entry, Handle.mk number key ∈ search.holds →
      (Container.graph container).stored? key = some entry →
        ∃ found, (Container.graph now).stored? key = some found ∧ entry.Becomes found) :
    tracks now search seen
  /-- A row stands if references are counted anew. -/
  counted {container now : C} {found : Match} {value : β} (hrow : row container found value)
    (hcounts : Counts container now) : row now found value
  matchNext {containers : Array C} {container : C} {search : Search P} {seen : List β}
    (hall : AllSound containers) (hcontainer : containers[number]? = some container)
    (hallows : allows container) (hfit : search.Fit containers.size)
    (hheld : search.Held containers) (htracks : tracks container search seen) :
    ∃ outcome, search.matchNext containers = .ok outcome ∧
      Search.Moves (tracks container) (row container) seen outcome

variable [LawfulContainer C α P E] {number : Nat}

namespace Follower

variable (follower : Follower C number β) {containers : Array C} {container : C}
  {search last : Search P} {seen : List β} {rows : Except Fault (List Match)}

section Taking

variable (hall : AllSound containers) (hcontainer : containers[number]? = some container)
  (hallows : follower.allows container)

include hall hcontainer hallows

/-- A search that goes on a number of times is followed, with one value for each row.  Where it is
broken off, there were no rows before. -/
theorem take (hfit : search.Fit containers.size) (hheld : search.Held containers)
    (htracks : follower.tracks container search seen) {limit : Nat}
    (htake : search.take containers limit = .ok (rows, last)) :
    ∃ values, List.Forall₂ (follower.row container) (rows.toOption.getD []) values ∧
      follower.tracks container last (seen ++ values) := by
  induction limit generalizing search seen rows with
  | zero =>
      cases htake
      exact ⟨[], .nil, by rwa [List.append_nil]⟩
  | succ limit ih =>
      obtain ⟨⟨found, next⟩, hnext, hmoves⟩ :=
        follower.matchNext hall hcontainer hallows hfit hheld htracks
      obtain ⟨found', next', hnext', hstepped⟩ := Search.matchNext_spec hall hfit hheld
      cases hnext.symm.trans hnext'
      cases found with
      | error fault =>
          simp only [Search.take, hnext, ok_bind, pure_eq_ok] at htake
          cases htake
          exact ⟨[], .nil, by rwa [List.append_nil]⟩
      | ok found =>
          cases found with
          | false =>
              simp only [Search.take, hnext, ok_bind, pure_eq_ok] at htake
              cases htake
              exact ⟨[], .nil, by rwa [List.append_nil]⟩
          | true =>
              obtain ⟨value, hrow, htracksNext⟩ := hmoves
              obtain ⟨rest, final, hrest, htaken⟩ :=
                Search.take_spec hall hstepped.fit hstepped.held limit
              simp only [Search.take, hnext, hrest, ok_bind, pure_eq_ok] at htake
              cases htake
              cases rest with
              | error fault => exact absurd (htaken.broken fault rfl) (hstepped.fits rfl)
              | ok rest =>
                  obtain ⟨values, hrows, htracksLast⟩ :=
                    ih hstepped.fit hstepped.held htracksNext hrest
                  refine ⟨value :: values, .cons hrow hrows, ?_⟩
                  rwa [List.append_assoc] at htracksLast

theorem takeUpTo (hfit : search.Fit containers.size) (hheld : search.Held containers)
    (htracks : follower.tracks container search seen) {limit : Option Nat}
    (htake : search.takeUpTo containers limit = .ok (rows, last)) :
    ∃ values, List.Forall₂ (follower.row container) (rows.toOption.getD []) values ∧
      follower.tracks container last (seen ++ values) := by
  cases limit with
  | some limit => exact follower.take hall hcontainer hallows hfit hheld htracks htake
  | none =>
      obtain ⟨limit, htake, -⟩ := Search.take_of_drain htake
      exact follower.take hall hcontainer hallows hfit hheld htracks htake

end Taking

end Follower

namespace Workspace

variable {workspace after : Workspace C P} {name : String} {command : Command P E} {reply : Reply}
  {search last : Search P} {axis : Axis P}

/-- The workspaces in which rows are produced are sound. -/
theorem Sound.produced (hsound : workspace.Sound) (name : String)
    (commands : List (Command P E)) : ∀ row ∈ workspace.produced name commands, row.2.Sound := by
  induction commands generalizing workspace with
  | nil => exact fun row hrow => by cases hrow
  | cons command rest ih =>
      intro row hrow
      have hkeeps := hsound.step_keeps command
      cases hstep : workspace.step command with
      | error fault =>
          simp only [Workspace.produced, hstep] at hrow
          exact ih hsound row hrow
      | ok result =>
          have ⟨reply, after⟩ := result
          rw [hstep] at hkeeps
          simp only [Workspace.produced, hstep, List.mem_append, List.mem_map] at hrow
          rcases hrow with ⟨found, _, rfl⟩ | hrest
          · exact hkeeps.1
          · exact ih hkeeps.1 row hrest

section Beginning

variable [Uncounting C α P E]

/-- The search that is kept has not been started, or it is what rewinding gives as the containers
are. -/
theorem Begins.beginning {start : C}
    (hreached : ∀ count (commands : List (Command P E)), (reached start count commands).Sound)
    (hbegins : Begins (E := E) start name number axis workspace) :
    ∃ container search before, workspace.Sound ∧ workspace.containers[number]? = some container ∧
      workspace.searches.get? name = some search ∧ before.target = some (number, axis) ∧
      (search = before ∧ before.progress = .unstarted ∨
        before.rewind workspace.containers = .ok search) := by
  cases hbegins with
  | @unstarted count earlier search hsearch htarget hprogress =>
      have hsound := hreached count earlier
      have ⟨container, hcontainer⟩ := (hsound.fit name search hsearch).exists_container htarget
      exact ⟨container, search, search, hsound, hcontainer, hsearch, htarget,
        .inl ⟨rfl, hprogress⟩⟩
  | @rewound count earlier search reply after hsearch htarget hstep =>
      have hsound := hreached count earlier
      have ⟨container, hcontainer⟩ := (hsound.fit name search hsearch).exists_container htarget
      have ⟨begun, after', hrewind, hstep', hexchanged⟩ := hsound.rewind_step (E := E) hsearch
      cases hstep.symm.trans hstep'
      have hcounted := step_counted hsound.containers id hstep
      have ⟨now, hnow, _⟩ := hcounted.counts number container hcontainer
      have hkept := get?_of_exchanged hexchanged
      refine ⟨now, begun, search, hexchanged.sound, hnow, hkept, htarget, .inr ?_⟩
      rw [← Search.rewind_uncounted, hcounted.uncounted_eq, Search.rewind_uncounted]
      exact hrewind

end Beginning

end Workspace

namespace Follower

variable (follower : Follower C number β) {workspace after : Workspace C P} {name : String}
  {command : Command P E} {reply : Reply} {seen : List β} {search last : Search P}

/-- The search kept under a name is followed, and has produced the given values. -/
def Follows (workspace : Workspace C P) (name : String) (seen : List β) : Prop :=
  ∃ container search, workspace.containers[number]? = some container ∧
    workspace.searches.get? name = some search ∧ follower.tracks container search seen

/-- A row was produced for a value in the workspace behind the command that produced it. -/
def RowFor (row : Match × Workspace C P) (value : β) : Prop :=
  ∃ container, row.2.containers[number]? = some container ∧ follower.row container row.1 value

/-- The container is as it is expected to be when the search goes on. -/
def Allows (workspace : Workspace C P) : Prop :=
  ∀ container, workspace.containers[number]? = some container → follower.allows container

variable {follower}

/-- Keeping the search behind further rows keeps it followed, and the rows stand. -/
theorem follows_of_exchanged {container : C} {rows : List Match} {values : List β}
    (hsound : workspace.Sound) (hcontainer : workspace.containers[number]? = some container)
    (hheld : last.Held workspace.containers)
    (hcounted : Counted workspace.containers after.containers)
    (hexchanged : workspace.Exchanged after (workspace.searches.insert name last))
    (hrows : List.Forall₂ (follower.row container) rows values)
    (htracks : follower.tracks container last (seen ++ values)) :
    List.Forall₂ follower.RowFor (rows.map (·, after)) values ∧
      follower.Follows after name (seen ++ values) := by
  have ⟨now, hnow, hcounts⟩ := hcounted.counts number container hcontainer
  have hpersists := hcounts.recounted.persists
  have hages := hpersists.ages
    (Nat.le_of_eq (congrArg Index.value hcounts.recounted.nextId_eq.symm))
  constructor
  · apply List.forall₂_map_left_iff.mpr
    exact hrows.imp fun row value hrow => ⟨now, hnow, follower.counted hrow hcounts⟩
  · have htracked := follower.descends htracks hcontainer
      (hsound.containers number container hcontainer) hheld hcounts.descends hages
      fun key entry _ => hpersists.kept key entry
    exact ⟨now, last, hnow, Workspace.get?_of_exchanged hexchanged, htracked⟩

namespace Follows

variable (hsound : workspace.Sound) (hfollows : follower.Follows workspace name seen)

include hfollows

theorem exists_search : ∃ search, workspace.searches.get? name = some search :=
  have ⟨_, search, _, hsearch, _⟩ := hfollows
  ⟨search, hsearch⟩

/-- A search that is followed is bound, so nothing can be assigned to it. -/
theorem assignSearch_ne_ok (source : String) :
    (workspace.step (.assignSearch name source) : Except Fault (Reply × Workspace C P)) ≠
      .ok (reply, after) := by
  have ⟨container, search, _, hsearch, htracks⟩ := hfollows
  have hregister := Workspace.register_of_get? hsearch
  rcases Workspace.register_eq workspace.searches source with ⟨copied, -, hcopied⟩ | hcopied
  · simp [Workspace.step, hregister, hcopied, follower.isBound htracks]
  · simp [Workspace.step, hregister, hcopied]

include hsound

/-- A command that does not write the search leaves it followed. -/
theorem untouched (hstep : workspace.step command = .ok (reply, after))
    (htouches : ¬command.Touches name) : follower.Follows after name seen := by
  have ⟨container, search, hcontainer, hsearch, htracks⟩ := hfollows
  have hkeeps := hsound.step_keeps command
  rw [hstep] at hkeeps
  have ⟨_, haged, hsearches⟩ := hkeeps
  have ⟨now, hnow, hages⟩ := haged.ages number container hcontainer
  have ⟨found, hfound, hdescends⟩ :=
    (Workspace.step_descends hsound.containers hstep).descends number container hcontainer
  cases hnow.symm.trans hfound
  refine ⟨now, search, hnow, (hsearches name htouches).trans hsearch, ?_⟩
  apply follower.descends htracks hcontainer (hsound.containers number container hcontainer)
    (hsound.held hsearch) hdescends hages
  intro key entry hhandle hentry
  -- The search holds a reference to the element at its position, so the element cannot be freed.
  have hholder : Handle.mk number key ∈ workspace.holders := by
    apply List.mem_append_right
    exact List.mem_flatMap.mpr ⟨search, Table.mem_values_of_get? hsearch, hhandle⟩
  have hheld := hsound.owed.references_ne_zero hholder ((entryAt_eq hcontainer key).trans hentry)
  exact hages.held key entry hentry hheld

variable (hallows : follower.Allows workspace)

include hallows

/-- One more match of a search that is followed. -/
theorem matchNext {found : Except Fault Bool} {next : Search P}
    (hsearch : workspace.searches.get? name = some search)
    (hnext : search.matchNext workspace.containers = .ok (found, next))
    (hcounted : Counted workspace.containers after.containers)
    (hexchanged : workspace.Exchanged after (workspace.searches.insert name next)) :
    ∃ values, List.Forall₂ follower.RowFor
        ((if found = .ok true then [next.current] else []).map (·, after)) values ∧
      follower.Follows after name (seen ++ values) := by
  have ⟨container, search', hcontainer, hsearch', htracks⟩ := hfollows
  cases hsearch.symm.trans hsearch'
  have hfit := hsound.fit name search hsearch
  have ⟨outcome, houtcome, hmoves⟩ := follower.matchNext hsound.containers hcontainer
    (hallows container hcontainer) hfit (hsound.held hsearch) htracks
  cases hnext.symm.trans houtcome
  have ⟨found', next', hnext', hstepped⟩ :=
    Search.matchNext_spec hsound.containers hfit (hsound.held hsearch)
  cases hnext.symm.trans hnext'
  cases found with
  | error fault =>
      have hnow : follower.tracks container next (seen ++ []) := by rwa [List.append_nil]
      exact ⟨[], follows_of_exchanged hsound hcontainer hstepped.held hcounted hexchanged .nil hnow⟩
  | ok found =>
      cases found with
      | false =>
          have hnow : follower.tracks container next (seen ++ []) := by rwa [List.append_nil]
          exact ⟨[],
            follows_of_exchanged hsound hcontainer hstepped.held hcounted hexchanged .nil hnow⟩
      | true =>
          have ⟨value, hrow, hnow⟩ := hmoves
          exact ⟨[value], follows_of_exchanged hsound hcontainer hstepped.held hcounted hexchanged
            (.cons hrow .nil) hnow⟩

/-- Draining a search that is followed, to its end or a number of times. -/
theorem drain {limit : Option Nat} {rows : Except Fault (List Match)}
    (hsearch : workspace.searches.get? name = some search)
    (htake : search.takeUpTo workspace.containers limit = .ok (rows, last))
    (hcounted : Counted workspace.containers after.containers)
    (hexchanged : workspace.Exchanged after (workspace.searches.insert name last)) :
    ∃ values, List.Forall₂ follower.RowFor ((rows.toOption.getD []).map (·, after)) values ∧
      follower.Follows after name (seen ++ values) := by
  have ⟨container, search', hcontainer, hsearch', htracks⟩ := hfollows
  cases hsearch.symm.trans hsearch'
  have hfit := hsound.fit name search hsearch
  have ⟨rows', last', bound, htake', htaken⟩ :=
    Search.takeUpTo_spec hsound.containers hfit (hsound.held hsearch) limit
  cases htake.symm.trans htake'
  have ⟨values, hrows, hnow⟩ := follower.takeUpTo hsound.containers hcontainer
    (hallows container hcontainer) hfit (hsound.held hsearch) htracks htake
  exact ⟨values, follows_of_exchanged hsound hcontainer htaken.held hcounted hexchanged hrows hnow⟩

/-- A search stays followed through every command that does not renew it. -/
theorem step (hrenews : ¬command.Renews name)
    (hstep : workspace.step command = .ok (reply, after)) :
    ∃ values, List.Forall₂ follower.RowFor
        ((Workspace.rowsOf name after command reply).map (·, after)) values ∧
      follower.Follows after name (seen ++ values) := by
  by_cases htouches : command.Touches name
  · obtain ⟨search, hsearch⟩ := hfollows.exists_search
    cases command with
    | matchNext other =>
        obtain rfl : other = name := htouches
        obtain ⟨found, next, after', hnext, hstep', hexchanged⟩ :=
          hsound.matchNext_step (E := E) hsearch
        cases hstep.symm.trans hstep'
        have hcounted := Workspace.step_counted hsound.containers id hstep
        have hmoves := hfollows.matchNext hsound hallows hsearch hnext hcounted hexchanged
        have hnow := Workspace.get?_of_exchanged hexchanged
        cases found with
        | error _ => simpa [Workspace.rowsOf] using hmoves
        | ok found =>
            cases found with
            | false => simpa [Workspace.rowsOf] using hmoves
            | true => simpa [Workspace.rowsOf, hnow] using hmoves
    | next other keep =>
        obtain rfl : other = name := htouches
        obtain ⟨found, next, after', hnext, hstep', hexchanged⟩ :=
          hsound.next_step (E := E) hsearch keep
        cases hstep.symm.trans hstep'
        have hcounted := Workspace.step_counted hsound.containers id hstep
        have hmoves := hfollows.matchNext hsound hallows hsearch hnext hcounted hexchanged
        cases found with
        | error _ => simpa [Workspace.rowsOf] using hmoves
        | ok found =>
            cases found with
            | false => simpa [Workspace.rowsOf] using hmoves
            | true => simpa [Workspace.rowsOf] using hmoves
    | drain other limit =>
        obtain rfl : other = name := htouches
        obtain ⟨rows, last, after', htake, hstep', hexchanged⟩ :=
          hsound.drain_step (E := E) hsearch limit
        cases hstep.symm.trans hstep'
        have hcounted := Workspace.step_counted hsound.containers id hstep
        have hmoves := hfollows.drain hsound hallows hsearch htake hcounted hexchanged
        cases rows with
        | error _ => simpa [Workspace.rowsOf, Except.toOption] using hmoves
        | ok rows => simpa [Workspace.rowsOf, Except.toOption] using hmoves
    | assignSearch target source =>
        obtain rfl : target = name := htouches
        exact absurd hstep (hfollows.assignSearch_ne_ok source)
    | search target keep => exact absurd htouches hrenews
    | rewind other => exact absurd htouches hrenews
    | copySearch source keep => exact absurd htouches hrenews
    | dropSearch other => exact absurd htouches hrenews
    | _ => exact absurd htouches id
  · have hrows : Workspace.rowsOf name after command reply = [] := by
      unfold Workspace.rowsOf
      split <;> first | rfl | exact if_neg htouches
    refine ⟨[], hrows ▸ .nil, ?_⟩
    rw [List.append_nil]
    exact hfollows.untouched hsound hstep htouches

omit hallows

/-- A search stays followed through every run that does not renew it, if its container is as it is
expected to be after every part of the run. -/
theorem run {commands : List (Command P E)}
    (hallows : ∀ earlier later, commands = earlier ++ later →
      follower.Allows (workspace.run earlier).2)
    (hrenews : ∀ command ∈ commands, ¬command.Renews name) :
    ∃ values, List.Forall₂ follower.RowFor (workspace.produced name commands) values ∧
      follower.Follows (workspace.run commands).2 name (seen ++ values) := by
  induction commands generalizing workspace seen with
  | nil => exact ⟨[], .nil, by rwa [List.append_nil]⟩
  | cons command rest ih =>
      have hrest (other : Command P E) (hother : other ∈ rest) : ¬other.Renews name :=
        hrenews other (List.mem_cons_of_mem _ hother)
      have hparts (earlier later : List (Command P E)) (heq : rest = earlier ++ later) :
          follower.Allows (workspace.run (command :: earlier)).2 :=
        hallows (command :: earlier) later (congrArg (command :: ·) heq)
      have hkeeps := hsound.step_keeps command
      cases hstep : workspace.step command with
      | error fault =>
          simp only [Workspace.run, hstep] at hparts
          simp only [Workspace.produced, Workspace.run, hstep]
          exact ih hsound hfollows hparts hrest
      | ok result =>
          obtain ⟨reply, after⟩ := result
          rw [hstep] at hkeeps
          obtain ⟨first, hfirst, hafter⟩ := hfollows.step hsound (hallows [] _ rfl)
            (hrenews command List.mem_cons_self) hstep
          simp only [Workspace.run, hstep] at hparts
          obtain ⟨others, hothers, hlast⟩ := ih hkeeps.1 hafter hparts hrest
          simp only [Workspace.produced, Workspace.run, hstep]
          refine ⟨first ++ others, List.rel_append hfirst hothers, ?_⟩
          rwa [List.append_assoc] at hlast

end Follows

end Follower

end FormalLanguages
