/-
# A match has nothing that its search cannot find

A search writes to its last match field by field, so a field keeps what was written to it at some
time before.  Nothing is left over in this way: a search along elements never writes a terminal, and
one along groups or terminals writes a single field.
-/

import FormalLanguages.Proofs.Search.Restart

namespace FormalLanguages

variable {C α P E : Type} [Container C α P E]

/-- What a match can have that an axis finds. -/
def Axis.Finds : Axis P → Match → Prop
  | elements _, found => found.symbol = none ∧ found.slots = []
  | matching _ _, found => found.symbol = none
  | groups _, found => found = { group := found.group }
  | terminals _, found => found = { symbol := found.symbol }

/-- A search whose last match has nothing but what the search can find. -/
def Search.Plain (search : Search P) : Prop :=
  ∀ number axis, search.target = some (number, axis) → axis.Finds search.current

theorem Axis.finds_empty (axis : Axis P) : axis.Finds .empty := by
  cases axis <;> simp [Finds, Match.empty]

theorem Axis.finds_moveTo {axis : Axis P} {cursor : Option Key} {found : Match} :
    (axis.moveTo cursor).Finds found ↔ axis.Finds found := by
  cases axis <;> rfl

theorem Axis.stored_of_rowOf {container : C} {number : Nat} {key : Key} {slots : Slots}
    {found : Match} (hrow : rowOf container number key slots = .ok found) :
    ∃ entry, (Container.graph container).stored? key = some entry := by
  obtain ⟨element, helement, -⟩ := bind_eq_ok.mp hrow
  obtain ⟨entry, hentry, -⟩ := Graph.element_eq_ok_iff.mp helement
  exact ⟨entry, hentry⟩

theorem Axis.symbol_of_rowOf {container : C} {number : Nat} {key : Key} {slots : Slots}
    {found : Match} (hrow : rowOf container number key slots = .ok found) :
    found.symbol = none ∧ found.slots = slots := by
  obtain ⟨element, -, heq⟩ := bind_eq_ok.mp hrow
  cases heq
  exact ⟨rfl, rfl⟩

theorem Axis.finds_of_advance {axis after : Axis P} {container : C} {number : Nat} {found : Match}
    (hadvance : axis.advance container number = .ok (.ok (some (found, after)))) :
    after.Finds found := by
  cases axis with
  | elements cursor =>
      simp only [advance, bind_eq_ok] at hadvance
      obtain ⟨live, -, hadvance⟩ := hadvance
      cases live with
      | none => cases hadvance
      | some key =>
          obtain ⟨next, -, hadvance⟩ := bind_eq_ok.mp hadvance
          obtain ⟨row, hrow, heq⟩ := bind_eq_ok.mp hadvance
          cases heq
          exact symbol_of_rowOf hrow
  | matching pattern cursor =>
      simp only [advance, bind_eq_ok] at hadvance
      obtain ⟨stop, -, hadvance⟩ := hadvance
      cases stop with
      | none => cases hadvance
      | some stop =>
          obtain ⟨key, next, outcome⟩ := stop
          cases outcome with
          | error fault => cases hadvance
          | ok slots =>
              obtain ⟨row, hrow, heq⟩ := bind_eq_ok.mp hadvance
              cases heq
              exact (symbol_of_rowOf hrow).1
  | groups offset =>
      simp only [advance, bind_eq_ok] at hadvance
      obtain ⟨shown, -, hadvance⟩ := hadvance
      cases shown with
      | none => cases hadvance
      | some group =>
          cases hadvance
          exact rfl
  | terminals offset =>
      simp only [advance] at hadvance
      split at hadvance
      · cases hadvance
        exact rfl
      · cases hadvance

section Apart

variable {axis after : Axis P} {container : C} {number : Nat} {found : Match}
  (hapart : ¬axis.AlongElements)

include hapart

/-- An axis along groups or terminals is at no element, and finds none. -/
theorem Axis.cursor_of_apart : axis.cursor = none := by
  cases axis with
  | elements cursor => exact absurd trivial hapart
  | matching pattern cursor => exact absurd trivial hapart
  | groups offset => rfl
  | terminals offset => rfl

theorem Axis.element_of_finds (hfinds : axis.Finds found) : found.element = none := by
  cases axis with
  | elements cursor => exact absurd trivial hapart
  | matching pattern cursor => exact absurd trivial hapart
  | groups offset => exact congrArg Match.element hfinds
  | terminals offset => exact congrArg Match.element hfinds

theorem Axis.not_overruns_of_apart : ¬axis.Overruns C := by
  cases axis with
  | elements cursor => exact absurd trivial hapart
  | matching pattern cursor => exact absurd trivial hapart
  | groups offset => exact id
  | terminals offset => exact id

variable (hadvance : axis.advance container number = .ok (.ok (some (found, after))))

include hadvance

theorem Axis.apart_of_advance : ¬after.AlongElements := by
  cases axis with
  | elements cursor => exact absurd trivial hapart
  | matching pattern cursor => exact absurd trivial hapart
  | groups offset =>
      obtain ⟨shown, -, hshown⟩ := bind_eq_ok.mp hadvance
      cases shown with
      | none => cases hshown
      | some group =>
          cases hshown
          exact id
  | terminals offset =>
      simp only [advance] at hadvance
      split at hadvance
      · cases hadvance
        exact id
      · cases hadvance

end Apart

namespace Search

/-- The element at the position of a search whose elements are stored. -/
theorem Held.of_cursor {containers : Array C} {search : Search P} {number : Nat} {axis : Axis P}
    (hheld : search.Held containers) (htarget : search.target = some (number, axis)) (key : Key)
    (hkey : axis.cursor = some key) : Readable containers ⟨number, key⟩ := by
  apply hheld
  simp [holds, htarget, hkey]

theorem plain_exhaust (search : Search P) : search.exhaust.Plain := by
  intro number axis _
  exact axis.finds_empty

theorem plain_lose {search : Search P} (hplain : search.Plain) : search.lose.Plain := by
  intro number axis htarget
  obtain ⟨⟨_, before⟩, hbefore, rfl, rfl⟩ := Option.map_eq_some_iff.mp htarget
  rw [Axis.detach_eq, Axis.finds_moveTo]
  exact hplain _ before hbefore

theorem plain_advance {containers : Array C} {search next : Search P} {found : Except Fault Bool}
    (hplain : search.Plain) (hadvance : search.advance containers = .ok (found, next)) :
    next.Plain := by
  unfold advance at hadvance
  split at hadvance
  · cases hadvance
    exact search.plain_exhaust
  · obtain ⟨container, -, hadvance⟩ := bind_eq_ok.mp hadvance
    obtain ⟨outcome, houtcome, hadvance⟩ := bind_eq_ok.mp hadvance
    cases outcome with
    | error fault =>
        cases hadvance
        exact plain_lose hplain
    | ok result =>
        cases result with
        | none =>
            cases hadvance
            exact search.plain_exhaust
        | some result =>
            cases hadvance
            intro number axis htarget
            cases htarget
            exact Axis.finds_of_advance houtcome

/-- The match of every search has nothing but what the search can find. -/
theorem hereditary_plain : Hereditary C (Plain : Search P → Prop) where
  fresh _ _ axis _ := axis.finds_empty
  rewound hrewind _ axis _ := (rewound_of_rewind hrewind).2.1 ▸ axis.finds_empty
  advanced hplain _ hadvance := plain_advance hplain hadvance

end Search

end FormalLanguages
