/-
# Searches see neither reference counts nor the serials of patterns

A search reads its container by walking over the graph, by asking which groups are shown and by
counting terminals.  None of this depends on how often an element is referred to, so a search goes
on in the same way in containers that differ in their reference counts only.

The serial of a pattern tells which searches share it, and nothing else.  A search for the same
pattern under another serial finds the same matches, and stays the same but for the serial.
-/

import FormalLanguages.Proofs.Automaton
import FormalLanguages.Proofs.Grammar
import FormalLanguages.Proofs.Graph.Uncounted

namespace FormalLanguages

variable {C α P E : Type} [Container C α P E]

/-- The container with all reference counts forgotten. -/
def Container.uncounted (container : C) : C :=
  Container.setGraph container (Container.graph container).uncounted

/-- Containers that hold their graph apart from everything else, and read it without regard to
reference counts. -/
class Uncounting (C : Type) (α P E : outParam Type) [Container C α P E] [LawfulContainer C α P E] :
    Prop where
  setGraph_graph (container : C) :
    Container.setGraph container (Container.graph container) = container
  setGraph_setGraph (container : C) (first second : Graph α) :
    Container.setGraph (Container.setGraph container first) second =
      Container.setGraph container second
  firstGroup_uncounted (container : C) :
    Container.firstGroup (Container.uncounted container) = Container.firstGroup container
  shows_uncounted (container : C) (group : Nat) :
    Container.shows (Container.uncounted container) group = Container.shows container group
  terminalCount_uncounted (container : C) :
    Container.terminalCount (Container.uncounted container) = Container.terminalCount container

theorem graph_uncounted [LawfulContainer C α P E] (container : C) :
    Container.graph (Container.uncounted container) = (Container.graph container).uncounted :=
  LawfulContainer.graph_setGraph container _

/-- Containers that differ in their reference counts at most are the same if these are. -/
theorem Container.eq_of_uncounted [LawfulContainer C α P E] [Uncounting C α P E]
    {container now : C} (huncounted : Container.uncounted now = Container.uncounted container)
    (hreferences : ∀ key cell cell', (Container.graph container).store.cell? key = some cell →
      (Container.graph now).store.cell? key = some cell' → cell'.references = cell.references) :
    now = container := by
  have hgraph : Container.graph now = Container.graph container := by
    apply Graph.eq_of_uncounted _ hreferences
    rw [← graph_uncounted, huncounted, graph_uncounted]
  have hrecover (container : C) :
      Container.setGraph (Container.uncounted container) (Container.graph container) =
        container := by
    rw [Container.uncounted, Uncounting.setGraph_setGraph, Uncounting.setGraph_graph]
  rw [← hrecover now, huncounted, hgraph, hrecover]

namespace Axis

variable [LawfulContainer C α P E] [Uncounting C α P E]

theorem start_uncounted (axis : Axis P) (container : C) :
    axis.start (Container.uncounted container) = axis.start container := by
  cases axis with
  | elements cursor => simp only [start, graph_uncounted, Graph.uncounted_firstElement]
  | groups offset => simp only [start, Uncounting.firstGroup_uncounted]
  | terminals offset => rfl
  | matching pattern cursor =>
      simp only [start, graph_uncounted, Graph.uncounted_firstElement]
      rfl

omit [Uncounting C α P E] in
theorem rowOf_uncounted (container : C) (number : Nat) (key : Key) (slots : Slots) :
    rowOf (Container.uncounted container) number key slots = rowOf container number key slots := by
  simp only [rowOf, graph_uncounted, Graph.uncounted_element]

theorem advance_uncounted (axis : Axis P) (container : C) (number : Nat) :
    axis.advance (Container.uncounted container) number = axis.advance container number := by
  cases axis with
  | elements cursor =>
      simp only [advance, graph_uncounted, Graph.uncounted_nextLive, Graph.uncounted_findNext,
        rowOf_uncounted]
  | groups offset =>
      have hshows : Container.shows (Container.uncounted container) = Container.shows container :=
        funext (Uncounting.shows_uncounted container)
      simp only [advance, graph_uncounted, Graph.uncounted_groups, hshows]
  | terminals offset => simp only [advance, Uncounting.terminalCount_uncounted]
  | matching pattern cursor =>
      simp only [advance, graph_uncounted, Graph.uncounted_seek, rowOf_uncounted]

end Axis

namespace Search

variable {containers others : Array C} {search : Search P}

/-- What is done with a container that forgets its reference counts is done with the container. -/
theorem containerAt_uncounted {β : Type} (containers : Array C) (number : Nat)
    {next : C → Except Fault β} (hnext : ∀ container, next (Container.uncounted container) =
      next container) :
    (containerAt (containers.map Container.uncounted) number >>= next) =
      containerAt containers number >>= next := by
  simp only [containerAt, Array.getElem?_map]
  cases containers[number]? with
  | none => rfl
  | some container => exact hnext container

variable [LawfulContainer C α P E] [Uncounting C α P E]

theorem rewind_uncounted (containers : Array C) (search : Search P) :
    search.rewind (containers.map Container.uncounted) = search.rewind containers := by
  unfold rewind
  split
  · rfl
  · exact containerAt_uncounted containers _ fun container => by
      rw [Axis.start_uncounted]

theorem advance_uncounted (containers : Array C) (search : Search P) :
    search.advance (containers.map Container.uncounted) = search.advance containers := by
  unfold advance
  split
  · rfl
  · exact containerAt_uncounted containers _ fun container => by
      rw [Axis.advance_uncounted]

theorem matchNext_uncounted (containers : Array C) (search : Search P) :
    search.matchNext (containers.map Container.uncounted) = search.matchNext containers := by
  simp only [matchNext, rewind_uncounted, advance_uncounted]

theorem take_uncounted (containers : Array C) (search : Search P) (limit : Nat) :
    search.take (containers.map Container.uncounted) limit = search.take containers limit := by
  induction limit generalizing search with
  | zero => rfl
  | succ limit ih => simp only [take, matchNext_uncounted, ih]

theorem rowBound_uncounted (containers : Array C) (search : Search P) :
    search.rowBound (containers.map Container.uncounted) = search.rowBound containers := by
  unfold rowBound
  split
  · rfl
  · exact containerAt_uncounted containers _ fun container => by
      simp only [Uncounting.terminalCount_uncounted, graph_uncounted, Graph.uncounted_size,
        Graph.uncounted_groups]

theorem takeUpTo_uncounted (containers : Array C) (search : Search P) (limit : Option Nat) :
    search.takeUpTo (containers.map Container.uncounted) limit =
      search.takeUpTo containers limit := by
  cases limit with
  | some limit => exact take_uncounted containers search limit
  | none => simp only [takeUpTo, drain, rowBound_uncounted, take_uncounted]

end Search

section Anonymous

/-- The axis with the serial of its pattern forgotten. -/
def Axis.anonymous : Axis P → Axis P
  | matching pattern cursor => matching { pattern with serial := 0 } cursor
  | axis => axis

/-- The search with the serial of its pattern forgotten. -/
def Search.anonymous (search : Search P) : Search P :=
  { search with target := search.target.map fun (number, axis) => (number, axis.anonymous) }

theorem Axis.start_anonymous (axis : Axis P) (container : C) :
    axis.anonymous.start container = Axis.anonymous <$> axis.start container := by
  cases axis with
  | elements cursor =>
      simp only [anonymous, start]
      cases (Container.graph container).firstElement <;> rfl
  | groups offset =>
      simp only [anonymous, start]
      cases Container.firstGroup container <;> rfl
  | terminals offset => rfl
  | matching pattern cursor =>
      simp only [anonymous, start]
      cases Container.scope C pattern.pattern with
      | some group => rfl
      | none => cases (Container.graph container).firstElement <;> rfl

theorem Axis.advance_anonymous (axis : Axis P) (container : C) (number : Nat) :
    axis.anonymous.advance container number =
      Except.map (Option.map (Prod.map id Axis.anonymous)) <$> axis.advance container number := by
  cases axis with
  | elements cursor =>
      simp only [anonymous, advance, map_bind]
      congr
      funext found
      cases found with
      | none => rfl
      | some key =>
          simp only [map_bind]
          congr
  | groups offset =>
      simp only [anonymous, advance, map_bind]
      congr
      funext found
      cases found <;> rfl
  | terminals offset =>
      simp only [anonymous, advance]
      split <;> rfl
  | matching pattern cursor =>
      simp only [anonymous, advance, map_bind]
      congr
      funext found
      cases found with
      | none => rfl
      | some stop =>
          obtain ⟨key, next, outcome⟩ := stop
          cases outcome with
          | error fault => rfl
          | ok slots =>
              simp only [map_bind]
              congr

namespace Search

@[simp]
theorem target_anonymous (search : Search P) :
    search.anonymous.target = search.target.map fun (number, axis) => (number, axis.anonymous) :=
  rfl

@[simp]
theorem current_anonymous (search : Search P) : search.anonymous.current = search.current := rfl

theorem rewind_anonymous (containers : Array C) (search : Search P) :
    search.anonymous.rewind containers = anonymous <$> search.rewind containers := by
  obtain ⟨target, progress, current⟩ := search
  cases target with
  | none => rfl
  | some target =>
      obtain ⟨number, axis⟩ := target
      simp only [rewind, anonymous, Option.map_some, Axis.start_anonymous, map_bind]
      congr
      funext container
      cases axis.start container <;> rfl

theorem exhaust_anonymous (search : Search P) :
    search.anonymous.exhaust = search.exhaust.anonymous := by
  obtain ⟨target, progress, current⟩ := search
  cases target with
  | none => rfl
  | some target =>
      obtain ⟨number, axis⟩ := target
      cases axis <;> rfl

theorem lose_anonymous (search : Search P) : search.anonymous.lose = search.lose.anonymous := by
  obtain ⟨target, progress, current⟩ := search
  cases target with
  | none => rfl
  | some target =>
      obtain ⟨number, axis⟩ := target
      cases axis <;> rfl

theorem advance_anonymous (containers : Array C) (search : Search P) :
    search.anonymous.advance containers =
      Prod.map id anonymous <$> search.advance containers := by
  obtain ⟨target, progress, current⟩ := search
  cases target with
  | none => rfl
  | some target =>
      obtain ⟨number, axis⟩ := target
      simp only [advance, target_anonymous, Option.map_some, Axis.advance_anonymous, map_bind]
      congr
      funext container
      cases hadvance : axis.advance container number with
      | error fault => rfl
      | ok outcome =>
          cases outcome with
          | error fault =>
              show Except.ok (Except.error fault, (anonymous _).lose) =
                .ok (.error fault, anonymous _)
              rw [lose_anonymous]
          | ok found =>
              cases found with
              | none =>
                  show Except.ok (Except.ok false, (anonymous _).exhaust) =
                    .ok (.ok false, anonymous _)
                  rw [exhaust_anonymous]
              | some found => rfl

theorem matchNext_anonymous (containers : Array C) (search : Search P) :
    search.anonymous.matchNext containers =
      Prod.map id anonymous <$> search.matchNext containers := by
  obtain ⟨target, progress, current⟩ := search
  cases progress with
  | unstarted =>
      have hrewind := rewind_anonymous containers (⟨target, .unstarted, current⟩ : Search P)
      simp only [matchNext]
      change (rewind containers (anonymous ⟨target, .unstarted, current⟩) >>= _) = _
      rw [hrewind]
      cases (⟨target, .unstarted, current⟩ : Search P).rewind containers with
      | error fault => rfl
      | ok rewound => exact advance_anonymous containers rewound
  | running => exact advance_anonymous containers _
  | exhausted => rfl

theorem take_anonymous (containers : Array C) (search : Search P) (limit : Nat) :
    search.anonymous.take containers limit =
      Prod.map id anonymous <$> search.take containers limit := by
  induction limit generalizing search with
  | zero => rfl
  | succ limit ih =>
      simp only [take, matchNext_anonymous]
      cases search.matchNext containers with
      | error fault => rfl
      | ok stepped =>
          obtain ⟨found, next⟩ := stepped
          cases found with
          | error fault => rfl
          | ok found =>
              cases found with
              | false => rfl
              | true =>
                  show next.anonymous.take containers limit >>= _ =
                    _ <$> (next.take containers limit >>= _)
                  rw [ih]
                  cases next.take containers limit <;> rfl

theorem takeUpTo_anonymous (containers : Array C) (search : Search P) (limit : Option Nat) :
    search.anonymous.takeUpTo containers limit =
      Prod.map id anonymous <$> search.takeUpTo containers limit := by
  cases limit with
  | some limit => exact take_anonymous containers search limit
  | none =>
      have hbound : search.anonymous.rowBound containers = search.rowBound containers := by
        obtain ⟨target, progress, current⟩ := search
        cases target <;> rfl
      simp only [takeUpTo, drain, hbound, take_anonymous]
      cases search.rowBound containers with
      | error fault => rfl
      | ok bound =>
          show _ <$> search.take containers (bound + 1) >>= _ =
            _ <$> (search.take containers (bound + 1) >>= _)
          cases search.take containers (bound + 1) with
          | error fault => rfl
          | ok taken =>
              obtain ⟨rows, last⟩ := taken
              cases rows with
              | error fault => rfl
              | ok rows =>
                  show (if last.progress = .exhausted then _ else _) =
                    _ <$> (if last.progress = .exhausted then _ else _)
                  split <;> rfl

theorem isBound_anonymous (search : Search P) : search.anonymous.isBound = search.isBound := by
  cases htarget : search.target <;> simp [isBound, htarget]

variable [LawfulContainer C α P E] [Uncounting C α P E] {containers others : Array C}
  {search other : Search P}
  (hcontainers : containers.map Container.uncounted = others.map Container.uncounted)
  (hsearch : search.anonymous = other.anonymous)

include hcontainers hsearch

/-- Searches that differ in serials only stay so, in containers that differ in counts only. -/
theorem rewind_congr :
    anonymous <$> search.rewind containers = anonymous <$> other.rewind others := by
  rw [← rewind_anonymous, ← rewind_anonymous, ← rewind_uncounted containers,
    ← rewind_uncounted others, hcontainers, hsearch]

theorem matchNext_congr :
    Prod.map id anonymous <$> search.matchNext containers =
      Prod.map id anonymous <$> other.matchNext others := by
  rw [← matchNext_anonymous, ← matchNext_anonymous, ← matchNext_uncounted containers,
    ← matchNext_uncounted others, hcontainers, hsearch]

theorem takeUpTo_congr (limit : Option Nat) :
    Prod.map id anonymous <$> search.takeUpTo containers limit =
      Prod.map id anonymous <$> other.takeUpTo others limit := by
  rw [← takeUpTo_anonymous, ← takeUpTo_anonymous, ← takeUpTo_uncounted containers,
    ← takeUpTo_uncounted others, hcontainers, hsearch]

end Search

end Anonymous

namespace Grammar

variable {A : Type} [DecidableEq A]

theorem firstGroup_uncounted (grammar : Grammar A) :
    Container.firstGroup (Container.uncounted grammar) = Container.firstGroup grammar := by
  show firstGroup { grammar with graph := grammar.graph.uncounted } = firstGroup grammar
  simp only [firstGroup, Graph.uncounted_firstElement, Graph.uncounted_element]

/-- A grammar has its alphabet and its index beside its graph. -/
instance uncounting : Uncounting (Grammar A) SymbolString Pattern (Edit A) where
  setGraph_graph _ := rfl
  setGraph_setGraph _ _ _ := rfl
  firstGroup_uncounted := firstGroup_uncounted
  shows_uncounted grammar group := grammar.graph.uncounted_hasLive group
  terminalCount_uncounted _ := rfl

end Grammar

namespace Automaton

variable {A : Type} [DecidableEq A]

/-- An automaton has its alphabet and its states beside its graph. -/
instance uncounting : Uncounting (Automaton A) Move Pattern (Edit A) where
  setGraph_graph _ := rfl
  setGraph_setGraph _ _ _ := rfl
  firstGroup_uncounted _ := rfl
  shows_uncounted _ _ := rfl
  terminalCount_uncounted _ := rfl

end Automaton

end FormalLanguages
