/-
# The index of an automaton finds its live transitions

An automaton is sound if its graph is, and if the index finds every live transition under its source
and its move.  What it finds may be a tombstone, but it is always stored, it is a transition with
the wanted source and move, and no other one that is stored is newer.

Freeing a tombstone takes it out of the index only if it is still the one that is found, so a live
transition that took its place there stays where it is.
-/

import FormalLanguages.Proofs.Checks
import FormalLanguages.Proofs.Container
import FormalLanguages.Proofs.Table

namespace FormalLanguages.Automaton

variable {A : Type} {automaton : Automaton A} {key : Key} {entry : Entry Move}

/-- An automaton whose index finds the live transitions. -/
structure Sound (automaton : Automaton A) : Prop where
  graph : automaton.graph.Sound
  entered : ∀ place key, automaton.index.get? place = some key →
    ∃ entry, automaton.graph.stored? key = some entry ∧ (entry.group, entry.data) = place
  found : ∀ key entry, automaton.graph.stored? key = some entry → entry.deleted = false →
    automaton.index.get? (entry.group, entry.data) = some key
  newest : ∀ key other entry older, automaton.graph.stored? key = some entry →
    automaton.index.get? (entry.group, entry.data) = some key →
    automaton.graph.stored? other = some older →
    (older.group, older.data) = (entry.group, entry.data) → older.id ≤ entry.id

/-- A new automaton is an empty graph to which a state was added. -/
theorem extended_initial :
    (Graph.empty .transition).Extended (initial : Automaton A).graph := by
  obtain ⟨graph, hadd, hextended⟩ :=
    Graph.addGroup_spec (Graph.sound_empty (α := Move) .transition)
  have hgraph : graph = (initial : Automaton A).graph :=
    (congrArg Prod.snd (Except.ok.inj hadd)).symm
  exact hgraph ▸ hextended

theorem stored?_initial (key : Key) : (initial : Automaton A).graph.stored? key = none :=
  (extended_initial.stored?_eq key).trans (Graph.stored?_empty .transition key)

theorem sound_initial : (initial : Automaton A).Sound := by
  refine ⟨extended_initial.sound (Graph.sound_empty .transition), ?_, ?_, ?_⟩
  · intro place key hkey
    cases hkey
  · intro key entry hstored
    rw [stored?_initial] at hstored
    cases hstored
  · intro key other entry older hstored
    rw [stored?_initial] at hstored
    cases hstored

/-- A change that keeps all that is stored leaves an automaton sound. -/
theorem Sound.withGraph {after : Automaton A} (hsound : automaton.Sound)
    (hgraph : after.graph.Sound) (hindex : after.index = automaton.index)
    (hpersists : automaton.graph.Persists after.graph) : after.Sound := by
  have hsame {entry now : Entry Move} (hbecomes : entry.Becomes now) :
      (now.group, now.data) = (entry.group, entry.data) := by
    rw [hbecomes.group_eq, hbecomes.data_eq]
  refine ⟨hgraph, ?_, ?_, ?_⟩
  · intro place key hkey
    obtain ⟨entry, hentry, hplace⟩ := hsound.entered place key (hindex ▸ hkey)
    obtain ⟨now, hnow, hbecomes⟩ := hpersists.kept key entry hentry
    exact ⟨now, hnow, (hsame hbecomes).trans hplace⟩
  · intro key now hnow hlive
    obtain ⟨entry, hentry, hbecomes⟩ := hpersists.origin key now hnow
    rw [hindex, hsame hbecomes]
    apply hsound.found key entry hentry
    cases hdeleted : entry.deleted with
    | false => rfl
    | true =>
        rw [hbecomes.deleted hdeleted] at hlive
        cases hlive
  · intro key other now older hnow hkey holder hplace
    obtain ⟨entry, hentry, hbecomes⟩ := hpersists.origin key now hnow
    obtain ⟨before, hbefore, hbecomes'⟩ := hpersists.origin other older holder
    rw [hsame hbecomes, hindex] at hkey
    rw [hsame hbecomes, hsame hbecomes'] at hplace
    have hle := hsound.newest key other entry before hentry hkey hbefore hplace
    rw [hbecomes.id_eq, hbecomes'.id_eq]
    exact hle

/-- A change of anything but the transitions leaves an automaton sound. -/
theorem Sound.congr {after : Automaton A} (hsound : automaton.Sound)
    (hgraph : after.graph = automaton.graph) (hindex : after.index = automaton.index) :
    after.Sound := by
  refine hsound.withGraph (hgraph ▸ hsound.graph) hindex ⟨?_, ?_⟩
  · intro key entry hentry
    exact ⟨entry, hgraph ▸ hentry, .refl entry⟩
  · intro key now hnow
    exact ⟨now, hgraph ▸ hnow, .refl now⟩

/-- Adding states adds groups, and counts them in order.  None of them accepts. -/
theorem Sound.addStates_spec (hsound : automaton.Sound) (count : Nat) :
    ∃ graph, automaton.addStates count =
        .ok (List.range' automaton.graph.groups.size count, { automaton with
          graph
          accepting := automaton.accepting ++ Array.replicate count false }) ∧
      { automaton with
        graph
        accepting := automaton.accepting ++ Array.replicate count false }.Sound ∧
      automaton.graph.Widened graph count := by
  induction count generalizing automaton with
  | zero => exact ⟨automaton.graph, by simp [addStates], hsound.congr rfl rfl, .refl _⟩
  | succ count ih =>
      obtain ⟨middle, hadd, hextended⟩ := Graph.addGroup_spec hsound.graph
      have hwidened := hextended.widened
      let added : Automaton A :=
        { automaton with graph := middle, accepting := automaton.accepting.push false }
      have hmiddle : added.Sound :=
        hsound.withGraph (hextended.sound hsound.graph) rfl hwidened.persists
      obtain ⟨graph, hrest, hafter, hwidenedRest⟩ := ih hmiddle
      have haccepting : added.accepting ++ Array.replicate count false =
          automaton.accepting ++ Array.replicate (count + 1) false := by
        apply Array.toList_inj.mp
        simp [added, List.replicate_succ]
      have hsize : added.graph.groups.size = automaton.graph.groups.size + 1 := hwidened.size_eq
      rw [haccepting] at hrest hafter
      rw [hsize] at hrest
      refine ⟨graph, ?_, hafter, Nat.add_comm 1 count ▸ hwidened.trans hwidenedRest⟩
      have hstep : automaton.addState = .ok (automaton.graph.groups.size, added) := by
        simp [addState, hadd, added]
      simp only [addStates, hstep, hrest, ok_bind, pure_eq_ok, List.range'_succ]
      rfl

/-- Looking for a live transition ends without a fault.  What it finds is the transition that is
wanted, and if it finds nothing then there is no such transition that is live. -/
theorem Sound.findLive_spec (hsound : automaton.Sound) (transition : Transition) :
    ∃ found, automaton.findLive transition = .ok found ∧
      (∀ key, found = some key → ∃ entry, automaton.graph.stored? key = some entry ∧
        entry.deleted = false ∧
          (entry.group, entry.data) = (transition.source, transition.toMove)) ∧
      (found = none → ∀ key entry, automaton.graph.stored? key = some entry →
        (entry.group, entry.data) = (transition.source, transition.toMove) →
          entry.deleted = true) := by
  cases hkey : automaton.index.get? (transition.source, transition.toMove) with
  | none =>
      refine ⟨none, by simp [findLive, hkey], by simp, ?_⟩
      intro _ key entry hentry hplace
      cases hdeleted : entry.deleted with
      | true => rfl
      | false =>
          have hfound := hsound.found key entry hentry hdeleted
          rw [hplace, hkey] at hfound
          cases hfound
  | some key =>
      obtain ⟨entry, hentry, hplace⟩ := hsound.entered _ key hkey
      have helement := Graph.element_of_stored hentry
      refine ⟨if entry.deleted then none else some key, by simp [findLive, hkey, helement], ?_, ?_⟩
      · intro other hother
        cases hdeleted : entry.deleted with
        | true => simp [hdeleted] at hother
        | false =>
            obtain rfl : key = other := by simpa [hdeleted] using hother
            exact ⟨entry, hentry, hdeleted, hplace⟩
      · intro hnone other older hother holder
        cases hdeleted : older.deleted with
        | true => rfl
        | false =>
            have hfound := hsound.found other older hother hdeleted
            rw [holder, hkey] at hfound
            cases hfound
            cases hentry.symm.trans hother
            simp [hdeleted] at hnone

/-- A new transition that no live one equals may be found in the place of a tombstone. -/
theorem Sound.inserted (hsound : automaton.Sound) {source : Nat} {move : Move} {key : Key}
    {graph : Graph Move} (hsource : source < automaton.graph.groups.size)
    (hnone : ∀ key entry, automaton.graph.stored? key = some entry →
      (entry.group, entry.data) = (source, move) → entry.deleted = true)
    (happended : automaton.graph.Appended source move key graph) :
    { automaton with graph, index := automaton.index.insert (source, move) key }.Sound := by
  have hentries := happended.stored?_eq
  have hindex (place : Nat × Move) : (automaton.index.insert (source, move) key).get? place =
      if place = (source, move) then some key else automaton.index.get? place :=
    Table.get?_insert _ _ _ _
  have hne {other : Key} {older : Entry Move}
      (holder : automaton.graph.stored? other = some older) : other ≠ key := by
    intro heq
    rw [heq, happended.stored?_key] at holder
    cases holder
  refine ⟨happended.sound hsound.graph hsource, ?_, ?_, ?_⟩
  · intro place other hother
    change (automaton.index.insert _ _).get? place = some other at hother
    change ∃ entry, graph.stored? other = some entry ∧ _
    rw [hindex] at hother
    split at hother
    · next heq =>
        cases hother
        exact ⟨_, (hentries key).trans (if_pos rfl), heq.symm⟩
    · obtain ⟨entry, hentry, hplace⟩ := hsound.entered place other hother
      exact ⟨entry, (hentries other).trans ((if_neg (hne hentry)).trans hentry), hplace⟩
  · intro other now hnow hlive
    change graph.stored? other = some now at hnow
    change (automaton.index.insert _ _).get? (now.group, now.data) = some other
    rw [hentries] at hnow
    rw [hindex]
    split at hnow
    · next heq =>
        cases hnow
        rw [if_pos rfl, heq]
    · have hother := hsound.found other now hnow hlive
      split
      · next heq =>
          rw [hnone other now hnow heq] at hlive
          cases hlive
      · exact hother
  · intro first second entry older hfirst hfound hsecond hplace
    change graph.stored? first = some entry at hfirst
    change graph.stored? second = some older at hsecond
    change (automaton.index.insert _ _).get? (entry.group, entry.data) = some first at hfound
    rw [hentries] at hfirst hsecond
    rw [hindex] at hfound
    -- The new transition has the greatest number, and it is found under its own place only.
    split at hsecond
    · cases hsecond
      rw [if_pos hplace.symm] at hfound
      cases hfound
      rw [if_pos rfl] at hfirst
      cases hfirst
      exact Nat.le_refl _
    · split at hfirst
      · cases hfirst
        have hlt := hsound.graph.numbered second _ (Graph.place?_of_stored hsecond)
        exact Nat.le_of_lt hlt
      · next hfirstKey =>
          split at hfound
          · cases hfound
            exact absurd rfl hfirstKey
          · exact hsound.newest first second entry older hfirst hfound hsecond hplace

/-- Storing a transition appends it to its source and makes it the one that is found, as long as
there is a number left. -/
theorem Sound.insert_spec (hsound : automaton.Sound) {transition : Transition}
    (hsource : transition.source < automaton.graph.groups.size) {nextId : Index}
    (hroom : automaton.graph.nextId.succ = .ok nextId) :
    ∃ key graph, automaton.graph.Appended transition.source transition.toMove key graph ∧
      automaton.insert transition = .ok (key, { automaton with
        graph
        index := automaton.index.insert (transition.source, transition.toMove) key }) := by
  obtain ⟨key, graph, happend, happended⟩ :=
    Graph.append_spec hsound.graph hsource hroom transition.toMove
  exact ⟨key, graph, happended, by simp only [insert, happend, ok_bind, pure_eq_ok]⟩

/-- The source of a transition that passes its checks has been added. -/
theorem source_lt_of_checkTransition {transition : Transition}
    (hcheck : automaton.checkTransition transition = .ok ()) :
    transition.source < automaton.graph.groups.size := by
  have ⟨_, hsource, _⟩ := bind_eq_ok.mp hcheck
  exact checkState_eq_ok_iff.mp hsource

/-- What adding a transition may come to: a refusal, the transition that is there, a new one that no
live one equals, or the fault that there is no number left. -/
inductive Addition (automaton : Automaton A) (transition : Transition) :
    Except Fault (Except Refusal (Key × Automaton A)) → Prop
  | refused {refusal : Refusal} (hcheck : automaton.checkTransition transition = .error refusal) :
      Addition automaton transition (.ok (.error refusal))
  | found {key : Key} {entry : Entry Move} (hcheck : automaton.checkTransition transition = .ok ())
      (hentry : automaton.graph.stored? key = some entry) (hlive : entry.deleted = false)
      (hplace : (entry.group, entry.data) = (transition.source, transition.toMove)) :
      Addition automaton transition (.ok (.ok (key, automaton)))
  | created {key : Key} {graph : Graph Move}
      (hcheck : automaton.checkTransition transition = .ok ())
      (hnone : ∀ key entry, automaton.graph.stored? key = some entry →
        (entry.group, entry.data) = (transition.source, transition.toMove) → entry.deleted = true)
      (happended : automaton.graph.Appended transition.source transition.toMove key graph) :
      Addition automaton transition (.ok (.ok (key, { automaton with
        graph
        index := automaton.index.insert (transition.source, transition.toMove) key })))
  | exhausted (hcheck : automaton.checkTransition transition = .ok ())
      (hnone : ∀ key entry, automaton.graph.stored? key = some entry →
        (entry.group, entry.data) = (transition.source, transition.toMove) → entry.deleted = true)
      (hfull : automaton.graph.nextId.succ = .error (.overflow automaton.graph.nextId.kind)) :
      Addition automaton transition (.error (.overflow automaton.graph.nextId.kind))

/-- Adding a transition finds the one that is there or stores a new one. -/
theorem Sound.addTransition_spec (hsound : automaton.Sound) (transition : Transition) :
    automaton.Addition transition (automaton.addTransition transition) := by
  cases hcheck : automaton.checkTransition transition with
  | error refusal =>
      simp only [addTransition, hcheck, pure_eq_ok]
      exact .refused hcheck
  | ok _ =>
      have hsource := source_lt_of_checkTransition hcheck
      obtain ⟨found, hfind, hfound, hnone⟩ := hsound.findLive_spec transition
      simp only [addTransition, hcheck, hfind, ok_bind, pure_eq_ok]
      cases found with
      | some key =>
          obtain ⟨entry, hentry, hlive, hplace⟩ := hfound key rfl
          exact .found hcheck hentry hlive hplace
      | none =>
          rcases automaton.graph.nextId.succ_eq with ⟨nextId, hroom⟩ | hfull
          · obtain ⟨key, graph, happended, hinsert⟩ := hsound.insert_spec hsource hroom
            simp only [hinsert, ok_bind]
            exact .created hcheck (hnone rfl) happended
          · have hinsert : automaton.insert transition =
                .error (.overflow automaton.graph.nextId.kind) := by
              simp [insert, Graph.append_eq_overflow hsource hfull]
            simp only [hinsert, error_bind]
            exact .exhausted hcheck (hnone rfl) hfull

/-- Taking a transition out of the index matters only if it is the one that is found. -/
theorem get?_unfile (index : Table (Nat × Move) Key) (key : Key) (node : Node Move)
    (place : Nat × Move) (other : Key) :
    (unfile index key node).get? place = some other ↔
      index.get? place = some other ∧ ¬(other = key ∧ (node.group, node.data) = place) := by
  simp only [unfile]
  split
  · next hfound =>
      rw [Table.get?_erase]
      by_cases hplace : place = (node.group, node.data)
      · subst hplace
        simp [hfound, eq_comm]
      · simp [hplace, eq_comm]
  · next hnot =>
      constructor
      · intro hother
        refine ⟨hother, ?_⟩
        rintro ⟨rfl, rfl⟩
        exact hnot hother
      · exact fun hother => hother.1

theorem get?_foldl_unfile (freed : List (Key × Node Move)) (index : Table (Nat × Move) Key)
    (place : Nat × Move) (key : Key) :
    (freed.foldl (fun index (key, node) => unfile index key node) index).get? place = some key ↔
      index.get? place = some key ∧
        ∀ node, (key, node) ∈ freed → (node.group, node.data) ≠ place :=
  listed_foldl unfile (fun node => (node.group, node.data))
    (fun index place key => index.get? place = some key) get?_unfile freed index place key

/-- Reclaiming an automaton is reclaiming its graph and taking the freed transitions out of the
index. -/
theorem reclaim_eq (automaton : Automaton A) :
    automaton.reclaim = (do
      let (freed, graph) ← automaton.graph.reclaim
      let index := freed.foldl (fun index (key, node) => unfile index key node) automaton.index
      return (freed.length, { automaton with graph, index })) := by
  simp only [reclaim, Graph.reclaimFiled_eq, bind_assoc]
  rfl

/-- Reclaiming enters nothing into the index. -/
theorem get?_of_reclaim {count : Nat} {after : Automaton A} {place : Nat × Move}
    (hreclaim : automaton.reclaim = .ok (count, after))
    (hkey : after.index.get? place = some key) : automaton.index.get? place = some key := by
  rw [reclaim_eq] at hreclaim
  obtain ⟨⟨freed, graph⟩, -, hafter⟩ := bind_eq_ok.mp hreclaim
  cases hafter
  exact ((get?_foldl_unfile freed automaton.index place key).mp hkey).1

/-- Taking the freed transitions out of the index leaves just what is found at other keys: a freed
transition is found under its own place only. -/
theorem Sound.get?_foldl_freed (hsound : automaton.Sound) {keys : List Key}
    {freed : List (Key × Node Move)} (hreleased : automaton.graph.Released keys freed)
    (place : Nat × Move) (key : Key) :
    (freed.foldl (fun index (key, node) => unfile index key node) automaton.index).get? place =
        some key ↔
      automaton.index.get? place = some key ∧ key ∉ keys := by
  rw [get?_foldl_unfile]
  refine and_congr_right fun hfound => ⟨fun hnot hkey => ?_, fun hkey node hnode => ?_⟩
  · obtain ⟨entry, hentry, hplace⟩ := hsound.entered place key hfound
    obtain ⟨node, hnode, hgroup, hdata⟩ := hreleased.exists_node hkey hentry
    exact hnot node hnode (by rw [hgroup, hdata, hplace])
  · exact absurd (hreleased.mem_keys hnode) hkey

/-- Reclaiming takes the freed transitions out of the index. -/
theorem Sound.reclaim_spec (hsound : automaton.Sound) :
    ∃ count after, automaton.reclaim = .ok (count, after) ∧ after.Sound ∧
      automaton.graph.Swept automaton.graph.store.reclaimable after.graph := by
  obtain ⟨freed, graph, hreclaim, hgraph, hswept, -, hreleased⟩ :=
    Graph.reclaim_swept hsound.graph
  let index := freed.foldl (fun index (key, node) => unfile index key node) automaton.index
  have hindex := hsound.get?_foldl_freed hreleased
  -- What is stored afterwards was stored before and has not been freed.
  have hstored (key : Key) (entry : Entry Move) (hentry : graph.stored? key = some entry) :
      automaton.graph.stored? key = some entry ∧ key ∉ automaton.graph.store.reclaimable := by
    rw [hswept.stored?_eq] at hentry
    split at hentry
    · cases hentry
    · next hkey => exact ⟨hentry, hkey⟩
  refine ⟨freed.length, { automaton with graph, index }, by simp [reclaim_eq, hreclaim, index],
    ⟨hgraph, ?_, ?_, ?_⟩, hswept⟩
  · intro place key hkey
    obtain ⟨hbefore, hleft⟩ := (hindex place key).mp hkey
    obtain ⟨entry, hentry, hplace⟩ := hsound.entered place key hbefore
    exact ⟨entry, by rw [hswept.stored?_eq, if_neg hleft, hentry], hplace⟩
  · intro key entry hentry hlive
    obtain ⟨hbefore, hleft⟩ := hstored key entry hentry
    exact (hindex _ key).mpr ⟨hsound.found key entry hbefore hlive, hleft⟩
  · intro key other entry older hentry hkey holder hplace
    exact hsound.newest key other entry older (hstored key entry hentry).1
      ((hindex _ key).mp hkey).1 (hstored other older holder).1 hplace

/-- A pattern asks for slots that its terms name. -/
theorem Pattern.named {pattern : Pattern} {transition : Transition} {slot : Nat} {value : Binding}
    (hasked : .bind slot value ∈ pattern.constraints transition) :
    ∃ word, some word ∈ pattern.slots ∧ slot = word.toNat := by
  have hterm {β : Type} (term : Term β) (hterm : term.slot? ∈ pattern.slots) (word : UInt64)
      (heq : term = .bind word) :
      ∃ named, some named ∈ pattern.slots ∧ word.toNat = named.toNat := by
    subst heq
    exact ⟨word, hterm, rfl⟩
  cases Pattern.binds_constraints.mp (Constraint.exists_binds_iff.mpr hasked) with
  | source heq => exact hterm pattern.source (by simp [slots]) _ heq
  | read heq => exact hterm pattern.read (by simp [slots]) _ heq
  | pop heq => exact hterm pattern.pop (by simp [slots]) _ heq
  | push heq => exact hterm pattern.push (by simp [slots]) _ heq
  | sink heq => exact hterm pattern.sink (by simp [slots]) _ heq

/-- A pattern asks of every transition for every slot that its terms name. -/
theorem Pattern.asked (pattern : Pattern) (transition : Transition) {word : UInt64}
    (hnamed : some word ∈ pattern.slots) :
    ∃ value, .bind word.toNat value ∈ pattern.constraints transition := by
  suffices hbinds : ∃ value, pattern.Binds transition word.toNat value by
    obtain ⟨value, hvalue⟩ := hbinds
    exact ⟨value, Constraint.exists_binds_iff.mp (Pattern.binds_constraints.mpr hvalue)⟩
  simp only [slots, List.mem_cons, List.not_mem_nil, or_false, eq_comm (a := some word),
    Term.slot?_eq_some_iff] at hnamed
  rcases hnamed with hterm | hterm | hterm | hterm | hterm
  · exact ⟨_, .source hterm⟩
  · exact ⟨_, .read hterm⟩
  · exact ⟨_, .pop hterm⟩
  · exact ⟨_, .push hterm⟩
  · exact ⟨_, .sink hterm⟩

/-- A pattern that names a source rejects transitions of other groups. -/
theorem Pattern.scope_spec [DecidableEq A] {pattern : Pattern} {element : Element Move}
    {group : Nat}
    (hslots : slotsOf (C := Automaton A) pattern element ≠ .ok none)
    (hscope : pattern.scope = some group) : element.group = group := by
  obtain ⟨source, read, pop, push, sink⟩ := pattern
  cases source with
  | any => cases hscope
  | bind slot => cases hscope
  | is state =>
      by_cases hsource : state = element.group
      · exact hsource.symm.trans (Option.some.inj hscope)
      · exact absurd (slotsOf_rejected (congrArg (Constraint.require · :: _)
          (beq_false_of_ne hsource))) hslots

section Effects

variable [DecidableEq A]

/-- What a change of an automaton comes to: more states, more symbols, another start or another
mark, a refusal, a transition that is there or a new one, or the fault that there is no number left.
-/
inductive Effect (automaton : Automaton A) : Edit A → Except Fault (Answer × Automaton A) → Prop
  | widened {count : Nat} {graph : Graph Move}
      (hafter : { automaton with
        graph
        accepting := automaton.accepting ++ Array.replicate count false }.Sound)
      (hwidened : automaton.graph.Widened graph count) :
      Effect automaton (.addStates count)
        (.ok (.states (List.range' automaton.graph.groups.size count), { automaton with
          graph
          accepting := automaton.accepting ++ Array.replicate count false }))
  | interned (values : List A) :
      Effect automaton (.intern values)
        (.ok (.symbols (automaton.alphabet.internAll values).1,
          { automaton with alphabet := (automaton.alphabet.internAll values).2 }))
  | started {state : Nat} (hstate : state < automaton.stateCount) :
      Effect automaton (.setStart state) (.ok (.done, { automaton with start := state }))
  | marked {state : Nat} {accept : Bool} (hstate : state < automaton.stateCount) :
      Effect automaton (.setAccepting state accept)
        (.ok (.done, { automaton with
          accepting := automaton.accepting.setIfInBounds state accept }))
  | refusedStart {state : Nat} (hstate : ¬state < automaton.stateCount) :
      Effect automaton (.setStart state) (.ok (.refused (.unknownState state), automaton))
  | refusedMark {state : Nat} {accept : Bool} (hstate : ¬state < automaton.stateCount) :
      Effect automaton (.setAccepting state accept)
        (.ok (.refused (.unknownState state), automaton))
  | refusedTransition {transition : Transition} {refusal : Refusal}
      (hcheck : automaton.checkTransition transition = .error refusal) :
      Effect automaton (.addTransition transition) (.ok (.refused refusal, automaton))
  | found {transition : Transition} {key : Key} {entry : Entry Move}
      (hcheck : automaton.checkTransition transition = .ok ())
      (hentry : automaton.graph.stored? key = some entry) (hlive : entry.deleted = false)
      (hplace : (entry.group, entry.data) = (transition.source, transition.toMove)) :
      Effect automaton (.addTransition transition) (.ok (.element key, automaton))
  | created {transition : Transition} {key : Key} {graph : Graph Move}
      (hcheck : automaton.checkTransition transition = .ok ())
      (hnone : ∀ key entry, automaton.graph.stored? key = some entry →
        (entry.group, entry.data) = (transition.source, transition.toMove) → entry.deleted = true)
      (hafter : { automaton with
        graph
        index := automaton.index.insert (transition.source, transition.toMove) key }.Sound)
      (happended : automaton.graph.Appended transition.source transition.toMove key graph) :
      Effect automaton (.addTransition transition) (.ok (.element key, { automaton with
        graph
        index := automaton.index.insert (transition.source, transition.toMove) key }))
  | exhausted {transition : Transition} (hcheck : automaton.checkTransition transition = .ok ())
      (hnone : ∀ key entry, automaton.graph.stored? key = some entry →
        (entry.group, entry.data) = (transition.source, transition.toMove) → entry.deleted = true)
      (hfull : automaton.graph.nextId.succ = .error (.overflow automaton.graph.nextId.kind)) :
      Effect automaton (.addTransition transition)
        (.error (.overflow automaton.graph.nextId.kind))

/-- Every change of a sound automaton has one of the effects. -/
theorem Sound.edit_effect (hsound : automaton.Sound) (change : Edit A) :
    automaton.Effect change (automaton.edit change) := by
  cases change with
  | addStates count =>
      obtain ⟨graph, hadd, hafter, hwidened⟩ := hsound.addStates_spec count
      simp only [edit, hadd, ok_bind, pure_eq_ok]
      exact .widened hafter hwidened
  | intern values => exact .interned values
  | setStart state =>
      by_cases hstate : state < automaton.stateCount
      · simp only [edit, setStart, checkState, if_pos hstate]
        exact .started hstate
      · simp only [edit, setStart, checkState, if_neg hstate]
        exact .refusedStart hstate
  | setAccepting state accept =>
      by_cases hstate : state < automaton.stateCount
      · simp only [edit, setAccepting, checkState, if_pos hstate]
        exact .marked hstate
      · simp only [edit, setAccepting, checkState, if_neg hstate]
        exact .refusedMark hstate
  | addTransition transition =>
      have haddition := hsound.addTransition_spec transition
      simp only [edit]
      generalize automaton.addTransition transition = outcome at haddition ⊢
      cases haddition with
      | refused hcheck => exact .refusedTransition hcheck
      | found hcheck hentry hlive hplace => exact .found hcheck hentry hlive hplace
      | created hcheck hnone happended =>
          exact .created hcheck hnone
            (hsound.inserted (source_lt_of_checkTransition hcheck) hnone happended) happended
      | exhausted hcheck hnone hfull => exact .exhausted hcheck hnone hfull

end Effects

/-- Automata keep the laws of containers. -/
instance lawful [DecidableEq A] : LawfulContainer (Automaton A) Move Pattern (Edit A) where
  Sound := Sound
  graph_sound := Sound.graph
  graph_setGraph _ _ := rfl
  sound_setGraph hsound hgraph hpersists := hsound.withGraph hgraph rfl hpersists
  edit_spec {automaton} hsound change := by
    have heffect := hsound.edit_effect change
    simp only [Container.edit]
    generalize automaton.edit change = outcome at heffect ⊢
    cases heffect with
    | widened hafter hwidened =>
        exact .inl ⟨_, _, rfl, hafter, hwidened.evolves, fun key hkey => by cases hkey⟩
    | interned values =>
        exact .inl ⟨_, _, rfl, hsound.congr rfl rfl, .refl _, fun key hkey => by cases hkey⟩
    | started =>
        exact .inl ⟨_, _, rfl, hsound.congr rfl rfl, .refl _, fun key hkey => by cases hkey⟩
    | marked =>
        exact .inl ⟨_, _, rfl, hsound.congr rfl rfl, .refl _, fun key hkey => by cases hkey⟩
    | refusedStart => exact .inl ⟨_, _, rfl, hsound, .refl _, fun key hkey => by cases hkey⟩
    | refusedMark => exact .inl ⟨_, _, rfl, hsound, .refl _, fun key hkey => by cases hkey⟩
    | refusedTransition => exact .inl ⟨_, _, rfl, hsound, .refl _, fun key hkey => by cases hkey⟩
    | found _ hentry =>
        refine .inl ⟨_, _, rfl, hsound, .refl _, fun other hother => ?_⟩
        cases hother
        exact ⟨_, hentry⟩
    | created _ _ hafter happended =>
        refine .inl ⟨_, _, rfl, hafter, happended.evolves, fun other hother => ?_⟩
        cases hother
        exact ⟨_, (happended.stored?_eq _).trans (if_pos rfl)⟩
    | exhausted => exact .inr ⟨_, rfl⟩
  reclaim_spec := Sound.reclaim_spec
  firstGroup_spec _ := ⟨0, rfl⟩
  shows_spec _ _ := ⟨_, rfl⟩
  named := Pattern.named
  asked {pattern element} _ := pattern.asked (transitionOf element)
  scope_spec {_} _ {_ _ _ _} _ hslots hscope := Pattern.scope_spec hslots hscope

/-- A change that was carried out has one of the effects. -/
theorem Sound.effect_of_edit [DecidableEq A] (hsound : automaton.Sound) {change : Edit A}
    {answer : Answer} {after : Automaton A}
    (hedit : Container.edit automaton change = .ok (answer, after)) :
    automaton.Effect change (.ok (answer, after)) := by
  have heffect := hsound.edit_effect change
  rwa [show automaton.edit change = .ok (answer, after) from hedit] at heffect

end FormalLanguages.Automaton
