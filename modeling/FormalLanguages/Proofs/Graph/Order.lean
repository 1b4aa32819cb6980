/-
# Walking a graph meets its elements in the order of their places

Finding the next element looks into the chain of the present one, and past its end into the chains
of the groups behind.  The keys that a cursor meets in this way are its trail.  A trail runs through
the stored elements in the order of their places and leaves none of them out: from the first element
it meets all, from the head of a group the elements of that group, and from any element those
behind it, all or only those of its group.

Seeking an element follows a trail, and so finds the first element on it that is live and accepted.
No trail is longer than there are slots, which is why the bound of a walk is never used up.
-/

import FormalLanguages.Proofs.Graph

namespace FormalLanguages.Graph

variable {α β : Type} {graph : Graph α} {number : Nat} {key : Key} {keys : List Key}
  {confined : Bool} {cursor : Option Key}

/-- Finding the next element again and again meets the listed keys. -/
inductive Trail (graph : Graph α) (confined : Bool) : Option Key → List Key → Prop
  | done : Trail graph confined none []
  | step {key : Key} {next : Option Key} {rest : List Key} {entry : Entry α}
      (hentry : graph.stored? key = some entry)
      (hnext : graph.findNext key confined = .ok next) (hrest : Trail graph confined next rest) :
      Trail graph confined (some key) (key :: rest)

/-- The keys of a group's chain, or none if its links do not end. -/
def chainKeys (graph : Graph α) (number : Nat) : List Key :=
  ((graph.chain number).toOption).getD []

/-- The keys of all chains from a group on, one chain after the other. -/
def orderFrom (graph : Graph α) (number : Nat) : List Key :=
  (List.range' number (graph.groups.size - number)).flatMap graph.chainKeys

namespace Sound

variable (hsound : graph.Sound)

include hsound

theorem chain_chainKeys (hnumber : number < graph.groups.size) :
    graph.Chain number (graph.chainKeys number) := by
  obtain ⟨keys, hchain⟩ := hsound.chained number hnumber
  have hkeys : graph.chainKeys number = keys := by
    simp [chainKeys, hchain.chain_eq hnumber, Except.toOption]
  rwa [hkeys]

/-- Each group is followed by the group with the next number. -/
theorem next_eq (hnumber : number < graph.groups.size) :
    graph.groups[number].next =
      if number + 1 < graph.groups.size then some (number + 1) else none := by
  have houtline := congrArg (·[number]?) hsound.outline_eq
  simpa [outline, getElem?_outlineOf, hnumber] using houtline

end Sound

theorem orderFrom_of_size_le (hnumber : graph.groups.size ≤ number) :
    graph.orderFrom number = [] := by
  simp [orderFrom, Nat.sub_eq_zero_of_le hnumber]

theorem orderFrom_eq (hnumber : number < graph.groups.size) :
    graph.orderFrom number = graph.chainKeys number ++ graph.orderFrom (number + 1) := by
  obtain ⟨rest, hrest⟩ := Nat.exists_eq_succ_of_ne_zero (Nat.sub_ne_zero_of_lt hnumber)
  have hrest' : graph.groups.size - (number + 1) = rest := by omega
  rw [orderFrom, orderFrom, hrest, hrest', List.range'_succ, List.flatMap_cons]

section Sound

variable (hsound : graph.Sound)

include hsound

theorem mem_orderFrom :
    key ∈ graph.orderFrom number ↔
      ∃ place, graph.place? key = some place ∧ number ≤ place.group := by
  simp only [orderFrom, List.mem_flatMap, List.mem_range'_1]
  constructor
  · rintro ⟨group, ⟨hge, hlt⟩, hkey⟩
    obtain ⟨id, hplace⟩ := ((hsound.chain_chainKeys (by omega)).mem_iff key).mp hkey
    exact ⟨⟨group, id⟩, hplace, hge⟩
  · rintro ⟨place, hplace, hge⟩
    have hlt := hsound.grouped key place hplace
    exact ⟨place.group, ⟨hge, by omega⟩,
      ((hsound.chain_chainKeys hlt).mem_iff key).mpr ⟨place.id, hplace⟩⟩

theorem pairwise_orderFrom (number : Nat) :
    (graph.orderFrom number).Pairwise fun first second =>
      graph.placeAt first < graph.placeAt second := by
  refine List.pairwise_flatMap.mpr ⟨?_, ?_⟩
  · intro group hgroup
    have hbounds := List.mem_range'_1.mp hgroup
    exact (hsound.chain_chainKeys (by omega)).increasing
  · have hincreasing : (List.range' number (graph.groups.size - number)).Pairwise (· < ·) :=
      List.pairwise_lt_range'
    apply hincreasing.imp_of_mem
    intro group later hgroup hlater hlt first hfirst second hsecond
    have hbounds := List.mem_range'_1.mp hgroup
    have hbounds' := List.mem_range'_1.mp hlater
    obtain ⟨id, hplace⟩ := ((hsound.chain_chainKeys (by omega)).mem_iff first).mp hfirst
    obtain ⟨id', hplace'⟩ := ((hsound.chain_chainKeys (by omega)).mem_iff second).mp hsecond
    rw [placeAt_eq hplace, placeAt_eq hplace']
    exact .inl hlt

/-- The first element from a group on, past any number of groups without elements. -/
theorem headFrom_eq {bound : Nat} (hbound : graph.groups.size - number ≤ bound) :
    graph.headFrom bound (if number < graph.groups.size then some number else none) =
      .ok (graph.orderFrom number).head? := by
  induction bound generalizing number with
  | zero =>
      have hge : ¬number < graph.groups.size := by omega
      rw [if_neg hge, orderFrom_of_size_le (by omega)]
      rfl
  | succ bound ih =>
      by_cases hnumber : number < graph.groups.size
      · have hhead := (hsound.chain_chainKeys hnumber).head?_eq
        simp only [head?, Array.getElem?_eq_getElem hnumber, Option.bind_some] at hhead
        rw [if_pos hnumber, headFrom, group_eq hnumber, ok_bind, orderFrom_eq hnumber, hhead]
        cases hkeys : graph.chainKeys number with
        | nil =>
            rw [List.nil_append, List.head?_nil, hsound.next_eq hnumber]
            exact ih (by omega)
        | cons first rest => rfl
      · rw [if_neg hnumber, orderFrom_of_size_le (by omega)]
        rfl

theorem firstElement_eq : graph.firstElement = .ok (graph.orderFrom 0).head? := by
  have hstart : (if graph.groups.isEmpty then none else some 0) =
      if 0 < graph.groups.size then some 0 else none := by
    by_cases hsize : graph.groups.size = 0
    · simp [Array.isEmpty, hsize]
    · simp [Array.isEmpty, hsize, Nat.pos_of_ne_zero hsize]
  rw [firstElement, hstart]
  exact headFrom_eq hsound (Nat.sub_le _ _)

end Sound

section Trails

variable {number : Nat} {keys : List Key}

/-- The links of a chain are a trail that is confined to its group. -/
theorem Links.trail_confined {start : Option Key} (hlinks : graph.Links start keys none) :
    graph.Trail true start keys := by
  generalize hstop : (none : Option Key) = stop at hlinks
  induction hlinks with
  | nil =>
      subst hstop
      exact .done
  | cons hnode _ ih =>
      obtain ⟨cell, hcell, rfl⟩ := node?_eq_some_iff.mp hnode
      refine .step (stored?_eq_entry hcell) ?_ (ih hstop)
      cases hnext : cell.content.next <;> simp [findNext, Store.get_eq hcell, hnext]

/-- The end of a group's chain and the chains behind it are a trail. -/
theorem Links.trail_behind (hsound : graph.Sound) (hnumber : number < graph.groups.size)
    (hbehind : graph.Trail false (graph.orderFrom (number + 1)).head?
      (graph.orderFrom (number + 1)))
    {start : Option Key} (hlinks : graph.Links start keys none)
    (hgroup : ∀ key ∈ keys, ∃ id, graph.place? key = some ⟨number, id⟩) :
    graph.Trail false (keys ++ graph.orderFrom (number + 1)).head?
      (keys ++ graph.orderFrom (number + 1)) := by
  generalize hstop : (none : Option Key) = stop at hlinks
  induction hlinks with
  | nil => exact hbehind
  | @cons key node rest stop hnode hrest ih =>
      subst hstop
      obtain ⟨cell, hcell, rfl⟩ := node?_eq_some_iff.mp hnode
      have htrail := ih (fun key hkey => hgroup key (List.mem_cons_of_mem _ hkey)) rfl
      refine .step (stored?_eq_entry hcell) ?_ htrail
      have hstart := hrest.start_eq_head?
      cases rest with
      | cons second others => simp [findNext, Store.get_eq hcell, hstart]
      | nil =>
          -- At the end of the chain the walk goes on to the groups behind.
          obtain ⟨id, hplace⟩ := hgroup key List.mem_cons_self
          have hown : cell.content.group = number := by
            rw [place?_of_node? hnode] at hplace
            exact congrArg Place.group (Option.some.inj hplace)
          have hnext : cell.content.next = none := hstart
          have hhead := headFrom_eq hsound (Nat.sub_le graph.groups.size (number + 1))
          rw [← hsound.next_eq hnumber] at hhead
          simp [findNext, Store.get_eq hcell, hnext, hown, group_eq hnumber, hhead]

theorem trail_orderFrom (hsound : graph.Sound) (number : Nat) :
    graph.Trail false (graph.orderFrom number).head? (graph.orderFrom number) := by
  generalize hleft : graph.groups.size - number = left
  induction left generalizing number with
  | zero =>
      rw [orderFrom_of_size_le (by omega)]
      exact .done
  | succ left ih =>
      have hnumber : number < graph.groups.size := by omega
      have hchain := hsound.chain_chainKeys hnumber
      rw [orderFrom_eq hnumber]
      exact hchain.links.trail_behind hsound hnumber (ih (number + 1) (by omega))
        fun key hkey => (hchain.mem_iff key).mp hkey

/-- A trail that meets just the elements of a region, in the order of their places. -/
structure Ahead (graph : Graph α) (confined : Bool) (region : Place → Prop)
    (cursor : Option Key) (keys : List Key) : Prop where
  trail : graph.Trail confined cursor keys
  mem_iff : ∀ key, key ∈ keys ↔ ∃ place, graph.place? key = some place ∧ region place
  increasing : keys.Pairwise fun first second => graph.placeAt first < graph.placeAt second

/-- From the first element a trail meets all. -/
theorem ahead_firstElement (hsound : graph.Sound) :
    ∃ cursor keys, graph.firstElement = .ok cursor ∧
      graph.Ahead false (fun _ => True) cursor keys := by
  refine ⟨_, _, firstElement_eq hsound, trail_orderFrom hsound 0, fun key => ?_,
    pairwise_orderFrom hsound 0⟩
  simp [mem_orderFrom hsound]

/-- From the head of a group a confined trail meets the elements of the group, in the order of its
chain. -/
theorem ahead_chainKeys {number : Nat} (hsound : graph.Sound)
    (hnumber : number < graph.groups.size) :
    graph.Ahead true (·.group = number) (graph.head? number) (graph.chainKeys number) := by
  have hchain := hsound.chain_chainKeys hnumber
  refine ⟨hchain.links.trail_confined, fun key => ?_, hchain.increasing⟩
  rw [hchain.mem_iff]
  constructor
  · rintro ⟨id, hplace⟩
    exact ⟨_, hplace, rfl⟩
  · rintro ⟨place, hplace, rfl⟩
    exact ⟨place.id, hplace⟩

theorem ahead_head? (hsound : graph.Sound) (number : Nat) :
    ∃ keys, graph.Ahead true (·.group = number) (graph.head? number) keys := by
  by_cases hnumber : number < graph.groups.size
  · exact ⟨_, ahead_chainKeys hsound hnumber⟩
  · rw [head?_of_size_le (by omega)]
    refine ⟨[], .done, fun key => ?_, .nil⟩
    constructor
    · intro hkey
      cases hkey
    · rintro ⟨place, hplace, rfl⟩
      exact absurd (hsound.grouped key place hplace) hnumber

/-- The places behind a place: all of them, or those of its group. -/
def Behind (confined : Bool) (place other : Place) : Prop :=
  place < other ∧ (confined = true → other.group = place.group)

/-- The successors of an element in its chain are the elements of its group behind it. -/
theorem Chain.mem_post_iff {pre post : List Key} {place : Place}
    (hchain : graph.Chain place.group (pre ++ key :: post))
    (hplace : graph.place? key = some place) (other : Key) :
    other ∈ post ↔ ∃ place', graph.place? other = some place' ∧ Behind true place place' := by
  obtain ⟨-, hpost, hacross⟩ := List.pairwise_append.mp hchain.increasing
  have hafter := (List.pairwise_cons.mp hpost).1
  constructor
  · intro hother
    obtain ⟨id, hid⟩ := (hchain.mem_iff other).mp
      (List.mem_append_right _ (List.mem_cons_of_mem key hother))
    have hlt := hafter other hother
    rw [placeAt_eq hplace, placeAt_eq hid] at hlt
    exact ⟨_, hid, hlt, fun _ => rfl⟩
  · rintro ⟨place', hplace', hlt, hgroup⟩
    have hmem : other ∈ pre ++ key :: post :=
      (hchain.mem_iff other).mpr ⟨place'.id, by rw [hplace', ← hgroup rfl]⟩
    rcases List.mem_append.mp hmem with hpre | htail
    · have hgt := hacross other hpre key List.mem_cons_self
      rw [placeAt_eq hplace, placeAt_eq hplace'] at hgt
      exact absurd (Place.lt_trans hgt hlt) (Place.lt_irrefl _)
    · rcases List.mem_cons.mp htail with rfl | hrest
      · rw [hplace] at hplace'
        cases hplace'
        exact absurd hlt (Place.lt_irrefl _)
      · exact hrest

/-- The walk goes on from an element to the elements behind it. -/
theorem ahead_behind (hsound : graph.Sound) (confined : Bool) {place : Place}
    (hplace : graph.place? key = some place) :
    ∃ next rest, graph.findNext key confined = .ok next ∧
      graph.Ahead confined (Behind confined place) next rest := by
  have hnumber := hsound.grouped key place hplace
  obtain ⟨pre, post, hchain⟩ := hsound.exists_chain hplace
  obtain ⟨-, hpostIncreasing, -⟩ := List.pairwise_append.mp hchain.increasing
  obtain ⟨middle, _, htail⟩ := Links.append_iff.mp hchain.links
  obtain rfl := (Links.cons_iff.mp htail).1
  cases confined with
  | true =>
      cases htail.trail_confined with
      | step _ hnext hrest =>
          exact ⟨_, post, hnext, hrest, hchain.mem_post_iff hplace,
            (List.pairwise_cons.mp hpostIncreasing).2⟩
  | false =>
      have hgroup (other : Key) (hother : other ∈ key :: post) :
          ∃ id, graph.place? other = some ⟨place.group, id⟩ :=
        (hchain.mem_iff other).mp (List.mem_append_right _ hother)
      cases htail.trail_behind hsound hnumber (trail_orderFrom hsound _) hgroup with
      | step _ hnext hrest =>
          refine ⟨_, post ++ graph.orderFrom (place.group + 1), hnext, hrest, ?_, ?_⟩
          · intro other
            rw [List.mem_append, hchain.mem_post_iff hplace, mem_orderFrom hsound]
            constructor
            · rintro (⟨place', hplace', hlt, -⟩ | ⟨place', hplace', hlt⟩)
              · exact ⟨place', hplace', hlt, fun h => by cases h⟩
              · exact ⟨place', hplace', .inl hlt, fun h => by cases h⟩
            · rintro ⟨place', hplace', hlt, -⟩
              rcases hlt with hlt | ⟨heq, hlt⟩
              · exact .inr ⟨place', hplace', hlt⟩
              · exact .inl ⟨place', hplace', .inr ⟨heq, hlt⟩, fun _ => heq.symm⟩
          · refine List.pairwise_append.mpr ⟨(List.pairwise_cons.mp hpostIncreasing).2,
              pairwise_orderFrom hsound _, fun first hfirst second hsecond => ?_⟩
            obtain ⟨id, hid⟩ := hgroup first (List.mem_cons_of_mem key hfirst)
            obtain ⟨place', hplace', hlt⟩ := (mem_orderFrom hsound).mp hsecond
            rw [placeAt_eq hid, placeAt_eq hplace']
            exact .inl hlt

end Trails

end FormalLanguages.Graph
