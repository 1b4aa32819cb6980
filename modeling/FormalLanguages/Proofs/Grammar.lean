/-
# The index of a grammar files its stored productions

A grammar is sound if its graph is, and if the index files every stored production once, under its
own group and the fingerprint of its right-hand side, and files nothing else.  Looking for a live
production therefore never comes upon a key whose production has been freed.

Variables are numbered by 32-bit symbols, so a production that was added belongs to a group whose
variable can be told from all others.  This is why a pattern that names a variable only matches
productions of its group.
-/

import FormalLanguages.Proofs.Checks
import FormalLanguages.Proofs.Container
import FormalLanguages.Proofs.Table

namespace FormalLanguages.Grammar

variable {A : Type} {grammar : Grammar A} {key : Key} {entry : Entry SymbolString}

/-- The keys in a file of an index. -/
def fileOf (index : Table (Nat × Fingerprint) (List Key)) (place : Nat × Fingerprint) : List Key :=
  (index.get? place).getD []

/-- The file to which a production belongs. -/
def placeOf (group : Nat) (rhs : SymbolString) : Nat × Fingerprint := (group, rhs.fingerprint)

/-- A grammar whose index files the stored productions. -/
structure Sound (grammar : Grammar A) : Prop where
  graph : grammar.graph.Sound
  filed : ∀ place key, key ∈ fileOf grammar.index place ↔
    ∃ entry, grammar.graph.stored? key = some entry ∧ placeOf entry.group entry.data = place
  nodup : ∀ place, (fileOf grammar.index place).Nodup
  nonempty : ∀ place, grammar.index.get? place ≠ some []
  /-- The variable of a stored production has a number that a symbol can hold. -/
  named : ∀ key entry, grammar.graph.stored? key = some entry → entry.group + 1 < 2147483648

theorem stored?_empty (key : Key) : (empty : Grammar A).graph.stored? key = none :=
  Graph.stored?_empty .production key

theorem sound_empty : (empty : Grammar A).Sound where
  graph := Graph.sound_empty .production
  filed place key := by simp [fileOf, empty]
  nodup place := List.nodup_nil
  nonempty place := by simp [empty]
  named key entry hentry := by simp [empty] at hentry

/-- A change of the alphabet leaves a grammar sound. -/
theorem Sound.withAlphabet (hsound : grammar.Sound) (alphabet : Alphabet A) :
    { grammar with alphabet }.Sound :=
  ⟨hsound.graph, hsound.filed, hsound.nodup, hsound.nonempty, hsound.named⟩

/-- A change that keeps all that is stored leaves a grammar sound. -/
theorem Sound.withGraph {graph : Graph SymbolString} (hsound : grammar.Sound)
    (hgraph : graph.Sound) (hpersists : grammar.graph.Persists graph) :
    { grammar with graph }.Sound := by
  refine ⟨hgraph, fun place key => (hsound.filed place key).trans ?_, hsound.nodup,
    hsound.nonempty, ?_⟩
  · constructor
    · rintro ⟨entry, hentry, hplace⟩
      obtain ⟨now, hnow, hbecomes⟩ := hpersists.kept key entry hentry
      exact ⟨now, hnow, by rw [hbecomes.group_eq, hbecomes.data_eq, hplace]⟩
    · rintro ⟨now, hnow, hplace⟩
      obtain ⟨entry, hentry, hbecomes⟩ := hpersists.origin key now hnow
      exact ⟨entry, hentry, by rw [← hplace, hbecomes.group_eq, hbecomes.data_eq]⟩
  · intro key now hnow
    obtain ⟨entry, hentry, hbecomes⟩ := hpersists.origin key now hnow
    exact hbecomes.group_eq ▸ hsound.named key entry hentry

/-- Adding variables adds groups, and names them in order. -/
theorem Sound.addVariables_spec (hsound : grammar.Sound) (count : Nat) :
    ∃ graph, grammar.addVariables count =
        .ok ((List.range' grammar.graph.groups.size count).map variableOf,
          { grammar with graph }) ∧
      { grammar with graph }.Sound ∧ grammar.graph.Widened graph count := by
  induction count generalizing grammar with
  | zero => exact ⟨grammar.graph, rfl, hsound, .refl _⟩
  | succ count ih =>
      obtain ⟨middle, hadd, hextended⟩ := Graph.addGroup_spec hsound.graph
      have hwidened := hextended.widened
      have hmiddle : { grammar with graph := middle }.Sound :=
        hsound.withGraph (hextended.sound hsound.graph) hwidened.persists
      obtain ⟨graph, hrest, hafter, hwidenedRest⟩ := ih hmiddle
      refine ⟨graph, ?_, hafter, Nat.add_comm 1 count ▸ hwidened.trans hwidenedRest⟩
      simp only [hwidened.size_eq] at hrest
      simp [addVariables, addVariable, hadd, hrest, List.range'_succ]

/-- The group of a variable that passes its check has been added, and a symbol can hold the
variable. -/
theorem checkVariable_spec {x : Symbol} {group : Nat}
    (hcheck : grammar.checkVariable x = .ok group) :
    group < grammar.graph.groups.size ∧ group + 1 < 2147483648 := by
  have ⟨hx, hlt⟩ := checkVariable_eq_ok_iff.mp hcheck
  have hbound := x.value.toInt_lt
  exact ⟨hlt, by omega⟩

/-- Looking for a live production ends without a fault.  What it finds is the production that is
wanted, and if it finds nothing then there is no such production that is live. -/
theorem Sound.findLive_spec (hsound : grammar.Sound) (group : Nat) (rhs : SymbolString) :
    ∃ found, grammar.findLive group rhs = .ok found ∧
      (∀ key, found = some key → ∃ entry, grammar.graph.stored? key = some entry ∧
        entry.deleted = false ∧ entry.group = group ∧ entry.data = rhs) ∧
      (found = none → ∀ key entry, grammar.graph.stored? key = some entry →
        entry.group = group → entry.data = rhs → entry.deleted = true) := by
  let holds (key : Key) : Bool :=
    (grammar.graph.stored? key).any fun entry => !entry.deleted && entry.data == rhs
  have htest (key : Key) (hkey : key ∈ fileOf grammar.index (placeOf group rhs)) :
      (do
        let element ← grammar.graph.element key
        return !element.deleted && element.data == rhs) = Except.ok (holds key) := by
    obtain ⟨entry, hentry, -⟩ := (hsound.filed _ key).mp hkey
    simp [Graph.element_of_stored hentry, holds, hentry]
  refine ⟨_, findM?_eq_ok _ htest, fun key hfound => ?_,
    fun hnone key entry hentry hgroup hdata => ?_⟩
  · obtain ⟨entry, hentry, hplace⟩ := (hsound.filed _ key).mp (List.mem_of_find?_eq_some hfound)
    have hholds := List.find?_some hfound
    simp only [holds, hentry, Option.any_some, Bool.and_eq_true, Bool.not_eq_true',
      beq_iff_eq] at hholds
    exact ⟨entry, hentry, hholds.1, congrArg Prod.fst hplace, hholds.2⟩
  · have hkey : key ∈ fileOf grammar.index (placeOf group rhs) :=
      (hsound.filed _ key).mpr ⟨entry, hentry, by rw [hgroup, hdata]⟩
    have hholds := List.find?_eq_none.mp hnone key hkey
    simpa [holds, hentry, hdata] using hholds

/-- Filing one more key under a place changes what is filed there and nowhere else. -/
theorem fileOf_insert (index : Table (Nat × Fingerprint) (List Key))
    (filed place : Nat × Fingerprint) (keys : List Key) :
    fileOf (index.insert filed keys) place =
      if place = filed then keys else fileOf index place := by
  unfold fileOf
  rw [Table.get?_insert]
  split <;> rfl

/-- A new production may be filed behind all others with its variable and its fingerprint. -/
theorem Sound.inserted (hsound : grammar.Sound) {group : Nat} {rhs : SymbolString} {key : Key}
    {graph : Graph SymbolString} (hgroup : group < grammar.graph.groups.size)
    (hnamed : group + 1 < 2147483648)
    (happended : grammar.graph.Appended group rhs key graph) :
    { grammar with
      graph
      index := grammar.index.insert (placeOf group rhs)
        (fileOf grammar.index (placeOf group rhs) ++ [key]) }.Sound := by
  have hentries := happended.stored?_eq
  have hunfiled (place : Nat × Fingerprint) : key ∉ fileOf grammar.index place := by
    intro hmem
    obtain ⟨entry, hentry, -⟩ := (hsound.filed place key).mp hmem
    rw [happended.stored?_key] at hentry
    cases hentry
  refine ⟨happended.sound hsound.graph hgroup, ?_, ?_, ?_, ?_⟩
  · intro place other
    change other ∈ fileOf (grammar.index.insert _ _) place ↔ _
    rw [fileOf_insert, hentries]
    have hother := hsound.filed place other
    by_cases heq : other = key
    · subst heq
      have hnot := hunfiled place
      by_cases hplace : place = placeOf group rhs
      · simp [hplace]
      · simp [hplace, hnot, eq_comm]
    · by_cases hplace : place = placeOf group rhs
      · subst hplace
        simp [heq, hother]
      · simp [heq, hplace, hother]
  · intro place
    change (fileOf (grammar.index.insert _ _) place).Nodup
    rw [fileOf_insert]
    split
    · refine List.nodup_append.mpr ⟨hsound.nodup _, by simp, ?_⟩
      intro first hfirst second hsecond heq
      exact hunfiled _ (List.mem_singleton.mp hsecond ▸ heq ▸ hfirst)
    · exact hsound.nodup place
  · intro place
    change (grammar.index.insert _ _).get? place ≠ some []
    rw [Table.get?_insert]
    split
    · simp
    · exact hsound.nonempty place
  · intro other entry hentry
    change graph.stored? other = some entry at hentry
    rw [hentries] at hentry
    split at hentry
    · cases hentry
      exact hnamed
    · exact hsound.named other entry hentry

/-- Storing a production appends it to its group and files it, as long as there is a number left. -/
theorem Sound.insert_spec (hsound : grammar.Sound) {group : Nat}
    (hgroup : group < grammar.graph.groups.size) {nextId : Index}
    (hroom : grammar.graph.nextId.succ = .ok nextId) (rhs : SymbolString) :
    ∃ key graph, grammar.graph.Appended group rhs key graph ∧
      grammar.insert group rhs = .ok (key, { grammar with
        graph
        index := grammar.index.insert (placeOf group rhs)
          (fileOf grammar.index (placeOf group rhs) ++ [key]) }) := by
  obtain ⟨key, graph, happend, happended⟩ := Graph.append_spec hsound.graph hgroup hroom rhs
  refine ⟨key, graph, happended, ?_⟩
  simp only [insert, happend, ok_bind, pure_eq_ok]
  rfl

/-- The variable of a production that passes its checks has been added. -/
theorem checkVariable_of_checkProduction {lhs : Symbol} {rhs : SymbolString} {group : Nat}
    (hcheck : grammar.checkProduction lhs rhs = .ok group) :
    grammar.checkVariable lhs = .ok group := by
  obtain ⟨found, hvariable, hrest⟩ := bind_eq_ok.mp hcheck
  obtain ⟨_, -, heq⟩ := bind_eq_ok.mp hrest
  cases heq
  exact hvariable

/-- What adding a production may come to: a refusal, the production that is there, a new one that no
live one equals, or the fault that there is no number left. -/
inductive Addition (grammar : Grammar A) (lhs : Symbol) (rhs : SymbolString) :
    Except Fault (Except Refusal (Key × Grammar A)) → Prop
  | refused {refusal : Refusal} (hcheck : grammar.checkProduction lhs rhs = .error refusal) :
      Addition grammar lhs rhs (.ok (.error refusal))
  | found {group : Nat} {key : Key} {entry : Entry SymbolString}
      (hcheck : grammar.checkProduction lhs rhs = .ok group)
      (hentry : grammar.graph.stored? key = some entry) (hlive : entry.deleted = false)
      (hgroup : entry.group = group) (hdata : entry.data = rhs) :
      Addition grammar lhs rhs (.ok (.ok (key, grammar)))
  | created {group : Nat} {key : Key} {graph : Graph SymbolString}
      (hcheck : grammar.checkProduction lhs rhs = .ok group)
      (hnone : ∀ key entry, grammar.graph.stored? key = some entry → entry.group = group →
        entry.data = rhs → entry.deleted = true)
      (happended : grammar.graph.Appended group rhs key graph) :
      Addition grammar lhs rhs (.ok (.ok (key, { grammar with
        graph
        index := grammar.index.insert (placeOf group rhs)
          (fileOf grammar.index (placeOf group rhs) ++ [key]) })))
  | exhausted {group : Nat} (hcheck : grammar.checkProduction lhs rhs = .ok group)
      (hnone : ∀ key entry, grammar.graph.stored? key = some entry → entry.group = group →
        entry.data = rhs → entry.deleted = true)
      (hfull : grammar.graph.nextId.succ = .error (.overflow grammar.graph.nextId.kind)) :
      Addition grammar lhs rhs (.error (.overflow grammar.graph.nextId.kind))

/-- Adding a production finds the one that is there or files a new one. -/
theorem Sound.addProduction_spec (hsound : grammar.Sound) (lhs : Symbol) (rhs : SymbolString) :
    grammar.Addition lhs rhs (grammar.addProduction lhs rhs) := by
  cases hcheck : grammar.checkProduction lhs rhs with
  | error refusal =>
      simp only [addProduction, hcheck, pure_eq_ok]
      exact .refused hcheck
  | ok group =>
      obtain ⟨hlt, -⟩ := checkVariable_spec (checkVariable_of_checkProduction hcheck)
      obtain ⟨found, hfind, hfound, hnone⟩ := hsound.findLive_spec group rhs
      simp only [addProduction, hcheck, hfind, ok_bind, pure_eq_ok]
      cases found with
      | some key =>
          obtain ⟨entry, hentry, hlive, hgroup, hdata⟩ := hfound key rfl
          exact .found hcheck hentry hlive hgroup hdata
      | none =>
          rcases grammar.graph.nextId.succ_eq with ⟨nextId, hroom⟩ | hfull
          · obtain ⟨key, graph, happended, hinsert⟩ := hsound.insert_spec hlt hroom rhs
            simp only [hinsert, ok_bind]
            exact .created hcheck (hnone rfl) happended
          · have hinsert : grammar.insert group rhs =
                .error (.overflow grammar.graph.nextId.kind) := by
              simp [insert, Graph.append_eq_overflow hlt hfull]
            simp only [hinsert, error_bind]
            exact .exhausted hcheck (hnone rfl) hfull

/-- Removing a variable's productions leaves them filed as tombstones. -/
theorem Sound.removeVariable_spec (hsound : grammar.Sound) (x : Symbol) :
    (∃ refusal, grammar.checkVariable x = .error refusal ∧
      grammar.removeVariable x = .ok (.error refusal)) ∨
    ∃ group count graph, grammar.checkVariable x = .ok group ∧
      grammar.removeVariable x = .ok (.ok (count, { grammar with graph })) ∧ graph.Sound ∧
      graph.size + count = grammar.graph.size ∧
      grammar.graph.Removed graph fun _ element => element.group == group := by
  cases hcheck : grammar.checkVariable x with
  | error refusal => exact .inl ⟨refusal, rfl, by simp [removeVariable, hcheck]⟩
  | ok group =>
      obtain ⟨count, graph, hremove, hgraph, hsize, hremoved⟩ :=
        Graph.removeGroup_removed hsound.graph (checkVariable_spec hcheck).1
      exact .inr ⟨group, count, graph, rfl, by simp [removeVariable, hcheck, hremove], hgraph,
        hsize, hremoved⟩

section Unfile

variable {index : Table (Nat × Fingerprint) (List Key)} {node : Node SymbolString}

/-- Taking a production out of its file leaves all other files as they are, and no file that is
empty. -/
theorem get?_unfile (index : Table (Nat × Fingerprint) (List Key)) (key : Key)
    (node : Node SymbolString) (place : Nat × Fingerprint) :
    (unfile index key node).get? place =
      if place = placeOf node.group node.data then
        if (fileOf index place).filter (· ≠ key) = [] then none
        else some ((fileOf index place).filter (· ≠ key))
      else index.get? place := by
  cases hkeys : index.get? (placeOf node.group node.data) with
  | none =>
      have hunfile : unfile index key node = index := by
        rw [placeOf] at hkeys
        simp only [unfile, hkeys]
      rw [hunfile]
      split
      · next heq => simp [heq, hkeys, fileOf]
      · rfl
  | some keys =>
      have hunfile : unfile index key node =
          if (keys.filter (· ≠ key)).isEmpty then index.erase (placeOf node.group node.data)
          else index.insert (placeOf node.group node.data) (keys.filter (· ≠ key)) := by
        rw [placeOf] at hkeys
        simp only [unfile, hkeys, placeOf]
      rw [hunfile]
      by_cases hplace : place = placeOf node.group node.data
      · subst hplace
        by_cases hempty : keys.filter (· ≠ key) = []
        · rw [if_pos (List.isEmpty_iff.mpr hempty), Table.get?_erase, if_pos rfl, if_pos rfl,
            fileOf, hkeys, Option.getD_some, if_pos hempty]
        · rw [if_neg fun h => hempty (List.isEmpty_iff.mp h), Table.get?_insert, if_pos rfl,
            if_pos rfl, fileOf, hkeys, Option.getD_some, if_neg hempty]
      · rw [if_neg hplace]
        split
        · rw [Table.get?_erase, if_neg hplace]
        · rw [Table.get?_insert, if_neg hplace]

theorem fileOf_unfile (index : Table (Nat × Fingerprint) (List Key)) (key : Key)
    (node : Node SymbolString) (place : Nat × Fingerprint) :
    fileOf (unfile index key node) place =
      if place = placeOf node.group node.data then (fileOf index place).filter (· ≠ key)
      else fileOf index place := by
  rw [fileOf, get?_unfile]
  split
  · split
    · next hempty => exact hempty.symm
    · rfl
  · rfl

theorem unfile_nonempty (hnonempty : ∀ place, index.get? place ≠ some [])
    (place : Nat × Fingerprint) : (unfile index key node).get? place ≠ some [] := by
  rw [get?_unfile]
  split
  · split
    · intro heq
      cases heq
    · next hleft => exact fun heq => hleft (Option.some.inj heq)
  · exact hnonempty place

/-- Taking freed productions out of their files keeps files free of repetitions, and keeps no file
that is empty. -/
theorem foldl_unfile (freed : List (Key × Node SymbolString))
    (hnodup : ∀ place, (fileOf index place).Nodup)
    (hnonempty : ∀ place, index.get? place ≠ some []) (place : Nat × Fingerprint) :
    (fileOf (freed.foldl (fun index (key, node) => unfile index key node) index) place).Nodup ∧
      (freed.foldl (fun index (key, node) => unfile index key node) index).get? place ≠
        some [] := by
  induction freed generalizing index with
  | nil => exact ⟨hnodup place, hnonempty place⟩
  | cons first rest ih =>
      refine ih (fun place => ?_) fun place => unfile_nonempty hnonempty place
      rw [fileOf_unfile]
      split
      · exact (hnodup place).filter _
      · exact hnodup place

end Unfile

/-- Reclaiming a grammar is reclaiming its graph and taking the freed productions out of their
files. -/
theorem reclaim_eq (grammar : Grammar A) :
    grammar.reclaim = (do
      let (freed, graph) ← grammar.graph.reclaim
      let index := freed.foldl (fun index (key, node) => unfile index key node) grammar.index
      return (freed.length, { grammar with graph, index })) := by
  simp only [reclaim, Graph.reclaimFiled_eq, bind_assoc]
  rfl

/-- Reclaiming takes the freed productions out of the index. -/
theorem Sound.reclaim_spec (hsound : grammar.Sound) :
    ∃ count after, grammar.reclaim = .ok (count, after) ∧ after.Sound ∧
      grammar.graph.Swept grammar.graph.store.reclaimable after.graph := by
  obtain ⟨freed, graph, hreclaim, hgraph, hswept, -, hreleased⟩ :=
    Graph.reclaim_swept hsound.graph
  let index := freed.foldl (fun index (key, node) => unfile index key node) grammar.index
  have hlisted := listed_foldl unfile (fun node => placeOf node.group node.data)
    (fun index place key => key ∈ fileOf index place)
    (fun index key node place other => by
      rw [fileOf_unfile]
      split
      · next heq => simp [heq]
      · next hne => simp [eq_comm, hne]) freed grammar.index
  have hkeep := foldl_unfile freed hsound.nodup hsound.nonempty
  refine ⟨freed.length, { grammar with graph, index }, by simp [reclaim_eq, hreclaim, index],
    ⟨hgraph, ?_, fun place => (hkeep place).1, fun place => (hkeep place).2,
      ?_⟩, hswept⟩
  · intro place key
    rw [hlisted, hsound.filed, hswept.stored?_eq]
    constructor
    · rintro ⟨⟨entry, hentry, hplace⟩, hnot⟩
      have hkey : key ∉ grammar.graph.store.reclaimable := by
        intro hmem
        obtain ⟨node, hnode, hgroup, hdata⟩ := hreleased.exists_node hmem hentry
        exact hnot node hnode (by rw [hgroup, hdata, hplace])
      exact ⟨entry, by rw [if_neg hkey, hentry], hplace⟩
    · rintro ⟨entry, hentry, hplace⟩
      split at hentry
      · cases hentry
      · next hkey =>
          exact ⟨⟨entry, hentry, hplace⟩, fun node hnode =>
            absurd (hreleased.mem_keys hnode) hkey⟩
  · intro key entry hentry
    change graph.stored? key = some entry at hentry
    rw [hswept.stored?_eq] at hentry
    split at hentry
    · cases hentry
    · exact hsound.named key entry hentry

/-- A search for variables knows where to start. -/
theorem Sound.firstGroup_spec (hsound : grammar.Sound) :
    ∃ group, grammar.firstGroup = .ok group := by
  obtain ⟨cursor, keys, hfirst, hahead⟩ := Graph.ahead_firstElement hsound.graph
  cases cursor with
  | none => exact ⟨0, by simp [firstGroup, hfirst]⟩
  | some key =>
      obtain ⟨entry, hentry⟩ := hahead.positioned key rfl
      exact ⟨entry.group, by simp [firstGroup, hfirst, Graph.element_of_stored hentry]⟩

/-- The number of the variable of a group, if a symbol can hold it. -/
theorem variableId_variableOf {group : Nat} (hnamed : group + 1 < 2147483648) :
    (variableOf group).variableId = some (group + 1) := by
  have hvalue : (Int32.ofNat (group + 1)).toInt = group + 1 := by
    exact_mod_cast Int32.toInt_ofNat_of_lt hnamed
  have hpos : 0 < Int32.ofNat (group + 1) := by
    rw [Int32.lt_iff_toInt_lt, hvalue]
    exact Int.lt_add_one_of_le (Int.natCast_nonneg group)
  have hvariable : (variableOf group).isVariable = true := decide_eq_true hpos
  rw [Symbol.variableId, if_pos hvariable]
  exact congrArg some (by rw [variableOf, Symbol.ofVariable, hvalue]; rfl)

/-- A pattern asks for slots that its terms name. -/
theorem Pattern.named {pattern : Pattern} {production : Production} {slot : Nat} {value : Binding}
    (hasked : .bind slot value ∈ pattern.constraints production) :
    ∃ word, some word ∈ pattern.slots ∧ slot = word.toNat := by
  obtain ⟨lhs, rhs⟩ := pattern
  cases Pattern.binds_constraints.mp (Constraint.exists_binds_iff.mpr hasked) with
  | @lhs word hterm =>
      exact ⟨word, List.mem_cons.mpr (.inl (Term.slot?_eq_some_iff.mpr hterm).symm), rfl⟩
  | @whole word hterm =>
      cases hterm
      exact ⟨word, List.mem_cons_of_mem _ List.mem_cons_self, rfl⟩
  | @position word place terms x hterms hterm _ =>
      cases hterms
      refine ⟨word, List.mem_cons_of_mem _ ?_, rfl⟩
      exact List.mem_map.mpr ⟨.bind word, List.mem_of_getElem? hterm, rfl⟩

/-- Where a pattern fits a production, it asks for every slot that its terms name. -/
theorem Pattern.asked {pattern : Pattern} {production : Production}
    (hfits : ∀ constraint ∈ pattern.constraints production, constraint.Fits) {word : UInt64}
    (hnamed : some word ∈ pattern.slots) :
    ∃ value, .bind word.toNat value ∈ pattern.constraints production := by
  obtain ⟨lhs, rhs⟩ := pattern
  suffices hbinds : ∃ value, Pattern.Binds ⟨lhs, rhs⟩ production word.toNat value by
    obtain ⟨value, hvalue⟩ := hbinds
    exact ⟨value, Constraint.exists_binds_iff.mp (Pattern.binds_constraints.mpr hvalue)⟩
  rcases List.mem_cons.mp hnamed with hlhs | hrhs
  · exact ⟨_, .lhs (Term.slot?_eq_some_iff.mp hlhs.symm)⟩
  · cases rhs with
    | whole term =>
        have hterm := Term.slot?_eq_some_iff.mp (List.mem_singleton.mp hrhs).symm
        exact ⟨_, .whole (congrArg RhsPattern.whole hterm)⟩
    | positional terms =>
        obtain ⟨term, hmem, hslot⟩ := List.mem_map.mp hrhs
        cases Term.slot?_eq_some_iff.mp hslot
        obtain ⟨place, hterm⟩ := List.mem_iff_getElem?.mp hmem
        have hlength := (Pattern.fits_constraints.mp hfits).length terms rfl
        have hlt : place < production.rhs.symbols.length :=
          Nat.lt_of_lt_of_eq (List.getElem?_eq_some_iff.mp hterm).1 hlength
        exact ⟨_, .position rfl hterm (List.getElem?_eq_getElem hlt)⟩

/-- A pattern that names a variable rejects productions of other groups. -/
theorem Pattern.scope_spec [DecidableEq A] {pattern : Pattern} {element : Element SymbolString}
    {group : Nat} (hnamed : element.group + 1 < 2147483648)
    (hslots : slotsOf (C := Grammar A) pattern element ≠ .ok none)
    (hscope : pattern.scope = some group) : element.group = group := by
  obtain ⟨lhs, rhs⟩ := pattern
  cases lhs with
  | any => cases hscope
  | bind slot => cases hscope
  | is x =>
      by_cases hvariable : x = variableOf element.group
      · subst hvariable
        simpa [scope, variableId_variableOf hnamed] using hscope
      · exact absurd (slotsOf_rejected (congrArg (Constraint.require · :: _)
          (beq_false_of_ne hvariable))) hslots

section Effects

variable [DecidableEq A]

/-- What a change of a grammar comes to: more variables, more terminals, a refusal of one of the two
changes that check their symbols, a production that is there or a new one, the removal of a
variable's productions, or the fault that there is no number left. -/
inductive Effect (grammar : Grammar A) : Edit A → Except Fault (Answer × Grammar A) → Prop
  | widened {count : Nat} {graph : Graph SymbolString} (hafter : { grammar with graph }.Sound)
      (hwidened : grammar.graph.Widened graph count) :
      Effect grammar (.addVariables count)
        (.ok (.symbols ((List.range' grammar.graph.groups.size count).map variableOf),
          { grammar with graph }))
  | interned (values : List A) :
      Effect grammar (.intern values)
        (.ok (.symbols (grammar.alphabet.internAll values).1,
          { grammar with alphabet := (grammar.alphabet.internAll values).2 }))
  | refusedProduction {lhs : Symbol} {rhs : SymbolString} {refusal : Refusal}
      (hcheck : grammar.checkProduction lhs rhs = .error refusal) :
      Effect grammar (.addProduction lhs rhs) (.ok (.refused refusal, grammar))
  | refusedVariable {x : Symbol} {refusal : Refusal}
      (hcheck : grammar.checkVariable x = .error refusal) :
      Effect grammar (.removeVariable x) (.ok (.refused refusal, grammar))
  | found {lhs : Symbol} {rhs : SymbolString} {group : Nat} {key : Key}
      {entry : Entry SymbolString} (hcheck : grammar.checkProduction lhs rhs = .ok group)
      (hentry : grammar.graph.stored? key = some entry) (hlive : entry.deleted = false)
      (hgroup : entry.group = group) (hdata : entry.data = rhs) :
      Effect grammar (.addProduction lhs rhs) (.ok (.element key, grammar))
  | created {lhs : Symbol} {rhs : SymbolString} {group : Nat} {key : Key}
      {graph : Graph SymbolString} {index : Table (Nat × Fingerprint) (List Key)}
      (hcheck : grammar.checkProduction lhs rhs = .ok group)
      (hnone : ∀ key entry, grammar.graph.stored? key = some entry → entry.group = group →
        entry.data = rhs → entry.deleted = true)
      (hafter : { grammar with graph, index }.Sound)
      (happended : grammar.graph.Appended group rhs key graph) :
      Effect grammar (.addProduction lhs rhs) (.ok (.element key, { grammar with graph, index }))
  | removed {x : Symbol} {group count : Nat} {graph : Graph SymbolString}
      (hcheck : grammar.checkVariable x = .ok group) (hafter : { grammar with graph }.Sound)
      (hsize : graph.size + count = grammar.graph.size)
      (hremoved : grammar.graph.Removed graph fun _ element => element.group == group) :
      Effect grammar (.removeVariable x) (.ok (.count count, { grammar with graph }))
  | exhausted {lhs : Symbol} {rhs : SymbolString} {group : Nat}
      (hcheck : grammar.checkProduction lhs rhs = .ok group)
      (hnone : ∀ key entry, grammar.graph.stored? key = some entry → entry.group = group →
        entry.data = rhs → entry.deleted = true)
      (hfull : grammar.graph.nextId.succ = .error (.overflow grammar.graph.nextId.kind)) :
      Effect grammar (.addProduction lhs rhs) (.error (.overflow grammar.graph.nextId.kind))

/-- Every change of a sound grammar has one of the effects, and leaves the grammar sound. -/
theorem Sound.edit_effect (hsound : grammar.Sound) (change : Edit A) :
    grammar.Effect change (grammar.edit change) := by
  cases change with
  | addVariables count =>
      obtain ⟨graph, hadd, hafter, hwidened⟩ := hsound.addVariables_spec count
      simp only [edit, hadd, ok_bind, pure_eq_ok]
      exact .widened hafter hwidened
  | intern values => exact .interned values
  | addProduction lhs rhs =>
      have haddition := hsound.addProduction_spec lhs rhs
      simp only [edit]
      generalize grammar.addProduction lhs rhs = outcome at haddition ⊢
      cases haddition with
      | refused hcheck => exact .refusedProduction hcheck
      | found hcheck hentry hlive hgroup hdata => exact .found hcheck hentry hlive hgroup hdata
      | created hcheck hnone happended =>
          have ⟨hlt, hnamed⟩ := checkVariable_spec (checkVariable_of_checkProduction hcheck)
          exact .created hcheck hnone (hsound.inserted hlt hnamed happended) happended
      | exhausted hcheck hnone hfull => exact .exhausted hcheck hnone hfull
  | removeVariable x =>
      rcases hsound.removeVariable_spec x with
        ⟨refusal, hcheck, hremove⟩ |
          ⟨group, count, graph, hcheck, hremove, hgraph, hsize, hremoved⟩
      · simp only [edit, hremove, ok_bind, pure_eq_ok]
        exact .refusedVariable hcheck
      · simp only [edit, hremove, ok_bind, pure_eq_ok]
        exact .removed hcheck (hsound.withGraph hgraph hremoved.persists) hsize hremoved

end Effects

/-- Grammars keep the laws of containers. -/
instance lawful [DecidableEq A] : LawfulContainer (Grammar A) SymbolString Pattern (Edit A) where
  Sound := Sound
  graph_sound := Sound.graph
  graph_setGraph _ _ := rfl
  sound_setGraph := Sound.withGraph
  edit_spec {grammar} hsound change := by
    have heffect := hsound.edit_effect change
    simp only [Container.edit]
    generalize grammar.edit change = outcome at heffect ⊢
    cases heffect with
    | widened hafter hwidened =>
        exact .inl ⟨_, _, rfl, hafter, hwidened.evolves, fun key hkey => by cases hkey⟩
    | interned values =>
        exact .inl ⟨_, _, rfl, hsound.withAlphabet _, .refl _, fun key hkey => by cases hkey⟩
    | refusedProduction => exact .inl ⟨_, _, rfl, hsound, .refl _, fun key hkey => by cases hkey⟩
    | refusedVariable => exact .inl ⟨_, _, rfl, hsound, .refl _, fun key hkey => by cases hkey⟩
    | found _ hentry =>
        refine .inl ⟨_, _, rfl, hsound, .refl _, fun other hother => ?_⟩
        cases hother
        exact ⟨_, hentry⟩
    | created _ _ hafter happended =>
        refine .inl ⟨_, _, rfl, hafter, happended.evolves, fun other hother => ?_⟩
        cases hother
        exact ⟨_, (happended.stored?_eq _).trans (if_pos rfl)⟩
    | removed _ hafter _ hremoved =>
        exact .inl ⟨_, _, rfl, hafter, hremoved.evolves, fun key hkey => by cases hkey⟩
    | exhausted => exact .inr ⟨_, rfl⟩
  reclaim_spec := Sound.reclaim_spec
  firstGroup_spec := Sound.firstGroup_spec
  shows_spec hsound group :=
    (Graph.hasLive_spec hsound.graph group).imp fun _ hshown => hshown.1
  named := Pattern.named
  asked := Pattern.asked
  scope_spec {_} hsound {_ _ _ _} hentry hslots hscope :=
    Pattern.scope_spec (hsound.named _ _ hentry) hslots hscope

/-- A change that was carried out has one of the effects. -/
theorem Sound.effect_of_edit [DecidableEq A] (hsound : grammar.Sound) {change : Edit A}
    {answer : Answer} {after : Grammar A}
    (hedit : Container.edit grammar change = .ok (answer, after)) :
    grammar.Effect change (.ok (answer, after)) := by
  have heffect := hsound.edit_effect change
  rwa [show grammar.edit change = .ok (answer, after) from hedit] at heffect

end FormalLanguages.Grammar
