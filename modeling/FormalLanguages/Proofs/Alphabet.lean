/-
# A terminal and its value name each other

The terminal at place `n` of an alphabet is the number `-n`, and decoding a number below zero gives
its place back.  Places are counted from one and the values are listed from zero, so the two shifts
have to cancel, and they do for every symbol, the least one included: it has a place that no
alphabet with fewer than `2 ^ 31` values reaches.

Interning lists each value once, in the order in which values come first.
-/

import Mathlib.Algebra.Group.Nat.Defs
import Mathlib.Data.List.Nodup
import FormalLanguages.Alphabet

namespace FormalLanguages

namespace Symbol

variable {x : Symbol} {offset : Nat}

theorem isVariable_iff : x.isVariable = true ↔ 0 < x.value.toInt := by
  simp [isVariable, Int32.lt_iff_toInt_lt]

theorem isTerminal_iff : x.isTerminal = true ↔ x.value.toInt < 0 := by
  simp [isTerminal, Int32.lt_iff_toInt_lt]

theorem variableId_eq_some_iff {id : Nat} :
    x.variableId = some id ↔ x.value.toInt = id ∧ 1 ≤ id := by
  unfold variableId
  split
  · next hvariable =>
      have hpos := isVariable_iff.mp hvariable
      rw [Option.some.injEq]
      omega
  · next hnot =>
      have hnonpos := mt isVariable_iff.mpr hnot
      simp only [reduceCtorEq, false_iff]
      omega

theorem variableId_eq_none_iff : x.variableId = none ↔ x.value.toInt ≤ 0 := by
  unfold variableId
  split
  · next hvariable => simpa using isVariable_iff.mp hvariable
  · next hnot => simpa using mt isVariable_iff.mpr hnot

theorem terminalOffset_eq_some_iff :
    x.terminalOffset = some offset ↔ x.value.toInt = -(offset : Int) ∧ 1 ≤ offset := by
  unfold terminalOffset
  split
  · next hterminal =>
      have hneg := isTerminal_iff.mp hterminal
      rw [Option.some.injEq]
      omega
  · next hnot =>
      have hnonneg := mt isTerminal_iff.mpr hnot
      simp only [reduceCtorEq, false_iff]
      omega

theorem terminalOffset_eq_none_iff : x.terminalOffset = none ↔ 0 ≤ x.value.toInt := by
  unfold terminalOffset
  split
  · next hterminal => simpa using isTerminal_iff.mp hterminal
  · next hnot => simpa using mt isTerminal_iff.mpr hnot

theorem toInt_ofTerminal (hoffset : offset < 2 ^ 31) :
    (ofTerminal offset).value.toInt = -(offset : Int) := by
  have hvalue : (Int32.ofNat offset).toInt = offset := Int32.toInt_ofNat_of_lt hoffset
  show (-Int32.ofNat offset).toInt = -(offset : Int)
  rw [Int32.toInt_neg, hvalue]
  apply Int.bmod_eq_of_le
  · omega
  · omega

end Symbol

namespace Alphabet

variable {A : Type} {alphabet after : Alphabet A} {x : Symbol} {value : A}

theorem value?_eq_some_iff : alphabet.value? x = some value ↔
    ∃ place : Nat, alphabet.values[place]? = some value ∧ x.value.toInt = -(place + 1 : Int) := by
  unfold value?
  split
  · next offset hoffset =>
      have ⟨hx, hpos⟩ := Symbol.terminalOffset_eq_some_iff.mp hoffset
      constructor
      · intro hvalue
        exact ⟨offset - 1, hvalue, by omega⟩
      · intro ⟨place, hvalue, hplace⟩
        have hsame : offset - 1 = place := by omega
        rw [hsame, hvalue]
  · next hnone =>
      constructor
      · intro hvalue
        cases hvalue
      · rintro ⟨place, -, hplace⟩
        have hoffset : x.terminalOffset = some (place + 1) :=
          Symbol.terminalOffset_eq_some_iff.mpr ⟨by omega, Nat.le_add_left 1 place⟩
        cases hnone.symm.trans hoffset

/-- The symbols with a value are those from `-1` down to minus the size of the alphabet. -/
theorem exists_value_iff : (∃ value, alphabet.value? x = some value) ↔
    -(alphabet.size : Int) ≤ x.value.toInt ∧ x.value.toInt ≤ -1 := by
  constructor
  · intro ⟨value, hvalue⟩
    have ⟨place, hplace, hx⟩ := value?_eq_some_iff.mp hvalue
    have hlt : place < alphabet.size := (List.getElem?_eq_some_iff.mp hplace).1
    omega
  · intro ⟨hlow, hhigh⟩
    have hlt : x.value.toInt.natAbs - 1 < alphabet.values.length := by
      show _ < alphabet.size
      omega
    exact ⟨_, value?_eq_some_iff.mpr ⟨_, List.getElem?_eq_getElem hlt, by omega⟩⟩

/-- A symbol that was handed out for a value. -/
def Names (alphabet : Alphabet A) (x : Symbol) (value : A) : Prop :=
  ∃ place, alphabet.values[place]? = some value ∧ x = .ofTerminal (place + 1)

theorem Names.mono (hnames : alphabet.Names x value)
    (hextends : alphabet.values <+: after.values) : after.Names x value := by
  have ⟨place, hplace, hx⟩ := hnames
  have ⟨hlt, hvalue⟩ := List.getElem?_eq_some_iff.mp hplace
  exact ⟨place, hvalue ▸ List.prefix_iff_getElem?.mp hextends place hlt, hx⟩

/-- A symbol is as far below zero as the value is behind the beginning of the list. -/
theorem Names.toInt_eq (hnames : alphabet.Names x value) (hsize : alphabet.size < 2 ^ 31)
    {place : Nat} (hplace : alphabet.values[place]? = some value) :
    x.value.toInt = -(place + 1 : Int) := by
  have ⟨other, hother, hx⟩ := hnames
  have ⟨hlt, hvalue⟩ := List.getElem?_eq_some_iff.mp hplace
  have ⟨hlt', hvalue'⟩ := List.getElem?_eq_some_iff.mp hother
  have hsame : other = place :=
    (List.Nodup.getElem_inj_iff alphabet.nodup).mp (hvalue'.trans hvalue.symm)
  have hbound : place < alphabet.size := hlt
  rw [hx, hsame, Symbol.toInt_ofTerminal (by omega)]
  omega

theorem Names.value?_eq (hnames : alphabet.Names x value) (hsize : alphabet.size < 2 ^ 31) :
    alphabet.value? x = some value := by
  have ⟨place, hplace, _⟩ := hnames
  exact value?_eq_some_iff.mpr ⟨place, hplace, hnames.toInt_eq hsize hplace⟩

variable [DecidableEq A]

theorem values_intern (alphabet : Alphabet A) (value : A) :
    (alphabet.intern value).2.values =
      alphabet.values ++ if value ∈ alphabet.values then [] else [value] := by
  unfold intern
  split
  · exact (List.append_nil _).symm
  · rfl

theorem names_intern (alphabet : Alphabet A) (value : A) :
    (alphabet.intern value).2.Names (alphabet.intern value).1 value := by
  unfold intern
  split
  · next hlisted => exact ⟨_, List.getElem?_idxOf hlisted, rfl⟩
  · exact ⟨_, List.getElem?_concat_length, rfl⟩

theorem extends_intern (alphabet : Alphabet A) (value : A) :
    alphabet.values <+: (alphabet.intern value).2.values := by
  rw [values_intern]
  exact List.prefix_append _ _

/-- Interning takes nothing out of an alphabet. -/
theorem extends_internAll (alphabet : Alphabet A) (values : List A) :
    alphabet.values <+: (alphabet.internAll values).2.values := by
  induction values generalizing alphabet with
  | nil => exact List.prefix_refl _
  | cons value rest ih => exact (extends_intern alphabet value).trans (ih _)

theorem length_internAll (alphabet : Alphabet A) (values : List A) :
    (alphabet.internAll values).1.length = values.length := by
  induction values generalizing alphabet with
  | nil => rfl
  | cons value rest ih => exact congrArg (· + 1) (ih _)

/-- Each of the values that are interned together is named by the symbol at its place. -/
theorem names_internAll (alphabet : Alphabet A) (values : List A) (value : A) (x : Symbol)
    (hmem : (value, x) ∈ values.zip (alphabet.internAll values).1) :
    (alphabet.internAll values).2.Names x value := by
  induction values generalizing alphabet with
  | nil => cases hmem
  | cons first rest ih =>
      rcases List.mem_cons.mp hmem with heq | hmem
      · cases heq
        exact (names_intern alphabet value).mono (extends_internAll _ rest)
      · exact ih _ hmem

/-- An alphabet that lists once what was interned before lists once what is interned then. -/
theorem values_internAll {past : List A} (hpast : alphabet.values = past.eraseDups)
    (values : List A) :
    (alphabet.internAll values).2.values = (past ++ values).eraseDups := by
  induction values generalizing alphabet past with
  | nil =>
      rw [List.append_nil]
      exact hpast
  | cons value rest ih =>
      have hmem : value ∈ past ↔ value ∈ alphabet.values := by
        rw [hpast, List.mem_eraseDups]
      have hnext : (alphabet.intern value).2.values = (past ++ [value]).eraseDups := by
        rw [values_intern, List.eraseDups_append, ← hpast]
        by_cases hlisted : value ∈ alphabet.values
        · simp [List.removeAll, hmem, hlisted]
        · simp [List.removeAll, hmem, hlisted, List.eraseDups_cons]
      have hrest := ih hnext
      rwa [List.append_assoc, List.singleton_append] at hrest

/-- Interning the value of a symbol gives the symbol back and adds nothing. -/
theorem internAll_of_value? (hsize : alphabet.size < 2 ^ 31)
    (hvalue : alphabet.value? x = some value) :
    alphabet.internAll [value] = ([x], alphabet) := by
  have ⟨place, hplace, hx⟩ := value?_eq_some_iff.mp hvalue
  have hlisted : value ∈ alphabet.values := List.mem_of_getElem? hplace
  have hnames : alphabet.Names (.ofTerminal (alphabet.values.idxOf value + 1)) value :=
    ⟨_, List.getElem?_idxOf hlisted, rfl⟩
  have hsame : Symbol.ofTerminal (alphabet.values.idxOf value + 1) = x := by
    have htoInt := (hnames.toInt_eq hsize hplace).trans hx.symm
    exact congrArg Symbol.mk (Int32.toInt_inj.mp htoInt)
  simp only [internAll, intern, hlisted, ↓reduceDIte, hsame]

end Alphabet

end FormalLanguages
