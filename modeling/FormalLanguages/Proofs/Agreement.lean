/-
# Agreeing is spelling the same

There are four comparisons, of symbols and strings on either side.  That of two strings looks at
lengths and hashes first, and that of a symbol and a string at the first symbol of the string, which
has one because the lengths agree.  Each of them decides whether both sides spell the same list,
where a symbol spells itself and the empty symbol nothing.  So together they are one equivalence,
and because the spelling of what is joined is the spelling of the one followed by that of the other,
joining respects it.

What a phrase spells are its leaves without the empty ones.  How the phrase was put together cannot
be seen by comparing.
-/

import FormalLanguages.Proofs.SymbolString

namespace FormalLanguages

namespace SymbolString

variable {s t : SymbolString} {x : Symbol}

/-- What a symbol spells, being the string of itself. -/
theorem proper_singleton (x : Symbol) : proper [x] = if x.isEpsilon then [] else [x] := by
  cases hx : x.isEpsilon <;> simp [proper, hx]

/-- Comparing lengths and hashes before symbols decides whether the symbols are the same. -/
theorem beq_iff_symbols_eq : (s == t) = true ↔ s.symbols = t.symbols :=
  beq_iff_eq.trans ⟨congrArg symbols, ext⟩

/-- A string that is as long as a symbol that is not empty has a first symbol. -/
theorem exists_get?_zero (hlength : x.length = s.length) (hx : x.isEpsilon = false) :
    ∃ first, s.get? 0 = some first := by
  obtain ⟨hpos, -⟩ := denotes_eq hlength hx
  exact ⟨s.symbols[0], List.getElem?_eq_getElem hpos⟩

theorem denotes_iff : s.denotes x = true ↔ s.symbols = proper [x] := by
  rw [proper_singleton, denotes, Symbol.length, length]
  cases x.isEpsilon with
  | true =>
      simp only [↓reduceIte, Bool.true_or, Bool.and_true, beq_iff_eq]
      exact eq_comm.trans List.length_eq_zero_iff
  | false =>
      -- Of one symbol, the first is all.
      cases s.symbols with
      | nil => simp
      | cons y rest => cases rest <;> simp

end SymbolString

namespace Meaning

open SymbolString

variable {m n : Meaning} {leaves others : List Symbol}

/-- The symbols that a meaning stands for, in order. -/
def spelling : Meaning → List Symbol
  | symbol x => proper [x]
  | string s => s.symbols

/-- Symbols are the same if their strings are. -/
theorem proper_singleton_inj {x y : Symbol} : proper [x] = proper [y] ↔ x = y := by
  refine ⟨fun hsame => ?_, fun heq => by rw [heq]⟩
  have hepsilon (z : Symbol) (hz : z.isEpsilon = true) : z = .epsilon :=
    congrArg Symbol.mk (eq_of_beq hz)
  rw [proper_singleton, proper_singleton] at hsame
  cases hx : x.isEpsilon <;> cases hy : y.isEpsilon <;> simp only [hx, hy] at hsame
  · exact List.singleton_inj.mp hsame
  · cases hsame
  · cases hsame
  · rw [hepsilon x hx, hepsilon y hy]

/-- Meanings agree exactly if they spell the same. -/
theorem agrees_iff : m.agrees n = true ↔ m.spelling = n.spelling := by
  cases m with
  | symbol x =>
      cases n with
      | symbol y => exact beq_iff_eq.trans proper_singleton_inj.symm
      | string t => exact denotes_iff.trans eq_comm
  | string s =>
      cases n with
      | symbol y => exact denotes_iff
      | string t => exact beq_iff_symbols_eq

theorem symbols_join (m n : Meaning) : (m.join n).symbols = m.spelling ++ n.spelling := by
  cases m with
  | symbol x =>
      cases n with
      | symbol y => exact proper_append [x] [y]
      | string t => exact symbols_append (.ofSymbol x) t
  | string s =>
      cases n with
      | symbol y => exact symbols_append s (.ofSymbol y)
      | string t => exact symbols_append s t

/-- A meaning that comes from some leaves spells those of them that are not empty. -/
theorem Collects.spelling_eq (hcollects : m.Collects leaves) : m.spelling = proper leaves := by
  cases m with
  | symbol x => rw [show leaves = [x] from hcollects, spelling]
  | string s => exact SymbolString.Collects.symbols_eq hcollects

theorem Collects.agrees_iff (hm : m.Collects leaves) (hn : n.Collects others) :
    m.agrees n = true ↔ proper leaves = proper others := by
  rw [Meaning.agrees_iff, hm.spelling_eq, hn.spelling_eq]

theorem agrees_equivalence : Equivalence fun m n : Meaning => m.agrees n = true where
  refl _ := agrees_iff.mpr rfl
  symm hagrees := agrees_iff.mpr (agrees_iff.mp hagrees).symm
  trans hfirst hsecond := agrees_iff.mpr ((agrees_iff.mp hfirst).trans (agrees_iff.mp hsecond))

theorem join_congr {m' n' : Meaning} (hm : m.agrees m' = true) (hn : n.agrees n' = true) :
    (m.join n == m'.join n') = true := by
  rw [beq_iff_symbols_eq, symbols_join, symbols_join, agrees_iff.mp hm, agrees_iff.mp hn]

end Meaning

namespace Phrase

open SymbolString

/-- Meanings that agree exactly if their leaves are the same, apart from empty ones. -/
def AgreeByLeaves (meanings : Array Meaning) (leaves : Array (List Symbol)) : Prop :=
  ∀ (first second : Nat) (m n : Meaning), meanings[first]? = some m → meanings[second]? = some n →
    ∃ list others, leaves[first]? = some list ∧ leaves[second]? = some others ∧
      (m.agrees n = true ↔ proper list = proper others)

theorem Told.exists_leaves {meanings : Array Meaning} {leaves : Array (List Symbol)}
    (htold : Told meanings leaves) {position : Nat} {m : Meaning}
    (hm : meanings[position]? = some m) :
    ∃ list, leaves[position]? = some list ∧ m.Collects list := by
  have hlt : position < leaves.size := htold.size_eq ▸ (Array.getElem?_eq_some_iff.mp hm).1
  have hlist := Array.getElem?_eq_getElem hlt
  exact ⟨leaves[position], hlist, htold.collects position m _ hm hlist⟩

theorem Told.agreeByLeaves {meanings : Array Meaning} {leaves : Array (List Symbol)}
    (htold : Told meanings leaves) : AgreeByLeaves meanings leaves := by
  intro first second m n hm hn
  obtain ⟨list, hlist, hcollects⟩ := htold.exists_leaves hm
  obtain ⟨others, hothers, hcollects'⟩ := htold.exists_leaves hn
  exact ⟨list, others, hlist, hothers, hcollects.agrees_iff hcollects'⟩

/-- Strings are compared by their symbols and a symbol is compared as the string of itself, whatever
their digests are and however they were put together.  Over symbols and strings together this is an
equivalence that joining respects, and equal strings have the same fingerprint and are hashed
alike. -/
theorem agreement_denotational :
    (∀ s t : SymbolString, (s == t) = true ↔ s.symbols = t.symbols) ∧
    (∀ (x : Symbol) (s : SymbolString),
      ((Meaning.symbol x).agrees (.string s) = true ↔
          s.symbols = if x.isEpsilon then [] else [x]) ∧
        ((Meaning.string s).agrees (.symbol x) = true ↔
          s.symbols = if x.isEpsilon then [] else [x]) ∧
        (x.length = s.length → x.isEpsilon = false → ∃ first, s.get? 0 = some first)) ∧
    (Equivalence fun m n : Meaning => m.agrees n = true) ∧
    (∀ m m' n n' : Meaning, m.agrees m' = true → n.agrees n' = true →
      (m.join n == m'.join n') = true) ∧
    (∀ s t : SymbolString, (s == t) = true → s.fingerprint = t.fingerprint ∧ s.words = t.words) ∧
    ∀ (phrases : List Phrase) (meanings : Array Meaning), evalAll phrases = some meanings →
      ∃ leaves, leavesAll phrases = some leaves ∧ AgreeByLeaves meanings leaves := by
  refine ⟨fun _ _ => beq_iff_symbols_eq, fun x s => ⟨?_, ?_, exists_get?_zero⟩,
    Meaning.agrees_equivalence, fun _ _ _ _ => Meaning.join_congr, fun s t hsame => ?_,
    fun phrases meanings heval => ?_⟩
  · exact denotes_iff.trans (by rw [proper_singleton])
  · exact denotes_iff.trans (by rw [proper_singleton])
  · rw [eq_of_beq hsame]
    exact ⟨rfl, rfl⟩
  · have htold := evalAll_told phrases
    rw [heval] at htold
    generalize leavesAll phrases = outcome at htold ⊢
    cases htold with
    | some htold => exact ⟨_, rfl, htold.agreeByLeaves⟩

/-- A symbol, the empty symbol joined to it, and a string that begins with a repetition of nothing.
-/
def disguised : List Phrase :=
  [.symbol ⟨-1⟩, .joined (.symbol .epsilon) (.earlier 0),
    .joined (.repeated (.unit .epsilon) 3) (.joined (.earlier 1) (.symbol ⟨2⟩))]

/-- The first two of these agree, and so do they with a symbol behind them. -/
theorem agreement_denotational_disguised :
    ∃ s t : SymbolString, evalAll disguised = some #[.symbol ⟨-1⟩, .string s, .string t] ∧
      (∃ leaves, leavesAll disguised = some leaves ∧
        AgreeByLeaves #[.symbol ⟨-1⟩, .string s, .string t] leaves) ∧
      s.symbols = [⟨-1⟩] ∧
      (Meaning.join (.symbol ⟨-1⟩) (.symbol ⟨2⟩) == Meaning.join (.string s) (.symbol ⟨2⟩)) =
        true ∧
      t.fingerprint = (Meaning.join (.symbol ⟨-1⟩) (.symbol ⟨2⟩)).fingerprint := by
  obtain ⟨-, hmixed, hequivalence, hjoin, hfingerprint, hphrases⟩ := agreement_denotational
  have hmeanings : evalAll disguised = some #[.symbol ⟨-1⟩, .string (.ofSymbols [⟨-1⟩]),
      .string (.ofSymbols [⟨-1⟩, ⟨2⟩])] := by
    decide +kernel
  have hsame : (Meaning.symbol ⟨-1⟩).agrees (.string (.ofSymbols [⟨-1⟩])) = true := by
    decide +kernel
  exact ⟨_, _, hmeanings, hphrases disguised _ hmeanings, (hmixed ⟨-1⟩ _).1.mp hsame,
    hjoin _ _ _ _ hsame (hequivalence.refl _), (hfingerprint _ _ (by decide +kernel)).1⟩

end Phrase

end FormalLanguages
