/-
# A text that is shown tells what it shows

The texts of productions and transitions are words with one space between each and the next.  If no
name has a space in it, a text can be taken apart at its spaces, and every word stands in a place of
its own: the source is the first word of a transition and the sink the eighth, the variable is the
first word of a production and its symbols follow the arrow.  So two texts are the same only if they
are the same word by word, whatever commas, slashes, dashes and arrows occur in names.

That leaves the words.  Different symbols have different names, and none of them has the letter that
stands for the empty string and for the empty symbol.  States are told apart by their digits, and
the comma behind the symbol that is read belongs to its word.
-/

import Mathlib
import FormalLanguages.Automaton.Transition
import FormalLanguages.Grammar.Production

namespace FormalLanguages

/-- A text without a space. -/
def IsWord (text : String) : Prop := ' ' ∉ text.toList

instance (text : String) : Decidable (IsWord text) :=
  inferInstanceAs (Decidable (' ' ∉ text.toList))

theorem IsWord.append {first second : String} (hfirst : IsWord first) (hsecond : IsWord second) :
    IsWord (first ++ second) := by
  intro hspace
  rw [String.toList_append] at hspace
  exact (List.mem_append.mp hspace).elim hfirst hsecond

/-- The digits of a number are a word. -/
theorem isWord_toString (number : Nat) : IsWord (toString number) := by
  intro hspace
  rw [Nat.toString_eq_repr, Nat.toList_repr] at hspace
  have hdigit := Nat.isDigit_of_mem_toDigits (by decide) (by decide) hspace
  exact absurd hdigit (by decide)

/-- Words with one space between each and the next. -/
def spaced (words : List String) : String := " ".intercalate words

/-- The words of a text, which are what its spaces leave. -/
def wordsOf (text : String) : List String := (text.split ' ').toList.map (·.copy)

theorem spaced_cons (first : String) (rest : List String) :
    spaced (first :: rest) = first ++ String.join (rest.map (" " ++ ·)) := by
  induction rest generalizing first with
  | nil => simp [spaced]
  | cons second rest ih =>
      have hrest := ih second
      simp only [spaced] at hrest ⊢
      simp [hrest, String.append_assoc]

/-- Words are read back from their text. -/
theorem wordsOf_spaced {words : List String} (hwords : ∀ word ∈ words, IsWord word)
    (hnonempty : words ≠ []) : wordsOf (spaced words) = words := by
  have hsplit := String.toList_split_intercalate hwords
  rwa [if_neg hnonempty] at hsplit

theorem spaced_inj {words others : List String} (hwords : ∀ word ∈ words, IsWord word)
    (hnonempty : words ≠ []) (hothers : ∀ word ∈ others, IsWord word) (hnonempty' : others ≠ []) :
    spaced words = spaced others ↔ words = others := by
  refine ⟨fun hsame => ?_, congrArg spaced⟩
  rw [← wordsOf_spaced hwords hnonempty, hsame, wordsOf_spaced hothers hnonempty']

/-- A naming function whose names are told apart between spaces: different symbols have different
names, names are words, and no name is the letter that is written in the place of one. -/
structure Legible (name : Symbol → String) : Prop where
  injective : Function.Injective name
  isWord : ∀ x, IsWord (name x)
  ne_epsilonText : ∀ x, name x ≠ Symbol.epsilonText

variable {name : Symbol → String}

theorem isWord_epsilonText : IsWord Symbol.epsilonText := by decide

namespace Production

/-- The words that stand for a right-hand side. -/
def rhsWords (name : Symbol → String) (rhs : SymbolString) : List String :=
  if rhs.isEmpty then [Symbol.epsilonText] else rhs.symbols.map name

/-- The words that stand for a production. -/
def words (name : Symbol → String) (production : Production) : List String :=
  name production.lhs :: "->" :: rhsWords name production.rhs

theorem render_eq_spaced (name : Symbol → String) (production : Production) :
    production.render name = spaced (production.words name) := by
  rw [words, spaced_cons, render, rhsWords]
  cases hempty : production.rhs.isEmpty with
  | true =>
      have hsymbols : production.rhs.symbols = [] := List.isEmpty_iff.mp hempty
      simp [hsymbols, String.append_assoc]
  | false => simp [String.append_assoc, Function.comp_def]

theorem isWord_of_mem_words (hname : Legible name) (production : Production) :
    ∀ word ∈ production.words name, IsWord word := by
  intro word hword
  rcases List.mem_cons.mp hword with rfl | hword
  · exact hname.isWord production.lhs
  rcases List.mem_cons.mp hword with rfl | hword
  · decide
  rw [rhsWords] at hword
  split at hword
  · rw [List.mem_singleton.mp hword]
    exact isWord_epsilonText
  · obtain ⟨x, -, rfl⟩ := List.mem_map.mp hword
    exact hname.isWord x

/-- The letter for the empty string is not the name of any symbol, so it does not stand for a string
of one symbol. -/
theorem rhsWords_injective (hname : Legible name) : Function.Injective (rhsWords name) := by
  have hletter (rhs : SymbolString) : [Symbol.epsilonText] ≠ rhs.symbols.map name := by
    intro hsame
    have hmem : Symbol.epsilonText ∈ rhs.symbols.map name := hsame ▸ List.mem_singleton_self _
    obtain ⟨x, -, hx⟩ := List.mem_map.mp hmem
    exact hname.ne_epsilonText x hx
  intro first second hsame
  simp only [rhsWords] at hsame
  apply SymbolString.ext
  split at hsame <;> split at hsame
  · next hfirst hsecond =>
      exact (List.isEmpty_iff.mp hfirst).trans (List.isEmpty_iff.mp hsecond).symm
  · exact absurd hsame (hletter second)
  · exact absurd hsame.symm (hletter first)
  · exact (List.map_inj_right fun _ _ hsymbol => hname.injective hsymbol).mp hsame

theorem render_inj (hname : Legible name) {first second : Production} :
    first.render name = second.render name ↔ first.lhs = second.lhs ∧ first.rhs = second.rhs := by
  rw [render_eq_spaced, render_eq_spaced,
    spaced_inj (isWord_of_mem_words hname first) (List.cons_ne_nil _ _)
      (isWord_of_mem_words hname second) (List.cons_ne_nil _ _), words, words, List.cons.injEq,
    List.cons.injEq, hname.injective.eq_iff, (rhsWords_injective hname).eq_iff]
  simp

end Production

namespace Transition

theorem isWord_renderSymbol (hname : Legible name) (x : Symbol) : IsWord (renderSymbol name x) := by
  rw [renderSymbol]
  split
  · exact isWord_epsilonText
  · exact hname.isWord x

/-- The letter for the empty symbol is not the name of another one. -/
theorem renderSymbol_injective (hname : Legible name) : Function.Injective (renderSymbol name) := by
  intro x y hsame
  simp only [renderSymbol] at hsame
  split at hsame <;> split at hsame
  · next hx hy =>
      have hvalue : x.value = y.value := (beq_iff_eq.mp hx).trans (beq_iff_eq.mp hy).symm
      exact congrArg Symbol.mk hvalue
  · exact absurd hsame.symm (hname.ne_epsilonText y)
  · exact absurd hsame (hname.ne_epsilonText x)
  · exact hname.injective hsame

/-- The words that stand for a transition. -/
def words (name : Symbol → String) (transition : Transition) : List String :=
  [toString transition.source, "--", renderSymbol name transition.read ++ ",",
    renderSymbol name transition.pop, "/", renderSymbol name transition.push, "-->",
    toString transition.sink]

theorem render_eq_spaced (name : Symbol → String) (transition : Transition) :
    transition.render name = spaced (transition.words name) := by
  have hdashes : " -- " = " " ++ "--" ++ " " := rfl
  have hcomma : ", " = "," ++ " " := rfl
  have hslash : " / " = " " ++ "/" ++ " " := rfl
  have harrow : " --> " = " " ++ "-->" ++ " " := rfl
  rw [render, hdashes, hcomma, hslash, harrow]
  simp only [spaced, words, String.intercalate_cons_cons, String.intercalate_singleton,
    String.append_assoc]

theorem isWord_of_mem_words (hname : Legible name) (transition : Transition) :
    ∀ word ∈ transition.words name, IsWord word := by
  have hsymbol := isWord_renderSymbol hname
  have hread : IsWord (renderSymbol name transition.read ++ ",") :=
    (hsymbol transition.read).append (by decide)
  simp only [words, List.forall_mem_cons, List.not_mem_nil, false_implies, implies_true, and_true]
  exact ⟨isWord_toString _, by decide, hread, hsymbol _, by decide, hsymbol _, by decide,
    isWord_toString _⟩

theorem render_inj (hname : Legible name) {first second : Transition} :
    first.render name = second.render name ↔
      first.source = second.source ∧ first.read = second.read ∧ first.pop = second.pop ∧
        first.push = second.push ∧ first.sink = second.sink := by
  rw [render_eq_spaced, render_eq_spaced,
    spaced_inj (isWord_of_mem_words hname first) (List.cons_ne_nil _ _)
      (isWord_of_mem_words hname second) (List.cons_ne_nil _ _)]
  simp only [words, List.cons.injEq, Nat.toString_eq_repr, Nat.repr_inj, String.append_left_inj,
    (renderSymbol_injective hname).eq_iff, true_and, and_true]

end Transition

/-- Whatever the names of symbols, if only they are legible, the texts of two productions are the
same exactly if variable and right-hand side are, and the texts of two transitions exactly if their
states and symbols are. -/
theorem rendering_distinguishes (hname : Legible name) :
    (∀ first second : Production, first.render name = second.render name ↔
      first.lhs = second.lhs ∧ first.rhs = second.rhs) ∧
    ∀ first second : Transition, first.render name = second.render name ↔
      first.source = second.source ∧ first.read = second.read ∧ first.pop = second.pop ∧
        first.push = second.push ∧ first.sink = second.sink := by
  constructor
  · intro first second
    exact Production.render_inj hname
  · intro first second
    exact Transition.render_inj hname

/-- Names that begin with the punctuation of the texts. -/
def punctuated (x : Symbol) : String := "-->,/" ++ toString x.value.toInt

theorem legible_punctuated : Legible punctuated where
  injective x y hsame := by
    have hdigits := (String.append_right_inj _).mp hsame
    rw [Int.toString_eq_repr, Int.toString_eq_repr, Int.repr_inj, Int32.toInt_inj] at hdigits
    exact congrArg Symbol.mk hdigits
  isWord x := by
    apply IsWord.append
    · decide
    · rw [Int.toString_eq_repr, Int.repr_eq_if]
      split
      · exact isWord_toString _
      · exact IsWord.append (by decide) (isWord_toString _)
  ne_epsilonText x hsame := by
    have hhead := congrArg (fun text => text.toList.head?) hsame
    simp [punctuated, Symbol.epsilonText] at hhead

/-- Where every name begins like the end of an arrow, a right-hand side without symbols still
differs from one that has a symbol, and reading nothing from popping nothing. -/
theorem rendering_distinguishes_punctuated :
    Legible punctuated ∧
      (Production.render punctuated ⟨.ofVariable 1, .empty⟩ =
          Production.render punctuated ⟨.ofVariable 1, .ofSymbol (.ofVariable 1)⟩ ↔
        Symbol.ofVariable 1 = Symbol.ofVariable 1 ∧
          SymbolString.empty = SymbolString.ofSymbol (.ofVariable 1)) ∧
      (Transition.render punctuated ⟨⟨.epsilon, .ofTerminal 1, .epsilon, 4294967295⟩, 0⟩ =
          Transition.render punctuated ⟨⟨.ofTerminal 1, .epsilon, .epsilon, 4294967295⟩, 0⟩ ↔
        0 = 0 ∧ Symbol.epsilon = Symbol.ofTerminal 1 ∧ Symbol.ofTerminal 1 = Symbol.epsilon ∧
          Symbol.epsilon = Symbol.epsilon ∧ 4294967295 = 4294967295) :=
  ⟨legible_punctuated, (rendering_distinguishes legible_punctuated).1 _ _,
    (rendering_distinguishes legible_punctuated).2 _ _⟩

end FormalLanguages
