/-
# Strings of symbols remember their digest

A symbol string is a list of symbols without the empty symbol, kept together with the digest of
that list.  The digest is part of the value so that joining two strings and telling two strings
apart seldom have to look at the symbols; that it always is the digest of the symbols is part of
the type, so comparing strings by length, hash and symbols decides equality.
-/

import FormalLanguages.Digest

namespace FormalLanguages

/-- A list of symbols, none of them empty, with its digest. -/
structure SymbolString where
  symbols : List Symbol
  digest : Digest
  digest_eq : digest = Digest.ofList symbols
  epsilonFree : ∀ x ∈ symbols, x.isEpsilon = false

namespace SymbolString

/-- Strings with the same symbols are the same string: the digest adds nothing. -/
@[ext]
theorem ext {first second : SymbolString} (hsymbols : first.symbols = second.symbols) :
    first = second := by
  obtain ⟨symbols, digest, hdigest, _⟩ := first
  obtain ⟨symbols', digest', hdigest', _⟩ := second
  cases hsymbols
  cases hdigest
  cases hdigest'
  rfl

/-- The string without symbols. -/
def empty : SymbolString := ⟨[], .empty, rfl, by simp⟩

/-- The string of the given symbols, from which every empty symbol is dropped. -/
def ofSymbols (symbols : List Symbol) : SymbolString where
  symbols := symbols.filter (fun x => !x.isEpsilon)
  digest := Digest.ofList (symbols.filter (fun x => !x.isEpsilon))
  digest_eq := rfl
  epsilonFree := by simp

/-- The string of one symbol, or the empty string for the empty symbol. -/
def ofSymbol (x : Symbol) : SymbolString := ofSymbols [x]

/-- How many symbols a string has. -/
def length (s : SymbolString) : Nat := s.symbols.length

/-- The string without symbols is the only empty one. -/
def isEmpty (s : SymbolString) : Bool := s.symbols.isEmpty

/-- The symbol at a position, counted from zero. -/
def get? (s : SymbolString) (position : Nat) : Option Symbol := s.symbols[position]?

/-- The fingerprint under which a string is filed. -/
def fingerprint (s : SymbolString) : Fingerprint := s.digest.fingerprint s.length

/-- The words that a hash of a string is computed from. -/
def words (s : SymbolString) : List UInt32 := [s.fingerprint.length, s.fingerprint.hash]

/-- Join two strings.  An empty operand gives the other one back as it is; otherwise the digest
comes from the two cached ones. -/
def append (first second : SymbolString) : SymbolString :=
  if second.isEmpty then first
  else if first.isEmpty then second
  else
    { symbols := first.symbols ++ second.symbols
      digest := first.digest ++ second.digest
      digest_eq := by rw [Digest.ofList_append, first.digest_eq, second.digest_eq]
      epsilonFree := fun x hx =>
        (List.mem_append.mp hx).elim (first.epsilonFree x) (second.epsilonFree x) }

instance : Append SymbolString := ⟨append⟩

@[simp]
theorem symbols_empty : empty.symbols = [] := rfl

@[simp]
theorem symbols_ofSymbols (symbols : List Symbol) :
    (ofSymbols symbols).symbols = symbols.filter (fun x => !x.isEpsilon) := rfl

@[simp]
theorem symbols_append (first second : SymbolString) :
    (first ++ second).symbols = first.symbols ++ second.symbols := by
  change (append first second).symbols = _
  unfold append
  split
  · next h => simp [List.isEmpty_iff.mp h]
  · split
    · next h => simp [List.isEmpty_iff.mp h]
    · rfl

/-- Whether two strings are the same, settled by length and hash in almost every case in which
they are not. -/
def sameAs (first second : SymbolString) : Bool :=
  first.length == second.length && first.digest.hash == second.digest.hash &&
    first.symbols == second.symbols

/-- Comparing lengths and hashes first changes nothing: strings are the same exactly when they
are equal. -/
theorem sameAs_iff {first second : SymbolString} : first.sameAs second ↔ first = second := by
  constructor
  · intro h
    simp only [sameAs, Bool.and_eq_true, beq_iff_eq] at h
    exact ext h.2
  · rintro rfl
    simp [sameAs]

instance : BEq SymbolString := ⟨sameAs⟩

instance : LawfulBEq SymbolString where
  rfl := sameAs_iff.mpr rfl
  eq_of_beq := sameAs_iff.mp

instance : DecidableEq SymbolString := instDecidableEqOfLawfulBEq

/-- Whether a symbol and a string denote the same thing: a symbol is the string of itself, and
the empty symbol is the empty string. -/
def denotes (s : SymbolString) (x : Symbol) : Bool :=
  x.length == s.length && (x.isEpsilon || s.symbols.head? == some x)

/-- The first symbol of a string is looked at only where there is one, that of a string as long as a
symbol that is not empty. -/
theorem denotes_eq {s : SymbolString} {x : Symbol} (hlength : x.length = s.length)
    (hx : x.isEpsilon = false) :
    ∃ hpos : 0 < s.symbols.length, s.denotes x = (s.symbols[0] == x) := by
  rw [Symbol.length, hx, if_neg Bool.false_ne_true] at hlength
  have hpos : 0 < s.symbols.length := Nat.le_of_eq hlength
  refine ⟨hpos, ?_⟩
  rw [denotes, Symbol.length, hx, if_neg Bool.false_ne_true, hlength, List.head?_eq_getElem?,
    List.getElem?_eq_getElem hpos]
  simp

/-- The text that shows a string inside the description of a larger value. -/
def describe (s : SymbolString) : String :=
  "[" ++ ", ".intercalate (s.symbols.map Symbol.describe) ++ "]"

end SymbolString

end FormalLanguages
