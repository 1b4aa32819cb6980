/-
# Digests of strings compose

A digest summarises a list of symbols by a polynomial hash together with the power of the
multiplier that belongs to the list's length.  The pair is enough to find the digest of a
concatenation from the digests of its two parts, so strings can be joined without looking at
their symbols again.  All arithmetic wraps at 32 bits.
-/

import FormalLanguages.Symbol

namespace FormalLanguages

/-- Spread every bit of a word over all of its bits.  Each of the five steps can be undone, so
different words stay different. -/
def scramble (h : UInt32) : UInt32 :=
  let h := h ^^^ (h >>> 16)
  let h := h * 0x85ebca6b
  let h := h ^^^ (h >>> 13)
  let h := h * 0xc2b2ae35
  h ^^^ (h >>> 16)

/-- A hash and the factor by which it moves when more symbols follow. -/
structure Digest where
  hash : UInt32
  scale : UInt32
  deriving DecidableEq, Repr

namespace Digest

/-- The base of the polynomial.  It is odd, so multiplying by it loses nothing. -/
def multiplier : UInt32 := 0x9e3779b1

/-- The digest of no symbols. -/
def empty : Digest := ⟨0, 1⟩

/-- The digest of one symbol. -/
def ofSymbol (x : Symbol) : Digest := ⟨scramble x.word, multiplier⟩

/-- The digest of a concatenation, from the digests of its parts. -/
def append (first second : Digest) : Digest :=
  ⟨first.hash * second.scale + second.hash, first.scale * second.scale⟩

instance : Append Digest := ⟨append⟩

/-- The digest of a list of symbols, read from left to right. -/
def ofList (symbols : List Symbol) : Digest :=
  symbols.foldl (fun digest x => digest ++ ofSymbol x) empty

theorem append_def (first second : Digest) :
    first ++ second =
      ⟨first.hash * second.scale + second.hash, first.scale * second.scale⟩ := rfl

@[simp]
theorem empty_append (digest : Digest) : empty ++ digest = digest := by
  simp [append_def, empty]

@[simp]
theorem append_empty (digest : Digest) : digest ++ empty = digest := by
  simp [append_def, empty]

theorem append_assoc (first second third : Digest) :
    first ++ second ++ third = first ++ (second ++ third) := by
  simp only [append_def, mk.injEq]
  constructor
  · rw [UInt32.add_mul, UInt32.mul_assoc, UInt32.add_assoc]
  · rw [UInt32.mul_assoc]

private theorem foldl_eq_append (symbols : List Symbol) (start : Digest) :
    symbols.foldl (fun digest x => digest ++ ofSymbol x) start = start ++ ofList symbols := by
  induction symbols generalizing start with
  | nil => simp [ofList]
  | cons x rest ih =>
      simp only [ofList, List.foldl_cons, empty_append]
      rw [ih, ih (ofSymbol x), append_assoc]

@[simp]
theorem ofList_nil : ofList [] = empty := rfl

theorem ofList_cons (x : Symbol) (rest : List Symbol) :
    ofList (x :: rest) = ofSymbol x ++ ofList rest := by
  simp only [ofList, List.foldl_cons, empty_append]
  exact foldl_eq_append rest (ofSymbol x)

/-- Digesting a concatenation is composing the digests of its parts. -/
theorem ofList_append (first second : List Symbol) :
    ofList (first ++ second) = ofList first ++ ofList second := by
  rw [ofList, List.foldl_append, foldl_eq_append]
  rfl

end Digest

/-- The short name of a string: its length and its scrambled hash.  Equal strings have equal
fingerprints; different strings may share one. -/
structure Fingerprint where
  length : UInt32
  hash : UInt32
  deriving DecidableEq, Repr

/-- The fingerprint of a list of the given length and digest. -/
def Digest.fingerprint (digest : Digest) (length : Nat) : Fingerprint :=
  let length := UInt32.ofNat length
  ⟨length, scramble (digest.hash ^^^ length)⟩

end FormalLanguages
