/-
# Fingerprints add and cancel

The digest of a concatenation is a sum: the hash of the first part, moved by the scale of the second
one, and the hash of the second part.  Both summands can be told from the sum and the other one,
because the scale is a power of an odd number and so can be divided by.  The power depends on the
length of the second part only modulo 2^32, and this is just what a fingerprint has of the length.
Nothing is lost by scrambling either.  So strings with the same fingerprint may be put for each
other in every concatenation, and a common part on one side may be left out.

A change of one symbol in the middle of a string is then a change of a string of one symbol, and the
fingerprint of such a string is the scrambled symbol.
-/

import Mathlib.FieldTheory.Finite.Basic
import FormalLanguages.Proofs.SymbolString

namespace FormalLanguages

section Words

variable {factor x y : UInt32}

/-- Words that add the bits of their upper part to the lower one can be told apart: the highest bit
in which two of them differ is not shifted onto. -/
theorem xor_shiftRight_inj {shift : UInt32} (hshift : shift.toNat % 32 ≠ 0) :
    x ^^^ x >>> shift = y ^^^ y >>> shift ↔ x = y := by
  refine ⟨fun hsame => UInt32.xor_eq_zero_iff.mp ?_, fun heq => by rw [heq]⟩
  have hfixed : x ^^^ y = (x ^^^ y) >>> shift := by
    rw [UInt32.shiftRight_xor, ← UInt32.xor_eq_zero_iff]
    calc
      x ^^^ y ^^^ (x >>> shift ^^^ y >>> shift)
        = x ^^^ x >>> shift ^^^ (y ^^^ y >>> shift) := by ac_rfl
      _ = 0 := UInt32.xor_eq_zero_iff.mpr hsame
  generalize x ^^^ y = difference at hfixed
  have hhalf := congrArg UInt32.toNat hfixed
  rw [UInt32.toNat_shiftRight, Nat.shiftRight_eq_div_pow] at hhalf
  by_contra hne
  have hpos : 0 < difference.toNat :=
    Nat.pos_of_ne_zero fun hzero => hne (UInt32.toNat_inj.mp hzero)
  exact absurd hhalf.symm (Nat.div_lt_self hpos (Nat.one_lt_two_pow hshift)).ne

/-- A word that can be divided by. -/
def Invertible (factor : UInt32) : Prop := factor.toNat.Coprime (2 ^ 32)

instance (factor : UInt32) : Decidable (Invertible factor) :=
  inferInstanceAs (Decidable (factor.toNat.Coprime (2 ^ 32)))

theorem Invertible.mul_left_inj (hfactor : Invertible factor) :
    x * factor = y * factor ↔ x = y := by
  refine ⟨fun hsame => UInt32.toNat_inj.mp ?_, fun heq => by rw [heq]⟩
  rw [← UInt32.toNat_inj, UInt32.toNat_mul, UInt32.toNat_mul] at hsame
  have hmod : x.toNat ≡ y.toNat [MOD 2 ^ 32] :=
    Nat.ModEq.cancel_right_of_coprime (Nat.gcd_comm _ _ ▸ hfactor) hsame
  exact hmod.eq_of_lt_of_lt x.toNat_lt y.toNat_lt

theorem toNat_pow (factor : UInt32) (exponent : Nat) :
    (factor ^ exponent).toNat = factor.toNat ^ exponent % 2 ^ 32 := by
  induction exponent with
  | zero => rfl
  | succ exponent ih =>
      rw [UInt32.pow_succ, UInt32.toNat_mul, ih, Nat.mod_mul_mod, ← Nat.pow_succ]

theorem Invertible.pow (hfactor : Invertible factor) (exponent : Nat) :
    Invertible (factor ^ exponent) := by
  rw [Invertible, toNat_pow, Nat.Coprime, (Nat.mod_modEq _ _).gcd_eq]
  exact Nat.Coprime.pow_left exponent hfactor

/-- Powers repeat after as many steps as there are words. -/
theorem Invertible.pow_congr (hfactor : Invertible factor) {exponent other : Nat}
    (hsame : UInt32.ofNat exponent = UInt32.ofNat other) : factor ^ exponent = factor ^ other := by
  have htotient : (2 ^ 32).totient * 2 = 2 ^ 32 := by
    rw [Nat.totient_prime_pow Nat.prime_two (by decide)]
    rfl
  have hperiod : factor.toNat ^ (2 ^ 32) ≡ 1 [MOD 2 ^ 32] := by
    have hsquare := (Nat.ModEq.pow_totient hfactor).pow 2
    rwa [← Nat.pow_mul, htotient, Nat.one_pow] at hsquare
  have hreduce (n : Nat) : factor.toNat ^ n ≡ factor.toNat ^ (n % 2 ^ 32) [MOD 2 ^ 32] := by
    have hcycles := (hperiod.pow (n / 2 ^ 32)).mul_right (factor.toNat ^ (n % 2 ^ 32))
    rwa [← Nat.pow_mul, ← Nat.pow_add, Nat.div_add_mod, Nat.one_pow, Nat.one_mul] at hcycles
  rw [← UInt32.toNat_inj, UInt32.toNat_ofNat', UInt32.toNat_ofNat'] at hsame
  rw [← UInt32.toNat_inj, toNat_pow, toNat_pow]
  exact (hreduce exponent).trans (hsame ▸ (hreduce other).symm)

/-- Scrambling loses nothing. -/
theorem scramble_inj : scramble x = scramble y ↔ x = y := by
  have hfirst : Invertible 0x85ebca6b := by decide +kernel
  have hsecond : Invertible 0xc2b2ae35 := by decide +kernel
  unfold scramble
  rw [xor_shiftRight_inj (by decide), hsecond.mul_left_inj, xor_shiftRight_inj (by decide),
    hfirst.mul_left_inj, xor_shiftRight_inj (by decide)]

end Words

theorem Digest.invertible_multiplier : Invertible multiplier := by
  decide +kernel

theorem Symbol.word_inj {x y : Symbol} : x.word = y.word ↔ x = y := by
  refine ⟨fun hsame => ?_, fun heq => by rw [heq]⟩
  obtain ⟨⟨value⟩⟩ := x
  obtain ⟨⟨value'⟩⟩ := y
  exact congrArg (fun word => Symbol.mk ⟨word⟩) hsame

namespace SymbolString

variable {a a' b b' s t : SymbolString}

theorem digest_append (first second : SymbolString) :
    (first ++ second).digest = first.digest ++ second.digest := by
  rw [digest_eq, symbols_append, Digest.ofList_append, ← digest_eq, ← digest_eq]

theorem length_append (first second : SymbolString) :
    (first ++ second).length = first.length + second.length := by
  simp [length]

/-- A fingerprint has the length modulo 2^32 and the hash, and nothing else. -/
theorem fingerprint_eq_iff : s.fingerprint = t.fingerprint ↔
    UInt32.ofNat s.length = UInt32.ofNat t.length ∧ s.digest.hash = t.digest.hash := by
  simp only [fingerprint, Digest.fingerprint, Fingerprint.mk.injEq, scramble_inj]
  refine and_congr_right fun hlength => ?_
  rw [hlength, UInt32.xor_left_inj]

theorem scale_eq (s : SymbolString) : s.digest.scale = Digest.multiplier ^ s.length := by
  rw [digest_eq, Digest.scale_ofList]
  rfl

theorem invertible_scale (s : SymbolString) : Invertible s.digest.scale := by
  rw [scale_eq]
  exact Digest.invertible_multiplier.pow _

/-- The scale of a string depends on its fingerprint. -/
theorem scale_congr (hlength : UInt32.ofNat s.length = UInt32.ofNat t.length) :
    s.digest.scale = t.digest.scale := by
  rw [scale_eq, scale_eq]
  exact Digest.invertible_multiplier.pow_congr hlength

/-- The fingerprint of a concatenation depends on those of its parts. -/
theorem fingerprint_append_congr (hfirst : a.fingerprint = a'.fingerprint)
    (hsecond : b.fingerprint = b'.fingerprint) :
    (a ++ b).fingerprint = (a' ++ b').fingerprint := by
  obtain ⟨hlength, hhash⟩ := fingerprint_eq_iff.mp hfirst
  obtain ⟨hlength', hhash'⟩ := fingerprint_eq_iff.mp hsecond
  rw [fingerprint_eq_iff, length_append, length_append, UInt32.ofNat_add, UInt32.ofNat_add,
    digest_append, digest_append, Digest.append_def, Digest.append_def]
  exact ⟨by rw [hlength, hlength'], by rw [hhash, hhash', scale_congr hlength']⟩

/-- A common end may be left out. -/
theorem fingerprint_append_right :
    (a ++ b).fingerprint = (a' ++ b).fingerprint ↔ a.fingerprint = a'.fingerprint := by
  rw [fingerprint_eq_iff, fingerprint_eq_iff, length_append, length_append, UInt32.ofNat_add,
    UInt32.ofNat_add, UInt32.add_left_inj, digest_append, digest_append, Digest.append_def,
    Digest.append_def, UInt32.add_left_inj, b.invertible_scale.mul_left_inj]

/-- A common beginning may be left out. -/
theorem fingerprint_append_left :
    (a ++ b).fingerprint = (a ++ b').fingerprint ↔ b.fingerprint = b'.fingerprint := by
  rw [fingerprint_eq_iff, fingerprint_eq_iff, length_append, length_append, UInt32.ofNat_add,
    UInt32.ofNat_add, UInt32.add_right_inj, digest_append, digest_append, Digest.append_def,
    Digest.append_def]
  refine and_congr_right fun hlength => ?_
  rw [scale_congr hlength, UInt32.add_right_inj]

/-- A string is taken apart at one of its symbols. -/
theorem exists_split {position : Nat} {x : Symbol} (hx : s.get? position = some x) :
    s = ofSymbols (s.symbols.take position) ++ ofSymbol x ++
      ofSymbols (s.symbols.drop (position + 1)) := by
  apply ext
  have hproper (symbols : List Symbol) (hsub : ∀ y ∈ symbols, y ∈ s.symbols) :
      symbols.filter (fun y => !y.isEpsilon) = symbols :=
    List.filter_eq_self.mpr fun y hy => by simp [s.epsilonFree y (hsub y hy)]
  obtain ⟨hlt, rfl⟩ := List.getElem?_eq_some_iff.mp hx
  simp only [symbols_append, ofSymbol, symbols_ofSymbols]
  rw [hproper _ fun y => List.mem_of_mem_take, hproper _ fun y => List.mem_of_mem_drop,
    hproper [s.symbols[position]] (by simp)]
  simp

/-- Strings of one symbol have the fingerprints of their symbols. -/
theorem fingerprint_ofSymbol_inj {x y : Symbol} (hx : x.isEpsilon = false)
    (hy : y.isEpsilon = false)
    (hsame : (ofSymbol x).fingerprint = (ofSymbol y).fingerprint) : x = y := by
  have hhash := (fingerprint_eq_iff.mp hsame).2
  simp only [ofSymbol, ofSymbols, List.filter_cons, hx, hy, Bool.not_false, ↓reduceIte,
    List.filter_nil, Digest.ofList_cons, Digest.ofList_nil, Digest.append_empty,
    Digest.ofSymbol] at hhash
  exact Symbol.word_inj.mp (scramble_inj.mp hhash)

/-- Strings of one length that differ at one position have different fingerprints. -/
theorem fingerprint_ne_of_change (hlength : s.length = t.length) {position : Nat}
    (hchange : s.get? position ≠ t.get? position)
    (hsame : ∀ other, other ≠ position → s.get? other = t.get? other) :
    s.fingerprint ≠ t.fingerprint := by
  intro hfingerprint
  have hfirst : s.symbols.take position = t.symbols.take position := by
    apply List.ext_getElem?
    intro other
    rw [List.getElem?_take, List.getElem?_take]
    split
    · next hlt => exact hsame other (Nat.ne_of_lt hlt)
    · rfl
  have hlast : s.symbols.drop (position + 1) = t.symbols.drop (position + 1) := by
    apply List.ext_getElem?
    intro other
    rw [List.getElem?_drop, List.getElem?_drop]
    exact hsame _ (by omega)
  have hlt : position < s.length := by
    by_contra hnot
    have hout := Nat.not_lt.mp hnot
    exact hchange ((List.getElem?_eq_none hout).trans
      (List.getElem?_eq_none (hlength.symm.le.trans hout)).symm)
  have hx : s.get? position = some s.symbols[position] := List.getElem?_eq_getElem hlt
  have hlt' : position < t.length := hlength ▸ hlt
  have hy : t.get? position = some t.symbols[position] := List.getElem?_eq_getElem hlt'
  rw [exists_split hx, exists_split hy, hfirst, hlast, fingerprint_append_right,
    fingerprint_append_left] at hfingerprint
  apply hchange
  rw [hx, hy, fingerprint_ofSymbol_inj (s.epsilonFree _ (List.getElem_mem hlt))
    (t.epsilonFree _ (List.getElem_mem hlt')) hfingerprint]

/-- Having one fingerprint is a congruence of concatenation in which common parts cancel on either
side, and it tells strings apart that differ in a single symbol. -/
theorem fingerprints_cancel :
    (∀ a a' b b' : SymbolString, a.fingerprint = a'.fingerprint → b.fingerprint = b'.fingerprint →
      (a ++ b).fingerprint = (a' ++ b').fingerprint) ∧
    (∀ a a' b : SymbolString,
      (a ++ b).fingerprint = (a' ++ b).fingerprint ↔ a.fingerprint = a'.fingerprint) ∧
    (∀ a b b' : SymbolString,
      (a ++ b).fingerprint = (a ++ b').fingerprint ↔ b.fingerprint = b'.fingerprint) ∧
    ∀ s t : SymbolString, s.length = t.length →
      (∃! position, s.get? position ≠ t.get? position) → s.fingerprint ≠ t.fingerprint := by
  refine ⟨fun _ _ _ _ => fingerprint_append_congr, fun _ _ _ => fingerprint_append_right,
    fun _ _ _ => fingerprint_append_left, fun s t hlength hchange => ?_⟩
  obtain ⟨position, hchange, hunique⟩ := hchange
  refine fingerprint_ne_of_change hlength hchange fun other hother => ?_
  by_contra hne
  exact hother (hunique other hne)

/-- Two strings of two symbols with one fingerprint. -/
def colliding : SymbolString × SymbolString :=
  (.ofSymbols [⟨18⟩, ⟨-105⟩], .ofSymbols [⟨20⟩, ⟨30383⟩])

/-- They also collide one in front of the other, and the first one no longer collides with a string
in which only its last symbol is that of the second one. -/
theorem fingerprints_cancel_colliding :
    colliding.1 ≠ colliding.2 ∧
      (colliding.1 ++ colliding.2).fingerprint = (colliding.2 ++ colliding.1).fingerprint ∧
      colliding.1.fingerprint ≠ (ofSymbols [⟨18⟩, ⟨30383⟩]).fingerprint := by
  have hsame : colliding.1.fingerprint = colliding.2.fingerprint := by decide +kernel
  obtain ⟨hcongr, -, -, hchange⟩ := fingerprints_cancel
  refine ⟨by decide +kernel, hcongr _ _ _ _ hsame hsame.symm,
    hchange _ _ rfl ⟨1, by decide, fun position hposition => ?_⟩⟩
  match position with
  | 0 => exact absurd rfl hposition
  | 1 => rfl
  | _ + 2 => exact absurd rfl hposition

end SymbolString

end FormalLanguages
