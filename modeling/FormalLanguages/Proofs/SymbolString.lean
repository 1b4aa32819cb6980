/-
# A string does not remember how it was put together

Joining two strings computes the digest of the result from the two cached digests, and has
shortcuts for empty operands; collecting symbols computes it symbol by symbol, and drops the empty
symbols on the way.  Here the two are compared.  The digest of a list is known in closed form, a
polynomial at the multiplier and a power of the multiplier, and a string that a phrase describes
has the digest of the leaves of the phrase, whatever joins and repetitions stand above them.
-/

import FormalLanguages.Phrase

namespace FormalLanguages

namespace Digest

/-- The value at the multiplier of the polynomial that has the scrambled symbols as coefficients,
the one of the first symbol at the highest power. -/
def polynomial : List Symbol → UInt32
  | [] => 0
  | x :: rest => scramble x.word * multiplier ^ rest.length + polynomial rest

/-- The scale of a list depends on its length alone. -/
theorem scale_ofList (symbols : List Symbol) :
    (ofList symbols).scale = multiplier ^ symbols.length := by
  induction symbols with
  | nil => rfl
  | cons x rest ih =>
      calc
        (ofList (x :: rest)).scale = multiplier * (ofList rest).scale := by rw [ofList_cons]; rfl
        _ = multiplier ^ rest.length * multiplier := by rw [ih, UInt32.mul_comm]
        _ = multiplier ^ (x :: rest).length := (UInt32.pow_succ multiplier rest.length).symm

theorem hash_ofList (symbols : List Symbol) : (ofList symbols).hash = polynomial symbols := by
  induction symbols with
  | nil => rfl
  | cons x rest ih =>
      rw [ofList_cons, append_def, polynomial, ← ih, ← scale_ofList]
      rfl

end Digest

namespace SymbolString

/-- The symbols of a list that are not empty. -/
def proper (symbols : List Symbol) : List Symbol := symbols.filter fun x => !x.isEpsilon

theorem proper_append (leaves others : List Symbol) :
    proper (leaves ++ others) = proper leaves ++ proper others := List.filter_append leaves others

/-- A string that is what collecting a list of symbols gives: the symbols that are not empty, in
order, with their digest and their fingerprint. -/
structure Collects (s : SymbolString) (leaves : List Symbol) : Prop where
  symbols_eq : s.symbols = proper leaves
  digest_eq : s.digest = (ofSymbols leaves).digest
  hash_eq : s.digest.hash = Digest.polynomial (proper leaves)
  scale_eq : s.digest.scale = Digest.multiplier ^ (proper leaves).length
  fingerprint_eq : s.fingerprint = (ofSymbols leaves).fingerprint

/-- It is enough to look at the symbols. -/
theorem collects_of_symbols_eq {s : SymbolString} {leaves : List Symbol}
    (hsymbols : s.symbols = proper leaves) : s.Collects leaves := by
  have hsame : s = ofSymbols leaves := ext hsymbols
  have hdigest : s.digest = Digest.ofList (proper leaves) := hsymbols ▸ s.digest_eq
  refine ⟨hsymbols, congrArg digest hsame, ?_, ?_, congrArg fingerprint hsame⟩
  · rw [hdigest, Digest.hash_ofList]
  · rw [hdigest, Digest.scale_ofList]

theorem collects_ofSymbols (leaves : List Symbol) : (ofSymbols leaves).Collects leaves :=
  collects_of_symbols_eq rfl

theorem collects_empty : empty.Collects [] := collects_of_symbols_eq rfl

theorem Collects.append {s t : SymbolString} {leaves others : List Symbol}
    (hs : s.Collects leaves) (ht : t.Collects others) : (s ++ t).Collects (leaves ++ others) := by
  apply collects_of_symbols_eq
  rw [symbols_append, hs.symbols_eq, ht.symbols_eq, proper_append]

theorem append_assoc (first second third : SymbolString) :
    first ++ second ++ third = first ++ (second ++ third) := by
  apply ext
  simp only [symbols_append, List.append_assoc]

theorem empty_append (s : SymbolString) : empty ++ s = s := ext (by simp)

theorem append_empty (s : SymbolString) : s ++ empty = s := ext (by simp)

end SymbolString

namespace Meaning

/-- A meaning that comes from the given leaves: a symbol is its own leaf, and a string is what
collecting the leaves gives. -/
def Collects : Meaning → List Symbol → Prop
  | symbol x, leaves => leaves = [x]
  | string s, leaves => s.Collects leaves

/-- Joining two meanings puts their leaves side by side. -/
theorem Collects.join {first second : Meaning} {leaves others : List Symbol}
    (hfirst : first.Collects leaves) (hsecond : second.Collects others) :
    (first.join second).Collects (leaves ++ others) := by
  cases first with
  | symbol x =>
      cases second with
      | symbol y =>
          subst hfirst hsecond
          exact SymbolString.collects_ofSymbols [x, y]
      | string t =>
          subst hfirst
          exact (SymbolString.collects_ofSymbols [x]).append hsecond
  | string s =>
      cases second with
      | symbol y =>
          subst hsecond
          exact SymbolString.Collects.append hfirst (SymbolString.collects_ofSymbols [y])
      | string t => exact SymbolString.Collects.append hfirst hsecond

end Meaning

namespace Phrase

/-- The leaves of a phrase from left to right, empty symbols included, given those of the phrases
evaluated before it. -/
def leaves (before : Array (List Symbol)) : Phrase → Option (List Symbol)
  | symbol x => some [x]
  | empty => some []
  | unit x => some [x]
  | collected symbols => some symbols
  | earlier position => before[position]?
  | joined first second => do return (← first.leaves before) ++ (← second.leaves before)
  | repeated body times => do return (List.replicate times (← body.leaves before)).flatten

/-- The leaves of phrases in order, each given those of the phrases before it. -/
def leavesAll (phrases : List Phrase) : Option (Array (List Symbol)) :=
  phrases.foldlM (fun before phrase => return before.push (← phrase.leaves before)) #[]

/-- Meanings that come one by one from the given leaves. -/
structure Told (meanings : Array Meaning) (leaves : Array (List Symbol)) : Prop where
  size_eq : meanings.size = leaves.size
  collects : ∀ (position : Nat) meaning list, meanings[position]? = some meaning →
    leaves[position]? = some list → meaning.Collects list

variable {meanings : Array Meaning} {leavesBefore : Array (List Symbol)}

theorem Told.push (htold : Told meanings leavesBefore) {meaning : Meaning} {list : List Symbol}
    (hcollects : meaning.Collects list) :
    Told (meanings.push meaning) (leavesBefore.push list) where
  size_eq := by simp [htold.size_eq]
  collects position found other hfound hother := by
    rw [Array.getElem?_push] at hfound hother
    rw [htold.size_eq] at hfound
    split at hfound
    · next hlast =>
        rw [if_pos hlast] at hother
        cases hfound
        cases hother
        exact hcollects
    · next hlast =>
        rw [if_neg hlast] at hother
        exact htold.collects position found other hfound hother

/-- Appending a meaning again and again repeats its leaves. -/
theorem collects_appendTimes {body : Meaning} {list : List Symbol} (hbody : body.Collects list)
    (times : Nat) {start : SymbolString} {others : List Symbol} (hstart : start.Collects others) :
    (appendTimes body times start).Collects
      (others ++ (List.replicate times list).flatten) := by
  induction times generalizing start others with
  | zero =>
      rw [List.replicate_zero, List.flatten_nil, List.append_nil]
      exact hstart
  | succ times ih =>
      have hstart : (Meaning.string start).Collects others := hstart
      have hjoined : (Meaning.join (.string start) body).Collects (others ++ list) :=
        hstart.join hbody
      rw [List.replicate_succ, List.flatten_cons, ← List.append_assoc]
      exact ih hjoined

/-- A phrase has a meaning exactly if it has leaves, and the meaning comes from the leaves. -/
theorem eval_collects (htold : Told meanings leavesBefore) (phrase : Phrase) :
    Option.Rel Meaning.Collects (phrase.eval meanings) (phrase.leaves leavesBefore) := by
  induction phrase with
  | symbol x => exact .some rfl
  | empty => exact .some SymbolString.collects_empty
  | unit x => exact .some (SymbolString.collects_ofSymbols [x])
  | collected symbols => exact .some (SymbolString.collects_ofSymbols symbols)
  | earlier position =>
      simp only [eval, leaves]
      by_cases hposition : position < meanings.size
      · have hposition' : position < leavesBefore.size := htold.size_eq ▸ hposition
        have hmeaning := Array.getElem?_eq_getElem hposition
        have hlist := Array.getElem?_eq_getElem hposition'
        rw [hmeaning, hlist]
        exact .some (htold.collects position _ _ hmeaning hlist)
      · have hposition' : ¬position < leavesBefore.size := htold.size_eq ▸ hposition
        rw [Array.getElem?_eq_none (Nat.not_lt.mp hposition),
          Array.getElem?_eq_none (Nat.not_lt.mp hposition')]
        exact .none
  | joined first second ihFirst ihSecond =>
      simp only [eval, leaves]
      generalize first.eval meanings = meaning, first.leaves leavesBefore = list at ihFirst ⊢
      generalize second.eval meanings = other, second.leaves leavesBefore = others at ihSecond ⊢
      cases ihFirst with
      | none => exact .none
      | some hfirst =>
          cases ihSecond with
          | none => exact .none
          | some hsecond => exact .some (hfirst.join hsecond)
  | repeated body times ih =>
      simp only [eval, leaves]
      generalize body.eval meanings = meaning, body.leaves leavesBefore = list at ih ⊢
      cases ih with
      | none => exact .none
      | some hbody => exact .some (collects_appendTimes hbody times SymbolString.collects_empty)

/-- So it is for phrases that are evaluated one after the other. -/
theorem foldlM_told (htold : Told meanings leavesBefore) (phrases : List Phrase) :
    Option.Rel Told
      (phrases.foldlM (fun before phrase => return before.push (← phrase.eval before)) meanings)
      (phrases.foldlM (fun before phrase => return before.push (← phrase.leaves before))
        leavesBefore) := by
  induction phrases generalizing meanings leavesBefore with
  | nil => exact .some htold
  | cons phrase rest ih =>
      have hphrase := eval_collects htold phrase
      rw [List.foldlM_cons, List.foldlM_cons]
      generalize phrase.eval meanings = meaning, phrase.leaves leavesBefore = list at hphrase ⊢
      cases hphrase with
      | none => exact .none
      | some hcollects => exact ih (htold.push hcollects)

theorem evalAll_told (phrases : List Phrase) :
    Option.Rel Told (evalAll phrases) (leavesAll phrases) :=
  foldlM_told ⟨rfl, fun position _ _ hmeaning => by simp at hmeaning⟩ phrases

/-- Phrases evaluated in order give, one by one, what collecting their leaves gives, digest and
fingerprint included; they have no meaning only where they have no leaves.  Concatenation is
associative, and the empty string changes nothing on either side.  Two strings with the same
leaves, up to empty ones, are the same, in whatever order they were put together. -/
theorem strings_told_by_leaves :
    (∀ phrases : List Phrase, Option.Rel Told (evalAll phrases) (leavesAll phrases)) ∧
    (∀ first second third : SymbolString,
      first ++ second ++ third = first ++ (second ++ third) ∧
        SymbolString.empty ++ first = first ∧ first ++ SymbolString.empty = first) ∧
    ∀ (s t : SymbolString) (list others : List Symbol), s.Collects list → t.Collects others →
      SymbolString.proper list = SymbolString.proper others → s = t := by
  refine ⟨evalAll_told, fun first second third => ?_, fun s t list others hs ht hsame => ?_⟩
  · exact ⟨first.append_assoc second third, first.empty_append, first.append_empty⟩
  · apply SymbolString.ext
    rw [hs.symbols_eq, ht.symbols_eq, hsame]

/-- A string of one symbol and an empty one; what it gives twice behind a symbol that is joined to
an empty one first; and the same symbols put together from the right. -/
def nesting : List Phrase :=
  [.collected [⟨-1⟩, .epsilon],
    .joined (.joined (.symbol ⟨1⟩) (.symbol .epsilon)) (.repeated (.earlier 0) 2),
    .joined (.symbol ⟨1⟩) (.joined (.earlier 0) (.unit ⟨-1⟩))]

/-- The second and the third of these are the same string. -/
theorem strings_told_by_leaves_nested :
    ∃ s t : SymbolString,
      evalAll nesting =
        some #[.string (.ofSymbols [⟨-1⟩, .epsilon]), .string s, .string t] ∧
      s.Collects [⟨1⟩, .epsilon, ⟨-1⟩, .epsilon, ⟨-1⟩, .epsilon] ∧
      t.Collects [⟨1⟩, ⟨-1⟩, .epsilon, ⟨-1⟩] ∧ s = t := by
  obtain ⟨htold, -, hsame⟩ := strings_told_by_leaves
  have hnesting := htold nesting
  have hmeanings : evalAll nesting = some #[.string (.ofSymbols [⟨-1⟩, .epsilon]),
      .string (.ofSymbols [⟨1⟩, ⟨-1⟩, ⟨-1⟩]), .string (.ofSymbols [⟨1⟩, ⟨-1⟩, ⟨-1⟩])] := by
    decide +kernel
  have hleaves : leavesAll nesting = some #[[⟨-1⟩, .epsilon],
      [⟨1⟩, .epsilon, ⟨-1⟩, .epsilon, ⟨-1⟩, .epsilon], [⟨1⟩, ⟨-1⟩, .epsilon, ⟨-1⟩]] := by
    decide +kernel
  rw [hmeanings, hleaves] at hnesting
  cases hnesting with
  | some hnested =>
      have hs := hnested.collects 1 _ _ rfl rfl
      have ht := hnested.collects 2 _ _ rfl rfl
      exact ⟨_, _, hmeanings, hs, ht, hsame _ _ _ _ hs ht (by decide)⟩

end Phrase

end FormalLanguages
