/-
# Indices count within a width

An index is a natural number kept in an unsigned word of a fixed width.  Counting on from the
greatest number of that width is a fault; it never starts again from zero, so an index that has
been handed out is never handed out twice.
-/

import FormalLanguages.Fault

namespace FormalLanguages

/-- A number of one family, kept in a word of `width` bits. -/
structure Index where
  kind : IndexKind
  width : Nat
  value : Nat
  deriving DecidableEq, Repr

namespace Index

/-- The first index of a family. -/
def first (kind : IndexKind) (width : Nat) : Index := ⟨kind, width, 0⟩

/-- The index that follows, if the width has room for it. -/
def succ (index : Index) : Except Fault Index :=
  if index.value + 1 < Nat.pow 2 index.width then .ok { index with value := index.value + 1 }
  else .error (.overflow index.kind)

/-- The text that shows an index. -/
def describe (index : Index) : String := index.kind.describe index.value

/-- Indices of one family are ordered by their numbers. -/
instance : Ord Index where
  compare first second := compare first.value second.value

end Index

end FormalLanguages
