import PagedScan.Page

/-!
# Reading a page from both ends

An iterator reads the entries of a page one at a time, each from whichever end
is asked for. It holds the slots that neither end has reached, as the range
from `front` up to `back`, and looks an entry up in the arena only when it is
pulled.
-/

namespace PagedScan.Page

/-- The entries of a page that have not been pulled yet. -/
structure Iter where
  page : Page
  front : Nat
  back : Nat

/-- An iterator over the whole page. -/
def iter (p : Page) : Iter :=
  ⟨p, 0, p.count⟩

namespace Iter

/-- How many entries are left. -/
def left (it : Iter) : Nat :=
  it.back - it.front

/-- Pulls from the front. -/
def next (it : Iter) : Option Entry × Iter :=
  if it.front < it.back then
    (it.page.get? it.front, { it with front := it.front + 1 })
  else
    (none, it)

/-- Pulls from the back. -/
def nextBack (it : Iter) : Option Entry × Iter :=
  if it.front < it.back then
    (it.page.get? (it.back - 1), { it with back := it.back - 1 })
  else
    (none, it)

end Iter

end PagedScan.Page
