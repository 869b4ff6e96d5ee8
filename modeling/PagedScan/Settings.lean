import PagedScan.Page

/-!
# Settings

What a search is told besides its queries: how much room its pages get, and
whether it goes on after a query has failed.
-/

namespace PagedScan

/-- What a search does once a query has failed: run the queries that are left,
or leave them out. -/
inductive FailurePolicy where
  | proceed
  | abort
  deriving DecidableEq, Repr, Inhabited

/-- The settings of a search. -/
structure Settings where
  pageSize : UInt64
  policy : FailurePolicy
  deriving DecidableEq, Repr

namespace Settings

/-- What holds when nothing is set. -/
def standard : Settings :=
  ⟨.ofNat Page.defaultSize, .proceed⟩

instance : Inhabited Settings := ⟨standard⟩

/-- The largest page size that may be loaded. -/
def maxPageSize : Nat := 1 <<< 20

/-- The settings with another page size, which is not checked. -/
def withPageSize (s : Settings) (size : UInt64) : Settings :=
  { s with pageSize := size }

/-- The settings with another policy. -/
def withPolicy (s : Settings) (policy : FailurePolicy) : Settings :=
  { s with policy := policy }

end Settings

end PagedScan
