import PagedScan.Direction

/-!
# Which keys a walk keeps to

A filter narrows a walk on two axes: the key must begin with `stem`, and the
walk must not have reached `stop`. An empty byte string leaves its axis open,
so no filter asks for keys before the empty key.

`stop` is exclusive in the direction of the walk: going forward it is an upper
bound, going backward a lower one.
-/

namespace PagedScan

/-- The condition under which a walk goes on. -/
structure Filter where
  stem : Bytes := []
  stop : Bytes := []
  deriving DecidableEq, Repr

namespace Filter

/-- The filter of a stem and a stop that may each be absent. -/
def ofOptions (stem stop : Option Bytes) : Filter :=
  ⟨stem.getD [], stop.getD []⟩

/-- The filter that asks only for a stem. -/
def ofStem (stem : Bytes) : Filter :=
  ⟨stem, []⟩

/-- The filter that asks only for a stop. -/
def ofStop (stop : Bytes) : Filter :=
  ⟨[], stop⟩

/-- Whether the key comes before the stop. -/
def inRange (f : Filter) (d : Direction) (key : Bytes) : Bool :=
  f.stop.isEmpty || d.before key f.stop

/-- Whether the key begins with the stem. -/
def hasStem (f : Filter) (key : Bytes) : Bool :=
  f.stem.isEmpty || Bytes.startsWith key f.stem

/-- Whether a walk in direction `d` may take the key. -/
def admits (f : Filter) (d : Direction) (key : Bytes) : Bool :=
  f.inRange d key && f.hasStem key

end Filter

end PagedScan
