/-!
# Heartbeats

A session counts the windows in which it heard nothing.  Only a heartbeat clears the count; other
requests leave it as it is.
-/

namespace UnionFS

/-- How many windows have been missed, and at how many the session is given up. -/
structure Heartbeat where
  missed : Nat := 0
  threshold : Nat := 5
  deriving DecidableEq, Repr

namespace Heartbeat

def expired (h : Heartbeat) : Bool :=
  h.threshold ≤ h.missed

/-- The count stops at the greatest number of 32 bits. -/
def ceiling : Nat := 2 ^ 32 - 1

def miss (h : Heartbeat) : Heartbeat :=
  { h with missed := min (h.missed + 1) ceiling }

def beat (h : Heartbeat) : Heartbeat :=
  { h with missed := 0 }

end Heartbeat
end UnionFS
