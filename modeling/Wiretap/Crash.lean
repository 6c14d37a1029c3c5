/-!
# Crashes

What brings the whole program down instead of failing: limits of tables and
clocks that nothing checks beforehand.
-/

namespace Wiretap

inductive Crash where
  /-- More different field names than a table of headers has room for. -/
  | crowdedHead
  /-- A moment that the clock cannot tell. -/
  | clockOverflow
  deriving DecidableEq, Repr, Inhabited

end Wiretap
