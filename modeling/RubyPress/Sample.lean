import RubyPress.Tree.Build

/-!
Generated programs of any size, for measuring the writer.
-/

namespace RubyPress.Sample

open Node

/-- A method that sums `@items` and classifies the total. -/
def summingMethod (index : Nat) : Node :=
  let add := localWrite "total" (binary (localRead "total") "+" (localRead "n"))
  let each := (invoke (instanceRead "@items") "each" []).withBlock ["n"] (block [add])
  let classify := ifElse (binary (localRead "total") ">" (integer 100)) (block [symbol "big"])
    (some (block [symbol "small"]))
  definition s!"sum_{index}" [] (block [localWrite "total" (integer 0), each, classify])

/-- A number of top-level classes with a number of methods each. -/
def program (classes methods : Nat) : Node :=
  block <| (List.range classes).map fun index =>
    classDef (.simple s!"Bag{index}") none (block ((List.range methods).map summingMethod))

end RubyPress.Sample
