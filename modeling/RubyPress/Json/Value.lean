/-!
JSON values. Integers and other numbers are kept apart, and the members of an object keep their
order and their repetitions.
-/

namespace RubyPress.Json

inductive Value where
  | null
  | bool (value : Bool)
  | int (value : Int)
  | real (value : Float)
  | str (value : String)
  | arr (elements : List Value)
  | obj (members : List (String × Value))

end RubyPress.Json
