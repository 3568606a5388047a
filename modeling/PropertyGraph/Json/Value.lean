namespace PropertyGraph

-- Structured values as far as they are written and read here: names, natural numbers of 64 bits, truth values, lists
-- and objects.
inductive Json
  | null
  | bool (b : Bool)
  -- A natural number of 64 bits, written without sign, fraction and exponent.
  | number (n : Nat)
  | string (s : String)
  | array (items : List Json)
  -- Fields in the order they are written; a name may come twice.
  | object (fields : List (String × Json))
  -- Any other number, and whatever holds a string that is no text.
  | other
deriving Inhabited

end PropertyGraph
