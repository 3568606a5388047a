namespace PropertyGraph

-- What is told apart, and put in order, by its name.
class Named (κ : Type) where
  name : κ → String
  name_injective : ∀ {a b : κ}, name a = name b → a = b

instance : Named String where
  name := id
  name_injective := id

@[ext]
structure Label where
  name : String
deriving DecidableEq, Hashable, Inhabited, Repr

instance : Named Label where
  name := Label.name
  name_injective := Label.ext

-- The label of the nodes that were given none.
def Label.allNodes : Label := ⟨"__ALL__"⟩

def Label.isAllNodes (l : Label) : Bool :=
  l = allNodes

@[ext]
structure RelType where
  name : String
deriving DecidableEq, Hashable, Inhabited, Repr

instance : Named RelType where
  name := RelType.name
  name_injective := RelType.ext

namespace Named

variable {κ : Type} [Named κ]

def quote (k : κ) : String :=
  "'" ++ name k ++ "'"

-- Names in single quotes, with a comma and a blank between two.
def quoteAll (ks : List κ) : String :=
  ", ".intercalate (ks.map quote)

end Named

end PropertyGraph
