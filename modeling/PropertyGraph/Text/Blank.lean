namespace PropertyGraph.Text

-- Whether a character has the property `White_Space`.
def isBlank (c : Char) : Bool :=
  let n := c.toNat
  (0x09 ≤ n && n ≤ 0x0d) || n = 0x20 || n = 0x85 || n = 0xa0 || n = 0x1680 ||
    (0x2000 ≤ n && n ≤ 0x200a) || n = 0x2028 || n = 0x2029 || n = 0x202f || n = 0x205f || n = 0x3000

-- A text without the blanks at its ends.
def trim (s : String) : String :=
  String.ofList (((s.toList.dropWhile isBlank).reverse.dropWhile isBlank).reverse)

-- Whether two texts are equal up to the case of ASCII letters.
def sameUpToCase (s t : String) : Bool :=
  s.toList.map Char.toLower = t.toList.map Char.toLower

-- The texts between the separators of a text; there is one more than there are separators.
def splitAt (separator : Char) (s : String) : List String :=
  (s.toList.splitOnP (· = separator)).map String.ofList

end PropertyGraph.Text
