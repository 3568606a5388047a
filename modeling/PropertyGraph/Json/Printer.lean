import PropertyGraph.Json.Value
import PropertyGraph.Text.Quoted

namespace PropertyGraph.Json

-- A control character has a short escape or its code in four digits; all else stands for itself.
def escapeChar (c : Char) : String :=
  match c with
  | '"' => "\\\""
  | '\\' => "\\\\"
  | '\x08' => "\\b"
  | '\x0c' => "\\f"
  | '\n' => "\\n"
  | '\r' => "\\r"
  | '\t' => "\\t"
  | c =>
    if c.toNat < 0x20 then
      let digits := Text.hex c.toNat
      "\\u" ++ String.ofList (List.replicate (4 - digits.length) '0') ++ digits
    else c.toString

def quoted (s : String) : String :=
  "\"" ++ String.join (s.toList.map escapeChar) ++ "\""

mutual

def compact : Json → String
  | null => "null"
  | bool b => if b then "true" else "false"
  | number n => toString n
  | string s => quoted s
  | array items => "[" ++ ",".intercalate (compactItems items) ++ "]"
  | object fields => "\x7b" ++ ",".intercalate (compactFields fields) ++ "\x7d"
  | other => "null"

def compactItems : List Json → List String
  | [] => []
  | j :: js => compact j :: compactItems js

def compactFields : List (String × Json) → List String
  | [] => []
  | (k, j) :: fs => (quoted k ++ ":" ++ compact j) :: compactFields fs

end

-- Items on lines of their own, two blanks further in than `margin`.
def block (opening closing margin : String) (items : List String) : String :=
  if items.isEmpty then opening ++ closing
  else
    let inner := margin ++ "  "
    opening ++ "\n" ++ ",\n".intercalate (items.map (inner ++ ·)) ++ "\n" ++ margin ++ closing

mutual

def prettyAt (margin : String) : Json → String
  | array items => block "[" "]" margin (prettyItems (margin ++ "  ") items)
  | object fields => block "\x7b" "\x7d" margin (prettyFields (margin ++ "  ") fields)
  | j => compact j

def prettyItems (margin : String) : List Json → List String
  | [] => []
  | j :: js => prettyAt margin j :: prettyItems margin js

def prettyFields (margin : String) : List (String × Json) → List String
  | [] => []
  | (k, j) :: fs => (quoted k ++ ": " ++ prettyAt margin j) :: prettyFields margin fs

end

def pretty (j : Json) : String := j.prettyAt ""

end PropertyGraph.Json
