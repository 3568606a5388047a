namespace PropertyGraph.Text

def escape : Char := '\x1b'

-- Where in a control sequence a text stands.
inductive ControlState
  -- Outside of all sequences.
  | ground
  | escape
  -- Behind an escape character and intermediate characters.
  | intermediate
  | csi
  -- A command for an operating system, which a bell ends.
  | osc
  -- In front of a device control string: at its start, among its parameters, behind intermediates.
  | dcsEntry
  | dcsParameters
  | dcsIntermediate
  -- A string that a string terminator ends.
  | string
deriving DecidableEq, Repr

-- A tab, a line break or a page break.
def isBreak (c : Char) : Bool := c = '\t' || c = '\n' || c = '\x0c' || c = '\r'

-- Whether the byte that terminates strings is among those of a character.
def holdsTerminator (c : Char) : Bool := (String.utf8EncodeChar c).contains 0x9c

namespace ControlState

-- Whether a character is shown. Breaks are shown inside sequences too, but not inside strings.
def shows (s : ControlState) (c : Char) : Bool :=
  match s with
  | ground => isBreak c || (' ' ≤ c && c ≠ '\x7f')
  | escape | intermediate | csi => isBreak c
  | _ => false

-- The state that a first character behind an escape character leads to.
def ofIntroducer (c : Char) : ControlState :=
  if c < ' ' || '\x7f' ≤ c then escape
  else if c ≤ '/' then intermediate
  else if c = '[' then csi
  else if c = ']' then osc
  else if c = 'P' then dcsEntry
  else if c = 'X' || c = '^' || c = '_' then string
  else ground

-- The state behind a character. An escape character begins a new sequence anywhere.
def next (s : ControlState) (c : Char) : ControlState :=
  if c = Text.escape then escape
  else if c = '\x18' || c = '\x1a' then ground
  else
    match s with
    | ground => ground
    | escape => ofIntroducer c
    | intermediate => if '0' ≤ c && c ≤ '~' then ground else intermediate
    | csi => if '@' ≤ c && c ≤ '~' then ground else csi
    | osc => if c = '\x07' then ground else osc
    | dcsEntry | dcsParameters =>
      if c < ' ' || '\x7f' ≤ c then s
      else if c ≤ '/' then dcsIntermediate
      else if '@' ≤ c || ('<' ≤ c && s = dcsParameters) then string
      else dcsParameters
    | dcsIntermediate =>
      if c < '0' || '\x7f' ≤ c then dcsIntermediate else string
    | string => if holdsTerminator c then ground else string

end ControlState

-- What is shown of a text. A break inside a sequence suspends it: what follows is shown up to a control
-- character, which resumes it, unless a character beyond the ASCII ones has ended it before.
def plainFrom (s : ControlState) (isSuspended : Bool) : List Char → List Char
  | [] => []
  | c :: cs =>
    if (if isSuspended then .ground else s).shows c then
      c :: plainFrom (if c.toNat < 0x80 then s else .ground) true cs
    else plainFrom (s.next c) false cs

-- What remains of a text without control sequences and control characters.
def plain (s : String) : String := String.ofList (plainFrom .ground false s.toList)

theorem plainFrom_of_shows {cs : List Char} (b : Bool) (h : ∀ c ∈ cs, ControlState.ground.shows c) :
    plainFrom .ground b cs = cs := by
  induction cs generalizing b with
  | nil => rfl
  | cons c cs ih =>
    have hc : ControlState.ground.shows c = true := h c (by simp)
    have hcs := ih true fun d hd => h d (by simp [hd])
    simp [plainFrom, hc, hcs]

theorem plain_of_shows {s : String} (h : ∀ c ∈ s.toList, ControlState.ground.shows c) : plain s = s := by
  simp [plain, plainFrom_of_shows false h]

-- A text in heavier type.
def bold (s : String) : String := s!"{escape}[1m{s}{escape}[0m"

-- A text in heavier type with a line below it.
def underlined (s : String) : String := s!"{escape}[1m{escape}[4m{s}{escape}[0m"

end PropertyGraph.Text
