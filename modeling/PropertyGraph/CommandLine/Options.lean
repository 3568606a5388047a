namespace PropertyGraph.CommandLine

-- Why a command line stands for no command.
inductive Refusal
  -- It asks for the help text of the place where it does so.
  | help
  | version
  | usage (reason : String)
deriving DecidableEq, Repr

-- An option and the values it takes; a switch takes none.
structure OptionSpec where
  name : String
  accepts : Option (String → Bool)

-- Options that were given, by name, with an empty value for a switch.
abbrev Given := List (String × String)

-- The name in front of an equals sign, and the value behind it if there is one.
def splitValue (cs : List Char) : String × Option String :=
  let name := cs.takeWhile (· ≠ '=')
  match cs.dropWhile (· ≠ '=') with
  | _ :: value => (String.ofList name, some (String.ofList value))
  | [] => (String.ofList name, none)

-- Whether an argument can only be an option.
def looksLikeOption (arg : String) : Bool :=
  arg.toList.head? = some '-' && arg ≠ "-"

def give (spec : OptionSpec) (value : String) (given : Given) : Except Refusal Given :=
  if (given.lookup spec.name).isSome then
    .error (.usage s!"the argument '--{spec.name}' cannot be used multiple times")
  else if (spec.accepts.all fun accepts => accepts value) then .ok ((spec.name, value) :: given)
  else .error (.usage s!"invalid value '{value}' for '--{spec.name}'")

-- The value of an option as an argument of its own, and the arguments behind it.
def takeValue (name : String) : List String → Except Refusal (String × List String)
  | v :: args =>
    if looksLikeOption v then .error (.usage s!"a value is required for '--{name}' but none was supplied")
    else .ok (v, args)
  | [] => .error (.usage s!"a value is required for '--{name}' but none was supplied")

-- Options as far as they are read. A value that is an argument of its own is not checked at once.
structure Reading where
  given : Given
  -- The option read last, while its value is unchecked.
  last : Option (OptionSpec × String)

namespace Reading

def start : Reading := ⟨[], none⟩

-- The options, every value checked.
def settle (r : Reading) : Except Refusal Given :=
  match r.last with
  | some (spec, value) => give spec value r.given
  | none => .ok r.given

end Reading

-- The options in front, and the first argument that is none with all behind it.
def readOptions (specs : List OptionSpec) (hasVersion : Bool) :
    (fuel : Nat) → List String → Reading → Except Refusal (Reading × List String)
  | 0, args, r => .ok (r, args)
  | _, [], r => .ok (r, [])
  | fuel + 1, arg :: args, r =>
    match arg.toList with
    | ['-', '-'] =>
      match args with
      | [] => .ok (r, [])
      | extra :: _ => .error (.usage s!"unexpected argument '{extra}' found")
    | '-' :: '-' :: cs => do
      let given ← r.settle
      let (name, value) := splitValue cs
      match specs.find? (·.name = name) with
      | some spec =>
        if spec.accepts.isNone then
          if value.isSome then
            .error (.usage s!"unexpected value for '--{name}' found; no more were expected")
          else readOptions specs hasVersion fuel args ⟨← give spec "" given, none⟩
        else
          match value with
          | some v => readOptions specs hasVersion fuel args ⟨← give spec v given, none⟩
          | none =>
            let (v, args) ← takeValue name args
            readOptions specs hasVersion fuel args ⟨given, some (spec, v)⟩
      | none =>
        if name = "help" && value.isNone then .error .help
        else if name = "version" && value.isNone && hasVersion then .error .version
        else .error (.usage s!"unexpected argument '--{name}' found")
    | ['-'] => .ok (r, arg :: args)
    | '-' :: c :: _ => do
      let _ ← r.settle
      if c = 'h' then .error .help
      else if c = 'V' && hasVersion then .error .version
      else .error (.usage s!"unexpected argument '{arg}' found")
    | _ => .ok (r, arg :: args)

end PropertyGraph.CommandLine
