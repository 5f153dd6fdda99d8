/-
Reading command line arguments: options with one value or none, and operands.

An option is written `--name value`, `--name=value` or, if it has a letter, `-n value`, `-nvalue` or
`-n=value`; letters of options without a value may share one hyphen. Each option may be given once.
A value on its own must not start with a hyphen, except for the hyphen alone; everything behind `--`
is an operand.
-/
import CodeCache.Text

namespace CodeCache.Arguments

/-- what follows an option -/
inductive Shape where
  /-- nothing -/
  | switch
  /-- any text -/
  | text
  /-- a path, which is not empty -/
  | path
deriving DecidableEq, Repr

structure OptionSpec where
  name : Text
  letter : Option Char
  shape : Shape
deriving DecidableEq, Repr

/-- why the arguments lead to no command -/
inductive Stop where
  /-- they make no sense -/
  | usage
  | help
  | version
deriving DecidableEq, Repr

/-- which options there are -/
structure Level where
  options : List OptionSpec
  /-- the version can be asked for -/
  hasVersion : Bool
deriving DecidableEq, Repr

/-- the options read so far, each with its value -/
abbrev Found := List (OptionSpec × Text)

structure Reading where
  found : Found
  /-- the option that waits for its value -/
  pending : Option OptionSpec
  /-- everything that follows is an operand -/
  operandsOnly : Bool
deriving DecidableEq, Repr

namespace Reading

def start : Reading := ⟨[], none, false⟩

/-- gives an option its value -/
def record (r : Reading) (o : OptionSpec) (value : Text) : Except Stop Reading :=
  if (r.found.lookup o).isSome then .error .usage
  else if o.shape = .path ∧ value.isEmpty then .error .usage
  else .ok { r with found := r.found ++ [(o, value)], pending := none }

end Reading

namespace Level

/-- the option of a name, with a value attached or without one -/
def readLong (level : Level) (r : Reading) (name : Text) (value : Option Text) :
    Except Stop Reading :=
  if name = "help".toList ∧ value.isNone then .error .help
  else if name = "version".toList ∧ value.isNone ∧ level.hasVersion then .error .version
  else
    match level.options.find? (·.name = name), value with
    | none, _ => .error .usage
    | some o, some value => if o.shape = .switch then .error .usage else r.record o value
    | some o, none => if o.shape = .switch then r.record o [] else .ok { r with pending := some o }

/-- the options of the letters behind one hyphen; the value of the last one may follow it -/
def readLetters (level : Level) (r : Reading) : Text → Except Stop Reading
  | [] => .ok r
  | c :: rest =>
    if c = 'h' then .error .help
    else if c = 'V' ∧ level.hasVersion then .error .version
    else
      match level.options.find? (·.letter = some c) with
      | none => .error .usage
      | some o =>
        if o.shape = .switch then
          match r.record o [] with
          | .error e => .error e
          | .ok r => level.readLetters r rest
        else if rest.isEmpty then .ok { r with pending := some o }
        else r.record o ((['='].isPrefixOf? rest).getD rest)

/-- what one argument is -/
inductive Step where
  | going (r : Reading)
  /-- an operand -/
  | operand (t : Text)
deriving DecidableEq, Repr

/-- an argument that starts an option, which ends the wait for a value without one -/
def readOption (level : Level) (r : Reading) (argument : Text) : Except Stop Reading :=
  if r.pending.isSome then .error .usage
  else
    match ['-', '-'].isPrefixOf? argument with
    | some body =>
      match Text.splitFirst? '=' body with
      | some (name, value) => level.readLong r name (some value)
      | none => level.readLong r body none
    | none => level.readLetters r (argument.drop 1)

def read (level : Level) (r : Reading) (argument : Text) : Except Stop Step :=
  if r.operandsOnly then .ok (.operand argument)
  else if argument = ['-', '-'] then .ok (.going { r with operandsOnly := true })
  else if argument.head? = some '-' ∧ argument ≠ ['-'] then (level.readOption r argument).map .going
  else
    match r.pending with
    | some o => (r.record o argument).map .going
    | none => .ok (.operand argument)

/-- the options in front of the first operand, that operand, and the arguments behind it -/
def readToOperand (level : Level) (r : Reading) : List Text → Except Stop (Found × Text × List Text)
  | [] => .error .usage
  | argument :: rest =>
    match level.read r argument with
    | .error e => .error e
    | .ok (.going r) => level.readToOperand r rest
    | .ok (.operand name) => if r.operandsOnly then .error .usage else .ok (r.found, name, rest)

/-- all options, and all operands -/
def readAll (level : Level) (r : Reading) (operands : List Text) :
    List Text → Except Stop (Found × List Text)
  | [] => if r.pending.isSome then .error .usage else .ok (r.found, operands)
  | argument :: rest =>
    match level.read r argument with
    | .error e => .error e
    | .ok (.going r) => level.readAll r operands rest
    | .ok (.operand t) => level.readAll r (operands ++ [t]) rest

end Level

namespace Found

/-- the value of an option -/
def value? (found : Found) (name : String) : Option Text :=
  (found.find? fun (o, _) => o.name = name.toList).map (·.2)

/-- the option was given -/
def has (found : Found) (name : String) : Bool := (value? found name).isSome

end Found

end CodeCache.Arguments
