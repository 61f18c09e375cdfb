/-!
# Options

How the arguments of a command are taken apart. An option has a long name, possibly a letter, and
a value: `--name value`, `--name=value`, `-n value`, `-nvalue` or `-n=value`. Each may be given
once. All else is positional; after `--` everything is. A value or positional that is not attached
must not look like an option, but a single dash is fine. The first argument that asks for help or
for the version, or that is wrong, decides.
-/
namespace ReplicatedStore

/-- An option of a command. -/
structure OptionSpec where
  name : String
  letter : Option Char := none
  /-- Whether a text is a value of the option. -/
  accepts : String → Bool := fun _ => true

/-- What a command takes. -/
structure CommandSpec where
  name : String
  options : List OptionSpec
  /-- The names of the positionals, all of which have to be there. -/
  positionals : List String

/-- Why arguments are not taken as they are. -/
inductive Refusal where
  | help
  | version
  /-- They do not fit the command. -/
  | usage
  deriving DecidableEq, Repr

/-- The arguments of a command, taken apart. -/
structure Arguments where
  options : List (String × String) := []
  positionals : List String := []
  deriving DecidableEq, Repr

namespace Arguments

/-- The value of an option, or its default. -/
def value (a : Arguments) (name default : String) : String :=
  ((a.options.find? (·.1 == name)).map (·.2)).getD default

/-- Whether an argument looks like an option. -/
def isOptionLike (arg : String) : Bool :=
  match arg.toList with
  | '-' :: _ :: _ => true
  | _ => false

/-- Add the value of an option. -/
def addOption (a : Arguments) (o : OptionSpec) (value : String) : Except Refusal Arguments :=
  if a.options.any (·.1 == o.name) || !o.accepts value then .error .usage
  else .ok { a with options := a.options ++ [(o.name, value)] }

/-- Add a positional. -/
def addPositional (spec : CommandSpec) (a : Arguments) (value : String) :
    Except Refusal Arguments :=
  if a.positionals.length < spec.positionals.length then
    .ok { a with positionals := a.positionals ++ [value] }
  else .error .usage

/-- What an argument that looks like an option is. -/
inductive Found where
  | help
  | version
  /-- An option; the value that is attached to it, if one is. -/
  | option (o : OptionSpec) (attached : Option String)
  | nothing

/-- Look up a long option. -/
def findLong (spec : CommandSpec) (arg : List Char) : Found :=
  let name := String.ofList (arg.takeWhile (· ≠ '='))
  let attached := match arg.dropWhile (· ≠ '=') with
    | _ :: r => some (String.ofList r)
    | [] => none
  match spec.options.find? (·.name == name) with
  | some o => .option o attached
  | none =>
    if attached.isSome then .nothing
    else if name == "help" then .help
    else if name == "version" then .version
    else .nothing

/-- Look up the first letter of a group. What follows an option's letter is its value. -/
def findLetter (spec : CommandSpec) (c : Char) (r : List Char) : Found :=
  match spec.options.find? (·.letter == some c) with
  | some o =>
    .option o (match r with
      | [] => none
      | '=' :: r => some (String.ofList r)
      | r => some (String.ofList r))
  | none => if c = 'h' then .help else if c = 'V' then .version else .nothing

/-- What an argument that looks like an option is. -/
def find (spec : CommandSpec) (arg : String) : Found :=
  match arg.toList with
  | '-' :: '-' :: r => findLong spec r
  | '-' :: c :: r => findLetter spec c r
  | _ => .nothing

/-- Take arguments apart, after those in `a`. -/
def take (spec : CommandSpec) (a : Arguments) : List String → Except Refusal Arguments
  | [] => if a.positionals.length < spec.positionals.length then .error .usage else .ok a
  | arg :: rest =>
    if arg = "--" then do
      let a ← rest.foldlM (addPositional spec) a
      if a.positionals.length < spec.positionals.length then .error .usage else .ok a
    else if !isOptionLike arg then do
      take spec (← addPositional spec a arg) rest
    else
      match find spec arg with
      | .help => .error .help
      | .version => .error .version
      | .nothing => .error .usage
      | .option o (some value) => do take spec (← a.addOption o value) rest
      | .option o none =>
        match rest with
        | [] => .error .usage
        | value :: rest =>
          if isOptionLike value then .error .usage
          else do take spec (← a.addOption o value) rest

/-- Take the arguments of a command apart. -/
def ofList (spec : CommandSpec) (args : List String) : Except Refusal Arguments :=
  take spec {} args

end Arguments

end ReplicatedStore
