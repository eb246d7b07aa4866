import YapAssist.Text.Numeral

/-!
# Command line arguments

The first argument names a command, the others are its options and positional arguments. An option
is written `--name` or, if it has one, by its letter; letters of options without a value may be
written together. A value follows as the next argument or is attached, as in `--name=value`,
`-nvalue` or `-n=value`. After `--` all arguments are positional.

An option whose value is the next argument stays open until another argument settles it: only then
is it checked that a value came, that the option was not given before and that the value is valid.

* `Refusal`, why arguments do not make a command;
* `Command.parse`, the command that arguments stand for.
-/

namespace YapAssist

/-- Why arguments do not make a command: they ask for help, or they are wrong. -/
inductive Refusal where
  | help
  | version
  /-- There are no arguments at all. -/
  | noCommand
  | unknownCommand
  | missingArgument
  | unknownArgument
  /-- An option lacks its value. -/
  | missingValue
  /-- The value of an option is not of its kind. -/
  | invalidValue
  /-- An option is given twice. -/
  | repeated
  /-- An option without a value is given one. -/
  | unexpectedValue
  deriving DecidableEq, Repr

/-- The exit code of a refusal: asking for help is no failure. -/
def Refusal.exitCode : Refusal → Nat
  | help | version => 0
  | _ => 2

/-- What a user asks for. -/
inductive Command where
  /-- Lay files out, or only report those that would change. -/
  | format (paths : List Text) (check : Bool) (indent : Option Nat)
  /-- Find the declaration of the name at a place. -/
  | definition (place : Text) (root : Option Text)
  /-- Show the documentation of the name at a place. -/
  | hover (place : Text) (root : Option Text)
  /-- Show the edits that import a name, or carry them out. -/
  | importName (file symbol : Text) (module : Option Text) (write : Bool)
  /-- List the words offered in a file. -/
  | complete (file : Text)
  deriving DecidableEq, Repr

namespace Arguments

/-- An option of a command. -/
structure Flag where
  name : Text
  letter : Option Char
  takesValue : Bool
  /-- Whether the value has to be a number of 64 bits. -/
  numeric : Bool

/-- The options and positional arguments of a command. -/
structure Shape where
  flags : List Flag
  /-- How many positional arguments there must be. -/
  required : Nat
  /-- Whether there may be more of them. -/
  more : Bool

/-- The option that asks for help; every command has it. -/
def helpFlag : Flag := ⟨"help".toList, some 'h', false, false⟩

/-- What has been read of the arguments of a command. -/
structure State where
  /-- The options that are settled, with their values. -/
  given : List (Text × Text)
  positional : List Text
  /-- An option that waits for its value, or to be settled with it. -/
  pending : Option (Flag × Option Text)
  /-- Whether all further arguments are positional. -/
  trailing : Bool

/-- Nothing has been read. -/
def State.start : State := ⟨[], [], none, false⟩

/-- Settles an option with its value. Asking for help ends the reading. -/
def record (flag : Flag) (value : Text) (s : State) : Except Refusal State :=
  if flag.name = helpFlag.name then .error .help
  else if (s.given.lookup flag.name).isSome then .error .repeated
  else if flag.numeric && (Numeral.read? Numeral.max64 value).isNone then .error .invalidValue
  else .ok { s with given := (flag.name, value) :: s.given }

/-- Settles the open option. -/
def settle (s : State) : Except Refusal State :=
  match s.pending with
  | none => .ok s
  | some (_, none) => .error .missingValue
  | some (flag, some value) => record flag value { s with pending := none }

/-- An option without an attached value: settled if it takes none, open otherwise. -/
def takeFlag (flag : Flag) (s : State) : Except Refusal State :=
  (settle s).bind fun s =>
    if flag.takesValue then .ok { s with pending := some (flag, none) } else record flag [] s

/-- An option with an attached value. -/
def takeAttached (flag : Flag) (value : Text) (s : State) : Except Refusal State :=
  (settle s).bind (record flag value)

/-- An option written with its name, behind the two dashes. -/
def takeNamed (shape : Shape) (s : State) (written : Text) : Except Refusal State :=
  let name := written.takeWhile (· != '=')
  match (helpFlag :: shape.flags).find? fun flag => flag.name == name with
  | none => .error .unknownArgument
  | some flag =>
    match written.dropWhile (· != '=') with
    | _ :: value => if flag.takesValue then takeAttached flag value s else .error .unexpectedValue
    | [] => takeFlag flag s

/-- Options written with their letters, behind the dash. The rest of the letters is the value of
the first option that takes one. -/
def takeLetters (shape : Shape) : (letters : Text) → State → Except Refusal State
  | [], s => .ok s
  | c :: rest, s =>
    match (helpFlag :: shape.flags).find? fun flag => flag.letter == some c with
    | none => .error .unknownArgument
    | some flag =>
      if flag.takesValue then
        match rest with
        | [] => takeFlag flag s
        | '=' :: value => takeAttached flag value s
        | value => takeAttached flag value s
      else (takeFlag flag s).bind (takeLetters shape rest)

/-- A positional argument. -/
def takePositional (shape : Shape) (s : State) (arg : Text) : Except Refusal State :=
  if shape.more || s.positional.length < shape.required then
    (settle s).map fun s => { s with positional := s.positional ++ [arg], pending := none }
  else .error .unknownArgument

/-- One more argument. -/
def take (shape : Shape) (s : State) (arg : Text) : Except Refusal State :=
  if s.trailing then takePositional shape s arg
  else
    match arg with
    | ['-', '-'] => .ok { s with trailing := true }
    | '-' :: '-' :: written => takeNamed shape s written
    | '-' :: c :: letters => takeLetters shape (c :: letters) s
    | _ =>
      match s.pending with
      | some (flag, none) => .ok { s with pending := some (flag, some arg) }
      | _ => takePositional shape s arg

/-- The options and positional arguments of a command. -/
def read (shape : Shape) (args : List Text) : Except Refusal State := do
  let s ← args.foldlM (take shape) State.start
  let s ← settle s
  if s.positional.length < shape.required then throw .missingArgument
  return s

/-- The value of an option, if it is given. -/
def State.value? (s : State) (name : String) : Option Text := s.given.lookup name.toList

/-- Whether an option is given. -/
def State.has (s : State) (name : String) : Bool := (s.value? name).isSome

/-- A positional argument by its place. -/
def State.at (s : State) (i : Nat) : Text := s.positional.getD i []

end Arguments

namespace Command

open Arguments

/-- The commands by what they are called. -/
inductive Verb where
  | format
  | definition
  | hover
  | importName
  | complete
  deriving DecidableEq, Repr

/-- The command with a given name or short name. -/
def Verb.ofName? (name : Text) : Option Verb :=
  if name = "fmt".toList || name = "f".toList then some format
  else if name = "definition".toList || name = "d".toList then some definition
  else if name = "hover".toList then some hover
  else if name = "import".toList then some importName
  else if name = "complete".toList then some complete
  else none

/-- The option for the root of the workspace. -/
def rootFlag : Flag := ⟨"root".toList, some 'r', true, false⟩

/-- The options and positional arguments of each command. -/
def Verb.shape : Verb → Shape
  | format =>
    ⟨[⟨"check".toList, none, false, false⟩, ⟨"indent".toList, none, true, true⟩], 1, true⟩
  | definition => ⟨[rootFlag], 1, false⟩
  | hover => ⟨[rootFlag], 1, false⟩
  | importName =>
    ⟨[⟨"module".toList, some 'm', true, false⟩, ⟨"write".toList, some 'w', false, false⟩], 2,
      false⟩
  | complete => ⟨[], 1, false⟩

/-- The command that the arguments of a verb stand for. -/
def Verb.command (verb : Verb) (s : State) : Command :=
  match verb with
  | format =>
    .format s.positional (s.has "check")
      ((s.value? "indent").bind (Numeral.read? Numeral.max64))
  | definition => .definition (s.at 0) (s.value? "root")
  | hover => .hover (s.at 0) (s.value? "root")
  | importName => .importName (s.at 0) (s.at 1) (s.value? "module") (s.has "write")
  | complete => .complete (s.at 0)

/-- The word that asks for help. -/
def helpWord : Text := "help".toList

/-- The answer to `help` and the names behind it: a name that is no command is refused, and no
command has commands of its own. -/
def helpOn : (names : List Text) → Refusal
  | [] => .help
  | [name] => if name = helpWord || (Verb.ofName? name).isSome then .help else .unknownCommand
  | _ => .unknownCommand

/-- The answer to an option in place of a command, behind its first dash. -/
def leadingOption : (written : Text) → Refusal
  | '-' :: written =>
    let name := written.takeWhile (· != '=')
    let attached := written.contains '='
    if name = "help".toList then if attached then .unexpectedValue else .help
    else if name = "version".toList then if attached then .unexpectedValue else .version
    else .unknownArgument
  | 'h' :: _ => .help
  | 'V' :: _ => .version
  | _ => .unknownArgument

/-- The answer to `--` in place of a command: no command may follow it. -/
def afterDashes : (args : List Text) → Refusal
  | [] => .noCommand
  | arg :: _ =>
    if arg = helpWord || (Verb.ofName? arg).isSome then .unknownArgument else .unknownCommand

/-- The command that arguments stand for. -/
def parse (args : List Text) : Except Refusal Command :=
  match args with
  | [] => .error .noCommand
  | arg :: rest =>
    match arg with
    | ['-', '-'] => .error (afterDashes rest)
    | '-' :: c :: written => .error (leadingOption (c :: written))
    | name =>
      if name = helpWord then .error (helpOn rest)
      else
        match Verb.ofName? name with
        | none => .error .unknownCommand
        | some verb => (read verb.shape rest).map verb.command

end Command

end YapAssist
