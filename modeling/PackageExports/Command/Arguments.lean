import PackageExports.Text.Basic

/-!
# Options and operands

The words of a command line are options, values of options, and operands. A long option may have its value after an
equals sign; single letters may stand together after one dash; two dashes end the options. Reading may stop at the
first operand, which then begins a command line of its own.

Main definitions: `OptionSpec`, `Arguments`, `Arguments.read`.
-/

namespace PackageExports

/-- An option by its long name, the letter that stands for it if there is one, and whether a value follows it. -/
structure OptionSpec where
  name : Text
  letter : Option CodePoint := none
  takesValue : Bool := false

/-- Why a command line cannot be understood. -/
inductive UsageError where
  | unknownOption (word : Text)
  | valueMissing (name : Text)
  | valueUnwanted (name : Text)
  | commandMissing
  | commandUnknown (name : Text)
  | operandMissing (name : Text)
  | operandUnwanted (word : Text)
  | notDirectory (name : Text)
deriving DecidableEq

/-- The options of a command line in their order, a flag having an empty value, and the other words. -/
structure Arguments where
  options : List (Text × Text) := []
  operands : List Text := []

namespace UsageError

def message : UsageError → Text
  | .unknownOption word => "no such option: " ++ word
  | .valueMissing name => "option " ++ name ++ " requires a value"
  | .valueUnwanted name => "option " ++ name ++ " does not take a value"
  | .commandMissing => "missing command"
  | .commandUnknown name => "no such command: " ++ name
  | .operandMissing name => "missing argument: " ++ name
  | .operandUnwanted word => "unexpected argument: " ++ word
  | .notDirectory name => "the value of " ++ name ++ " is a file"

end UsageError

namespace Arguments

def withOption (name value : Text) (a : Arguments) : Arguments :=
  { a with options := (name, value) :: a.options }

/-- The flags for which the letters of a word stand. -/
def flagsOf (specs : List OptionSpec) (word : Text) : Text → Except UsageError (List (Text × Text))
  | [] => .ok []
  | letter :: rest =>
    match specs.find? fun s => s.letter = some letter && !s.takesValue with
    | some s => (flagsOf specs word rest).map ((s.name, []) :: ·)
    | none => .error (.unknownOption word)

/-- What an option word means: flags, an option with its value, or the name of an option whose value comes next. -/
def optionOf (specs : List OptionSpec) (word : Text) : Except UsageError (List (Text × Text) ⊕ Text) :=
  let (name, value) : Text × Option Text :=
    match Text.splitAtFirst? '=' word with
    | some (name, value) => (name, some value)
    | none => (word, none)
  match specs.find? fun s => s.name = name with
  | some s =>
    match value with
    | some value => if s.takesValue then .ok (.inl [(name, value)]) else .error (.valueUnwanted name)
    | none => if s.takesValue then .ok (.inr name) else .ok (.inl [(name, [])])
  | none =>
    if Text.startsWith word "--" then .error (.unknownOption word)
    else (flagsOf specs word (word.drop 1)).map .inl

def isOption (word : Text) : Bool :=
  Text.startsWith word "-" && 1 < word.length

/-- Reads the words of a command line; `stopAtOperand` says whether the first operand ends the options. -/
def read (specs : List OptionSpec) (stopAtOperand : Bool) : List Text → Except UsageError Arguments
  | [] => .ok {}
  | word :: rest =>
    if word = "--" then .ok { operands := rest }
    else if isOption word then
      match optionOf specs word with
      | .error e => .error e
      | .ok (.inl options) => (read specs stopAtOperand rest).map fun a => { a with options := options ++ a.options }
      | .ok (.inr name) =>
        match rest with
        | [] => .error (.valueMissing name)
        | value :: rest => (read specs stopAtOperand rest).map (withOption name value)
    else if stopAtOperand then .ok { operands := word :: rest }
    else (read specs stopAtOperand rest).map fun a => { a with operands := word :: a.operands }

def has (a : Arguments) (name : Text) : Bool :=
  a.options.any fun (n, _) => n = name

/-- The value of an option; the last one counts. -/
def value? (a : Arguments) (name : Text) : Option Text :=
  (a.options.reverse.find? fun (n, _) => n = name).map Prod.snd

def firstOf (a : Arguments) (names : List Text) : Option Text :=
  (a.options.find? fun (n, _) => n ∈ names).map Prod.fst

end Arguments

end PackageExports
