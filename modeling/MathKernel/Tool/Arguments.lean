/-!
# Command lines

A command line names a command, its options and its operands. Options have a long form, with the
value after an equals sign or as the next word; an operand may start with a dash only after `--`.
An option that is not a list may be given once. Paths must not be empty.

Words are checked one after the other, so a request for help counts only if nothing before it is
wrong. What is missing is noticed at the end.

## Main definitions

* `Command`, `Invocation`: what is asked for.
* `Invocation.ofArgs`: the meaning of a command line.
-/

namespace MathKernel

/-- Which form of a unit to show. -/
inductive Stage where
  | raw
  | transformed
  deriving DecidableEq, Repr

/-- The form of a name. -/
def Stage.ofName? : String → Option Stage
  | "raw" => some raw
  | "transformed" => some transformed
  | _ => none

/-- The commands. -/
inductive Command where
  /-- Compile dumps to bundles in a directory. -/
  | compile (inputs : List String) (out manifest : Option String)
  /-- Link an entry point from bundles. -/
  | link (entry : String) (bundles : List String) (target uniforms manifest : Option String)
  /-- Show a unit as C. -/
  | inspect (input : String) (stage : Stage)
  deriving DecidableEq, Repr

/-- What a command line asks for. -/
inductive Invocation where
  | run (verbose : Bool) (command : Command)
  | version
  | help
  deriving DecidableEq, Repr

/-- Why a command line is refused. -/
inductive UsageError where
  | missingCommand
  | unknownCommand (name : String)
  | unexpectedArgument (arg : String)
  | unexpectedValue (option : String)
  | missingValue (option : String)
  | repeatedOption (option : String)
  | missingArgument (name : String)
  | invalidValue (value name : String)
  deriving DecidableEq, Repr

/-- What the error says. -/
def UsageError.message : UsageError → String
  | missingCommand => "a command is required: compile, export or inspect"
  | unknownCommand name => "unrecognized subcommand '" ++ name ++ "'"
  | unexpectedArgument arg => "unexpected argument '" ++ arg ++ "' found"
  | unexpectedValue option => "unexpected value for '--" ++ option ++ "' found"
  | missingValue option => "a value is required for '--" ++ option ++ "' but none was supplied"
  | repeatedOption option => "the argument '--" ++ option ++ "' cannot be used multiple times"
  | missingArgument name => "the required argument '" ++ name ++ "' was not provided"
  | invalidValue value name => "invalid value '" ++ value ++ "' for '" ++ name ++ "'"

/-! ### Words -/

/-- A word of a command line. -/
inductive ArgWord where
  /-- `--`, after which every word is an operand. -/
  | rest
  /-- `--name` or `--name=value`. -/
  | long (name : String) (value : Option String)
  /-- Letters after one dash. -/
  | short (letters : List Char)
  | plain (text : String)
  deriving DecidableEq, Repr

/-- The parts of a long option around its first equals sign. -/
def splitLong (text : List Char) : ArgWord :=
  let name := String.ofList (text.takeWhile (· != '='))
  match text.dropWhile (· != '=') with
  | _ :: value => .long name (some (String.ofList value))
  | [] => .long name none

/-- What kind of word an argument is; a single dash is plain. -/
def ArgWord.ofArg (arg : String) : ArgWord :=
  match arg.toList with
  | ['-', '-'] => rest
  | '-' :: '-' :: text => splitLong text
  | '-' :: c :: text => short (c :: text)
  | _ => plain arg

/-! ### Options and operands of a command -/

/-- What a value has to be. -/
inductive ValueKind where
  | text
  | path
  | stage
  deriving DecidableEq, Repr

/-- Whether a value is of a kind. -/
def ValueKind.accepts (kind : ValueKind) (value : String) : Bool :=
  match kind with
  | text => true
  | path => !value.isEmpty
  | stage => (Stage.ofName? value).isSome

/-- An option of a command. -/
structure OptionSpec where
  name : String
  kind : ValueKind
  /-- Whether it may be given more than once. -/
  repeated : Bool := false
  deriving DecidableEq, Repr

/-- What a command takes. -/
structure ArgSpec where
  options : List OptionSpec
  /-- What its operands have to be. -/
  operand : ValueKind
  /-- Whether it takes more than one operand. -/
  manyOperands : Bool := false
  deriving DecidableEq, Repr

/-- The option of a name. -/
def ArgSpec.option? (spec : ArgSpec) (name : String) : Option OptionSpec :=
  spec.options.find? (·.name == name)

/-- What stands after a command. -/
structure ArgList where
  verbose : Bool := false
  /-- Options with their values, in order. -/
  options : List (String × String) := []
  operands : List String := []
  deriving DecidableEq, Repr

/-- A refusal, or the request for help that ends reading. -/
inductive ArgStop where
  | usage (cause : UsageError)
  | help
  deriving DecidableEq, Repr

namespace ArgList

/-- Note the switch for more messages, which may be given once. -/
def addVerbose (l : ArgList) : Except ArgStop ArgList :=
  if l.verbose then .error (.usage (.repeatedOption "verbose")) else .ok { l with verbose := true }

/-- Note letters after a dash. -/
def addShort (arg : String) : List Char → ArgList → Except ArgStop ArgList
  | [], l => .ok l
  | 'v' :: rest, l => do addShort arg rest (← l.addVerbose)
  | 'h' :: _, _ => .error .help
  | _ :: _, _ => .error (.usage (.unexpectedArgument arg))

/-- Note an option with its value. -/
def addOption (option : OptionSpec) (value : String) (l : ArgList) : Except ArgStop ArgList :=
  if !option.repeated && (l.options.lookup option.name).isSome then
    .error (.usage (.repeatedOption option.name))
  else if !option.kind.accepts value then .error (.usage (.invalidValue value option.name))
  else .ok { l with options := l.options ++ [(option.name, value)] }

/-- Note an operand. -/
def addOperand (spec : ArgSpec) (value : String) (l : ArgList) : Except ArgStop ArgList :=
  if !spec.manyOperands && !l.operands.isEmpty then .error (.usage (.unexpectedArgument value))
  else if !spec.operand.accepts value then .error (.usage (.invalidValue value "operand"))
  else .ok { l with operands := l.operands ++ [value] }

/-- Read the words after a command. -/
def read (spec : ArgSpec) : List String → ArgList → Except ArgStop ArgList
  | [], l => .ok l
  | arg :: rest, l =>
    match ArgWord.ofArg arg with
    | .rest => rest.foldlM (fun l value => l.addOperand spec value) l
    | .plain value => do read spec rest (← l.addOperand spec value)
    | .short letters => do read spec rest (← addShort arg letters l)
    | .long "help" none => .error .help
    | .long "verbose" none => do read spec rest (← l.addVerbose)
    | .long name (some value) =>
      match spec.option? name with
      | some option => do read spec rest (← l.addOption option value)
      | none =>
        if name = "verbose" ∨ name = "help" then .error (.usage (.unexpectedValue name))
        else .error (.usage (.unexpectedArgument arg))
    | .long name none =>
      match spec.option? name with
      | some option =>
        match rest with
        | [] => .error (.usage (.missingValue name))
        | value :: rest =>
          match ArgWord.ofArg value with
          | .plain value => do read spec rest (← l.addOption option value)
          | _ => .error (.usage (.missingValue name))
      | none => .error (.usage (.unexpectedArgument arg))

/-- The values of an option. -/
def values (l : ArgList) (name : String) : List String :=
  (l.options.filter (·.1 == name)).map Prod.snd

end ArgList

/-! ### Commands -/

namespace Command

/-- What compiling takes. -/
def compileSpec : ArgSpec where
  options := [{ name := "out", kind := .path }, { name := "manifest", kind := .path }]
  operand := .path
  manyOperands := true

/-- What linking takes. -/
def linkSpec : ArgSpec where
  options := [{ name := "bundle", kind := .path, repeated := true },
    { name := "target", kind := .text }, { name := "uniforms", kind := .path },
    { name := "manifest", kind := .path }]
  operand := .text

/-- What showing takes. -/
def inspectSpec : ArgSpec where
  options := [{ name := "stage", kind := .stage }]
  operand := .path

/-- The words that a command takes, by its name. -/
def spec? : String → Option ArgSpec
  | "compile" => some compileSpec
  | "export" => some linkSpec
  | "inspect" => some inspectSpec
  | _ => none

/-- A command by its name and the words after it. -/
def ofArgList (name : String) (l : ArgList) : Except UsageError Command :=
  let option? (name : String) : Option String := l.options.lookup name
  match l.operands with
  | [] => .error (.missingArgument "operand")
  | first :: rest =>
    match name with
    | "compile" => .ok (compile (first :: rest) (option? "out") (option? "manifest"))
    | "export" =>
      if (option? "bundle").isNone then .error (.missingArgument "bundle")
      else .ok (link first (l.values "bundle") (option? "target") (option? "uniforms")
        (option? "manifest"))
    | "inspect" => .ok (inspect first (((option? "stage").bind Stage.ofName?).getD .transformed))
    | _ => .error (.unknownCommand name)

end Command

namespace Invocation

/-- The request for help on a command, which names nothing but a command. -/
def helpOn : List String → Except UsageError Invocation
  | [] => .ok help
  | [name] =>
    if (Command.spec? name).isSome || name = "help" then .ok help
    else .error (.unknownCommand name)
  | _ :: extra :: _ => .error (.unknownCommand extra)

/-- Read a command by its name and the words after it. -/
def ofCommand (verbose : Bool) (name : String) (args : List String) :
    Except UsageError Invocation :=
  match Command.spec? name with
  | none => if name = "help" then helpOn args else .error (.unknownCommand name)
  | some spec =>
    match ArgList.read spec args {} with
    | .error .help => .ok help
    | .error (.usage e) => .error e
    | .ok l => (Command.ofArgList name l).map (run (verbose || l.verbose))

/-- Letters before the command: the switch for more messages, once, and the requests that end
reading. The result is a request or whether the switch was given. -/
def ofShort (arg : String) : List Char → Bool → Except UsageError (Invocation ⊕ Bool)
  | [], verbose => .ok (.inr verbose)
  | 'v' :: rest, verbose =>
    if verbose then .error (.repeatedOption "verbose") else ofShort arg rest true
  | 'V' :: _, _ => .ok (.inl version)
  | 'h' :: _, _ => .ok (.inl help)
  | _ :: _, _ => .error (.unexpectedArgument arg)

/-- Read a command line, after the switch for more messages or before it. -/
def ofArgsFrom (verbose : Bool) : List String → Except UsageError Invocation
  | [] => .error .missingCommand
  | arg :: rest =>
    match ArgWord.ofArg arg with
    | .plain name => ofCommand verbose name rest
    | .rest =>
      match rest with
      | [] => .error .missingCommand
      | extra :: _ => .error (.unexpectedArgument extra)
    | .short letters => do
      match ← ofShort arg letters verbose with
      | .inl request => return request
      | .inr verbose => ofArgsFrom verbose rest
    | .long "version" none => .ok version
    | .long "help" none => .ok help
    | .long "verbose" none =>
      if verbose then .error (.repeatedOption "verbose") else ofArgsFrom true rest
    | .long _ _ => .error (.unexpectedArgument arg)

/-- The meaning of a command line. -/
def ofArgs (args : List String) : Except UsageError Invocation :=
  ofArgsFrom false args

end Invocation

end MathKernel
