import PacketTrace.Binary64.Decimal
import PacketTrace.ConstantRate
import PacketTrace.Totals

/-!
# Arguments

Reads the arguments of the command line (`CommandLine.parse`) from left to
right. A command has positional arguments in a fixed order, and options that
take a value, each at most once, as `--name value` or `--name=value`. Some
options are allowed ahead of the command too; the ones after it count more.
After `--` all arguments are positional. In place of a command, `help` may
stand with the name of a command after it.

An argument that starts with a dash is an option, unless it is a single dash;
so a value that starts with a dash can only be given after `=`.
-/

namespace PacketTrace

namespace CommandLine

/-- What the program is asked to do with files. -/
inductive Command where
  /-- Converts a capture trace to a packet file. -/
  | writePcap (input output : String) (limit : UInt16)
  /-- Converts a packet file to a replay trace. -/
  | writeReplay (input output : String)
  /-- Writes traffic at a constant rate as a packet file. -/
  | generate (output : String) (traffic : ConstantRate)
  /-- Shows the totals of a trace. -/
  | summarise (file : String) (kind : TraceKind)
  deriving DecidableEq

/-- What the program is asked to do. -/
inductive Request where
  /-- Runs a command, with windows of the given capacity. -/
  | run (capacity : Nat) (command : Command)
  /-- Shows the version. -/
  | version
  /-- Shows how the program is used. -/
  | help
  deriving DecidableEq

/-- What is wrong with the arguments. -/
inductive UsageFault where
  | missingCommand
  | unknownCommand (name : String)
  | unknownOption (name : String)
  | unexpectedArgument (text : String)
  | missingArgument (name : String)
  | missingValue (option : String)
  | repeatedOption (option : String)
  | invalidValue (name text : String)
  deriving DecidableEq

/-- The fault in words. -/
def UsageFault.message : UsageFault → String
  | missingCommand => "a command is missing"
  | unknownCommand name => s!"there is no command '{name}'"
  | unknownOption name => s!"there is no option '{name}' here"
  | unexpectedArgument text => s!"the argument '{text}' is too many"
  | missingArgument name => s!"the argument {name} is missing"
  | missingValue option => s!"the option {option} needs a value"
  | repeatedOption option => s!"the option {option} is given twice"
  | invalidValue name text => s!"'{text}' is no value for {name}"

/-! ## Values -/

/-- The number denoted by digits, of which there is at least one. -/
def digits? (cs : List Char) : Option Nat :=
  if cs.isEmpty || !cs.all Char.isDigit then none else some (Binary64.ofDigits cs)

/-- A number of at most 64 bits, which may have a plus sign. -/
def size? (text : String) : Option Nat :=
  let cs := match text.toList with
    | '+' :: cs => cs
    | cs => cs
  (digits? cs).filter (· < 2 ^ 64)

/-- A number of at most 16 bits, which may have a sign: a zero may be
    negative. -/
def length? (text : String) : Option UInt16 :=
  let (negative, cs) := Binary64.splitSign text.toList
  match digits? cs with
  | none => none
  | some n => if n < 2 ^ 16 ∧ (negative → n = 0) then some (UInt16.ofNat n) else none

/-- A name for a file. -/
def path? (text : String) : Option String := if text = "" then none else some text

/-- The names of the kinds of trace. -/
inductive Format where
  | capture
  | replay
  deriving DecidableEq

/-- A kind of trace, by its name. -/
def format? : String → Option Format
  | "capture" => some .capture
  | "replay" => some .replay
  | _ => none

/-! ## Collecting arguments -/

/-- The commands, by the word that calls them. -/
inductive Verb where
  | writePcap
  | writeReplay
  | generate
  | summarise
  deriving DecidableEq

/-- The command that a word calls. -/
def verb? : String → Option Verb
  | "export" => some .writePcap
  | "import" => some .writeReplay
  | "generate" => some .generate
  | "info" => some .summarise
  | _ => none

/-- The word stands for a command, or for help in place of one. -/
def isCommand (text : String) : Bool := text = "help" || (verb? text).isSome

/-- What has been given of the options and the positional arguments. -/
structure Given where
  /-- The names of files, in reverse. -/
  paths : List String := []
  capacity : Option Nat := none
  limit : Option UInt16 := none
  frameLength : Option Nat := none
  rate : Option Binary64 := none
  duration : Option Binary64 := none
  format : Option Format := none

/-- Reads a value. -/
def value {α : Type} (read : String → Option α) (name text : String) : Except UsageFault α :=
  match read text with
  | some a => .ok a
  | none => .error (.invalidValue name text)

/-- Reads the value of an option that may be given once. -/
def once {α : Type} (old : Option α) (read : String → Option α) (name text : String) :
    Except UsageFault (Option α) :=
  if old.isSome then .error (.repeatedOption name) else (value read name text).map some

/-- Takes the value of an option, where `verb` is the command it is given
    after, if any. -/
def Given.setOption (g : Given) (verb : Option Verb) (name text : String) :
    Except UsageFault Given :=
  match verb, name with
  | _, "--buffer-size" =>
    return { g with capacity := ← once g.capacity size? name text }
  | some .generate, "--packet-len" =>
    return { g with frameLength := ← once g.frameLength size? name text }
  | some .generate, "--rate" =>
    return { g with rate := ← once g.rate Binary64.ofDecimal? name text }
  | some .generate, "--duration" =>
    return { g with duration := ← once g.duration Binary64.ofDecimal? name text }
  | some .summarise, "--format" =>
    return { g with format := ← once g.format format? name text }
  | some .summarise, "--max-caplen" =>
    return { g with limit := ← once g.limit length? name text }
  | _, _ => .error (.unknownOption name)

/-- The options that take a value, after a command or ahead of it. -/
def valueOptions : Option Verb → List String
  | some .generate => ["--buffer-size", "--packet-len", "--rate", "--duration"]
  | some .summarise => ["--buffer-size", "--format", "--max-caplen"]
  | _ => ["--buffer-size"]

/-- The number of file names that a command takes. -/
def Verb.pathCount : Verb → Nat
  | writePcap | writeReplay => 2
  | generate | summarise => 1

/-- Takes a positional argument. -/
def Given.addPositional (g : Given) (verb : Verb) (text : String) : Except UsageFault Given :=
  if g.paths.length < verb.pathCount then
    return { g with paths := (← value path? "a file" text) :: g.paths }
  else if verb = .writePcap ∧ g.limit.isNone then
    return { g with limit := some (← value length? "the longest capture" text) }
  else .error (.unexpectedArgument text)

/-- What an argument that is an option amounts to. -/
inductive Step where
  /-- The arguments go on. -/
  | next (g : Given)
  /-- The argument after it is its value. -/
  | awaits (option : String)
  /-- The arguments after it do not matter. -/
  | request (r : Request)

/-- Single-letter options, several of which may share a dash. -/
def letters (verb : Option Verb) (g : Given) : List Char → Except UsageFault Step
  | [] => .ok (.next g)
  | 'v' :: cs => letters verb g cs
  | 'h' :: _ => .ok (.request .help)
  | c :: _ =>
    if c = 'V' ∧ verb = none then .ok (.request .version)
    else .error (.unknownOption (String.ofList ['-', c]))

/-- The name of an option, and the value given after `=`. -/
def splitValue (text : String) : String × Option String :=
  let cs := text.toList
  let name := String.ofList (cs.takeWhile (· ≠ '='))
  match cs.dropWhile (· ≠ '=') with
  | [] => (name, none)
  | _ :: value => (name, some (String.ofList value))

/-- An option with a name. -/
def named (verb : Option Verb) (g : Given) (text : String) : Except UsageFault Step :=
  match splitValue text with
  | ("--verbose", none) => .ok (.next g)
  | ("--help", none) => .ok (.request .help)
  | (name, inline) =>
    if name = "--version" ∧ inline = none ∧ verb = none then .ok (.request .version)
    else if (valueOptions verb).contains name then
      match inline with
      | some text => (g.setOption verb name text).map .next
      | none => .ok (.awaits name)
    else .error (.unknownOption name)

/-- An argument that is an option rather than a value. -/
def isOption (text : String) : Bool := text.startsWith "-" && text != "-"

/-- The option that an argument is. -/
def option (verb : Option Verb) (g : Given) (text : String) : Except UsageFault Step :=
  if text.startsWith "--" then named verb g text else letters verb g (text.toList.drop 1)

/-! ## Requests -/

/-- What must have been given. -/
def required {α : Type} (name : String) : Option α → Except UsageFault α
  | some a => .ok a
  | none => .error (.missingArgument name)

/-- The command that was given. -/
def Given.command (g : Given) (verb : Verb) : Except UsageFault Command :=
  let paths := g.paths.reverse
  match verb with
  | .writePcap => do
    let input ← required "INPUT" paths[0]?
    let output ← required "OUTPUT" paths[1]?
    return .writePcap input output (← required "MAX_CAPLEN" g.limit)
  | .writeReplay => do
    let input ← required "INPUT" paths[0]?
    return .writeReplay input (← required "OUTPUT" paths[1]?)
  | .generate => do
    let traffic : ConstantRate := {}
    return .generate (← required "OUTPUT" paths[0]?)
      { frameLength := g.frameLength.getD traffic.frameLength
        rate := g.rate.getD traffic.rate
        duration := g.duration.getD traffic.duration }
  | .summarise => do
    let file ← required "FILE" paths[0]?
    match ← required "--format" g.format with
    | .capture => return .summarise file (.capture (← required "--max-caplen" g.limit))
    | .replay => return .summarise file .replay

/-- The request that was made, where `outer` is the capacity given ahead of
    the command. -/
def Given.request (g : Given) (outer : Option Nat) (verb : Verb) : Except UsageFault Request := do
  let capacity := (g.capacity.or outer).getD defaultCapacity
  return .run capacity (← g.command verb)

/-- The request for help, on the program or on the one command that is named
    after it. Nothing else may be, not even an option. -/
def helpOn : List String → Except UsageFault Request
  | [] => .ok .help
  | text :: rest =>
    if isCommand text then
      match rest with
      | [] => .ok .help
      | text :: _ => .error (.unknownCommand text)
    else .error (.unknownCommand text)

/-- Reads arguments, after a command or ahead of it. -/
def scan (verb : Option Verb) (outer : Option Nat) (g : Given) :
    List String → Except UsageFault Request
  | [] =>
    match verb with
    | none => .error .missingCommand
    | some verb => g.request outer verb
  | "--" :: rest =>
    match verb, rest with
    | none, [] => .error .missingCommand
    | none, text :: _ => .error (.unexpectedArgument text)
    | some verb, _ => do
      let g ← rest.foldlM (fun g text => Given.addPositional g verb text) g
      g.request outer verb
  | text :: rest =>
    if isOption text then
      match option verb g text with
      | .error fault => .error fault
      | .ok (.next g) => scan verb outer g rest
      | .ok (.request r) => .ok r
      | .ok (.awaits name) =>
        match rest with
        | [] => .error (.missingValue name)
        | value :: rest =>
          if isOption value then .error (.missingValue name)
          else
            match g.setOption verb name value with
            | .ok g => scan verb outer g rest
            | .error fault =>
              -- Right before a command the value is looked at last, after a
              -- request for help that the command may turn out to be.
              if verb.isNone && (rest.head?.map isCommand).getD false then
                match scan none none {} rest with
                | .ok .help => .ok .help
                | _ => .error fault
              else .error fault
    else
      match verb with
      | some v =>
        match g.addPositional v text with
        | .error fault => .error fault
        | .ok g => scan verb outer g rest
      | none =>
        if text = "help" then helpOn rest
        else
          match verb? text with
          | some v => scan (some v) g.capacity {} rest
          | none => .error (.unknownCommand text)

/-- The request that the arguments make. -/
def parse (arguments : List String) : Except UsageFault Request := scan none none {} arguments

end CommandLine

end PacketTrace
