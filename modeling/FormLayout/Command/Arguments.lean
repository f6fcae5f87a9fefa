import FormLayout.Settings.Basic
import FormLayout.Text.Pieces
/-!
The command line: options of the program and its commands, and what a list of arguments asks for.
-/

namespace FormLayout

/-- A command with its arguments. -/
inductive Command where
  | compile (input : String) (output : Option String) (format : Option OutputFormat)
      (tables : List String) (compact keepGoing : Bool)
  | parse (showItem : String)
  | diff (base derived : String) (real : List String)
  | createSettings (format : String) (force : Bool)
  | showSettings (resolved : Bool)
  | writeSchema (output : Option String)
  deriving Repr

/-- What the arguments ask for. -/
inductive Request where
  | version
  | help
  | completion (shell : String)
  | misuse
  | run (settings : Option String) (command : Command)
  deriving Repr

namespace Arguments

/-- What an option may be followed by. -/
inductive ValueKind where
  | none
  | text
  | path
  | number
  | oneOf (words : List String)

/-- An option by its long and short name. -/
structure Flag where
  long : String
  short : Option Char
  value : ValueKind
  repeatable : Bool

def switch (long : String) : Flag := ⟨long, none, .none, false⟩

/-- The options that every command takes. -/
def common : List Flag :=
  [⟨"config", some 'c', .path, false⟩, ⟨"verbose", some 'v', .none, true⟩, switch "no-color",
    ⟨"threads", some 'j', .number, false⟩, ⟨"help", some 'h', .none, false⟩]

def shells : List String := ["bash", "elvish", "fish", "powershell", "zsh"]

/-- What one command takes: options, positional arguments of the given kinds, or one of its own
commands. If `dashes` is set, the first positional argument may begin with a dash. -/
structure Level where
  flags : List Flag
  positionals : List ValueKind := []
  dashes : Bool := false
  commands : List String := []

def program : Level where
  flags := common ++
    [⟨"version", some 'V', .none, false⟩, ⟨"generate-completion", none, .oneOf shells, false⟩]
  commands := ["compile", "build", "parse", "diff", "config", "help"]

def compileLevel : Level where
  flags := common ++
    [⟨"output", some 'o', .path, false⟩, ⟨"format", some 'f', .oneOf ["json", "yaml"], false⟩,
      ⟨"table", some 't', .text, true⟩, switch "compact", switch "keep-going"]
  positionals := [.path]

def parseLevel : Level where
  flags := common
  positionals := [.text]
  dashes := true

def diffLevel : Level where
  flags := common ++ [⟨"real", none, .text, true⟩]
  positionals := [.path, .path]

def settingsLevel : Level where
  flags := common
  commands := ["init", "show", "schema", "help"]

def createLevel : Level where
  flags := common ++ [⟨"format", none, .oneOf ["json", "toml", "yaml"], false⟩, switch "force"]

def showLevel : Level where
  flags := common ++ [switch "resolved"]

def schemaLevel : Level where
  flags := common ++ [⟨"output", some 'o', .path, false⟩]

/-- Why reading stops early. -/
inductive Stop where
  | misuse
  | version
  | help

/-- The options and positional arguments found so far, and the command with what follows it. -/
structure Found where
  options : List (String × String)
  positionals : List String
  command : Option (String × List String)

def isNumber (s : String) : Bool :=
  let digits := match s.toList with
    | '+' :: rest => rest
    | cs => cs
  !digits.isEmpty && digits.all Char.isDigit && Literal.ofDigits digits < Nat.pow 2 64

def ValueKind.accepts : ValueKind → String → Bool
  | .none, _ => false
  | .text, _ => true
  | .path, s => s ≠ ""
  | .number, s => isNumber s
  | .oneOf words, s => words.contains s

/-- Records an option. One that is not repeatable may be given once. -/
def Found.add (f : Found) (flag : Flag) (value : String) : Except Stop Found :=
  if flag.long = "version" then .error .version
  else if flag.long = "help" then .error .help
  else if !flag.repeatable && f.options.any (fun o => o.1 = flag.long) then .error .misuse
  else .ok { f with options := f.options ++ [(flag.long, value)] }

def Flag.takesValue (flag : Flag) : Bool :=
  match flag.value with
  | .none => false
  | _ => true

def Found.addValue (f : Found) (flag : Flag) (value : String) : Except Stop Found :=
  if flag.value.accepts value then f.add flag value else .error .misuse

def shortFlag? (level : Level) (c : Char) : Option Flag :=
  level.flags.find? fun flag => flag.short = some c

/-- Reads the letters of a short option. The flag that is returned still needs a value. -/
def shorts (level : Level) (f : Found) : List Char → Except Stop (Found × Option Flag)
  | [] => .ok (f, none)
  | c :: rest =>
    match shortFlag? level c with
    | none => .error .misuse
    | some flag =>
      if flag.takesValue then
        match rest with
        | [] => .ok (f, some flag)
        | '=' :: value => (f.addValue flag (String.ofList value)).map fun f => (f, none)
        | value => (f.addValue flag (String.ofList value)).map fun f => (f, none)
      else
        match f.add flag "" with
        | .ok f => shorts level f rest
        | .error stop => .error stop

/-- What one argument is. -/
inductive Shape where
  | escape
  | long (flag : Flag) (value : Option String)
  | short (letters : List Char)
  | unknown
  | plain

/-- A dash alone is plain. Where a positional argument may begin with a dash, so is every argument
that is no known option. -/
def shapeOf (level : Level) (f : Found) (arg : String) : Shape :=
  let dashes := level.dashes && f.positionals.isEmpty
  match arg.toList with
  | ['-', '-'] => .escape
  | '-' :: '-' :: body =>
    let name := String.ofList (body.takeWhile (· ≠ '='))
    match level.flags.find? fun flag => flag.long = name with
    | some flag =>
      match body.dropWhile (· ≠ '=') with
      | [] => .long flag none
      | _ :: value => .long flag (some (String.ofList value))
    | none => if dashes then .plain else .unknown
  | '-' :: c :: rest =>
    if dashes && (c :: rest).any (fun c => (shortFlag? level c).isNone) then .plain
    else .short (c :: rest)
  | _ => .plain

/-- Whether an argument may be the value of the option before it: it is plain. -/
def isValue (level : Level) (f : Found) (arg : String) : Bool :=
  match shapeOf level f arg with
  | .plain => true
  | _ => false

/-- Takes in an argument that is no option: a command or a positional argument. -/
def Found.addPlain (f : Found) (level : Level) (escaped : Bool) (arg : String)
    (rest : List String) : Except Stop Found :=
  if !escaped && level.commands.contains arg then .ok { f with command := some (arg, rest) }
  else
    match level.positionals[f.positionals.length]? with
    | some kind =>
      if kind.accepts arg then .ok { f with positionals := f.positionals ++ [arg] }
      else .error .misuse
    | none => .error .misuse

/-- Reads arguments up to a command or the end. -/
def scan (level : Level) : (escaped : Bool) → Found → List String → Except Stop Found
  | _, f, [] => .ok f
  | true, f, arg :: rest =>
    match f.addPlain level true arg rest with
    | .ok f => scan level true f rest
    | .error stop => .error stop
  | false, f, arg :: rest =>
    match shapeOf level f arg with
    | .escape => scan level true f rest
    | .unknown => .error .misuse
    | .plain =>
      match f.addPlain level false arg rest with
      | .error stop => .error stop
      | .ok f => if f.command.isSome then .ok f else scan level false f rest
    | .long flag (some value) =>
      match f.addValue flag value with
      | .ok f => scan level false f rest
      | .error stop => .error stop
    | .long flag none =>
      if flag.takesValue then
        match rest with
        | [] => .error .misuse
        | value :: rest =>
          if isValue level f value then
            match f.addValue flag value with
            | .ok f => scan level false f rest
            | .error stop => .error stop
          else .error .misuse
      else
        match f.add flag "" with
        | .ok f => scan level false f rest
        | .error stop => .error stop
    | .short letters =>
      match shorts level f letters with
      | .error stop => .error stop
      | .ok (f, none) => scan level false f rest
      | .ok (f, some flag) =>
        match rest with
        | [] => .error .misuse
        | value :: rest =>
          if isValue level f value then
            match f.addValue flag value with
            | .ok f => scan level false f rest
            | .error stop => .error stop
          else .error .misuse

def read (level : Level) (args : List String) : Except Stop Found :=
  scan level false ⟨[], [], none⟩ args

def Found.value? (f : Found) (long : String) : Option String :=
  (f.options.find? fun o => o.1 = long).map Prod.snd

def Found.values (f : Found) (long : String) : List String :=
  (f.options.filter fun o => o.1 = long).map Prod.snd

def Found.has (f : Found) (long : String) : Bool := f.options.any fun o => o.1 = long

/-- A request with the settings file of the innermost level that names one. -/
def withSettings (outer : Option String) (f : Found) (command : Command) : Except Stop Request :=
  .ok (.run (f.value? "config" <|> outer) command)

/-- Help is there on the program, on its commands and on theirs. -/
def help (names : List String) : Except Stop Request :=
  let known := match names with
    | [] => true
    | [name] => program.commands.contains name
    | ["config", name] => settingsLevel.commands.contains name
    | _ => false
  .error (if known then .help else .misuse)

def settingsRequest (outer : Option String) (args : List String) : Except Stop Request := do
  let f ← read settingsLevel args
  let outer := f.value? "config" <|> outer
  match f.command with
  | some ("init", args) =>
    let f ← read createLevel args
    withSettings outer f (.createSettings ((f.value? "format").getD "yaml") (f.has "force"))
  | some ("show", args) =>
    let f ← read showLevel args
    withSettings outer f (.showSettings (f.has "resolved"))
  | some ("schema", args) =>
    let f ← read schemaLevel args
    withSettings outer f (.writeSchema (f.value? "output"))
  | some (_, names) => help ("config" :: names)
  | none => .error .misuse

def commandRequest (outer : Option String) (name : String) (args : List String) :
    Except Stop Request := do
  if name = "compile" || name = "build" then
    let f ← read compileLevel args
    match f.positionals with
    | [input] =>
      withSettings outer f (.compile input (f.value? "output")
        ((f.value? "format").bind OutputFormat.ofName?) (f.values "table") (f.has "compact")
        (f.has "keep-going"))
    | _ => .error .misuse
  else if name = "parse" then
    let f ← read parseLevel args
    match f.positionals with
    | [showItem] => withSettings outer f (.parse showItem)
    | _ => .error .misuse
  else if name = "diff" then
    let f ← read diffLevel args
    match f.positionals with
    | [base, derived] => withSettings outer f (.diff base derived (f.values "real"))
    | _ => .error .misuse
  else if name = "config" then settingsRequest outer args
  else help args

def programRequest (args : List String) : Except Stop Request := do
  let f ← read program args
  match f.command with
  | some (name, args) =>
    let request ← commandRequest (f.value? "config") name args
    .ok (match f.value? "generate-completion" with
      | some shell => .completion shell
      | none => request)
  | none =>
    .ok (match f.value? "generate-completion" with
      | some shell => .completion shell
      | none => .help)

end Arguments

/-- What a list of arguments asks for. -/
def Request.ofArguments (args : List String) : Request :=
  match Arguments.programRequest args with
  | .ok request => request
  | .error .misuse => .misuse
  | .error .version => .version
  | .error .help => .help

end FormLayout
