import Retarget.Path
import Retarget.Report
import Retarget.Text.Digit

/-!
# Command line options

The arguments of a command line are options and one optional source file.  Long options may be cut
short as long as they stay unambiguous; short ones may be run together and may have their value
attached.  Whatever follows a double dash is no option, and a double dash attached as a value is
dropped.
-/

namespace Retarget.CommandLine

/-! ## The options -/

/-- What an option sets. -/
inductive Setting where
  | help
  | arch
  | includePath
  | output
  | format
  | interactive
  | verbose
  | werror
  | history
  | logLevel
  deriving DecidableEq, Repr

/-- An option with its names. -/
structure Switch where
  setting : Setting
  names : List String
  takesValue : Bool
  deriving DecidableEq, Repr

/-- All options. -/
def switches : List Switch := [
  ⟨.help, ["-h", "--help"], false⟩,
  ⟨.arch, ["-a", "--arch"], true⟩,
  ⟨.includePath, ["-I", "--include-path"], true⟩,
  ⟨.output, ["-o", "--output"], true⟩,
  ⟨.format, ["-f", "--format"], true⟩,
  ⟨.interactive, ["-i", "--interactive"], false⟩,
  ⟨.verbose, ["-v", "--verbose"], false⟩,
  ⟨.werror, ["--werror"], false⟩,
  ⟨.history, ["--history"], true⟩,
  ⟨.logLevel, ["--log-level"], true⟩]

/-- All names of options with the options they name. -/
def namedSwitches : List (String × Switch) :=
  switches.flatMap fun switch => switch.names.map (·, switch)

/-- The option of a name. -/
def switch? (name : String) : Option Switch :=
  Bindings.find? namedSwitches name

/-- Where the outcome of a run is put. -/
inductive Target where
  | screen
  | file (path : Path)
  /-- The option for it was given without a value. -/
  | nowhere
  deriving DecidableEq, Repr

/-- The level of the log that a command line asks for. -/
inductive Level where
  /-- None in particular. -/
  | usual
  | named (name : String)
  /-- The option for it was given without a value. -/
  | missing
  deriving DecidableEq, Repr

/-- What a command line asks for. -/
structure Options where
  source : Option String := none
  arch : Option String := none
  /-- The directories to be searched; one may be given without a value. -/
  includePaths : List (Option Path) := []
  output : Target := .screen
  format : OutputFormat := .hex
  interactive : Bool := false
  verbose : Bool := false
  werror : Bool := false
  level : Level := .usual

/-! ## What is printed about them -/

/-- The name of the program. -/
def programName : String := "specasm"

/-- How the program is used. -/
def usage : String :=
  "usage: specasm [-h] [-a ARCH] [-I INCLUDE_PATH] [-o OUTPUT]\n" ++
  "               [-f \x7bhex,bin,json,listing\x7d] [-i] [-v] [--werror]\n" ++
  "               [--history HISTORY] [--log-level LOG_LEVEL]\n" ++
  "               [source]\n"

/-- What the options mean. -/
def helpText : String :=
  usage ++
  "\n" ++
  "Data-driven assembler\n" ++
  "\n" ++
  "positional arguments:\n" ++
  "  source                assembly source file\n" ++
  "\n" ++
  "options:\n" ++
  "  -h, --help            show this help message and exit\n" ++
  "  -a ARCH, --arch ARCH  architecture to load before assembling (NAME or\n" ++
  "                        NAME.json)\n" ++
  "  -I INCLUDE_PATH, --include-path INCLUDE_PATH\n" ++
  "                        directory searched for .arch/.include/.module\n" ++
  "                        documents (repeatable)\n" ++
  "  -o OUTPUT, --output OUTPUT\n" ++
  "                        write output to this file instead of stdout\n" ++
  "  -f \x7bhex,bin,json,listing\x7d, --format \x7bhex,bin,json,listing\x7d\n" ++
  "                        output format (default hex)\n" ++
  "  -i, --interactive     start the interactive assembler\n" ++
  "  -v, --verbose         print assembly statistics\n" ++
  "  --werror              exit non-zero when any diagnostic is reported\n" ++
  "  --history HISTORY     history file for the interactive assembler\n" ++
  "  --log-level LOG_LEVEL\n" ++
  "                        logging level (default WARNING, or $SPECASM_LOG)\n"

/-- Why a command line is not accepted. -/
inductive UsageError where
  | ambiguous (argument : String) (names : List String)
  | ignoredValue (switch : Switch) (value : String)
  | missingValue (switch : Switch)
  | invalidFormat (switch : Switch) (value : String)
  | unrecognized (arguments : List String)
  | noSource

/-- The words for an option in messages. -/
def Switch.title (switch : Switch) : String :=
  "argument " ++ "/".intercalate switch.names

/-- The words for why a command line is not accepted. -/
def UsageError.message : UsageError → String
  | ambiguous argument names =>
    "ambiguous option: " ++ argument ++ " could match " ++ ", ".intercalate names
  | ignoredValue switch value =>
    switch.title ++ ": ignored explicit argument " ++ Text.quoted value
  | missingValue switch => switch.title ++ ": expected one argument"
  | invalidFormat switch value =>
    switch.title ++ ": invalid choice: " ++ Text.quoted value ++ " (choose from " ++
      ", ".intercalate ((Bindings.names OutputFormat.table).map Text.quoted) ++ ")"
  | unrecognized arguments => "unrecognized arguments: " ++ " ".intercalate arguments
  | noSource => "a source file is required unless --interactive is given"

/-! ## Arguments one by one -/

/-- What an argument is, seen by itself. -/
inductive Argument where
  /-- No option. -/
  | plain (text : String)
  /-- The double dash. -/
  | separator
  /-- An option, by the name it was given, with an attached value. -/
  | option (switch : Switch) (name : List Char) (attached : Option (List Char))
  /-- An option that is not known. -/
  | unknown (text : String)

/-- The text of an argument in front of its first equals sign, and the text after it. -/
def splitAssignment (s : List Char) : List Char × Option (List Char) :=
  let name := s.takeWhile (· != '=')
  match s.drop name.length with
  | [] => (name, none)
  | _ :: value => (name, some value)

/-- Whether an argument looks like a negative number. -/
def looksNegative (s : List Char) : Bool :=
  let s := if s.getLast? = some '\n' then s.dropLast else s
  match s with
  | '-' :: body =>
    let whole := body.takeWhile Text.isDigit
    match body.drop whole.length with
    | [] => !whole.isEmpty
    | '.' :: fraction => !fraction.isEmpty && fraction.all Text.isDigit
    | _ => false
  | _ => false

/-- The options whose names an argument with two dashes may be short for. -/
def longMatches (s : List Char) : List (String × Argument) :=
  let (name, value) := splitAssignment s
  (namedSwitches.filter fun (full, _) => name.isPrefixOf full.toList).map fun (full, switch) =>
    (full, .option switch full.toList value)

/-- The options that an argument with one dash may start with or be short for. -/
def shortMatches (s : List Char) : List (String × Argument) :=
  namedSwitches.filterMap fun (full, switch) =>
    if full.toList = s.take 2 then
      some (full, .option switch full.toList (some (s.drop 2)))
    else if s.isPrefixOf full.toList then some (full, .option switch full.toList none)
    else none

/-- What an argument is that no option is named exactly like. -/
def classifyOther (s : List Char) : Except UsageError Argument :=
  let text := String.ofList s
  let found := match s with
    | _ :: '-' :: _ => longMatches s
    | _ => shortMatches s
  match found with
  | [(_, argument)] => .ok argument
  | _ :: _ :: _ => .error (.ambiguous text (found.map Prod.fst))
  | [] => .ok (if looksNegative s || s.contains ' ' then .plain text else .unknown text)

/-- What an argument is, seen by itself. -/
def classify (text : String) : Except UsageError Argument :=
  match text.toList with
  | '-' :: rest =>
    match switch? text with
    | some switch => .ok (.option switch text.toList none)
    | none =>
      if rest.isEmpty then .ok (.plain text)
      else
        let (name, value) := splitAssignment text.toList
        match value, switch? (String.ofList name) with
        | some value, some switch => .ok (.option switch name (some value))
        | _, _ => classifyOther text.toList
  | _ => .ok (.plain text)

/-- What each argument is; after the double dash there are no options. -/
def classifyAll : List String → Except UsageError (List Argument)
  | [] => .ok []
  | text :: rest =>
    if text = "--" then .ok (.separator :: rest.map .plain)
    else do
      let argument ← classify text
      let more ← classifyAll rest
      .ok (argument :: more)

/-! ## Taking the arguments -/

/-- An option with the value it was given, if any. -/
structure Taken where
  switch : Switch
  value : Option String := none

/-- An option with an attached value; the double dash is no value. -/
def Taken.attached (switch : Switch) (value : List Char) : Taken :=
  ⟨switch, if value = ['-', '-'] then none else some (String.ofList value)⟩

/-- The options that run together in one argument. -/
structure Cluster where
  taken : List Taken := []
  /-- An option that still needs its value from the next argument. -/
  wanting : Option Switch := none

/-- The options of an argument that ends after one. -/
def Cluster.single (switch : Switch) : Cluster :=
  if switch.takesValue then { wanting := some switch } else { taken := [⟨switch, none⟩] }

/-- The options that run together in the letters after an option without a value. -/
def runTogether (switch : Switch) : (letters : List Char) → Except UsageError Cluster
  | [] => .ok (.single switch)
  | letter :: rest =>
    match switch? (String.ofList ['-', letter]) with
    | none => .error (.ignoredValue switch (String.ofList (letter :: rest)))
    | some next => do
      let cluster ←
        if next.takesValue && !rest.isEmpty then .ok { taken := [.attached next rest] }
        else runTogether next rest
      .ok { cluster with taken := ⟨switch, none⟩ :: cluster.taken }

/-- The options of one argument. -/
def clusterOf (switch : Switch) (name : List Char) (attached : Option (List Char)) :
    Except UsageError Cluster :=
  match attached with
  | none => .ok (.single switch)
  | some value =>
    if switch.takesValue then .ok { taken := [.attached switch value] }
    else if value.isEmpty || name[1]? == some '-' then
      .error (.ignoredValue switch (String.ofList value))
    else runTogether switch value

/-- How reading a command line ends. -/
inductive Stop where
  /-- Help was asked for. -/
  | help
  | error (reason : UsageError)

/-- Sets what an option says. -/
def Options.apply (o : Options) (taken : Taken) : Except Stop Options :=
  match taken.switch.setting with
  | .help => .error .help
  | .arch => .ok { o with arch := taken.value }
  | .includePath => .ok { o with includePaths := o.includePaths ++ [taken.value.map Path.parse] }
  | .output =>
    .ok { o with output := (taken.value.map fun s => .file (Path.parse s)).getD .nowhere }
  | .format =>
    match taken.value with
    | none => .ok { o with format := .hex }
    | some value =>
      match Bindings.find? OutputFormat.table value with
      | some format => .ok { o with format }
      | none => .error (.error (.invalidFormat taken.switch value))
  | .interactive => .ok { o with interactive := true }
  | .verbose => .ok { o with verbose := true }
  | .werror => .ok { o with werror := true }
  | .history => .ok o
  | .logLevel => .ok { o with level := (taken.value.map .named).getD .missing }

/-- How far a command line is read. -/
structure Progress where
  options : Options := {}
  /-- Whether the place of the source file is taken. -/
  sourceTaken : Bool := false
  /-- The arguments that have no place, last first. -/
  extras : List String := []

namespace Progress

/-- Puts an argument that has no place aside. -/
def setAside (p : Progress) (text : String) : Progress :=
  { p with extras := text :: p.extras }

/-- Takes the source file, if there is one. -/
def takeSource (p : Progress) (text : Option String) : Progress :=
  { p with options := { p.options with source := text }, sourceTaken := true }

/-- Sets what options say, in order. -/
def applyAll (p : Progress) (taken : List Taken) : Except Stop Progress := do
  .ok { p with options := ← taken.foldlM Options.apply p.options }

end Progress

/-- Takes arguments in order.  The source file is the first that is no option, and a double dash
next to it is taken along. -/
def takeAll (p : Progress) : List Argument → Except Stop Progress
  | [] => .ok p
  | .unknown text :: rest => takeAll (p.setAside text) rest
  | .option switch name attached :: rest => do
    let cluster ← (clusterOf switch name attached).mapError Stop.error
    match cluster.wanting, rest with
    | none, rest => takeAll (← p.applyAll cluster.taken) rest
    | some wanting, .plain value :: rest =>
      takeAll (← p.applyAll (cluster.taken ++ [⟨wanting, some value⟩])) rest
    | some wanting, _ => .error (.error (.missingValue wanting))
  | .plain text :: .separator :: rest =>
    if p.sourceTaken then takeAll ((p.setAside text).setAside "--") rest
    else takeAll (p.takeSource (some text)) rest
  | .plain text :: rest =>
    if p.sourceTaken then takeAll (p.setAside text) rest
    else takeAll (p.takeSource (some text)) rest
  | .separator :: .plain text :: rest =>
    if p.sourceTaken then takeAll ((p.setAside "--").setAside text) rest
    else takeAll (p.takeSource (some text)) rest
  | .separator :: rest =>
    if p.sourceTaken then takeAll (p.setAside "--") rest
    else takeAll (p.takeSource none) rest

/-- Reads a command line. -/
def Options.parse (arguments : List String) : Except Stop Options := do
  let classified ← (classifyAll arguments).mapError Stop.error
  let p ← takeAll {} classified
  if p.extras.isEmpty then .ok p.options
  else .error (.error (.unrecognized p.extras.reverse))

end Retarget.CommandLine
