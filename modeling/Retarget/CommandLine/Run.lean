import Retarget.CommandLine.Options
import Retarget.Search
import Retarget.Session

/-!
# Running a command line

What the program does for a command line: it prints help or a refusal, opens a session, or assembles
a file and writes the outcome.  All of it is a function of the arguments and of the files that are
there.
-/

namespace Retarget.CommandLine

variable [Machine]

/-! ## Outcomes -/

/-- How a run ends. -/
inductive Ending where
  /-- With a code. -/
  | code (n : Nat)
  /-- With a code, before anything was done. -/
  | usage (n : Nat)
  /-- With a fault that nothing catches. -/
  | fault (f : Fault)

/-- A file that a run writes: its place and its bytes. -/
structure Written where
  place : List String
  bytes : List UInt8

/-- What a run prints and writes, and how it ends. -/
structure Outcome where
  stdout : String := ""
  stderr : String := ""
  written : Option Written := none
  ending : Ending

/-- What a command line leads to. -/
inductive Plan where
  | finished (outcome : Outcome)
  | session (library : Library) (start : Session)

/-- A refusal of the command line. -/
def refusal (reason : UsageError) : Outcome where
  stderr := usage ++ programName ++ ": error: " ++ reason.message ++ "\n"
  ending := .usage 2

/-- An end with code 2 after what is printed already. -/
def failed (stderr : String) (message : String) : Outcome where
  stderr := stderr ++ "error: " ++ message ++ "\n"
  ending := .code 2

/-! ## Preparing -/

/-- What surrounds a run: the files, the list of directories that the environment adds to the
search, and the log. -/
structure Surroundings where
  tree : FileTree
  searchPath : String := ""
  /-- The level of the log if the command line asks for none in particular. -/
  logLevel : String := "WARNING"
  /-- Whether there is a log already; its level stays as it is. -/
  logOpen : Bool := false

/-- What a name of the log stands for if that is no level.  A name that is not known at all stands
for a level. -/
def noLevel? (name : String) : Option NoLevel :=
  let capitals := Text.plainCapitals name
  if capitals = "BASIC_FORMAT".toList then some .format
  else if capitals = "_STYLES".toList then some .styles
  else none

/-- Opens the log at a level. -/
def openLogAt (s : Surroundings) (name : String) : Except Fault Unit :=
  match noLevel? name with
  | some what => if s.logOpen then .ok () else .error (.noLevel what)
  | none => .ok ()

/-- Opens the log of a run. -/
def openLog (s : Surroundings) : Level → Except Fault Unit
  | .usual => openLogAt s s.logLevel
  | .named name => openLogAt s name
  | .missing => .error (.noValue "upper")

/-- The search of a run: the directory of the source, those of the options, those of the
environment. -/
def searchOf (s : Surroundings) (source : Option Path) (options : Options) :
    Except Fault Search := do
  let own ← source.mapM (Path.resolve s.tree.workingDirectory)
  let directories ← Search.directoriesOf s.tree
    (own.toList.map (some ·.parent) ++ options.includePaths ++
      (Search.splitList s.searchPath).map some)
  .ok { directories }

/-- The architecture that the options name: a file, or else a document of the library. -/
def loadArch (tree : FileTree) (library : Library) (name : String) :
    Except Fault InstructionSet := do
  let path := Path.parse name
  let isFile ← if path.suffix = ".json" then tree.isFile path else .ok false
  let arch ←
    if isFile then Arch.ofFile tree path else Arch.ofDocument name (← library.arch name)
  (InstructionSet.ofArch arch).mapError .arch

/-- The assembler with which a run starts. -/
def prepare (tree : FileTree) (library : Library) (options : Options) : Except Fault Assembler :=
  match options.arch with
  | some name =>
    if name = "" then .ok {}
    else (loadArch tree library name).map fun set => Assembler.fresh (some set)
  | none => .ok {}

/-- Whether a fault in preparing or in writing is reported, or else ends the run. -/
def isReported : Fault → Bool
  | .literal _ | .arch _ | .load _ | .file _ | .decoding _ | .decimalTooLong | .negativeShift
  | .fieldTooWide | .negativeField _ | .nullInPath | .binaryNeedsFile => true
  | _ => false

/-- The end of a run for a fault, after what is printed already. -/
def endedBy (stderr : String) (fault : Fault) : Outcome :=
  if isReported fault then failed stderr fault.message else { stderr, ending := .fault fault }

/-! ## Assembling a file -/

/-- The diagnostics of a run. -/
def diagnosticLines (source : String) (a : Assembler) : String :=
  String.join (a.diagnostics.toList.map fun d =>
    source ++ ":" ++ Radix.decimal d.line ++ ": " ++ d.severity ++ ": " ++ d.message ++ "\n")

/-- The figures of a run. -/
def figures (a : Assembler) : Except Fault String :=
  if Radix.hasDecimal a.width then
    .ok ("origin=0x" ++ Literal.hexText a.origin 0 ++
      " words=" ++ Radix.decimal a.image.words.size ++ " width=" ++ Radix.decimal a.width ++
      " diagnostics=" ++ Radix.decimal a.diagnostics.size ++ "\n")
  else .error .decimalTooLong

/-- The code of a run whose outcome is written. -/
def exitCode (werror : Bool) (a : Assembler) : Nat :=
  if a.aborted || (werror && !a.diagnostics.isEmpty) then 1 else 0

/-- Ends a run whose outcome is written. -/
def conclude (options : Options) (a : Assembler) (outcome : Outcome) : Outcome :=
  if options.verbose then
    match figures a with
    | .ok text => { outcome with stderr := outcome.stderr ++ text }
    | .error fault => { outcome with ending := .fault fault }
  else outcome

/-- Why the outcome of a run cannot be put nowhere: bytes are not even made, a text is. -/
def nowhereFault (format : OutputFormat) (a : Assembler) : Fault :=
  match format, Report.text format a with
  | .bin, _ => .noValue "write_bytes"
  | _, .ok _ => .noValue "write_text"
  | _, .error fault => fault

/-- What a run prints and writes once its program is finished. -/
def delivery (tree : FileTree) (options : Options) (a : Assembler) :
    Except Fault (String × Option Written) :=
  match options.output with
  | .screen => do .ok (← Report.text options.format a, none)
  | .nowhere => .error (nowhereFault options.format a)
  | .file path => do
    let bytes ← Report.content options.format a
    let place ← tree.writable path
    .ok ("", some ⟨place, bytes⟩)

/-- Writes the outcome of a run. -/
def writeOutcome (tree : FileTree) (options : Options) (stderr : String) (a : Assembler) :
    Outcome :=
  match delivery tree options a with
  | .error fault => endedBy stderr fault
  | .ok (stdout, written) =>
    conclude options a { stdout, stderr, written, ending := .code (exitCode options.werror a) }

/-- Assembles a source file. -/
def assembleFile (tree : FileTree) (library : Library) (options : Options) (source : Path)
    (start : Assembler) : Outcome :=
  match tree.readText source with
  | .error (.file error) => failed "" ("cannot read " ++ source.text ++ ": " ++ error.message)
  | .error fault => { ending := .fault fault }
  | .ok text =>
    match (Assembler.assemble (some library) text).runFrom start with
    | (.error fault, _) => { ending := .fault fault }
    | (.ok _, a) => writeOutcome tree options (diagnosticLines source.text a) a

/-! ## Running -/

/-- What accepted options lead to. -/
def planFor (s : Surroundings) (options : Options) : Plan :=
  let source := match options.source with
    | some text => if text = "" then none else some (Path.parse text)
    | none => none
  match openLog s options.level with
  | .error fault => .finished { ending := .fault fault }
  | .ok () =>
    if source.isNone && !options.interactive then .finished (refusal .noSource)
    else match searchOf s source options with
      | .error fault => .finished { ending := .fault fault }
      | .ok search =>
        let library := search.library s.tree
        match prepare s.tree library options, options.interactive, source with
        | .error fault, _, _ => .finished (endedBy "" fault)
        | .ok start, false, some source =>
          .finished (assembleFile s.tree library options source start)
        | .ok start, _, _ => .session library { assembler := start }

/-- What a command line leads to. -/
def plan (s : Surroundings) (arguments : List String) : Plan :=
  match Options.parse arguments with
  | .error .help => .finished { stdout := helpText, ending := .usage 0 }
  | .error (.error reason) => .finished (refusal reason)
  | .ok options => planFor s options

/-- The outcome of a session in which these lines are typed. -/
def sessionOutcome (library : Library) (start : Session) (typed : List String) : Outcome :=
  let (printed, result) := start.run (some library) typed
  { stdout := String.join (printed.map Printed.text)
    ending := match result with
      | .ok _ => .code 0
      | .error fault => .fault fault }

/-- The outcome of a command line when these lines are typed. -/
def run (s : Surroundings) (arguments typed : List String) : Outcome :=
  match plan s arguments with
  | .finished outcome => outcome
  | .session library start => sessionOutcome library start typed

end Retarget.CommandLine
