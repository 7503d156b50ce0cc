import Retarget.Assembler.Program

/-!
# Interactive sessions

A session assembles each line as it is typed and answers at once.  A line that starts with a colon
is a command to the session.  After a fatal line the session refuses lines until it is reset.
-/

namespace Retarget

variable [Machine]

/-! ## What is printed -/

/-- Something that a session prints. -/
inductive Printed where
  /-- The words that a line emitted. -/
  | words (offset : Int) (text : String)
  | diagnostic (d : Diagnostic)
  | refusal
  | help
  | state (text : String)
  | noSymbols
  | symbol (name : String) (value : SymbolValue)
  | image (text : String)
  | reset
  | unknown (command : String)
  /-- The end of what is typed. -/
  | ended

/-- The lines of help. -/
def helpLines : List String := [
  "Enter assembly lines or directives; each line is assembled immediately.",
  "  :state     show ip, origin, length and diagnostic count",
  "  :symbols   list defined symbols",
  "  :finish    resolve fixups and print the output image",
  "  :reset     discard everything assembled so far",
  "  :help      show this text",
  "  :quit      leave the assembler"]

/-- The text of what is printed, with its line break. -/
def Printed.text : Printed → String
  | words offset text => Literal.hexText offset 4 ++ ": " ++ text ++ "\n"
  | diagnostic d =>
    "line " ++ Radix.decimal d.line ++ ": " ++ d.severity ++ ": " ++ d.message ++ "\n"
  | refusal => "assembly aborted; use :reset to start over\n"
  | help => "\n".intercalate helpLines ++ "\n"
  | state text => text ++ "\n"
  | noSymbols => "  symbols: (none)\n"
  | symbol name value => "  " ++ name ++ " = " ++ value.written ++ "\n"
  | image text => (if text = "" then "(empty)" else text) ++ "\n"
  | reset => "reset\n"
  | unknown command => "Unknown command: :" ++ command ++ "\n"
  | ended => "\n"

/-! ## Sessions -/

/-- A session: the assembler, and how many of its diagnostics have been printed. -/
structure Session where
  assembler : Assembler
  reported : Nat := 0

/-- The answer to a line: what is printed, and whether the session goes on. -/
structure Reply where
  session : Session
  printed : List Printed
  result : Except Fault Bool

namespace Session

/-- A session with an instruction set if there is one. -/
def fresh (active : Option InstructionSet) : Session :=
  { assembler := Assembler.fresh active }

/-- The diagnostics that have not been printed. -/
def unreported (s : Session) : List Diagnostic :=
  s.assembler.diagnostics.toList.drop s.reported

/-- Prints the diagnostics that have not been printed, after what is printed already. -/
def reporting (s : Session) (before after : List Printed) (result : Except Fault Bool) : Reply where
  session := { s with reported := s.assembler.diagnostics.size }
  printed := before ++ s.unreported.map Printed.diagnostic ++ after
  result

/-- The word for the state of an assembler. -/
def stateWord (a : Assembler) : String :=
  if a.aborted then "aborted" else if a.active.isSome then "ready" else "unconfigured"

/-- The line that shows the state of an assembler. -/
def stateLine (a : Assembler) : Except Fault String :=
  if [a.ip, a.origin, a.codelen, a.width].all Radix.hasDecimal then
    .ok ("state=" ++ stateWord a ++ " ip=" ++ Radix.decimal a.ip ++
      " origin=" ++ Radix.decimal a.origin ++ " len=" ++ Radix.decimal a.codelen ++
      " width=" ++ Radix.decimal a.width ++ " fixups=" ++ Radix.decimal a.fixups.size ++
      " diagnostics=" ++ Radix.decimal a.diagnostics.size)
  else .error .decimalTooLong

/-- The symbols of an assembler by name. -/
def sortedSymbols (a : Assembler) : List (String × SymbolValue) :=
  a.symbols.mergeSort fun x y => decide (x.1 ≤ y.1)

/-- Whether a symbol can be shown. -/
def isShowable (entry : String × SymbolValue) : Bool :=
  match entry.2 with
  | .number n => Radix.hasDecimal n
  | .text _ => true

/-- The words of an image in hexadecimal. -/
def imageText (a : Assembler) : Except Fault String := do
  Capacity.holdText (" ".intercalate (← Hex.wordFields a.width a.image.words.toList))

/-- Shows the symbols by name, up to the first that cannot be shown. -/
def showSymbols (s : Session) : Reply :=
  let entries := sortedSymbols s.assembler
  let printable := entries.takeWhile isShowable
  { session := s
    printed := (if entries.isEmpty then [.noSymbols] else []) ++
      printable.map fun (name, value) => .symbol name value
    result := if printable.length = entries.length then .ok true else .error .decimalTooLong }

/-- Finishes the program and shows its diagnostics and the image. -/
def showImage (s : Session) : Reply :=
  match Assembler.finish.runFrom s.assembler with
  | (.ok _, a) =>
    match imageText a with
    | .ok text => { s with assembler := a }.reporting [] [.image text] (.ok true)
    | .error fault => { s with assembler := a }.reporting [] [] (.error fault)
  | (.error fault, a) => ⟨{ s with assembler := a }, [], .error fault⟩

/-- Obeys a command in lower case. -/
def command (s : Session) (name : String) : Reply :=
  if name = "quit" ∨ name = "q" ∨ name = "exit" then ⟨s, [], .ok false⟩
  else if name = "help" then ⟨s, [.help], .ok true⟩
  else if name = "state" then
    match stateLine s.assembler with
    | .ok text => ⟨s, [.state text], .ok true⟩
    | .error fault => ⟨s, [], .error fault⟩
  else if name = "symbols" then s.showSymbols
  else if name = "finish" then s.showImage
  else if name = "reset" then ⟨fresh s.assembler.active, [.reset], .ok true⟩
  else ⟨s, [.unknown name], .ok true⟩

/-- The words of a record in hexadecimal. -/
def recordText (a : Assembler) (record : Record) : Except Fault String := do
  let count ← wordCount record.nbits a.width
  a.image.render record.offset count

/-- Shows the words that a line emitted, and then its diagnostics. -/
def showRecord (s : Session) (record : Record) : Reply :=
  match recordText s.assembler record with
  | .ok text => s.reporting [.words record.offset text] [] (.ok true)
  | .error fault => ⟨s, [], .error fault⟩

/-- Assembles a typed line. -/
def assembleTyped (library : Option Library) (s : Session) (line : String) : Reply :=
  match (Assembler.step library line).runFrom s.assembler with
  | (.ok (some record), a) => { s with assembler := a }.showRecord record
  | (.ok none, a) => { s with assembler := a }.reporting [] [] (.ok true)
  | (.error fault, a) =>
    { s with assembler := a.stop (.failure fault) none }.reporting [] [] (.ok true)

/-- Answers a typed line. -/
def handle (library : Option Library) (s : Session) (line : String) : Reply :=
  match Text.trim line.toList with
  | ':' :: rest => s.command (Text.lower (String.ofList (Text.trim rest)))
  | _ =>
    if s.assembler.aborted then ⟨s, [.refusal], .ok true⟩
    else s.assembleTyped library line

/-- Answers lines as they are typed, until one leaves the session; at the end of the input the line
of the prompt is ended. -/
def run (library : Option Library) : List String → Session → List Printed × Except Fault Unit
  | [], _ => ([.ended], .ok ())
  | line :: rest, s =>
    let reply := s.handle library line
    match reply.result with
    | .error fault => (reply.printed, .error fault)
    | .ok false => (reply.printed, .ok ())
    | .ok true =>
      let (printed, result) := run library rest reply.session
      (reply.printed ++ printed, result)

end Session

end Retarget
