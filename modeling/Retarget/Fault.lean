import Retarget.Document.Printer
import Retarget.Document.Reader
import Retarget.Literal
import Retarget.Text.Utf8

/-!
# Faults

The causes for which an operation fails, and the words in which each is reported.
-/

namespace Retarget

/-! ## Documents that are not accepted -/

/-- The words for a text that cannot be read as a document. -/
def Document.ReadError.message : Document.ReadError → String
  | .malformed what line column position =>
    what.message ++ ": line " ++ Radix.decimal line ++ " column " ++ Radix.decimal column ++
      " (char " ++ Radix.decimal position ++ ")"
  | .tooLong digits => (LiteralError.tooLong digits).message
  | .tooDeep inside =>
    "maximum recursion depth exceeded while decoding a JSON " ++ inside.word ++
      " from a unicode string"
  | .unpaired => "unpaired surrogate escape"

/-- Why a document does not describe an architecture. -/
inductive ArchError where
  | unreadable (name : String) (error : Document.ReadError)
  | notObject (value : Document)
  | noVariables
  | noRules
  | widthNotPositive (value : Document)
  | variableNotObject (name : String)
  | bitsNotPositive (name : String) (value : Document)
  | tokensNotTexts (name : String)
  | offsetNotInteger (name : String)
  | ruleNotObject (index : Nat)
  | noFormat
  | noLayout
  | unknownVariable (name : String)
  | unsupportedVariable (value : Document)
  | badBits (format bits : String)
  | badOperand (format : String) (index : Int) (count : Nat)
  | badEntry (format : String) (entry : Document)

namespace ArchError

/-- The words for a value that should be a positive integer. -/
def notPositive (subject : String) (value : Document) : String :=
  subject ++ " must be a positive integer, got " ++ value.display

/-- The words for why a document does not describe an architecture. -/
def message : ArchError → String
  | unreadable name error =>
    "Architecture spec " ++ (if name = "" then "<text>" else name) ++ " is not valid JSON: " ++
      error.message
  | notObject value => "Architecture spec must be an object, got " ++ value.kindName
  | noVariables => "Architecture spec requires a \"vars\" object"
  | noRules => "Architecture spec requires a \"rules\" array"
  | widthNotPositive value => notPositive "width" value
  | variableNotObject name => "Variable \"" ++ name ++ "\" must be an object"
  | bitsNotPositive name value => notPositive ("Variable \"" ++ name ++ "\" bits") value
  | tokensNotTexts name => "Variable \"" ++ name ++ "\" toks must be a list of strings"
  | offsetNotInteger name => "Variable \"" ++ name ++ "\" ipofs must be an integer"
  | ruleNotObject index => "Rule #" ++ Radix.decimal index ++ " must be an object"
  | noFormat => "Each rule must have a \"fmt\" string field"
  | noLayout => "Each rule must have a \"bits\" array field"
  | unknownVariable name => "Could not find variable definition for \"~" ++ name ++ "\""
  | unsupportedVariable value => "Unsupported variable definition " ++ value.display
  | badBits format bits => "Rule \"" ++ format ++ "\" has invalid bit string \"" ++ bits ++ "\""
  | badOperand format index count =>
    "Rule \"" ++ format ++ "\" references variable #" ++ Radix.decimal index ++ " but only has " ++
      Radix.decimal count
  | badEntry format entry => "Rule \"" ++ format ++ "\" has invalid bits entry " ++ entry.display

end ArchError

/-! ## Documents that are not found -/

/-- A document that a library could not provide. -/
structure LoadError where
  kind : String
  name : String
  reason : String
  deriving DecidableEq, Repr

/-- The words for a document that a library could not provide. -/
def LoadError.message (e : LoadError) : String :=
  "Could not load " ++ e.kind ++ " '" ++ e.name ++ "'" ++
    (if e.reason = "" then "" else ": " ++ e.reason)

/-- Why a file cannot be opened. -/
inductive FileError where
  | notFound (path : String)
  | notDirectory (path : String)
  | isDirectory (path : String)
  | nameTooLong (path : String)
  deriving DecidableEq, Repr

/-- The words for a file that cannot be opened. -/
def FileError.message : FileError → String
  | notFound path => "[Errno 2] No such file or directory: " ++ Text.quoted path
  | notDirectory path => "[Errno 20] Not a directory: " ++ Text.quoted path
  | isDirectory path => "[Errno 21] Is a directory: " ++ Text.quoted path
  | nameTooLong path => "[Errno 36] File name too long: " ++ Text.quoted path

/-! ## Operands that a rule rejects -/

/-- Why a rule that matches a line does not build an instruction from it. -/
inductive Rejection where
  | noArchitecture
  | unknownVariable (token : String)
  | notToken (token : String) (tokens : List String)
  | unsupportedVariable (name : String)
  | tooWide (value : Int) (bits : Nat)
  deriving DecidableEq, Repr

/-- The words for a rejection. -/
def Rejection.message : Rejection → String
  | noArchitecture => "Need to load .arch first"
  | unknownVariable token => "Could not find matching identifier for '" ++ token ++ "'"
  | notToken token tokens =>
    "Can't use '" ++ token ++ "' here, only one of: " ++ ", ".intercalate tokens
  | unsupportedVariable name => "Unsupported variable '" ++ name ++ "'"
  | tooWide value bits =>
    "Value " ++ Radix.decimal value ++ " does not fit in " ++ Radix.decimal bits ++ " bits"

/-! ## Things that are too large -/

/-- Why something is too large to be held. -/
inductive Excess where
  /-- A number with more digits than a number may have. -/
  | digits
  /-- A length that cannot be counted. -/
  | count
  /-- More than there is room for. -/
  | room
  deriving DecidableEq, Repr

/-- The words for a length or a place that cannot be counted. -/
def Excess.countMessage : String := "cannot fit 'int' into an index-sized integer"

/-- The words for something that is too large; there are none where there is no room. -/
def Excess.message : Excess → String
  | digits => "too many digits in integer"
  | count => countMessage
  | room => ""

/-! ## Names of the log that are no levels -/

/-- A name of the log that stands for something else than a level. -/
inductive NoLevel where
  /-- The format of its lines. -/
  | format
  /-- The table of the styles of a format. -/
  | styles
  deriving DecidableEq, Repr

/-- The words for something that is no level. -/
def NoLevel.message : NoLevel → String
  | format => "Unknown level: '%(levelname)s:%(name)s:%(message)s'"
  | styles =>
    "Level not an integer or a valid string: \x7b" ++
      "'%': (<class 'logging.PercentStyle'>, '%(levelname)s:%(name)s:%(message)s'), " ++
      "'\x7b': (<class 'logging.StrFormatStyle'>, " ++
      "'\x7blevelname\x7d:\x7bname\x7d:\x7bmessage\x7d'), " ++
      "'$': (<class 'logging.StringTemplateStyle'>, " ++
      "'$\x7blevelname\x7d:$\x7bname\x7d:$\x7bmessage\x7d')\x7d"

/-! ## All causes -/

/-- Why an operation fails. -/
inductive Fault where
  | literal (error : LiteralError)
  | arch (error : ArchError)
  | load (error : LoadError)
  | rejected (rejection : Rejection)
  | file (error : FileError)
  | decoding (error : Text.DecodeError)
  /-- An address in front of the image. -/
  | belowOrigin (address origin : Int)
  /-- A place outside a list. -/
  | outOfRange
  /-- A place that cannot be counted. -/
  | placeTooLarge
  /-- Something too large to be held. -/
  | excess (why : Excess)
  /-- A field of more characters than can be counted. -/
  | fieldTooWide
  /-- A field of less than no characters. -/
  | negativeField (digits : Int)
  /-- A number with too many digits to be written in decimal. -/
  | decimalTooLong
  /-- A width or shift below zero. -/
  | negativeShift
  /-- A number of words of no bits. -/
  | zeroDivision
  /-- A remainder by words of no bits. -/
  | zeroModulo
  /-- A home directory that is not known. -/
  | unknownHome
  /-- A path with a null character. -/
  | nullInPath
  /-- A directory to be searched that was given without a path. -/
  | noPath
  /-- Something to be done with a value that was not given. -/
  | noValue (deed : String)
  /-- Sources that include each other too deeply. -/
  | nesting
  /-- A document in which values are nested too deeply. -/
  | tooDeep (inside : Document.Container)
  /-- A document with half of a pair of escapes. -/
  | unpaired
  /-- A log that is asked for by a name that is no level. -/
  | noLevel (name : NoLevel)
  /-- A failure of the surroundings, in their own words. -/
  | foreign (text : String)
  /-- Binary output without a file to put it in. -/
  | binaryNeedsFile

/-- The words for a fault. -/
def Fault.message : Fault → String
  | literal error => error.message
  | arch error => error.message
  | load error => error.message
  | rejected rejection => rejection.message
  | file error => error.message
  | decoding error => error.message
  | belowOrigin address origin =>
    "Address " ++ Radix.decimal address ++ " is below origin " ++ Radix.decimal origin
  | outOfRange => "list index out of range"
  | placeTooLarge => Excess.countMessage
  | excess why => why.message
  | fieldTooWide => "Too many decimal digits in format string"
  | negativeField digits =>
    "Invalid format specifier '0" ++ Radix.decimal digits ++ "X' for object of type 'int'"
  | decimalTooLong => LiteralError.limitMessage ++ LiteralError.limitAdvice
  | negativeShift => "negative shift count"
  | zeroDivision => "integer division or modulo by zero"
  | zeroModulo => "integer modulo by zero"
  | unknownHome => "Could not determine home directory."
  | nullInPath => "embedded null byte"
  | noPath => "expected str, bytes or os.PathLike object, not list"
  | noValue deed => "'list' object has no attribute '" ++ deed ++ "'"
  | nesting => "maximum recursion depth exceeded"
  | tooDeep inside => (Document.ReadError.tooDeep inside).message
  | unpaired => Document.ReadError.unpaired.message
  | noLevel name => name.message
  | foreign text => text
  | binaryNeedsFile => "binary output requires -o/--output"

/-- Fails for `cause`, whose words show `numbers`; if one of them has no decimal text, that is the
fault instead. -/
def Fault.showing (numbers : List Int) (cause : Fault) : Fault :=
  if numbers.all Radix.hasDecimal then cause else .decimalTooLong

/-- The fault for a text that is not read; one that does not follow the grammar is told by
`malformed`. -/
def Document.ReadError.fault (malformed : Document.ReadError → Fault) :
    Document.ReadError → Fault
  | .tooLong digits => .literal (.tooLong digits)
  | .tooDeep inside => .tooDeep inside
  | .unpaired => .unpaired
  | error => malformed error

end Retarget
