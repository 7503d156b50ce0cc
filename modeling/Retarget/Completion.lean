import Retarget.Assembler.State
import Retarget.Directive

/-!
# Completions

The words that may stand where a word is being typed: session commands, directives or mnemonics at
the start of a line, symbols after it.
-/

namespace Retarget

/-- A word that may be put in place of the last `replaced` characters of a line. -/
structure Completion where
  word : String
  replaced : Nat
  deriving DecidableEq, Repr

namespace Completion

/-- The commands of a session. -/
def sessionCommands : List String :=
  [":state", ":symbols", ":finish", ":reset", ":help", ":quit"]

/-- Texts in the order of their code points. -/
def sorted (texts : List String) : List String :=
  texts.mergeSort fun x y => decide (x ≤ y)

/-- A list without the second and later of equal neighbours. -/
def dropRepeats : List String → List String
  | [] => []
  | x :: rest =>
    match dropRepeats rest with
    | [] => [x]
    | y :: more => if x = y then y :: more else x :: y :: more

/-- The first words of the rules, those that start with a variable left out. -/
def mnemonics (a : Assembler) : List String :=
  dropRepeats (sorted ((a.rules.map Rule.mnemonic).filter fun word =>
    word != "" && word.toList.head? != some '~'))

/-- What follows the last comma of a word. -/
def afterComma (word : List Char) : List Char :=
  (word.reverse.takeWhile (· != ',')).reverse

/-- Whether a text ends in a space. -/
def endsInSpace (s : List Char) : Bool :=
  s.getLast? == some ' '

/-- The word being typed at the end of a text, which is empty after a space. -/
def typedWord (s : List Char) : List Char :=
  if endsInSpace s then [] else (Text.wordsOf s).getLast?.getD []

/-- Whether the word being typed at the end of a text is its first one. -/
def atStart (s : List Char) : Bool :=
  match Text.wordsOf s with
  | [] => true
  | [_] => !endsInSpace s
  | _ => false

/-- The words that the word being typed is compared with. -/
def pool (a : Assembler) (start : Bool) (typed : List Char) : List String :=
  if start then
    match typed with
    | ':' :: _ => sessionCommands
    | '.' :: _ => Directive.words
    | _ => mnemonics a
  else sorted (Bindings.names a.symbols)

/-- The words that continue a text, whatever their case. -/
def candidates (a : Assembler) (text : String) : List String :=
  let s := Text.trimStart text.toList
  let start := atStart s
  let typed := typedWord s
  let needle := if start then typed else afterComma typed
  let lowered := Text.lowerFrom false needle
  (pool a start typed).filter fun word =>
    lowered.isPrefixOf (Text.lower word).toList && word != String.ofList needle

/-- The completions of a text. -/
def completions (a : Assembler) (text : String) : List Completion :=
  let replaced := (afterComma (typedWord text.toList)).length
  (candidates a text).map fun word => ⟨word, replaced⟩

end Completion

end Retarget
