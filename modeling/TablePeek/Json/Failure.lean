import TablePeek.Text.Position

set_option autoImplicit false

namespace TablePeek.Json

inductive Cause where
  | endInList
  | endInObject
  | endInString
  | endInValue
  | expectedColon
  | expectedCommaInList
  | expectedCommaInObject
  | expectedWord
  | expectedValue
  | invalidEscape
  | invalidNumber
  | numberOutOfRange
  | loneSurrogate
  | unfinishedSurrogate
  | controlCharacter
  | keyNotString
  | trailingComma
  | trailingCharacters
  | tooDeep
deriving DecidableEq, Repr

def Cause.message : Cause → String
  | .endInList => "EOF while parsing a list"
  | .endInObject => "EOF while parsing an object"
  | .endInString => "EOF while parsing a string"
  | .endInValue => "EOF while parsing a value"
  | .expectedColon => "expected `:`"
  | .expectedCommaInList => "expected `,` or `]`"
  | .expectedCommaInObject => "expected `,` or `\x7d`"
  | .expectedWord => "expected ident"
  | .expectedValue => "expected value"
  | .invalidEscape => "invalid escape"
  | .invalidNumber => "invalid number"
  | .numberOutOfRange => "number out of range"
  | .loneSurrogate => "lone leading surrogate in hex escape"
  | .unfinishedSurrogate => "unexpected end of hex escape"
  | .controlCharacter => "control character (\\u0000-\\u001F) found while parsing a string"
  | .keyNotString => "key must be a string"
  | .trailingComma => "trailing comma"
  | .trailingCharacters => "trailing characters"
  | .tooDeep => "recursion limit exceeded"

structure Failure where
  cause : Cause
  behind : Nat
deriving DecidableEq, Repr

def size : List Char → Nat
  | [] => 0
  | c :: rest => Utf8.size c + size rest

def Failure.before (cause : Cause) (rest : List Char) : Failure := ⟨cause, size rest⟩

def Failure.atNext (cause : Cause) (rest : List Char) : Failure := ⟨cause, size rest - 1⟩

abbrev Step (α : Type) := Except Failure (α × List Char)

structure Error where
  cause : Cause
  position : Position
deriving DecidableEq, Repr

def Error.message (e : Error) : String :=
  e.cause.message ++ " at line " ++ toString e.position.line ++ " column " ++ toString e.position.column

def Failure.locate (text : List Char) (f : Failure) : Error :=
  let bs := Utf8.encode text
  ⟨f.cause, .after (bs.take (bs.length - f.behind))⟩

end TablePeek.Json
