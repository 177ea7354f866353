import TablePeek.Number.Digits

set_option autoImplicit false

namespace TablePeek.CommandLine

inductive CountFault where
  | empty
  | notDigit
  | tooLarge
deriving DecidableEq, Repr

def CountFault.message : CountFault → String
  | .empty => "cannot parse integer from empty string"
  | .notDigit => "invalid digit found in string"
  | .tooLarge => "number too large to fit in target type"

-- The first digit that does not fit, or is none, ends the reading.
def countFrom (n : Nat) : List Char → Except CountFault Nat
  | [] => .ok n
  | c :: rest =>
    if c.isDigit then
      if 10 * n + Digits.value c < 0x10000000000000000 then countFrom (10 * n + Digits.value c) rest
      else .error .tooLarge
    else .error .notDigit

def readCount : List Char → Except CountFault UInt64
  | [] => .error .empty
  | ['+'] => .error .notDigit
  | '+' :: rest => (countFrom 0 rest).map UInt64.ofNat
  | cs => (countFrom 0 cs).map UInt64.ofNat

end TablePeek.CommandLine
