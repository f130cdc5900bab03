import Nmos6502.Json.Number
import Nmos6502.Json.Text

/-!
The tokens of JSON: brackets, separators, and values without parts.
-/

namespace Nmos6502.Json

inductive Token where
  | openArray
  | closeArray
  | openObject
  | closeObject
  | colon
  | comma
  | null
  | bool (value : Bool)
  | number (number : Number)
  | string (text : Text)
  deriving DecidableEq

namespace Token

def isBlank (character : Char) : Bool :=
  character == ' ' || character == '\t' || character == '\n' || character == '\r'

def next? : List Char → Option (Token × List Char)
  | '[' :: rest => some (openArray, rest)
  | ']' :: rest => some (closeArray, rest)
  | '{' :: rest => some (openObject, rest)
  | '}' :: rest => some (closeObject, rest)
  | ':' :: rest => some (colon, rest)
  | ',' :: rest => some (comma, rest)
  | 'n' :: 'u' :: 'l' :: 'l' :: rest => some (null, rest)
  | 't' :: 'r' :: 'u' :: 'e' :: rest => some (bool true, rest)
  | 'f' :: 'a' :: 'l' :: 's' :: 'e' :: rest => some (bool false, rest)
  | '"' :: rest => do
      let (text, after) ← Text.scan rest
      return (string text, after)
  | input => do
      let (value, after) ← Number.scan input
      return (number value, after)

def scanWithin : Nat → List Char → Option (List Token)
  | 0, input => if input.all isBlank then some [] else none
  | limit + 1, input =>
      match input.dropWhile isBlank with
      | [] => some []
      | rest => do
          let (token, after) ← next? rest
          let tokens ← scanWithin limit after
          return token :: tokens

/-- Reads all tokens of the input, which are no more than its characters. -/
def scan (input : List Char) : Option (List Token) :=
  scanWithin input.length input

def spell : Token → List Char
  | openArray => ['[']
  | closeArray => [']']
  | openObject => ['{']
  | closeObject => ['}']
  | colon => [':']
  | comma => [',']
  | null => ['n', 'u', 'l', 'l']
  | bool true => ['t', 'r', 'u', 'e']
  | bool false => ['f', 'a', 'l', 's', 'e']
  | number value => value.spell
  | string text => text.spell

end Token

end Nmos6502.Json
