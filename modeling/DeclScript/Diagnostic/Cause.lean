import DeclScript.Text.Quoted
import DeclScript.Token.Kind

set_option autoImplicit false

/-!
# Causes of failure

What can be wrong with a text, with the wording of each cause and the advice that goes with it.
-/

namespace DeclScript

inductive Cause where
  /-- No lexeme starts with the character. -/
  | unexpectedCharacter (character : Char)
  /-- The text ends inside a string. -/
  | unexpectedEndOfFile
  /-- A single quote is not followed by one character and a single quote; `found` names what stands there instead. -/
  | malformedCharacter (found : String)
  /-- The number that the digits write does not fit into 64 bits. -/
  | numberTooLarge (digits : String)
  /-- A token of this kind cannot stand here. -/
  | unexpectedToken (kind : Kind)
  /-- A token of this kind cannot stand here for the reason given. -/
  | unsuitableToken (kind : Kind) (reason : String)
deriving DecidableEq

namespace Cause

def name : Cause → String
  | unexpectedCharacter _ => "UnexpectedCharacter"
  | unexpectedEndOfFile => "UnexpectedEndOfFile"
  | malformedCharacter _ => "MalformedCharacterLiteral"
  | numberTooLarge _ => "NumberParseError"
  | unexpectedToken _ => "UnexpectedToken"
  | unsuitableToken _ _ => "UnexpectedTokenDetailed"

/-- Whether the text could not even be cut into tokens. -/
def isScanning : Cause → Bool
  | unexpectedToken _ | unsuitableToken _ _ => false
  | _ => true

def summary : Cause → String
  | unexpectedCharacter c => "Unexpected character \"" ++ String.singleton c ++ "\""
  | unexpectedEndOfFile => "Unexpected end of file"
  | malformedCharacter found => "Malformed character literal, found " ++ found
  | numberTooLarge digits => "Invalid numeric literal " ++ String.ofList (quoted '"' digits.toList)
  | unexpectedToken kind => "Unexpected token \"" ++ kind.name ++ "\""
  | unsuitableToken kind reason => "Unexpected token \"" ++ kind.name ++ "\", " ++ reason

def advice? : Cause → Option String
  | unexpectedCharacter _ => none
  | unexpectedEndOfFile => some "String literal is never closed"
  | malformedCharacter _ => some "Character literals hold exactly one character, like 'a'"
  | numberTooLarge digits => some ("Invalid number: `" ++ digits ++ "`, is it above the integer limit?")
  | unexpectedToken .endOfFile => some "Unexpected token: `EOF`, did you miss a semicolon?"
  | unexpectedToken kind => some ("Unexpected token: `" ++ kind.name ++ "`")
  | unsuitableToken kind reason => some ("Unexpected token: `" ++ kind.name ++ "`, " ++ reason)

end Cause

end DeclScript
