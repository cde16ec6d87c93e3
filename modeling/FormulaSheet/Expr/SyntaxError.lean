/-!
# Syntax errors

What can be wrong with the text of an expression, and where.
-/

namespace FormulaSheet

/-- What is wrong with the text of an expression. -/
inductive SyntaxFault where
  | assignment
  | unexpectedCharacter (c : Char)
  | unterminatedText
  | invalidHexEscape
  | invalidUnicodeEscape
  | invalidNumber
  | nameAfterNumber
  | unexpectedEnd
  | unexpectedKeyword (word : String)
  | unexpectedToken (text : String)
  | unaryBeforePower
  | tooDeep (limit : Nat)
deriving DecidableEq, Repr

def SyntaxFault.message : SyntaxFault → String
  | assignment => "Assignment is not supported"
  | unexpectedCharacter c => "Unexpected character '" ++ c.toString ++ "'"
  | unterminatedText => "Unterminated string constant"
  | invalidHexEscape => "Invalid hexadecimal escape sequence"
  | invalidUnicodeEscape => "Invalid Unicode escape sequence"
  | invalidNumber => "Invalid number"
  | nameAfterNumber => "Identifier directly after number"
  | unexpectedEnd => "Unexpected end of input"
  | unexpectedKeyword word => "Unexpected keyword '" ++ word ++ "'"
  | unexpectedToken text => "Unexpected token '" ++ text ++ "'"
  | unaryBeforePower => "Unary operator used immediately before exponentiation expression"
  | tooDeep limit => "Expression nested too deeply (limit " ++ toString limit ++ ")"

/-- A fault and the byte offset at which it is reported. -/
structure SyntaxError where
  fault : SyntaxFault
  position : Nat
deriving DecidableEq, Repr

/-- The wording of a syntax error with its position. -/
def SyntaxError.message (e : SyntaxError) : String :=
  "Syntax error: " ++ e.fault.message ++ " (at position " ++ toString e.position ++ ")"

end FormulaSheet
