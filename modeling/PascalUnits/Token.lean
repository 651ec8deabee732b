import PascalUnits.Text.Ascii

/-!
# Tokens

A token is a special or literal class, an operator, or one of the words of the language. Every
token has exactly one spelling: operators spell as written, words in lower case, and classes by a
name in upper case. `Word.ofName?` finds the word a name stands for, in any letter case.
-/

namespace PascalUnits

/-- Operators and delimiters. -/
inductive Operator where
  | atSign | caret | plus | minus | star | slash
  | equal | less | greater | notEqual | lessEqual | greaterEqual
  | assign | colon | comma | period | ellipsis | semicolon
  | leftParen | leftBracket | rightParen | rightBracket
  deriving DecidableEq, Repr

/-- The text of an operator. -/
def Operator.spelling : Operator → String
  | .atSign => "@"
  | .caret => "^"
  | .plus => "+"
  | .minus => "-"
  | .star => "*"
  | .slash => "/"
  | .equal => "="
  | .less => "<"
  | .greater => ">"
  | .notEqual => "<>"
  | .lessEqual => "<="
  | .greaterEqual => ">="
  | .assign => ":="
  | .colon => ":"
  | .comma => ","
  | .period => "."
  | .ellipsis => ".."
  | .semicolon => ";"
  | .leftParen => "("
  | .leftBracket => "["
  | .rightParen => ")"
  | .rightBracket => "]"

/-- Binding strength as a binary operator; zero for a delimiter. -/
def Operator.precedence : Operator → Nat
  | .equal | .notEqual | .less | .greater | .lessEqual | .greaterEqual => 1
  | .plus | .minus => 2
  | .star | .slash => 3
  | _ => 0

namespace Word

/-- Words that can never name anything else. -/
def reserved : List String :=
  ["and", "array", "as", "asm", "begin", "case", "class", "const", "constructor", "destructor",
   "dispinterface", "div", "do", "downto", "else", "end", "except", "exports", "file",
   "finalization", "finally", "for", "function", "goto", "if", "implementation", "in", "inherited",
   "initialization", "inline", "interface", "is", "label", "library", "mod", "nil", "not", "object",
   "of", "or", "packed", "procedure", "program", "property", "raise", "record", "repeat",
   "resourcestring", "set", "shl", "shr", "then", "threadvar", "to", "try", "type", "unit", "until",
   "uses", "var", "while", "with", "xor"]

/-- Words with a meaning after a declaration. -/
def directives : List String :=
  ["absolute", "abstract", "assembler", "automated", "cdecl", "default", "deprecated", "dispid",
   "dynamic", "experimental", "export", "external", "final", "forward", "implements", "index",
   "message", "name", "nodefault", "out", "overload", "package", "pascal", "platform", "private",
   "protected", "public", "published", "read", "readonly", "register", "reintroduce", "safecall",
   "static", "stdcall", "stored", "strict", "unsafe", "varargs", "virtual", "write", "writeonly"]

/-- Words with a meaning in a few places only. -/
def contextual : List String :=
  ["contains", "delayed", "far", "helper", "local", "near", "operator", "override", "reference",
   "requires", "resident", "sealed", "winapi"]

/-- Every word that is not an identifier. -/
def spellings : List String :=
  reserved ++ directives ++ contextual

end Word

/-- A word of the language, given by its lower-case spelling. -/
structure Word where
  spelling : String
  mem_spellings : spelling ∈ Word.spellings
  deriving DecidableEq, Repr

namespace Word

/-- The word that `name` spells, in any letter case. -/
def ofName? (name : String) : Option Word :=
  if h : Text.lower name ∈ spellings then some ⟨Text.lower name, h⟩ else none

/-- The word that begins the implementation part of a unit. -/
def implementation : Word :=
  ⟨"implementation", by decide⟩

/-- Binding strength as a binary operator; zero for every other word. -/
def precedence (word : Word) : Nat :=
  if word.spelling ∈ ["in", "is"] then 1
  else if word.spelling ∈ ["or", "xor"] then 2
  else if word.spelling ∈ ["div", "mod", "and", "shl", "shr", "as"] then 3
  else 0

end Word

/-- What a stretch of source text is. -/
inductive Token where
  | illegal
  | eof
  | comment
  | directive
  | identifier
  | integer
  | float
  | char
  | string
  | operator (op : Operator)
  | word (w : Word)
  deriving DecidableEq, Repr

namespace Token

/-- The one spelling of a token. -/
def spelling : Token → String
  | .illegal => "ILLEGAL"
  | .eof => "EOF"
  | .comment => "COMMENT"
  | .directive => "CDIRECTIVE"
  | .identifier => "IDENT"
  | .integer => "INTEGER"
  | .float => "FLOAT"
  | .char => "CHAR"
  | .string => "STRING"
  | .operator op => op.spelling
  | .word w => w.spelling

/-- Identifiers and the classes of literals. -/
def isLiteral : Token → Bool
  | .identifier | .integer | .float | .char | .string => true
  | _ => false

/-- The words of the language. -/
def isKeyword : Token → Bool
  | .word _ => true
  | _ => false

/-- Binding strength as a binary operator; zero for everything else. -/
def precedence : Token → Nat
  | .operator op => op.precedence
  | .word w => w.precedence
  | _ => 0

/-- Operators and delimiters, and the words that are binary operators. -/
def isOperator : Token → Bool
  | .operator _ => true
  | token => 0 < token.precedence

/-- Comments and compiler directives have no syntax of their own. -/
def isTrivia : Token → Bool
  | .comment | .directive => true
  | _ => false

/-- The token that the word `name` is: a word of the language, or an identifier. -/
def ofName (name : String) : Token :=
  match Word.ofName? name with
  | some w => .word w
  | none => .identifier

end Token

end PascalUnits
