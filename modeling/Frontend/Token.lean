import Frontend.Span

/-!
# Tokens

A token is a kind, the text it was read from, and the span of that text.  The kinds are listed in
the order of their constructors, so the list `Kind.all` numbers them.
-/

namespace Frontend

/-- What a token is, a `TokenKind`.  The kinds stand in the order of that enumeration: the end and
what is illegal, names and literals, keywords, operators, delimiters. -/
inductive Kind where
  | eof | illegal
  | ident | int | string
  | kwLet | kwConst | kwFunction | kwReturn | kwIf | kwElse | kwTrue | kwFalse
  | assign | plus | minus | asterisk | slash | bang | lt | gt | eq | notEq
  | comma | colon | semicolon
  | lParen | rParen | lBrace | rBrace | lBracket | rBracket
  deriving DecidableEq

namespace Kind

/-- The kinds in order.  The index of a kind is its number as a `TokenKind`, by which the tables of
the parser find what reads it. -/
def all : List Kind :=
  [eof, illegal, ident, int, string,
   kwLet, kwConst, kwFunction, kwReturn, kwIf, kwElse, kwTrue, kwFalse,
   assign, plus, minus, asterisk, slash, bang, lt, gt, eq, notEq,
   comma, colon, semicolon,
   lParen, rParen, lBrace, rBrace, lBracket, rBracket]

theorem mem_all (kind : Kind) : kind ∈ all := by
  cases kind <;> decide

/-- The name by which messages, tables and JSON call a kind: its `Display` and `Serialize` form, in
capitals with underscores between words. -/
def name : Kind → String
  | eof => "EOF"
  | illegal => "ILLEGAL"
  | ident => "IDENT"
  | int => "INT"
  | string => "STRING"
  | kwLet => "LET"
  | kwConst => "CONST"
  | kwFunction => "FUNCTION"
  | kwReturn => "RETURN"
  | kwIf => "IF"
  | kwElse => "ELSE"
  | kwTrue => "TRUE"
  | kwFalse => "FALSE"
  | assign => "ASSIGN"
  | plus => "PLUS"
  | minus => "MINUS"
  | asterisk => "ASTERISK"
  | slash => "SLASH"
  | bang => "BANG"
  | lt => "LT"
  | gt => "GT"
  | eq => "EQ"
  | notEq => "NOT_EQ"
  | comma => "COMMA"
  | colon => "COLON"
  | semicolon => "SEMICOLON"
  | lParen => "L_PAREN"
  | rParen => "R_PAREN"
  | lBrace => "L_BRACE"
  | rBrace => "R_BRACE"
  | lBracket => "L_BRACKET"
  | rBracket => "R_BRACKET"

/-- The name of a kind in a dump, its `Debug` form: the name of the variant of `TokenKind`, in camel
case. -/
def dumpName : Kind → String
  | eof => "Eof"
  | illegal => "Illegal"
  | ident => "Ident"
  | int => "Int"
  | string => "String"
  | kwLet => "Let"
  | kwConst => "Const"
  | kwFunction => "Function"
  | kwReturn => "Return"
  | kwIf => "If"
  | kwElse => "Else"
  | kwTrue => "True"
  | kwFalse => "False"
  | assign => "Assign"
  | plus => "Plus"
  | minus => "Minus"
  | asterisk => "Asterisk"
  | slash => "Slash"
  | bang => "Bang"
  | lt => "Lt"
  | gt => "Gt"
  | eq => "Eq"
  | notEq => "NotEq"
  | comma => "Comma"
  | colon => "Colon"
  | semicolon => "Semicolon"
  | lParen => "LParen"
  | rParen => "RParen"
  | lBrace => "LBrace"
  | rBrace => "RBrace"
  | lBracket => "LBracket"
  | rBracket => "RBracket"

end Kind

/-- A kind with the text it was read from and the place of that text, a `Token`.  The literal of a
string keeps its quotes. -/
structure Token where
  kind : Kind
  literal : String
  span : Span
  deriving DecidableEq

/-- The token that `next_token` of `Lexer` answers with after the last one of a text which ends at
`stop`.  Its literal and its span are empty. -/
def Token.atEnd (stop : Nat) : Token := ⟨.eof, "", .empty stop⟩

end Frontend
