import ConstFun.Text.Quoted

namespace ConstFun

inductive TokenKind where
  | eof
  | ident
  | number
  | functionWord
  | exportWord
  | asWord
  | lparen
  | rparen
  | colon
  deriving DecidableEq, Repr

namespace TokenKind

def all : List TokenKind :=
  [eof, ident, number, functionWord, exportWord, asWord, lparen, rparen, colon]

def label : TokenKind → String
  | eof => "EOF"
  | ident => "IDENT"
  | number => "NUMBER"
  | functionWord => "FUNCTION"
  | exportWord => "EXPORT"
  | asWord => "AS"
  | lparen => "LPAREN"
  | rparen => "RPAREN"
  | colon => "COLON"

def ofLabel? (name : String) : Option TokenKind := all.find? fun k => k.label == name

/-- The kind of a word: one of the three keywords, or an identifier. -/
def ofWord (word : String) : TokenKind :=
  if word = "function" then .functionWord
  else if word = "export" then .exportWord
  else if word = "as" then .asWord
  else .ident

end TokenKind

/-- A token starts at a line and column, both from one. `isDecimal` tells a number written with
a point. -/
structure Token where
  kind : TokenKind
  text : String
  line : Int
  column : Int
  isDecimal : Bool := false
  deriving DecidableEq, Repr

/-- A token as messages show it. -/
def Token.shown (t : Token) : String :=
  if t.kind = .eof then "end-of-file" else quoted t.text

end ConstFun
