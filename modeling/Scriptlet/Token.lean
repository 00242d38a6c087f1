/-!
# Tokens

The kinds of token of the language, the two texts by which a kind is known, and the words that are
keywords. `TokenKind.symbol` is the text that diagnostics show; `TokenKind.name` is the name of the
kind in listings of tokens.
-/

namespace Scriptlet

/-- The kinds of token. A kind that ends in `Word` is a keyword. -/
inductive TokenKind where
  | illegal
  | eof
  | ident
  | int
  | string
  | assign
  | plus
  | minus
  | bang
  | asterisk
  | slash
  | lt
  | gt
  | eq
  | notEq
  | comma
  | semicolon
  | lparen
  | rparen
  | lbrace
  | rbrace
  | lbracket
  | rbracket
  | fnWord
  | letWord
  | ifWord
  | elseWord
  | returnWord
  | trueWord
  | falseWord
deriving DecidableEq

namespace TokenKind

/-- All kinds, in the order in which they are declared. -/
def all : List TokenKind :=
  [.illegal, .eof, .ident, .int, .string, .assign, .plus, .minus, .bang, .asterisk, .slash, .lt, .gt,
    .eq, .notEq, .comma, .semicolon, .lparen, .rparen, .lbrace, .rbrace, .lbracket, .rbracket,
    .fnWord, .letWord, .ifWord, .elseWord, .returnWord, .trueWord, .falseWord]

/-- The text that stands for the kind in diagnostics. -/
def symbol : TokenKind → String
  | .illegal => "ILLEGAL"
  | .eof => "EOF"
  | .ident => "IDENT"
  | .int => "INT"
  | .string => "STRING"
  | .assign => "="
  | .plus => "+"
  | .minus => "-"
  | .bang => "!"
  | .asterisk => "*"
  | .slash => "/"
  | .lt => "<"
  | .gt => ">"
  | .eq => "=="
  | .notEq => "!="
  | .comma => ","
  | .semicolon => ";"
  | .lparen => "("
  | .rparen => ")"
  | .lbrace => "\x7b"
  | .rbrace => "\x7d"
  | .lbracket => "["
  | .rbracket => "]"
  | .fnWord => "FUNCTION"
  | .letWord => "LET"
  | .ifWord => "IF"
  | .elseWord => "ELSE"
  | .returnWord => "RETURN"
  | .trueWord => "TRUE"
  | .falseWord => "FALSE"

/-- The name of the kind in listings of tokens. -/
def name : TokenKind → String
  | .assign => "ASSIGN"
  | .plus => "PLUS"
  | .minus => "MINUS"
  | .bang => "BANG"
  | .asterisk => "ASTERISK"
  | .slash => "SLASH"
  | .lt => "LT"
  | .gt => "GT"
  | .eq => "EQ"
  | .notEq => "NOT_EQ"
  | .comma => "COMMA"
  | .semicolon => "SEMICOLON"
  | .lparen => "LPAREN"
  | .rparen => "RPAREN"
  | .lbrace => "LBRACE"
  | .rbrace => "RBRACE"
  | .lbracket => "LBRACKET"
  | .rbracket => "RBRACKET"
  | kind => kind.symbol

/-- The kind that `symbol` shows as the given text. -/
def ofSymbol? (text : String) : Option TokenKind :=
  all.find? fun kind => kind.symbol == text

/-- The kind of a word: a keyword by its exact spelling, an identifier otherwise. -/
def ofWord (word : String) : TokenKind :=
  match word with
  | "fn" => .fnWord
  | "let" => .letWord
  | "if" => .ifWord
  | "else" => .elseWord
  | "return" => .returnWord
  | "true" => .trueWord
  | "false" => .falseWord
  | _ => .ident

theorem mem_all (kind : TokenKind) : kind ∈ all := by cases kind <;> decide

theorem symbol_injective {a b : TokenKind} (h : a.symbol = b.symbol) : a = b := by
  have key : ∀ a ∈ all, ∀ b ∈ all, a.symbol = b.symbol → a = b := by decide
  exact key a (mem_all a) b (mem_all b) h

end TokenKind

/-- A token: its kind, and the characters that it stands for. The literal of a string token is what
stands between the quotes. -/
structure Token where
  kind : TokenKind
  literal : String
deriving DecidableEq

namespace Token

/-- The token at the end of the input, and at every position after it. -/
def endOfInput : Token := ⟨.eof, ""⟩

/-- The token of a node that was not read from a source. -/
def blank : Token := ⟨.illegal, ""⟩

end Token

end Scriptlet
