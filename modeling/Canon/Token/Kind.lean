import Canon.Token.Keyword

/-!
The kinds of tokens. They are numbered from zero: classes of tokens first, then punctuators, then keywords.
-/
namespace Canon

/-- Tokens that are told apart by more than their spelling, and the marks that are no tokens. -/
inductive TokenClass where
  | unknown | eof | eom | comment | identifier | numericConstant | charConstant | wideCharConstant
  | stringLiteral | wideStringLiteral | angleStringLiteral
  deriving DecidableEq, Repr

inductive Punctuator where
  | leftBracket | rightBracket | leftParen | rightParen | leftBrace | rightBrace | dot | ellipsis | amp
  | ampAmp | ampEq | star | starEq | plus | plusPlus | plusEq | minus | arrow | minusMinus | minusEq
  | tilde | bang | bangEq | slash | slashEq | percent | percentEq | lt | ltLt | ltEq | ltLtEq | gt | gtGt
  | gtEq | gtGtEq | caret | caretEq | pipe | pipePipe | pipeEq | question | colon | semi | eq | eqEq
  | comma | hash | hashHash | hashAt
  deriving DecidableEq, Repr

namespace TokenClass

def entry : TokenClass → String × String
  | .unknown => ("Unknown", "unknown")
  | .eof => ("Eof", "end of file")
  | .eom => ("Eom", "end of macro")
  | .comment => ("Comment", "a comment")
  | .identifier => ("Identifier", "an identifier")
  | .numericConstant => ("NumericConstant", "a number")
  | .charConstant => ("CharConstant", "a character constant")
  | .wideCharConstant => ("WideCharConstant", "a wide character constant")
  | .stringLiteral => ("StringLiteral", "a string literal")
  | .wideStringLiteral => ("WideStringLiteral", "a wide string literal")
  | .angleStringLiteral => ("AngleStringLiteral", "a header name")

def all : Array TokenClass :=
  #[.unknown, .eof, .eom, .comment, .identifier, .numericConstant, .charConstant, .wideCharConstant,
    .stringLiteral, .wideStringLiteral, .angleStringLiteral]

def position (token : TokenClass) : Nat := token.ctorIdx

theorem all_position (token : TokenClass) : all[token.position]? = some token := by
  cases token <;> rfl

end TokenClass

namespace Punctuator

def entry : Punctuator → String × String
  | .leftBracket => ("LBrack", "[")
  | .rightBracket => ("RBrack", "]")
  | .leftParen => ("LParen", "(")
  | .rightParen => ("RParen", ")")
  | .leftBrace => ("LBrace", "\x7b")
  | .rightBrace => ("RBrace", "\x7d")
  | .dot => ("Dot", ".")
  | .ellipsis => ("Ellipsis", "...")
  | .amp => ("Amp", "&")
  | .ampAmp => ("AmpAmp", "&&")
  | .ampEq => ("AmpEq", "&=")
  | .star => ("Star", "*")
  | .starEq => ("StarEq", "*=")
  | .plus => ("Plus", "+")
  | .plusPlus => ("PlusPlus", "++")
  | .plusEq => ("PlusEq", "+=")
  | .minus => ("Minus", "-")
  | .arrow => ("Arrow", "->")
  | .minusMinus => ("MinusMinus", "--")
  | .minusEq => ("MinusEq", "-=")
  | .tilde => ("Tilde", "~")
  | .bang => ("Bang", "!")
  | .bangEq => ("BangEq", "!=")
  | .slash => ("Slash", "/")
  | .slashEq => ("SlashEq", "/=")
  | .percent => ("Percent", "%")
  | .percentEq => ("PercentEq", "%=")
  | .lt => ("Lt", "<")
  | .ltLt => ("LtLt", "<<")
  | .ltEq => ("LtEq", "<=")
  | .ltLtEq => ("LtLtEq", "<<=")
  | .gt => ("Gt", ">")
  | .gtGt => ("GtGt", ">>")
  | .gtEq => ("GtEq", ">=")
  | .gtGtEq => ("GtGtEq", ">>=")
  | .caret => ("Caret", "^")
  | .caretEq => ("CaretEq", "^=")
  | .pipe => ("Pipe", "|")
  | .pipePipe => ("PipePipe", "||")
  | .pipeEq => ("PipeEq", "|=")
  | .question => ("Question", "?")
  | .colon => ("Colon", ":")
  | .semi => ("Semi", ";")
  | .eq => ("Eq", "=")
  | .eqEq => ("EqEq", "==")
  | .comma => ("Comma", ",")
  | .hash => ("Hash", "#")
  | .hashHash => ("HashHash", "##")
  | .hashAt => ("HashAt", "#@")

def all : Array Punctuator :=
  #[.leftBracket, .rightBracket, .leftParen, .rightParen, .leftBrace, .rightBrace, .dot, .ellipsis, .amp,
    .ampAmp, .ampEq, .star, .starEq, .plus, .plusPlus, .plusEq, .minus, .arrow, .minusMinus, .minusEq,
    .tilde, .bang, .bangEq, .slash, .slashEq, .percent, .percentEq, .lt, .ltLt, .ltEq, .ltLtEq, .gt, .gtGt,
    .gtEq, .gtGtEq, .caret, .caretEq, .pipe, .pipePipe, .pipeEq, .question, .colon, .semi, .eq, .eqEq,
    .comma, .hash, .hashHash, .hashAt]

def position (mark : Punctuator) : Nat := mark.ctorIdx

theorem all_position (mark : Punctuator) : all[mark.position]? = some mark := by
  cases mark <;> rfl

end Punctuator

inductive Token where
  | plain (token : TokenClass)
  | punctuator (mark : Punctuator)
  | keyword (word : Keyword)
  deriving DecidableEq, Repr

namespace Token

/-- What a word is until a keyword is registered for it. -/
def identifier : Token := .plain .identifier

def name : Token → String
  | .plain token => token.entry.1
  | .punctuator mark => mark.entry.1
  | .keyword word => word.name

def text : Token → String
  | .plain token => token.entry.2
  | .punctuator mark => mark.entry.2
  | .keyword word => word.spelling

/-- Spellings are quoted and descriptions are not. -/
def render : Token → String
  | .plain token => token.entry.2
  | .punctuator mark => "`" ++ mark.entry.2 ++ "`"
  | .keyword word => "`" ++ word.spelling ++ "`"

def isKeyword : Token → Bool
  | .keyword _ => true
  | _ => false

def number : Token → Nat
  | .plain token => token.position
  | .punctuator mark => TokenClass.all.size + mark.position
  | .keyword word => TokenClass.all.size + Punctuator.all.size + word.position

def ofNumber? (number : Nat) : Option Token :=
  if number < TokenClass.all.size then TokenClass.all[number]?.map .plain
  else if number < TokenClass.all.size + Punctuator.all.size then
    Punctuator.all[number - TokenClass.all.size]?.map .punctuator
  else Keyword.all[number - TokenClass.all.size - Punctuator.all.size]?.map .keyword

def compare (left right : Token) : Ordering := Ord.compare left.number right.number

theorem ofNumber?_number (token : Token) : ofNumber? token.number = some token := by
  cases token with
  | plain token => cases token <;> rfl
  | punctuator mark => cases mark <;> rfl
  | keyword word => cases word <;> rfl

theorem number_lt (token : Token) : token.number < 256 := by
  cases token with
  | plain token => cases token <;> decide
  | punctuator mark => cases mark <;> decide
  | keyword word => cases word <;> decide

end Token
end Canon
