/-
# `Reql.Expr.Lexer` — from characters to tokens

A machine that takes one character at a time.  White space and commas
separate tokens, a semicolon starts a comment that ends with its line, and a
string may span lines and has the escapes `\"`, `\\`, `\n` and `\t`.

Between two tokens the machine is in the state `between` and remembers nothing,
so the tokens of a text are those of its parts wherever it can be cut.
-/
import Reql.Expr.Token

namespace Reql.Lexer

/-- What the machine is in the middle of.  Letters are kept latest first. -/
inductive State where
  | between
  | comment
  | word (start : Nat) (letters : List Char)
  | string (start : Nat) (letters : List Char)
  /-- After a backslash in a string. -/
  | escape (start backslash : Nat) (letters : List Char)
  deriving DecidableEq, Repr

/-- The character that a letter after a backslash stands for. -/
def unescape? (c : Char) : Option Char :=
  if c = '"' then some '"'
  else if c = '\\' then some '\\'
  else if c = 'n' then some '\n'
  else if c = 't' then some '\t'
  else none

/-- A whole word, given latest letter first. -/
def wordToken (start : Nat) (letters : List Char) : Except (Placed ReadError) (Placed Token) :=
  match Token.ofWord letters.reverse with
  | .ok token => .ok ⟨start, token⟩
  | .error cause => .error ⟨start, cause⟩

/-- What a character between tokens is or begins. -/
def begin (offset : Nat) (c : Char) : List (Placed Token) × State :=
  if Token.isSeparator c then ([], .between)
  else if c = ';' then ([], .comment)
  else if c = '"' then ([], .string offset [])
  else
    match Token.bracket? c with
    | some token => ([⟨offset, token⟩], .between)
    | none => ([], .word offset [c])

/-- Takes one character: the tokens it completes, and what comes of the state. -/
def step (offset : Nat) (c : Char) :
    State → Except (Placed ReadError) (List (Placed Token) × State)
  | .between => .ok (begin offset c)
  | .comment => .ok ([], if c = '\n' then .between else .comment)
  | .word start letters =>
    if Token.isDelimiter c then
      match wordToken start letters with
      | .ok token => .ok (token :: (begin offset c).1, (begin offset c).2)
      | .error fault => .error fault
    else .ok ([], .word start (c :: letters))
  | .string start letters =>
    if c = '"' then .ok ([⟨start, .string (String.ofList letters.reverse)⟩], .between)
    else if c = '\\' then .ok ([], .escape start offset letters)
    else .ok ([], .string start (c :: letters))
  | .escape start backslash letters =>
    match unescape? c with
    | some meant => .ok ([], .string start (meant :: letters))
    | none => .error ⟨backslash, .unknownEscape c⟩

/-- The end of the text: the token it completes. -/
def finish : State → Except (Placed ReadError) (List (Placed Token))
  | .between => .ok []
  | .comment => .ok []
  | .word start letters =>
    match wordToken start letters with
    | .ok token => .ok [token]
    | .error fault => .error fault
  | .string start _ => .error ⟨start, .unterminatedString⟩
  | .escape start _ _ => .error ⟨start, .unterminatedString⟩

/-- The tokens of the characters from an offset on. -/
def run (offset : Nat) (state : State) :
    List Char → Except (Placed ReadError) (List (Placed Token))
  | [] => finish state
  | c :: rest =>
    match step offset c state with
    | .error fault => .error fault
    | .ok (tokens, next) =>
      match run (offset + c.utf8Size) next rest with
      | .error fault => .error fault
      | .ok later => .ok (tokens ++ later)

end Reql.Lexer

namespace Reql

/-- The tokens of a text, each with the offset of its first character. -/
def tokenize (text : String) : Except (Placed ReadError) (List (Placed Token)) :=
  Lexer.run 0 .between text.toList

end Reql
