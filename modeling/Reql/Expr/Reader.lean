/-
# `Reql.Expr.Reader` — from tokens to an expression

A machine that takes one token at a time.  What it has read of the
brackets that are still open is a stack of frames, one for each enclosing
bracket; the innermost bracket is the `Position`, which says what may come next.

    (reduce [1 2] (fn [x y] (+ x

Here the position is in an invocation of `+` with one argument, and the frames
are the body of a function of two parameters and an invocation of `reduce` with
one argument, innermost first.

At most `maxNesting` brackets may be open.  The brackets around the
parameters of a function do not count, as nothing nests in them.
-/
import Reql.Expr.Lexer

namespace Reql.Reader

/-- How many brackets may be open at once. -/
def maxNesting : Nat := 128

/-! ## State -/

/-- An invocation so far; arguments and options latest first. -/
structure Invocation where
  opened : Nat
  head : String
  headOffset : Nat
  args : List Expr
  options : List (String × Expr)
  deriving Repr

/-- A bracket in which an expression comes next, or has begun.  Lists are kept
latest first. -/
inductive Frame where
  | vector (opened : Nat) (items : List Expr)
  | value (opened : Nat) (entries : List (String × Expr)) (key : Placed String)
  | argument (invocation : Invocation)
  | option (invocation : Invocation) (keyword : Placed String)
  | body (opened : Nat) (params : List String)
  deriving Repr

/-- What comes next in the innermost bracket. -/
inductive Position where
  /-- An expression, or where the frame allows it something that ends the bracket. -/
  | item (frame : Frame)
  /-- The key of an entry, or the end of the object. -/
  | key (opened : Nat) (entries : List (String × Expr))
  /-- The head of an invocation. -/
  | head (opened : Nat)
  /-- The bracket around parameters. -/
  | bracket (opened : Nat)
  /-- A parameter, or the end of them. -/
  | parameter (opened vector : Nat) (params : List String)
  /-- The end of a function. -/
  | close (opened : Nat) (params : List String) (body : Expr)
  deriving Repr

/-- How far the machine has come. -/
inductive State where
  | start
  | within (position : Position) (outer : List Frame)
  | done (expr : Expr)
  deriving Repr

/-! ## Steps -/

/-- What comes next when a frame has got its expression. -/
def Frame.accept (e : Expr) : Frame → Position
  | .vector opened items => .item (.vector opened (e :: items))
  | .value opened entries key => .key opened ((key.value, e) :: entries)
  | .argument i => .item (.argument { i with args := e :: i.args })
  | .option i keyword =>
    .item (.argument
      { i with options := (Text.replaceChar '-' '_' keyword.value, e) :: i.options })
  | .body opened params => .close opened params e

/-- Puts a complete expression where it belongs. -/
def deliver (e : Expr) : List Frame → State
  | [] => .done e
  | frame :: outer => .within (frame.accept e) outer

/-- A token where an expression is expected: a constant or symbol is one, and an
opening bracket begins one. -/
def expression (frames : List Frame) (offset : Nat) (token : Token) :
    Except (Placed ReadError) State :=
  let opening (position : Position) : Except (Placed ReadError) State :=
    if frames.length = maxNesting then .error ⟨offset, .nestedTooDeeply⟩
    else .ok (.within position frames)
  match token with
  | .null => .ok (deliver .null frames)
  | .bool value => .ok (deliver (.bool value) frames)
  | .number value => .ok (deliver (.number value) frames)
  | .string value => .ok (deliver (.string value) frames)
  | .symbol name => .ok (deliver (.symbol name offset) frames)
  | .keyword name => .error ⟨offset, .strayKeyword name⟩
  | .openVector => opening (.item (.vector offset []))
  | .openMap => opening (.key offset [])
  | .openList => opening (.head offset)
  | .closeList => .error ⟨offset, .strayClose⟩
  | .closeVector => .error ⟨offset, .strayClose⟩
  | .closeMap => .error ⟨offset, .strayClose⟩

/-- A token where a frame expects an expression. -/
def Frame.step (frame : Frame) (outer : List Frame) (offset : Nat) (token : Token) :
    Except (Placed ReadError) State :=
  match frame, token with
  | .vector _ items, .closeVector => .ok (deliver (.vector items.reverse) outer)
  | .value _ _ key, .closeMap => .error ⟨key.offset, .valueMissing key.value⟩
  | .argument i, .closeList =>
    .ok (deliver (.call i.head i.headOffset i.args.reverse i.options.reverse) outer)
  | .argument i, .keyword name => .ok (.within (.item (.option i ⟨offset, name⟩)) outer)
  | .option _ keyword, .closeList => .error ⟨keyword.offset, .optionValueMissing keyword.value⟩
  | .body opened _, .closeList => .error ⟨opened, .bodyExpected⟩
  | frame, token => expression (frame :: outer) offset token

/-- A token in the innermost bracket. -/
def Position.step (outer : List Frame) (offset : Nat) (token : Token) :
    Position → Except (Placed ReadError) State
  | .item frame => frame.step outer offset token
  | .key opened entries =>
    let entry (name : String) : Except (Placed ReadError) State :=
      if name ∈ entries.map Prod.fst then .error ⟨offset, .duplicateKey name⟩
      else .ok (.within (.item (.value opened entries ⟨offset, name⟩)) outer)
    match token with
    | .closeMap => .ok (deliver (.map entries.reverse) outer)
    | .string name => entry name
    | .keyword name => entry name
    | _ => .error ⟨offset, .keyExpected⟩
  | .head opened =>
    match token with
    | .symbol name =>
      if name = "fn" then .ok (.within (.bracket opened) outer)
      else .ok (.within (.item (.argument ⟨opened, name, offset, [], []⟩)) outer)
    | .closeList => .error ⟨opened, .emptyInvocation⟩
    | _ => .error ⟨offset, .headExpected⟩
  | .bracket opened =>
    match token with
    | .openVector => .ok (.within (.parameter opened offset []) outer)
    | _ => .error ⟨offset, .parametersExpected⟩
  | .parameter opened vector params =>
    match token with
    | .closeVector => .ok (.within (.item (.body opened params.reverse)) outer)
    | .symbol name =>
      if name ∈ params then .error ⟨offset, .duplicateParameter name⟩
      else .ok (.within (.parameter opened vector (name :: params)) outer)
    | _ => .error ⟨offset, .parameterExpected⟩
  | .close _ params body =>
    match token with
    | .closeList => .ok (deliver (.fn params body) outer)
    | _ => .error ⟨offset, .severalBodies⟩

/-- Takes one token.  After a complete expression there may be none. -/
def step (token : Placed Token) : State → Except (Placed ReadError) State
  | .start => expression [] token.offset token.value
  | .within position outer => position.step outer token.offset token.value
  | .done _ => .error ⟨token.offset, .trailingInput⟩

/-! ## The end -/

/-- What is missing at the end of the text, `length` bytes in. -/
def Position.missing (length : Nat) : Position → Placed ReadError
  | .item (.vector opened _) => ⟨opened, .unclosed⟩
  | .item (.value _ _ name) => ⟨name.offset, .valueMissing name.value⟩
  | .item (.argument i) => ⟨i.opened, .unclosed⟩
  | .item (.option _ keyword) => ⟨keyword.offset, .optionValueMissing keyword.value⟩
  | .item (.body _ _) => ⟨length, .unexpectedEnd⟩
  | .key opened _ => ⟨opened, .unclosed⟩
  | .head opened => ⟨opened, .unclosed⟩
  | .bracket opened => ⟨opened, .unclosed⟩
  | .parameter _ vector _ => ⟨vector, .unclosed⟩
  | .close opened _ _ => ⟨opened, .unclosed⟩

/-- The expression, if the text ends here. -/
def finish (length : Nat) : State → Except (Placed ReadError) Expr
  | .start => .error ⟨0, .emptyExpression⟩
  | .within position _ => .error (position.missing length)
  | .done e => .ok e

/-- The expression that tokens make up, going on from a state. -/
def run (length : Nat) (state : State) : List (Placed Token) → Except (Placed ReadError) Expr
  | [] => finish length state
  | token :: rest =>
    match step token state with
    | .ok next => run length next rest
    | .error fault => .error fault

end Reql.Reader

namespace Reql

/-- Reads a text as exactly one expression. -/
def Expr.parse (text : String) : Except (Placed ReadError) Expr :=
  match tokenize text with
  | .ok tokens => Reader.run text.utf8ByteSize .start tokens
  | .error fault => .error fault

end Reql
