/-
# `Reql.Toml.Quoted` — writing a string in TOML

TOML has four ways to write a string: between quotes, where a backslash
escapes, or between apostrophes, where nothing does; and either with one mark
on each side or with three, so that it may go on over several lines.

    "debug"    'a\b'    """she said "it's"."""    '''it's a\b'''

The first way that needs no escape is taken, in this order; where every way
would need one, the string is escaped between quotes.
-/

namespace Reql.Toml

/-- The apostrophe. -/
def apostrophe : Char := Char.ofNat 39

/-- How a string is written. -/
structure Style where
  /-- Whether it stands between quotes, where a backslash escapes. -/
  escapes : Bool
  /-- Whether its marks are tripled. -/
  block : Bool
  deriving DecidableEq, Repr

/-- The longest run of a character, `run` of them standing before the letters. -/
def longestRun (mark : Char) (run : Nat) : List Char → Nat
  | [] => run
  | c :: rest =>
    if c = mark then longestRun mark (run + 1) rest else max run (longestRun mark 0 rest)

/-- A control character that has no form but an escape. -/
def isControl (c : Char) : Bool :=
  (c.toNat ≤ 0x1F && c != '\t' && c != '\n') || c.toNat == 0x7F

namespace Style

/-- The mark at either end. -/
def mark (style : Style) : Char := if style.escapes then '"' else apostrophe

/-- The mark as often as it stands at either end. -/
def fence (style : Style) : List Char := List.replicate (if style.block then 3 else 1) style.mark

/-- How many marks in a row the string itself may have. -/
def room (style : Style) : Nat := if style.block then 2 else 0

/-- Whether a string can be written so without an escape. -/
def suits (letters : List Char) (style : Style) : Bool :=
  !letters.any isControl
    && !(style.escapes && letters.contains '\\')
    && longestRun style.mark 0 letters ≤ style.room
    && (style.block || !letters.contains '\n')

/-- The ways to write a string, the preferred one first. -/
def all : List Style := [⟨true, false⟩, ⟨false, false⟩, ⟨true, true⟩, ⟨false, true⟩]

/-- The way that a string is written. -/
def of (letters : List Char) : Style :=
  (all.find? (suits letters)).getD ⟨true, letters.contains '\n'⟩

end Style

/-- A code point in four upper-case hexadecimal digits. -/
def upperHex4 (code : Nat) : List Char :=
  let digits := (Nat.toDigits 16 code).map Char.toUpper
  List.replicate (4 - digits.length) '0' ++ digits

/-- How one character other than a quote is written between quotes; a line break
stays as it is in a block. -/
def escapedChar (block : Bool) (c : Char) : List Char :=
  if c = '\x08' then ['\\', 'b']
  else if c = '\t' then ['\\', 't']
  else if c = '\n' then if block then ['\n'] else ['\\', 'n']
  else if c = '\x0c' then ['\\', 'f']
  else if c = '\r' then ['\\', 'r']
  else if c = '\\' then ['\\', '\\']
  else if isControl c then '\\' :: 'u' :: upperHex4 c.toNat
  else [c]

/-- The letters of a string between quotes.  In a block two quotes may stand in a
row and a third is escaped; elsewhere every quote is.  `run` quotes stand right
before the letters. -/
def escapedLetters (block : Bool) (run : Nat) : List Char → List Char
  | [] => []
  | c :: rest =>
    if c = '"' then
      if run < (Style.mk true block).room then '"' :: escapedLetters block (run + 1) rest
      else '\\' :: '"' :: escapedLetters block 0 rest
    else escapedChar block c ++ escapedLetters block 0 rest

/-- The string as it stands in a document.  A string over several lines begins on
a line of its own. -/
def quoted (text : String) : String :=
  let letters := text.toList
  let style := Style.of letters
  let lead := if letters.contains '\n' then ['\n'] else []
  let body := if style.escapes then escapedLetters style.block 0 letters else letters
  String.ofList (style.fence ++ lead ++ body ++ style.fence)

end Reql.Toml
