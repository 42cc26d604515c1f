/-
# `Reql.Term.Render` — a term for a reader

On one line, `text`:

    BETWEEN(TABLE("users"), 1, index="code")

and as an indented tree, `tree`, with an argument a line and the options in a
block of their own:

    BETWEEN(
      TABLE(
        DATUM("users")
      ),
      DATUM(1)
     {
      index: DATUM("code")
    })
-/
import Reql.Term.Basic

namespace Reql.Term

/-! ## One line -/

mutual

/-- The term on one line. -/
def text : Term → String
  | .literal value => value.text
  | .apply op args options =>
    op.name ++ "(" ++ Text.joined ", " (argTexts args ++ optionTexts options) ++ ")"

def argTexts : List Term → List String
  | [] => []
  | t :: rest => t.text :: argTexts rest

def optionTexts : List (String × Term) → List String
  | [] => []
  | (name, t) :: rest => (name ++ "=" ++ t.text) :: optionTexts rest

end

/-! ## Tree -/

/-- The indentation of a level. -/
def indentation (level : Nat) : String := Text.repeated "  " level

mutual

/-- The tree of a term at a level, without the indentation of its first line. -/
def branch (level : Nat) : Term → String
  | .literal value => Operation.datum.name ++ "(" ++ value.text ++ ")"
  | .apply op args options =>
    op.name ++ "("
      ++ (if args.isEmpty then "" else
        "\n" ++ Text.joined ",\n" (branchArgs (level + 1) args) ++ "\n" ++ indentation level)
      ++ (if options.isEmpty then "" else
        " \x7b" ++ branchOptions level options ++ "\n" ++ indentation level ++ "\x7d")
      ++ ")"

def branchArgs (level : Nat) : List Term → List String
  | [] => []
  | t :: rest => (indentation level ++ t.branch level) :: branchArgs level rest

/-- An option has a line that starts one level in; its own arguments are two
levels further in than the option's owner. -/
def branchOptions (level : Nat) : List (String × Term) → String
  | [] => ""
  | (name, t) :: rest =>
    "\n" ++ indentation level ++ "  " ++ name ++ ": " ++ t.branch (level + 2)
      ++ branchOptions level rest

end

/-- The term as a tree whose first line is at a level. -/
def tree (level : Nat) (t : Term) : String := indentation level ++ t.branch level

end Reql.Term
