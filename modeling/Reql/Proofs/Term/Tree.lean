/-
# `Reql.Proofs.Term.Tree` — indentation of the tree

A tree that starts further in is the tree at the margin, further in line by line, and it has as
many lines (`lines_tree`).  A tree is put together from pieces: texts on one line, which are the
same at every level, and newlines with the indentation of their level behind them.  Each piece is
written for all levels at once, moves in with its level and has a number of newlines (`Piece`),
and so has what is put together from them.  An option's value does not begin a line of its own:
what stands behind the name is its tree without the blanks in front (`dropWhile_isBlank_tree`).
-/
import Reql.Proofs.Datum
import Reql.Proofs.Operation
import Reql.Proofs.Term.Nodes
import Reql.Proofs.Text.Lines
import Reql.Term.Render
import Reql.Text.Blank

namespace Reql.Term

open Text

/-! ## Levels -/

theorem indentation_eq (level : Nat) : indentation level = spaces (2 * level) := by
  apply String.toList_inj.mp
  rw [toList_spaces, indentation]
  induction level with
  | zero => rfl
  | succ level ih =>
      rw [repeated, String.toList_append, ih, Nat.mul_succ, Nat.add_comm,
        ← List.replicate_append_replicate]
      rfl

theorem toList_indentation_add (level k : Nat) : (indentation (level + k)).toList =
    (spaces (2 * k)).toList ++ (indentation level).toList := by
  rw [indentation_eq, indentation_eq, toList_spaces, toList_spaces, toList_spaces,
    List.replicate_append_replicate, ← Nat.mul_add, Nat.add_comm]

theorem newline_not_mem_indentation (level : Nat) : '\n' ∉ (indentation level).toList := by
  rw [indentation_eq]
  exact newline_not_mem_spaces (2 * level)

/-! ## Pieces of a tree -/

/-- A text for every level, with a number of newlines.  Further in, it is the same text with
more spaces behind its newlines. -/
structure Piece (newlines : Nat) (text : Nat → List Char) : Prop where
  shift : ∀ level k, text (level + k) = padded (spaces (2 * k)).toList (text level)
  count : ∀ level, (text level).count '\n' = newlines

namespace Piece

variable {α : Type} {m n : Nat} {text text' : Nat → List Char}

theorem congr (h : Piece n text) (hn : m = n) (htext : ∀ level, text' level = text level) :
    Piece m text' := by
  obtain rfl := hn
  obtain rfl := funext htext
  exact h

theorem line {cs : List Char} (h : '\n' ∉ cs) : Piece 0 fun _ => cs where
  shift _ _ := (padded_of_not_mem h).symm
  count _ := List.count_eq_zero_of_not_mem h

theorem newline (j : Nat) : Piece 1 fun level => '\n' :: (indentation (level + j)).toList where
  shift level k := by
    rw [padded_newline, padded_of_not_mem (newline_not_mem_indentation _), Nat.add_right_comm,
      toList_indentation_add]
  count level := by
    rw [List.count_cons_self, List.count_eq_zero_of_not_mem (newline_not_mem_indentation _)]

theorem deeper (h : Piece n text) (j : Nat) : Piece n fun level => text (level + j) where
  shift level k := by rw [Nat.add_right_comm, h.shift]
  count level := h.count (level + j)

theorem append (h : Piece m text) (h' : Piece n text') :
    Piece (m + n) fun level => text level ++ text' level where
  shift level k := by rw [padded_append, h.shift, h'.shift]
  count level := by rw [List.count_append, h.count, h'.count]

theorem flatMap {xs : List α} {size : α → Nat} {text : α → Nat → List Char}
    (h : ∀ x ∈ xs, Piece (size x) (text x)) :
    Piece (xs.map size).sum fun level => xs.flatMap fun x => text x level := by
  induction xs with
  | nil => exact line List.not_mem_nil
  | cons x xs ih =>
      obtain ⟨hx, hxs⟩ := List.forall_mem_cons.mp h
      exact (hx.append (ih hxs)).congr List.sum_cons fun _ => List.flatMap_cons

end Piece

/-! ## How many lines -/

/-- The lines of nodes: one to begin each, one to close its arguments and one to close its
options. -/
def linesOf (us : List Term) : Nat :=
  us.length + us.countP (fun u => !u.args.isEmpty) + us.countP (fun u => !u.options.isEmpty)

theorem linesOf_append (us vs : List Term) : linesOf (us ++ vs) = linesOf us + linesOf vs := by
  simp only [linesOf, List.length_append, List.countP_append]
  omega

/-- The lines of a term. -/
def height (t : Term) : Nat := linesOf t.nodes

/-- The lines below the first one that arguments take. -/
def argLines (args : List Term) : Nat :=
  (args.map height).sum + if args.isEmpty then 0 else 1

/-- The lines below the first one that options take. -/
def optionLines (options : List (String × Term)) : Nat :=
  (options.map fun u => u.2.height).sum + if options.isEmpty then 0 else 1

theorem linesOf_argNodes (args : List Term) : linesOf (argNodes args) = (args.map height).sum := by
  induction args with
  | nil => rfl
  | cons t args ih => rw [argNodes, linesOf_append, ih, List.map_cons, List.sum_cons, height]

theorem linesOf_optionNodes (options : List (String × Term)) :
    linesOf (optionNodes options) = (options.map fun u => u.2.height).sum := by
  induction options with
  | nil => rfl
  | cons u options ih =>
      rw [optionNodes, linesOf_append, ih, List.map_cons, List.sum_cons, height]

theorem height_apply (op : Operation) (args : List Term) (options : List (String × Term)) :
    (apply op args options).height = argLines args + optionLines options + 1 := by
  have hroot : linesOf [apply op args options] =
      1 + (if args.isEmpty then 0 else 1) + (if options.isEmpty then 0 else 1) := by
    cases args <;> cases options <;> rfl
  rw [height, nodes, ← List.singleton_append, linesOf_append, linesOf_append, hroot,
    linesOf_argNodes, linesOf_optionNodes, argLines, optionLines]
  omega

theorem height_pos (t : Term) : 0 < t.height := by
  cases t with
  | literal value => exact Nat.one_pos
  | apply op args options =>
      rw [height_apply]
      exact Nat.succ_pos _

/-! ## The pieces of a node -/

/-- An argument on a line of its own. -/
def argText (t : Term) (level : Nat) : List Char := '\n' :: (t.tree (level + 1)).toList

/-- An option on a line of its own. -/
def optionText (u : String × Term) (level : Nat) : List Char :=
  '\n' :: ((indentation level).toList ++ (' ' :: ' ' :: (u.1.toList ++ [':', ' ']))
    ++ (u.2.branch (level + 2)).toList)

def argBlock (level : Nat) : List Term → List Char
  | [] => []
  | t :: rest =>
    argText t level ++ rest.flatMap (fun t => ',' :: argText t level)
      ++ '\n' :: (indentation level).toList

def optionBlock (level : Nat) : List (String × Term) → List Char
  | [] => []
  | u :: rest =>
    ' ' :: '\x7b' :: (u :: rest).flatMap (fun u => optionText u level)
      ++ '\n' :: (indentation level).toList ++ ['\x7d']

theorem branchArgs_eq_map (level : Nat) (args : List Term) :
    branchArgs level args = args.map (tree level) := by
  induction args with
  | nil => rfl
  | cons t args ih => rw [branchArgs, ih, List.map_cons, tree]

theorem toList_branchOptions (level : Nat) (options : List (String × Term)) :
    (branchOptions level options).toList = options.flatMap fun u => optionText u level := by
  induction options with
  | nil => rfl
  | cons u options ih =>
      rw [branchOptions, String.toList_append, ih, List.flatMap_cons]
      congr 1
      simp [optionText]

theorem toList_branch_apply (op : Operation) (args : List Term) (options : List (String × Term))
    (level : Nat) : ((apply op args options).branch level).toList =
      op.name.toList ++ ['('] ++ argBlock level args ++ optionBlock level options ++ [')'] := by
  have hargs : (if args.isEmpty then "" else "\n" ++ joined ",\n" (branchArgs (level + 1) args)
      ++ "\n" ++ indentation level).toList = argBlock level args := by
    cases args with
    | nil => rfl
    | cons t rest =>
        rw [branchArgs_eq_map, List.map_cons]
        simp [toList_joined_cons, argBlock, argText, List.flatMap_map]
  have hoptions : (if options.isEmpty then "" else " \x7b" ++ branchOptions level options ++ "\n"
      ++ indentation level ++ "\x7d").toList = optionBlock level options := by
    cases options with
    | nil => rfl
    | cons u rest => simp [toList_branchOptions, optionBlock]
  rw [branch, String.toList_append, String.toList_append, String.toList_append, hargs, hoptions,
    String.toList_append]
  rfl

/-! ## Trees are pieces -/

theorem piece_entry {cs : List Char} {t : Term} (hcs : '\n' ∉ cs)
    (ht : Piece (t.height - 1) fun level => (t.branch level).toList) (i j : Nat) :
    Piece t.height fun level =>
      '\n' :: ((indentation (level + i)).toList ++ cs ++ (t.branch (level + j)).toList) := by
  have hpos := t.height_pos
  exact (((Piece.newline i).append (.line hcs)).append (ht.deeper j)).congr (by omega) fun _ => rfl

theorem piece_argText {t : Term} (ht : Piece (t.height - 1) fun level => (t.branch level).toList) :
    Piece t.height (argText t) := by
  refine (piece_entry List.not_mem_nil ht 1 1).congr rfl fun level => ?_
  rw [argText, tree, String.toList_append, List.append_nil]

theorem piece_optionText {u : String × Term} (hname : '\n' ∉ u.1.toList)
    (hu : Piece (u.2.height - 1) fun level => (u.2.branch level).toList) :
    Piece u.2.height (optionText u) := by
  have hcs : '\n' ∉ ' ' :: ' ' :: (u.1.toList ++ [':', ' ']) := by simp [hname]
  exact piece_entry hcs hu 0 2

theorem piece_argBlock {args : List Term}
    (hargs : ∀ t ∈ args, Piece (t.height - 1) fun level => (t.branch level).toList) :
    Piece (argLines args) fun level => argBlock level args := by
  cases args with
  | nil => exact .line List.not_mem_nil
  | cons t rest =>
      obtain ⟨ht, hrest⟩ := List.forall_mem_cons.mp hargs
      have hlater : ∀ t ∈ rest, Piece t.height fun level => ',' :: argText t level := by
        intro t ht
        have hcomma : '\n' ∉ [','] := by decide
        exact ((Piece.line hcomma).append (piece_argText (hrest t ht))).congr (Nat.zero_add _).symm
          fun _ => rfl
      have hentries := (piece_argText ht).append (.flatMap hlater)
      exact (hentries.append (.newline 0)).congr rfl fun _ => rfl

theorem piece_optionBlock {options : List (String × Term)}
    (hnames : ∀ u ∈ options, '\n' ∉ u.1.toList)
    (hoptions : ∀ u ∈ options, Piece (u.2.height - 1) fun level => (u.2.branch level).toList) :
    Piece (optionLines options) fun level => optionBlock level options := by
  cases options with
  | nil => exact .line List.not_mem_nil
  | cons u rest =>
      have hopen : '\n' ∉ [' ', '\x7b'] := by decide
      have hclose : '\n' ∉ ['\x7d'] := by decide
      have hentries : Piece (((u :: rest).map fun u => u.2.height).sum) fun level =>
          (u :: rest).flatMap fun u => optionText u level :=
        .flatMap fun u hu => piece_optionText (hnames u hu) (hoptions u hu)
      exact ((((Piece.line hopen).append hentries).append (.newline 0)).append (.line hclose)).congr
        (by rw [Nat.zero_add]; rfl) fun _ => rfl

theorem newline_not_mem_name (op : Operation) : '\n' ∉ op.name.toList :=
  fun h => absurd (op.isNameChar_of_mem '\n' h) (by decide)

/-- The names of a node's options are on one line. -/
def SingleLine (t : Term) : Prop := ∀ name ∈ t.options.names, '\n' ∉ name.toList

/-- Trees are put together from pieces, from the leaves up. -/
theorem piece_branch {t : Term} (h : t.Everywhere SingleLine) :
    Piece (t.height - 1) fun level => (t.branch level).toList := by
  induction h with
  | @node t hnames _ _ ihargs ihoptions =>
      cases t with
      | literal value =>
          have hline : '\n' ∉ (Operation.datum.name ++ "(" ++ value.text ++ ")").toList := by
            simp [newline_not_mem_name, value.newline_not_mem_text]
          exact .line hline
      | apply op args options =>
          have hnames : ∀ u ∈ options, '\n' ∉ u.1.toList :=
            fun u hu => hnames u.1 (List.mem_map_of_mem hu)
          have hopen : '\n' ∉ op.name.toList ++ ['('] := by simp [newline_not_mem_name]
          have hclose : '\n' ∉ [')'] := by decide
          have hargs : Piece (argLines args) fun level => argBlock level args :=
            piece_argBlock ihargs
          have hoptions : Piece (optionLines options) fun level => optionBlock level options :=
            piece_optionBlock hnames ihoptions
          have hbody := ((Piece.line hopen).append hargs).append hoptions
          refine (hbody.append (.line hclose)).congr ?_ (toList_branch_apply op args options)
          rw [height_apply]
          omega

/-! ## An option's value -/

/-- A tree begins with its operation. -/
theorem exists_branch_head (t : Term) (level : Nat) :
    ∃ c rest, (t.branch level).toList = c :: rest ∧ c.isUpper = true := by
  cases t with
  | literal value =>
      rw [branch, String.append_assoc, String.toList_append]
      exact ⟨'D', _, rfl, rfl⟩
  | apply op args options =>
      obtain ⟨c, rest, hname, hc, -⟩ := op.exists_name_eq
      rw [toList_branch_apply, hname]
      exact ⟨c, _, rfl, hc⟩

/-- What stands behind the name of an option is the tree of its value without the blanks in
front. -/
theorem dropWhile_isBlank_tree (t : Term) (level : Nat) :
    (t.tree level).toList.dropWhile isBlank = (t.branch level).toList := by
  have hspaces : ∀ c ∈ (indentation level).toList, isBlank c = true := by
    intro c hc
    rw [indentation_eq, toList_spaces] at hc
    obtain rfl := List.eq_of_mem_replicate hc
    rfl
  obtain ⟨c, rest, hhead, hc⟩ := t.exists_branch_head level
  rw [tree, String.toList_append, List.dropWhile_append_of_pos hspaces, hhead]
  exact List.dropWhile_cons_of_neg (by simp [not_isBlank_of_isUpper hc])

/-! ## Lines of a tree -/

/-- A tree further in is the tree with spaces in front of each line. -/
theorem toList_tree {t : Term} (h : t.Everywhere SingleLine) (level : Nat) :
    (t.tree level).toList = (spaces (2 * level)).toList ++
      padded (spaces (2 * level)).toList (t.tree 0).toList := by
  have hshift := (piece_branch h).shift 0 level
  rw [Nat.zero_add] at hshift
  rw [tree, String.toList_append, hshift, indentation_eq, tree, String.toList_append]
  rfl

theorem length_lines_tree {t : Term} (h : t.Everywhere SingleLine) (level : Nat) :
    (lines (t.tree level)).length = t.height := by
  have hpos := t.height_pos
  rw [length_lines, tree, String.toList_append, List.count_append,
    List.count_eq_zero_of_not_mem (newline_not_mem_indentation level), (piece_branch h).count]
  omega

/-- If no option has a newline in its name, the tree at a level is the tree at the margin with
two spaces for each level in front of every line.  It has a line for each node, one more for each
node with arguments and one more for each node with options. -/
theorem lines_tree {t : Term} (h : ∀ u ∈ t.nodes, ∀ name ∈ u.options.names, '\n' ∉ name.toList)
    (level : Nat) :
    lines (t.tree level) = (lines (t.tree 0)).map (spaces (2 * level) ++ ·) ∧
      (lines (t.tree level)).length =
        t.nodeCount + t.nodes.countP (fun u => !u.args.isEmpty) +
          t.nodes.countP (fun u => !u.options.isEmpty) := by
  have hnames : t.Everywhere SingleLine := everywhere_of_nodes h
  constructor
  · exact lines_indented (newline_not_mem_spaces _) (toList_tree hnames level)
  · rw [length_lines_tree hnames, height, linesOf, length_nodes]

/-- A literal with a newline and an option, one level in. -/
theorem lines_tree_table :
    (∀ u ∈ (apply .table [literal (.string "a\nb")] [("x", literal .null)]).nodes,
      ∀ name ∈ u.options.names, '\n' ∉ name.toList) ∧
    lines ((apply .table [literal (.string "a\nb")] [("x", literal .null)]).tree 1) =
      ["  TABLE(", "    DATUM(\"a\\nb\")", "   \x7b", "    x: DATUM(null)", "  \x7d)"] ∧
    (lines ((apply .table [literal (.string "a\nb")] [("x", literal .null)]).tree 1)).length =
      3 + 1 + 1 := by
  have hnames : ∀ u ∈ (apply .table [literal (.string "a\nb")] [("x", literal .null)]).nodes,
      ∀ name ∈ u.options.names, '\n' ∉ name.toList := by decide
  have hmargin : lines ((apply .table [literal (.string "a\nb")] [("x", literal .null)]).tree 0) =
      ["TABLE(", "  DATUM(\"a\\nb\")", " \x7b", "  x: DATUM(null)", "\x7d)"] := by
    decide +kernel
  obtain ⟨hlines, hlength⟩ := lines_tree hnames 1
  refine ⟨hnames, ?_, hlength⟩
  rw [hlines, hmargin]
  rfl

end Reql.Term
