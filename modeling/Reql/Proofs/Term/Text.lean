/-
# `Reql.Proofs.Term.Text` — terms can be told apart on one line

The one-line text of a term determines the term, if its numbers are finite and its options have
words for names (`text_eq_text_iff`).  A node begins with an upper-case letter and a literal does
not, so the two are never confused.  Arguments and options stand in one list.  What tells them
apart is the character after the first word: it is the equals sign behind the name of an option,
and an argument has none there, because a bracket, a quote, a point or the end of the entry comes
first.  Whether the terms are valid plays no part.
-/
import Reql.Proofs.Datum
import Reql.Proofs.Operation
import Reql.Term.Render

namespace Reql.Term

open Text

/-! ## Names of options -/

/-- ASCII letters, digits and the underscore. -/
def isWordChar (c : Char) : Bool := c.isAlphanum || c == '_'

/-- A name that is a word. -/
def IsWordName (name : String) : Prop :=
  name.toList ≠ [] ∧ ∀ c ∈ name.toList, isWordChar c = true

/-- All options of the term, and of the terms in it, have words for names. -/
def WordNames (t : Term) : Prop := t.Everywhere fun u => ∀ name ∈ u.options.names, IsWordName name

/-- A term with finite numbers and words for names. -/
def Legible (t : Term) : Prop := t.Finite ∧ t.WordNames

theorem wordNames_apply_iff {op : Operation} {args : List Term} {options : List (String × Term)} :
    (apply op args options).WordNames ↔
      (∀ t ∈ args, t.WordNames) ∧ ∀ u ∈ options, IsWordName u.1 ∧ u.2.WordNames := by
  constructor
  · rintro ⟨hnames, hargs, hoptions⟩
    exact ⟨hargs, fun u hu => ⟨hnames u.1 (List.mem_map_of_mem hu), hoptions u hu⟩⟩
  · rintro ⟨hargs, hoptions⟩
    refine .node ?_ hargs fun u hu => (hoptions u hu).2
    intro name hname
    obtain ⟨u, hu, rfl⟩ := List.mem_map.mp hname
    exact (hoptions u hu).1

theorem wordNames_literal (value : Datum) : (literal value).WordNames :=
  .node (List.forall_mem_nil _) (List.forall_mem_nil _) (List.forall_mem_nil _)

theorem legible_literal_iff {value : Datum} : (literal value).Legible ↔ value.Finite := by
  rw [Legible, finite_literal_iff]
  exact and_iff_left (wordNames_literal value)

theorem legible_apply {op : Operation} {args : List Term} {options : List (String × Term)}
    (h : (apply op args options).Legible) :
    (∀ t ∈ args, t.Legible) ∧ ∀ u ∈ options, IsWordName u.1 ∧ u.2.Legible := by
  obtain ⟨hfinite, hwords⟩ := h
  obtain ⟨hargs, hoptions⟩ := finite_apply_iff.mp hfinite
  obtain ⟨hargs', hoptions'⟩ := wordNames_apply_iff.mp hwords
  exact ⟨fun t ht => ⟨hargs t ht, hargs' t ht⟩,
    fun u hu => ⟨(hoptions' u hu).1, hoptions u hu, (hoptions' u hu).2⟩⟩

/-! ## Entries -/

/-- What a node lists: arguments, and options under their names. -/
abbrev Entry := Option String × Term

def entries (args : List Term) (options : List (String × Term)) : List Entry :=
  args.map (fun t => (none, t)) ++ options.map fun u => (some u.1, u.2)

def entryText : Entry → String
  | (none, t) => t.text
  | (some name, t) => name ++ "=" ++ t.text

/-- An entry of a term with finite numbers and words for names. -/
def LegibleEntry (e : Entry) : Prop := (∀ name ∈ e.1, IsWordName name) ∧ e.2.Legible

theorem entries_injective {args args' : List Term} {options options' : List (String × Term)}
    (h : entries args options = entries args' options') : args = args' ∧ options = options' := by
  have hargs (ts : List Term) (us : List (String × Term)) :
      (entries ts us).filterMap (fun e => if e.1.isNone then some e.2 else none) = ts := by
    simp only [entries, List.filterMap_append, List.filterMap_map, Function.comp_def]
    simp
  have hoptions (ts : List Term) (us : List (String × Term)) :
      (entries ts us).filterMap (fun e => e.1.map fun name => (name, e.2)) = us := by
    simp only [entries, List.filterMap_append, List.filterMap_map, Function.comp_def]
    simp
  constructor
  · rw [← hargs args options, h, hargs]
  · rw [← hoptions args options, h, hoptions]

theorem argTexts_eq_map (args : List Term) :
    argTexts args = (args.map fun t => ((none, t) : Entry)).map entryText := by
  induction args with
  | nil => rfl
  | cons t args ih => rw [argTexts, ih, List.map_cons, List.map_cons, entryText]

theorem optionTexts_eq_map (options : List (String × Term)) :
    optionTexts options = (options.map fun u => ((some u.1, u.2) : Entry)).map entryText := by
  induction options with
  | nil => rfl
  | cons u options ih => rw [optionTexts, ih, List.map_cons, List.map_cons, entryText]

theorem toList_text_apply (op : Operation) (args : List Term) (options : List (String × Term)) :
    (apply op args options).text.toList = op.name.toList ++
      '(' :: ((joined ", " ((entries args options).map entryText)).toList ++ [')']) := by
  rw [text, argTexts_eq_map, optionTexts_eq_map, ← List.map_append, ← entries]
  simp only [String.toList_append, List.append_assoc]
  rfl

theorem toList_entryText_some (name : String) (t : Term) :
    (entryText (some name, t)).toList = name.toList ++ '=' :: t.text.toList := by
  rw [entryText, String.toList_append, String.toList_append, List.append_assoc]
  rfl

/-! ## The first word -/

theorem isWordChar_of_isNameChar {c : Char} (h : Operation.isNameChar c = true) :
    isWordChar c = true := by
  have hword : isWordChar c = (c.isUpper || c.isLower || c.isDigit || c == '_') := rfl
  simp only [Operation.isNameChar, Bool.or_eq_true] at h
  simp only [hword, Bool.or_eq_true]
  tauto

/-- What comes after the first word. -/
def afterWord (cs : List Char) : List Char := cs.dropWhile isWordChar

theorem afterWord_append {word rest : List Char} (hword : ∀ c ∈ word, isWordChar c = true) :
    afterWord (word ++ rest) = afterWord rest :=
  List.dropWhile_append_of_pos hword

theorem afterWord_cons {c : Char} {rest : List Char} (h : isWordChar c = false) :
    afterWord (c :: rest) = c :: rest := by
  rw [afterWord, List.dropWhile_cons_of_neg (by simp [h])]

/-- A word and what follows it can be told from the text. -/
theorem word_append_injective {word word' rest rest' : List Char} {c d : Char}
    (hword : ∀ c ∈ word, isWordChar c = true) (hword' : ∀ c ∈ word', isWordChar c = true)
    (hc : isWordChar c = false) (hd : isWordChar d = false)
    (h : word ++ c :: rest = word' ++ d :: rest') : word = word' ∧ c :: rest = d :: rest' := by
  have hafter := congrArg afterWord h
  rw [afterWord_append hword, afterWord_cons hc, afterWord_append hword',
    afterWord_cons hd] at hafter
  rw [hafter] at h
  exact ⟨List.append_cancel_right h, hafter⟩

/-- Neither a text without an equals sign nor the end of an entry has one after its first word. -/
theorem afterWord_ne {cs u v : List Char} (hcs : '=' ∉ cs) (hu : Ends Closes u) :
    afterWord (cs ++ u) ≠ '=' :: v := by
  induction cs with
  | nil =>
      cases u with
      | nil => exact nofun
      | cons c u =>
          have hc := (hu c rfl).of_all (p := fun c => !isWordChar c && c != '=') rfl
          simp only [Bool.and_eq_true, Bool.not_eq_true', bne_iff_ne] at hc
          rw [List.nil_append, afterWord_cons hc.1]
          exact fun h => hc.2 (List.cons.inj h).1
  | cons c cs ih =>
      rw [List.mem_cons, not_or] at hcs
      rw [List.cons_append]
      cases hc : isWordChar c with
      | true =>
          have hskip : afterWord (c :: (cs ++ u)) = afterWord (cs ++ u) := by
            rw [afterWord, List.dropWhile_cons_of_pos hc, ← afterWord]
          rw [hskip]
          exact ih hcs.2
      | false =>
          rw [afterWord_cons hc]
          exact fun h => hcs.1 (List.cons.inj h).1.symm

theorem not_mem_of_isPlainChar {cs : List Char} (h : ∀ c ∈ cs, Double.isPlainChar c = true) :
    '=' ∉ cs :=
  fun hmem => absurd (h '=' hmem) (by decide)

/-- An argument has no equals sign after its first word. -/
theorem afterWord_text_ne {t : Term} (ht : t.Legible) {u v : List Char} (hu : Ends Closes u) :
    afterWord (t.text.toList ++ u) ≠ '=' :: v := by
  cases t with
  | apply op args options =>
      have hname : ∀ c ∈ op.name.toList, isWordChar c = true :=
        fun c hc => isWordChar_of_isNameChar (op.isNameChar_of_mem c hc)
      rw [toList_text_apply, List.append_assoc, afterWord_append hname, List.cons_append,
        afterWord_cons rfl]
      exact fun h => absurd (List.cons.inj h).1 (by decide)
  | literal value =>
      rw [text]
      cases value with
      | null => exact afterWord_ne (by decide) hu
      | bool value =>
          cases value with
          | false => exact afterWord_ne (by decide) hu
          | true => exact afterWord_ne (by decide) hu
      | number value =>
          have hfinite := legible_literal_iff.mp ht
          rw [Datum.Finite] at hfinite
          exact afterWord_ne (not_mem_of_isPlainChar (Double.isPlainChar_of_mem hfinite)) hu
      | string value =>
          rw [Datum.toList_text_string, List.cons_append, afterWord_cons rfl]
          exact fun h => absurd (List.cons.inj h).1 (by decide)
      | array items =>
          rw [Datum.toList_text_array, List.cons_append, afterWord_cons rfl]
          exact fun h => absurd (List.cons.inj h).1 (by decide)
      | object fields =>
          rw [Datum.toList_text_object, List.cons_append, afterWord_cons rfl]
          exact fun h => absurd (List.cons.inj h).1 (by decide)

theorem afterWord_option {name : String} (h : IsWordName name) (rest : List Char) :
    afterWord (name.toList ++ '=' :: rest) = '=' :: rest := by
  rw [afterWord_append h.2, afterWord_cons rfl]

/-! ## The first character -/

/-- A node begins with a letter that no literal begins with. -/
theorem exists_apply_head (op : Operation) (args : List Term) (options : List (String × Term)) :
    ∃ c rest, (apply op args options).text.toList = c :: rest ∧ c.isUpper = true := by
  obtain ⟨c, rest, hname, hc, -⟩ := op.exists_name_eq
  exact ⟨c, _, by rw [toList_text_apply, hname, List.cons_append], hc⟩

theorem kindOf?_of_isUpper {c : Char} (h : c.isUpper = true) : Json.kindOf? c = none := by
  have hdigit : c.isDigit = false := by
    obtain ⟨hA, -⟩ : 'A'.val ≤ c.val ∧ c.val ≤ 'Z'.val := of_decide_eq_true h
    have hfirst : 65 ≤ c.val.toNat := UInt32.le_iff_toNat_le.mp hA
    have h9 : '9'.val.toNat = 57 := rfl
    simp only [Char.isDigit, Bool.and_eq_false_iff, decide_eq_false_iff_not, ge_iff_le,
      UInt32.le_iff_toNat_le]
    omega
  have hminus : (c == '-') = false := by
    refine beq_eq_false_iff_ne.mpr ?_
    rintro rfl
    exact absurd h (by decide)
  unfold Json.kindOf?
  rw [hdigit, hminus, Bool.or_self, if_neg Bool.false_ne_true]
  split
  next => exact absurd h (by decide)
  next => exact absurd h (by decide)
  next => exact absurd h (by decide)
  next => exact absurd h (by decide)
  next => exact absurd h (by decide)
  next => exact absurd h (by decide)
  next => rfl

theorem text_apply_ne_literal {op : Operation} {args : List Term} {options : List (String × Term)}
    {value : Datum} (hvalue : value.Finite) (u v : List Char) :
    (apply op args options).text.toList ++ u ≠ value.text.toList ++ v := by
  obtain ⟨c, rest, hc, hupper⟩ := exists_apply_head op args options
  obtain ⟨d, tail, hd, hkind⟩ := Datum.exists_head hvalue
  rw [hc, hd]
  intro h
  obtain rfl := (List.cons.inj h).1
  exact nomatch hkind.symm.trans (kindOf?_of_isUpper hupper)

/-- No entry begins like the end of the list. -/
theorem entryText_append_ne {e : Entry} (he : LegibleEntry e) (u v : List Char) :
    (entryText e).toList ++ u ≠ ')' :: v := by
  obtain ⟨name?, t⟩ := e
  cases name? with
  | none =>
      cases t with
      | literal value => exact Datum.text_append_ne (legible_literal_iff.mp he.2) (by decide) u v
      | apply op args options =>
          obtain ⟨c, rest, hc, hupper⟩ := exists_apply_head op args options
          rw [entryText, hc]
          intro h
          obtain rfl := (List.cons.inj h).1
          exact absurd hupper (by decide)
  | some name =>
      obtain ⟨hne, hname⟩ := he.1 name rfl
      obtain ⟨c, rest, hcons⟩ := List.exists_cons_of_ne_nil hne
      rw [hcons] at hname
      rw [toList_entryText_some, hcons]
      intro h
      obtain rfl := (List.cons.inj h).1
      exact absurd (hname ')' List.mem_cons_self) (by decide)

/-! ## Terms -/

theorem readable_entry {name? : Option String} {t : Term}
    (he : LegibleEntry (name?, t)) (ht : Readable Closes Legible text t) :
    Readable Closes LegibleEntry entryText (name?, t) := by
  rintro ⟨name'?, t'⟩ u v he' hu hv h
  cases name? with
  | none =>
      cases name'? with
      | none =>
          obtain ⟨rfl, huv⟩ := ht t' u v he'.2 hu hv h
          exact ⟨rfl, huv⟩
      | some name' =>
          have hafter := congrArg afterWord h
          rw [toList_entryText_some, List.append_assoc, List.cons_append,
            afterWord_option (he'.1 name' rfl)] at hafter
          exact absurd hafter (afterWord_text_ne he.2 hu)
  | some name =>
      cases name'? with
      | none =>
          have hafter := congrArg afterWord h
          rw [toList_entryText_some, List.append_assoc, List.cons_append,
            afterWord_option (he.1 name rfl)] at hafter
          exact absurd hafter.symm (afterWord_text_ne he'.2 hv)
      | some name' =>
          simp only [toList_entryText_some, List.append_assoc, List.cons_append] at h
          obtain ⟨hname, hrest⟩ := word_append_injective (he.1 name rfl).2 (he'.1 name' rfl).2
            rfl rfl h
          obtain rfl := String.toList_inj.mp hname
          obtain ⟨rfl, huv⟩ := ht t' u v he'.2 hu hv (List.cons.inj hrest).2
          exact ⟨rfl, huv⟩

theorem mem_entries {e : Entry} {args : List Term} {options : List (String × Term)}
    (h : e ∈ entries args options) :
    (∃ t ∈ args, e = (none, t)) ∨ ∃ u ∈ options, e = (some u.1, u.2) := by
  rcases List.mem_append.mp h with h | h
  · obtain ⟨t, ht, rfl⟩ := List.mem_map.mp h
    exact .inl ⟨t, ht, rfl⟩
  · obtain ⟨u, hu, rfl⟩ := List.mem_map.mp h
    exact .inr ⟨u, hu, rfl⟩

section

variable {op : Operation} {args : List Term} {options : List (String × Term)}
  (h : (apply op args options).Legible)

include h

theorem legibleEntry_of_mem : ∀ e ∈ entries args options, LegibleEntry e := by
  intro e he
  obtain ⟨hargs, hoptions⟩ := legible_apply h
  rcases mem_entries he with ⟨t, ht, rfl⟩ | ⟨u, hu, rfl⟩
  · exact ⟨nofun, hargs t ht⟩
  · refine ⟨?_, (hoptions u hu).2⟩
    intro name hname
    obtain rfl := Option.some.inj hname
    exact (hoptions u hu).1

theorem readable_entries (hargs : ∀ t ∈ args, Readable Closes Legible text t)
    (hoptions : ∀ u ∈ options, Readable Closes Legible text u.2) :
    ∀ e ∈ entries args options, LegibleEntry e ∧ Readable Closes LegibleEntry entryText e := by
  intro e he
  have hlegible := legibleEntry_of_mem h e he
  refine ⟨hlegible, ?_⟩
  rcases mem_entries he with ⟨t, ht, rfl⟩ | ⟨u, hu, rfl⟩
  · exact readable_entry hlegible (hargs t ht)
  · exact readable_entry hlegible (hoptions u hu)

end

mutual

/-- A term and what follows it in a list can be told from the text. -/
theorem readable : ∀ {t : Term}, t.Legible → Readable Closes Legible text t
  | .literal value, ht => by
      intro t' u v ht' hu hv h
      have hvalue := legible_literal_iff.mp ht
      cases t' with
      | literal value' =>
          obtain ⟨rfl, huv⟩ := Datum.readable hvalue value' u v (legible_literal_iff.mp ht') hu hv h
          exact ⟨rfl, huv⟩
      | apply op args options => exact absurd h.symm (text_apply_ne_literal hvalue v u)
  | .apply op args options, ht => by
      intro t' u v ht' hu hv h
      cases t' with
      | literal value' =>
          exact absurd h (text_apply_ne_literal (legible_literal_iff.mp ht') u v)
      | apply op' args' options' =>
          simp only [toList_text_apply, List.append_assoc, List.cons_append,
            List.nil_append] at h
          have hword (op : Operation) : ∀ c ∈ op.name.toList, isWordChar c = true :=
            fun c hc => isWordChar_of_isNameChar (op.isNameChar_of_mem c hc)
          obtain ⟨hname, hlist⟩ := word_append_injective (hword op) (hword op') rfl rfl h
          obtain rfl := Operation.name_injective (String.toList_inj.mp hname)
          obtain ⟨hargs, hoptions⟩ := legible_apply ht
          have hentries := readable_entries ht (readable_args hargs) (readable_options hoptions)
          obtain ⟨heq, huv⟩ := joined_append_injective rfl (by decide) (by decide) (by decide)
            (fun _ he => entryText_append_ne he) hentries (legibleEntry_of_mem ht')
            (List.cons.inj hlist).2
          obtain ⟨rfl, rfl⟩ := entries_injective heq
          exact ⟨rfl, huv⟩

theorem readable_args : ∀ {ts : List Term}, (∀ t ∈ ts, t.Legible) →
    ∀ t ∈ ts, Readable Closes Legible text t
  | [], _ => List.forall_mem_nil _
  | t :: rest, h => by
      obtain ⟨ht, hrest⟩ := List.forall_mem_cons.mp h
      exact List.forall_mem_cons.mpr ⟨readable ht, readable_args hrest⟩

theorem readable_options : ∀ {us : List (String × Term)},
    (∀ u ∈ us, IsWordName u.1 ∧ u.2.Legible) → ∀ u ∈ us, Readable Closes Legible text u.2
  | [], _ => List.forall_mem_nil _
  | (name, t) :: rest, h => by
      obtain ⟨⟨_, ht⟩, hrest⟩ := List.forall_mem_cons.mp h
      exact List.forall_mem_cons.mpr ⟨readable ht, readable_options hrest⟩

end

/-- On one line terms with finite numbers, whose options have words for names, are told apart. -/
theorem text_eq_text_iff {t u : Term} (ht : t.Finite) (hu : u.Finite) (htn : t.WordNames)
    (hun : u.WordNames) : t.text = u.text ↔ t = u := by
  constructor
  · intro h
    exact (readable ⟨ht, htn⟩ u [] [] ⟨hu, hun⟩ (ends_nil _) (ends_nil _) (by rw [h])).1
  · rintro rfl
    rfl

/-- A string that looks like the rest of the line does not mislead. -/
theorem text_eq_text_iff_table :
    let names : Datum := .array [.string "users", .string "index=1"]
    let other : Datum := .array [.string "users\", \"index=1"]
    let table (value : Datum) : Term :=
      .apply .table [.literal value] [("name", .literal (.number (.zero true)))]
    (table names).Finite ∧ (table names).WordNames ∧ (table names).text ≠ (table other).text := by
  intro names other table
  have hnames : names.Finite := by simp [names, Datum.Finite, Datum.FiniteItems]
  have hother : other.Finite := by simp [other, Datum.Finite, Datum.FiniteItems]
  have hzero : (literal (.number (.zero true))).Finite := by
    rw [finite_literal_iff, Datum.Finite]
    rfl
  have hfinite {value : Datum} (h : value.Finite) : (table value).Finite :=
    finite_apply_iff.mpr ⟨List.forall_mem_singleton.mpr (finite_literal_iff.mpr h),
      List.forall_mem_singleton.mpr hzero⟩
  have hwords (value : Datum) : (table value).WordNames := by
    refine wordNames_apply_iff.mpr ⟨List.forall_mem_singleton.mpr (wordNames_literal value), ?_⟩
    have hname : IsWordName "name" := ⟨by decide, List.all_eq_true.mp rfl⟩
    exact List.forall_mem_singleton.mpr ⟨hname, wordNames_literal _⟩
  refine ⟨hfinite hnames, hwords names, ?_⟩
  intro h
  have hterms := (text_eq_text_iff (hfinite hnames) (hfinite hother) (hwords names)
    (hwords other)).mp h
  simp [table, names, other] at hterms

end Reql.Term
