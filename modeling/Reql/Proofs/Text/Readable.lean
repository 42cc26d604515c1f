/-
# `Reql.Proofs.Text.Readable` — things told from their texts

Something is *readable* if its text determines it and where it ends, as long as what follows
begins with a character that cannot continue it.  Readability passes to lists: entries with
commas between them and a bracket at the end can be told apart if each entry can
(`joined_append_injective`).  The same goes for strings, whose characters are written by a code
that reads back and never begins like the end of the string (`chars_append_injective`).
-/
import Reql.Text.Joined

namespace Reql.Text

/-! ## What follows -/

/-- Nothing follows, or what follows begins with a certain kind of character. -/
def Ends (stop : Char → Prop) (rest : List Char) : Prop := ∀ c ∈ rest.head?, stop c

theorem ends_nil (stop : Char → Prop) : Ends stop [] := nofun

theorem ends_cons {stop : Char → Prop} {c : Char} (rest : List Char) (h : stop c) :
    Ends stop (c :: rest) := by
  intro d hd
  obtain rfl := Option.some.inj hd
  exact h

/-! ## Strings -/

section Code

variable {code : Char → List Char} {read? : List Char → Option (Char × List Char)}

/-- A string between quotes and what follows it can be told from the text. -/
theorem chars_append_injective (hread : ∀ c rest, read? (code c ++ rest) = some (c, rest))
    (hend : ∀ c rest tail, code c ++ rest ≠ '"' :: tail) {cs ds u v : List Char}
    (h : cs.flatMap code ++ '"' :: u = ds.flatMap code ++ '"' :: v) : cs = ds ∧ u = v := by
  induction cs generalizing ds with
  | nil =>
      cases ds with
      | nil => exact ⟨rfl, (List.cons.inj h).2⟩
      | cons d ds =>
          rw [List.flatMap_cons, List.append_assoc] at h
          exact absurd h.symm (hend d _ _)
  | cons c cs ih =>
      rw [List.flatMap_cons, List.append_assoc] at h
      cases ds with
      | nil => exact absurd h (hend c _ _)
      | cons d ds =>
          rw [List.flatMap_cons, List.append_assoc] at h
          have hfirst := congrArg read? h
          rw [hread, hread] at hfirst
          obtain ⟨rfl, hrest⟩ := Prod.mk.inj (Option.some.inj hfirst)
          obtain ⟨rfl, hu⟩ := ih hrest
          exact ⟨rfl, hu⟩

end Code

/-! ## Entries of a container -/

/-- The entries of a container, each but the first after a separator. -/
theorem toList_joined_cons (separator t : String) (ts : List String) :
    (joined separator (t :: ts)).toList =
      t.toList ++ ts.flatMap fun t => separator.toList ++ t.toList := by
  induction ts generalizing t with
  | nil => rw [joined, List.flatMap_nil, List.append_nil]
  | cons t' ts ih =>
      rw [joined, String.toList_append, String.toList_append, ih, List.flatMap_cons,
        List.append_assoc, List.append_assoc]
      exact nofun

/-- What is neither in the separator nor in a text is not in the container. -/
theorem not_mem_joined {c : Char} {separator : String} {ts : List String}
    (hseparator : c ∉ separator.toList) (hts : ∀ t ∈ ts, c ∉ t.toList) :
    c ∉ (joined separator ts).toList := by
  cases ts with
  | nil => exact List.not_mem_nil
  | cons t ts =>
      obtain ⟨ht, hts⟩ := List.forall_mem_cons.mp hts
      rw [toList_joined_cons, List.mem_append, not_or]
      refine ⟨ht, ?_⟩
      intro h
      obtain ⟨t', ht', hc⟩ := List.mem_flatMap.mp h
      exact (List.mem_append.mp hc).elim hseparator (hts t' ht')

section Entries

variable {α : Type} {stop : Char → Prop} {P : α → Prop} {text : α → String}

/-- A thing and what follows it can be told from the text. -/
def Readable (stop : Char → Prop) (P : α → Prop) (text : α → String) (a : α) : Prop :=
  ∀ (b : α) (u v : List Char), P b → Ends stop u → Ends stop v →
    (text a).toList ++ u = (text b).toList ++ v → a = b ∧ u = v

variable {separator : String} {tail : List Char} {close : Char}
  (hseparator : separator.toList = ',' :: tail)

include hseparator

theorem ends_entries (hcomma : stop ',') (hclose : stop close) (xs : List α) (u : List Char) :
    Ends stop (xs.flatMap (fun x => separator.toList ++ (text x).toList) ++ close :: u) := by
  cases xs with
  | nil => exact ends_cons u hclose
  | cons x xs =>
      rw [List.flatMap_cons, hseparator]
      exact ends_cons _ hcomma

/-- Entries after the first one. -/
theorem entries_append_injective (hcomma : stop ',') (hclose : stop close) (hne : close ≠ ',')
    {xs ys : List α} {u v : List Char} (hxs : ∀ x ∈ xs, Readable stop P text x)
    (hys : ∀ y ∈ ys, P y)
    (h : xs.flatMap (fun x => separator.toList ++ (text x).toList) ++ close :: u =
      ys.flatMap (fun y => separator.toList ++ (text y).toList) ++ close :: v) :
    xs = ys ∧ u = v := by
  have hends (xs : List α) (u : List Char) :
      Ends stop (xs.flatMap (fun x => separator.toList ++ (text x).toList) ++ close :: u) :=
    ends_entries hseparator hcomma hclose xs u
  induction xs generalizing ys with
  | nil =>
      cases ys with
      | nil => exact ⟨rfl, (List.cons.inj h).2⟩
      | cons y ys =>
          rw [List.flatMap_cons, hseparator] at h
          exact absurd (List.cons.inj h).1 hne
  | cons x xs ih =>
      obtain ⟨hx, hxs⟩ := List.forall_mem_cons.mp hxs
      cases ys with
      | nil =>
          rw [List.flatMap_cons, hseparator] at h
          exact absurd (List.cons.inj h).1.symm hne
      | cons y ys =>
          obtain ⟨hy, hlater⟩ := List.forall_mem_cons.mp hys
          simp only [List.flatMap_cons, List.append_assoc] at h
          obtain ⟨rfl, hrest⟩ := hx y _ _ hy (hends xs u) (hends ys v)
            (List.append_cancel_left h)
          obtain ⟨rfl, hu⟩ := ih hxs hlater hrest
          exact ⟨rfl, hu⟩

/-- All entries, up to the end of the container. -/
theorem joined_append_injective (hcomma : stop ',') (hclose : stop close) (hne : close ≠ ',')
    (hhead : ∀ x, P x → ∀ u v, (text x).toList ++ u ≠ close :: v)
    {xs ys : List α} {u v : List Char} (hxs : ∀ x ∈ xs, P x ∧ Readable stop P text x)
    (hys : ∀ y ∈ ys, P y)
    (h : (joined separator (xs.map text)).toList ++ close :: u =
      (joined separator (ys.map text)).toList ++ close :: v) : xs = ys ∧ u = v := by
  have hends (xs : List α) (u : List Char) :
      Ends stop (xs.flatMap (fun x => separator.toList ++ (text x).toList) ++ close :: u) :=
    ends_entries hseparator hcomma hclose xs u
  cases xs with
  | nil =>
      cases ys with
      | nil => exact ⟨rfl, (List.cons.inj h).2⟩
      | cons y ys =>
          rw [List.map_cons, toList_joined_cons, List.append_assoc] at h
          exact absurd h.symm (hhead y (hys y List.mem_cons_self) _ _)
  | cons x xs =>
      obtain ⟨⟨hPx, hx⟩, hxs⟩ := List.forall_mem_cons.mp hxs
      rw [List.map_cons, toList_joined_cons, List.append_assoc] at h
      cases ys with
      | nil => exact absurd h (hhead x hPx _ _)
      | cons y ys =>
          obtain ⟨hy, hlater⟩ := List.forall_mem_cons.mp hys
          rw [List.map_cons, toList_joined_cons, List.append_assoc, List.flatMap_map,
            List.flatMap_map] at h
          obtain ⟨rfl, hrest⟩ := hx y _ _ hy (hends xs u) (hends ys v) h
          obtain ⟨rfl, hu⟩ := entries_append_injective hseparator hcomma hclose hne
            (fun x hx => (hxs x hx).2) hlater hrest
          exact ⟨rfl, hu⟩

end Entries

/-! ## Hexadecimal numbers -/

/-- The number that a hexadecimal digit writes. -/
def hexValue (c : Char) : Nat :=
  if c.isDigit then c.toNat - '0'.toNat else c.toNat - 'a'.toNat + 10

end Reql.Text
