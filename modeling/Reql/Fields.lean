/-
# `Reql.Fields` — named entries in the order of their names

Options, objects and the tables of a registry are lists of named entries,
kept in increasing order of the names with no name twice.  Names compare by
code point, which is the order of their UTF-8 bytes.
-/

namespace Reql

/-- Entries by name, in increasing order of the names. -/
abbrev Fields (α : Type _) := List (String × α)

namespace Fields

variable {α β : Type _}

/-- Puts an entry in its place; an entry of that name gives way. -/
def insert (name : String) (value : α) : Fields α → Fields α
  | [] => [(name, value)]
  | (other, old) :: rest =>
    if name < other then (name, value) :: (other, old) :: rest
    else if name = other then (name, value) :: rest
    else (other, old) :: insert name value rest

/-- The entries of a list in any order; of several with one name the last counts. -/
def ofList (entries : List (String × α)) : Fields α :=
  entries.foldl (fun fields entry => fields.insert entry.1 entry.2) []

/-- The entry of a name. -/
def get? (fields : Fields α) (name : String) : Option α := List.lookup name fields

/-- Whether a name has an entry. -/
def has (fields : Fields α) (name : String) : Bool := (fields.get? name).isSome

/-- Drops the entry of a name. -/
def erase (fields : Fields α) (name : String) : Fields α :=
  fields.filter fun entry => entry.1 ≠ name

/-- The names, in increasing order. -/
def names (fields : Fields α) : List String := fields.map Prod.fst

/-- Entries in increasing order of the names, no name twice. -/
def Sorted (fields : Fields α) : Prop := fields.Pairwise fun a b => a.1 < b.1

/-- The first name that is given a second time, reading from the left. -/
def firstRepeated? (names : List String) : Option String :=
  go [] names
where
  go (seen : List String) : List String → Option String
    | [] => none
    | name :: rest => if name ∈ seen then some name else go (name :: seen) rest

/-! ## What the operations do to the entry of a name -/

@[simp] theorem get?_nil (name : String) : get? ([] : Fields α) name = none := rfl

theorem get?_cons (other name : String) (value : α) (rest : Fields α) :
    get? ((other, value) :: rest) name = if name = other then some value else get? rest name := by
  by_cases h : name = other
  · simp [get?, h]
  · simp [get?, List.lookup_cons, beq_eq_false_iff_ne.mpr h, h]

/-- An insertion gives the name its value and touches no other name. -/
theorem get?_insert (fields : Fields α) (name : String) (value : α) (x : String) :
    (fields.insert name value).get? x = if x = name then some value else fields.get? x := by
  induction fields with
  | nil => simp [insert, get?_cons]
  | cons entry rest ih =>
      obtain ⟨other, old⟩ := entry
      simp only [insert]
      split
      · exact get?_cons name x value _
      · split
        · next h =>
            subst h
            simp only [get?_cons]
            split <;> rfl
        · next h =>
            simp only [get?_cons, ih]
            grind

/-- Dropping a name touches no other name. -/
theorem get?_erase (fields : Fields α) (name x : String) :
    (fields.erase name).get? x = if x = name then none else fields.get? x := by
  induction fields with
  | nil => simp [erase]
  | cons entry rest ih =>
      obtain ⟨other, old⟩ := entry
      simp only [erase] at ih
      simp only [erase, List.filter_cons]
      split <;> grind [get?_cons]

theorem mem_names_iff (fields : Fields α) (name : String) :
    name ∈ fields.names ↔ fields.has name = true := by
  induction fields with
  | nil => simp [names, has]
  | cons entry rest ih =>
      obtain ⟨other, old⟩ := entry
      simp only [names, has] at ih
      simp only [names, has, get?_cons, List.map_cons, List.mem_cons, ih]
      split <;> simp [*]

/-! ## The order of the names -/

theorem mem_insert {fields : Fields α} {name : String} {value : α} {entry : String × α}
    (h : entry ∈ fields.insert name value) : entry = (name, value) ∨ entry ∈ fields := by
  induction fields with
  | nil => exact .inl (by simpa [insert] using h)
  | cons head rest ih =>
      obtain ⟨other, old⟩ := head
      simp only [insert] at h
      grind

theorem sorted_insert {fields : Fields α} (h : fields.Sorted) (name : String) (value : α) :
    (fields.insert name value).Sorted := by
  induction fields with
  | nil => simp [insert, Sorted]
  | cons head rest ih =>
      obtain ⟨other, old⟩ := head
      obtain ⟨hhead, hrest⟩ := List.pairwise_cons.mp h
      simp only [insert]
      split
      · next hlt =>
          refine List.pairwise_cons.mpr ⟨fun entry hentry => ?_, h⟩
          rcases List.mem_cons.mp hentry with rfl | hmem
          · exact hlt
          · exact String.lt_trans hlt (hhead entry hmem)
      · split
        · next heq => exact List.pairwise_cons.mpr ⟨heq ▸ hhead, hrest⟩
        · next hge hne =>
            refine List.pairwise_cons.mpr ⟨fun entry hentry => ?_, ih hrest⟩
            rcases mem_insert hentry with rfl | hmem
            · exact Decidable.byContradiction fun hnot =>
                hne (String.le_antisymm (String.not_lt.mp hnot) (String.not_lt.mp hge))
            · exact hhead entry hmem

theorem sorted_erase {fields : Fields α} (h : fields.Sorted) (name : String) :
    (fields.erase name).Sorted :=
  List.Pairwise.filter _ h

/-- However the entries come, the names end up in order. -/
theorem sorted_ofList (entries : List (String × α)) : (ofList entries).Sorted := by
  suffices ∀ fields : Fields α, fields.Sorted →
      (entries.foldl (fun fields entry => fields.insert entry.1 entry.2) fields).Sorted from
    this [] List.Pairwise.nil
  induction entries with
  | nil => exact fun _ h => h
  | cons entry rest ih => exact fun _ h => ih _ (sorted_insert h entry.1 entry.2)

end Fields

end Reql
