/-
# `Reql.Proofs.Fields` — entries that are there to be found

Entries with different names are all kept when they are put in order, and found under
their names.  To write what is there already, or to drop what is not there, changes nothing.
-/
import Mathlib.Data.List.Nodup
import Reql.Fields

namespace Reql.Fields

variable {α : Type _}

theorem has_eq_false_iff {fields : Fields α} {name : String} :
    fields.has name = false ↔ fields.get? name = none := by
  simp [has]

theorem has_insert (fields : Fields α) (name : String) (a : α) (x : String) :
    (fields.insert name a).has x = (x == name || fields.has x) := by
  unfold has
  rw [get?_insert]
  split
  · next h => simp [h]
  · next h => simp [h]

theorem has_erase (fields : Fields α) (name x : String) :
    (fields.erase name).has x = (x != name && fields.has x) := by
  unfold has
  rw [get?_erase]
  split
  · next h => simp [h]
  · next h => simp [h]

theorem get?_erase_eq_some_iff {fields : Fields α} {name x : String} {a : α} :
    (fields.erase name).get? x = some a ↔ x ≠ name ∧ fields.get? x = some a := by
  rw [get?_erase]
  split
  · next h => simp [h]
  · next h => simp [h]

theorem mem_of_get? {fields : Fields α} {name : String} {a : α}
    (h : fields.get? name = some a) : (name, a) ∈ fields := by
  induction fields with
  | nil => simp at h
  | cons entry rest ih =>
      obtain ⟨other, b⟩ := entry
      rw [get?_cons] at h
      split at h
      · next hname =>
          obtain rfl := Option.some.inj h
          rw [hname]
          exact .head _
      · exact .tail _ (ih h)

theorem nodup_names {fields : Fields α} (h : fields.Sorted) : (fields.map Prod.fst).Nodup := by
  refine List.pairwise_map.mpr (List.Pairwise.imp ?_ h)
  intro a b hlt heq
  rw [heq] at hlt
  exact String.lt_irrefl _ hlt

/-- With all names different an entry is there exactly when it is found. -/
theorem get?_eq_some_iff_mem {fields : Fields α} (h : (fields.map Prod.fst).Nodup) {name : String}
    {a : α} : fields.get? name = some a ↔ (name, a) ∈ fields := by
  refine ⟨mem_of_get?, ?_⟩
  intro hmem
  induction fields with
  | nil => exact nomatch hmem
  | cons entry rest ih =>
      obtain ⟨other, b⟩ := entry
      obtain ⟨hother, hrest⟩ := List.nodup_cons.mp h
      rw [get?_cons]
      rcases List.mem_cons.mp hmem with heq | hmem
      · obtain ⟨rfl, rfl⟩ := Prod.mk.inj heq
        rw [if_pos rfl]
      · have hne : name ≠ other := by
          intro heq
          have hname : name ∈ rest.map Prod.fst := List.mem_map_of_mem hmem
          exact hother (heq ▸ hname)
        rw [if_neg hne]
        exact ih hrest hmem

theorem get?_filter_eq_some_iff {fields : Fields α} (h : (fields.map Prod.fst).Nodup)
    {p : String × α → Bool} {name : String} {a : α} :
    get? (fields.filter p) name = some a ↔ fields.get? name = some a ∧ p (name, a) = true := by
  have hfilter : ((fields.filter p).map Prod.fst).Nodup := h.sublist (List.filter_sublist.map _)
  rw [get?_eq_some_iff_mem hfilter, get?_eq_some_iff_mem h, List.mem_filter]

/-- In which order entries stand does not matter where all names are different. -/
theorem get?_perm {as bs : Fields α} (h : as.Perm bs) (hnames : (as.map Prod.fst).Nodup)
    (name : String) : as.get? name = bs.get? name := by
  have hnames' : (bs.map Prod.fst).Nodup := (h.map Prod.fst).nodup_iff.mp hnames
  refine Option.ext fun a => ?_
  rw [get?_eq_some_iff_mem hnames, get?_eq_some_iff_mem hnames', h.mem_iff]

theorem pairwise_names {fields : Fields α} (h : fields.Sorted) :
    fields.names.Pairwise (· < ·) :=
  List.pairwise_map.mpr h

/-! ## Many entries at once -/

/-- Puts entries in one after another. -/
def insertAll (fields : Fields α) (entries : List (String × α)) : Fields α :=
  entries.foldl (fun fields entry => insert entry.1 entry.2 fields) fields

/-- Drops the entries of several names. -/
def eraseAll (fields : Fields α) (names : List String) : Fields α := names.foldl erase fields

/-- What is there in the end was there before or has been put in. -/
theorem mem_of_mem_insertAll {entries fields : Fields α} {entry : String × α}
    (h : entry ∈ fields.insertAll entries) : entry ∈ fields ∨ entry ∈ entries := by
  induction entries generalizing fields with
  | nil => exact .inl h
  | cons first rest ih =>
      rw [insertAll, List.foldl_cons, ← insertAll] at h
      rcases ih h with hmem | hmem
      · rcases mem_insert hmem with rfl | hmem
        · exact .inr (.head _)
        · exact .inl hmem
      · exact .inr (.tail _ hmem)

theorem get?_insertAll_of_not_mem {entries fields : Fields α} {name : String}
    (h : name ∉ entries.map Prod.fst) :
    (fields.insertAll entries).get? name = fields.get? name := by
  induction entries generalizing fields with
  | nil => rfl
  | cons entry rest ih =>
      rw [List.map_cons, List.mem_cons, not_or] at h
      rw [insertAll, List.foldl_cons, ← insertAll, ih h.2, get?_insert, if_neg h.1]

/-- With all names different every entry that was put in is found under its name. -/
theorem get?_insertAll_of_mem {entries : List (String × α)} (h : (entries.map Prod.fst).Nodup)
    {name : String} {a : α} (hmem : (name, a) ∈ entries) (fields : Fields α) :
    (fields.insertAll entries).get? name = some a := by
  induction entries generalizing fields with
  | nil => exact nomatch hmem
  | cons entry rest ih =>
      rw [List.map_cons, List.nodup_cons] at h
      rw [insertAll, List.foldl_cons, ← insertAll]
      rcases List.mem_cons.mp hmem with rfl | hmem
      · rw [get?_insertAll_of_not_mem h.1, get?_insert, if_pos rfl]
      · exact ih h.2 hmem _

/-- With all names different every entry is found under its name. -/
theorem get?_ofList {entries : List (String × α)} (h : (entries.map Prod.fst).Nodup)
    {name : String} {a : α} (hmem : (name, a) ∈ entries) :
    (ofList entries).get? name = some a :=
  get?_insertAll_of_mem h hmem []

theorem get?_eraseAll (fields : Fields α) (names : List String) (x : String) :
    (fields.eraseAll names).get? x = if x ∈ names then none else fields.get? x := by
  induction names generalizing fields with
  | nil => rfl
  | cons name rest ih =>
      rw [eraseAll, List.foldl_cons, ← eraseAll, ih, get?_erase]
      by_cases hname : x = name
      · simp [hname]
      · simp [hname]

/-! ## Writes that change nothing -/

theorem insert_eq_self {fields : Fields α} (h : fields.Sorted) {name : String} {a : α}
    (hget : fields.get? name = some a) : fields.insert name a = fields := by
  induction fields with
  | nil => simp at hget
  | cons entry rest ih =>
      obtain ⟨other, b⟩ := entry
      obtain ⟨hother, hrest⟩ := List.pairwise_cons.mp h
      rw [get?_cons] at hget
      split at hget
      · next heq =>
          obtain rfl := Option.some.inj hget
          subst heq
          rw [insert, if_neg (String.lt_irrefl _), if_pos rfl]
      · next hne =>
          have hlt : other < name := hother (name, a) (mem_of_get? hget)
          rw [insert, if_neg (String.lt_asymm hlt), if_neg hne, ih hrest hget]

theorem insertAll_eq_self {fields : Fields α} (h : fields.Sorted) {entries : List (String × α)}
    (hget : ∀ entry ∈ entries, fields.get? entry.1 = some entry.2) :
    fields.insertAll entries = fields := by
  induction entries with
  | nil => rfl
  | cons entry rest ih =>
      obtain ⟨hentry, hrest⟩ := List.forall_mem_cons.mp hget
      rw [insertAll, List.foldl_cons, insert_eq_self h hentry]
      exact ih hrest

theorem erase_eq_self {fields : Fields α} {name : String} (hget : fields.get? name = none) :
    fields.erase name = fields := by
  refine List.filter_eq_self.mpr ?_
  intro entry hentry
  refine decide_eq_true ?_
  rintro rfl
  have hname : entry.1 ∈ fields.names := List.mem_map_of_mem hentry
  exact absurd ((mem_names_iff _ _).mp hname) (by simp [has, hget])

theorem eraseAll_eq_self {fields : Fields α} {names : List String}
    (hget : ∀ name ∈ names, fields.get? name = none) : fields.eraseAll names = fields := by
  induction names with
  | nil => rfl
  | cons name rest ih =>
      obtain ⟨hname, hrest⟩ := List.forall_mem_cons.mp hget
      rw [eraseAll, List.foldl_cons, erase_eq_self hname]
      exact ih hrest

/-! ## Entries put in order -/

theorem has_insertAll_iff {entries fields : Fields α} {name : String} :
    (fields.insertAll entries).has name = true ↔
      name ∈ entries.map Prod.fst ∨ fields.has name = true := by
  induction entries generalizing fields with
  | nil => simp [insertAll]
  | cons entry entries ih =>
      rw [insertAll, List.foldl_cons, ← insertAll, ih, has_insert, List.map_cons, List.mem_cons]
      simp [or_left_comm, or_assoc]

/-- The names of the entries that are put in order are those of the given ones. -/
theorem has_ofList_iff {entries : List (String × α)} {name : String} :
    (ofList entries).has name = true ↔ name ∈ entries.map Prod.fst := by
  have h : (insertAll [] entries).has name = true ↔
      name ∈ entries.map Prod.fst ∨ has ([] : Fields α) name = true := has_insertAll_iff
  exact h.trans (or_iff_left nofun)

theorem mem_ofList {entries : List (String × α)} (h : (entries.map Prod.fst).Nodup)
    {entry : String × α} (hmem : entry ∈ entries) : entry ∈ ofList entries :=
  mem_of_get? (get?_ofList h hmem)

theorem mem_of_mem_ofList {entries : List (String × α)} {entry : String × α}
    (h : entry ∈ ofList entries) : entry ∈ entries :=
  (mem_of_mem_insertAll h).resolve_left nofun

/-! ## Entries in any order -/

/-- Putting entries in order only moves them. -/
theorem perm_ofList {entries : List (String × α)} (h : (entries.map Prod.fst).Nodup) :
    (ofList entries).Perm entries := by
  have hsorted := nodup_names (sorted_ofList entries)
  refine (List.perm_ext_iff_of_nodup (List.Nodup.of_map _ hsorted) (List.Nodup.of_map _ h)).mpr ?_
  intro entry
  exact ⟨mem_of_mem_ofList, mem_ofList h⟩

/-- The order of the names leaves one order for the entries. -/
theorem eq_of_perm {as bs : Fields α} (h : as.Perm bs) (has : as.Sorted) (hbs : bs.Sorted) :
    as = bs := by
  refine h.eq_of_pairwise ?_ has hbs
  intro a b _ _ hab hba
  exact absurd (String.lt_trans hab hba) (String.lt_irrefl _)

theorem ofList_eq_of_perm {as bs : List (String × α)} (h : as.Perm bs)
    (hnames : (as.map Prod.fst).Nodup) : ofList as = ofList bs := by
  have hnames' : (bs.map Prod.fst).Nodup := (h.map Prod.fst).nodup_iff.mp hnames
  have hperm : (ofList as).Perm (ofList bs) :=
    (perm_ofList hnames).trans (h.trans (perm_ofList hnames').symm)
  exact eq_of_perm hperm (sorted_ofList as) (sorted_ofList bs)

/-- Entries in order stay as they are. -/
theorem ofList_eq_self {fields : Fields α} (h : fields.Sorted) : ofList fields = fields :=
  eq_of_perm (perm_ofList (nodup_names h)) (sorted_ofList fields) h

end Reql.Fields
