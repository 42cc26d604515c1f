/-
# `Reql.Proofs.Command.Object` — the command for objects agrees with objects

The command is given keys and values in turn.  With literal keys it makes what normalizing the
object of these keys makes, one level deeper, provided that no key comes twice: an object would
keep the last of them, the command refuses (`createTerm_makeObj_eq_ok_iff`).

One key that is known only later changes all of this.  Then the node has keys and values in
the order they were given, repeated keys and all (`construct_object`).
-/
import Reql.Proofs.Command.Normalized

namespace Reql

/-! ## Objects -/

/-- The node with entries for options is the term of the object with these entries, if none
would be lost in the object. -/
theorem Normalizer.createTerm_makeObj_eq_ok_iff {n : Normalizer} {entries : Options} {t : Term} :
    n.createTerm .makeObj [] entries = .ok t ↔
      (entries.map Prod.fst).Nodup ∧
        (⟨n.depth + 1⟩ : Normalizer).normalize (.ofEntries entries) = .ok t := by
  rw [createTerm_eq_ok_iff, normalize, Value.ofEntries, normalizeAt_object_eq_ok_iff]
  constructor
  · rintro ⟨ts, us, hts, hus, -, hnames, rfl⟩
    obtain rfl := List.forall₂_nil_left_iff.mp hts
    rw [← hus.names_eq] at hnames
    exact ⟨hnames, n.depth, _, rfl, normalizeFields_eq_ok_iff.mpr hus.ofList, rfl⟩
  -- Going into the raw object uses up one level, which is the one more that it is given.
  · rintro ⟨hnames, inner, _, hinner, hfields, rfl⟩
    obtain rfl : n.depth = inner := Nat.succ.inj hinner
    obtain ⟨us, hus, rfl⟩ := normalizeFields_ofList hnames hfields
    rw [hus.names_eq] at hnames
    exact ⟨[], us, .nil, hus, by decide, hnames, rfl⟩

namespace Command

variable {c : Command} {n : Normalizer} {args : List Value} {options : Options} {t : Term}
  {pairs : List (Value × Value)}

/-! ## Keys and values -/

/-- Keys and values in turn. -/
def alternating (pairs : List (Value × Value)) : List Value :=
  pairs.flatMap fun pair => [pair.1, pair.2]

/-- The values whose keys are strings, under these as names. -/
def entries (pairs : List (Value × Value)) : List (String × Value) :=
  pairs.filterMap fun pair => pair.1.string?.map fun key => (key, pair.2)

theorem entries_eq_map (h : ∀ pair ∈ pairs, pair.1.isString = true) :
    entries pairs = pairs.map fun pair => (pair.1.string?.getD "", pair.2) := by
  induction pairs with
  | nil => rfl
  | cons pair rest ih =>
      obtain ⟨hkey, hrest⟩ := List.forall_mem_cons.mp h
      rw [Value.isString_eq] at hkey
      obtain ⟨key, hkey⟩ := Option.isSome_iff_exists.mp hkey
      rw [entries, List.filterMap_cons_some (by rw [hkey]; rfl), ← entries, ih hrest,
        List.map_cons, hkey]
      rfl

theorem length_alternating (pairs : List (Value × Value)) :
    (alternating pairs).length = 2 * pairs.length := by
  induction pairs with
  | nil => rfl
  | cons pair rest ih =>
      rw [alternating, List.flatMap_cons, ← alternating, List.length_append, ih, List.length_cons]
      simp only [List.length_cons, List.length_nil]
      omega

theorem getElem?_alternating {i : Nat} {key : Value}
    (h : (alternating pairs)[2 * i]? = some key) : ∃ pair ∈ pairs, pair.1 = key := by
  induction pairs generalizing i with
  | nil => exact nomatch h
  | cons pair rest ih =>
      cases i with
      | zero => exact ⟨pair, .head _, Option.some.inj h⟩
      | succ i =>
          obtain ⟨other, hother, hkey⟩ := ih (i := i) h
          exact ⟨other, .tail _ hother, hkey⟩

theorem forall_alternating {P : Value → Prop} :
    (∀ v ∈ alternating pairs, P v) ↔ ∀ pair ∈ pairs, P pair.1 ∧ P pair.2 := by
  rw [alternating, List.forall_mem_flatMap]
  simp

/-! ## The three outcomes -/

theorem exists_alternating (hc : c.options = [])
    (h : c.constructObject n args options = .ok t) :
    options = [] ∧ ∃ pairs, args = alternating pairs ∧ ∀ pair ∈ pairs, IsKey pair.1 := by
  obtain ⟨hoptions, pairs, hpairs, hkeys, -⟩ := constructObject_eq_ok_iff.mp h
  exact ⟨options_eq_nil hc hoptions, pairs, pairUp?_eq_some hpairs, hkeys⟩

theorem constructObject_alternating (hkeys : ∀ pair ∈ pairs, IsKey pair.1) :
    c.constructObject n (alternating pairs) [] = .ok t ↔
      (if pairs.any fun pair => pair.1.isDeferred then
        n.createTerm c.operation (alternating pairs) []
        else n.createTerm .makeObj [] (pairs.map fun pair => (pair.1.string?.getD "", pair.2))) =
          .ok t := by
  rw [constructObject_eq_ok_iff]
  constructor
  · rintro ⟨-, other, hother, -, hmade⟩
    obtain rfl := Option.some.inj ((pairUp?_flatMap pairs).symm.trans hother)
    exact hmade
  · intro hmade
    exact ⟨rfl, pairs, pairUp?_flatMap pairs, hkeys, hmade⟩

/-- With literal keys the command makes what the object makes. -/
theorem constructObject_of_literal (hkeys : ∀ pair ∈ pairs, IsKey pair.1)
    (hliteral : ∀ pair ∈ pairs, pair.1.isDeferred = false) :
    c.constructObject n (alternating pairs) [] = .ok t ↔
      ((entries pairs).map Prod.fst).Nodup ∧
        (⟨n.depth + 1⟩ : Normalizer).normalize (.ofEntries (entries pairs)) = .ok t := by
  have hstring : ∀ pair ∈ pairs, pair.1.isString = true := by
    intro pair hpair
    refine (hkeys pair hpair).resolve_right ?_
    rw [hliteral pair hpair]
    exact Bool.false_ne_true
  have hnone : (pairs.any fun pair => pair.1.isDeferred) = false := by
    simpa using hliteral
  rw [constructObject_alternating hkeys, hnone, ← Normalizer.createTerm_makeObj_eq_ok_iff,
    entries_eq_map hstring]
  rfl

theorem constructObject_of_deferred (hkeys : ∀ pair ∈ pairs, IsKey pair.1)
    (hdeferred : ∃ pair ∈ pairs, pair.1.isDeferred = true) :
    c.constructObject n (alternating pairs) [] = .ok t ↔
      n.createTerm c.operation (alternating pairs) [] = .ok t := by
  have hsome : (pairs.any fun pair => pair.1.isDeferred) = true := by
    simpa using hdeferred
  rw [constructObject_alternating hkeys, hsome]
  rfl

/-- Keys always have a term. -/
theorem exists_normalize_of_isKey {v : Value} (h : IsKey v) : ∃ t, n.normalize v = .ok t := by
  rcases h with hstring | hdeferred
  · rw [Value.isString_eq] at hstring
    obtain ⟨text, htext⟩ := Option.isSome_iff_exists.mp hstring
    exact normalize_of_string? htext
  · cases v with
    | term t => exact ⟨t, Normalizer.normalizeAt_term _ t⟩
    | null | bool _ | number _ | string _ | array _ | object _ => exact nomatch hdeferred

theorem exists_createTerm_alternating {op : Operation} (hop : op ≠ .datum)
    (hkeys : ∀ pair ∈ pairs, IsKey pair.1) :
    (∃ t, n.createTerm op (alternating pairs) [] = .ok t) ↔
      ∀ pair ∈ pairs, ∃ t, n.normalize pair.2 = .ok t := by
  rw [Normalizer.exists_createTerm_iff, forall_alternating]
  constructor
  · rintro ⟨-, -, hargs, -⟩ pair hpair
    exact (hargs pair hpair).2
  · intro hvalues
    refine ⟨hop, List.nodup_nil, ?_, List.forall_mem_nil _⟩
    intro pair hpair
    exact ⟨exists_normalize_of_isKey (hkeys pair hpair), hvalues pair hpair⟩

theorem assembly_object (hc : Catalogue.find? "object" = some c) :
    c.assembly = .object ∧ c.operation = .object ∧ c.options = [] := by
  have hfind : Catalogue.find? "object" =
      some { name := "object", operation := .object, rest := some .any, assembly := .object } := by
    decide +kernel
  obtain rfl := Option.some.inj (hfind.symm.trans hc)
  exact ⟨rfl, rfl, rfl⟩

/-- An option, a value left over or a wrong key is an error.  Otherwise literal keys make what the
object of the same keys and values makes, if none of them comes twice.  If some key is known only
later, all values have to have terms and the node has everything in the given order. -/
theorem construct_object (hc : Catalogue.find? "object" = some c) (n : Normalizer)
    (args : List Value) (options : Options) :
    (options ≠ [] ∨ args.length % 2 = 1 ∨ (∃ i key, args[2 * i]? = some key ∧ ¬ IsKey key) →
      ∃ e, c.construct n args options = .error e) ∧
    ∀ pairs, args = alternating pairs → options = [] → (∀ pair ∈ pairs, IsKey pair.1) →
      ((∀ pair ∈ pairs, pair.1.isDeferred = false) → ∀ t,
        (c.construct n args options = .ok t ↔ ((entries pairs).map Prod.fst).Nodup ∧
          (⟨n.depth + 1⟩ : Normalizer).normalize (.ofEntries (entries pairs)) = .ok t)) ∧
      ((∃ pair ∈ pairs, pair.1.isDeferred = true) →
        ((∃ t, c.construct n args options = .ok t) ↔
          ∀ pair ∈ pairs, ∃ u, n.normalize pair.2 = .ok u) ∧
        ∀ t, c.construct n args options = .ok t → ∃ ts,
          List.Forall₂ (fun v u => n.normalize v = .ok u) args ts ∧ t = .apply .object ts []) := by
  obtain ⟨hassembly, hoperation, hnone⟩ := assembly_object hc
  have hconstruct : c.construct n args options = c.constructObject n args options := by
    rw [construct, hassembly]
  rw [hconstruct]
  constructor
  · intro hwrong
    rw [← not_isOk_iff, isOk_iff]
    rintro ⟨t, ht⟩
    obtain ⟨hoptions, pairs, rfl, hkeys⟩ := exists_alternating hnone ht
    rcases hwrong with hgiven | hodd | ⟨i, key, hkey, hnot⟩
    · exact hgiven hoptions
    · rw [length_alternating] at hodd
      omega
    · obtain ⟨pair, hpair, rfl⟩ := getElem?_alternating hkey
      exact hnot (hkeys pair hpair)
  · rintro pairs rfl rfl hkeys
    refine ⟨fun hliteral t => constructObject_of_literal hkeys hliteral, ?_⟩
    intro hdeferred
    simp only [constructObject_of_deferred hkeys hdeferred, hoperation]
    refine ⟨exists_createTerm_alternating nofun hkeys, ?_⟩
    intro t ht
    obtain ⟨ts, us, hts, hus, -, -, rfl⟩ := Normalizer.createTerm_eq_ok_iff.mp ht
    cases hus
    exact ⟨ts, hts, rfl⟩

/-- A key that comes twice, raw and as a literal term, is refused.  With a key in front that is known
only later it is kept, and so is everything else.  Null is no key. -/
theorem construct_object_repeated :
    let object : Command := { name := "object", operation := .object, rest := some .any,
                              assembly := .object }
    let later : Value := .term (.apply .upcase [.literal (.string "k")] [])
    let repeated : List (Value × Value) :=
      [(.string "k", .null), (.term (.literal (.string "k")), .bool true)]
    let mixed : List (Value × Value) := (later, .null) :: repeated
    (∀ t, object.construct default (alternating repeated) [] ≠ .ok t) ∧
      (∃ t, object.construct default (alternating mixed) [] = .ok t) ∧
      (∀ t, object.construct default (alternating mixed) [] = .ok t →
        ∃ ts, ts.length = 6 ∧ t = .apply .object ts []) ∧
      ∃ e, object.construct default [.null, .null] [] = .error e := by
  intro object later repeated mixed
  have hobject : Catalogue.find? "object" = some object := by decide +kernel
  have hrepeated : ∀ pair ∈ repeated, IsKey pair.1 ∧ pair.1.isDeferred = false := by
    simp only [repeated, List.forall_mem_cons]
    exact ⟨⟨.inl rfl, rfl⟩, ⟨.inl rfl, rfl⟩, List.forall_mem_nil _⟩
  have hmixed : ∀ pair ∈ mixed, IsKey pair.1 :=
    List.forall_mem_cons.mpr ⟨.inr rfl, fun pair hpair => (hrepeated pair hpair).1⟩
  have hvalues : ∀ pair ∈ mixed, ∃ u, (default : Normalizer).normalize pair.2 = .ok u := by
    simp only [mixed, repeated, List.forall_mem_cons]
    exact ⟨⟨_, rfl⟩, ⟨_, rfl⟩, ⟨_, rfl⟩, List.forall_mem_nil _⟩
  obtain ⟨-, hliteral⟩ := construct_object hobject default (alternating repeated) []
  obtain ⟨-, hlater⟩ := construct_object hobject default (alternating mixed) []
  obtain ⟨hwrong, -⟩ := construct_object hobject default [.null, .null] []
  obtain ⟨hmade, hnode⟩ := (hlater mixed rfl rfl hmixed).2 ⟨_, .head _, rfl⟩
  refine ⟨?_, hmade.mpr hvalues, ?_, hwrong (.inr (.inr ⟨0, .null, rfl, ?_⟩))⟩
  · intro t ht
    have hkeys := fun pair hpair => (hrepeated pair hpair).1
    have hnone := fun pair hpair => (hrepeated pair hpair).2
    have hnodup := (((hliteral repeated rfl rfl hkeys).1 hnone t).mp ht).1
    exact absurd hnodup (by decide)
  · intro t ht
    obtain ⟨ts, hts, ht⟩ := hnode t ht
    exact ⟨ts, hts.length_eq.symm, ht⟩
  · unfold IsKey
    decide

end Command

end Reql
