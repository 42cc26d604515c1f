/-
# `Reql.Proofs.Command.Replicas` — options that depend on each other

A table is created with a number of replicas, or with numbers of replicas by server tag.  The
latter need the tag of the primary, and that tag is given only together with replicas
(`Coupled`).  This is looked into before anything else is checked, and of the first option of
each name.  As a name that comes twice is refused later on, no other is left to look at
(`validateReplicas_eq_ok_iff`).

With this the command makes a term of exactly the invocations that pass its checks, apart from a
database in front, and whose options are coupled (`construct_tableCreate`).
-/
import Reql.Proofs.Command.Declared
import Reql.Proofs.Shape

namespace Reql.Command

variable {c : Command} {n : Normalizer} {args : List Value} {options : Options}

/-! ## Replicas and the tag of the primary -/

/-- Which replicas go with which tag. -/
inductive Coupled (options : Options) : Prop where
  | neither : "replicas" ∉ options.map Prod.fst →
      "primary_replica_tag" ∉ options.map Prod.fst → Coupled options
  | count {replicas : Value} : ("replicas", replicas) ∈ options →
      replicas.isInteger = true ∨ replicas.isDeferred = true → Coupled options
  | byTag {replicas : Value} : ("replicas", replicas) ∈ options →
      replicas.isObject = true → "primary_replica_tag" ∈ options.map Prod.fst → Coupled options

theorem isObject_eq_false_of_count {v : Value} (h : v.isInteger = true ∨ v.isDeferred = true) :
    v.isObject = false := by
  refine Bool.eq_false_iff.mpr ?_
  intro hobject
  rcases h with hinteger | hdeferred
  · have hnumber : v.isNumber = true := Value.isNumber_of_isInteger hinteger
    exact nomatch (Value.eq_of_hasShape hobject hnumber : Shape.object = .number)
  · exact nomatch (Value.eq_of_hasShape hobject hdeferred : Shape.object = .deferred)

theorem validateReplicas_of_count {replicas : Value} (hget : options.lookup "replicas" = some replicas)
    (h : replicas.isInteger = true ∨ replicas.isDeferred = true) :
    c.validateReplicas options = .ok () := by
  have hobject := isObject_eq_false_of_count h
  rcases h with hinteger | hdeferred
  · simp [validateReplicas, hget, hobject, hinteger]
  · simp [validateReplicas, hget, hobject, hdeferred]

/-- If no name comes twice, the options are refused unless they are coupled. -/
theorem validateReplicas_eq_ok_iff (hnames : (options.map Prod.fst).Nodup) :
    c.validateReplicas options = .ok () ↔ Coupled options := by
  -- The coupling is decided on the first option of a name.  Here that is the only one.
  have hgiven : ∀ v, options.lookup "replicas" = some v ↔ ("replicas", v) ∈ options :=
    fun v => Fields.get?_eq_some_iff_mem hnames
  have htagged : (options.any fun option => option.1 == "primary_replica_tag") = true ↔
      "primary_replica_tag" ∈ options.map Prod.fst := by
    simp
  constructor
  · intro h
    unfold validateReplicas at h
    cases hget : options.lookup "replicas" with
    | none =>
        simp only [hget] at h
        split at h
        · exact nomatch h
        · next htag =>
            refine .neither ?_ (mt htagged.mpr htag)
            intro hmem
            obtain ⟨⟨_, v⟩, hv, rfl⟩ := List.mem_map.mp hmem
            exact nomatch hget.symm.trans ((hgiven v).mpr hv)
    | some replicas =>
        have hmem := (hgiven replicas).mp hget
        simp only [hget] at h
        split at h
        · exact nomatch h
        · next htag =>
            split at h
            · next hkind =>
                simp only [Bool.or_eq_true] at hkind
                rcases hkind with (hinteger | hobject) | hdeferred
                · exact .count hmem (.inl hinteger)
                · refine .byTag hmem hobject (htagged.mp ?_)
                  simpa [hobject] using htag
                · exact .count hmem (.inr hdeferred)
            · exact nomatch h
  · intro h
    cases h with
    | neither hreplicas htag =>
        have hnone : options.lookup "replicas" = none := by
          cases hget : options.lookup "replicas" with
          | none => rfl
          | some v => exact absurd (List.mem_map_of_mem ((hgiven v).mp hget)) hreplicas
        simp [validateReplicas, hnone, mt htagged.mp htag]
    | count hmem hkind => exact validateReplicas_of_count ((hgiven _).mpr hmem) hkind
    | byTag hmem hobject htag =>
        simp [validateReplicas, (hgiven _).mpr hmem, hobject, htagged.mpr htag]

/-! ## The database in front -/

/-- The arguments without a database in front of them. -/
def afterDatabase (args : List Value) : List Value :=
  if args.head?.any (·.isOfKind .db) then args.tail else args

theorem splitDatabase_snd (args : List Value) : (splitDatabase args).2 = afterDatabase args := by
  cases args with
  | nil => rfl
  | cons v rest =>
      rw [splitDatabase, afterDatabase, List.head?_cons, Option.any_some]
      split <;> rfl

/-! ## Creating a table -/

theorem exists_constructTableCreate_iff :
    (∃ t, c.constructTableCreate n args options = .ok t) ↔
      c.AsDeclared (afterDatabase args) options ∧ Coupled options ∧
        ∃ t, n.createTerm c.operation args options = .ok t := by
  rw [asDeclared_iff]
  simp only [constructTableCreate, check_bind_eq_ok_iff, constructScoped_eq_ok_iff,
    splitDatabase_snd]
  constructor
  · rintro ⟨t, hreplicas, htakes, hoptions, hmade⟩
    have hcoupled := (validateReplicas_eq_ok_iff hoptions.once).mp hreplicas
    exact ⟨⟨htakes, hoptions⟩, hcoupled, t, hmade⟩
  · rintro ⟨⟨htakes, hoptions⟩, hcoupled, t, hmade⟩
    exact ⟨t, (validateReplicas_eq_ok_iff hoptions.once).mpr hcoupled, htakes, hoptions, hmade⟩

theorem assembly_tableCreate (hc : Catalogue.find? "table_create" = some c) :
    c.assembly = .tableCreate ∧ c.operation = .tableCreate := by
  have hfind : Catalogue.find? "table_create" =
      some { name := "table_create", operation := .tableCreate, required := [.string],
             options := Catalogue.tableCreateOptions, assembly := .tableCreate } := by
    decide +kernel
  obtain rfl := Option.some.inj (hfind.symm.trans hc)
  exact ⟨rfl, rfl⟩

/-- What a table is created from: arguments after a database, and options, that are as declared, a
term for each of them, and coupled options for the replicas. -/
structure Creates (c : Command) (n : Normalizer) (args : List Value) (options : Options) :
    Prop where
  declared : c.AsDeclared (afterDatabase args) options
  argTerm : ∀ v ∈ args, ∃ u, n.normalize v = .ok u
  optionTerm : ∀ option ∈ options, ∃ u, n.normalize option.2 = .ok u
  coupled : Coupled options

theorem creates_iff (hop : c.operation ≠ .datum) :
    c.Creates n args options ↔ c.AsDeclared (afterDatabase args) options ∧ Coupled options ∧
      ∃ t, n.createTerm c.operation args options = .ok t := by
  rw [Normalizer.exists_createTerm_iff]
  constructor
  · rintro ⟨hdeclared, hargs, hoptions, hcoupled⟩
    exact ⟨hdeclared, hcoupled, hop, hdeclared.once, hargs, hoptions⟩
  · rintro ⟨hdeclared, hcoupled, -, -, hargs, hoptions⟩
    exact ⟨hdeclared, hargs, hoptions, hcoupled⟩

/-- A table is created exactly from what the declaration and the coupling of its options allow.
Anything else is an error. -/
theorem construct_tableCreate (hc : Catalogue.find? "table_create" = some c) (n : Normalizer)
    (args : List Value) (options : Options) :
    ((∃ t, c.construct n args options = .ok t) ↔ c.Creates n args options) ∧
      (¬ c.Creates n args options → ∃ e, c.construct n args options = .error e) := by
  obtain ⟨hassembly, hoperation⟩ := assembly_tableCreate hc
  have hconstruct : c.construct n args options = c.constructTableCreate n args options := by
    rw [construct, hassembly]
  have hcreates : (∃ t, c.construct n args options = .ok t) ↔ c.Creates n args options := by
    rw [hconstruct, exists_constructTableCreate_iff, creates_iff (by rw [hoperation]; decide)]
  refine ⟨hcreates, ?_⟩
  intro hnot
  rwa [← hcreates, ← isOk_iff, not_isOk_iff] at hnot

/-- In a database, replicas by tag make a table with the tag of the primary and an error without. -/
theorem construct_tableCreate_byTag :
    let create : Command := { name := "table_create", operation := .tableCreate,
                              required := [.string], options := Catalogue.tableCreateOptions,
                              assembly := .tableCreate }
    let args : List Value := [.term (.apply .db [.literal (.string "shop")] []), .string "orders"]
    let replicas : String × Value := ("replicas", .object [("east", .number (Double.ofNat 2))])
    let tag : String × Value := ("primary_replica_tag", .string "east")
    create.Creates default args [tag, replicas] ∧
      (∃ t, create.construct default args [tag, replicas] = .ok t) ∧
      ∃ e, create.construct default args [replicas] = .error e := by
  intro create args replicas tag
  have hcreate : Catalogue.find? "table_create" = some create := by decide +kernel
  obtain ⟨htagged, -⟩ := construct_tableCreate hcreate default args [tag, replicas]
  obtain ⟨-, huntagged⟩ := construct_tableCreate hcreate default args [replicas]
  have hmade : ∃ t, create.construct default args [tag, replicas] = .ok t :=
    isOk_iff.mp (by decide +kernel)
  refine ⟨htagged.mp hmade, hmade, huntagged ?_⟩
  intro hcreates
  cases hcreates.coupled with
  | neither hreplicas _ => exact hreplicas (.head _)
  | count hmem hkind =>
      obtain ⟨-, rfl⟩ := Prod.mk.inj (List.mem_singleton.mp hmem)
      exact absurd hkind (by decide)
  | byTag _ _ htag => exact absurd htag (by decide)

end Reql.Command
