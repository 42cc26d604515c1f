/-
# `Reql.Proofs.Command.Scoped` — a database in front changes nothing else

Commands for tables may be given a database in front of their arguments.  The database is taken
off, the rest is checked as if it had not been there, and the database is put back.  So nothing
about the rest depends on it, not even the position of an argument in an error: the invocation
comes to the same, with one more child in front (`construct_inDatabase`).

One that starts with a database itself is left out.  There the second database would be an
argument, and a string check admits a term that is known only later.
-/
import Reql.Proofs.Command.Replicas

namespace Reql

/-- The same node with a child in front of the others. -/
def Term.withFirst (u t : Term) : Term := .apply t.operation (u :: t.args) t.options

namespace Normalizer

variable {n : Normalizer}

theorem normalizeItems_term_cons (depth : Nat) (u : Term) (vs : List Value) :
    normalizeItems depth (.term u :: vs) = (normalizeItems depth vs).map (u :: ·) := by
  rw [normalizeItems, normalizeAt_term]
  cases normalizeItems depth vs <;> rfl

theorem build_cons (op : Operation) (u : Term) (ts : List Term) (us : List (String × Term)) :
    Term.Builder.build ⟨op, u :: ts, us⟩ =
      (Term.Builder.build ⟨op, ts, us⟩).map (Term.withFirst u) := by
  unfold Term.Builder.build
  split
  · rfl
  · simp only
    cases Fields.firstRepeated? (us.map Prod.fst) <;> rfl

/-- A term has its own term, so in front of the arguments it is only carried along. -/
theorem createTerm_term_cons (op : Operation) (u : Term) (args : List Value) (options : Options) :
    n.createTerm op (.term u :: args) options =
      (n.createTerm op args options).map (Term.withFirst u) := by
  rw [createTerm, createTerm, normalizeItems_term_cons]
  cases normalizeItems n.depth args with
  | error e => rfl
  | ok ts =>
      cases normalizeFields n.depth options with
      | error e => rfl
      | ok us => exact build_cons op u ts us

end Normalizer

namespace Command

variable {c : Command} {n : Normalizer} {db : Term} {args : List Value} {options : Options}

/-- The first argument is a database. -/
def StartsWithDatabase (args : List Value) : Prop :=
  ∃ db rest, args = .term db :: rest ∧ db.is .db = true

theorem splitDatabase_cons (hdb : db.is .db = true) :
    splitDatabase (.term db :: args) = ([.term db], args) := if_pos hdb

theorem splitDatabase_of_not (h : ¬ StartsWithDatabase args) : splitDatabase args = ([], args) := by
  cases args with
  | nil => rfl
  | cons v rest =>
      refine if_neg ?_
      intro hkind
      cases v with
      | term db => exact h ⟨db, rest, rfl, hkind⟩
      | null | bool _ | number _ | string _ | array _ | object _ => exact nomatch hkind

/-- The database is split off before anything is checked. -/
theorem constructScoped_eq {database own : List Value} (h : splitDatabase args = (database, own)) :
    c.constructScoped n args options = (do
      c.validateArgs own
      c.validateOptions options
      n.createTerm c.operation (database ++ own) options) := by
  rw [constructScoped, h]

theorem constructScoped_inDatabase (hdb : db.is .db = true) (h : ¬ StartsWithDatabase args) :
    c.constructScoped n (.term db :: args) options =
      (c.constructScoped n args options).map (Term.withFirst db) := by
  rw [constructScoped_eq (splitDatabase_cons hdb), constructScoped_eq (splitDatabase_of_not h)]
  cases c.validateArgs args with
  | error e => rfl
  | ok _ =>
      cases c.validateOptions options with
      | error e => rfl
      | ok _ => exact Normalizer.createTerm_term_cons c.operation db args options

/-- The coupling of replicas looks at no argument. -/
theorem constructTableCreate_inDatabase (hdb : db.is .db = true) (h : ¬ StartsWithDatabase args) :
    c.constructTableCreate n (.term db :: args) options =
      (c.constructTableCreate n args options).map (Term.withFirst db) := by
  rw [constructTableCreate, constructTableCreate, constructScoped_inDatabase hdb h]
  cases c.validateReplicas options <;> rfl

theorem assembly_of_mem_scopedNames {name : String} (hc : Catalogue.find? name = some c)
    (hname : name ∈ scopedNames) : c.assembly = .scoped ∨ c.assembly = .tableCreate := by
  have hself : c.name = name := by simpa using List.find?_some hc
  have hregular := catalogue_regular c (List.mem_of_find?_eq_some hc)
  exact hregular.described.mp (hself ▸ hname)

/-- A command for tables makes the same of its arguments in a given database as without one, with
the database as the first child, and has the same errors. -/
theorem construct_inDatabase {name : String} (hc : Catalogue.find? name = some c)
    (hname : name ∈ scopedNames) (n : Normalizer) (hdb : db.is .db = true)
    (h : ¬ StartsWithDatabase args) (options : Options) :
    (∀ t, c.construct n args options = .ok t →
        c.construct n (.term db :: args) options =
          .ok (.apply t.operation (db :: t.args) t.options)) ∧
      ∀ e, c.construct n args options = .error e →
        c.construct n (.term db :: args) options = .error e := by
  have hsame : c.construct n (.term db :: args) options =
      (c.construct n args options).map (Term.withFirst db) := by
    rcases assembly_of_mem_scopedNames hc hname with hassembly | hassembly
    · rw [construct, construct, hassembly]
      exact constructScoped_inDatabase hdb h
    · rw [construct, construct, hassembly]
      exact constructTableCreate_inDatabase hdb h
  constructor
  · intro t ht
    rw [hsame, ht]
    rfl
  · intro e he
    rw [hsame, he]
    rfl

/-- The table is still the first argument where an error says that it is no string. -/
theorem construct_inDatabase_grant :
    let grant : Command := { name := "grant", operation := .grant, required := [.string, .object],
                             assembly := .scoped }
    let db : Term := .apply .db [.literal (.string "shop")] []
    let rights : Value := .object [("read", .bool true)]
    grant.construct default [.term db, .string "ada", rights] [] =
        .ok (.apply .grant [db, .literal (.string "ada"),
          .apply .makeObj [] [("read", .literal (.bool true))]] []) ∧
      grant.construct default [.term db, .null, rights] [] =
        .error (.mustBe "grant" (.argument 1) "string" "null") := by
  intro grant db rights
  have hgrant : Catalogue.find? "grant" = some grant := by decide +kernel
  have hstart (v : Value) (hv : v.isOfKind .db = false) : ¬ StartsWithDatabase [v, rights] := by
    rintro ⟨other, rest, heq, hother⟩
    obtain ⟨rfl, -⟩ := List.cons.inj heq
    exact nomatch hother.symm.trans hv
  have hdb : db.is .db = true := rfl
  have hname : "grant" ∈ scopedNames := by decide
  have hgood := construct_inDatabase hgrant hname default hdb (hstart (.string "ada") rfl) []
  have hwrong := construct_inDatabase hgrant hname default hdb (hstart .null rfl) []
  exact ⟨hgood.1 _ rfl, hwrong.2 _ rfl⟩

end Command

end Reql
