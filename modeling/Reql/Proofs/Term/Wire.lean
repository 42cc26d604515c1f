/-
# `Reql.Proofs.Term.Wire` — the wire tells terms apart

The text of a valid term whose numbers are all finite determines the term
(`wire_eq_wire_iff`): operations, arguments, options and literals, down to the sign of a zero.
Texts are told apart as documents, so what is left is that different terms have different
documents.  A node without arguments or options leaves the member out, and a literal has no
mark of its own besides its operation, which is where validity is needed.
-/
import Reql.Term.Wire
import Reql.Proofs.Json.Compact
import Reql.Proofs.Term.Nodes

namespace Reql

/-! ## Operations -/

/-- The number of an operation leads back to it. -/
theorem Operation.ofCode?_code (op : Operation) : Operation.ofCode? op.code = some op := by
  cases op <;> rfl

theorem Operation.code_injective {op op' : Operation} (h : op.code = op'.code) : op = op' := by
  have hcode := Operation.ofCode?_code op
  rw [h, Operation.ofCode?_code op'] at hcode
  exact (Option.some.inj hcode).symm

/-! ## Literals -/

namespace Datum

mutual

/-- All numbers of the literal are finite. -/
def Finite : Datum → Prop
  | .null | .bool _ | .string _ => True
  | .number value => value.isFinite = true
  | .array items => FiniteItems items
  | .object fields => FiniteFields fields

def FiniteItems : List Datum → Prop
  | [] => True
  | item :: rest => item.Finite ∧ FiniteItems rest

def FiniteFields : List (String × Datum) → Prop
  | [] => True
  | (_, value) :: rest => value.Finite ∧ FiniteFields rest

end

mutual

/-- A document never holds a number that is not finite. -/
theorem finite_toJson : ∀ d : Datum, d.toJson.Finite
  | .null | .bool _ | .string _ => by
      rw [toJson, Json.Finite]
      trivial
  | .number value => by
      rw [toJson, Json.double]
      split
      next h => rwa [Json.Finite]
      next => rw [Json.Finite]; trivial
  | .array items => by
      rw [toJson, Json.Finite]
      exact finite_toJsonItems items
  | .object fields => by
      rw [toJson, Json.Finite]
      exact finite_toJsonFields fields

theorem finite_toJsonItems : ∀ items : List Datum, Json.FiniteItems (toJsonItems items)
  | [] => by
      rw [toJsonItems, Json.FiniteItems]
      trivial
  | item :: rest => by
      rw [toJsonItems, Json.FiniteItems]
      exact ⟨finite_toJson item, finite_toJsonItems rest⟩

theorem finite_toJsonFields :
    ∀ fields : List (String × Datum), Json.FiniteMembers (toJsonFields fields)
  | [] => by
      rw [toJsonFields, Json.FiniteMembers]
      trivial
  | (_, value) :: rest => by
      rw [toJsonFields, Json.FiniteMembers]
      exact ⟨finite_toJson value, finite_toJsonFields rest⟩

end

theorem toJson_number {x : Double} (h : (Datum.number x).Finite) :
    (Datum.number x).toJson = .number (.double x) := by
  rw [Finite] at h
  rw [toJson, Json.double, if_pos h]

mutual

theorem toJson_injective : ∀ {d e : Datum}, d.Finite → e.Finite → d.toJson = e.toJson → d = e
  | .null, e, _, he, h => by
      cases e with
      | null => rfl
      | number y => exact nomatch h.trans (toJson_number he)
      | _ => exact nomatch h
  | .bool a, e, _, he, h => by
      cases e with
      | bool b => rw [Json.bool.inj h]
      | number y => exact nomatch h.trans (toJson_number he)
      | _ => exact nomatch h
  | .number x, e, hd, he, h => by
      rw [toJson_number hd] at h
      cases e with
      | number y =>
          rw [toJson_number he] at h
          rw [Json.Number.double.inj (Json.number.inj h)]
      | _ => exact nomatch h
  | .string a, e, _, he, h => by
      cases e with
      | string b => rw [Json.string.inj h]
      | number y => exact nomatch h.trans (toJson_number he)
      | _ => exact nomatch h
  | .array as, e, hd, he, h => by
      cases e with
      | array bs =>
          rw [Finite] at hd he
          rw [toJsonItems_injective hd he (Json.array.inj h)]
      | number y => exact nomatch h.trans (toJson_number he)
      | _ => exact nomatch h
  | .object as, e, hd, he, h => by
      cases e with
      | object bs =>
          rw [Finite] at hd he
          rw [toJsonFields_injective hd he (Json.object.inj h)]
      | number y => exact nomatch h.trans (toJson_number he)
      | _ => exact nomatch h

theorem toJsonItems_injective : ∀ {as bs : List Datum}, FiniteItems as → FiniteItems bs →
    toJsonItems as = toJsonItems bs → as = bs
  | [], [], _, _, _ => rfl
  | [], _ :: _, _, _, h => nomatch h
  | _ :: _, [], _, _, h => nomatch h
  | a :: as, b :: bs, has, hbs, h => by
      rw [FiniteItems] at has hbs
      rw [toJsonItems, toJsonItems] at h
      obtain ⟨hfirst, hrest⟩ := List.cons.inj h
      rw [toJson_injective has.1 hbs.1 hfirst, toJsonItems_injective has.2 hbs.2 hrest]

theorem toJsonFields_injective : ∀ {as bs : List (String × Datum)}, FiniteFields as →
    FiniteFields bs → toJsonFields as = toJsonFields bs → as = bs
  | [], [], _, _, _ => rfl
  | [], (_, _) :: _, _, _, h => nomatch h
  | (_, _) :: _, [], _, _, h => nomatch h
  | (key, a) :: as, (key', b) :: bs, has, hbs, h => by
      rw [FiniteFields] at has hbs
      rw [toJsonFields, toJsonFields] at h
      obtain ⟨hfirst, hrest⟩ := List.cons.inj h
      obtain ⟨rfl, hvalue⟩ := Prod.mk.inj hfirst
      rw [toJson_injective has.1 hbs.1 hvalue, toJsonFields_injective has.2 hbs.2 hrest]

end

end Datum

/-! ## Terms -/

namespace Term

/-- All numbers of the term's literals are finite. -/
def Finite (t : Term) : Prop := t.Everywhere fun u => ∀ value ∈ u.datum?, value.Finite

theorem finite_literal_iff {value : Datum} : (literal value).Finite ↔ value.Finite := by
  constructor
  · rintro ⟨hroot, -, -⟩
    exact hroot value rfl
  · intro h
    refine .node ?_ (List.forall_mem_nil _) (List.forall_mem_nil _)
    intro value' hvalue
    obtain rfl := Option.some.inj hvalue
    exact h

theorem finite_apply_iff {op : Operation} {args : List Term} {options : List (String × Term)} :
    (apply op args options).Finite ↔ (∀ t ∈ args, t.Finite) ∧ ∀ u ∈ options, u.2.Finite := by
  constructor
  · rintro ⟨-, hargs, hoptions⟩
    exact ⟨hargs, hoptions⟩
  · rintro ⟨hargs, hoptions⟩
    exact .node nofun hargs hoptions

theorem isEmpty_toJsonArgs (ts : List Term) : (toJsonArgs ts).isEmpty = ts.isEmpty := by
  cases ts <;> rfl

theorem isEmpty_toJsonOptions (us : List (String × Term)) :
    (toJsonOptions us).isEmpty = us.isEmpty := by
  cases us <;> rfl

/-- The members of a node besides its operation. -/
def partMembers (args : List Json) (options : List (String × Json)) : List (String × Json) :=
  memberUnless args.isEmpty "args" (.array args)
    ++ memberUnless options.isEmpty "optargs" (.object options)

theorem toJson_literal (value : Datum) : (literal value).toJson =
    .object [("term_type", .int Operation.datum.code), ("datum", value.toJson)] := by
  rw [toJson]

theorem toJson_apply (op : Operation) (args : List Term) (options : List (String × Term)) :
    (apply op args options).toJson =
      .object (("term_type", .int op.code)
        :: partMembers (toJsonArgs args) (toJsonOptions options)) := by
  rw [toJson, partMembers, isEmpty_toJsonArgs, isEmpty_toJsonOptions]

theorem partMembers_injective {as bs : List Json} {os ps : List (String × Json)}
    (h : partMembers as os = partMembers bs ps) : as = bs ∧ os = ps := by
  cases as <;> cases bs <;> cases os <;> cases ps <;> simp_all [partMembers, memberUnless]

theorem code_eq {op op' : Operation} {ms ms' : List (String × Json)}
    (h : Json.object (("term_type", .int op.code) :: ms) =
      .object (("term_type", .int op'.code) :: ms')) : op = op' ∧ ms = ms' := by
  obtain ⟨hcode, hms⟩ := List.cons.inj (Json.object.inj h)
  have hnat := Json.Number.int.inj (Json.number.inj (Prod.mk.inj hcode).2)
  exact ⟨Operation.code_injective (Int.ofNat.inj hnat), hms⟩

/-- What the wire can carry: a valid term with finite numbers. -/
def Sendable (t : Term) : Prop := t.Valid ∧ t.Finite

theorem sendable_apply {op : Operation} {args : List Term} {options : List (String × Term)}
    (h : (apply op args options).Sendable) :
    op ≠ .datum ∧ (∀ t ∈ args, t.Sendable) ∧ ∀ u ∈ options, u.2.Sendable := by
  obtain ⟨hvalid, hfinite⟩ := h
  obtain ⟨hop, hargs, hoptions⟩ := valid_apply_iff.mp hvalid
  obtain ⟨hargs', hoptions'⟩ := finite_apply_iff.mp hfinite
  exact ⟨hop, fun t ht => ⟨hargs t ht, hargs' t ht⟩, fun u hu => ⟨hoptions u hu, hoptions' u hu⟩⟩

mutual

/-- Different terms have different documents. -/
theorem toJson_injective : ∀ {t u : Term}, t.Sendable → u.Sendable → t.toJson = u.toJson → t = u
  | .literal v, .literal w, ht, hu, h => by
      rw [toJson_literal, toJson_literal] at h
      obtain ⟨hvalue, -⟩ := List.cons.inj (code_eq h).2
      rw [Datum.toJson_injective (finite_literal_iff.mp ht.2) (finite_literal_iff.mp hu.2)
        (Prod.mk.inj hvalue).2]
  | .literal v, .apply op args options, _, hu, h => by
      rw [toJson_literal, toJson_apply] at h
      exact absurd (code_eq h).1.symm (sendable_apply hu).1
  | .apply op args options, .literal w, ht, _, h => by
      rw [toJson_literal, toJson_apply] at h
      exact absurd (code_eq h).1 (sendable_apply ht).1
  | .apply op args options, .apply op' args' options', ht, hu, h => by
      obtain ⟨-, hargs, hoptions⟩ := sendable_apply ht
      obtain ⟨-, hargs', hoptions'⟩ := sendable_apply hu
      rw [toJson_apply, toJson_apply] at h
      obtain ⟨rfl, hmembers⟩ := code_eq h
      obtain ⟨hdocs, hdocs'⟩ := partMembers_injective hmembers
      rw [toJsonArgs_injective hargs hargs' hdocs,
        toJsonOptions_injective hoptions hoptions' hdocs']

theorem toJsonArgs_injective : ∀ {ts us : List Term}, (∀ t ∈ ts, t.Sendable) →
    (∀ u ∈ us, u.Sendable) → toJsonArgs ts = toJsonArgs us → ts = us
  | [], [], _, _, _ => rfl
  | [], _ :: _, _, _, h => nomatch h
  | _ :: _, [], _, _, h => nomatch h
  | t :: ts, u :: us, hts, hus, h => by
      obtain ⟨ht, hlater⟩ := List.forall_mem_cons.mp hts
      obtain ⟨hu, hlater'⟩ := List.forall_mem_cons.mp hus
      rw [toJsonArgs, toJsonArgs] at h
      obtain ⟨hfirst, hrest⟩ := List.cons.inj h
      rw [toJson_injective ht hu hfirst, toJsonArgs_injective hlater hlater' hrest]

theorem toJsonOptions_injective : ∀ {ts us : List (String × Term)}, (∀ t ∈ ts, t.2.Sendable) →
    (∀ u ∈ us, u.2.Sendable) → toJsonOptions ts = toJsonOptions us → ts = us
  | [], [], _, _, _ => rfl
  | [], (_, _) :: _, _, _, h => nomatch h
  | (_, _) :: _, [], _, _, h => nomatch h
  | (name, t) :: ts, (name', u) :: us, hts, hus, h => by
      obtain ⟨ht, hlater⟩ := List.forall_mem_cons.mp hts
      obtain ⟨hu, hlater'⟩ := List.forall_mem_cons.mp hus
      rw [toJsonOptions, toJsonOptions] at h
      obtain ⟨hfirst, hrest⟩ := List.cons.inj h
      obtain ⟨rfl, hdoc⟩ := Prod.mk.inj hfirst
      have hterm : t = u := toJson_injective ht hu hdoc
      rw [hterm, toJsonOptions_injective hlater hlater' hrest]

end

/-! ## The wire -/

mutual

theorem finite_toJson : ∀ t : Term, t.toJson.Finite
  | .literal value => by
      rw [toJson_literal, Json.Finite, Json.finiteMembers_iff]
      refine List.forall_mem_cons.mpr ⟨trivial, List.forall_mem_singleton.mpr ?_⟩
      exact Datum.finite_toJson value
  | .apply op args options => by
      have hargs : (Json.array (toJsonArgs args)).Finite := by
        rw [Json.Finite]
        exact finite_toJsonArgs args
      have hoptions : (Json.object (toJsonOptions options)).Finite := by
        rw [Json.Finite]
        exact finite_toJsonOptions options
      have hunless {empty : Bool} {name : String} {x : Json} (hx : x.Finite) :
          ∀ m ∈ memberUnless empty name x, m.2.Finite := by
        cases empty with
        | true => exact List.forall_mem_nil _
        | false => exact List.forall_mem_singleton.mpr hx
      rw [toJson_apply, Json.Finite, Json.finiteMembers_iff]
      exact List.forall_mem_cons.mpr
        ⟨trivial, List.forall_mem_append.mpr ⟨hunless hargs, hunless hoptions⟩⟩

theorem finite_toJsonArgs : ∀ ts : List Term, Json.FiniteItems (toJsonArgs ts)
  | [] => by
      rw [toJsonArgs, Json.FiniteItems]
      trivial
  | t :: rest => by
      rw [toJsonArgs, Json.FiniteItems]
      exact ⟨finite_toJson t, finite_toJsonArgs rest⟩

theorem finite_toJsonOptions :
    ∀ us : List (String × Term), Json.FiniteMembers (toJsonOptions us)
  | [] => by
      rw [toJsonOptions, Json.FiniteMembers]
      trivial
  | (_, t) :: rest => by
      rw [toJsonOptions, Json.FiniteMembers]
      exact ⟨finite_toJson t, finite_toJsonOptions rest⟩

end

/-- The wire tells valid terms with finite numbers apart. -/
theorem wire_eq_wire_iff {t u : Term} (ht : t.Valid) (hu : u.Valid) (htf : t.Finite)
    (huf : u.Finite) : t.wire = u.wire ↔ t = u := by
  constructor
  · intro h
    exact toJson_injective ⟨ht, htf⟩ ⟨hu, huf⟩
      (Json.compact_injective (finite_toJson t) (finite_toJson u) h)
  · rintro rfl
    rfl

/-- The two zeros stay apart on the wire. -/
theorem wire_eq_wire_iff_zero :
    (apply .not [literal (.number (.zero false))] []).wire ≠
      (apply .not [literal (.number (.zero true))] []).wire := by
  have hvalid (negative : Bool) : (apply .not [literal (.number (.zero negative))] []).Valid :=
    valid_apply_iff.mpr ⟨by decide, List.forall_mem_singleton.mpr (valid_literal _),
      List.forall_mem_nil _⟩
  have hfinite (negative : Bool) : (apply .not [literal (.number (.zero negative))] []).Finite := by
    refine finite_apply_iff.mpr ⟨List.forall_mem_singleton.mpr ?_, List.forall_mem_nil _⟩
    rw [finite_literal_iff, Datum.Finite]
    rfl
  intro h
  have hterms := (wire_eq_wire_iff (hvalid false) (hvalid true) (hfinite false)
    (hfinite true)).mp h
  simp [Double.zero] at hterms

end Term

end Reql
