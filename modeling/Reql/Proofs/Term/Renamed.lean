/-
# `Reql.Proofs.Term.Renamed` — terms that differ in the numbers of parameters

`Term.Renamed allowed R t u` says that `u` is `t` with other numbers in `VAR` nodes and
in the parameter lists of `FUNC` nodes, related to the old numbers by `R`.  All other
nodes are the same on both sides and have operations that are `allowed`.

No command can tell the two apart: `exchange_renamed` is what `Command.Exchange` asks
for.  `R` is any relation here, nothing depends on its being one-to-one.
-/
import Reql.Function
import Reql.Proofs.Command.Agreement
import Reql.Proofs.Double.Naturals

namespace Reql

/-- The same term up to the numbers of parameters. -/
inductive Term.Renamed (allowed : Operation → Prop) (R : Nat → Nat → Prop) :
    Term → Term → Prop where
  | literal (value : Datum) : Renamed allowed R (.literal value) (.literal value)
  | var {id id' : Nat} : R id id' → Renamed allowed R (.var id) (.var id')
  | func {ids ids' : List Nat} {body body' : Term} : List.Forall₂ R ids ids' →
      Renamed allowed R body body' → Renamed allowed R (.func ids body) (.func ids' body')
  | apply {op : Operation} {ts us : List Term} {options options' : List (String × Term)} :
      allowed op → List.Forall₂ (Renamed allowed R) ts us →
      Named (Renamed allowed R) options options' →
      Renamed allowed R (.apply op ts options) (.apply op us options')

/-- The same value up to the numbers of parameters in terms. -/
inductive Value.Renamed (allowed : Operation → Prop) (R : Nat → Nat → Prop) :
    Value → Value → Prop where
  | null : Renamed allowed R .null .null
  | bool (value : Bool) : Renamed allowed R (.bool value) (.bool value)
  | number (value : Double) : Renamed allowed R (.number value) (.number value)
  | string (value : String) : Renamed allowed R (.string value) (.string value)
  | array {vs ws : List Value} : List.Forall₂ (Renamed allowed R) vs ws →
      Renamed allowed R (.array vs) (.array ws)
  | object {fields fields' : List (String × Value)} : Named (Renamed allowed R) fields fields' →
      Renamed allowed R (.object fields) (.object fields')
  | term {t u : Term} : Term.Renamed allowed R t u → Renamed allowed R (.term t) (.term u)

variable {allowed : Operation → Prop} {R : Nat → Nat → Prop}

/-- As long as they are exact, different numbers are different literals. -/
theorem Term.ofId_injective {m n : Nat} (hm : m < 2 ^ 53) (hn : n < 2 ^ 53)
    (h : ofId m = ofId n) : m = n := by
  have hbits : 2 ^ 53 ≤ UInt64.size := by decide
  rw [ofId, ofId, Nat.mod_eq_of_lt (hm.trans_le hbits), Nat.mod_eq_of_lt (hn.trans_le hbits)] at h
  injection h with h
  injection h with h
  exact Double.ofNat_injective hm hn h

/-! ## Questions about terms -/

namespace Term

/-- How many parameters a list of parameters has. -/
def declared? : Term → Option Nat
  | .literal (.array ids) => some ids.length
  | .apply .makeArray ids _ => some ids.length
  | _ => none

theorem declared?_apply (op : Operation) (args : List Term) (options : List (String × Term)) :
    declared? (.apply op args options) = if op = .makeArray then some args.length else none := by
  unfold declared?
  split
  · next h => simp at h
  · next h =>
      obtain ⟨rfl, rfl, -⟩ := Term.apply.inj h
      rfl
  · next h =>
      rw [if_neg]
      rintro rfl
      exact h args options rfl

theorem arity?_apply (op : Operation) (args : List Term) (options : List (String × Term)) :
    arity? (.apply op args options) = if op = .func then args.head?.bind declared? else none := by
  by_cases hop : op = .func
  · subst hop
    rw [if_pos rfl]
    unfold arity? declared?
    rcases args with - | ⟨head, rest⟩
    · rfl
    · simp only [List.head?_cons, Option.bind_some]
      split <;> simp_all
  · rw [if_neg hop]
    unfold arity?
    split <;> simp_all

namespace Renamed

variable {t u : Term} (h : t.Renamed allowed R u)

include h

theorem is_eq (op : Operation) : t.is op = u.is op := by
  cases h with
  | literal => rfl
  | var _ => simp [Term.var, is, operation]
  | func _ _ => simp [Term.func, is, operation]
  | apply _ _ _ => rfl

theorem isLiteral_eq : t.isLiteral = u.isLiteral := by
  cases h with
  | literal => rfl
  | var _ => simp [Term.var, isLiteral, datum?]
  | func _ _ => simp [Term.func, isLiteral, datum?]
  | apply _ _ _ => rfl

theorem declared?_eq : t.declared? = u.declared? := by
  cases h with
  | literal => rfl
  | var _ => simp [Term.var, declared?_apply]
  | func _ _ => simp [Term.func, declared?_apply]
  | apply _ hts _ => rw [declared?_apply, declared?_apply, hts.length_eq]

theorem arity?_eq : t.arity? = u.arity? := by
  cases h with
  | literal => rfl
  | var _ => simp [Term.var, arity?_apply]
  | func hids _ => simp [Term.func, arity?_apply, declared?_apply, hids.length_eq]
  | apply _ hts _ =>
      rw [arity?_apply, arity?_apply]
      cases hts with
      | nil => rfl
      | cons hhead _ => simp only [List.head?_cons, Option.bind_some, hhead.declared?_eq]

end Renamed

theorem isPath_apply (op : Operation) (args : List Term) (options : List (String × Term)) :
    isPath (.apply op args options) =
      if op = .makeArray then !args.isEmpty && allPaths args
      else if op = .makeObj then !options.isEmpty && allPathOptions options
      else false := by
  unfold isPath
  split <;> simp_all

theorem Renamed.isBoolean_eq {t u : Term} (h : t.Renamed allowed R u) :
    (Value.term t).isBoolean = (Value.term u).isBoolean := by
  cases h with
  | literal => rfl
  | var _ => simp [Term.var, Value.isBoolean, Value.datum?, Value.term?, datum?]
  | func _ _ => simp [Term.func, Value.isBoolean, Value.datum?, Value.term?, datum?]
  | apply _ _ _ => rfl

mutual

theorem Renamed.isPath_eq : ∀ {t u : Term}, t.Renamed allowed R u → t.isPath = u.isPath
  | .literal _, _, .literal _ => rfl
  | _, _, .var _ => by simp [Term.var, isPath_apply]
  | _, _, .func _ _ => by simp [Term.func, isPath_apply]
  | .apply _ ts options, .apply _ us options', .apply _ hts hoptions => by
      have hargs : ts.isEmpty = us.isEmpty := by cases hts <;> rfl
      have hnames : options.isEmpty = options'.isEmpty := by cases hoptions <;> rfl
      rw [isPath_apply, isPath_apply, hargs, hnames, Renamed.allPaths_eq hts,
        Renamed.allPathOptions_eq hoptions]

theorem Renamed.allPaths_eq : ∀ {ts us : List Term},
    List.Forall₂ (Renamed allowed R) ts us → allPaths ts = allPaths us
  | [], _, .nil => rfl
  | _ :: _, _, .cons ht hts => by
      rw [allPaths, allPaths, Renamed.isPath_eq ht, Renamed.allPaths_eq hts]

theorem Renamed.allPathOptions_eq : ∀ {options options' : List (String × Term)},
    Named (Renamed allowed R) options options' →
      allPathOptions options = allPathOptions options'
  | [], _, .nil => rfl
  | _ :: _, _, .cons _ ht hts => by
      rw [allPathOptions, allPathOptions, Renamed.isPath_eq ht, ht.isBoolean_eq,
        Renamed.allPathOptions_eq hts]

end

end Term

/-! ## Questions about values -/

namespace Value

/-- Applications of one operation are alike as far as they name the same fields and
declare as many parameters. -/
theorem alike_apply {op : Operation} {ts us : List Term} {options options' : List (String × Term)}
    (hpath : (Term.apply op ts options).isPath = (Term.apply op us options').isPath)
    (harity : (Term.apply op ts options).arity? = (Term.apply op us options').arity?) :
    (Value.term (.apply op ts options)).Alike (.term (.apply op us options')) :=
  ⟨rfl, rfl, rfl, rfl, rfl, rfl, by rw [isPath, isPath, hpath], harity, rfl⟩

theorem alike_of_renamed {t u : Term} (h : t.Renamed allowed R u) :
    (Value.term t).Alike (.term u) := by
  have hpath := h.isPath_eq
  have harity := h.arity?_eq
  cases h with
  | literal => exact ⟨rfl, rfl, rfl, rfl, rfl, rfl, rfl, rfl, rfl⟩
  | var _ => exact alike_apply hpath harity
  | func _ _ => exact alike_apply hpath harity
  | apply _ _ _ => exact alike_apply hpath harity

namespace Renamed

variable {v w : Value}

theorem kindName_eq (h : v.Renamed allowed R w) : v.kindName = w.kindName := by
  cases h <;> rfl

theorem isOfKind_eq (h : v.Renamed allowed R w) (op : Operation) :
    v.isOfKind op = w.isOfKind op := by
  cases h with
  | term h => exact h.is_eq op
  | null | bool | number | string | array _ | object _ => rfl

theorem isBoolean_eq (h : v.Renamed allowed R w) : v.isBoolean = w.isBoolean := by
  cases h with
  | term h => exact h.isBoolean_eq
  | null | bool | number | string | array _ | object _ => rfl

mutual

theorem isPath_eq : ∀ {v w : Value}, v.Renamed allowed R w → v.isPath = w.isPath
  | _, _, .null | _, _, .bool _ | _, _, .number _ | _, _, .string _ => rfl
  | .array vs, .array ws, .array h => by
      have hempty : vs.isEmpty = ws.isEmpty := by cases h <;> rfl
      rw [isPath, isPath, hempty, allPaths_eq h]
  | .object fields, .object fields', .object h => by
      have hempty : fields.isEmpty = fields'.isEmpty := by cases h <;> rfl
      rw [isPath, isPath, hempty, allPathFields_eq h]
  | _, _, .term h => by rw [isPath, isPath, h.isPath_eq]

theorem allPaths_eq : ∀ {vs ws : List Value},
    List.Forall₂ (Renamed allowed R) vs ws → allPaths vs = allPaths ws
  | [], _, .nil => rfl
  | _ :: _, _, .cons hv hvs => by rw [allPaths, allPaths, isPath_eq hv, allPaths_eq hvs]

theorem allPathFields_eq : ∀ {fields fields' : List (String × Value)},
    Named (Renamed allowed R) fields fields' → allPathFields fields = allPathFields fields'
  | [], _, .nil => rfl
  | _ :: _, _, .cons _ hv hvs => by
      rw [allPathFields, allPathFields, isPath_eq hv, hv.isBoolean_eq, allPathFields_eq hvs]

end

mutual

theorem isDatum_eq : ∀ {v w : Value}, v.Renamed allowed R w → v.isDatum = w.isDatum
  | _, _, .null | _, _, .bool _ | _, _, .number _ | _, _, .string _ => rfl
  | .array _, .array _, .array h => by rw [isDatum, isDatum, allDatum_eq h]
  | .object _, .object _, .object h => by rw [isDatum, isDatum, allDatumFields_eq h]
  | _, _, .term h => by rw [isDatum, isDatum, h.isLiteral_eq]

theorem allDatum_eq : ∀ {vs ws : List Value},
    List.Forall₂ (Renamed allowed R) vs ws → allDatum vs = allDatum ws
  | [], _, .nil => rfl
  | _ :: _, _, .cons hv hvs => by rw [allDatum, allDatum, isDatum_eq hv, allDatum_eq hvs]

theorem allDatumFields_eq : ∀ {fields fields' : List (String × Value)},
    Named (Renamed allowed R) fields fields' → allDatumFields fields = allDatumFields fields'
  | [], _, .nil => rfl
  | _ :: _, _, .cons _ hv hvs => by
      rw [allDatumFields, allDatumFields, isDatum_eq hv, allDatumFields_eq hvs]

end

theorem alike (h : v.Renamed allowed R w) : v.Alike w := by
  have hpath := h.isPath_eq
  cases h with
  | term h => exact alike_of_renamed h
  | null | bool | number | string | array _ | object _ =>
      exact ⟨rfl, rfl, rfl, rfl, rfl, rfl, hpath, rfl, rfl⟩

/-- Other numbers for parameters change no check, not even those for a literal and for
one operation. -/
theorem admits_eq (h : v.Renamed allowed R w) (check : Check) :
    check.admits v = check.admits w := by
  cases check with
  | datum => exact h.isDatum_eq
  | kind op => exact h.isOfKind_eq op
  | any | string | number | integer | bool | object | array | sequence | selection | primaryKey
  | path | function | predicate | stringOrFunction | oneOf => exact h.alike.admits trivial

end Renamed

end Value

/-! ## Making terms -/

mutual

theorem Normalizer.normalizeAt_renamed (harray : allowed .makeArray) (hobject : allowed .makeObj) :
    ∀ {v w : Value} (depth : Nat), v.Renamed allowed R w →
      Agree Eq (Term.Renamed allowed R) (normalizeAt depth v) (normalizeAt depth w)
  | _, _, _, .null => .ok (.literal .null)
  | _, _, _, .bool value => .ok (.literal (.bool value))
  | _, _, _, .string value => .ok (.literal (.string value))
  | _, _, _, .number value => by
      rw [normalizeAt]
      split
      · exact .ok (.literal (.number value))
      · exact .error rfl
  | _, _, 0, .array _ => .error rfl
  | _, _, depth + 1, .array h => by
      rw [normalizeAt, normalizeAt]
      exact (Normalizer.normalizeItems_renamed harray hobject depth h).bind fun _ _ hts =>
        .ok (.apply harray hts .nil)
  | _, _, 0, .object _ => .error rfl
  | _, _, depth + 1, .object h => by
      rw [normalizeAt, normalizeAt]
      exact (Normalizer.normalizeFields_renamed harray hobject depth h).bind fun _ _ hus =>
        .ok (.apply hobject .nil hus)
  | _, _, _, .term h => .ok h

theorem Normalizer.normalizeItems_renamed (harray : allowed .makeArray)
    (hobject : allowed .makeObj) : ∀ {vs ws : List Value} (depth : Nat),
    List.Forall₂ (Value.Renamed allowed R) vs ws →
      Agree Eq (List.Forall₂ (Term.Renamed allowed R))
        (normalizeItems depth vs) (normalizeItems depth ws)
  | [], _, _, .nil => .ok .nil
  | _ :: _, _, depth, .cons hv hvs =>
      (Normalizer.normalizeAt_renamed harray hobject depth hv).bind fun _ _ ht =>
        (Normalizer.normalizeItems_renamed harray hobject depth hvs).bind fun _ _ hts =>
          .ok (.cons ht hts)

theorem Normalizer.normalizeFields_renamed (harray : allowed .makeArray)
    (hobject : allowed .makeObj) : ∀ {fields fields' : List (String × Value)} (depth : Nat),
    Named (Value.Renamed allowed R) fields fields' →
      Agree Eq (Named (Term.Renamed allowed R))
        (normalizeFields depth fields) (normalizeFields depth fields')
  | [], _, _, .nil => .ok .nil
  | _ :: _, _, depth, .cons name hv hvs =>
      (Normalizer.normalizeAt_renamed harray hobject depth hv).bind fun _ _ ht =>
        (Normalizer.normalizeFields_renamed harray hobject depth hvs).bind fun _ _ hts =>
          .ok (.cons name ht hts)

end

/-- Other numbers for parameters change no invocation. -/
theorem Command.exchange_renamed {c : Command} (harray : allowed .makeArray)
    (hobject : allowed .makeObj) (hc : allowed c.operation) (n : Normalizer) :
    c.Exchange n n Eq (Value.Renamed allowed R) (Term.Renamed allowed R) where
  refl _ := rfl
  kind h := .inl h.kindName_eq
  alike h := h.alike
  admits h check _ := h.admits_eq check
  normalize h := Normalizer.normalizeAt_renamed harray hobject n.depth h
  apply := by
    rintro op ts ts' us us' (rfl | rfl) hts hus
    · exact .apply hc hts hus
    · exact .apply hobject hts hus

end Reql
