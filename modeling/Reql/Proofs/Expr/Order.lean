/-
# `Reql.Proofs.Expr.Order` — the order of options and entries

A command makes the same of its options in any order (`Command.construct_order`), and the entries
of an object are put in order by their keys.  So a plan with options and entries in another order
is carried out to the same term (`Plan.Rearranged.term`).

The numbers of parameters may differ at the same time, as they are given out in the order in which
functions stand.  One relation `R` says for the whole plan which numbers correspond, so that nothing
here depends on where an entry has been.
-/
import Reql.Proofs.Command.OptionOrder
import Reql.Proofs.Expr.Inversion
import Reql.Proofs.Expr.Numbering

namespace Reql

variable {α β : Type} {allowed : Operation → Prop} {R : Nat → Nat → Prop}

theorem Command.construct_order {c : Command} {n : Normalizer} {args : List Value}
    {options options' : Options} (hperm : options.Perm options') :
    Agree (fun _ _ => True) Eq (c.construct n args options) (c.construct n args options') :=
  .of_ok (fun t ht => ⟨t, construct_perm hperm ht, rfl⟩)
    fun t ht => ⟨t, construct_perm hperm.symm ht⟩

/-- The same names with related things under them, in any order. -/
def Shuffled (T : α → β → Prop) (as : List (String × α)) (bs : List (String × β)) : Prop :=
  ∃ middle, as.Perm middle ∧ Named T middle bs

/-- Put in order by their names they are the same. -/
theorem Shuffled.ofList {T : α → β → Prop} {as : List (String × α)} {bs : List (String × β)}
    (h : Shuffled T as bs) (hnames : (as.map Prod.fst).Nodup) :
    Named T (Fields.ofList as) (Fields.ofList bs) := by
  obtain ⟨middle, hperm, hnamed⟩ := h
  rw [Fields.ofList_eq_of_perm hperm hnames]
  exact hnamed.ofList

/-- What a command makes of renamed values and of options in any order is renamed. -/
theorem Command.construct_shuffled (harray : allowed .makeArray) (hobject : allowed .makeObj)
    {c : Command} (hc : allowed c.operation) (n : Normalizer) {vs ws : List Value}
    {options options' : Options} (hvs : List.Forall₂ (Value.Renamed allowed R) vs ws)
    (ho : Shuffled (Value.Renamed allowed R) options options') :
    Agree (fun _ _ => True) (Term.Renamed allowed R) (c.construct n vs options)
      (c.construct n ws options') := by
  obtain ⟨middle, hperm, hnamed⟩ := ho
  have hexchange := (exchange_renamed harray hobject hc n).construct hvs hnamed
  refine ((construct_order hperm).comp hexchange).imp (fun _ _ => id) ?_
  rintro t u ⟨_, rfl, ht⟩
  exact ht

theorem Value.Renamed.normalize (harray : allowed .makeArray) (hobject : allowed .makeObj)
    {v w : Value} (h : v.Renamed allowed R w) (n : Normalizer) :
    Agree (fun _ _ => True) (Term.Renamed allowed R) (n.normalize v) (n.normalize w) :=
  (Normalizer.normalizeAt_renamed harray hobject n.depth h).imp (fun _ _ _ => trivial)
    fun _ _ => id

namespace Plan

/-- The same plan up to the numbers of parameters and the order of options and entries, with
commands that make allowed operations. -/
inductive Rearranged (allowed : Operation → Prop) (R : Nat → Nat → Prop) : Plan → Plan → Prop where
  | literal (value : Datum) : Rearranged allowed R (.literal value) (.literal value)
  | var {id id' : Nat} : R id id' → Rearranged allowed R (.var id) (.var id')
  | array {ps qs : List Plan} : List.Forall₂ (Rearranged allowed R) ps qs →
      Rearranged allowed R (.array ps) (.array qs)
  | object {os middle os' : List (String × Plan)} : (os.map Prod.fst).Nodup → os.Perm middle →
      Named (Rearranged allowed R) middle os' → Rearranged allowed R (.object os) (.object os')
  | call {c : Command} {ps qs : List Plan} {os middle os' : List (String × Plan)} :
      allowed c.operation → List.Forall₂ (Rearranged allowed R) ps qs → os.Perm middle →
      Named (Rearranged allowed R) middle os' →
      Rearranged allowed R (.call c ps os) (.call c qs os')
  | func {ids ids' : List Nat} {p q : Plan} : List.Forall₂ R ids ids' →
      Rearranged allowed R p q → Rearranged allowed R (.func ids p) (.func ids' q)

/-- Entries are carried out one by one, so their order does not matter. -/
theorem realizeEntries_perm {os middle : List (String × Plan)} (hperm : os.Perm middle)
    (n : Normalizer) :
    Agree (fun _ _ => True) (fun fields fields' => os.map Prod.fst = fields.map Prod.fst ∧
      fields.Perm fields') (realizeEntries n os) (realizeEntries n middle) := by
  rw [realizeEntries_eq_mapM, realizeEntries_eq_mapM]
  refine .of_ok ?_ ?_
  · intro fields hfields
    have hnamed := mapM_onValue_eq_ok_iff.mp hfields
    obtain ⟨fields', hfields', hnamed'⟩ := hnamed.exists_of_perm hperm
    exact ⟨fields', mapM_onValue_eq_ok_iff.mpr hnamed', hnamed.names_eq, hfields'⟩
  · intro fields' hfields'
    obtain ⟨fields, -, hnamed⟩ :=
      (mapM_onValue_eq_ok_iff.mp hfields').exists_of_perm hperm.symm
    exact ⟨fields, mapM_onValue_eq_ok_iff.mpr hnamed⟩

theorem realizeEntries_shuffled {n : Normalizer} {os middle os' : List (String × Plan)}
    (hperm : os.Perm middle)
    (h : Agree (fun _ _ => True) (Named (Value.Renamed allowed R)) (realizeEntries n middle)
      (realizeEntries n os')) :
    Agree (fun _ _ => True) (fun fields fields' => os.map Prod.fst = fields.map Prod.fst ∧
      Shuffled (Value.Renamed allowed R) fields fields') (realizeEntries n os)
      (realizeEntries n os') := by
  refine ((realizeEntries_perm hperm n).comp h).imp (fun _ _ => id) ?_
  rintro fields fields' ⟨middle, ⟨hnames, hfields⟩, hnamed⟩
  exact ⟨hnames, middle, hfields, hnamed⟩

namespace Rearranged

mutual

theorem realize (harray : allowed .makeArray) (hobject : allowed .makeObj) (n : Normalizer) :
    ∀ {q p : Plan}, p.Rearranged allowed R q →
      Agree (fun _ _ => True) (Value.Renamed allowed R) (p.realize n) (q.realize n)
  | .literal value, _, h => by
      cases h
      exact .ok (Value.renamed_ofDatum value)
  | .var _, _, h => by
      cases h with
      | var hid => exact .ok (.term (.var hid))
  | .array _, _, h => by
      cases h with
      | array hps =>
          exact (realizeItems harray hobject n hps).bind fun _ _ hvs => .ok (.array hvs)
  | .object _, _, h => by
      cases h with
      | object hnames hperm hos =>
          refine (realizeEntries_shuffled hperm (realizeEntries harray hobject n hos)).bind ?_
          rintro fields fields' ⟨hfields, hshuffled⟩
          exact .ok (.object (hshuffled.ofList (hfields ▸ hnames)))
  | .call _ _ _, _, h => by
      cases h with
      | call hc hps hperm hos =>
          refine (realizeItems harray hobject n hps).bind ?_
          intro _ _ hvs
          refine (realizeEntries_shuffled hperm (realizeEntries harray hobject n hos)).bind ?_
          rintro _ _ ⟨-, hoptions⟩
          exact (Command.construct_shuffled harray hobject hc n hvs hoptions).bind
            fun _ _ ht => .ok (.term ht)
  | .func _ _, _, h => by
      cases h with
      | func hids hbody =>
          refine (realize harray hobject n hbody).bind ?_
          intro _ _ hv
          exact (hv.normalize harray hobject n).bind fun _ _ ht => .ok (.term (.func hids ht))

theorem realizeItems (harray : allowed .makeArray) (hobject : allowed .makeObj)
    (n : Normalizer) : ∀ {qs ps : List Plan}, List.Forall₂ (Rearranged allowed R) ps qs →
      Agree (fun _ _ => True) (List.Forall₂ (Value.Renamed allowed R))
        (Plan.realizeItems n ps) (Plan.realizeItems n qs)
  | [], _, .nil => .ok .nil
  | _ :: _, _, .cons hp hps =>
      (realize harray hobject n hp).bind fun _ _ hv =>
        (realizeItems harray hobject n hps).bind fun _ _ hvs => .ok (.cons hv hvs)

theorem realizeEntries (harray : allowed .makeArray) (hobject : allowed .makeObj)
    (n : Normalizer) : ∀ {os' os : List (String × Plan)}, Named (Rearranged allowed R) os os' →
      Agree (fun _ _ => True) (Named (Value.Renamed allowed R))
        (Plan.realizeEntries n os) (Plan.realizeEntries n os')
  | [], _, .nil => .ok .nil
  | _ :: _, _, .cons name hp hps =>
      (realize harray hobject n hp).bind fun _ _ hv =>
        (realizeEntries harray hobject n hps).bind fun _ _ hvs => .ok (.cons name hv hvs)

end

/-- The terms of plans that differ in order and numbers differ in numbers. -/
theorem term (harray : allowed .makeArray) (hobject : allowed .makeObj) (n : Normalizer)
    {p q : Plan} (h : p.Rearranged allowed R q) :
    Agree (fun _ _ => True) (Term.Renamed allowed R) (p.term n) (q.term n) :=
  (h.realize harray hobject n).bind fun _ _ hv => hv.normalize harray hobject n

end Rearranged

end Plan

end Reql
