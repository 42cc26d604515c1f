/-
# `Reql.Proofs.Invocation` — written and direct invocations

An invocation can be written down and built, or its parts can be built one by one and
handed to the command.  Both ways make the same term, up to the numbers of parameters
(`build_invocation`).

The two ways differ in what the command gets.  Written vectors and maps reach it raw,
while parts built on their own are terms (`Plan.term_call_eq_ok_iff`).  They also
differ in numbers, since the parts of a written invocation draw theirs one after
another (`planItems_follows`).
-/
import Reql.Proofs.Command.Normalized
import Reql.Proofs.Expr.Inversion
import Reql.Proofs.Expr.Numbering
import Reql.Proofs.Registry

namespace Reql

/-! ## The term of an invocation and the terms of its parts -/

namespace Plan

theorem term_eq_ok_iff {n : Normalizer} {p : Plan} {t : Term} :
    p.term n = .ok t ↔ ∃ v, p.realize n = .ok v ∧ n.normalize v = .ok t :=
  bind_eq_ok_iff

theorem term_call_eq_ok_iff_realize {n : Normalizer} {c : Command} {ps : List Plan}
    {os : List (String × Plan)} {t : Term} :
    (Plan.call c ps os).term n = .ok t ↔
      ∃ vs options, List.Forall₂ (fun p v => p.realize n = .ok v) ps vs ∧
        Named (fun p v => p.realize n = .ok v) os options ∧ c.construct n vs options = .ok t := by
  rw [term_eq_ok_iff]
  constructor
  · rintro ⟨v, hv, ht⟩
    obtain ⟨vs, options, u, hvs, hoptions, hu, rfl⟩ := realize_call_eq_ok_iff.mp hv
    rw [Normalizer.normalize, Normalizer.normalizeAt_term] at ht
    obtain rfl := Except.ok.inj ht
    exact ⟨vs, options, hvs, hoptions, hu⟩
  · rintro ⟨vs, options, hvs, hoptions, ht⟩
    exact ⟨.term t, realize_call_eq_ok_iff.mpr ⟨vs, options, t, hvs, hoptions, ht, rfl⟩,
      Normalizer.normalizeAt_term n.depth t⟩

/-- The term of an invocation is what the command makes of the terms of its parts. -/
theorem term_call_eq_ok_iff {n : Normalizer} {c : Command} (hc : c ∈ Command.Catalogue.commands)
    {ps : List Plan} {os : List (String × Plan)} {t : Term} :
    (Plan.call c ps os).term n = .ok t ↔
      ∃ ts us, List.Forall₂ (fun p t => p.term n = .ok t) ps ts ∧
        Named (fun p t => p.term n = .ok t) os us ∧
        c.construct n (Command.givenTerms ts) (Command.givenOptions us) = .ok t := by
  have hstable := Command.catalogue_stable c hc
  rw [term_call_eq_ok_iff_realize]
  simp only [term_eq_ok_iff]
  constructor
  · rintro ⟨vs, options, hvs, hoptions, ht⟩
    obtain ⟨ts, us, hts, hus⟩ :=
      Command.normalizes_of_construct (Command.catalogue_ownOptions c hc) ht
    exact ⟨ts, us, forall₂_comp_iff.mpr ⟨vs, hvs, hts⟩, named_comp_iff.mpr ⟨options, hoptions, hus⟩,
      (Command.construct_eq_ok_iff_given hstable hts hus).mp ht⟩
  · rintro ⟨ts, us, hps, hos, ht⟩
    obtain ⟨vs, hvs, hts⟩ := forall₂_comp_iff.mp hps
    obtain ⟨options, hoptions, hus⟩ := named_comp_iff.mp hos
    exact ⟨vs, options, hvs, hoptions,
      (Command.construct_eq_ok_iff_given hstable hts hus).mpr ht⟩

end Plan

/-! ## Parts on their own -/

/-- An expression and the number from which it is built on its own. -/
abbrev Part := Expr × Nat

/-- The numbers that parts draw on their own. -/
def Part.drawn (parts : List Part) : List Nat :=
  parts.flatMap fun part => List.range' part.2 part.1.paramCount

namespace Registry

variable (r : Registry)

/-- The plan of an expression as a whole query. -/
def planAlone (part : Part) : Except Error Plan := ((part.1.plan r []).runFrom part.2).1

/-- An expression has a term as a whole query. -/
def BuiltAlone (part : Part) (t : Term) : Prop := ((part.1.build r).runFrom part.2).1 = .ok t

end Registry

variable {allowed : Operation → Prop} {R : Nat → Nat → Prop} {r : Registry}

theorem Registry.builtAlone_iff {part : Part} {t : Term} :
    r.BuiltAlone part t ↔ ∃ p, r.planAlone part = .ok p ∧ p.term r.normalizer = .ok t := by
  unfold BuiltAlone planAlone Expr.build
  rw [Drawing.runFrom_bind]
  rcases (part.1.plan r []).runFrom part.2 with ⟨x, next⟩
  cases x with
  | ok p => simp [mapError_eq_ok_iff]
  | error e => simp

/-! ## Plans of parts, together and on their own -/

theorem Part.length_drawn (parts : List Part) :
    (Part.drawn parts).length = Expr.itemParamCount (parts.map Prod.fst) := by
  induction parts with
  | nil => rfl
  | cons part rest ih => simp [Part.drawn, Expr.itemParamCount, ← ih]

theorem Part.drawn_cons (part : Part) (rest : List Part) :
    Part.drawn (part :: rest) = List.range' part.2 part.1.paramCount ++ Part.drawn rest := rfl

/-- The numbers that a part draws among parts come first, those of later parts next. -/
theorem Part.drawn_related {part : Part} {rest : List Part} {start : Nat}
    (hR : ∀ k id, (Part.drawn (part :: rest))[k]? = some id → R (start + k) id) :
    (∀ k < part.1.paramCount, R (start + k) (part.2 + k)) ∧
      ∀ k id, (Part.drawn rest)[k]? = some id → R (start + part.1.paramCount + k) id := by
  rw [Part.drawn_cons] at hR
  constructor
  · intro k hk
    refine hR k (part.2 + k) ?_
    rw [List.getElem?_append_left (by simpa using hk), List.getElem?_range' hk, Nat.one_mul]
  · intro k id hid
    rw [Nat.add_assoc]
    refine hR (part.1.paramCount + k) id ?_
    rw [List.getElem?_append_right (by simp), List.length_range', Nat.add_sub_cancel_left]
    exact hid

theorem planItems_follows (hr : ∀ name c, r.resolve name = .ok c → allowed c.operation)
    (parts : List Part) (start : Nat)
    (hR : ∀ k id, (Part.drawn parts)[k]? = some id → R (start + k) id) :
    (Expr.planItems r [] (parts.map Prod.fst)).Follows start
      (Expr.itemParamCount (parts.map Prod.fst)) (List.Forall₂ (Plan.Renamed allowed R))
      (parts.mapM r.planAlone) := by
  induction parts generalizing start with
  | nil => exact .pure .nil
  | cons part rest ih =>
      obtain ⟨hpart, hrest⟩ := Part.drawn_related hR
      have hplan := (Expr.plan_tracks r hr part.1 .nil).follows hpart
      rw [List.mapM_cons]
      exact hplan.bind fun _ _ hp => (ih _ hrest).bind fun _ _ hps => .pure (.cons hp hps)

theorem planEntries_follows (hr : ∀ name c, r.resolve name = .ok c → allowed c.operation)
    (parts : List (String × Part)) (start : Nat)
    (hR : ∀ k id, (Part.drawn (parts.map Prod.snd))[k]? = some id → R (start + k) id) :
    (Expr.planEntries r [] (parts.map fun part => (part.1, part.2.1))).Follows start
      (Expr.entryParamCount (parts.map fun part => (part.1, part.2.1)))
      (Named (Plan.Renamed allowed R)) (parts.mapM (onValue r.planAlone)) := by
  induction parts generalizing start with
  | nil => exact .pure .nil
  | cons part rest ih =>
      obtain ⟨name, part⟩ := part
      obtain ⟨hpart, hrest⟩ := Part.drawn_related hR
      have hplan := (Expr.plan_tracks r hr part.1 .nil).follows hpart
      rw [List.mapM_cons]
      have hentry : onValue r.planAlone (name, part) =
          r.planAlone part >>= fun p => .ok (name, p) := rfl
      rw [hentry, bind_assoc]
      exact hplan.bind fun _ _ hp => (ih _ hrest).bind fun _ _ hps => .pure (.cons name hp hps)

/-! ## The two ways -/

/-- Neither a reference to a parameter nor a function. -/
def Operation.Ordinary (op : Operation) : Prop := op ≠ .var ∧ op ≠ .func

instance (op : Operation) : Decidable op.Ordinary := by
  unfold Operation.Ordinary
  infer_instance

theorem Command.catalogue_ordinary : ∀ c ∈ Catalogue.commands, c.operation.Ordinary := by
  decide +kernel

/-- The number `k` places from `start` becomes the one in place `k` of a list. -/
def Renumbering (start : Nat) (drawn : List Nat) (id id' : Nat) : Prop :=
  ∃ k, id = start + k ∧ drawn[k]? = some id'

theorem Renumbering.rightUnique (start : Nat) (drawn : List Nat) :
    Relator.RightUnique (Renumbering start drawn) := by
  rintro _ a b ⟨k, rfl, ha⟩ ⟨l, hkl, hb⟩
  obtain rfl := Nat.add_left_cancel hkl
  exact Option.some.inj (ha.symm.trans hb)

theorem Renumbering.leftUnique (start : Nat) {drawn : List Nat} (h : drawn.Nodup) :
    Relator.LeftUnique (Renumbering start drawn) := by
  rintro _ id' _ ⟨k, rfl, hk⟩ ⟨l, rfl, hl⟩
  have hlength : k < drawn.length := (List.getElem?_eq_some_iff.mp hk).1
  rw [(List.getElem?_inj hlength h).mp (hk.trans hl.symm)]

/-- The plan of an invocation whose parts are planned on their own. -/
def Registry.planParts (r : Registry) (head : String) (args : List Part)
    (options : List (String × Part)) : Except Error Plan := do
  let c ← (r.resolve head).mapError .registry
  let ps ← args.mapM r.planAlone
  let os ← options.mapM (onValue r.planAlone)
  return .call c ps os

section

/-- An invocation written with the expressions of its parts. -/
def Expr.ofParts (head : String) (offset : Nat) (args : List Part)
    (options : List (String × Part)) : Expr :=
  .call head offset (args.map Prod.fst) (options.map fun part => (part.1, part.2.1))

variable (head : String) (offset : Nat) (args : List Part) (options : List (String × Part))

theorem plan_ofParts_agree (hr : r.OnlyCatalogue) (start : Nat) :
    Agree (fun _ _ => True)
      (Plan.Renamed Operation.Ordinary
        (Renumbering start (Part.drawn (args ++ options.map Prod.snd))))
      (((Expr.ofParts head offset args options).plan r []).runFrom start).1
      (r.planParts head args options) := by
  have hordinary : ∀ name c, r.resolve name = .ok c → c.operation.Ordinary :=
    fun name c hc => Command.catalogue_ordinary c (hr.resolve_mem hc)
  have hdrawn : Part.drawn (args ++ options.map Prod.snd) =
      Part.drawn args ++ Part.drawn (options.map Prod.snd) := List.flatMap_append
  rw [Expr.ofParts, Expr.plan, Registry.planParts, hdrawn]
  cases hc : r.resolve head with
  | error cause => exact .error trivial
  | ok c =>
      have hargs := planItems_follows
        (R := Renumbering start (Part.drawn args ++ Part.drawn (options.map Prod.snd)))
        hordinary args start fun k id hid => by
          refine ⟨k, rfl, ?_⟩
          rw [List.getElem?_append_left (List.getElem?_eq_some_iff.mp hid).1, hid]
      have hoptions := planEntries_follows
        (R := Renumbering start (Part.drawn args ++ Part.drawn (options.map Prod.snd)))
        hordinary options (start + Expr.itemParamCount (args.map Prod.fst)) fun k id hid => by
          refine ⟨Expr.itemParamCount (args.map Prod.fst) + k, Nat.add_assoc _ _ _, ?_⟩
          rw [← Part.length_drawn, List.getElem?_append_right (Nat.le_add_right _ _),
            Nat.add_sub_cancel_left, hid]
      exact (hargs.bind fun _ _ hps => hoptions.bind fun _ _ hos =>
        .pure (.call (hordinary head c hc) hps hos)).agree

theorem build_ofParts_agree (hr : r.OnlyCatalogue) (start : Nat) :
    Agree (fun _ _ => True)
      (Term.Renamed Operation.Ordinary
        (Renumbering start (Part.drawn (args ++ options.map Prod.snd))))
      (((Expr.ofParts head offset args options).build r).runFrom start).1
      (r.planParts head args options >>= fun p =>
        (p.term r.normalizer).mapError .argument) := by
  have hplan := plan_ofParts_agree head offset args options hr start
  rw [Expr.build, Drawing.runFrom_bind]
  generalize ((Expr.ofParts head offset args options).plan r []).runFrom start = run,
    r.planParts head args options = y at hplan ⊢
  obtain ⟨x, next⟩ := run
  replace hplan : Agree _ _ x y := hplan
  cases hplan with
  | error _ => exact .error trivial
  | @ok p q hpq =>
      have hterm := hpq.term (by decide) (by decide) r.normalizer
      simp only [Drawing.runFrom_ofOutcome]
      change Agree _ _ ((p.term r.normalizer).mapError _) ((q.term r.normalizer).mapError _)
      generalize p.term r.normalizer = t, q.term r.normalizer = u at hterm
      cases hterm with
      | error _ => exact .error trivial
      | ok htu => exact .ok htu

variable {head offset args options}

/-- An invocation of parts planned on their own has the term that the command makes of
the terms of the parts. -/
theorem planParts_term_eq_ok_iff (hr : r.OnlyCatalogue) {t : Term} :
    (r.planParts head args options >>= fun p => (p.term r.normalizer).mapError .argument) = .ok t ↔
      ∃ ts us, List.Forall₂ r.BuiltAlone args ts ∧ Named r.BuiltAlone options us ∧
        r.dispatch head (Command.givenTerms ts) (Command.givenOptions us) = .ok t := by
  have hbuilt : r.BuiltAlone =
      fun part t => ∃ p, r.planAlone part = .ok p ∧ p.term r.normalizer = .ok t := by
    funext part t
    exact propext Registry.builtAlone_iff
  rw [hbuilt]
  constructor
  · intro h
    obtain ⟨p, hp, ht⟩ := bind_eq_ok_iff.mp h
    obtain ⟨c, hc, hp⟩ := bind_eq_ok_iff.mp hp
    obtain ⟨ps, hps, hp⟩ := bind_eq_ok_iff.mp hp
    obtain ⟨os, hos, hp⟩ := bind_eq_ok_iff.mp hp
    obtain rfl := Except.ok.inj hp
    have hcatalogue := hr.resolve_mem (mapError_eq_ok_iff.mp hc)
    obtain ⟨ts, us, hts, hus, ht⟩ :=
      (Plan.term_call_eq_ok_iff hcatalogue).mp (mapError_eq_ok_iff.mp ht)
    exact ⟨ts, us, forall₂_comp_iff.mpr ⟨ps, mapM_eq_ok_iff.mp hps, hts⟩,
      named_comp_iff.mpr ⟨os, mapM_onValue_eq_ok_iff.mp hos, hus⟩,
      bind_eq_ok_iff.mpr ⟨c, hc, mapError_eq_ok_iff.mpr ht⟩⟩
  · rintro ⟨ts, us, hargs, hoptions, h⟩
    obtain ⟨ps, hps, hts⟩ := forall₂_comp_iff.mp hargs
    obtain ⟨os, hos, hus⟩ := named_comp_iff.mp hoptions
    obtain ⟨c, hc, ht⟩ := bind_eq_ok_iff.mp h
    have hcatalogue := hr.resolve_mem (mapError_eq_ok_iff.mp hc)
    have ht := (Plan.term_call_eq_ok_iff hcatalogue).mpr
      ⟨ts, us, hts, hus, mapError_eq_ok_iff.mp ht⟩
    refine bind_eq_ok_iff.mpr ⟨.call c ps os, ?_, mapError_eq_ok_iff.mpr ht⟩
    refine bind_eq_ok_iff.mpr ⟨c, hc, ?_⟩
    refine bind_eq_ok_iff.mpr ⟨ps, mapM_eq_ok_iff.mpr hps, ?_⟩
    exact bind_eq_ok_iff.mpr ⟨os, mapM_onValue_eq_ok_iff.mpr hos, rfl⟩

/-- A written invocation has a term exactly when all its parts have one on their own
and the command makes one of those.  The two differ only in the numbers of parameters:
for each number that the invocation draws the parts' number in its place.  No two
numbers become one unless the parts draw it twice. -/
theorem Registry.build_invocation (hr : r.OnlyCatalogue) {text : String}
    (h : Expr.parse text = .ok (.ofParts head offset args options)) (start : Nat) :
    ((∃ t, ((r.build text).runFrom start).1 = .ok t) ↔
      ∃ ts us t', List.Forall₂ r.BuiltAlone args ts ∧ Named r.BuiltAlone options us ∧
        r.dispatch head (Command.givenTerms ts) (Command.givenOptions us) = .ok t') ∧
    (∀ t ts us t', ((r.build text).runFrom start).1 = .ok t →
      List.Forall₂ r.BuiltAlone args ts → Named r.BuiltAlone options us →
      r.dispatch head (Command.givenTerms ts) (Command.givenOptions us) = .ok t' →
      t.Renamed Operation.Ordinary
        (Renumbering start (Part.drawn (args ++ options.map Prod.snd))) t') ∧
    Relator.RightUnique (Renumbering start (Part.drawn (args ++ options.map Prod.snd))) ∧
    ((Part.drawn (args ++ options.map Prod.snd)).Nodup →
      Relator.LeftUnique (Renumbering start (Part.drawn (args ++ options.map Prod.snd)))) := by
  have hagree := build_ofParts_agree head offset args options hr start
  rw [Registry.build_of_parse h]
  refine ⟨⟨?_, ?_⟩, ?_, Renumbering.rightUnique _ _, Renumbering.leftUnique start⟩
  · rintro ⟨t, ht⟩
    obtain ⟨t', ht', -⟩ := hagree.ok_left ht
    obtain ⟨ts, us, hts, hus, hdispatch⟩ := (planParts_term_eq_ok_iff hr).mp ht'
    exact ⟨ts, us, t', hts, hus, hdispatch⟩
  · rintro ⟨ts, us, t', hts, hus, hdispatch⟩
    obtain ⟨t, ht, -⟩ :=
      hagree.ok_right ((planParts_term_eq_ok_iff hr).mpr ⟨ts, us, hts, hus, hdispatch⟩)
    exact ⟨t, ht⟩
  · intro t ts us t' ht hts hus hdispatch
    have ht' := (planParts_term_eq_ok_iff hr).mpr ⟨ts, us, hts, hus, hdispatch⟩
    obtain ⟨u, hu, htu⟩ := hagree.ok_left ht
    obtain rfl : u = t' := Except.ok.inj (hu.symm.trans ht')
    exact htu

/-- A function over an array, written from number 1 on and put together of parts that
are numbered from 5 and from 9 on. -/
theorem Registry.build_invocation_map :
    let map : Command := { name := "map", operation := .map, required := [.sequence, .function 1] }
    let r := (blank.register map).registry
    ∃ t t', ((r.build "(map [] (fn [x] x))").runFrom 1).1 = .ok t ∧
      r.dispatch "map" [.term (.apply .makeArray [] []), .term (.func [9] (.var 9))] [] = .ok t' ∧
      t.Renamed Operation.Ordinary (Renumbering 1 [9]) t' := by
  intro map r
  have hr : r.OnlyCatalogue := (onlyCatalogue_empty _ _).register (by decide +kernel)
  have h : Expr.parse "(map [] (fn [x] x))" =
      .ok (.ofParts "map" 1 [(.vector [], 5), (.fn ["x"] (.symbol "x" 16), 9)] []) := rfl
  have hparts : List.Forall₂ r.BuiltAlone [(.vector [], 5), (.fn ["x"] (.symbol "x" 16), 9)]
      [.apply .makeArray [] [], .func [9] (.var 9)] := .cons rfl (.cons rfl .nil)
  have hdispatch : r.dispatch "map"
      [.term (.apply .makeArray [] []), .term (.func [9] (.var 9))] [] =
      .ok (.apply .map [.apply .makeArray [] [], .func [9] (.var 9)] []) := rfl
  obtain ⟨t, ht⟩ := (build_invocation hr h 1).1.mpr ⟨_, [], _, hparts, .nil, hdispatch⟩
  exact ⟨t, _, ht, hdispatch, (build_invocation hr h 1).2.1 t _ [] _ ht hparts .nil hdispatch⟩

end

end Reql
