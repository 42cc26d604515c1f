/-
# `Reql.Proofs.Expr.Rearranged` — options and entries may stand in any order

An expression with options and entries in another order has a plan if the expression has one.  It is
the plan in that order, with other numbers for parameters, as numbers are given out in the order in
which functions stand (`Rearranged.plannedAlike`).  So both build the same term up to the numbers,
or neither builds one (`Registry.build_rearranged`).

Each part draws consecutive numbers, and the whole draws those of all parts.  That says nothing
about the order of the parts: the numbers of the one expression are paired with those of the other
part by part (`Pairs`).  Each number that is drawn is in one pair, and as neither expression draws a
number twice, the pairs are one-to-one.  The terms hold literals in place of numbers, and where
there is room for all numbers these are one-to-one as well (`Pairs.biUnique_literals`).
-/
import Reql.Proofs.Expr.Counterpart
import Reql.Proofs.Expr.Order
import Reql.Proofs.Expr.Written
import Reql.Proofs.Invocation

namespace Reql

namespace Expr

/-! ## Expressions in another order -/

/-- An option or entry of two expressions: what stands under its name here and there. -/
structure Twins where
  name : String
  here : Expr
  there : Expr

namespace Twins

def left (p : Twins) : String × Expr := (p.name, p.here)

def right (p : Twins) : String × Expr := (p.name, p.there)

def swap (p : Twins) : Twins := ⟨p.name, p.there, p.here⟩

end Twins

/-- The same expression with options and entries in another order, at any depth, and in other
places of a text. -/
inductive Rearranged : Expr → Expr → Prop where
  | null : Rearranged .null .null
  | bool (value : Bool) : Rearranged (.bool value) (.bool value)
  | number (value : Double) : Rearranged (.number value) (.number value)
  | string (value : String) : Rearranged (.string value) (.string value)
  | symbol (name : String) (offset offset' : Nat) :
      Rearranged (.symbol name offset) (.symbol name offset')
  | vector {parts : List (Expr × Expr)} : (∀ p ∈ parts, Rearranged p.1 p.2) →
      Rearranged (.vector (parts.map Prod.fst)) (.vector (parts.map Prod.snd))
  | map {entries entries' : List Twins} : entries.Perm entries' →
      (∀ p ∈ entries, Rearranged p.here p.there) →
      Rearranged (.map (entries.map Twins.left)) (.map (entries'.map Twins.right))
  | call (head : String) (offset offset' : Nat) {args : List (Expr × Expr)}
      {options options' : List Twins} : (∀ p ∈ args, Rearranged p.1 p.2) →
      options.Perm options' → (∀ p ∈ options, Rearranged p.here p.there) →
      Rearranged (.call head offset (args.map Prod.fst) (options.map Twins.left))
        (.call head offset' (args.map Prod.snd) (options'.map Twins.right))
  | fn (params : List String) {body body' : Expr} : Rearranged body body' →
      Rearranged (.fn params body) (.fn params body')

variable {e e' : Expr}

theorem Rearranged.symm (h : e.Rearranged e') : e'.Rearranged e := by
  induction h with
  | null => exact .null
  | bool value => exact .bool value
  | number value => exact .number value
  | string value => exact .string value
  | symbol name offset offset' => exact .symbol name offset' offset
  | @vector parts _ ih =>
      have hparts : ∀ p ∈ parts.map Prod.swap, p.1.Rearranged p.2 :=
        List.forall_mem_map.mpr ih
      have hswap := Rearranged.vector hparts
      rw [List.map_map, List.map_map] at hswap
      exact hswap
  | @map entries entries' hperm _ ih =>
      have hentries : ∀ p ∈ entries'.map Twins.swap, p.here.Rearranged p.there :=
        List.forall_mem_map.mpr fun p hp => ih p (hperm.mem_iff.mpr hp)
      have hswap := Rearranged.map (hperm.symm.map Twins.swap) hentries
      rw [List.map_map, List.map_map] at hswap
      exact hswap
  | @call head offset offset' args options options' _ hperm _ ihargs ih =>
      have hargs : ∀ p ∈ args.map Prod.swap, p.1.Rearranged p.2 :=
        List.forall_mem_map.mpr ihargs
      have hoptions : ∀ p ∈ options'.map Twins.swap, p.here.Rearranged p.there :=
        List.forall_mem_map.mpr fun p hp => ih p (hperm.mem_iff.mpr hp)
      have hswap :=
        Rearranged.call head offset' offset hargs (hperm.symm.map Twins.swap) hoptions
      rw [List.map_map, List.map_map, List.map_map, List.map_map] at hswap
      exact hswap
  | fn params _ ih => exact .fn params ih

theorem entryParamCount_twins {entries entries' : List Twins} (hperm : entries.Perm entries')
    (h : ∀ p ∈ entries, p.here.paramCount = p.there.paramCount) :
    entryParamCount (entries.map Twins.left) = entryParamCount (entries'.map Twins.right) := by
  simp only [entryParamCount_eq, itemParamCount_eq_sum, List.map_map]
  rw [← (hperm.map _).sum_nat]
  exact congrArg List.sum (List.map_congr_left h)

/-- In another order there are as many parameters. -/
theorem Rearranged.paramCount_eq (h : e.Rearranged e') : e.paramCount = e'.paramCount := by
  have hitems {parts : List (Expr × Expr)} (h : ∀ p ∈ parts, p.1.paramCount = p.2.paramCount) :
      itemParamCount (parts.map Prod.fst) = itemParamCount (parts.map Prod.snd) := by
    simp only [itemParamCount_eq_sum, List.map_map]
    exact congrArg List.sum (List.map_congr_left h)
  induction h with
  | null | bool _ | number _ | string _ | symbol _ _ _ => rfl
  | vector _ ih => exact hitems ih
  | map hperm _ ih => exact entryParamCount_twins hperm ih
  | call head offset offset' _ hperm _ ihargs ih =>
      rw [paramCount, paramCount, hitems ihargs, entryParamCount_twins hperm ih]
  | fn params _ ih => rw [paramCount, paramCount, ih]

/-- Whatever fits still fits in another order. -/
theorem Fits.rearranged {room : Nat} (hfits : Fits room e) (h : e.Rearranged e') :
    Fits room e' := by
  induction h generalizing room with
  | null | bool | number | string => exact hfits
  | symbol name offset offset' => exact ⟨hfits.nesting_le, everywhere_of_leaf rfl trivial⟩
  | @vector parts _ ih =>
      obtain ⟨inner, rfl⟩ := hfits.exists_room rfl
      obtain ⟨-, hchildren⟩ := (fits_bracket_iff rfl).mp hfits
      refine (fits_bracket_iff rfl).mpr ⟨trivial, List.forall_mem_map.mpr ?_⟩
      exact fun p hp => ih p hp (hchildren _ (List.mem_map_of_mem hp))
  | @map entries entries' hperm _ ih =>
      obtain ⟨inner, rfl⟩ := hfits.exists_room rfl
      obtain ⟨hnames, hchildren⟩ := (fits_bracket_iff rfl).mp hfits
      refine (fits_bracket_iff rfl).mpr ⟨?_, ?_⟩
      · rw [Regular, List.map_map] at hnames ⊢
        exact (hperm.map Twins.name).nodup_iff.mp hnames
      · rw [children, List.map_map]
        refine List.forall_mem_map.mpr fun p hp => ?_
        have hp := hperm.mem_iff.mpr hp
        exact ih p hp (hchildren _ (List.mem_map_of_mem (List.mem_map_of_mem hp)))
  | @call head offset offset' args options options' _ hperm _ ihargs ih =>
      obtain ⟨inner, rfl⟩ := hfits.exists_room rfl
      obtain ⟨hhead, hchildren⟩ := (fits_bracket_iff rfl).mp hfits
      rw [children, List.forall_mem_append] at hchildren
      refine (fits_bracket_iff rfl).mpr ⟨hhead, ?_⟩
      rw [children, List.forall_mem_append]
      refine ⟨List.forall_mem_map.mpr fun p hp => ?_, ?_⟩
      · exact ihargs p hp (hchildren.1 _ (List.mem_map_of_mem hp))
      · rw [List.map_map]
        refine List.forall_mem_map.mpr fun p hp => ?_
        have hp := hperm.mem_iff.mpr hp
        exact ih p hp (hchildren.2 _ (List.mem_map_of_mem (List.mem_map_of_mem hp)))
  | fn params _ ih =>
      obtain ⟨inner, rfl⟩ := hfits.exists_room rfl
      obtain ⟨hnames, hchildren⟩ := (fits_bracket_iff rfl).mp hfits
      refine (fits_bracket_iff rfl).mpr ⟨hnames, List.forall_mem_singleton.mpr ?_⟩
      exact ih (hchildren _ (.head _))

end Expr

/-! ## Numbers for numbers -/

/-- The pairs take the numbers of one list to those of another, each to one. -/
def Pairs (pairs : List (Nat × Nat)) (ids ids' : List Nat) : Prop :=
  (pairs.map Prod.fst).Perm ids ∧ (pairs.map Prod.snd).Perm ids'

/-- Numbers that are a pair. -/
def Paired (pairs : List (Nat × Nat)) (id id' : Nat) : Prop := (id, id') ∈ pairs

/-- The literals of numbers that are a pair. -/
def PairedLiterals (pairs : List (Nat × Nat)) (t t' : Term) : Prop :=
  ∃ id id', Paired pairs id id' ∧ t = .ofId id ∧ t' = .ofId id'

namespace Pairs

variable {pairs pairs' : List (Nat × Nat)} {ids ids' others others' : List Nat}

theorem nil : Pairs [] [] [] := ⟨.nil, .nil⟩

theorem append (h : Pairs pairs ids ids') (h' : Pairs pairs' others others') :
    Pairs (pairs ++ pairs') (ids ++ others) (ids' ++ others') := by
  unfold Pairs
  rw [List.map_append, List.map_append]
  exact ⟨h.1.append h'.1, h.2.append h'.2⟩

theorem zip (h : ids.length = ids'.length) : Pairs (ids.zip ids') ids ids' := by
  unfold Pairs
  rw [List.map_fst_zip (Nat.le_of_eq h), List.map_snd_zip (Nat.le_of_eq h.symm)]
  exact ⟨.refl _, .refl _⟩

/-- If no number is there twice the pairs are one-to-one. -/
theorem biUnique (h : Pairs pairs ids ids') (hids : ids.Nodup) (hids' : ids'.Nodup) :
    Relator.BiUnique (Paired pairs) := by
  have hfst := h.1.nodup_iff.mpr hids
  have hsnd := h.2.nodup_iff.mpr hids'
  constructor
  · intro id other id' hid hother
    exact congrArg Prod.fst (List.inj_on_of_nodup_map hsnd hid hother rfl)
  · intro id id' other' hid' hother'
    exact congrArg Prod.snd (List.inj_on_of_nodup_map hfst hid' hother' rfl)

theorem mem_left (h : Pairs pairs ids ids') {id id' : Nat} (hpair : Paired pairs id id') :
    id ∈ ids :=
  h.1.mem_iff.mp (List.mem_map_of_mem hpair)

theorem mem_right (h : Pairs pairs ids ids') {id id' : Nat} (hpair : Paired pairs id id') :
    id' ∈ ids' :=
  h.2.mem_iff.mp (List.mem_map_of_mem hpair)

/-- So are their literals, as long as they are exact. -/
theorem biUnique_literals (h : Pairs pairs ids ids') (hids : ids.Nodup) (hids' : ids'.Nodup)
    (hexact : ∀ id ∈ ids, id < 2 ^ 53) (hexact' : ∀ id' ∈ ids', id' < 2 ^ 53) :
    Relator.BiUnique (PairedLiterals pairs) := by
  obtain ⟨hleft, hright⟩ := h.biUnique hids hids'
  constructor
  · rintro _ _ _ ⟨id, id', hpair, rfl, rfl⟩ ⟨other, other', hother, rfl, heq⟩
    obtain rfl := Term.ofId_injective (hexact' _ (h.mem_right hpair))
      (hexact' _ (h.mem_right hother)) heq
    rw [hleft hpair hother]
  · rintro _ _ _ ⟨id, id', hpair, rfl, rfl⟩ ⟨other, other', hother, heq, rfl⟩
    obtain rfl := Term.ofId_injective (hexact _ (h.mem_left hpair))
      (hexact _ (h.mem_left hother)) heq
    rw [hright hpair hother]

end Pairs

/-- A relation between numbers that holds of those in scope and of those paired up. -/
structure Covers (R : Nat → Nat → Prop) (scope scope' : Scope) (pairs : List (Nat × Nat)) :
    Prop where
  scope : Named R scope scope'
  pairs : ∀ pair ∈ pairs, R pair.1 pair.2

namespace Covers

variable {R : Nat → Nat → Prop} {scope scope' : Scope} {pairs pairs' : List (Nat × Nat)}

theorem left (h : Covers R scope scope' (pairs ++ pairs')) : Covers R scope scope' pairs :=
  ⟨h.scope, (List.forall_mem_append.mp h.pairs).1⟩

theorem right (h : Covers R scope scope' (pairs ++ pairs')) : Covers R scope scope' pairs' :=
  ⟨h.scope, (List.forall_mem_append.mp h.pairs).2⟩

/-- Parameters that are paired up are covered as part of the scope. -/
theorem enter {params : List String} {ids ids' : List Nat} (hlength : ids.length = ids'.length)
    (h : Covers R scope scope' (ids.zip ids' ++ pairs)) :
    List.Forall₂ R ids ids' ∧
      Covers R (params.zip ids ++ scope) (params.zip ids' ++ scope') pairs := by
  have hids : List.Forall₂ R ids ids' :=
    List.forall₂_iff_zip.mpr ⟨hlength, fun {id id'} hmem => h.left.pairs (id, id') hmem⟩
  exact ⟨hids, Scope.renamed_zip hids h.scope, h.right.pairs⟩

end Covers

/-! ## Planning -/

namespace Expr

section

variable {r : Registry} {allowed : Operation → Prop} {scope scope' : Scope} {start next : Nat}

/-- An expression has a plan in a scope, for which it draws these numbers. -/
def Draws (r : Registry) (scope : Scope) (e : Expr) (ids : List Nat) (p : Plan) : Prop :=
  ∃ start, ids = List.range' start e.paramCount ∧
    (e.plan r scope).runFrom start = (.ok p, start + e.paramCount)

/-- If the one expression has a plan, then the other has one wherever the counter stands, with the
same parameters in reach.  The numbers it draws can be paired with those of the first, so that the
plans are the same up to order and numbers. -/
def PlannedAlike (r : Registry) (allowed : Operation → Prop) (e e' : Expr) : Prop :=
  ∀ {scope scope' : Scope} {ids : List Nat} {p : Plan},
    scope.map Prod.fst = scope'.map Prod.fst → e.Draws r scope ids p → ∀ start', ∃ q pairs,
      (e'.plan r scope').runFrom start' = (.ok q, start' + e'.paramCount) ∧
      Pairs pairs ids (List.range' start' e'.paramCount) ∧
      ∀ R, Covers R scope scope' pairs → p.Rearranged allowed R q

/-! ### Lists of parts -/

theorem planItems_alike {parts : List (Expr × Expr)}
    (h : ∀ p ∈ parts, PlannedAlike r allowed p.1 p.2)
    (hscope : scope.map Prod.fst = scope'.map Prod.fst) {ps : List Plan}
    (hplan : (planItems r scope (parts.map Prod.fst)).runFrom start = (.ok ps, next))
    (start' : Nat) :
    ∃ qs pairs, (planItems r scope' (parts.map Prod.snd)).runFrom start' =
        (.ok qs, start' + itemParamCount (parts.map Prod.snd)) ∧
      Pairs pairs (List.range' start (itemParamCount (parts.map Prod.fst)))
        (List.range' start' (itemParamCount (parts.map Prod.snd))) ∧
      ∀ R, Covers R scope scope' pairs → List.Forall₂ (Plan.Rearranged allowed R) ps qs := by
  induction parts generalizing start start' ps with
  | nil =>
      obtain rfl := planItems_nil_eq_ok hplan
      exact ⟨[], [], rfl, .nil, fun _ _ => .nil⟩
  | cons part parts ih =>
      obtain ⟨hpart, hparts⟩ := List.forall_mem_cons.mp h
      obtain ⟨p, rest, hp, hrest, rfl⟩ := planItems_cons_eq_ok hplan
      obtain ⟨q, pairs, hq, hpairs, hpq⟩ := hpart hscope ⟨start, rfl, hp⟩ start'
      obtain ⟨qs, pairs', hqs, hpairs', hpqs⟩ := ih hparts hrest (start' + part.2.paramCount)
      refine ⟨q :: qs, pairs ++ pairs', ?_, ?_, ?_⟩
      · rw [List.map_cons, itemParamCount, ← Nat.add_assoc]
        exact Drawing.runFrom_bind_eq_ok_iff.mpr
          ⟨q, _, hq, Drawing.runFrom_bind_eq_ok_iff.mpr ⟨qs, _, hqs, rfl⟩⟩
      · have happend := hpairs.append hpairs'
        rwa [List.range'_append_1, List.range'_append_1] at happend
      · intro R hR
        exact .cons (hpq R hR.left) (hpqs R hR.right)

/-- The plans of entries, each with the numbers drawn for it. -/
theorem exists_draws {entries : List (String × Expr)} {os : List (String × Plan)}
    (h : (planEntries r scope entries).runFrom start = (.ok os, next)) :
    ∃ drawn : List (String × (List Nat × Plan)),
      Named (fun e x => e.Draws r scope x.1 x.2) entries drawn ∧
      os = drawn.map (fun x => (x.1, x.2.2)) ∧
      drawn.flatMap (fun x => x.2.1) = List.range' start (entryParamCount entries) := by
  induction entries generalizing start os with
  | nil =>
      obtain rfl := runFrom_pure_eq_ok h
      exact ⟨[], .nil, rfl, rfl⟩
  | cons entry rest ih =>
      obtain ⟨name, e⟩ := entry
      obtain ⟨p, middle, hp, h⟩ := Drawing.runFrom_bind_eq_ok_iff.mp h
      obtain rfl := (plan_settles r e scope).next_eq hp
      obtain ⟨ps, last, hps, h⟩ := Drawing.runFrom_bind_eq_ok_iff.mp h
      obtain rfl : last = next := (Prod.mk.inj h).2
      obtain rfl := runFrom_pure_eq_ok h
      obtain ⟨drawn, hdrawn, rfl, hids⟩ := ih hps
      let first : String × (List Nat × Plan) := (name, List.range' start e.paramCount, p)
      refine ⟨first :: drawn, .cons name ⟨start, rfl, hp⟩ hdrawn, rfl, ?_⟩
      rw [List.flatMap_cons, hids, entryParamCount, List.range'_append_1]

theorem planEntries_alike {entries : List Twins}
    (h : ∀ p ∈ entries, PlannedAlike r allowed p.here p.there)
    (hscope : scope.map Prod.fst = scope'.map Prod.fst)
    {drawn : List (String × (List Nat × Plan))}
    (hdrawn : Named (fun e x => e.Draws r scope x.1 x.2) (entries.map Twins.left) drawn)
    (start' : Nat) :
    ∃ os pairs, (planEntries r scope' (entries.map Twins.right)).runFrom start' =
        (.ok os, start' + entryParamCount (entries.map Twins.right)) ∧
      Pairs pairs (drawn.flatMap fun x => x.2.1)
        (List.range' start' (entryParamCount (entries.map Twins.right))) ∧
      ∀ R, Covers R scope scope' pairs →
        Named (Plan.Rearranged allowed R) (drawn.map fun x => (x.1, x.2.2)) os := by
  induction entries generalizing drawn start' with
  | nil =>
      cases hdrawn
      exact ⟨[], [], rfl, .nil, fun _ _ => .nil⟩
  | cons twins entries ih =>
      obtain ⟨htwins, hentries⟩ := List.forall_mem_cons.mp h
      obtain ⟨name, here, there⟩ := twins
      cases hdrawn with
      | cons _ hp hrest =>
          obtain ⟨q, pairs, hq, hpairs, hpq⟩ := htwins hscope hp start'
          obtain ⟨os, pairs', hos, hpairs', hpqs⟩ :=
            ih hentries hrest (start' + there.paramCount)
          refine ⟨(name, q) :: os, pairs ++ pairs', ?_, ?_, ?_⟩
          · rw [List.map_cons, Twins.right, entryParamCount, ← Nat.add_assoc]
            exact Drawing.runFrom_bind_eq_ok_iff.mpr
              ⟨q, _, hq, Drawing.runFrom_bind_eq_ok_iff.mpr ⟨os, _, hos, rfl⟩⟩
          · have happend := hpairs.append hpairs'
            rwa [List.range'_append_1] at happend
          · intro R hR
            exact .cons name (hpq R hR.left) (hpqs R hR.right)

/-- Entries keep their plans and their numbers in any order, up to what each of them draws.  They
are put in the other order together with both, and then they are planned one by one. -/
theorem planEntries_rearranged {entries entries' : List Twins} (hperm : entries.Perm entries')
    (h : ∀ p ∈ entries, PlannedAlike r allowed p.here p.there)
    (hscope : scope.map Prod.fst = scope'.map Prod.fst) {os : List (String × Plan)}
    (hplan : (planEntries r scope (entries.map Twins.left)).runFrom start = (.ok os, next))
    (start' : Nat) :
    ∃ middle os' pairs, os.Perm middle ∧
      (planEntries r scope' (entries'.map Twins.right)).runFrom start' =
        (.ok os', start' + entryParamCount (entries'.map Twins.right)) ∧
      Pairs pairs (List.range' start (entryParamCount (entries.map Twins.left)))
        (List.range' start' (entryParamCount (entries'.map Twins.right))) ∧
      ∀ R, Covers R scope scope' pairs → Named (Plan.Rearranged allowed R) middle os' := by
  obtain ⟨drawn, hdrawn, rfl, hids⟩ := exists_draws hplan
  obtain ⟨drawn', hmoved, hdrawn'⟩ := hdrawn.exists_of_perm (hperm.map Twins.left)
  have hentries' : ∀ p ∈ entries', PlannedAlike r allowed p.here p.there :=
    fun p hp => h p (hperm.mem_iff.mpr hp)
  obtain ⟨os', pairs, hos', ⟨hfrom, hto⟩, hnamed⟩ :=
    planEntries_alike hentries' hscope hdrawn' start'
  refine ⟨_, os', pairs, hmoved.map _, hos', ⟨?_, hto⟩, hnamed⟩
  have hids' := hmoved.flatMap_right fun x => x.2.1
  rw [hids] at hids'
  exact hfrom.trans hids'.symm

/-! ### Form by form -/

theorem plannedAlike_symbol (name : String) (offset offset' : Nat) :
    PlannedAlike r allowed (.symbol name offset) (.symbol name offset') := by
  rintro scope scope' ids p hscope ⟨start, rfl, hplan⟩ start'
  obtain ⟨id, hid, rfl⟩ := plan_symbol_eq_ok hplan
  have hlookup : scope'.lookup name ≠ none := by
    rw [Ne, Scope.lookup_eq_none_iff, ← hscope, ← Scope.lookup_eq_none_iff, hid]
    exact Option.some_ne_none id
  obtain ⟨id', hid'⟩ := Option.ne_none_iff_exists'.mp hlookup
  refine ⟨.var id', [], ?_, .nil, ?_⟩
  · rw [plan, hid']
    rfl
  · intro R hR
    have hids := hR.scope.lookup name
    rw [hid, hid'] at hids
    cases hids with
    | some hid => exact .var hid

theorem plannedAlike_vector {parts : List (Expr × Expr)}
    (h : ∀ p ∈ parts, PlannedAlike r allowed p.1 p.2) :
    PlannedAlike r allowed (.vector (parts.map Prod.fst)) (.vector (parts.map Prod.snd)) := by
  rintro scope scope' ids p hscope ⟨start, rfl, hplan⟩ start'
  obtain ⟨ps, hps, rfl⟩ := plan_vector_eq_ok hplan
  obtain ⟨qs, pairs, hqs, hpairs, hpqs⟩ := planItems_alike h hscope hps start'
  refine ⟨.array qs, pairs, ?_, hpairs, fun R hR => .array (hpqs R hR)⟩
  exact Drawing.runFrom_bind_eq_ok_iff.mpr ⟨qs, _, hqs, rfl⟩

theorem plannedAlike_map {entries entries' : List Twins} (hperm : entries.Perm entries')
    (hkeys : ((entries.map Twins.left).map Prod.fst).Nodup)
    (h : ∀ p ∈ entries, PlannedAlike r allowed p.here p.there) :
    PlannedAlike r allowed (.map (entries.map Twins.left)) (.map (entries'.map Twins.right)) := by
  rintro scope scope' ids p hscope ⟨start, rfl, hplan⟩ start'
  obtain ⟨os, hos, rfl⟩ := plan_map_eq_ok hplan
  rw [← (planEntries_eq_ok hos).2] at hkeys
  obtain ⟨middle, os', pairs, hmoved, hos', hpairs, hnamed⟩ :=
    planEntries_rearranged hperm h hscope hos start'
  refine ⟨.object os', pairs, ?_, hpairs, fun R hR => .object hkeys hmoved (hnamed R hR)⟩
  exact Drawing.runFrom_bind_eq_ok_iff.mpr ⟨os', _, hos', rfl⟩

theorem plannedAlike_call (hr : ∀ name c, r.resolve name = .ok c → allowed c.operation)
    (head : String) (offset offset' : Nat) {args : List (Expr × Expr)}
    {options options' : List Twins} (hargs : ∀ p ∈ args, PlannedAlike r allowed p.1 p.2)
    (hperm : options.Perm options')
    (hoptions : ∀ p ∈ options, PlannedAlike r allowed p.here p.there) :
    PlannedAlike r allowed
      (.call head offset (args.map Prod.fst) (options.map Twins.left))
      (.call head offset' (args.map Prod.snd) (options'.map Twins.right)) := by
  rintro scope scope' ids p hscope ⟨start, rfl, hplan⟩ start'
  obtain ⟨c, ps, os, hc, hps, hos, rfl⟩ := plan_call_eq_ok hplan
  obtain ⟨qs, pairs, hqs, hpairs, hpqs⟩ := planItems_alike hargs hscope hps start'
  obtain ⟨middle, os', pairs', hmoved, hos', hpairs', hnamed⟩ :=
    planEntries_rearranged hperm hoptions hscope hos (start' + itemParamCount (args.map Prod.snd))
  have hhead : (Drawing.ofOutcome .registry (r.resolve head)).runFrom start' = (.ok c, start') := by
    rw [hc]
    rfl
  refine ⟨.call c qs os', pairs ++ pairs', ?_, ?_, ?_⟩
  · rw [paramCount, ← Nat.add_assoc]
    exact Drawing.runFrom_bind_eq_ok_iff.mpr ⟨c, _, hhead,
      Drawing.runFrom_bind_eq_ok_iff.mpr ⟨qs, _, hqs,
        Drawing.runFrom_bind_eq_ok_iff.mpr ⟨os', _, hos', rfl⟩⟩⟩
  · have happend := hpairs.append hpairs'
    rwa [List.range'_append_1, List.range'_append_1] at happend
  · intro R hR
    exact .call (hr head c hc) (hpqs R hR.left) hmoved (hnamed R hR.right)

/-- The numbers of a function's own parameters are paired up in order. -/
theorem plannedAlike_fn (params : List String) {body body' : Expr}
    (h : PlannedAlike r allowed body body') :
    PlannedAlike r allowed (.fn params body) (.fn params body') := by
  rintro scope scope' ids p hscope ⟨start, rfl, hplan⟩ start'
  obtain ⟨q, hq, rfl⟩ := plan_fn_eq_ok hplan
  rw [paramCount, ← Nat.add_assoc] at hq
  let ids := List.range' start params.length
  let ids' := List.range' start' params.length
  have hlength : ids.length = ids'.length := by simp [ids, ids']
  have hreach : (params.zip ids ++ scope).map Prod.fst =
      (params.zip ids' ++ scope').map Prod.fst := by
    rw [Scope.names_zip List.length_range', Scope.names_zip List.length_range', hscope]
  obtain ⟨q', pairs, hq', hpairs, hbody⟩ :=
    h hreach ⟨start + params.length, rfl, hq⟩ (start' + params.length)
  refine ⟨.func ids' q', ids.zip ids' ++ pairs, ?_, ?_, ?_⟩
  · rw [paramCount, ← Nat.add_assoc]
    exact Drawing.runFrom_bind_eq_ok_iff.mpr ⟨_, _, rfl,
      Drawing.runFrom_bind_eq_ok_iff.mpr ⟨q', _, hq', rfl⟩⟩
  · have happend := (Pairs.zip hlength).append hpairs
    rwa [List.range'_append_1, List.range'_append_1] at happend
  · intro R hR
    obtain ⟨hids, hinner⟩ := hR.enter hlength
    exact .func hids (hbody R hinner)

/-- The plan of an expression in another order is the plan in another order. -/
theorem Rearranged.plannedAlike (hr : ∀ name c, r.resolve name = .ok c → allowed c.operation)
    {e e' : Expr} (h : e.Rearranged e') (hregular : e.Everywhere Regular) :
    PlannedAlike r allowed e e' := by
  induction h with
  | null | bool | number | string =>
      rintro scope scope' ids p - ⟨start, rfl, hplan⟩ start'
      obtain rfl := runFrom_pure_eq_ok hplan
      exact ⟨_, [], rfl, .nil, fun _ _ => .literal _⟩
  | symbol name offset offset' => exact plannedAlike_symbol name offset offset'
  | @vector parts _ ih =>
      obtain ⟨-, hchildren⟩ := everywhere_iff.mp hregular
      exact plannedAlike_vector fun p hp => ih p hp (hchildren _ (List.mem_map_of_mem hp))
  | @map entries entries' hperm _ ih =>
      obtain ⟨hkeys, hchildren⟩ := everywhere_iff.mp hregular
      exact plannedAlike_map hperm hkeys fun p hp =>
        ih p hp (hchildren _ (List.mem_map_of_mem (List.mem_map_of_mem hp)))
  | @call head offset offset' args options options' _ hperm _ ihargs ih =>
      obtain ⟨-, hchildren⟩ := everywhere_iff.mp hregular
      obtain ⟨hargs, hoptions⟩ := List.forall_mem_append.mp hchildren
      refine plannedAlike_call hr head offset offset' ?_ hperm ?_
      · exact fun p hp => ihargs p hp (hargs _ (List.mem_map_of_mem hp))
      · exact fun p hp => ih p hp (hoptions _ (List.mem_map_of_mem (List.mem_map_of_mem hp)))
  | @fn params body body' _ ih =>
      obtain ⟨-, hchildren⟩ := everywhere_iff.mp hregular
      exact plannedAlike_fn params (ih (hchildren body (.head _)))

end

/-! ## Building -/

theorem build_runFrom_of_plan {r : Registry} {e : Expr} {start next : Nat} {p : Plan}
    (h : (e.plan r []).runFrom start = (.ok p, next)) :
    ((e.build r).runFrom start).1 = (p.term r.normalizer).mapError .argument := by
  rw [build, Drawing.runFrom_bind, h]
  exact congrArg Prod.fst (Drawing.runFrom_ofOutcome _ _ _)

/-- An expression in another order builds the same term up to the numbers that the two draw, or both
fail. -/
theorem Rearranged.build {r : Registry}
    (hr : ∀ name c, r.resolve name = .ok c → c.operation.Ordinary) {e e' : Expr}
    (h : e.Rearranged e') (hregular : e.Everywhere Regular) (hregular' : e'.Everywhere Regular)
    (start start' : Nat) :
    ∃ pairs, Pairs pairs (List.range' start e.paramCount) (List.range' start' e'.paramCount) ∧
      Agree (fun _ _ => True) (Term.Renamed Operation.Ordinary (Paired pairs))
        ((e.build r).runFrom start).1 ((e'.build r).runFrom start').1 := by
  have hplanned {d d' : Expr} (h : d.Rearranged d') (hd : d.Everywhere Regular) {start : Nat}
      {p : Plan} {next : Nat} (hp : (d.plan r []).runFrom start = (.ok p, next)) (start' : Nat) :
      ∃ q pairs, (d'.plan r []).runFrom start' = (.ok q, start' + d'.paramCount) ∧
        Pairs pairs (List.range' start d.paramCount) (List.range' start' d'.paramCount) ∧
        p.Rearranged Operation.Ordinary (Paired pairs) q := by
    obtain rfl := (plan_settles r d []).next_eq hp
    obtain ⟨q, pairs, hq, hpairs, hpq⟩ := h.plannedAlike hr hd rfl ⟨start, rfl, hp⟩ start'
    exact ⟨q, pairs, hq, hpairs, hpq _ ⟨.nil, fun _ => id⟩⟩
  rcases hp : (e.plan r []).runFrom start with ⟨x, next⟩
  cases x with
  | ok p =>
      obtain ⟨q, pairs, hq, hpairs, hpq⟩ := hplanned h hregular hp start'
      refine ⟨pairs, hpairs, ?_⟩
      rw [build_runFrom_of_plan hp, build_runFrom_of_plan hq]
      have hterm := hpq.term (by decide) (by decide) r.normalizer
      exact hterm.mapError fun _ _ _ => trivial
  | error fault =>
      rcases hq : (e'.plan r []).runFrom start' with ⟨y, next'⟩
      cases y with
      | ok q =>
          -- a plan of the other gives one of this, as the order can be changed back
          obtain ⟨p, pairs, hp', -⟩ := hplanned h.symm hregular' hq start
          exact nomatch hp.symm.trans hp'
      | error fault' =>
          have hlength : (List.range' start e.paramCount).length =
              (List.range' start' e'.paramCount).length := by simp [h.paramCount_eq]
          refine ⟨_, Pairs.zip hlength, ?_⟩
          rw [Expr.build, Expr.build, Drawing.runFrom_bind, Drawing.runFrom_bind, hp, hq]
          exact .error trivial

/-! ### Without offsets -/

mutual

theorem counterpart_unplaced : ∀ e : Expr, e.Counterpart Eq (fun _ _ => True) e.unplaced
  | .null => .null
  | .bool value => .bool value
  | .number value => .number value
  | .string value => .string value
  | .symbol name _ => .symbol name trivial
  | .vector items => .vector (counterpart_unplacedItems items)
  | .map entries => .map (counterpart_unplacedEntries entries)
  | .call _ _ args options =>
      .call rfl trivial (counterpart_unplacedItems args) (counterpart_unplacedEntries options)
  | .fn params body => .fn params (counterpart_unplaced body)

theorem counterpart_unplacedItems : ∀ items : List Expr,
    List.Forall₂ (Counterpart Eq fun _ _ => True) items (unplacedItems items)
  | [] => .nil
  | e :: rest => .cons (counterpart_unplaced e) (counterpart_unplacedItems rest)

theorem counterpart_unplacedEntries : ∀ entries : List (String × Expr),
    Named (Counterpart Eq fun _ _ => True) entries (unplacedEntries entries)
  | [] => .nil
  | (name, e) :: rest => .cons name (counterpart_unplaced e) (counterpart_unplacedEntries rest)

end

theorem build_unplaced (r : Registry) (e : Expr) (start : Nat) :
    Agree (Error.Counterpart Eq fun _ _ => True) Eq ((e.build r).runFrom start).1
      ((e.unplaced.build r).runFrom start).1 := by
  have hsame : ∀ head head', head = head' → r.get? head = r.get? head' :=
    fun _ _ h => congrArg r.get? h
  exact (build_counterpart rfl hsame (counterpart_unplaced e) start).1

/-- Offsets only matter for errors. -/
theorem build_of_unplaced_eq {d e : Expr} (h : d.unplaced = e.unplaced) (r : Registry)
    (start : Nat) :
    Agree (fun _ _ => True) Eq ((d.build r).runFrom start).1 ((e.build r).runFrom start).1 := by
  have hd := build_unplaced r d start
  have he := build_unplaced r e start
  rw [h] at hd
  refine .of_ok ?_ ?_
  · intro t ht
    obtain ⟨u, hu, rfl⟩ := hd.ok_left ht
    obtain ⟨s, hs, rfl⟩ := he.ok_right hu
    exact ⟨s, hs, rfl⟩
  · intro t ht
    obtain ⟨u, hu, rfl⟩ := he.ok_left ht
    obtain ⟨s, hs, -⟩ := hd.ok_right hu
    exact ⟨s, hs⟩

end Expr

namespace Registry

/-- In which order options are given does not matter to a command: it makes the same term of them,
or fails.  A text with options and entries in another order, or with options elsewhere among the
arguments, is read as well, and builds the same term up to the numbers of its parameters, or both
texts build none.  The numbers that the one text draws are paired with those of the other, each with
one, and so are the literals of the numbers as long as there is room for all of them. -/
theorem build_rearranged :
    (∀ (c : Command) (n : Normalizer) (args : List Value) (options options' : Options),
      options.Perm options' →
        Agree (fun _ _ => True) Eq (c.construct n args options) (c.construct n args options')) ∧
    ∀ {r : Registry} {text text' : String} {e e' : Expr} {ts : List (Placed Token)},
      r.OnlyCatalogue → Expr.parse text = .ok e → e.Rearranged e' →
      Token.Layout 0 ts text'.toList → e'.Words (ts.map Placed.value) →
        (∃ d, Expr.parse text' = .ok d ∧ d.unplaced = e'.unplaced) ∧
        ∀ start start', ∃ pairs,
          Pairs pairs (List.range' start e.paramCount) (List.range' start' e'.paramCount) ∧
          Relator.BiUnique (Paired pairs) ∧
          (start + e.paramCount ≤ 2 ^ 53 → start' + e'.paramCount ≤ 2 ^ 53 →
            Relator.BiUnique (PairedLiterals pairs)) ∧
          Agree (fun _ _ => True) (Term.Renamed Operation.Ordinary (Paired pairs))
            ((r.build text).runFrom start).1 ((r.build text').runFrom start').1 := by
  refine ⟨fun c n args options options' hperm => Command.construct_order hperm, ?_⟩
  intro r text text' e e' ts hr hparse h hlayout hwords
  have hordinary : ∀ name c, r.resolve name = .ok c → c.operation.Ordinary :=
    fun name c hc => Command.catalogue_ordinary c (hr.resolve_mem hc)
  obtain ⟨-, -, -, hfits⟩ := Expr.parse_eq_ok_iff.mp hparse
  have hfits' := hfits.rearranged h
  obtain ⟨d, hd, heq⟩ := hwords.exists_phrase
  have hparse' : Expr.parse text' = .ok d := Expr.parse_eq_ok_iff.mpr
    ⟨ts, tokenize_eq_ok_iff.mpr hlayout, hd, hfits'.of_unplaced_eq heq⟩
  refine ⟨⟨d, hparse', heq⟩, ?_⟩
  intro start start'
  obtain ⟨pairs, hpairs, hbuild⟩ := h.build hordinary hfits.regular hfits'.regular start start'
  have hoffsets := Expr.build_of_unplaced_eq heq.symm r start'
  rw [build_of_parse hparse, build_of_parse hparse']
  refine ⟨pairs, hpairs, hpairs.biUnique List.nodup_range' List.nodup_range', ?_, ?_⟩
  · intro hroom hroom'
    refine hpairs.biUnique_literals List.nodup_range' List.nodup_range' ?_ ?_
    · intro id hid
      exact Nat.lt_of_lt_of_le (List.mem_range'_1.mp hid).2 hroom
    · intro id' hid'
      exact Nat.lt_of_lt_of_le (List.mem_range'_1.mp hid').2 hroom'
  · refine (hbuild.comp hoffsets).imp (fun _ _ => id) ?_
    rintro t u ⟨_, ht, rfl⟩
    exact ht

/-- Two options change places, and one of them comes before the arguments.  The parameters of the
functions in them get other numbers.  An option that is given twice is an error in any order. -/
theorem build_rearranged_fold :
    let fold : Command := { name := "fold", operation := .fold,
                            required := [.sequence, .any, .function 2],
                            options := [⟨"emit", .function 3⟩, ⟨"final_emit", .function 1⟩] }
    let built (text : String) := (((blank.register fold).registry.build text).runFrom 1).1
    (∃ t t',
      built "(fold [] nil (fn [a b] a) :emit (fn [a b c] [c]) :final-emit (fn [x] x))" = .ok t ∧
      built "(fold :final_emit (fn [x] x) [] nil :emit (fn [a b c] [c]) (fn [a b] a))" = .ok t' ∧
      ∃ pairs, Pairs pairs (List.range' 1 6) (List.range' 1 6) ∧
        Relator.BiUnique (PairedLiterals pairs) ∧
        t.Renamed Operation.Ordinary (Paired pairs) t') ∧
    ∀ v w, Agree (fun _ _ => True) Eq (fold.construct default [v] [("emit", v), ("emit", w)])
      (fold.construct default [v] [("emit", w), ("emit", v)]) := by
  intro fold built
  have hr : (blank.register fold).registry.OnlyCatalogue :=
    (onlyCatalogue_empty _ _).register (by decide +kernel)
  obtain ⟨hcommand, htext⟩ := build_rearranged
  refine ⟨?_, fun v w => hcommand fold default [v] _ _ (.swap _ _ _)⟩
  let reducer (offset : Nat) : Expr := .fn ["a", "b"] (.symbol "a" offset)
  let emit : Expr.Twins := ⟨"emit", .fn ["a", "b", "c"] (.vector [.symbol "c" 45]),
    .fn ["a", "b", "c"] (.vector [.symbol "c" 55])⟩
  let last : Expr.Twins := ⟨"final_emit", .fn ["x"] (.symbol "x" 69), .fn ["x"] (.symbol "x" 26)⟩
  have hparse : Expr.parse
      "(fold [] nil (fn [a b] a) :emit (fn [a b c] [c]) :final-emit (fn [x] x))" =
      .ok (.call "fold" 1 [.vector [], .null, reducer 23] [emit.left, last.left]) := rfl
  have hparse' : Expr.parse
      "(fold :final_emit (fn [x] x) [] nil :emit (fn [a b c] [c]) (fn [a b] a))" =
      .ok (.call "fold" 1 [.vector [], .null, reducer 69] [last.right, emit.right]) := rfl
  have hitems : ∀ p ∈ [(Expr.symbol "c" 45, Expr.symbol "c" 55)], p.1.Rearranged p.2 :=
    List.forall_mem_singleton.mpr (.symbol "c" 45 55)
  have hnone : ∀ p ∈ ([] : List (Expr × Expr)), p.1.Rearranged p.2 := List.forall_mem_nil _
  have hargs : ∀ p ∈ [(Expr.vector [], Expr.vector []), (.null, .null), (reducer 23, reducer 69)],
      p.1.Rearranged p.2 :=
    List.forall_mem_cons.mpr ⟨.vector hnone, List.forall_mem_cons.mpr ⟨.null,
      List.forall_mem_singleton.mpr (.fn _ (.symbol "a" 23 69))⟩⟩
  have hoptions : ∀ p ∈ [emit, last], p.here.Rearranged p.there :=
    List.forall_mem_cons.mpr ⟨.fn _ (.vector hitems),
      List.forall_mem_singleton.mpr (.fn _ (.symbol "x" 69 26))⟩
  have h := Expr.Rearranged.call "fold" 1 1 hargs (.swap last emit []) hoptions
  obtain ⟨ts, htokens, hphrase, -⟩ := Expr.parse_eq_ok_iff.mp hparse'
  obtain ⟨-, hbuild⟩ := htext hr hparse h (tokenize_eq_ok_iff.mp htokens) ⟨ts, hphrase, rfl⟩
  obtain ⟨pairs, hpairs, -, hliterals, hagree⟩ := hbuild 1 1
  have hok :
      (built "(fold [] nil (fn [a b] a) :emit (fn [a b c] [c]) :final-emit (fn [x] x))").isOk := by
    decide +kernel
  obtain ⟨t, ht⟩ := isOk_iff.mp hok
  obtain ⟨t', ht', hrenamed⟩ := hagree.ok_left ht
  exact ⟨t, t', ht, ht', pairs, hpairs, hliterals (by decide) (by decide), hrenamed⟩

end Registry

end Reql
