/-
# `Reql.Proofs.Outcome` — outcomes, and two of them side by side

A fallible computation over a list is done item by item, so it succeeds exactly
when it does on each item (`mapM_eq_ok_iff`).  Two computations *agree* when they
succeed together with related answers, or fail together with related errors;
agreement passes through sequencing and through lists.

`Named R` relates two lists of named things: the names are the same, place for
place, and the things are related by `R`.
-/
import Mathlib.Data.List.Forall2
import Reql.Fields

namespace Reql

variable {α β γ δ ε ζ : Type}

theorem bind_eq_ok_iff {x : Except ε α} {f : α → Except ε β} {b : β} :
    x >>= f = .ok b ↔ ∃ a, x = .ok a ∧ f a = .ok b := by
  cases x <;> simp [bind, Except.bind]

theorem check_bind_eq_ok_iff {x : Except ε Unit} {f : Unit → Except ε β} {b : β} :
    x >>= f = .ok b ↔ x = .ok () ∧ f () = .ok b := by
  cases x <;> simp [bind, Except.bind]

theorem mapError_eq_ok_iff {x : Except ε α} {f : ε → ζ} {a : α} :
    x.mapError f = .ok a ↔ x = .ok a := by
  cases x <;> simp [Except.mapError]

theorem isOk_iff {x : Except ε α} : x.isOk = true ↔ ∃ a, x = .ok a := by
  cases x <;> simp [Except.isOk, Except.toBool]

theorem not_isOk_iff {x : Except ε α} : ¬ x.isOk = true ↔ ∃ e, x = .error e := by
  cases x <;> simp [Except.isOk, Except.toBool]

/-! ## Lists of named things -/

/-- The same names in the same places, and related things under them. -/
inductive Named (R : α → β → Prop) : List (String × α) → List (String × β) → Prop where
  | nil : Named R [] []
  | cons (name : String) {a : α} {b : β} {as : List (String × α)} {bs : List (String × β)} :
      R a b → Named R as bs → Named R ((name, a) :: as) ((name, b) :: bs)

namespace Named

variable {R : α → β → Prop} {as : List (String × α)} {bs : List (String × β)}

theorem names_eq (h : Named R as bs) : as.map Prod.fst = bs.map Prod.fst := by
  induction h with
  | nil => rfl
  | cons name _ _ ih => simp [ih]

theorem values (h : Named R as bs) :
    List.Forall₂ R (as.map Prod.snd) (bs.map Prod.snd) := by
  induction h with
  | nil => exact .nil
  | cons name hab _ ih => exact .cons hab ih

/-- The things of equal names are related. -/
theorem lookup (h : Named R as bs) (name : String) :
    Option.Rel R (as.lookup name) (bs.lookup name) := by
  induction h with
  | nil => exact .none
  | cons other hab _ ih =>
      by_cases hname : name = other
      · subst hname
        simpa using Option.Rel.some hab
      · simpa [List.lookup_cons, beq_eq_false_iff_ne.mpr hname] using ih

theorem insert (h : Named R as bs) (name : String) {a : α} {b : β} (hab : R a b) :
    Named R (Fields.insert name a as) (Fields.insert name b bs) := by
  induction h with
  | nil => exact .cons name hab .nil
  | cons other hold hrest ih =>
      simp only [Fields.insert]
      split
      · exact .cons name hab (.cons other hold hrest)
      · split
        · exact .cons name hab hrest
        · exact .cons other hold ih

theorem ofList (h : Named R as bs) : Named R (Fields.ofList as) (Fields.ofList bs) := by
  suffices ∀ {cs ds}, Named R cs ds →
      Named R (as.foldl (fun fields entry => Fields.insert entry.1 entry.2 fields) cs)
        (bs.foldl (fun fields entry => Fields.insert entry.1 entry.2 fields) ds) from this .nil
  induction h with
  | nil => exact fun hcd => hcd
  | cons name hab _ ih => exact fun hcd => ih (hcd.insert name hab)

end Named

theorem named_eq_iff {as bs : List (String × α)} : Named Eq as bs ↔ as = bs := by
  constructor
  · intro h
    induction h with
    | nil => rfl
    | cons name hab _ ih => rw [hab, ih]
  · rintro rfl
    induction as with
    | nil => exact .nil
    | cons entry rest ih => exact .cons entry.1 rfl ih

/-! ## Something related to each -/

theorem exists_forall₂_iff {R : α → β → Prop} {as : List α} :
    (∃ bs, List.Forall₂ R as bs) ↔ ∀ a ∈ as, ∃ b, R a b := by
  induction as with
  | nil => simp
  | cons a rest ih =>
      rw [List.forall_mem_cons, ← ih]
      constructor
      · rintro ⟨_, h⟩
        cases h with
        | cons hab hrest => exact ⟨⟨_, hab⟩, _, hrest⟩
      · rintro ⟨⟨b, hab⟩, bs, hrest⟩
        exact ⟨b :: bs, .cons hab hrest⟩

theorem exists_named_iff {R : α → β → Prop} {as : List (String × α)} :
    (∃ bs, Named R as bs) ↔ ∀ a ∈ as, ∃ b, R a.2 b := by
  induction as with
  | nil => exact ⟨fun _ => List.forall_mem_nil _, fun _ => ⟨[], .nil⟩⟩
  | cons a rest ih =>
      obtain ⟨name, a⟩ := a
      rw [List.forall_mem_cons, ← ih]
      constructor
      · rintro ⟨_, h⟩
        cases h with
        | cons _ hab hrest => exact ⟨⟨_, hab⟩, _, hrest⟩
      · rintro ⟨⟨b, hab⟩, bs, hrest⟩
        exact ⟨(name, b) :: bs, .cons name hab hrest⟩

/-! ## Lists related by a function -/

theorem forall₂_eq_map_iff {g : α → β} {as : List α} {bs : List β} :
    List.Forall₂ (fun a b => b = g a) as bs ↔ bs = as.map g := by
  constructor
  · intro h
    induction h with
    | nil => rfl
    | cons hab _ ih => rw [List.map_cons, hab, ih]
  · rintro rfl
    exact List.forall₂_map_right_iff.mpr (List.forall₂_same.mpr fun _ _ => rfl)

theorem named_eq_map_iff {g : α → β} {as : List (String × α)} {bs : List (String × β)} :
    Named (fun a b => b = g a) as bs ↔ bs = as.map fun a => (a.1, g a.2) := by
  constructor
  · intro h
    induction h with
    | nil => rfl
    | cons name hab _ ih => rw [List.map_cons, hab, ih]
  · rintro rfl
    induction as with
    | nil => exact .nil
    | cons a rest ih => exact .cons a.1 rfl ih

theorem named_map_left_iff {g : α → β} {R : β → γ → Prop} {as : List (String × α)}
    {cs : List (String × γ)} :
    Named R (as.map fun a => (a.1, g a.2)) cs ↔ Named (fun a c => R (g a) c) as cs := by
  constructor
  · intro h
    induction as generalizing cs with
    | nil =>
        cases h
        exact .nil
    | cons a rest ih =>
        obtain ⟨name, a⟩ := a
        cases h with
        | cons _ hac hrest => exact .cons name hac (ih hrest)
  · intro h
    induction h with
    | nil => exact .nil
    | cons name hac _ ih => exact .cons name hac ih

/-- Entries are put in order by their names, whatever becomes of what stands under them. -/
theorem ofList_map (g : α → β) (as : List (String × α)) :
    Fields.ofList (as.map fun a => (a.1, g a.2)) =
      (Fields.ofList as).map fun a => (a.1, g a.2) :=
  named_eq_map_iff.mp (named_eq_map_iff.mpr rfl).ofList

/-! ## Relating lists in two steps -/

theorem forall₂_comp_iff {R : α → β → Prop} {S : β → γ → Prop} {as : List α} {cs : List γ} :
    List.Forall₂ (fun a c => ∃ b, R a b ∧ S b c) as cs ↔
      ∃ bs, List.Forall₂ R as bs ∧ List.Forall₂ S bs cs := by
  constructor
  · intro h
    induction h with
    | nil => exact ⟨[], .nil, .nil⟩
    | cons hac _ ih =>
        obtain ⟨b, hab, hbc⟩ := hac
        obtain ⟨bs, has, hbs⟩ := ih
        exact ⟨b :: bs, .cons hab has, .cons hbc hbs⟩
  · rintro ⟨bs, has, hbs⟩
    induction has generalizing cs with
    | nil =>
        cases hbs
        exact .nil
    | cons hab _ ih =>
        cases hbs with
        | cons hbc hbs => exact .cons ⟨_, hab, hbc⟩ (ih hbs)

theorem named_comp_iff {R : α → β → Prop} {S : β → γ → Prop} {as : List (String × α)}
    {cs : List (String × γ)} :
    Named (fun a c => ∃ b, R a b ∧ S b c) as cs ↔ ∃ bs, Named R as bs ∧ Named S bs cs := by
  constructor
  · intro h
    induction h with
    | nil => exact ⟨[], .nil, .nil⟩
    | cons name hac _ ih =>
        obtain ⟨b, hab, hbc⟩ := hac
        obtain ⟨bs, has, hbs⟩ := ih
        exact ⟨(name, b) :: bs, .cons name hab has, .cons name hbc hbs⟩
  · rintro ⟨bs, has, hbs⟩
    induction has generalizing cs with
    | nil =>
        cases hbs
        exact .nil
    | cons name hab _ ih =>
        cases hbs with
        | cons _ hbc hbs => exact .cons name ⟨_, hab, hbc⟩ (ih hbs)

/-- Related lists have related last items, and are related without them. -/
theorem forall₂_splitLast {R : α → β → Prop} : ∀ {as : List α} {bs : List β},
    List.Forall₂ R as bs →
      Option.Rel R as.getLast? bs.getLast? ∧ List.Forall₂ R as.dropLast bs.dropLast
  | _, _, .nil => ⟨.none, .nil⟩
  | _, _, .cons hab .nil => ⟨.some hab, .nil⟩
  | _, _, .cons hab (.cons hab' hrest) => by
      obtain ⟨hlast, hothers⟩ := forall₂_splitLast (.cons hab' hrest)
      exact ⟨by simpa using hlast, .cons hab hothers⟩

/-! ## Lists of fallible computations -/

/-- Computes with what stands under a name. -/
def onValue (f : α → Except ε β) (entry : String × α) : Except ε (String × β) := do
  let b ← f entry.2
  return (entry.1, b)

theorem mapM_eq_ok_iff {f : α → Except ε β} {as : List α} {bs : List β} :
    as.mapM f = .ok bs ↔ List.Forall₂ (fun a b => f a = .ok b) as bs := by
  induction as generalizing bs with
  | nil =>
      rw [List.mapM_nil, List.forall₂_nil_left_iff]
      exact ⟨fun h => (Except.ok.inj h).symm, fun h => h ▸ rfl⟩
  | cons a as ih =>
      rw [List.mapM_cons, List.forall₂_cons_left_iff]
      constructor
      · intro h
        obtain ⟨b, hb, h⟩ := bind_eq_ok_iff.mp h
        obtain ⟨cs, hcs, h⟩ := bind_eq_ok_iff.mp h
        exact ⟨b, cs, hb, ih.mp hcs, (Except.ok.inj h).symm⟩
      · rintro ⟨b, cs, hb, hcs, rfl⟩
        rw [hb, ih.mpr hcs]
        rfl

theorem mapM_onValue_eq_ok_iff {f : α → Except ε β} {as : List (String × α)}
    {bs : List (String × β)} :
    as.mapM (onValue f) = .ok bs ↔ Named (fun a b => f a = .ok b) as bs := by
  rw [mapM_eq_ok_iff]
  constructor
  · intro h
    induction h with
    | nil => exact .nil
    | @cons a b _ _ hab _ ih =>
        obtain ⟨c, hc, hb⟩ := bind_eq_ok_iff.mp hab
        obtain rfl := Except.ok.inj hb
        exact .cons a.1 hc ih
  · intro h
    induction h with
    | nil => exact .nil
    | cons name hab _ ih => exact .cons (bind_eq_ok_iff.mpr ⟨_, hab, rfl⟩) ih

/-- The first failure is the failure of the whole list. -/
theorem mapM_of_error {f : α → Except ε β} {before after : List α} {a : α} {e : ε}
    (hbefore : ∀ c ∈ before, ∃ b, f c = .ok b) (ha : f a = .error e) :
    (before ++ a :: after).mapM f = .error e := by
  induction before with
  | nil =>
      rw [List.nil_append, List.mapM_cons, ha]
      rfl
  | cons c before ih =>
      obtain ⟨⟨b, hb⟩, hrest⟩ := List.forall_mem_cons.mp hbefore
      rw [List.cons_append, List.mapM_cons, hb, ih hrest]
      rfl

/-! ## Agreement -/

/-- Both succeed with answers related by `T`, or both fail with errors related by `E`. -/
inductive Agree (E : ε → ζ → Prop) (T : α → β → Prop) : Except ε α → Except ζ β → Prop where
  | ok {a : α} {b : β} : T a b → Agree E T (.ok a) (.ok b)
  | error {e : ε} {f : ζ} : E e f → Agree E T (.error e) (.error f)

namespace Agree

variable {E : ε → ζ → Prop} {T : α → β → Prop}

theorem bind {U : γ → δ → Prop} {x : Except ε α} {y : Except ζ β} {f : α → Except ε γ}
    {g : β → Except ζ δ} (h : Agree E T x y) (hfg : ∀ a b, T a b → Agree E U (f a) (g b)) :
    Agree E U (x >>= f) (y >>= g) := by
  cases h with
  | ok hab => exact hfg _ _ hab
  | error hef => exact .error hef

theorem ok_left {x : Except ε α} {y : Except ζ β} (h : Agree E T x y) {a : α} (hx : x = .ok a) :
    ∃ b, y = .ok b ∧ T a b := by
  cases h with
  | ok hab => exact ⟨_, rfl, Except.ok.inj hx ▸ hab⟩
  | error _ => exact nomatch hx

theorem ok_right {x : Except ε α} {y : Except ζ β} (h : Agree E T x y) {b : β} (hy : y = .ok b) :
    ∃ a, x = .ok a ∧ T a b := by
  cases h with
  | ok hab => exact ⟨_, rfl, Except.ok.inj hy ▸ hab⟩
  | error _ => exact nomatch hy

theorem imp {E' : ε → ζ → Prop} {T' : α → β → Prop} {x : Except ε α} {y : Except ζ β}
    (h : Agree E T x y) (hE : ∀ e f, E e f → E' e f) (hT : ∀ a b, T a b → T' a b) :
    Agree E' T' x y := by
  cases h with
  | ok hab => exact .ok (hT _ _ hab)
  | error hef => exact .error (hE _ _ hef)

/-- Which errors there are does not count: it is enough that either succeeds if the other does. -/
theorem of_ok {x : Except ε α} {y : Except ζ β} (h : ∀ a, x = .ok a → ∃ b, y = .ok b ∧ T a b)
    (h' : ∀ b, y = .ok b → ∃ a, x = .ok a) : Agree (fun _ _ => True) T x y := by
  cases x with
  | ok a =>
      obtain ⟨b, rfl, hab⟩ := h a rfl
      exact .ok hab
  | error e =>
      cases y with
      | ok b =>
          obtain ⟨a, ha⟩ := h' b rfl
          exact nomatch ha
      | error f => exact .error trivial

theorem comp {η : Type} {E' : ζ → η → Prop} {U : β → γ → Prop} {x : Except ε α} {y : Except ζ β}
    {z : Except η γ} (h : Agree E T x y) (h' : Agree E' U y z) :
    Agree (fun _ _ => True) (fun a c => ∃ b, T a b ∧ U b c) x z := by
  cases h with
  | ok hab =>
      cases h' with
      | ok hbc => exact .ok ⟨_, hab, hbc⟩
  | error _ =>
      cases h' with
      | error _ => exact .error trivial

theorem mapError {ε' ζ' : Type} {E' : ε' → ζ' → Prop} {f : ε → ε'} {g : ζ → ζ'} {x : Except ε α}
    {y : Except ζ β} (h : Agree E T x y) (hfg : ∀ e e', E e e' → E' (f e) (g e')) :
    Agree E' T (x.mapError f) (y.mapError g) := by
  cases h with
  | ok hab => exact .ok hab
  | error he => exact .error (hfg _ _ he)

theorem mapM {V : γ → δ → Prop} {f : γ → Except ε α} {g : δ → Except ζ β}
    (hfg : ∀ c d, V c d → Agree E T (f c) (g d)) {cs : List γ} {ds : List δ}
    (h : List.Forall₂ V cs ds) : Agree E (List.Forall₂ T) (cs.mapM f) (ds.mapM g) := by
  induction h with
  | nil => exact .ok .nil
  | cons hcd _ ih =>
      rw [List.mapM_cons, List.mapM_cons]
      refine (hfg _ _ hcd).bind ?_
      intro a b hab
      refine ih.bind ?_
      intro as bs habs
      exact .ok (.cons hab habs)

theorem mapM_onValue {V : γ → δ → Prop} {f : γ → Except ε α} {g : δ → Except ζ β}
    (hfg : ∀ c d, V c d → Agree E T (f c) (g d)) {cs : List (String × γ)}
    {ds : List (String × δ)} (h : Named V cs ds) :
    Agree E (Named T) (cs.mapM (onValue f)) (ds.mapM (onValue g)) := by
  induction h with
  | nil => exact .ok .nil
  | cons name hcd _ ih =>
      rw [List.mapM_cons, List.mapM_cons]
      have hentry : Agree E (fun a b => a.1 = name ∧ b.1 = name ∧ T a.2 b.2)
          (onValue f (name, _)) (onValue g (name, _)) :=
        (hfg _ _ hcd).bind fun a b hab => .ok ⟨rfl, rfl, hab⟩
      refine hentry.bind ?_
      rintro ⟨_, a⟩ ⟨_, b⟩ ⟨ha, hb, hab⟩
      obtain rfl : _ = name := ha
      obtain rfl := hb
      refine ih.bind ?_
      intro as bs habs
      exact .ok (.cons _ hab habs)

end Agree

end Reql
