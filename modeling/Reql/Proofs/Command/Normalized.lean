/-
# `Reql.Proofs.Command.Normalized` — normalizing in advance changes no command

A caller may normalize the values for a command first or leave that to the command.
Both give the same term, and where some value has no term there is none for the
command either.

This holds of every command that asks only stable questions (`Check.Stable`), and so
of the whole catalogue.  A check for a literal would break it: an array of literals
is one, the term that makes it is not.
-/
import Reql.Proofs.Command.Makes

namespace Reql.Command

variable {c : Command} {n : Normalizer} {args : List Value} {options : Options} {t : Term}

/-! ## The catalogue -/

theorem catalogue_stable : ∀ c ∈ Catalogue.commands, ∀ check ∈ c.checks, check.Stable := by
  decide +kernel

instance (c : Command) : Decidable c.OwnOptions := by
  unfold OwnOptions
  infer_instance

theorem catalogue_ownOptions : ∀ c ∈ Catalogue.commands, c.OwnOptions := by
  decide +kernel

/-! ## Every value given to a command has a term -/

theorem normalize_of_string? {v : Value} {text : String} (h : v.string? = some text) :
    ∃ t, n.normalize v = .ok t := by
  cases v with
  | term t => exact ⟨t, Normalizer.normalizeAt_term _ t⟩
  | string value =>
      exact ⟨.literal (.string value), by rw [Normalizer.normalize, Normalizer.normalizeAt]⟩
  | null | bool _ | number _ | array _ | object _ => exact nomatch h

theorem normalizes_of_pairs {pairs : List (Value × Value)} {us : List (String × Term)}
    (h : List.Forall₂ (fun pair u => pair.1.string? = some u.1 ∧ n.normalize pair.2 = .ok u.2)
      pairs us) :
    ∃ ts, List.Forall₂ (fun v t => n.normalize v = .ok t)
      (pairs.flatMap fun pair => [pair.1, pair.2]) ts := by
  induction h with
  | nil => exact ⟨[], .nil⟩
  | @cons pair u _ _ hpair _ ih =>
      obtain ⟨t, ht⟩ := normalize_of_string? (n := n) hpair.1
      obtain ⟨ts, hts⟩ := ih
      exact ⟨t :: u.2 :: ts, .cons ht (.cons hpair.2 hts)⟩

theorem normalizes_of_construct (hc : c.OwnOptions) (h : c.construct n args options = .ok t) :
    ∃ ts us, List.Forall₂ (fun v t => n.normalize v = .ok t) args ts ∧
      Named (fun v t => n.normalize v = .ok t) options us := by
  cases construct_makes hc h with
  | inOrder _ hts hus _ => exact ⟨_, _, hts, hus⟩
  | functionFirst _ hargs hothers hfunction hus _ =>
      subst hargs
      exact ⟨_, _, List.rel_append hothers (.cons hfunction .nil), hus⟩
  | keyed hargs hoptions hpairs _ =>
      subst hargs hoptions
      obtain ⟨ts, hts⟩ := normalizes_of_pairs hpairs
      exact ⟨ts, [], hts, .nil⟩

/-! ## A value and its term stand for each other -/

/-- Terms as values. -/
def givenTerms (ts : List Term) : List Value := ts.map .term

/-- Named terms as options. -/
def givenOptions (us : List (String × Term)) : Options := us.map fun u => (u.1, .term u.2)

/-- A value and its term stand for each other in a command that asks only stable
questions.  Errors may quote another kind. -/
theorem exchange_normalized (n : Normalizer) (hc : ∀ check ∈ c.checks, check.Stable) :
    c.Exchange n n (fun _ _ => True)
      (fun v w => ∃ t, n.normalize v = .ok t ∧ w = .term t) Eq where
  refl _ := trivial
  kind _ := .inr fun _ _ => trivial
  alike := by
    rintro v w ⟨t, ht, rfl⟩
    exact Value.alike_of_normalizeAt ht
  admits := by
    rintro v w ⟨t, ht, rfl⟩ check hcheck
    exact (Value.alike_of_normalizeAt ht).admits (hc check hcheck)
  normalize := by
    rintro v w ⟨t, ht, rfl⟩
    rw [ht, Normalizer.normalize, Normalizer.normalizeAt_term]
    exact .ok rfl
  apply := by
    intro op ts ts' us us' _ hts hus
    rw [List.forall₂_eq_eq_eq] at hts
    rw [hts, named_eq_iff.mp hus]

theorem construct_agree_normalized (hc : ∀ check ∈ c.checks, check.Stable) {ts : List Term}
    {us : List (String × Term)} (hts : List.Forall₂ (fun v t => n.normalize v = .ok t) args ts)
    (hus : Named (fun v t => n.normalize v = .ok t) options us) :
    Agree (fun _ _ => True) Eq (c.construct n args options)
      (c.construct n (givenTerms ts) (givenOptions us)) := by
  refine (exchange_normalized n hc).construct ?_ ?_
  · refine List.forall₂_map_right_iff.mpr (hts.imp ?_)
    intro v t ht
    exact ⟨t, ht, rfl⟩
  · induction hus with
    | nil => exact .nil
    | cons name ht _ ih => exact .cons name ⟨_, ht, rfl⟩ ih

/-- What a command makes of values it makes of their terms. -/
theorem construct_eq_ok_iff_given (hc : ∀ check ∈ c.checks, check.Stable) {ts : List Term}
    {us : List (String × Term)} (hts : List.Forall₂ (fun v t => n.normalize v = .ok t) args ts)
    (hus : Named (fun v t => n.normalize v = .ok t) options us) :
    c.construct n args options = .ok t ↔
      c.construct n (givenTerms ts) (givenOptions us) = .ok t := by
  have hagree := construct_agree_normalized hc hts hus
  constructor
  · intro h
    obtain ⟨u, hu, rfl⟩ := hagree.ok_left h
    exact hu
  · intro h
    obtain ⟨u, hu, rfl⟩ := hagree.ok_right h
    exact hu

theorem normalizes_of_forall₂ {ts : List Term}
    (h : List.Forall₂ (fun v t => n.normalize v = .ok t) args ts) :
    ∀ v ∈ args, ∃ t, n.normalize v = .ok t :=
  exists_forall₂_iff.mp ⟨ts, h⟩

/-- Normalizing what a command is given never changes what it makes, and what has no
term makes the command fail. -/
theorem construct_normalized (hc : c ∈ Catalogue.commands) (n : Normalizer) (args : List Value)
    (options : Options) :
    (∀ ts us, List.Forall₂ (fun v t => n.normalize v = .ok t) args ts →
      Named (fun v t => n.normalize v = .ok t) options us → ∀ t,
        (c.construct n args options = .ok t ↔
          c.construct n (givenTerms ts) (givenOptions us) = .ok t)) ∧
    ((∃ v ∈ args, ∃ e, n.normalize v = .error e) ∨
        (∃ o ∈ options, ∃ e, n.normalize o.2 = .error e) →
      ∃ e, c.construct n args options = .error e) := by
  constructor
  · intro ts us hts hus t
    exact construct_eq_ok_iff_given (catalogue_stable c hc) hts hus
  · intro h
    cases hmade : c.construct n args options with
    | error e => exact ⟨e, rfl⟩
    | ok t =>
        obtain ⟨ts, us, hts, hus⟩ := normalizes_of_construct (catalogue_ownOptions c hc) hmade
        rcases h with ⟨v, hv, e, he⟩ | ⟨o, ho, e, he⟩
        · obtain ⟨u, hu⟩ := normalizes_of_forall₂ hts v hv
          exact nomatch he.symm.trans hu
        · obtain ⟨u, hu⟩ := normalizes_of_forall₂ hus.values o.2 (List.mem_map_of_mem ho)
          exact nomatch he.symm.trans hu

/-- A raw key and a raw array at the limit, and the same array beyond it. -/
theorem construct_normalized_object :
    let object : Command :=
      { name := "object", operation := .object, rest := some .any, assembly := .object }
    let key : Term := .literal (.string "k")
    let nulls : Term := .apply .makeArray [.literal .null] []
    (∀ t, object.construct ⟨1⟩ [.string "k", .array [.null]] [] = .ok t ↔
        object.construct ⟨1⟩ [.term key, .term nulls] [] = .ok t) ∧
      ∃ e, object.construct ⟨0⟩ [.string "k", .array [.null]] [] = .error e :=
  ⟨(construct_normalized (by decide +kernel) ⟨1⟩ [.string "k", .array [.null]] []).1
      [.literal (.string "k"), .apply .makeArray [.literal .null] []] []
      (.cons rfl (.cons rfl .nil)) .nil,
    (construct_normalized (by decide +kernel) ⟨0⟩ [.string "k", .array [.null]] []).2
      (.inl ⟨.array [.null], by simp, .nestingLimit, rfl⟩)⟩

end Reql.Command
