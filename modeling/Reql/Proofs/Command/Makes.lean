/-
# `Reql.Proofs.Command.Makes` — what a command makes of what it is given

Seven assemblies make terms in three ways only.  The parts stay in order, or the
function moves from the end to the front, or keys and values in turn become the
options of an object.  `construct_makes` says so, and with it that every value
given to a command has a term.

This is for commands as they are in the catalogue.  Any other command makes one node
too, of some of the values it is given (`createTerm_of_construct`).
-/
import Reql.Command.Catalogue
import Reql.Proofs.Command.Agreement

namespace Reql.Command

/-- The three ways in which a command makes a term. -/
inductive Makes (c : Command) (n : Normalizer) (args : List Value) (options : Options) :
    Term → Prop where
  | inOrder {ts : List Term} {us : List (String × Term)} : c.assembly ≠ .call →
      List.Forall₂ (fun v t => n.normalize v = .ok t) args ts →
      Named (fun v t => n.normalize v = .ok t) options us → (us.map Prod.fst).Nodup →
      Makes c n args options (.apply c.operation ts (Fields.ofList us))
  | functionFirst {others : List Value} {function : Value} {ts : List Term} {t : Term}
      {us : List (String × Term)} : c.assembly = .call →
      args = others ++ [function] → List.Forall₂ (fun v t => n.normalize v = .ok t) others ts →
      n.normalize function = .ok t →
      Named (fun v t => n.normalize v = .ok t) options us → (us.map Prod.fst).Nodup →
      Makes c n args options (.apply c.operation (t :: ts) (Fields.ofList us))
  | keyed {pairs : List (Value × Value)} {us : List (String × Term)} :
      args = pairs.flatMap (fun pair => [pair.1, pair.2]) → options = [] →
      List.Forall₂ (fun pair u => pair.1.string? = some u.1 ∧ n.normalize pair.2 = .ok u.2)
        pairs us → (us.map Prod.fst).Nodup →
      Makes c n args options (.apply .makeObj [] (Fields.ofList us))

/-- The command whose values become options takes no options of its own. -/
def OwnOptions (c : Command) : Prop := c.assembly = .object → c.options = []

variable {c : Command} {n : Normalizer} {args : List Value} {options : Options} {t : Term}

/-! ## The pieces of the assemblies -/

theorem splitDatabase_append (args : List Value) :
    (splitDatabase args).1 ++ (splitDatabase args).2 = args := by
  cases args with
  | nil => rfl
  | cons v rest =>
      rw [splitDatabase]
      split <;> rfl

theorem pairUp?_eq_some : ∀ {args : List Value} {pairs : List (Value × Value)},
    pairUp? args = some pairs → args = pairs.flatMap fun pair => [pair.1, pair.2]
  | [], _, h => by
      obtain rfl := Option.some.inj h
      rfl
  | [_], _, h => nomatch h
  | key :: value :: rest, _, h => by
      obtain ⟨pairs, hpairs, rfl⟩ := Option.map_eq_some_iff.mp h
      rw [List.flatMap_cons, ← pairUp?_eq_some hpairs]
      rfl

theorem options_eq_nil (hc : c.options = []) {u : Unit} (h : c.validateOptions options = .ok u) :
    options = [] := by
  cases options with
  | nil => rfl
  | cons entry rest => simp [validateOptions, verifyOptions, option?, hc] at h

theorem pairUp?_flatMap : ∀ pairs : List (Value × Value),
    pairUp? (pairs.flatMap fun pair => [pair.1, pair.2]) = some pairs
  | [] => rfl
  | (_, _) :: rest => Option.map_eq_some_iff.mpr ⟨rest, pairUp?_flatMap rest, rfl⟩

/-- A key is a string, or known only later. -/
def IsKey (v : Value) : Prop := v.isString = true ∨ v.isDeferred = true

theorem verifyKeys_eq_ok_iff {pairs : List (Value × Value)} (index : Nat) :
    c.verifyKeys index pairs = .ok () ↔ ∀ pair ∈ pairs, IsKey pair.1 := by
  induction pairs generalizing index with
  | nil => simp [verifyKeys]
  | cons pair rest ih =>
      obtain ⟨key, value⟩ := pair
      rw [verifyKeys, List.forall_mem_cons, ← ih (index + 1), IsKey, ← Bool.or_eq_true]
      split
      · next hkey => simp [hkey]
      · next hkey => simp [hkey]

theorem forall₂_of_keyed : ∀ {pairs : List (Value × Value)} {us : List (String × Term)},
    (∀ pair ∈ pairs, pair.1.isString) →
    Named (fun v t => n.normalize v = .ok t)
      (pairs.map fun pair => (pair.1.string?.getD "", pair.2)) us →
    List.Forall₂ (fun pair u => pair.1.string? = some u.1 ∧ n.normalize pair.2 = .ok u.2)
      pairs us
  | [], _, _, .nil => .nil
  | pair :: _, _, hstring, .cons _ hvalue hrest => by
      have hkey := hstring pair (.head _)
      rw [Value.isString_eq] at hkey
      obtain ⟨key, hkey⟩ := Option.isSome_iff_exists.mp hkey
      exact .cons ⟨by rw [hkey]; rfl, hvalue⟩
        (forall₂_of_keyed (fun p hp => hstring p (.tail _ hp)) hrest)

/-! ## The node that an assembly ends in -/

theorem createTerm_of_constructPlain (h : c.constructPlain n args options = .ok t) :
    n.createTerm c.operation args options = .ok t := by
  obtain ⟨_, -, h⟩ := bind_eq_ok_iff.mp h
  obtain ⟨_, -, h⟩ := bind_eq_ok_iff.mp h
  exact h

theorem createTerm_of_constructScoped (h : c.constructScoped n args options = .ok t) :
    n.createTerm c.operation args options = .ok t := by
  have hscoped : c.constructScoped n args options = (do
      c.validateArgs (splitDatabase args).2
      c.validateOptions options
      n.createTerm c.operation ((splitDatabase args).1 ++ (splitDatabase args).2) options) := rfl
  rw [hscoped, splitDatabase_append] at h
  obtain ⟨_, -, h⟩ := bind_eq_ok_iff.mp h
  obtain ⟨_, -, h⟩ := bind_eq_ok_iff.mp h
  exact h

theorem createTerm_of_constructTableCreate (h : c.constructTableCreate n args options = .ok t) :
    n.createTerm c.operation args options = .ok t := by
  obtain ⟨_, -, h⟩ := bind_eq_ok_iff.mp h
  exact createTerm_of_constructScoped h

theorem createTerm_of_constructTime (h : c.constructTime n args options = .ok t) :
    n.createTerm c.operation args options = .ok t := by
  unfold constructTime at h
  split at h
  · exact nomatch h
  · obtain ⟨_, -, h⟩ := bind_eq_ok_iff.mp h
    obtain ⟨_, -, h⟩ := bind_eq_ok_iff.mp h
    exact h

theorem createTerm_of_constructBranch (h : c.constructBranch n args options = .ok t) :
    n.createTerm c.operation args options = .ok t := by
  unfold constructBranch at h
  obtain ⟨_, -, h⟩ := bind_eq_ok_iff.mp h
  split at h
  · exact nomatch h
  · obtain ⟨_, -, h⟩ := bind_eq_ok_iff.mp h
    exact h

theorem createTerm_of_constructCall (h : c.constructCall n args options = .ok t) :
    ∃ others function, args = others ++ [function] ∧
      n.createTerm c.operation (function :: others) options = .ok t := by
  obtain ⟨_, -, h⟩ := bind_eq_ok_iff.mp h
  obtain ⟨_, -, h⟩ := bind_eq_ok_iff.mp h
  cases hlast : args.getLast? with
  | none => simp [hlast] at h
  | some function =>
      simp only [hlast] at h
      split at h
      · exact nomatch h
      · exact ⟨_, function, (List.dropLast_append_getLast? function hlast).symm, h⟩

/-- The keys decide whether a node of all keys and values is made, or an object. -/
theorem constructObject_eq_ok_iff : c.constructObject n args options = .ok t ↔
    c.validateOptions options = .ok () ∧ ∃ pairs, pairUp? args = some pairs ∧
      (∀ pair ∈ pairs, IsKey pair.1) ∧
      (if pairs.any fun pair => pair.1.isDeferred then n.createTerm c.operation args []
        else n.createTerm .makeObj [] (pairs.map fun pair => (pair.1.string?.getD "", pair.2))) =
          .ok t := by
  rw [constructObject, check_bind_eq_ok_iff]
  refine and_congr_right fun _ => ?_
  cases pairUp? args with
  | none => simp
  | some pairs => simp only [check_bind_eq_ok_iff, verifyKeys_eq_ok_iff, Option.some.injEq,
      exists_eq_left']

/-- Some key is only known later, or all of them are strings and become names. -/
theorem createTerm_of_constructObject (h : c.constructObject n args options = .ok t) :
    c.validateOptions options = .ok () ∧ ∃ pairs, pairUp? args = some pairs ∧
      (n.createTerm c.operation args [] = .ok t ∨
        (∀ pair ∈ pairs, pair.1.isString) ∧
          n.createTerm .makeObj [] (pairs.map fun pair => (pair.1.string?.getD "", pair.2)) =
            .ok t) := by
  obtain ⟨hoptions, pairs, hpairs, hkeys, hmade⟩ := constructObject_eq_ok_iff.mp h
  refine ⟨hoptions, pairs, hpairs, ?_⟩
  split at hmade
  · exact .inl hmade
  · next hdeferred =>
      refine .inr ⟨fun pair hpair => (hkeys pair hpair).resolve_right fun hd => ?_, hmade⟩
      exact hdeferred (List.any_eq_true.mpr ⟨pair, hpair, hd⟩)

/-! ## The assemblies -/

theorem makes_of_createTerm (hc : c.assembly ≠ .call)
    (h : n.createTerm c.operation args options = .ok t) :
    c.Makes n args options t := by
  obtain ⟨ts, us, hts, hus, -, hnodup, rfl⟩ := Normalizer.createTerm_eq_ok_iff.mp h
  exact .inOrder hc hts hus hnodup

theorem makes_of_constructObject (hc : c.assembly ≠ .call) (ho : c.options = [])
    (h : c.constructObject n args options = .ok t) : c.Makes n args options t := by
  obtain ⟨hoptions, pairs, hpairs, hmade⟩ := createTerm_of_constructObject h
  obtain rfl := options_eq_nil ho hoptions
  rcases hmade with hmade | ⟨hstring, hmade⟩
  · exact makes_of_createTerm hc hmade
  · obtain ⟨ts, us, hts, hus, -, hnodup, rfl⟩ := Normalizer.createTerm_eq_ok_iff.mp hmade
    obtain rfl := List.forall₂_nil_left_iff.mp hts
    exact .keyed (pairUp?_eq_some hpairs) rfl (forall₂_of_keyed hstring hus) hnodup

theorem makes_of_constructCall (hc : c.assembly = .call)
    (h : c.constructCall n args options = .ok t) :
    c.Makes n args options t := by
  obtain ⟨others, function, hargs, h⟩ := createTerm_of_constructCall h
  obtain ⟨ts, us, hts, hus, -, hnodup, rfl⟩ := Normalizer.createTerm_eq_ok_iff.mp h
  obtain ⟨t, ts, hfunction, hothers, rfl⟩ := List.forall₂_cons_left_iff.mp hts
  exact .functionFirst hc hargs hothers hfunction hus hnodup

/-- Whatever the assembly, a term is made in one of the three ways. -/
theorem construct_makes (hc : c.OwnOptions) (h : c.construct n args options = .ok t) :
    c.Makes n args options t := by
  unfold construct at h
  split at h
  · next hassembly =>
      exact makes_of_createTerm (by simp [hassembly]) (createTerm_of_constructPlain h)
  · next hassembly =>
      exact makes_of_createTerm (by simp [hassembly]) (createTerm_of_constructScoped h)
  · next hassembly =>
      exact makes_of_createTerm (by simp [hassembly]) (createTerm_of_constructTableCreate h)
  · next hassembly => exact makes_of_constructObject (by simp [hassembly]) (hc hassembly) h
  · next hassembly =>
      exact makes_of_createTerm (by simp [hassembly]) (createTerm_of_constructTime h)
  · next hassembly => exact makes_of_constructCall hassembly h
  · next hassembly =>
      exact makes_of_createTerm (by simp [hassembly]) (createTerm_of_constructBranch h)

/-- Whatever the command, a term is one node, with values that were given for it. -/
theorem createTerm_of_construct (h : c.construct n args options = .ok t) :
    ∃ op vs os, n.createTerm op vs os = .ok t ∧ vs ⊆ args ∧
      os.map Prod.snd ⊆ args ++ options.map Prod.snd := by
  have hinOrder (h : n.createTerm c.operation args options = .ok t) :
      ∃ op vs os, n.createTerm op vs os = .ok t ∧ vs ⊆ args ∧
        os.map Prod.snd ⊆ args ++ options.map Prod.snd :=
    ⟨_, args, options, h, List.Subset.refl _, List.subset_append_right _ _⟩
  unfold construct at h
  split at h
  · exact hinOrder (createTerm_of_constructPlain h)
  · exact hinOrder (createTerm_of_constructScoped h)
  · exact hinOrder (createTerm_of_constructTableCreate h)
  · obtain ⟨-, pairs, hpairs, hmade | ⟨-, hmade⟩⟩ := createTerm_of_constructObject h
    · exact ⟨_, args, [], hmade, List.Subset.refl _, List.nil_subset _⟩
    · refine ⟨_, [], _, hmade, List.nil_subset _, fun v hv => List.mem_append_left _ ?_⟩
      obtain ⟨_, hentry, rfl⟩ := List.mem_map.mp hv
      obtain ⟨pair, hpair, rfl⟩ := List.mem_map.mp hentry
      rw [pairUp?_eq_some hpairs]
      exact List.mem_flatMap.mpr ⟨pair, hpair, .tail _ (.head _)⟩
  · exact hinOrder (createTerm_of_constructTime h)
  · obtain ⟨others, function, rfl, hmade⟩ := createTerm_of_constructCall h
    refine ⟨_, _, options, hmade, ?_, List.subset_append_right _ _⟩
    exact List.cons_subset.mpr ⟨List.mem_append_right _ (.head _), List.subset_append_left _ _⟩
  · exact hinOrder (createTerm_of_constructBranch h)

end Reql.Command
