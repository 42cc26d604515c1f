/-
# `Reql.Proofs.Term.Nodes` — what holds at every node of a term

A property of single nodes holds `Everywhere` in a term if it holds of the term and of all
terms below it.  Validity is of this kind (`valid_iff_everywhere`): every node is a literal
and nothing besides, or it has an operation other than that of literals and no literal.  The
nodes can also be listed; the list is as long as the term counts nodes (`length_nodes`).
-/
import Reql.Term.Basic

namespace Reql.Term

/-- Every node of a term has a property. -/
inductive Everywhere (P : Term → Prop) : Term → Prop where
  | node {t : Term} : P t → (∀ u ∈ t.args, Everywhere P u) →
      (∀ option ∈ t.options, Everywhere P option.2) → Everywhere P t

/-! ## All nodes -/

mutual

/-- The term and all terms below it, arguments before options. -/
def nodes : Term → List Term
  | .literal value => [.literal value]
  | .apply op args options => .apply op args options :: (argNodes args ++ optionNodes options)

def argNodes : List Term → List Term
  | [] => []
  | t :: rest => t.nodes ++ argNodes rest

def optionNodes : List (String × Term) → List Term
  | [] => []
  | (_, t) :: rest => t.nodes ++ optionNodes rest

end

mutual

theorem length_nodes : ∀ t : Term, t.nodes.length = t.nodeCount
  | .literal _ => rfl
  | .apply _ args options => by
      rw [nodes, List.length_cons, List.length_append, length_argNodes args,
        length_optionNodes options, nodeCount]
      omega

theorem length_argNodes : ∀ args : List Term, (argNodes args).length = countArgs args
  | [] => rfl
  | t :: rest => by
      rw [argNodes, List.length_append, length_nodes t, length_argNodes rest, countArgs]

theorem length_optionNodes :
    ∀ options : List (String × Term), (optionNodes options).length = countOptions options
  | [] => rfl
  | (_, t) :: rest => by
      rw [optionNodes, List.length_append, length_nodes t, length_optionNodes rest, countOptions]

end

mutual

/-- What holds of all listed nodes holds everywhere. -/
theorem everywhere_of_nodes {P : Term → Prop} : ∀ {t : Term}, (∀ u ∈ t.nodes, P u) → t.Everywhere P
  | .literal _, h =>
      .node (h _ List.mem_cons_self) (List.forall_mem_nil _) (List.forall_mem_nil _)
  | .apply _ _ _, h => by
      rw [nodes] at h
      obtain ⟨hroot, hbelow⟩ := List.forall_mem_cons.mp h
      obtain ⟨hargs, hoptions⟩ := List.forall_mem_append.mp hbelow
      exact .node hroot (everywhere_of_argNodes hargs) (everywhere_of_optionNodes hoptions)

theorem everywhere_of_argNodes {P : Term → Prop} :
    ∀ {args : List Term}, (∀ u ∈ argNodes args, P u) → ∀ t ∈ args, t.Everywhere P
  | [], _ => List.forall_mem_nil _
  | _ :: _, h => by
      obtain ⟨hfirst, hrest⟩ := List.forall_mem_append.mp h
      exact List.forall_mem_cons.mpr ⟨everywhere_of_nodes hfirst, everywhere_of_argNodes hrest⟩

theorem everywhere_of_optionNodes {P : Term → Prop} : ∀ {options : List (String × Term)},
    (∀ u ∈ optionNodes options, P u) → ∀ option ∈ options, option.2.Everywhere P
  | [], _ => List.forall_mem_nil _
  | (_, _) :: _, h => by
      obtain ⟨hfirst, hrest⟩ := List.forall_mem_append.mp h
      exact List.forall_mem_cons.mpr ⟨everywhere_of_nodes hfirst, everywhere_of_optionNodes hrest⟩

end

/-! ## Validity -/

/-- A literal without arguments and options, or an operation of another kind without a
literal. -/
def Unmixed (t : Term) : Prop :=
  (t.operation = .datum ∧ t.datum?.isSome ∧ t.args = [] ∧ t.options = []) ∨
    (t.operation ≠ .datum ∧ t.datum? = none)

theorem validArgs_iff : ∀ {ts : List Term}, ValidArgs ts ↔ ∀ t ∈ ts, t.Valid
  | [] => by simp [ValidArgs]
  | t :: rest => by rw [ValidArgs, validArgs_iff, List.forall_mem_cons]

theorem validOptions_iff : ∀ {us : List (String × Term)}, ValidOptions us ↔ ∀ u ∈ us, u.2.Valid
  | [] => by simp [ValidOptions]
  | (name, t) :: rest => by rw [ValidOptions, validOptions_iff, List.forall_mem_cons]

@[simp] theorem valid_literal (value : Datum) : (literal value).Valid := by
  rw [Valid]
  trivial

theorem valid_apply_iff {op : Operation} {args : List Term} {options : List (String × Term)} :
    (apply op args options).Valid ↔
      op ≠ .datum ∧ (∀ t ∈ args, t.Valid) ∧ ∀ u ∈ options, u.2.Valid := by
  rw [Valid, validArgs_iff, validOptions_iff]

mutual

theorem everywhere_of_valid : ∀ {t : Term}, t.Valid → t.Everywhere Unmixed
  | .literal _, _ => .node (.inl ⟨rfl, rfl, rfl, rfl⟩) (List.forall_mem_nil _) (List.forall_mem_nil _)
  | .apply _ _ _, h => by
      rw [Valid] at h
      obtain ⟨hop, hargs, hoptions⟩ := h
      exact .node (.inr ⟨hop, rfl⟩) (everywhere_of_validArgs hargs)
        (everywhere_of_validOptions hoptions)

theorem everywhere_of_validArgs :
    ∀ {ts : List Term}, ValidArgs ts → ∀ t ∈ ts, t.Everywhere Unmixed
  | [], _ => List.forall_mem_nil _
  | _ :: _, h => by
      rw [ValidArgs] at h
      exact List.forall_mem_cons.mpr ⟨everywhere_of_valid h.1, everywhere_of_validArgs h.2⟩

theorem everywhere_of_validOptions :
    ∀ {us : List (String × Term)}, ValidOptions us → ∀ u ∈ us, u.2.Everywhere Unmixed
  | [], _ => List.forall_mem_nil _
  | (_, _) :: _, h => by
      rw [ValidOptions] at h
      exact List.forall_mem_cons.mpr ⟨everywhere_of_valid h.1, everywhere_of_validOptions h.2⟩

end

/-- A term is valid if none of its nodes is a literal and an operation at once. -/
theorem valid_iff_everywhere {t : Term} : t.Valid ↔ t.Everywhere Unmixed := by
  refine ⟨everywhere_of_valid, fun h => ?_⟩
  induction h with
  | @node t hnode _ _ ihargs ihoptions =>
      cases t with
      | literal value => exact valid_literal value
      | apply op args options =>
          refine valid_apply_iff.mpr ⟨?_, ihargs, ihoptions⟩
          rcases hnode with ⟨-, hliteral, -⟩ | ⟨hop, -⟩
          · exact nomatch hliteral
          · exact hop

end Reql.Term
