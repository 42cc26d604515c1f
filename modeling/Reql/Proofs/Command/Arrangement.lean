/-
# `Reql.Proofs.Command.Arrangement` — where a command puts what it is given

What a command makes is one node.  Its `Arrangement` says which operation the node has and
where the values go that the command was given.  `Arrangement.parts` does the putting, for
things of any kind: values, and whatever stands for them elsewhere.

A command looks at values only to find out what they are, so values that are alike are
arranged alike (`arrangement_eq`).
-/
import Reql.Proofs.Command.Makes

namespace Reql.Command

/-- What goes where in the node of a command. -/
inductive Arrangement where
  /-- Everything stays in its place. -/
  | inOrder
  /-- The arguments stay in their places, and there are no options. -/
  | argumentsOnly
  /-- The last argument comes first. -/
  | functionFirst
  /-- Every second argument is an option of an object, under these names. -/
  | keyed (names : List String)

/-- What a node is made of. -/
structure Parts (α : Type) where
  operation : Operation
  args : List α
  options : List (String × α)

section

variable {α β : Type}

/-- The second of each pair of neighbours. -/
def everySecond : List α → List α
  | _ :: second :: rest => second :: everySecond rest
  | _ => []

/-- The parts of the node of a command that is given `args` and `options`. -/
def Arrangement.parts (c : Command) (args : List α) (options : List (String × α)) :
    Arrangement → Parts α
  | .inOrder => ⟨c.operation, args, options⟩
  | .argumentsOnly => ⟨c.operation, args, []⟩
  | .functionFirst => ⟨c.operation, args.getLast?.toList ++ args.dropLast, options⟩
  | .keyed names => ⟨.makeObj, [], names.zip (everySecond args)⟩

/-! ## Putting things in their places -/

variable {R : α → β → Prop} {as : List α} {bs : List β} {os : List (String × α)}
  {os' : List (String × β)}

theorem Arrangement.operation_parts (a : Arrangement) (c : Command) (as : List α) (bs : List β)
    (os : List (String × α)) (os' : List (String × β)) :
    (a.parts c as os).operation = (a.parts c bs os').operation := by
  cases a <;> rfl

theorem forall₂_toList {a : Option α} {b : Option β} (h : Option.Rel R a b) :
    List.Forall₂ R a.toList b.toList := by
  cases h with
  | none => exact .nil
  | some hab => exact .cons hab .nil

theorem forall₂_everySecond : ∀ {as : List α} {bs : List β}, List.Forall₂ R as bs →
    List.Forall₂ R (everySecond as) (everySecond bs)
  | _, _, .nil => .nil
  | _, _, .cons _ .nil => .nil
  | _, _, .cons _ (.cons hsecond hrest) => .cons hsecond (forall₂_everySecond hrest)

theorem named_zip (names : List String) (h : List.Forall₂ R as bs) :
    Named R (names.zip as) (names.zip bs) := by
  induction h generalizing names with
  | nil =>
      rw [List.zip_nil_right, List.zip_nil_right]
      exact .nil
  | cons hab _ ih =>
      cases names with
      | nil => exact .nil
      | cons name names => exact .cons name hab (ih names)

/-- Related things go to the same places. -/
theorem Arrangement.parts_related (a : Arrangement) (c : Command) (hargs : List.Forall₂ R as bs)
    (hoptions : Named R os os') :
    List.Forall₂ R (a.parts c as os).args (a.parts c bs os').args ∧
      Named R (a.parts c as os).options (a.parts c bs os').options := by
  cases a with
  | inOrder => exact ⟨hargs, hoptions⟩
  | argumentsOnly => exact ⟨hargs, .nil⟩
  | functionFirst =>
      obtain ⟨hlast, hothers⟩ := forall₂_splitLast hargs
      exact ⟨List.rel_append (forall₂_toList hlast) hothers, hoptions⟩
  | keyed names => exact ⟨.nil, named_zip names (forall₂_everySecond hargs)⟩

theorem mem_of_mem_everySecond : ∀ {as : List α} {a : α}, a ∈ everySecond as → a ∈ as
  | [], _, h => nomatch h
  | [_], _, h => nomatch h
  | _ :: second :: rest, a, h => by
      rcases List.mem_cons.mp h with rfl | h
      · exact .tail _ (.head _)
      · exact .tail _ (.tail _ (mem_of_mem_everySecond h))

/-- Nothing comes into a node but what the command was given. -/
theorem Arrangement.forall_parts (a : Arrangement) (c : Command) {P : α → Prop}
    (hargs : ∀ x ∈ as, P x) (hoptions : ∀ o ∈ os, P o.2) :
    (∀ x ∈ (a.parts c as os).args, P x) ∧ ∀ o ∈ (a.parts c as os).options, P o.2 := by
  cases a with
  | inOrder => exact ⟨hargs, hoptions⟩
  | argumentsOnly => exact ⟨hargs, List.forall_mem_nil _⟩
  | functionFirst =>
      refine ⟨?_, hoptions⟩
      intro x hx
      rcases List.mem_append.mp hx with hlast | hothers
      · exact hargs x (List.mem_of_getLast? (Option.mem_toList.mp hlast))
      · exact hargs x (List.dropLast_subset as hothers)
  | keyed names =>
      refine ⟨List.forall_mem_nil _, ?_⟩
      intro o ho
      exact hargs o.2 (mem_of_mem_everySecond (List.of_mem_zip ho).2)

end

/-! ## The arrangement of a command -/

/-- How a command arranges values. -/
def arrangement (c : Command) (args : List Value) : Arrangement :=
  match c.assembly with
  | .object =>
    let pairs := (pairUp? args).getD []
    if pairs.any fun pair => pair.1.isDeferred then .argumentsOnly
    else .keyed (pairs.map fun pair => pair.1.string?.getD "")
  | .call => .functionFirst
  | _ => .inOrder

variable {c : Command} {n : Normalizer} {args : List Value} {options : Options} {t : Term}

theorem keyed_eq_zip : ∀ {args : List Value} {pairs : List (Value × Value)},
    pairUp? args = some pairs →
      (pairs.map fun pair => (pair.1.string?.getD "", pair.2)) =
        (pairs.map fun pair => pair.1.string?.getD "").zip (everySecond args)
  | [], _, h => by
      obtain rfl := Option.some.inj h
      rfl
  | [_], _, h => nomatch h
  | key :: value :: rest, _, h => by
      obtain ⟨pairs, hpairs, rfl⟩ := Option.map_eq_some_iff.mp h
      rw [List.map_cons, List.map_cons, everySecond, List.zip_cons_cons, keyed_eq_zip hpairs]

/-- What a command makes is the node of its arrangement. -/
theorem createTerm_parts_of_construct (h : c.construct n args options = .ok t) :
    n.createTerm ((c.arrangement args).parts c args options).operation
      ((c.arrangement args).parts c args options).args
      ((c.arrangement args).parts c args options).options = .ok t := by
  unfold construct at h
  unfold arrangement
  split at h
  · next hassembly =>
      rw [hassembly]
      exact createTerm_of_constructPlain h
  · next hassembly =>
      rw [hassembly]
      exact createTerm_of_constructScoped h
  · next hassembly =>
      rw [hassembly]
      exact createTerm_of_constructTableCreate h
  · next hassembly =>
      rw [hassembly]
      obtain ⟨-, h⟩ := check_bind_eq_ok_iff.mp h
      cases hpairs : pairUp? args with
      | none => simp [hpairs] at h
      | some pairs =>
          simp only [hpairs] at h
          obtain ⟨-, h⟩ := check_bind_eq_ok_iff.mp h
          simp only [Option.getD_some]
          split at h
          · next hdeferred =>
              rw [if_pos hdeferred]
              exact h
          · next hdeferred =>
              rw [if_neg hdeferred]
              simp only [Arrangement.parts]
              rwa [← keyed_eq_zip hpairs]
  · next hassembly =>
      rw [hassembly]
      exact createTerm_of_constructTime h
  · next hassembly =>
      rw [hassembly]
      obtain ⟨others, function, rfl, hmade⟩ := createTerm_of_constructCall h
      simpa [Arrangement.parts] using hmade
  · next hassembly =>
      rw [hassembly]
      exact createTerm_of_constructBranch h

/-- Values that are alike are arranged alike. -/
theorem arrangement_eq {vs ws : List Value} (h : List.Forall₂ Value.Alike vs ws) :
    c.arrangement vs = c.arrangement ws := by
  have hpairs := Exchange.pairUp? h
  unfold arrangement
  generalize pairUp? vs = ps?, pairUp? ws = qs? at hpairs
  split
  · cases hpairs with
    | none => rfl
    | @some ps qs hpairs =>
        have hdeferred : (ps.any fun pair => pair.1.isDeferred) =
            qs.any fun pair => pair.1.isDeferred := by
          induction hpairs with
          | nil => rfl
          | cons hpair _ ih => rw [List.any_cons, List.any_cons, hpair.1.isDeferred, ih]
        have hnames : (ps.map fun pair => pair.1.string?.getD "") =
            qs.map fun pair => pair.1.string?.getD "" := by
          clear hdeferred
          induction hpairs with
          | nil => rfl
          | cons hpair _ ih => rw [List.map_cons, List.map_cons, hpair.1.string?, ih]
        simp only [Option.getD_some, hdeferred, hnames]
  · rfl
  · rfl

end Reql.Command
