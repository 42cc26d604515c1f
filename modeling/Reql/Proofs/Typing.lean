/-
# `Reql.Proofs.Typing` — the nodes of built terms are well typed

`Term.Typed` lists the nodes there can be in a term that was built from a text: a scalar
literal, an array, an object, a reference, a function, or a node that a command of the
catalogue makes again when it is given the arguments and options of the node.  With a
registry of the catalogue's commands every node of a built term is one of these
(`Registry.build_typed`).

`Typed` is about a node on its own.  What a command makes is typed whatever the command
was given (`Command.typed_of_construct`); that its parts are typed comes from `Expr.View`.
-/
import Reql.Proofs.Command.Normalized
import Reql.Proofs.Command.OptionOrder
import Reql.Proofs.Double.Naturals
import Reql.Proofs.Expr.Reading
import Reql.Proofs.Hygiene.Parts
import Reql.Proofs.Term.Nodes

namespace Reql

/-- A literal that is no container, nor a number that is not finite. -/
def Datum.IsScalar : Datum → Prop
  | .null => True
  | .bool _ => True
  | .number value => value.isFinite = true
  | .string _ => True
  | .array _ => False
  | .object _ => False

/-- The arguments of a node in the order in which its command is given them. -/
def Command.givenOrder (c : Command) (args : List Term) : List Term :=
  if c.operation = .funcall then args.tail ++ args.head?.toList else args

namespace Term

/-- The nodes of terms made from texts. -/
inductive Typed (n : Normalizer) : Term → Prop where
  | scalar {value : Datum} : value.IsScalar → Typed n (.literal value)
  | array {items : List Term} : Typed n (.apply .makeArray items [])
  | object {fields : List (String × Term)} : Typed n (.apply .makeObj [] fields)
  | var {id : Double} : Typed n (.apply .var [.literal (.number id)] [])
  | func {ids : List Double} {body : Term} : Typed n
      (.apply .func [.apply .makeArray (ids.map fun id => .literal (.number id)) [], body] [])
  | command {c : Command} {args : List Term} {options : List (String × Term)} :
      c ∈ Command.Catalogue.commands →
      c.construct n (Command.givenTerms (c.givenOrder args)) (Command.givenOptions options) =
        .ok (.apply c.operation args options) →
      Typed n (.apply c.operation args options)

end Term

open Reql.Expr Reql.Term

/-! ## What a command makes -/

/-- What a command of the catalogue makes it makes again of what it has made. -/
theorem Command.typed_of_construct {c : Command} (hc : c ∈ Catalogue.commands) {n : Normalizer}
    {args : List Value} {options : Options} {t : Term} (h : c.construct n args options = .ok t) :
    t.Typed n := by
  obtain ⟨hcall, -⟩ := catalogue_call c hc
  cases construct_makes (catalogue_ownOptions c hc) h with
  | @inOrder ts us hassembly hts hus hnodup =>
      have hgiven := (construct_eq_ok_iff_given (catalogue_stable c hc) hts hus).mp h
      have hop : c.operation ≠ .funcall := fun hop => hassembly (hcall.mpr hop)
      refine .command hc ?_
      rw [givenOrder, if_neg hop]
      exact construct_perm ((Fields.perm_ofList hnodup).symm.map _) hgiven
  | @functionFirst others function ts t us hassembly hargs hothers hfunction hus hnodup =>
      subst hargs
      have hts := List.rel_append hothers (.cons hfunction .nil)
      have hgiven := (construct_eq_ok_iff_given (catalogue_stable c hc) hts hus).mp h
      refine .command hc ?_
      rw [givenOrder, if_pos (hcall.mp hassembly)]
      exact construct_perm ((Fields.perm_ofList hnodup).symm.map _) hgiven
  | keyed => exact .object

/-! ## The root of a made term -/

variable {r : Registry} {scope : Scope} {start : Nat} {e : Expr} {t : Term}

theorem Term.typed_func {n : Normalizer} (ids : List Nat) (body : Term) :
    (func ids body).Typed n := by
  have hids : ids.map ofId =
      (ids.map fun id => Double.ofNat (id % UInt64.size)).map fun id => .literal (.number id) := by
    rw [List.map_map]
    rfl
  rw [func, hids]
  exact .func

theorem Expr.Made.typed (hr : r.OnlyCatalogue) (he : e.NamesDistinct)
    (h : e.Made r scope start t) : t.Typed r.normalizer := by
  cases e with
  | null | bool _ | string _ =>
      obtain ⟨p, next, v, depth, hp, hv, ht⟩ := h
      obtain rfl := runFrom_pure_eq_ok hp
      obtain rfl := Except.ok.inj hv
      obtain rfl := Except.ok.inj ht
      exact .scalar trivial
  | number value =>
      obtain ⟨p, next, v, depth, hp, hv, ht⟩ := h
      obtain rfl := runFrom_pure_eq_ok hp
      obtain rfl := Except.ok.inj hv
      obtain ⟨hfinite, rfl⟩ := Normalizer.normalizeAt_number_eq_ok_iff.mp ht
      exact .scalar hfinite
  | symbol name offset =>
      obtain ⟨id, -, rfl⟩ := h.symbol
      exact .var
  | vector items =>
      obtain ⟨ts, -, rfl⟩ := h.vector
      exact .array
  | map entries =>
      obtain ⟨us, -, -, rfl⟩ := h.map (he [] _ rfl)
      exact .object
  | call head offset args options =>
      obtain ⟨c, _, _, vs, fields, _, hc, -, -, -, -, ht⟩ := h.call hr
      exact Command.typed_of_construct hc ht
  | fn params body =>
      obtain ⟨u, -, rfl⟩ := h.fn
      exact typed_func _ u

/-! ## All nodes of a made term -/

theorem everywhere_ofId (n : Normalizer) (id : Nat) : (ofId id).Everywhere (Typed n) := by
  have hfinite : (Double.ofNat (id % UInt64.size)).isFinite = true :=
    Double.isFinite_ofNat (by decide) (Nat.mod_lt id (Nat.two_pow_pos 64))
  exact .node (.scalar hfinite) (List.forall_mem_nil _) (List.forall_mem_nil _)

theorem everywhere_var (n : Normalizer) (id : Nat) : (var id).Everywhere (Typed n) :=
  .node .var (List.forall_mem_singleton.mpr (everywhere_ofId n id)) (List.forall_mem_nil _)

theorem everywhere_func {n : Normalizer} (ids : List Nat) {body : Term}
    (hbody : body.Everywhere (Typed n)) : (func ids body).Everywhere (Typed n) := by
  have harray : (apply .makeArray (ids.map ofId) []).Everywhere (Typed n) := by
    refine .node .array ?_ (List.forall_mem_nil _)
    intro u hu
    obtain ⟨id, -, rfl⟩ := List.mem_map.mp hu
    exact everywhere_ofId n id
  exact .node (typed_func ids body)
    (List.forall_mem_cons.mpr ⟨harray, List.forall_mem_singleton.mpr hbody⟩) (List.forall_mem_nil _)

theorem forall_ofList {P : Term → Prop} {us : List (String × Term)}
    (h : ∀ u ∈ us.map Prod.snd, P u) : ∀ option ∈ Fields.ofList us, P option.2 :=
  fun _ hoption => h _ (List.mem_map_of_mem (Fields.mem_of_mem_ofList hoption))

/-- Every node of a made term is typed. -/
theorem Expr.Made.everywhere_typed (hr : r.OnlyCatalogue) (he : e.NamesDistinct)
    (h : e.Made r scope start t) : t.Everywhere (Typed r.normalizer) := by
  induction e using children_induction generalizing scope start t with
  | step e ih =>
      have hroot := h.typed hr he
      have hparts {inner : Scope} : ∀ c ∈ e.children, ∀ start t, c.Made r inner start t →
          t.Everywhere (Typed r.normalizer) := by
        intro c hc start t hmade
        obtain ⟨i, hi⟩ := List.mem_iff_getElem?.mp hc
        exact ih c hc (he.child hi) hmade
      cases h.view hr he with
      | scalar => exact .node hroot (List.forall_mem_nil _) (List.forall_mem_nil _)
      | @symbol name offset id _ => exact everywhere_var _ id
      | vector hmade =>
          have hts := hmade.forall_terms hparts
          exact .node hroot hts (List.forall_mem_nil _)
      | map hnames hmade =>
          have hus := hmade.forall_terms hparts
          exact .node hroot (List.forall_mem_nil _) (forall_ofList hus)
      | inOrder _ _ _ _ _ _ hmade =>
          have hall := hmade.forall_terms hparts
          obtain ⟨hts, hus⟩ := List.forall_mem_append.mp hall
          exact .node hroot hts (forall_ofList hus)
      | functionFirst _ _ _ hmade =>
          have hall := hmade.forall_terms hparts
          obtain ⟨hts, hus⟩ := List.forall_mem_append.mp hall
          obtain ⟨hothers, hfunction⟩ := List.forall_mem_append.mp hts
          exact .node hroot
            (List.forall_mem_cons.mpr ⟨List.forall_mem_singleton.mp hfunction, hothers⟩)
            (forall_ofList hus)
      | @keyed head offset pairs us _ _ hmade =>
          rw [alternate_children] at hparts
          have hus := hmade.forall_terms fun c hc => hparts c (mem_alternate hc)
          exact .node hroot (List.forall_mem_nil _) (forall_ofList hus)
      | @fn params body u hmade =>
          exact everywhere_func _ (hparts body (.head _) _ _ hmade)

/-! ## Building -/

/-- In a term built from a text every node is typed. -/
theorem Registry.build_typed (hr : r.OnlyCatalogue) {text : String}
    (h : ((r.build text).runFrom start).1 = .ok t) : t.Everywhere (Typed r.normalizer) := by
  obtain ⟨e, hparse, hmade⟩ := made_of_build h
  exact hmade.everywhere_typed hr (parse_namesDistinct hparse)

/-- A function that is called: it moves to the front, and back where `do` makes it again. -/
theorem Registry.build_typed_do :
    let c : Command := { name := "do", operation := .funcall, required := [.any], rest := some .any,
                         assembly := .call }
    let r := (blank.register c).registry
    ∃ t, ((r.build "(do [nil] (fn [x] x))").runFrom 1).1 = .ok t ∧
      t.Everywhere (Typed r.normalizer) := by
  intro c r
  have hr : r.OnlyCatalogue := (onlyCatalogue_empty _ _).register (by decide +kernel)
  have hparse : Expr.parse "(do [nil] (fn [x] x))" = .ok (.call "do" 1
      [.vector [.null], .fn ["x"] (.symbol "x" 18)] []) := rfl
  have ht : ((r.build "(do [nil] (fn [x] x))").runFrom 1).1 =
      .ok (.apply .funcall [.func [1] (.var 1), .apply .makeArray [.literal .null] []] []) := by
    rw [build_of_parse hparse]
    rfl
  exact ⟨_, ht, build_typed hr ht⟩

end Reql
