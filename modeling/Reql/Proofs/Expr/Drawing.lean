/-
# `Reql.Proofs.Expr.Drawing` — running a computation that draws numbers

`runFrom` runs a computation from a given next number.  A sequence runs its parts
one after another, the second from where the first left the counter.

A computation *settles* on a fault if it fails with it from every number, and on
`none` if it succeeds from every number and always draws equally many.  The first
of several faults in a sequence is the one it settles on.
-/
import Reql.Expr.Plan
import Reql.Proofs.Outcome

namespace Reql.Drawing

variable {α β ε : Type}

/-- What a computation comes to when `start` is the next number, and the next number
after it. -/
def runFrom (m : Drawing α) (start : Nat) : Except Error α × Nat := m.run.run start

@[simp] theorem runFrom_pure (a : α) (start : Nat) :
    (pure a : Drawing α).runFrom start = (.ok a, start) := rfl

@[simp] theorem runFrom_throw (e : Error) (start : Nat) :
    (throw e : Drawing α).runFrom start = (.error e, start) := rfl

@[simp] theorem runFrom_fresh (count start : Nat) :
    (fresh count).runFrom start = (.ok (List.range' start count), start + count) := rfl

@[simp] theorem runFrom_ofOutcome (toError : ε → Error) (x : Except ε α) (start : Nat) :
    (ofOutcome toError x).runFrom start = (x.mapError toError, start) := by
  cases x <;> rfl

theorem runFrom_bind (m : Drawing α) (f : α → Drawing β) (start : Nat) :
    (m >>= f).runFrom start =
      match m.runFrom start with
      | (.ok a, next) => (f a).runFrom next
      | (.error e, next) => (.error e, next) := by
  rw [runFrom, ExceptT.run_bind, StateT.run_bind, runFrom]
  rcases m.run.run start with ⟨x, next⟩
  cases x <;> rfl

theorem runFrom_bind_eq_ok_iff {m : Drawing α} {f : α → Drawing β} {start last : Nat} {b : β} :
    (m >>= f).runFrom start = (.ok b, last) ↔
      ∃ a next, m.runFrom start = (.ok a, next) ∧ (f a).runFrom next = (.ok b, last) := by
  rw [runFrom_bind]
  rcases m.runFrom start with ⟨x, next⟩
  cases x with
  | ok a => simp
  | error e => simp

/-! ## Settling -/

/-- From every number the computation fails with the fault, or if there is none
succeeds and draws `count` numbers. -/
def Settles (m : Drawing α) (count : Nat) : Option Error → Prop
  | some fault => ∀ start, ∃ next, m.runFrom start = (.error fault, next)
  | none => ∀ start, ∃ a, m.runFrom start = (.ok a, start + count)

theorem Settles.next_eq {m : Drawing α} {count start next : Nat} {fault : Option Error} {a : α}
    (hm : m.Settles count fault) (h : m.runFrom start = (.ok a, next)) : next = start + count := by
  cases fault with
  | some e =>
      obtain ⟨_, he⟩ := hm start
      exact nomatch he.symm.trans h
  | none =>
      obtain ⟨b, hb⟩ := hm start
      exact congrArg Prod.snd (h.symm.trans hb)

theorem settles_pure (a : α) : (pure a : Drawing α).Settles 0 none :=
  fun _ => ⟨a, rfl⟩

theorem settles_throw (e : Error) (count : Nat) : (throw e : Drawing α).Settles count (some e) :=
  fun start => ⟨start, rfl⟩

/-- In a sequence the first fault counts. -/
theorem Settles.bind {m : Drawing α} {f : α → Drawing β} {count count' : Nat}
    {fault fault' : Option Error} (hm : m.Settles count fault)
    (hf : ∀ a, (f a).Settles count' fault') :
    (m >>= f).Settles (count + count') (fault.or fault') := by
  cases fault with
  | some e =>
      intro start
      obtain ⟨next, hnext⟩ := hm start
      exact ⟨next, by rw [runFrom_bind, hnext]⟩
  | none =>
      cases fault' with
      | some e =>
          intro start
          obtain ⟨a, ha⟩ := hm start
          obtain ⟨next, hnext⟩ := hf a (start + count)
          exact ⟨next, by rw [runFrom_bind, ha]; exact hnext⟩
      | none =>
          intro start
          obtain ⟨a, ha⟩ := hm start
          obtain ⟨b, hb⟩ := hf a (start + count)
          exact ⟨b, by rw [runFrom_bind, ha, ← Nat.add_assoc]; exact hb⟩

/-- Drawing numbers cannot fail; what follows may count on having as many as asked for. -/
theorem Settles.fresh_bind {count count' : Nat} {f : List Nat → Drawing β} {fault : Option Error}
    (hf : ∀ ids, ids.length = count → (f ids).Settles count' fault) :
    (fresh count >>= f).Settles (count + count') fault := by
  have hids (start : Nat) : (List.range' start count).length = count := List.length_range'
  cases fault with
  | some e =>
      intro start
      obtain ⟨next, hnext⟩ := hf _ (hids start) (start + count)
      exact ⟨next, by rw [runFrom_bind, runFrom_fresh]; exact hnext⟩
  | none =>
      intro start
      obtain ⟨b, hb⟩ := hf _ (hids start) (start + count)
      exact ⟨b, by rw [runFrom_bind, runFrom_fresh, ← Nat.add_assoc]; exact hb⟩

theorem Settles.map {m : Drawing α} {count : Nat} {fault : Option Error}
    (hm : m.Settles count fault) (g : α → β) :
    (m >>= fun a => pure (g a)).Settles count fault := by
  have h := hm.bind fun a => settles_pure (g a)
  rwa [Nat.add_zero, Option.or_none] at h

end Reql.Drawing
