/-
# `Reql.Proofs.Operation` — operations and their names

An operation can be told from its name, and every name is an upper-case word: a letter, then
letters, digits and underscores.
-/
import Reql.Operation

namespace Reql.Operation

theorem mem_all (op : Operation) : op ∈ all := by
  cases op <;> decide

theorem ofName?_name_of_mem : ∀ op ∈ all, ofName? op.name = some op := by decide +kernel

/-- The name of an operation leads back to it. -/
theorem ofName?_name (op : Operation) : ofName? op.name = some op :=
  ofName?_name_of_mem op op.mem_all

theorem name_injective {op op' : Operation} (h : op.name = op'.name) : op = op' := by
  have hname := ofName?_name op
  rw [h, ofName?_name op'] at hname
  exact (Option.some.inj hname).symm

/-- The characters of names. -/
def isNameChar (c : Char) : Bool := c.isUpper || c.isDigit || c == '_'

theorem exists_name_eq (op : Operation) : ∃ c rest, op.name.toList = c :: rest ∧
    c.isUpper = true ∧ rest.all isNameChar = true := by
  cases op <;> exact ⟨_, _, rfl, rfl, rfl⟩

theorem isNameChar_of_mem (op : Operation) : ∀ c ∈ op.name.toList, isNameChar c = true := by
  obtain ⟨c, rest, hname, hc, hrest⟩ := exists_name_eq op
  rw [hname]
  refine List.forall_mem_cons.mpr ⟨?_, List.all_eq_true.mp hrest⟩
  rw [isNameChar, hc, Bool.true_or, Bool.true_or]

end Reql.Operation
