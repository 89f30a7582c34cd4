import ArmAssembly.Instruction.Field
import ArmAssembly.Proofs.Membership
import ArmAssembly.Proofs.Spellings

/-!
Fields that are one of a list. A register, a condition or an operation of some class is any of
their tokens, with what the token holds for its value. The shapes read such a field in one look at
the token; it comes to the same as the choice among all tokens of the kind.
-/

namespace ArmAssembly.Field

open ArmAssembly.Parser

variable {ι : Type} {γ : ι → Type} {α : Type}

/-- Runs like the choice among `ts` under the given label, with what `get` finds in the token. -/
structure IsAnyOf (p : Parser γ α) (ts : List Token) (get : Token → α) (label : String) :
    Prop where
  label_eq : p.label = label
  exec_eq : ∃ q : Parser γ Token, anyOfList ts = .ok q ∧
    ∀ {ε : Type} (callee : (i : ι) → Cursor → Reply ε (γ i)) (c : Cursor),
      p.exec callee c = (map get (relabel q label)).exec callee c

section Readings

variable {ε : Type} {callee : (i : ι) → Cursor → Reply ε (γ i)}

theorem exec_relabel_anyOf (t : Token) (others : List Token) (label : String) (c : Cursor) :
    (relabel (anyOf t others) label).exec callee c =
      (satisfying (fun u => decide (u ∈ t :: others)) label).exec callee c := by
  rw [exec_relabel, exec_anyOf, relabel_exec_satisfying]

theorem exec_map_satisfying {read : Token → Option α} {test : Token → Bool} {get : Token → α}
    (reads : ∀ t, read t = if test t then some (get t) else none) (label : String) (c : Cursor) :
    (map get (satisfying test label)).exec callee c = (accept read label).exec callee c := by
  simp only [Parser.map, Parser.satisfying, exec, runAccept]
  cases c.next? with
  | none => rfl
  | some step =>
    obtain ⟨t, rest⟩ := step
    cases passes : test t <;> simp [reads, passes]

end Readings

theorem isAnyOf_accept {ts : List Token} (given : ts ≠ []) {read : Token → Option α}
    {get : Token → α} (reads : ∀ t x, read t = some x ↔ t ∈ ts ∧ get t = x) (label : String) :
    IsAnyOf (accept read label : Parser γ α) ts get label where
  label_eq := rfl
  exec_eq := by
    obtain ⟨t, others, rfl⟩ := List.exists_cons_of_ne_nil given
    refine ⟨anyOf t others, rfl, ?_⟩
    intro ε callee c
    have tested (u : Token) :
        read u = if decide (u ∈ t :: others) then some (get u) else none := by
      by_cases member : u ∈ t :: others
      · simpa [member] using (reads u (get u)).2 ⟨member, rfl⟩
      · have nothing : read u = none :=
          Option.eq_none_iff_forall_ne_some.2 fun x found => member ((reads u x).1 found).1
        simpa [member] using nothing
    calc
      (accept read label).exec callee c
      _ = (map get (satisfying (fun u => decide (u ∈ t :: others)) label)).exec callee c :=
        (exec_map_satisfying tested label c).symm
      _ = (map get (relabel (anyOf t others) label)).exec callee c := by
        simp only [Parser.map, exec, ← exec_relabel_anyOf]

theorem register_isAnyOf (get : Token → Register) (gets : ∀ r, get (.register r) = r) :
    IsAnyOf (register : Parser γ Register) (Register.all.map .register) get "Register" := by
  refine isAnyOf_accept (by decide) ?_ _
  intro t r
  rw [Token.register?_eq_some_iff]
  constructor
  · rintro rfl
    exact ⟨List.mem_map_of_mem r.mem_all, gets r⟩
  · intro given
    obtain ⟨member, rfl⟩ := given
    obtain ⟨r, _, rfl⟩ := List.mem_map.1 member
    rw [gets]

theorem condition_isAnyOf (get : Token → Condition)
    (gets : ∀ a : Condition, get (.condition a) = a.canonical) :
    IsAnyOf (condition : Parser γ Condition) (Condition.all.map .condition) get
      "Conditional Code" := by
  refine isAnyOf_accept (by decide) ?_ _
  intro t a
  simp only [Option.map_eq_some_iff, Token.condition?_eq_some_iff]
  constructor
  · intro found
    obtain ⟨named, rfl, rfl⟩ := found
    exact ⟨List.mem_map_of_mem named.mem_all, gets named⟩
  · intro given
    obtain ⟨member, rfl⟩ := given
    obtain ⟨named, _, rfl⟩ := List.mem_map.1 member
    exact ⟨named, rfl, (gets named).symm⟩

theorem code_isAnyOf (k : OpClass) (get : Token → k.Code)
    (gets : ∀ x : k.Code, get (.opcode (.ofCode k x)) = x) :
    IsAnyOf (code k : Parser γ k.Code) (k.opcodes.map .opcode) get
      ("Type " ++ toString k.number ++ " Opcode") := by
  refine isAnyOf_accept (by cases k <;> decide) ?_ _
  intro t x
  simp only [Option.bind_eq_some_iff, Token.opcode?_eq_some_iff, Opcode.code?_eq_some_iff]
  constructor
  · intro found
    obtain ⟨_, rfl, rfl⟩ := found
    have listed := (OpClass.mem_opcodes _ k).2 (Opcode.opClass_ofCode k x)
    exact ⟨List.mem_map_of_mem listed, gets x⟩
  · intro given
    obtain ⟨member, rfl⟩ := given
    obtain ⟨op, listed, rfl⟩ := List.mem_map.1 member
    obtain rfl := (OpClass.mem_opcodes op k).1 listed
    have got := gets op.code
    rw [op.ofCode_code] at got
    exact ⟨op, rfl, by rw [got, op.ofCode_code]⟩

end ArmAssembly.Field
