import ArmAssembly.Instruction.Shape
import ArmAssembly.Proofs.Reading

/-!
Parsers that stay in their line. A parser none of whose parts takes a line break reads a
line as if nothing stood behind it: what follows the break is neither read nor looked at.
Every shape is of this kind, so an instruction is told by its own line alone.
-/

namespace ArmAssembly

def Scan.append {α : Type} (s : Scan α) (below : List Token) : Scan α :=
  match s with
  | .taken x rest => .taken x (rest ++ below)
  | .refused label rest => .refused label (rest ++ below)

namespace Parser

variable {α β δ : Type}

/-- No part of the parser takes a line break. -/
def Inline : {α : Type} → Parser NoCalls α → Prop
  | _, accept read _ => read .lineBreak = none
  | _, pure _ => True
  | _, bind p next => p.Inline ∧ ∀ x, (next x).Inline
  | _, orElse p q => p.Inline ∧ q.Inline
  | _, peek p => p.Inline
  | _, many p => p.Inline
  | _, relabel p _ => p.Inline
  | _, call _ e => e.elim

theorem inline_map {f : α → β} {p : Parser NoCalls α} (inline : p.Inline) : (map f p).Inline :=
  ⟨inline, fun _ => trivial⟩

theorem inline_andThen {p : Parser NoCalls α} {q : Parser NoCalls β} (first : p.Inline)
    (second : q.Inline) : (andThen p q).Inline :=
  ⟨first, fun _ => ⟨second, fun _ => trivial⟩⟩

theorem inline_maybe {p : Parser NoCalls α} (inline : p.Inline) : (maybe p).Inline :=
  ⟨inline_map inline, trivial⟩

theorem inline_map2 {f : α → β → δ} {p : Parser NoCalls α} {q : Parser NoCalls β}
    (first : p.Inline) (second : q.Inline) : (map2 f p q).Inline :=
  ⟨⟨trivial, fun _ => ⟨first, fun _ => trivial⟩⟩, fun _ => ⟨second, fun _ => trivial⟩⟩

/-- What stands behind a line break is out of reach. -/
theorem parse_append_break {p : Parser NoCalls α} (inline : p.Inline) (w below : List Token) :
    p.parse (w ++ .lineBreak :: below) = (p.parse w).append (.lineBreak :: below) := by
  induction p generalizing w with
  | accept read label =>
    cases w with
    | nil =>
      have refuses : read .lineBreak = none := inline
      simp [parse_accept, scanAccept, refuses, Scan.append]
    | cons t w => cases taken : read t <;> simp [parse_accept, scanAccept, taken, Scan.append]
  | pure x => rfl
  | bind p next ihp ihnext =>
    rw [parse_bind, parse_bind, ihp inline.1]
    cases p.parse w with
    | refused label rest => rfl
    | taken x rest => exact ihnext x (inline.2 x) rest
  | orElse p q ihp ihq =>
    rw [parse_orElse, parse_orElse, ihp inline.1]
    cases p.parse w with
    | refused label rest => exact ihq inline.2 w
    | taken x rest => rfl
  | peek p ih =>
    rw [parse_peek, parse_peek, ih inline]
    cases p.parse w <;> rfl
  | relabel p label ih =>
    rw [parse_relabel, parse_relabel, ih inline]
    cases p.parse w <;> rfl
  | call label e => exact e.elim
  | many p ih =>
    induction size : w.length using Nat.strongRecOn generalizing w with
    | ind n again =>
      rw [parse_many, parse_many, ih inline]
      cases p.parse w with
      | refused label rest => rfl
      | taken x rest =>
        have shrinks : (rest ++ .lineBreak :: below).length < (w ++ .lineBreak :: below).length ↔
            rest.length < w.length := by simp
        simp only [Scan.append, shrinks]
        split
        next less =>
          have onward := again rest.length (by omega) rest rfl
          rw [onward]
          cases (many p).parse rest <;> rfl
        next => rfl

end Parser

namespace Shape

open ArmAssembly.Parser

theorem inline_code (c : OpClass) : (Field.code c).Inline := rfl

theorem inline_operandRegister : Field.operandRegister.Inline :=
  ⟨inline_map (p := relabel (andThen Field.register Field.comma) "Reg followed by Comma")
    (inline_andThen rfl rfl), rfl⟩

theorem inline_afterComma {α : Type} {p : Parser NoCalls α} (inline : p.Inline) :
    (Field.afterComma p).Inline :=
  inline_map (inline_andThen (inline_maybe rfl) inline)

theorem inline_amount : Field.amount.Inline := ⟨inline_map rfl, inline_map rfl⟩

theorem inline_operand2 : Field.operand2.Inline := by
  have shift : Field.shift.Inline :=
    ⟨inline_map (inline_andThen (inline_code _) inline_amount), inline_map (inline_code _)⟩
  exact ⟨inline_map rfl, inline_map (inline_andThen rfl (inline_maybe (inline_afterComma shift)))⟩

theorem inline_mnemonic (c : OpClass) : (mnemonic c).Inline := by
  have suffix : (suffix c).Inline := by
    unfold suffix
    split
    · exact inline_map (inline_maybe (inline_map rfl))
    · trivial
  exact inline_map (inline_andThen (inline_andThen (inline_code c) suffix) (inline_maybe rfl))

theorem inline_operands (c : OpClass) : (operands c).Inline := by
  have one {β : Type} {q : Parser NoCalls β} (inline : q.Inline) :
      (andThen Field.operandRegister q).Inline :=
    inline_andThen inline_operandRegister inline
  have two {α β : Type} {p : Parser NoCalls α} {q : Parser NoCalls β} (first : p.Inline)
      (second : q.Inline) : (andThen (andThen Field.operandRegister p) q).Inline :=
    inline_andThen (one first) second
  cases c with
  | move | address | rotateExtend => exact one rfl
  | arithmetic => exact two inline_operandRegister inline_operand2
  | shift => exact two inline_operandRegister inline_amount
  | comparison => exact one inline_operand2
  | transfer => exact two rfl (inline_maybe (inline_afterComma rfl))
  | blockTransfer =>
    exact one (inline_map2 rfl (inline_map (inline_andThen (inline_maybe rfl) rfl)))
  | branchLink => rfl

theorem inline_ofClass (c : OpClass) : (ofClass c).Inline :=
  inline_map (inline_andThen (inline_mnemonic c) (inline_operands c))

theorem inline_instruction : instruction.Inline := by
  have any : any.Inline := by
    simp only [Shape.any, choice, List.map, List.foldl, Inline, inline_ofClass, and_self]
  refine ⟨trivial, fun _ => ⟨inline_maybe rfl, fun found => ?_⟩⟩
  cases found with
  | none => exact any
  | some op => exact inline_ofClass op.opClass

end Shape
end ArmAssembly
