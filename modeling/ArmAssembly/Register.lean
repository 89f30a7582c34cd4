/-!
The sixteen core registers `R0` to `R15`.
-/

namespace ArmAssembly

structure Register where
  number : Fin 16
  deriving DecidableEq, Repr

namespace Register

def all : List Register := (List.finRange 16).map Register.mk

def name (r : Register) : String := "R" ++ toString r.number.val

def ofNumber? (n : Int) : Option Register := all.find? fun r => (r.number.val : Int) == n

theorem mem_all (r : Register) : r ∈ all := by
  simp [all, List.mem_finRange]

end Register
end ArmAssembly
