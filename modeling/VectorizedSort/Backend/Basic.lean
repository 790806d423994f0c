/-! # Backends and processors

A backend is one of the two ways the register operations are carried out. The portable one runs
everywhere, the other needs a processor with 256-bit integer vectors. -/

namespace VectorizedSort

/-- The ways to carry out the register operations. -/
inductive Backend where
  /-- Plain scalar code, four elements per register. -/
  | portable
  /-- 256-bit vector instructions, eight elements per register. -/
  | avx2
deriving DecidableEq

/-- What is known about the running processor. -/
structure Cpu where
  /-- Whether it executes 256-bit integer vector instructions. -/
  hasAvx2 : Bool
deriving DecidableEq

/-- The name under which a backend is requested and reported. -/
def Backend.name : Backend → String
  | .portable => "portable"
  | .avx2 => "avx2"

namespace Cpu

/-- Whether the processor can execute a backend. -/
def supports (cpu : Cpu) : Backend → Bool
  | .portable => true
  | .avx2 => cpu.hasAvx2

/-- The fastest backend the processor can execute. -/
def fastest (cpu : Cpu) : Backend := if cpu.hasAvx2 then .avx2 else .portable

/-- The fastest backend can be executed. -/
@[simp] theorem supports_fastest (cpu : Cpu) : cpu.supports cpu.fastest = true := by
  rcases cpu with ⟨_ | _⟩ <;> rfl

end Cpu

end VectorizedSort
