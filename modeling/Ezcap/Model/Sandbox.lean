import Ezcap.Model.Allocator

/-! Callbacks of a driver's script under their budgets, from `sandbox.cpp`. Time points are
nanoseconds, and what Lua adds to the text of an error, the place in the script and a traceback,
is left out. -/

namespace Ezcap.Drivers

open StdString

/-- The period that `lua_sethook` is given. -/
def hookPeriod : ℕ := 1000

/-- A sandbox with the fields of its `StateData` that the hook reads. Lua counts down to the next
call of the hook, also across callbacks. -/
structure Sandbox where
  budgets : SandboxBudgets
  aborted : Bool := false
  instructionsRemaining : Int64 := 0
  deadline : ℤ := 0
  inCallback : Bool := false
  countdown : ℕ := hookPeriod

inductive SandboxOutcome where
  | ok
  | runtimeError
  | budgetExceeded
  deriving DecidableEq, Repr

structure SandboxError where
  outcome : SandboxOutcome := .ok
  code : Bytes := []
  message : Bytes := []
  deriving DecidableEq, Repr

/-- An instruction that a script executes: what the clock shows if the hook is called there, and
whether the script catches, with its own `pcall`, the error that the hook then raises. -/
structure Instruction where
  now : ℤ
  caught : Bool := false

/-- What a function of the script does when it is called. Where an error is caught the later
instructions are the ones that the script executes then. The clock is steady. -/
structure Script where
  beganAt : ℤ := 0
  instructions : List Instruction := []
  failure : Option Bytes := none
  steady : ∀ instruction ∈ instructions, beganAt ≤ instruction.now := by simp

namespace Sandbox

def beginCallback (sandbox : Sandbox) (now : ℤ) : Sandbox :=
  { sandbox with
    instructionsRemaining := sandbox.budgets.maxInstructions
    deadline := now + sandbox.budgets.wallClockMs.toInt * 1000000
    inCallback := true }

def endCallback (sandbox : Sandbox) : Sandbox := { sandbox with inCallback := false }

def markAborted (sandbox : Sandbox) : Sandbox := { sandbox with aborted := true }

/-- `instruction_hook`, and the error that it raises. -/
def instructionHook (sandbox : Sandbox) (now : ℤ) : Sandbox × Option Bytes :=
  if !sandbox.inCallback then (sandbox, none)
  else
    let sandbox :=
      { sandbox with instructionsRemaining := sandbox.instructionsRemaining - 1 }
    if sandbox.instructionsRemaining ≤ 0 then
      (sandbox.markAborted, some (cstr "instruction budget exceeded"))
    else if now > sandbox.deadline then
      (sandbox.markAborted, some (cstr "wall-clock deadline exceeded"))
    else (sandbox, none)

/-- One instruction, with the call of the hook if it is due. -/
def execute (sandbox : Sandbox) (now : ℤ) : Sandbox × Option Bytes :=
  if sandbox.countdown ≤ 1 then
    { sandbox with countdown := hookPeriod }.instructionHook now
  else ({ sandbox with countdown := sandbox.countdown - 1 }, none)

/-- The instructions up to the first error that is not caught. -/
def executeAll (sandbox : Sandbox) : List Instruction → Sandbox × Option Bytes
  | [] => (sandbox, none)
  | instruction :: instructions =>
      match sandbox.execute instruction.now with
      | (sandbox, none) => sandbox.executeAll instructions
      | (sandbox, some error) =>
          if instruction.caught then sandbox.executeAll instructions else (sandbox, some error)

/-- `lua_pcall` on a function of the script, and the error that it fails with. -/
def luaPcall (sandbox : Sandbox) (script : Script) : Sandbox × Option Bytes :=
  match sandbox.executeAll script.instructions with
  | (sandbox, some error) => (sandbox, some error)
  | (sandbox, none) => (sandbox, script.failure)

def pcall (sandbox : Sandbox) (script : Script) : Sandbox × Except SandboxError Unit :=
  match sandbox.luaPcall script with
  | (sandbox, none) => (sandbox, .ok ())
  | (sandbox, some message) =>
      if sandbox.aborted then
        (sandbox, .error ⟨.budgetExceeded, cstr "budget.exceeded", message⟩)
      else (sandbox, .error ⟨.runtimeError, cstr "sandbox.runtime_error", message⟩)

/-- A call between `begin_callback` and `end_callback`, as all calls of the host are. -/
def callback (sandbox : Sandbox) (script : Script) : Sandbox × Except SandboxError Unit :=
  let called := (sandbox.beginCallback script.beganAt).pcall script
  (called.1.endCallback, called.2)

/-- The function is looked up among the globals of the script; a missing one is not an error. -/
def callGlobal (sandbox : Sandbox) : Option Script → Sandbox × Except SandboxError Unit
  | none => (sandbox, .ok ())
  | some script => sandbox.callback script

/-- The message of the compiler, if it rejects the source, is `rejected`. -/
def loadSource (source : Bytes) (rejected : Option Bytes) : Except SandboxError Unit :=
  if source.head? = some 0x1b then
    .error ⟨.runtimeError, cstr "sandbox.bytecode_rejected",
      cstr "bytecode input rejected; only source text may be loaded"⟩
  else
    match rejected with
    | some message => .error ⟨.runtimeError, cstr "sandbox.compile_error", message⟩
    | none => .ok ()

end Sandbox

end Ezcap.Drivers
