import Ezcap.Library.LittleEndian

/-! The allocator of a driver's Lua state, from `sandbox.cpp`. It is handed the state's host data as
an untyped pointer and reads an `AllocContext` there, so both are modelled by the places of their
fields in memory, for pointers and sizes of eight bytes. -/

namespace Ezcap.Drivers

open LittleEndian

/-! ## Layouts -/

-- Fields of `AllocContext`, in the order of their declaration.
namespace AllocContext

def ceilingBytes : ℕ := 0

def usedBytes : ℕ := 8

def exhausted : ℕ := 16

end AllocContext

-- Fields of `StateData`; `alloc` is an `AllocContext` of 24 bytes.
namespace StateData

def sandbox : ℕ := 0

def alloc : ℕ := 8

def instructionsRemaining : ℕ := 32

def deadline : ℕ := 40

def inCallback : ℕ := 48

end StateData

/-! ## The allocator -/

/-- What a call of the allocator comes to. -/
inductive Reply where
  | freed
  /-- Null, because the ceiling would be crossed. -/
  | refused
  /-- Null, because `malloc` or `realloc` returns null. -/
  | failed
  | block
  deriving DecidableEq, Repr

/-- `budget_alloc` on the object at `ud`. Whether there is a block to free or to resize is
`ptr`, and whether `malloc` or `realloc` finds memory is `granted`. -/
def budgetAlloc (memory : Memory) (ud : ℕ) (ptr : Bool) (osize nsize : UInt64) (granted : Bool) :
    Memory × Reply :=
  let ceiling := loadWord memory (ud + AllocContext.ceilingBytes)
  let used := loadWord memory (ud + AllocContext.usedBytes)
  let setUsed := storeWord memory (ud + AllocContext.usedBytes)
  let setExhausted := store memory (ud + AllocContext.exhausted) [1]
  if nsize = 0 then
    if ptr then (setUsed (used - osize), .freed) else (memory, .freed)
  else if !ptr then
    if used + nsize > ceiling then (setExhausted, .refused)
    else if granted then (setUsed (used + nsize), .block)
    else (memory, .failed)
  else if nsize > osize ∧ used + (nsize - osize) > ceiling then (setExhausted, .refused)
  else if granted then
    if nsize > osize then (setUsed (used + (nsize - osize)), .block)
    else (setUsed (used - (osize - nsize)), .block)
  else (memory, .failed)

/-! ## A Lua state -/

/-- The memory of the host data, the sizes of the blocks that Lua holds, and the address of the
sandbox, null until it is made. -/
structure LuaHeap where
  memory : Memory
  live : List UInt64 := []
  sandbox : UInt64 := 0

structure SandboxBudgets where
  maxMemoryBytes : UInt64 := 1 * 1024 * 1024
  maxInstructions : Int64 := 2000000
  wallClockMs : Int64 := 200

/-- The host data that `Sandbox::create` makes: all zero but for the ceiling. -/
def newStateData (budgets : SandboxBudgets) : Memory :=
  storeWord (fun _ => 0) (StateData.alloc + AllocContext.ceilingBytes) budgets.maxMemoryBytes

/-- What happens to the heap of a state. Lua calls the allocator; the host sets the pointer to the
sandbox once the state is made, and the budgets of each callback. -/
inductive HeapAction where
  | call (ptr : Bool) (osize nsize : UInt64) (granted : Bool)
  | setSandbox (address : UInt64)
  | beginCallback (instructions deadline : UInt64)
  | endCallback

/-- What an action is answered, if it is a call. The allocator is installed with the `StateData`
object itself as its userdata. -/
def LuaHeap.reply? (heap : LuaHeap) : HeapAction → Option Reply
  | .call ptr osize nsize granted => some (budgetAlloc heap.memory 0 ptr osize nsize granted).2
  | _ => none

/-- The blocks that Lua holds after a call. -/
def liveAfter (live : List UInt64) (ptr : Bool) (osize nsize : UInt64) : Reply → List UInt64
  | .freed => if ptr then live.erase osize else live
  | .block => if ptr then nsize :: live.erase osize else nsize :: live
  | _ => live

/-- Lua frees and resizes the blocks that it holds, with their true sizes, and the host sets the
pointer once Lua holds its state. -/
def LuaHeap.step (heap : LuaHeap) : HeapAction → Option LuaHeap
  | .call ptr osize nsize granted =>
      if ptr = true → osize ∈ heap.live then
        let called := budgetAlloc heap.memory 0 ptr osize nsize granted
        some { heap with
          memory := called.1
          live := liveAfter heap.live ptr osize nsize called.2 }
      else none
  | .setSandbox address =>
      if heap.live = [] then none
      else some { heap with
        memory := storeWord heap.memory StateData.sandbox address
        sandbox := address }
  | .beginCallback instructions deadline =>
      let memory := storeWord heap.memory StateData.instructionsRemaining instructions
      let memory := storeWord memory StateData.deadline deadline
      some { heap with memory := store memory StateData.inCallback [1] }
  | .endCallback => some { heap with memory := store heap.memory StateData.inCallback [0] }

end Ezcap.Drivers
