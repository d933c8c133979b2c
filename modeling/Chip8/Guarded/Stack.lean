import Chip8.CallStack.Request
import Chip8.Guarded
/-!
# The call stack in checked cells

Sixteen slots and a byte that counts those in use, apart from the rest of
the machine. The count is the index of the slot that a push writes, and one
less than it the index of the slot that a pop reads; both are checked
against the slots, and the count against its byte. Nothing in the type keeps
the count at sixteen or below, and a slot above it keeps what an earlier,
deeper call left there.
-/

namespace Chip8

namespace Guarded

/-- Slots for return addresses and the number of them in use. -/
structure Stack where
  /-- The slots, outermost call first. -/
  slots : Buffer UInt16 16
  /-- The number of slots in use. -/
  depth : UInt8
deriving DecidableEq

namespace Stack

open CallStack

/-- The stack with blank slots, none of them in use. -/
def blank : Stack := ⟨Buffer.blank, 0⟩

/-- The stack with an address in the next slot, or the refusal where every
slot is in use. -/
def push? (f : Stack) (addr : UInt16) : Option (Except Refusal Reply × Stack) :=
  if levels ≤ f.depth.toNat then some (.error .overflow, f)
  else do
    let slots ← f.slots.put? f.depth.toNat addr
    let depth ← byte? (f.depth.toNat + 1)
    some (.ok .done, ⟨slots, depth⟩)

/-- The address in the last slot in use and the stack without it, or the
refusal where no slot is in use. -/
def pop? (f : Stack) : Option (Except Refusal Reply × Stack) :=
  if f.depth = 0 then some (.error .underflow, f)
  else do
    let depth ← (sub? f.depth.toNat 1).bind byte?
    let addr ← f.slots.at? depth.toNat
    some (.ok (.address addr), ⟨f.slots, depth⟩)

/-- The stack with every slot put back to zero and none in use. -/
def clear (f : Stack) : Stack := ⟨f.slots.fill 0, 0⟩

/-- The addresses in the slots in use. -/
def frames? (f : Stack) : Option (List UInt16) :=
  f.slots.slice? 0 f.depth.toNat

/-- The reply to a request, or why it is refused, and the stack after it. -/
def perform? (f : Stack) : Request → Option (Except Refusal Reply × Stack)
  | .push addr => f.push? addr
  | .pop => f.pop?
  | .clear => some (.ok .done, f.clear)

/-- The stack after a list of requests. -/
def run? (f : Stack) (requests : List Request) : Option Stack :=
  requests.foldlM (fun f r => (f.perform? r).map Prod.snd) f

end Stack

end Guarded

end Chip8
