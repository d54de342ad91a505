import BitcoinNodeTests.Foundation.Cycle
import BitcoinNodeTests.Foundation.Decimal

/-!
# The ports a process draws

Each numbered worker draws from a block of its own, and a cursor walks round the block,
one call after another.  A probe bind of the walk succeeds or fails as the machine has it:
`binds` says how each of a call's probes goes.  `probes` is a log nothing reads.
-/

set_option autoImplicit false

namespace BitcoinNodeTests

open Foundation

structure PortRange where
  start : Nat
  stop : Nat
  deriving DecidableEq, Repr

namespace PortRange

def len (block : PortRange) : Nat := block.stop - block.start

def port (block : PortRange) (index : Nat) : Nat := block.start + index

def Holds (block : PortRange) (port : Nat) : Prop := block.start ≤ port ∧ port < block.stop

/-- A bound of a slice: a negative one counts from the end, and none is past an end. -/
def bound (block : PortRange) (index : Int) : Nat :=
  if index < 0 then (index + block.len).toNat else min index.toNat block.len

def slice (block : PortRange) (lower upper : Int) : PortRange :=
  ⟨block.start + block.bound lower, block.start + block.bound upper⟩

end PortRange

def PORTS : PortRange := ⟨26000, 32768⟩

inductive BlockRaised where
  | valueError
  | zeroDivisionError
  deriving DecidableEq, Repr

def removeGw : List Char → List Char
  | 'g' :: 'w' :: rest => rest
  | text => text

def workerBlock (environ : String → Option String) : Except BlockRaised PortRange :=
  let worker := removeGw ((environ "PYTEST_XDIST_WORKER").getD "").toList
  if Decimal.isDecimal worker then
    match Decimal.readInt ((environ "PYTEST_XDIST_WORKER_COUNT").getD "1").toList,
        Decimal.readInt worker with
    | some workers, some number =>
        if workers = 0 then .error .zeroDivisionError
        else
          let size := Int.fdiv PORTS.len workers
          let index := Int.fmod number workers
          .ok (PORTS.slice (index * size) ((index + 1) * size))
    | _, _ => .error .valueError
  else .ok PORTS

/-! ## `_PortCursor` -/

/-- `_block` and `_next`, which is always an index of the block. -/
structure PortCursor where
  block : PortRange
  next : Nat
  inBlock : next < block.len

/-- The locals of `take`. -/
structure Lap where
  ports : List Nat
  next : Nat
  probes : List (Nat × Bool)

/-- The body of `take`'s loop past its first check: `accepts` is how the probe bind goes. -/
def Lap.probe (block : PortRange) (accepts : Bool) (lap : Lap) : Lap where
  ports := if accepts then lap.ports ++ [block.port lap.next] else lap.ports
  next := (lap.next + 1) % block.len
  probes := lap.probes ++ [(block.port lap.next, accepts)]

def Lap.walk (block : PortRange) (count : Int) (binds : Nat → Bool) : Nat → Lap → Lap
  | 0, lap => lap
  | turns + 1, lap =>
      if lap.ports.length = count then lap
      else Lap.walk block count binds turns (lap.probe block (binds lap.probes.length))

structure Taken where
  count : Int
  result : Except String (List Nat)
  probes : List (Nat × Bool)

namespace PortCursor

theorem next_inBlock {block : PortRange} {count : Int} {binds : Nat → Bool} (turns : Nat) :
    ∀ lap : Lap, lap.next < block.len → (Lap.walk block count binds turns lap).next < block.len := by
  induction turns with
  | zero => exact fun _ inBlock => inBlock
  | succ turns ih =>
      intro lap inBlock
      unfold Lap.walk
      split
      · exact inBlock
      · exact ih _ (Nat.mod_lt _ (by omega))

def take (count : Int) (binds : Nat → Bool) (cursor : PortCursor) : Taken × PortCursor :=
  let lap := Lap.walk cursor.block count binds cursor.block.len ⟨[], cursor.next, []⟩
  ({ count := count
     result :=
      if lap.ports.length < count then
        .error (s!"{lap.ports.length} of {count} ports free in " ++
          s!"range({cursor.block.start}, {cursor.block.stop})")
      else .ok lap.ports
     probes := lap.probes },
    ⟨cursor.block, lap.next, next_inBlock _ _ cursor.inBlock⟩)

def takes : List (Int × (Nat → Bool)) → PortCursor → List Taken
  | [], _ => []
  | (count, binds) :: rest, cursor =>
      (cursor.take count binds).1 :: takes rest (cursor.take count binds).2

end PortCursor

end BitcoinNodeTests
