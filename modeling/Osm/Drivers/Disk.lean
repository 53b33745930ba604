import Mathlib.Data.Finset.Card
import Mathlib.Logic.Relation
import Osm.Core.Linked
import Osm.Core.Loop
import Osm.Kernel.Semaphore

/-!
# The disk driver

A model of `drivers/disk.c` and `drivers/disksched.c`. Requests are in memory and named by their
addresses; many of them are on the stacks of the callers. The device takes every command without
an error and raises one interrupt for it, after which it is idle.

What is done with `slock` taken is one step, but the interrupt handler, which has two: from
`semaphore_V` on, the thread that waits for the request can run, while the handler goes on to the
next request. A semaphore is a row of the table, and a call that sleeps on it is woken by
`semaphore_V` as `sleepq_wake` does it.

A result `none` stands for a failed assertion and for a `NULL` pointer.
-/

namespace Osm.Drivers

open Osm.Core Osm.Kernel

/-- `gbd_operation_t`. -/
inductive GbdOperation where
  | read
  | write

/-- `gbd_request_t`. -/
structure GbdRequest where
  block       : UInt32
  buf         : UInt32
  sem         : Option Sem
  operation   : GbdOperation
  next        : UInt32
  returnValue : ℤ

/-- `disk_real_device_t` with the requests in memory, and the registers of the device. For reading
and writing there are different bits of the status, which are always handled together. -/
structure DiskRealDevice where
  requests      : UInt32 → GbdRequest
  requestQueue  : UInt32
  requestServed : UInt32
  busy          : Bool
  irq           : Bool
  tsector       : UInt32
  dmaaddr       : UInt32
  command       : GbdOperation

/-- A request is assigned to. -/
def DiskRealDevice.setRequest (d : DiskRealDevice) (r : UInt32) (req : GbdRequest) :
    DiskRealDevice :=
  { d with requests := Function.update d.requests r req }

namespace DiskRealDevice

variable {d : DiskRealDevice} {r r' : UInt32} {req : GbdRequest}

@[simp]
lemma setRequest_self : (d.setRequest r req).requests r = req := Function.update_self ..

lemma setRequest_of_ne (h : r' ≠ r) : (d.setRequest r req).requests r' = d.requests r' :=
  Function.update_of_ne h ..

end DiskRealDevice

/-- A round of the loop of `disksched_schedule`. -/
def lastRound (d : DiskRealDevice) (q : UInt32) : UInt32 ⊕ UInt32 :=
  if (d.requests q).next ≠ 0 then .inl (d.requests q).next else .inr q

/-- `disksched_schedule`. -/
def diskschedSchedule (fuel : ℕ) (d : DiskRealDevice) (request : UInt32) :
    Option DiskRealDevice :=
  if d.requestQueue ≠ 0 then do
    let q ← loop (lastRound d) fuel d.requestQueue
    return d.setRequest q { d.requests q with next := request }
  else some { d with requestQueue := request }

/-- `disk_next_request`, and whether the device has got a command. -/
def diskNextRequest (d : DiskRealDevice) : Option (DiskRealDevice × Bool) :=
  if d.busy then none
  else if d.requestServed ≠ 0 then none
  else if d.requestQueue = 0 then some (d, false)
  else
    let req := d.requests d.requestQueue
    some ({ d.setRequest d.requestQueue { req with next := 0 } with
      requestQueue  := req.next
      requestServed := d.requestQueue
      tsector       := req.block
      dmaaddr       := req.buf
      command       := req.operation
      busy          := true }, true)

/-- What `disk_submit_request` does with `slock` taken. -/
def diskQueueRequest (fuel : ℕ) (d : DiskRealDevice) (request : UInt32) :
    Option (DiskRealDevice × Bool) := do
  let d ← diskschedSchedule fuel d request
  if d.requestServed = 0 then diskNextRequest d else return (d, false)

/-- `disk_interrupt_handle` up to `semaphore_V`, and the semaphore that is raised. Without an
interrupt of the device it does nothing: another device has the same line. -/
def diskInterruptHandle (d : DiskRealDevice) : Option (DiskRealDevice × Option Sem) :=
  if d.irq = false then some (d, none)
  else if d.requestServed = 0 then none
  else do
    let req := d.requests d.requestServed
    let sem ← req.sem
    return ({ d.setRequest d.requestServed { req with returnValue := 0 } with irq := false },
      some sem)

/-- `disk_interrupt_handle` behind `semaphore_V`. -/
def diskInterruptNext (d : DiskRealDevice) : Option (DiskRealDevice × Bool) :=
  diskNextRequest { d with requestServed := 0 }

/-- What the functions for reading and writing store in a request before it is queued. -/
def GbdRequest.prepare (req : GbdRequest) (operation : GbdOperation) (sem : Sem) : GbdRequest :=
  { req with operation, sem := some sem, next := 0, returnValue := -1 }

/-! ### Interleavings -/

/-- Where a call is that has been made with a request: there is none, it has not queued the
request yet, it has queued it, it sleeps in `semaphore_P`, or it has returned from there. A call
that is not synchronous returns when the request is queued, but the request is still in use. -/
inductive SubmitPc where
  | outside
  | submitting (sync : Bool)
  | submitted (sync : Bool)
  | asleep
  | woken

/-- The call is synchronous. -/
def SubmitPc.Sync : SubmitPc → Prop
  | outside => False
  | submitting sync | submitted sync => sync = true
  | asleep | woken => True

/-- What the device is to do for a call, and the semaphore that is to be raised. -/
structure Job where
  call      : ℕ
  sem       : Option Sem
  block     : UInt32
  buf       : UInt32
  operation : GbdOperation

/-- The driver with the semaphores and the calls. The calls are numbered, and it is recorded what
has been queued, given to the device, completed by it, which semaphores the handler has raised,
what synchronous calls have returned, and which semaphores others have reserved. The interrupt
handler has `slock` from `semaphore_V` on. -/
structure DiskSystem extends DiskRealDevice where
  slock          : Bool
  semaphoreTable : Sem → Semaphore
  pc             : UInt32 → SubmitPc
  call           : UInt32 → ℕ
  calls          : ℕ
  queued         : List Job
  issued         : List Job
  completed      : List Job
  raised         : List Job
  returned       : List (ℕ × ℤ)
  others         : Finset Sem

namespace DiskSystem

/-- What is to be done for a request. -/
def job (M : DiskSystem) (r : UInt32) : Job :=
  let req := M.requests r
  ⟨M.call r, req.sem, req.block, req.buf, req.operation⟩

/-- What the device has been told to do. -/
def told (M : DiskSystem) : Job :=
  { M.job M.requestServed with block := M.tsector, buf := M.dmaaddr, operation := M.command }

/-- A call with the request goes on. -/
def setPc (M : DiskSystem) (r : UInt32) (pc : SubmitPc) : DiskSystem :=
  { M with pc := Function.update M.pc r pc }

/-- A row of the semaphore table is assigned to. -/
def setRow (M : DiskSystem) (sem : Sem) (row : Semaphore) : DiskSystem :=
  { M with semaphoreTable := Function.update M.semaphoreTable sem row }

/-- A new call with the request. -/
def begin (M : DiskSystem) (r : UInt32) (operation : GbdOperation) (sem : Sem) (sync : Bool) :
    DiskSystem :=
  { M with
    toDiskRealDevice := M.setRequest r ((M.requests r).prepare operation sem)
    pc    := Function.update M.pc r (.submitting sync)
    call  := Function.update M.call r M.calls
    calls := M.calls + 1 }

/-- The functions of the driver have changed the device, and given it a command or not. -/
def setDevice (M : DiskSystem) (d : DiskRealDevice) (given : Bool) : DiskSystem :=
  let M := { M with toDiskRealDevice := d }
  if given then { M with issued := M.issued ++ [M.told] } else M

/-- The thread that `sleepq_wake` wakes, if any: a call that sleeps on the semaphore, unless only
others do. -/
def Wakes (M : DiskSystem) (sem : Sem) : Option UInt32 → Prop
  | some r => (M.semaphoreTable sem).value + 1 ≤ 0 ∧ M.pc r = .asleep ∧
    (M.requests r).sem = some sem
  | none   => (M.semaphoreTable sem).value + 1 ≤ 0 →
    ∀ r, M.pc r = .asleep → (M.requests r).sem ≠ some sem

/-- `semaphore_V` for a request. One that is not synchronous is not used any more. -/
def raise (M : DiskSystem) (r : UInt32) (sem : Sem) (woken : Option UInt32) : DiskSystem :=
  let row := M.semaphoreTable sem
  let M := M.setRow sem { row with value := row.value + 1 }
  let M := match M.pc r with
    | .submitted false => M.setPc r .outside
    | _                => M
  match woken with
  | some r => M.setPc r .woken
  | none   => M

/-- The semaphore belongs to a synchronous call. -/
def Owned (M : DiskSystem) (sem : Sem) : Prop :=
  ∃ r, (M.pc r).Sync ∧ (M.requests r).sem = some sem

/-- The semaphore is that of a request in use. -/
def Used (M : DiskSystem) (sem : Sem) : Prop :=
  ∃ r, M.pc r ≠ .outside ∧ (M.requests r).sem = some sem

end DiskSystem

/-- The steps of the calls, the device and the interrupt handler. Requests that are not in use and
semaphores that belong to others may change in any way, but the semaphore of a request in use stays
reserved. -/
inductive DiskStep : DiskSystem → DiskSystem → Prop
  | client {M : DiskSystem} {r req} (hpc : M.pc r = .outside) :
      DiskStep M { M with toDiskRealDevice := M.setRequest r req }
  | others {M : DiskSystem} {sem} {row : Semaphore} (hown : ¬ M.Owned sem)
      (hused : M.Used sem → row.creator ≠ -1) :
      DiskStep M { M.setRow sem row with
        others := if row.creator = -1 then M.others.erase sem else insert sem M.others }
  | submitSync {M : DiskSystem} {r operation sem creator} (hr : r ≠ 0)
      (hpc : M.pc r = .outside) (hnull : (M.requests r).sem = none)
      (hfree : (M.semaphoreTable sem).creator = -1) (hcreator : creator ≠ -1) :
      DiskStep M ((M.begin r operation sem true).setRow sem { value := 0, creator })
  | submitAsync {M : DiskSystem} {r operation sem} (hr : r ≠ 0) (hpc : M.pc r = .outside)
      (hsem : (M.requests r).sem = some sem) (hothers : sem ∈ M.others) :
      DiskStep M (M.begin r operation sem false)
  | queue {M : DiskSystem} {r sync fuel d given} (hpc : M.pc r = .submitting sync)
      (hslock : M.slock = false)
      (hexec : diskQueueRequest fuel M.toDiskRealDevice r = some (d, given)) :
      DiskStep M
        { (M.setDevice d given).setPc r (.submitted sync) with queued := M.queued ++ [M.job r] }
  | complete {M : DiskSystem} {job} (hbusy : M.busy = true)
      (hlast : M.issued.getLast? = some job) :
      DiskStep M { M with busy := false, irq := true, completed := M.completed ++ [job] }
  | shared {M : DiskSystem} {d} (hslock : M.slock = false)
      (hexec : diskInterruptHandle M.toDiskRealDevice = some (d, none)) :
      DiskStep M { M with toDiskRealDevice := d }
  | interrupt {M : DiskSystem} {d sem woken} (hslock : M.slock = false)
      (hexec : diskInterruptHandle M.toDiskRealDevice = some (d, some sem))
      (hwakes : M.Wakes sem woken) :
      DiskStep M
        { M.raise M.requestServed sem woken with
          toDiskRealDevice := d, slock := true, raised := M.raised ++ [M.job M.requestServed] }
  | next {M : DiskSystem} {d given} (hslock : M.slock = true)
      (hexec : diskInterruptNext M.toDiskRealDevice = some (d, given)) :
      DiskStep M { M.setDevice d given with slock := false }
  | lower {M : DiskSystem} {r sem} (hpc : M.pc r = .submitted true)
      (hsem : (M.requests r).sem = some sem) :
      DiskStep M
        (let row := M.semaphoreTable sem
        (M.setRow sem { row with value := row.value - 1 }).setPc r
          (if row.value - 1 < 0 then .asleep else .woken))
  | return {M : DiskSystem} {r sem} (hpc : M.pc r = .woken)
      (hsem : (M.requests r).sem = some sem) :
      DiskStep M
        { (M.setRow sem { M.semaphoreTable sem with creator := -1 }).setPc r .outside with
          toDiskRealDevice := M.setRequest r { M.requests r with sem := none }
          returned := M.returned ++
            [(M.call r, if (M.requests r).returnValue = 0 then 1 else 0)] }

/-- The runs of these steps. -/
def DiskRun : DiskSystem → DiskSystem → Prop := Relation.ReflTransGen DiskStep

/-- The state after `disk_init`: no request is in use, and all semaphores belong to others. -/
structure DiskSystem.Start (M : DiskSystem) : Prop where
  requestQueue  : M.requestQueue = 0
  requestServed : M.requestServed = 0
  busy          : M.busy = false
  irq           : M.irq = false
  slock         : M.slock = false
  pc            : ∀ r, M.pc r = .outside
  queued        : M.queued = []
  issued        : M.issued = []
  completed     : M.completed = []
  raised        : M.raised = []
  returned      : M.returned = []
  others        : ∀ sem, sem ∈ M.others ↔ (M.semaphoreTable sem).creator ≠ -1

end Osm.Drivers
