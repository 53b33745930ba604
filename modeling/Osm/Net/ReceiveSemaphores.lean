import Osm.Kernel.SemaphoreHolders
import Osm.Net.Pop

/-!
# The semaphores of the sockets

Every open socket has a semaphore, on which `socket_recvfrom` waits for the service thread of the
POP protocol. `socket_open` creates it and `socket_close` destroys it. A thread in `socket_recvfrom`
looks the semaphore up after it has released `open_sockets_sem`, and lowers it after that.

The other users of semaphores are here too. `disk_submit_request` creates a semaphore for its request
and destroys it when its own `semaphore_P` has returned. A user semaphore is created by
`usr_sem_open` and destroyed by `usr_sem_destroy`, the lock of a volume by `tfs_init` and
`tfs_unmount`. All other semaphores (of the tables of the file systems and of the sockets, of the POP
protocol, of `process_fork`) are never destroyed.
-/

namespace Osm.Net

open Osm.Kernel

/-- The pointers to semaphores outside of the table of open sockets: `sem` of the request of a
thread in `disk_submit_request`, `kernel_sem` of a user semaphore, `lock` of a volume, and those to
semaphores that are never destroyed. -/
inductive Pointer where
  | request (t : ℤ)
  | usrSem (i : ℕ)
  | volume (v : ℕ)
  | kept (i : ℕ)
  deriving DecidableEq

namespace Pointer

/-- Any thread may lower the semaphore. -/
def Shared : Pointer → Prop
  | request _ => False
  | _         => True

/-- The semaphore may be destroyed by a thread that does not know who lowers it. -/
def Recycled : Pointer → Prop
  | usrSem _ => True
  | volume _ => True
  | _        => False

end Pointer

/-- A place that holds a semaphore: `receive_complete` of a row of the table of open sockets, or one
of the other pointers. -/
inductive Place where
  | socket (s : ℕ)
  | pointer (p : Pointer)
  deriving DecidableEq

/-- The semaphores, the table of open sockets, the other pointers, and the threads that are about to
lower a semaphore. -/
structure SocketSystem extends SemState where
  sockets  : Sockets
  pointers : Pointer → Option Sem
  call     : ℤ → Call Place

namespace SocketSystem

/-- No semaphores, no sockets, and no threads but the idle thread. -/
def initial : SocketSystem where
  toSemState := semaphoreInit initialState
  sockets _  := .zero
  pointers _ := none
  call _     := .outside

/-- The semaphore at a place. -/
def held (M : SocketSystem) : Place → Option Sem
  | .socket s  => (M.sockets s).receiveComplete
  | .pointer p => M.pointers p

/-- The system seen as places that hold semaphores. -/
def holders (M : SocketSystem) : Holders Place := ⟨M.toSemState, M.held, M.call⟩

end SocketSystem

/-- The steps of a machine with `n` CPUs. The label is the place whose semaphore a thread destroys
that does not know who lowers it: in `socket_close`, `usr_sem_destroy` and `tfs_unmount`. That
`usr_sem_destroy` looks at the value some time before is left out, so that it destroys more often
here. A call that finds its place empty when it reads the pointer goes on with any semaphore. -/
inductive SocketStep (n : ℕ) (base : UInt32) :
    SocketSystem → Option Place → SocketSystem → Prop where
  -- `socket_open`, `socket_close`, `socket_recvfrom` up to `semaphore_V`, and the service thread
  | open {M : SocketSystem} {cpu : Fin configMaxCpus} {protocol port m' sem} (hcpu : cpu < n)
      (hopen : (socketOpen M.sockets protocol port (some 0)).2 ≠ none)
      (hexec : semaphoreCreate M.toSemState cpu 0 = some (m', sem)) :
      SocketStep n base M none
        { M with toSemState := m', sockets := (socketOpen M.sockets protocol port sem).1 }
  | close {M : SocketSystem} {s sem} (hs : s < configMaxOpenSockets)
      (hsem : (M.sockets s).receiveComplete = some sem) :
      SocketStep n base M (some (.socket s))
        { M with
          toSemState := semaphoreDestroy M.toSemState sem, sockets := socketClose M.sockets s }
  | recvfrom {M : SocketSystem} {t s addr sport buf buflength length sockets}
      (hcall : M.call t = .outside) (hs : s < configMaxOpenSockets) (hbuf : buf ≠ 0)
      (hrecv : socketRecvfrom M.sockets s addr sport buf buflength length = some sockets) :
      SocketStep n base M none
        { M with sockets, call := Function.update M.call t (.entered (.socket s)) }
  | assign {M : SocketSystem} {j} {stmt : ReturnStmt} :
      SocketStep n base M none
        { M with sockets := Function.update M.sockets j (stmt.assign (M.sockets j)) }
  -- `disk_submit_request` up to `semaphore_P`, and behind it
  | submit {M : SocketSystem} {cpu : Fin configMaxCpus} {t m' sem} (hcpu : cpu < n)
      (hcall : M.call t = .outside) (hsem : M.pointers (.request t) = none)
      (hexec : semaphoreCreate M.toSemState cpu 0 = some (m', some sem)) :
      SocketStep n base M none
        { M with
          toSemState := m'
          pointers   := Function.update M.pointers (.request t) (some sem)
          call       := Function.update M.call t (.lowering (.pointer (.request t)) sem) }
  | served {M : SocketSystem} {t sem} (hcall : M.call t = .inside (.pointer (.request t)) sem)
      (hawake : ¬ M.SleepsOn base t sem) :
      SocketStep n base M none
        { M with
          toSemState := semaphoreDestroy M.toSemState sem
          pointers   := Function.update M.pointers (.request t) none
          call       := Function.update M.call t .outside }
  -- the other semaphores
  | create {M : SocketSystem} {cpu : Fin configMaxCpus} {p value m' sem} (hcpu : cpu < n)
      (hp : p.Shared) (hsem : M.pointers p = none)
      (hexec : semaphoreCreate M.toSemState cpu value = some (m', sem)) :
      SocketStep n base M none
        { M with toSemState := m', pointers := Function.update M.pointers p sem }
  | destroy {M : SocketSystem} {p sem} (hp : p.Recycled) (hsem : M.pointers p = some sem) :
      SocketStep n base M (some (.pointer p))
        { M with
          toSemState := semaphoreDestroy M.toSemState sem
          pointers   := Function.update M.pointers p none }
  | enter {M : SocketSystem} {t p} (hcall : M.call t = .outside) (hp : p.Shared)
      (hsem : M.pointers p ≠ none) :
      SocketStep n base M none { M with call := Function.update M.call t (.entered (.pointer p)) }
  -- any call that lowers a semaphore
  | look {M : SocketSystem} {t p sem} (hcall : M.call t = .entered p)
      (hsem : ∀ sem', M.held p = some sem' → sem' = sem) :
      SocketStep n base M none { M with call := Function.update M.call t (.lowering p sem) }
  | lower {M : SocketSystem} {cpu : Fin configMaxCpus} {t p sem m'}
      (ht : M.kernel.currentThread cpu = t) (hcall : M.call t = .lowering p sem)
      (ha : (Action.sleepqAdd cpu (semaphoreAddress base sem)).Enabled n M.kernel)
      (hexec : semaphoreP base M.toSemState cpu sem = some m') :
      SocketStep n base M none
        { M with toSemState := m', call := Function.update M.call t (.inside p sem) }
  | leave {M : SocketSystem} {t p sem} (hcall : M.call t = .inside p sem)
      (hp : p ≠ .pointer (.request t)) (hawake : ¬ M.SleepsOn base t sem) :
      SocketStep n base M none { M with call := Function.update M.call t .outside }
  -- `semaphore_V`, by a thread or an interrupt handler, and everything that is done to threads
  | raise {M : SocketSystem} {sem m'} (hexec : semaphoreV base M.toSemState sem = some m') :
      SocketStep n base M none { M with toSemState := m' }
  | kernel {M : SocketSystem} {s' : State} {a : Action} (ha : a.Enabled n M.kernel)
      (helse : ∀ cpu sem, a ≠ .sleepqAdd cpu (semaphoreAddress base sem))
      (hexec : a.exec M.kernel = some s') :
      SocketStep n base M none { M with kernel := s' }

/-- `socket_close`, `usr_sem_destroy` and `tfs_unmount` do not destroy a semaphore while a call is in
progress that lowers it: a `socket_recvfrom` from its change of the table on, a `usr_sem_p`, or an
operation of the volume that is about to take the lock. -/
def KeepsCalls (M : SocketSystem) (e : Option Place) : Prop :=
  ∀ p, e = some p → ∀ t, ¬ (M.call t).Uses p

/-- The places hold semaphores of their own, the open sockets are the rows with a semaphore, and a
request is used by its own thread. -/
structure SocketInv (n : ℕ) (base : UInt32) (M : SocketSystem) : Prop where
  holders : HoldersInv n base M.holders
  rows    : ∀ s, (M.sockets s).protocol = 0 ↔ (M.sockets s).receiveComplete = none
  request : ∀ t t', (M.call t).Uses (.pointer (.request t')) → t' = t

/-! ### The places -/

variable {n : ℕ} {base : UInt32} {M M' : SocketSystem} {e : Option Place}

/-- A change of a row of the table of open sockets. -/
lemma held_sockets {m : SemState} {call : ℤ → Call Place} (s : ℕ) (row : Socket) :
    SocketSystem.held { M with
        toSemState := m, sockets := Function.update M.sockets s row, call } =
      Function.update M.held (.socket s) row.receiveComplete := by
  funext p
  cases p with
  | pointer p => rfl
  | socket s' =>
    by_cases hs : s' = s
    · subst hs
      simp [SocketSystem.held]
    · simp [SocketSystem.held, hs]

/-- A change of another pointer. -/
lemma held_pointers {m : SemState} {call : ℤ → Call Place} (p : Pointer) (sem : Option Sem) :
    SocketSystem.held { M with
        toSemState := m, pointers := Function.update M.pointers p sem, call } =
      Function.update M.held (.pointer p) sem := by
  funext p'
  cases p' with
  | socket s => rfl
  | pointer p' =>
    by_cases hp : p' = p
    · subst hp
      simp [SocketSystem.held]
    · simp [SocketSystem.held, hp]

/-- A change of the table of open sockets that touches no semaphore. -/
lemma held_congr {m : SemState} {call : ℤ → Call Place} {sockets : Sockets}
    (h : ∀ s, (sockets s).receiveComplete = (M.sockets s).receiveComplete) :
    SocketSystem.held { M with toSemState := m, sockets, call } = M.held := by
  funext p
  cases p with
  | pointer p => rfl
  | socket s => exact h s

namespace SocketInv

lemma initial (hne : ∀ sem, semaphoreAddress base sem ≠ 0) : SocketInv n base .initial where
  holders := by
    refine ⟨.refl, ⟨fun p p' sem hp => ?_, fun p sem hp => ?_⟩, fun t p huses => huses.elim,
      fun t p sem hhas => hhas.elim, fun t sem hs => ?_⟩
    · cases p <;> cases hp
    · cases p <;> cases hp
    · have hzero : (initialState.threadTable t).sleepsOn = 0 := by
        by_cases ht : t = idleThreadTid <;> simp [initialState, ht]
      exact absurd (hs.symm.trans hzero) (hne sem)
  rows s := by simp [SocketSystem.initial, Socket.zero]
  request t t' huses := huses.elim

/-- A thread that begins a call, or goes on in it, at a place that is not a request of another
thread. -/
lemma request_update {t : ℤ} {c : Call Place} (h : SocketInv n base M)
    (hc : ∀ t', c.Uses (.pointer (.request t')) → t' = t) (t₁ t' : ℤ)
    (huses : (Function.update M.call t c t₁).Uses (.pointer (.request t'))) : t' = t₁ := by
  by_cases ht : t₁ = t
  · subst ht
    rw [Function.update_self] at huses
    exact hc t' huses
  · rw [Function.update_of_ne ht] at huses
    exact h.request t₁ t' huses

/-- Only the thread itself uses its request. -/
lemma not_uses_request {t t' : ℤ} (h : SocketInv n base M) (ht : t' ≠ t) :
    ¬ (M.call t').Uses (.pointer (.request t)) :=
  fun huses => ht (h.request t' t huses).symm

/-! ### The steps -/

lemma openSocket {cpu : Fin configMaxCpus} {protocol : UInt8} {port : UInt16} {m' : SemState}
    {sem : Option Sem} (h : SocketInv n base M) (hcpu : cpu < n)
    (hopen : (socketOpen M.sockets protocol port (some 0)).2 ≠ none)
    (hexec : semaphoreCreate M.toSemState cpu 0 = some (m', sem)) :
    SocketInv n base
      { M with toSemState := m', sockets := (socketOpen M.sockets protocol port sem).1 } := by
  obtain ⟨s, hfree, hsockets⟩ := socketOpen_receiveComplete hopen
  obtain ⟨row, heq, hsem, hrow⟩ := hsockets sem
  rw [heq]
  refine ⟨?_, fun s' => ?_, h.request⟩
  · have hheld : M.holders.held (.socket s) = none := (h.rows s).mp hfree
    have hcreate := h.holders.create hcpu hheld hexec
    rw [← hsem] at hcreate
    rw [SocketSystem.holders, held_sockets]
    exact hcreate
  · by_cases hs : s' = s
    · subst hs
      simpa [hsem] using hrow
    · simpa [hs] using h.rows s'

lemma closeSocket {s : ℕ} {sem : Sem} (h : SocketInv n base M)
    (hsem : (M.sockets s).receiveComplete = some sem)
    (hcond : ∀ t, ¬ (M.call t).Uses (.socket s)) :
    SocketInv n base
      { M with
        toSemState := semaphoreDestroy M.toSemState sem, sockets := socketClose M.sockets s } := by
  have hsome : (M.sockets s).receiveComplete ≠ none := by
    rw [hsem]
    exact Option.some_ne_none sem
  rw [socketClose, if_pos hsome]
  refine ⟨?_, fun s' => ?_, h.request⟩
  · have hheld : M.holders.held (.socket s) = some sem := hsem
    rw [SocketSystem.holders, held_sockets]
    exact h.holders.destroy hheld hcond
  · by_cases hs : s' = s
    · subst hs
      simp
    · simpa [hs] using h.rows s'

lemma recvfrom {t : ℤ} {s : ℕ} {addr sport buf buflength length : UInt32} {sockets : Sockets}
    (h : SocketInv n base M) (hcall : M.call t = .outside)
    (hrecv : socketRecvfrom M.sockets s addr sport buf buflength length = some sockets) :
    SocketInv n base
      { M with sockets, call := Function.update M.call t (.entered (.socket s)) } := by
  obtain ⟨hopen, hsame⟩ := socketRecvfrom_receiveComplete hrecv
  refine ⟨?_, fun j => ?_, h.request_update fun t' huses => by cases huses⟩
  · have hheld : M.holders.held (.socket s) ≠ none := fun hnone => hopen ((h.rows s).mpr hnone)
    rw [SocketSystem.holders, held_congr hsame]
    exact h.holders.enter hcall hheld
  · change (sockets j).protocol = 0 ↔ (sockets j).receiveComplete = none
    rw [(socketRecvfrom_row hrecv j).1, hsame j]
    exact h.rows j

lemma assign (h : SocketInv n base M) (j : ℕ) (stmt : ReturnStmt) :
    SocketInv n base
      { M with sockets := Function.update M.sockets j (stmt.assign (M.sockets j)) } := by
  have hstmt : (stmt.assign (M.sockets j)).receiveComplete = (M.sockets j).receiveComplete ∧
      (stmt.assign (M.sockets j)).protocol = (M.sockets j).protocol := by
    cases stmt <;> exact ⟨rfl, rfl⟩
  have hsame : ∀ s, (Function.update M.sockets j (stmt.assign (M.sockets j)) s).receiveComplete =
      (M.sockets s).receiveComplete ∧
      (Function.update M.sockets j (stmt.assign (M.sockets j)) s).protocol =
        (M.sockets s).protocol := by
    intro s
    by_cases hs : s = j
    · subst hs
      rw [Function.update_self]
      exact hstmt
    · rw [Function.update_of_ne hs]
      exact ⟨rfl, rfl⟩
  refine ⟨?_, fun s => ?_, h.request⟩
  · rw [SocketSystem.holders, held_congr fun s => (hsame s).1]
    exact h.holders
  · change (Function.update M.sockets j (stmt.assign (M.sockets j)) s).protocol = 0 ↔ _
    rw [(hsame s).2, h.rows s]
    exact Iff.of_eq (congrArg (· = none) (hsame s).1.symm)

lemma submit {cpu : Fin configMaxCpus} {t : ℤ} {m' : SemState} {sem : Sem}
    (h : SocketInv n base M) (hcpu : cpu < n) (hcall : M.call t = .outside)
    (hsem : M.pointers (.request t) = none)
    (hexec : semaphoreCreate M.toSemState cpu 0 = some (m', some sem)) :
    SocketInv n base
      { M with
        toSemState := m'
        pointers   := Function.update M.pointers (.request t) (some sem)
        call       := Function.update M.call t (.lowering (.pointer (.request t)) sem) } := by
  refine ⟨?_, h.rows, h.request_update ?_⟩
  · have hheld : M.holders.held (.pointer (.request t)) = none := hsem
    have hcreate := h.holders.create hcpu hheld hexec
    -- the call begins and reads the pointer at once
    have hself : Function.update M.holders.held (.pointer (.request t)) (some sem)
        (.pointer (.request t)) = some sem := Function.update_self ..
    have hsome : Function.update M.holders.held (.pointer (.request t)) (some sem)
        (.pointer (.request t)) ≠ none := by
      rw [hself]
      exact Option.some_ne_none sem
    have henter := hcreate.enter hcall hsome
    have hlook := henter.look (Function.update_self ..) fun sem' hsem' =>
      Option.some.inj (hsem'.symm.trans hself)
    rw [Function.update_idem] at hlook
    rw [SocketSystem.holders, held_pointers]
    exact hlook
  · intro t' huses
    exact (Pointer.request.inj (Place.pointer.inj huses)).symm

lemma served {t : ℤ} {sem : Sem} (h : SocketInv n base M)
    (hcall : M.call t = .inside (.pointer (.request t)) sem) (hawake : ¬ M.SleepsOn base t sem) :
    SocketInv n base
      { M with
        toSemState := semaphoreDestroy M.toSemState sem
        pointers   := Function.update M.pointers (.request t) none
        call       := Function.update M.call t .outside } := by
  refine ⟨?_, h.rows, h.request_update fun t' huses => huses.elim⟩
  have hheld : M.holders.held (.pointer (.request t)) = some sem := by
    refine h.holders.has t _ sem ?_
    rw [show M.holders.call t = _ from hcall]
    exact ⟨rfl, rfl⟩
  -- the thread has left its call, and no other thread uses its request
  have hleave := h.holders.leave hcall hawake
  have hcond : ∀ t', ¬ (Function.update M.call t .outside t').Uses (.pointer (.request t)) := by
    intro t'
    by_cases ht : t' = t
    · rw [ht, Function.update_self]
      exact id
    · rw [Function.update_of_ne ht]
      exact h.not_uses_request ht
  rw [SocketSystem.holders, held_pointers]
  exact hleave.destroy hheld hcond

lemma createPointer {cpu : Fin configMaxCpus} {p : Pointer} {value : ℤ} {m' : SemState}
    {sem : Option Sem} (h : SocketInv n base M) (hcpu : cpu < n) (hsem : M.pointers p = none)
    (hexec : semaphoreCreate M.toSemState cpu value = some (m', sem)) :
    SocketInv n base { M with toSemState := m', pointers := Function.update M.pointers p sem } := by
  refine ⟨?_, h.rows, h.request⟩
  have hheld : M.holders.held (.pointer p) = none := hsem
  rw [SocketSystem.holders, held_pointers]
  exact h.holders.create hcpu hheld hexec

lemma destroyPointer {p : Pointer} {sem : Sem} (h : SocketInv n base M)
    (hsem : M.pointers p = some sem) (hcond : ∀ t, ¬ (M.call t).Uses (.pointer p)) :
    SocketInv n base
      { M with
        toSemState := semaphoreDestroy M.toSemState sem
        pointers   := Function.update M.pointers p none } := by
  refine ⟨?_, h.rows, h.request⟩
  have hheld : M.holders.held (.pointer p) = some sem := hsem
  rw [SocketSystem.holders, held_pointers]
  exact h.holders.destroy hheld hcond

lemma enter {t : ℤ} {p : Pointer} (h : SocketInv n base M) (hcall : M.call t = .outside)
    (hp : p.Shared) (hsem : M.pointers p ≠ none) :
    SocketInv n base
      { M with call := Function.update M.call t (.entered (.pointer p)) } := by
  refine ⟨h.holders.enter hcall hsem, h.rows, h.request_update fun t' huses => ?_⟩
  cases huses
  exact hp.elim

lemma look {t : ℤ} {p : Place} {sem : Sem} (h : SocketInv n base M) (hcall : M.call t = .entered p)
    (hsem : ∀ sem', M.held p = some sem' → sem' = sem) :
    SocketInv n base { M with call := Function.update M.call t (.lowering p sem) } := by
  refine ⟨h.holders.look hcall hsem, h.rows, h.request_update fun t' huses => h.request t t' ?_⟩
  rw [hcall]
  exact huses

lemma lower {cpu : Fin configMaxCpus} {t : ℤ} {p : Place} {sem : Sem} {m' : SemState}
    (h : SocketInv n base M) (hinj : Function.Injective (semaphoreAddress base))
    (hne : ∀ sem, semaphoreAddress base sem ≠ 0) (ht : M.kernel.currentThread cpu = t)
    (hcall : M.call t = .lowering p sem)
    (ha : (Action.sleepqAdd cpu (semaphoreAddress base sem)).Enabled n M.kernel)
    (hexec : semaphoreP base M.toSemState cpu sem = some m') :
    SocketInv n base
      { M with toSemState := m', call := Function.update M.call t (.inside p sem) } := by
  subst ht
  refine ⟨?_, h.rows, h.request_update fun t' huses => h.request _ t' ?_⟩
  · have hfree : m'.freeRows = M.toSemState.freeRows := by
      obtain ⟨kernel, rfl, -⟩ := semaphoreP_cases hexec
      exact freeRows_setValue
    refine h.holders.advance hinj hne (.p ha hexec) hfree (fun t' => ?_) fun t' sem' heq => ?_
    · by_cases ht' : t' = M.kernel.currentThread cpu
      · subst ht'
        exact .inr ⟨p, sem, hcall, Function.update_self ..⟩
      · exact .inl (Function.update_of_ne ht' ..)
    · cases heq
      exact ⟨p, Function.update_self ..⟩
  · rw [hcall]
    exact huses

lemma leave {t : ℤ} {p : Place} {sem : Sem} (h : SocketInv n base M)
    (hcall : M.call t = .inside p sem) (hawake : ¬ M.SleepsOn base t sem) :
    SocketInv n base { M with call := Function.update M.call t .outside } :=
  ⟨h.holders.leave hcall hawake, h.rows, h.request_update fun _ huses => huses.elim⟩

lemma raise {sem : Sem} {m' : SemState} (h : SocketInv n base M)
    (hinj : Function.Injective (semaphoreAddress base)) (hne : ∀ sem, semaphoreAddress base sem ≠ 0)
    (hexec : semaphoreV base M.toSemState sem = some m') :
    SocketInv n base { M with toSemState := m' } := by
  have hfree : m'.freeRows = M.toSemState.freeRows := by
    obtain ⟨kernel, rfl, -⟩ := semaphoreV_cases hexec
    exact freeRows_setValue
  have hp : ∀ t sem', SemAction.v sem = .p t sem' → ∃ p, M.call t = .inside p sem' := by
    intro t sem' heq
    cases heq
  exact ⟨h.holders.advance hinj hne (.v hexec) hfree (fun _ => .inl rfl) hp, h.rows, h.request⟩

/-- A step that meets the condition keeps the invariant. -/
lemma step (h : SocketInv n base M) (hinj : Function.Injective (semaphoreAddress base))
    (hne : ∀ sem, semaphoreAddress base sem ≠ 0) (hstep : SocketStep n base M e M')
    (hcond : KeepsCalls M e) : SocketInv n base M' := by
  cases hstep with
  | «open» hcpu hopen hexec => exact h.openSocket hcpu hopen hexec
  | close hs hsem => exact h.closeSocket hsem (hcond _ rfl)
  | recvfrom hcall hs hbuf hrecv => exact h.recvfrom hcall hrecv
  | assign => exact h.assign ..
  | submit hcpu hcall hsem hexec => exact h.submit hcpu hcall hsem hexec
  | served hcall hawake => exact h.served hcall hawake
  | create hcpu hp hsem hexec => exact h.createPointer hcpu hsem hexec
  | destroy hp hsem => exact h.destroyPointer hsem (hcond _ rfl)
  | enter hcall hp hsem => exact h.enter hcall hp hsem
  | look hcall hsem => exact h.look hcall hsem
  | lower ht hcall ha hexec => exact h.lower hinj hne ht hcall ha hexec
  | leave hcall hp hawake => exact h.leave hcall hawake
  | raise hexec => exact h.raise hinj hne hexec
  | kernel ha helse hexec =>
    have hp : ∀ t sem, SemAction.other = .p t sem → ∃ p, M.call t = .inside p sem := by
      intro t sem heq
      cases heq
    exact ⟨h.holders.advance hinj hne (.kernel ha helse hexec) rfl (fun _ => .inl rfl) hp, h.rows,
      h.request⟩

end SocketInv

end Osm.Net
