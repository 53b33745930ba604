import Osm.Drivers.DiskRequests

/-!
# Runs of the disk driver

Every step keeps the invariant of the driver, so it holds in every run that starts behind
`disk_init`: the requests are given to the device one by one in the order of the queue, their
semaphores are raised once, and no assertion fails.
-/

namespace Osm.Drivers

open Osm.Core Osm.Kernel DiskRealDevice DiskSystem

variable {M M' : DiskSystem} {l l' : List UInt32} {r x : UInt32} {sem : Sem} {d : DiskRealDevice}
variable {given sync : Bool}

/-! ### The steps -/

lemma SubmitPc.Sync.ne_outside {pc : SubmitPc} (h : pc.Sync) : pc ≠ .outside := by
  rintro rfl
  exact h

namespace DiskInv

lemma notMem_of_outside (h : DiskInv M l) (hpc : M.pc r = .outside) : r ∉ M.serving ++ l := by
  have hok := h.calls r
  rw [hpc] at hok
  exact hok

/-- A request that is not in use changes. -/
lemma client (h : DiskInv M l) {req : GbdRequest} (hpc : M.pc r = .outside) :
    DiskInv { M with toDiskRealDevice := M.setRequest r req } l := by
  have hmem := h.notMem_of_outside hpc
  have hsame : ∀ x, x ≠ r → (M.setRequest r req).requests x = M.requests x := fun x hx =>
    setRequest_of_ne hx
  have hin : ∀ x, M.pc x ≠ .outside → x ≠ r := by
    rintro x hx rfl
    exact hx hpc
  have hcalls : ∀ x, Leaves M { M with toDiskRealDevice := M.setRequest r req }
      (M.serving ++ l) (M.serving ++ l) x := fun x =>
    .of_requests rfl Iff.rfl rfl (fun hx => hsame x (hin x hx)) rfl rfl rfl fun _ _ _ _ => rfl
  exact
    { queue := h.queue.frame fun x hx => ⟨hsame x fun heq => hmem (heq ▸ hx), rfl⟩
      calls := fun x => (hcalls x).callOk (h.calls x)
      numbers := h.numbers.mono rfl rfl rfl fun _ => id
      owners := h.owners.frame (fun _ => rfl) rfl (fun _ => Iff.rfl) fun x hx =>
        congrArg _ (hsame x (hin x hx.ne_outside))
      returned := h.returned }

/-- Others do something with a semaphore. -/
lemma othersDo (h : DiskInv M l) {row : Semaphore} (hown : ¬ M.Owned sem)
    (hused : M.Used sem → row.creator ≠ -1) :
    DiskInv { M.setRow sem row with
      others := if row.creator = -1 then M.others.erase sem else insert sem M.others } l := by
  set M' : DiskSystem := { M.setRow sem row with
    others := if row.creator = -1 then M.others.erase sem else insert sem M.others }
  have hothers : ∀ s, s ≠ sem → (s ∈ M'.others ↔ s ∈ M.others) := by
    intro s hs
    show (s ∈ if row.creator = -1 then M.others.erase sem else insert sem M.others) ↔ _
    split_ifs
    · rw [Finset.mem_erase, and_iff_right hs]
    · rw [Finset.mem_insert, or_iff_right hs]
  have hcalls : ∀ x, Leaves M M' (M.serving ++ l) (M.serving ++ l) x := fun x =>
    { pc := rfl
      mem := Iff.rfl
      call := rfl
      sem := fun _ => rfl
      returnValue := fun _ => rfl
      next := fun _ _ => rfl
      queued := fun _ => id
      raised := List.Subset.refl _
      own := fun hsync s hs hmem => by
        have hne : s ≠ sem := by
          rintro rfl
          exact hown ⟨x, hsync, hs⟩
        exact ⟨mt (hothers s hne).mp hmem, congrArg _ (Function.update_of_ne hne ..)⟩
      others := fun hin s hs hmem => by
        by_cases hne : s = sem
        · subst hne
          have hcreator := hused ⟨x, hin, hs⟩
          show s ∈ if row.creator = -1 then M.others.erase s else insert s M.others
          rw [if_neg hcreator]
          exact Finset.mem_insert_self s M.others
        · exact (hothers s hne).mpr hmem }
  exact
    { queue := h.queue.frame fun _ _ => ⟨rfl, rfl⟩
      calls := fun x => (hcalls x).callOk (h.calls x)
      numbers := h.numbers.mono rfl rfl rfl fun _ => id
      owners := h.owners.othersDo hown
      returned := h.returned }

/-- The requests of the other calls do not change when a call begins. -/
lemma begin_of_ne (M : DiskSystem) (operation : GbdOperation) (sem : Sem) (sync : Bool)
    (hx : x ≠ r) :
    (M.begin r operation sem sync).requests x = M.requests x ∧
      (M.begin r operation sem sync).pc x = M.pc x ∧
      (M.begin r operation sem sync).call x = M.call x :=
  ⟨setRequest_of_ne hx, Function.update_of_ne hx .., Function.update_of_ne hx ..⟩

/-- A call that begins has queued nothing yet. -/
lemma begin_fresh (h : DiskInv M l) {operation : GbdOperation} (hr : r ≠ 0)
    (hpc : M.pc r = .outside) : (M.begin r operation sem sync).Fresh (M.serving ++ l) r where
  notMem  := h.notMem_of_outside hpc
  ne_zero := hr
  next    := congrArg GbdRequest.next (setRequest_self ..)
  call    := by
    intro hmem
    obtain ⟨job, hjob, hcall⟩ := List.mem_map.mp hmem
    have hself : (M.begin r operation sem sync).call r = M.calls := Function.update_self ..
    exact absurd (hcall.trans hself) (h.numbers.queued job hjob).ne

lemma begin_sem (M : DiskSystem) (operation : GbdOperation) (sem : Sem) (sync : Bool) :
    ((M.begin r operation sem sync).requests r).sem = some sem :=
  congrArg GbdRequest.sem (setRequest_self ..)

/-- A synchronous call begins, with a new semaphore. -/
lemma submitSync (h : DiskInv M l) {operation : GbdOperation} {creator : ℤ} (hr : r ≠ 0)
    (hpc : M.pc r = .outside) (hfree : (M.semaphoreTable sem).creator = -1)
    (hcreator : creator ≠ -1) :
    DiskInv ((M.begin r operation sem true).setRow sem { value := 0, creator }) l := by
  set M' : DiskSystem := (M.begin r operation sem true).setRow sem { value := 0, creator }
  have hmem := h.notMem_of_outside hpc
  have hnew := mt (h.owners.reserved sem).mpr (not_not.mpr hfree)
  have hpcr : M'.pc r = .submitting true := Function.update_self ..
  have hrow : M'.semaphoreTable sem = { value := 0, creator } := Function.update_self ..
  have hcalls : ∀ x, x ≠ r → Leaves M M' (M.serving ++ l) (M.serving ++ l) x := by
    intro x hx
    obtain ⟨hrequests, hpcx, hcall⟩ := begin_of_ne M operation sem true hx
    refine .of_requests hpcx Iff.rfl hcall (fun _ => hrequests) rfl rfl rfl fun hsync s hs _ => ?_
    have hne : s ≠ sem := by
      rintro rfl
      exact hnew (.inr ⟨x, hsync, hs⟩)
    exact Function.update_of_ne hne ..
  exact
    { queue := h.queue.frame fun x hx => by
        obtain ⟨hrequests, -, hcall⟩ :=
          begin_of_ne M operation sem true fun heq : x = r => hmem (heq ▸ hx)
        exact ⟨hrequests, hcall⟩
      calls := fun x => by
        by_cases hx : x = r
        · subst hx
          rw [hpcr]
          obtain ⟨hnotMem, hzero, hnext, hcall⟩ := @begin_fresh M l x sem true h operation hr hpc
          refine ⟨⟨hnotMem, hzero, hnext, hcall⟩, sem, begin_sem M operation sem true,
            fun hin => hnew (.inl hin), ?_⟩
          exact congrArg (·.value) hrow
        · exact (hcalls x hx).callOk (h.calls x)
      numbers := h.numbers.begin rfl rfl rfl rfl
      owners := by
        refine @OwnerInv.submit M M' r sem h.owners ⟨0, creator⟩ ?_ hfree hcreator rfl rfl ?_
          (fun x hx => ?_) (begin_sem M operation sem true) fun x hx => ?_
        · rw [hpc]
          exact id
        · rw [hpcr]
          rfl
        · rw [(hcalls x hx).pc]
        · exact congrArg _ (begin_of_ne M operation sem true hx).1
      returned := h.returned }

/-- A call that is not synchronous begins. -/
lemma submitAsync (h : DiskInv M l) {operation : GbdOperation} (hr : r ≠ 0)
    (hpc : M.pc r = .outside) (hothers : sem ∈ M.others) :
    DiskInv (M.begin r operation sem false) l := by
  have hmem := h.notMem_of_outside hpc
  have hpcr : (M.begin r operation sem false).pc r = .submitting false := Function.update_self ..
  have hcalls : ∀ x, x ≠ r →
      Leaves M (M.begin r operation sem false) (M.serving ++ l) (M.serving ++ l) x := by
    intro x hx
    obtain ⟨hrequests, hpcx, hcall⟩ := begin_of_ne M operation sem false hx
    exact .of_requests hpcx Iff.rfl hcall (fun _ => hrequests) rfl rfl rfl fun _ _ _ _ => rfl
  have hsync : ∀ x, ((M.begin r operation sem false).pc x).Sync ↔ (M.pc x).Sync := by
    intro x
    by_cases hx : x = r
    · rw [hx, hpcr, hpc]
      exact iff_of_false Bool.false_ne_true id
    · rw [(hcalls x hx).pc]
  exact
    { queue := h.queue.frame fun x hx => by
        obtain ⟨hrequests, -, hcall⟩ :=
          begin_of_ne M operation sem false fun heq : x = r => hmem (heq ▸ hx)
        exact ⟨hrequests, hcall⟩
      calls := fun x => by
        by_cases hx : x = r
        · rw [hx, hpcr]
          exact ⟨h.begin_fresh hr hpc, sem, begin_sem M operation sem false, hothers⟩
        · exact (hcalls x hx).callOk (h.calls x)
      numbers := h.numbers.begin rfl rfl rfl rfl
      owners := h.owners.frame (fun _ => rfl) rfl hsync fun x hx => by
        have hxr : x ≠ r := by
          rintro rfl
          exact hx.ne_outside hpc
        rw [(begin_of_ne M operation sem false hxr).1]
      returned := h.returned }

/-- What a call knows when it has queued its request. -/
lemma callOk_submitted {pending : List UInt32} (hmem : r ∈ pending)
    (hsem : (M'.requests r).sem = (M.requests r).sem)
    (htable : M'.semaphoreTable = M.semaphoreTable) (hothers : M'.others = M.others)
    (hok : M.CallOk l r (.submitting sync)) : M'.CallOk pending r (.submitted sync) := by
  cases sync with
  | true =>
    obtain ⟨-, s, hs, hnotMem, hvalue⟩ := hok
    exact .inl ⟨hmem, s, hsem.trans hs, hothers ▸ hnotMem, htable ▸ hvalue⟩
  | false =>
    obtain ⟨-, s, hs, hin⟩ := hok
    exact ⟨hmem, s, hsem.trans hs, hothers ▸ hin⟩

lemma fresh_of_submitting {pending : List UInt32} (hok : M.CallOk pending r (.submitting sync)) :
    M.Fresh pending r := by
  cases sync with
  | true => exact hok.1
  | false => exact hok.1

/-- A call queues its request. -/
lemma enqueue (h : DiskInv M l) {fuel : ℕ} (hpc : M.pc r = .submitting sync)
    (hslock : M.slock = false)
    (hexec : diskQueueRequest fuel M.toDiskRealDevice r = some (d, given)) :
    ∃ l', DiskInv { (M.setDevice d given).setPc r (.submitted sync) with
      queued := M.queued ++ [M.job r] } l' := by
  have hok := h.calls r
  rw [hpc] at hok
  have hfresh := fresh_of_submitting hok
  obtain ⟨hsame, l', hpending, hqueue⟩ := @QueueInv.enqueue M l r d given h.queue fuel
    (Function.update (M.setDevice d given).pc r (.submitted sync)) hslock hexec hfresh.ne_zero
    hfresh.notMem hfresh.next
  refine ⟨l', ?_⟩
  set M' : DiskSystem := { (M.setDevice d given).setPc r (.submitted sync) with
      queued := M.queued ++ [M.job r] }
  replace hpending : M'.serving ++ l' = M.serving ++ l ++ [r] := hpending
  have hM' : M'.toDiskRealDevice = d ∧ M'.pc = Function.update M.pc r (.submitted sync) ∧
      M'.call = M.call ∧ M'.calls = M.calls ∧ M'.raised = M.raised ∧
      M'.semaphoreTable = M.semaphoreTable ∧ M'.others = M.others ∧ M'.returned = M.returned := by
    cases given <;> exact ⟨rfl, rfl, rfl, rfl, rfl, rfl, rfl, rfl⟩
  obtain ⟨hdevice, hpc', hcall, hcalls, hraised, htable, hothers, hreturned⟩ := hM'
  have hin : M.pc r ≠ .outside := by
    rw [hpc]
    exact nofun
  have hpcr : M'.pc r = .submitted sync := by rw [hpc', Function.update_self]
  have hpcx : ∀ x, x ≠ r → M'.pc x = M.pc x := fun x hx => by rw [hpc', Function.update_of_ne hx]
  have hsem : ∀ x, (M'.requests x).sem = (M.requests x).sem := fun x => by
    rw [hdevice]
    exact hsame.sem x
  have hleaves : ∀ x, x ≠ r → Leaves M M' (M.serving ++ l) (M'.serving ++ l') x := fun x hx =>
    { pc := hpcx x hx
      mem := by
        rw [hpending, List.mem_append, List.mem_singleton, or_iff_left hx]
      call := by rw [hcall]
      sem := fun _ => hsem x
      returnValue := fun _ => by
        rw [hdevice]
        exact hsame.returnValue x
      next := fun _ hnotMem => by
        rw [hdevice]
        refine hsame.next x fun hmem => ?_
        rcases List.mem_append.mp hmem with hmem | hmem
        · exact hnotMem (List.mem_append_right _ hmem)
        · exact hx (List.mem_singleton.mp hmem)
      queued := fun hxin hnotMem => by
        show M.call x ∉ (M.queued ++ [M.job r]).map Job.call
        rw [List.map_append, List.mem_append, not_or]
        refine ⟨hnotMem, fun hmem => hx ?_⟩
        exact h.numbers.injective x r hxin hin (List.mem_singleton.mp hmem)
      raised := by
        rw [hraised]
        exact List.Subset.refl _
      own := fun _ s _ hnotMem => by
        rw [hothers, htable]
        exact ⟨hnotMem, rfl⟩
      others := fun _ s _ hmem => by
        rw [hothers]
        exact hmem }
  exact
    { queue := hqueue
      calls := fun x => by
        by_cases hx : x = r
        · subst hx
          rw [hpcr]
          refine callOk_submitted ?_ (hsem x) htable hothers hok
          rw [hpending]
          exact List.mem_append_right _ List.mem_cons_self
        · exact (hleaves x hx).callOk (h.calls x)
      numbers := by
        refine h.numbers.enqueue rfl hcall hcalls (fun x hx => ?_) hin hfresh.call
        by_cases hxr : x = r
        · rw [hxr]
          exact hin
        · rwa [hpcx x hxr] at hx
      owners := by
        refine h.owners.frame (fun s => by rw [htable]) hothers (fun x => ?_) fun x _ => hsem x
        by_cases hx : x = r
        · rw [hx, hpcr, hpc]
          rfl
        · rw [hpcx x hx]
      returned := by
        rw [hreturned, hraised]
        exact h.returned }

/-- The device completes the command. -/
lemma complete (h : DiskInv M l) (hbusy : M.busy = true) {job : Job}
    (hlast : M.issued.getLast? = some job) :
    DiskInv { M with busy := false, irq := true, completed := M.completed ++ [job] } l := by
  have hleaves : ∀ x, Leaves M { M with
      busy := false, irq := true, completed := M.completed ++ [job] }
      (M.serving ++ l) (M.serving ++ l) x := fun x =>
    .of_requests rfl Iff.rfl rfl (fun _ => rfl) rfl rfl rfl fun _ _ _ _ => rfl
  exact
    { queue := h.queue.complete hbusy hlast
      calls := fun x => (hleaves x).callOk (h.calls x)
      numbers := h.numbers.mono rfl rfl rfl fun _ => id
      owners := h.owners.frame (fun _ => rfl) rfl (fun _ => Iff.rfl) fun _ _ => rfl
      returned := h.returned }

/-- The interrupt handler goes on to the next request. -/
lemma advance (h : DiskInv M l) (hslock : M.slock = true)
    (hexec : diskInterruptNext M.toDiskRealDevice = some (d, given)) :
    ∃ l', ({ M.setDevice d given with slock := false } : DiskSystem).serving ++ l' = l ∧
      DiskInv { M.setDevice d given with slock := false } l' := by
  obtain ⟨hsame, l', hpending, hqueue⟩ := h.queue.advance hslock hexec
  refine ⟨l', hpending, ?_⟩
  set M' : DiskSystem := { M.setDevice d given with slock := false }
  replace hpending : M'.serving ++ l' = l := hpending
  have hM' : M'.toDiskRealDevice = d ∧ M'.pc = M.pc ∧ M'.call = M.call ∧ M'.calls = M.calls ∧
      M'.queued = M.queued ∧ M'.raised = M.raised ∧ M'.semaphoreTable = M.semaphoreTable ∧
      M'.others = M.others ∧ M'.returned = M.returned := by
    cases given <;> exact ⟨rfl, rfl, rfl, rfl, rfl, rfl, rfl, rfl, rfl⟩
  obtain ⟨hdevice, hpc, hcall, hcalls, hqueued, hraised, htable, hothers, hreturned⟩ := hM'
  have hserving : M.serving ++ l = l := by rw [serving_of_slock hslock, List.nil_append]
  have hleaves : ∀ x, Leaves M M' (M.serving ++ l) (M'.serving ++ l') x := fun x =>
    { pc := by rw [hpc]
      mem := by rw [hserving, hpending]
      call := by rw [hcall]
      sem := fun _ => by
        rw [hdevice]
        exact hsame.sem x
      returnValue := fun _ => by
        rw [hdevice]
        exact hsame.returnValue x
      next := fun _ hmem => by
        rw [hdevice]
        exact hsame.next x (hserving ▸ hmem)
      queued := fun _ => by
        rw [hqueued]
        exact id
      raised := by
        rw [hraised]
        exact List.Subset.refl _
      own := fun _ s _ hmem => by
        rw [hothers, htable]
        exact ⟨hmem, rfl⟩
      others := fun _ s _ hmem => by
        rw [hothers]
        exact hmem }
  exact
    { queue := hqueue
      calls := fun x => (hleaves x).callOk (h.calls x)
      numbers := h.numbers.mono hqueued hcall hcalls fun x hx => by rwa [hpc] at hx
      owners := h.owners.frame (fun s => by rw [htable]) hothers (fun x => by rw [hpc]) fun x hx =>
        (hleaves x).sem hx.ne_outside
      returned := by
        rw [hreturned, hraised]
        exact h.returned }

/-- A call whose request is pending has queued it and may sleep. -/
lemma pending_cases (h : DiskInv M l) (hmem : r ∈ M.serving ++ l) :
    M.pc r = .submitted true ∧ M.OwnSem r 0 ∨ M.pc r = .submitted false ∧ M.OthersSem r ∨
      M.pc r = .asleep ∧ M.OwnSem r (-1) := by
  have hok := h.calls r
  cases hpc : M.pc r with
  | outside =>
    rw [hpc] at hok
    exact absurd hmem hok
  | submitting sync =>
    rw [hpc] at hok
    exact absurd hmem (fresh_of_submitting hok).notMem
  | submitted sync =>
    rw [hpc] at hok
    cases sync with
    | true =>
      rcases hok with hok | hok
      · exact .inl ⟨rfl, hok.2⟩
      · exact absurd hmem hok.1.notMem
    | false => exact .inr (.inl ⟨rfl, hok.2⟩)
  | asleep =>
    rw [hpc] at hok
    exact .inr (.inr ⟨rfl, hok.2⟩)
  | woken =>
    rw [hpc] at hok
    exact absurd hmem hok.1.notMem

/-- Where a call is after `semaphore_V` for its request. -/
inductive Raised (M : DiskSystem) (r : UInt32) : SubmitPc → Prop
  | ready (hpc : M.pc r = .submitted true) (hown : M.OwnSem r 0) : Raised M r (.submitted true)
  | wake (hpc : M.pc r = .asleep) (hown : M.OwnSem r (-1)) : Raised M r .woken
  | async (hpc : M.pc r = .submitted false) (hothers : M.OthersSem r) : Raised M r .outside

/-- `semaphore_V` wakes the call whose request has been handled, and no other one. -/
lemma raise_spec (h : DiskInv M l) {woken : Option UInt32} (hmem : r ∈ M.serving ++ l)
    (hsem : (M.requests r).sem = some sem) (hwakes : M.Wakes sem woken) : ∃ pc, Raised M r pc ∧
      M.raise r sem woken = { M with
        pc := Function.update M.pc r pc
        semaphoreTable := Function.update M.semaphoreTable sem
          { M.semaphoreTable sem with value := (M.semaphoreTable sem).value + 1 } } := by
  rcases h.pending_cases hmem with ⟨hpc, hown⟩ | ⟨hpc, hothers⟩ | ⟨hpc, hown⟩
  · refine ⟨_, .ready hpc hown, ?_⟩
    obtain ⟨s, hs, -, hvalue⟩ := hown
    cases hsem.symm.trans hs
    have hnone : woken = none := by
      cases woken with
      | none => rfl
      | some x =>
        have hle := hwakes.1
        rw [hvalue] at hle
        exact absurd hle (by decide)
    subst hnone
    have hsame : Function.update M.pc r (.submitted true) = M.pc := by
      rw [← hpc]
      exact Function.update_eq_self r M.pc
    rw [hsame]
    simp [DiskSystem.raise, setRow, hpc]
  · refine ⟨_, .async hpc hothers, ?_⟩
    obtain ⟨s, hs, hin⟩ := hothers
    cases hsem.symm.trans hs
    have hnone : woken = none := by
      cases woken with
      | none => rfl
      | some x =>
        -- a call that sleeps has a semaphore of its own
        obtain ⟨-, hasleep, hx⟩ := hwakes
        have hok := h.calls x
        rw [hasleep] at hok
        obtain ⟨-, s', hs', hnotMem, -⟩ := hok
        cases hx.symm.trans hs'
        exact absurd hin hnotMem
    subst hnone
    simp [DiskSystem.raise, setRow, setPc, hpc]
  · refine ⟨_, .wake hpc hown, ?_⟩
    obtain ⟨s, hs, -, hvalue⟩ := hown
    cases hsem.symm.trans hs
    have hsome : woken = some r := by
      cases woken with
      | none =>
        have hle : (M.semaphoreTable sem).value + 1 ≤ 0 := by
          rw [hvalue]
          decide
        exact absurd hsem (hwakes hle r hpc)
      | some x =>
        obtain ⟨-, hasleep, hx⟩ := hwakes
        have hsyncx : (M.pc x).Sync := by
          rw [hasleep]
          trivial
        have hsyncr : (M.pc r).Sync := by
          rw [hpc]
          trivial
        rw [h.owners.unique x r sem hsyncx hsyncr hx hsem]
    subst hsome
    simp [DiskSystem.raise, setRow, setPc, hpc]

lemma Raised.sync_iff {pc : SubmitPc} (h : Raised M r pc) : pc.Sync ↔ (M.pc r).Sync := by
  cases h with
  | ready hpc => rw [hpc]
  | wake hpc =>
    rw [hpc]
    exact Iff.rfl
  | async hpc =>
    rw [hpc]
    exact iff_of_false id Bool.false_ne_true

/-- The semaphore that is raised is not that of another synchronous call. -/
lemma Raised.sem_ne {pc : SubmitPc} (hraised : Raised M r pc) (h : DiskInv M l)
    (hsem : (M.requests r).sem = some sem) (hin : sem ∉ M.others) (hx : x ≠ r)
    (hsync : (M.pc x).Sync) : (M.requests x).sem ≠ some sem := by
  intro hxsem
  have hsyncr : (M.pc r).Sync := by
    cases hraised with
    | ready hpc =>
      rw [hpc]
      rfl
    | wake hpc =>
      rw [hpc]
      trivial
    | async _ hothers =>
      obtain ⟨s, hs, hmem⟩ := hothers
      cases hsem.symm.trans hs
      exact absurd hmem hin
  exact hx (h.owners.unique x r sem hsync hsyncr hxsem hsem)

/-- The interrupt handler is done with the request that was served. -/
lemma interrupt (h : DiskInv M l) {woken : Option UInt32} (hslock : M.slock = false)
    (hexec : diskInterruptHandle M.toDiskRealDevice = some (d, some sem))
    (hwakes : M.Wakes sem woken) :
    DiskInv { M.raise M.requestServed sem woken with
      toDiskRealDevice := d, slock := true, raised := M.raised ++ [M.job M.requestServed] } l := by
  obtain ⟨row, hrow⟩ : ∃ row : Semaphore, row =
    { M.semaphoreTable sem with value := (M.semaphoreTable sem).value + 1 } := ⟨_, rfl⟩
  obtain ⟨hone, hsem, hd, -⟩ :=
    @QueueInv.handle M l d h.queue M.pc M.semaphoreTable sem hslock hexec
  have hmem : M.requestServed ∈ M.serving ++ l := by
    rw [hone]
    exact List.mem_cons_self
  obtain ⟨pc, hraised, hraise⟩ := h.raise_spec hmem hsem hwakes
  have hnotMem : M.requestServed ∉ l := by
    have hnodup := h.queue.nodup
    rw [hone] at hnodup
    exact (List.nodup_cons.mp hnodup).1
  rw [hraise, ← hrow]
  set M' : DiskSystem := { M with
    toDiskRealDevice := d, slock := true, pc := Function.update M.pc M.requestServed pc
    semaphoreTable := Function.update M.semaphoreTable sem row
    raised := M.raised ++ [M.job M.requestServed] }
  have hserving : M'.serving ++ l = l := by rw [serving_of_slock rfl, List.nil_append]
  have hself : M'.requests M.requestServed =
      { M.requests M.requestServed with returnValue := 0 } := by
    show d.requests _ = _
    rw [hd]
    exact Function.update_self ..
  have hother : ∀ x, x ≠ M.requestServed → M'.requests x = M.requests x := fun x hx => by
    show d.requests _ = _
    rw [hd]
    exact Function.update_of_ne hx ..
  have hsems : ∀ x, (M'.requests x).sem = (M.requests x).sem := by
    intro x
    by_cases hx : x = M.requestServed
    · rw [hx, hself]
    · rw [hother x hx]
  have hpcx : ∀ x, x ≠ M.requestServed → M'.pc x = M.pc x := fun x hx => Function.update_of_ne hx ..
  have hpcr : M'.pc M.requestServed = pc := Function.update_self ..
  have hleaves : ∀ x, x ≠ M.requestServed →
      Leaves M M' (M.serving ++ l) (M'.serving ++ l) x := fun x hx =>
    { pc := hpcx x hx
      mem := by
        rw [hserving, hone, List.singleton_append, List.mem_cons, or_iff_right hx]
      call := rfl
      sem := fun _ => hsems x
      returnValue := fun _ => by rw [hother x hx]
      next := fun _ _ => by rw [hother x hx]
      queued := fun _ => id
      raised := List.subset_append_left ..
      own := fun hsync s hs hin => by
        have hne : s ≠ sem := by
          rintro rfl
          exact hraised.sem_ne h hsem hin hx hsync hs
        exact ⟨hin, congrArg _ (Function.update_of_ne hne ..)⟩
      others := fun _ _ _ => id }
  have hdone : M'.Done (M'.serving ++ l) M.requestServed :=
    { notMem := hserving.symm ▸ hnotMem
      returnValue := by rw [hself]
      raised := List.mem_map_of_mem (List.mem_append_right _ List.mem_cons_self) }
  have hown : ∀ value, M.OwnSem M.requestServed value → M'.OwnSem M.requestServed (value + 1) := by
    rintro value ⟨s, hs, hin, rfl⟩
    cases hsem.symm.trans hs
    refine ⟨sem, (hsems _).trans hsem, hin, ?_⟩
    show (Function.update M.semaphoreTable sem row sem).value = _
    rw [Function.update_self, hrow]
  exact
    { queue := (h.queue.handle hslock hexec).2.2.2
      calls := fun x => by
        by_cases hx : x = M.requestServed
        · rw [hx, hpcr]
          cases hraised with
          | ready _ hready => exact .inr ⟨hdone, hown 0 hready⟩
          | wake _ hasleep => exact ⟨hdone, hown (-1) hasleep⟩
          | async _ _ => exact hdone.notMem
        · exact (hleaves x hx).callOk (h.calls x)
      numbers := h.numbers.mono rfl rfl rfl fun x hx => by
        by_cases hxr : x = M.requestServed
        · rw [hxr]
          rcases h.pending_cases hmem with ⟨hpc, -⟩ | ⟨hpc, -⟩ | ⟨hpc, -⟩
          all_goals
            rw [hpc]
            exact nofun
        · rwa [hpcx x hxr] at hx
      owners := by
        refine h.owners.frame (fun s => ?_) rfl (fun x => ?_) fun x _ => hsems x
        · exact setRow_creator (by rw [hrow]) s
        · by_cases hx : x = M.requestServed
          · rw [hx, hpcr]
            exact hraised.sync_iff
          · rw [hpcx x hx]
      returned := fun entry hentry => by
        obtain ⟨hone, hin⟩ := h.returned entry hentry
        exact ⟨hone, List.map_subset _ (List.subset_append_left ..) hin⟩ }

/-- A call changes the value of its own semaphore in `semaphore_P`. -/
lemma lower (h : DiskInv M l) (hpc : M.pc r = .submitted true)
    (hsem : (M.requests r).sem = some sem) :
    DiskInv (let row := M.semaphoreTable sem
      (M.setRow sem { row with value := row.value - 1 }).setPc r
        (if row.value - 1 < 0 then .asleep else .woken)) l := by
  obtain ⟨row, hrow⟩ : ∃ row : Semaphore, row =
    { M.semaphoreTable sem with value := (M.semaphoreTable sem).value - 1 } := ⟨_, rfl⟩
  obtain ⟨pc, hpc'⟩ : ∃ pc : SubmitPc, pc =
    if (M.semaphoreTable sem).value - 1 < 0 then .asleep else .woken := ⟨_, rfl⟩
  have hsync : (M.pc r).Sync := by
    rw [hpc]
    rfl
  have hsync' : pc.Sync := by
    rw [hpc']
    split_ifs <;> trivial
  show DiskInv ((M.setRow sem _).setPc r _) l
  rw [← hrow, ← hpc']
  set M' : DiskSystem := (M.setRow sem row).setPc r pc
  have hpcr : M'.pc r = pc := Function.update_self ..
  have hpcx : ∀ x, x ≠ r → M'.pc x = M.pc x := fun x hx => Function.update_of_ne hx ..
  have hleaves : ∀ x, x ≠ r → Leaves M M' (M.serving ++ l) (M.serving ++ l) x := fun x hx => by
    refine .of_requests (hpcx x hx) Iff.rfl rfl (fun _ => rfl) rfl rfl rfl fun hxsync s hs _ => ?_
    have hne : s ≠ sem := by
      rintro rfl
      exact hx (h.owners.unique x r s hxsync hsync hs hsem)
    exact Function.update_of_ne hne ..
  have hown : ∀ value, M.OwnSem r value → M'.OwnSem r (value - 1) := by
    rintro value ⟨s, hs, hin, rfl⟩
    cases hsem.symm.trans hs
    refine ⟨sem, hsem, hin, ?_⟩
    show (Function.update M.semaphoreTable sem row sem).value = _
    rw [Function.update_self, hrow]
  have hvalue : ∀ value, M.OwnSem r value → (M.semaphoreTable sem).value = value := by
    rintro value ⟨s, hs, -, hvalue⟩
    cases hsem.symm.trans hs
    exact hvalue
  exact
    { queue := h.queue.frame fun _ _ => ⟨rfl, rfl⟩
      calls := fun x => by
        by_cases hx : x = r
        · subst hx
          have hok := h.calls x
          rw [hpc] at hok
          rw [hpcr, hpc']
          rcases hok with ⟨hmem, hzero⟩ | ⟨⟨hmem, hreturn, hraised⟩, hone⟩
          · rw [hvalue 0 hzero, if_pos (by decide)]
            exact ⟨hmem, hown 0 hzero⟩
          · rw [hvalue 1 hone, if_neg (by decide)]
            exact ⟨⟨hmem, hreturn, hraised⟩, hown 1 hone⟩
        · exact (hleaves x hx).callOk (h.calls x)
      numbers := h.numbers.mono rfl rfl rfl fun x hx => by
        by_cases hxr : x = r
        · rw [hxr]
          exact hsync.ne_outside
        · rwa [hpcx x hxr] at hx
      owners := by
        refine h.owners.frame (fun s => ?_) rfl (fun x => ?_) fun _ _ => rfl
        · exact setRow_creator (by rw [hrow]) s
        · by_cases hx : x = r
          · rw [hx, hpcr]
            exact iff_of_true hsync' hsync
          · rw [hpcx x hx]
      returned := h.returned }

/-- A synchronous call returns. -/
lemma leave (h : DiskInv M l) (hpc : M.pc r = .woken) (hsem : (M.requests r).sem = some sem) :
    DiskInv { (M.setRow sem { M.semaphoreTable sem with creator := -1 }).setPc r .outside with
      toDiskRealDevice := M.setRequest r { M.requests r with sem := none }
      returned := M.returned ++
        [(M.call r, if (M.requests r).returnValue = 0 then 1 else 0)] } l := by
  obtain ⟨row, hrow⟩ : ∃ row : Semaphore, row = { M.semaphoreTable sem with creator := -1 } :=
    ⟨_, rfl⟩
  have hok := h.calls r
  rw [hpc] at hok
  obtain ⟨⟨hmem, hreturn, hraised⟩, s, hs, hin, -⟩ := hok
  cases hsem.symm.trans hs
  have hsync : (M.pc r).Sync := by
    rw [hpc]
    trivial
  rw [← hrow, if_pos hreturn]
  set M' : DiskSystem := { (M.setRow sem row).setPc r .outside with
    toDiskRealDevice := M.setRequest r { M.requests r with sem := none }
    returned := M.returned ++ [(M.call r, 1)] }
  have hpcr : M'.pc r = .outside := Function.update_self ..
  have hpcx : ∀ x, x ≠ r → M'.pc x = M.pc x := fun x hx => Function.update_of_ne hx ..
  have hother : ∀ x, x ≠ r → M'.requests x = M.requests x := fun x hx => setRequest_of_ne hx
  have hleaves : ∀ x, x ≠ r → Leaves M M' (M.serving ++ l) (M.serving ++ l) x := fun x hx => by
    refine .of_requests (hpcx x hx) Iff.rfl rfl (fun _ => hother x hx) rfl rfl rfl
      fun hxsync s' hs' _ => ?_
    have hne : s' ≠ sem := by
      rintro rfl
      exact hx (h.owners.unique x r s' hxsync hsync hs' hsem)
    exact Function.update_of_ne hne ..
  exact
    { queue := h.queue.frame fun x hx => ⟨hother x fun heq => hmem (heq ▸ hx), rfl⟩
      calls := fun x => by
        by_cases hx : x = r
        · rw [hx, hpcr]
          exact hmem
        · exact (hleaves x hx).callOk (h.calls x)
      numbers := h.numbers.mono rfl rfl rfl fun x hx => by
        by_cases hxr : x = r
        · rw [hxr]
          exact hsync.ne_outside
        · rwa [hpcx x hxr] at hx
      owners := by
        refine @OwnerInv.leave M M' r sem h.owners row hsync hsem hin (by rw [hrow]) rfl rfl ?_
          (fun x hx => ?_) fun x hx => ?_
        · rw [hpcr]
          exact id
        · rw [hpcx x hx]
        · rw [hother x hx]
      returned := fun entry hentry => by
        rcases List.mem_append.mp hentry with hentry | hentry
        · exact h.returned entry hentry
        · rw [List.mem_singleton.mp hentry]
          exact ⟨rfl, hraised⟩ }

end DiskInv

/-- Every step keeps the invariant. -/
lemma DiskInv.step (h : DiskInv M l) (hstep : DiskStep M M') : ∃ l', DiskInv M' l' := by
  cases hstep with
  | client hpc => exact ⟨l, h.client hpc⟩
  | others hown hused => exact ⟨l, h.othersDo hown hused⟩
  | submitSync hr hpc _ hfree hcreator => exact ⟨l, h.submitSync hr hpc hfree hcreator⟩
  | submitAsync hr hpc _ hothers => exact ⟨l, h.submitAsync hr hpc hothers⟩
  | queue hpc hslock hexec => exact h.enqueue hpc hslock hexec
  | complete hbusy hlast => exact ⟨l, h.complete hbusy hlast⟩
  | shared _ hexec =>
    rcases diskInterruptHandle_eq_some hexec with ⟨-, rfl, -⟩ | ⟨-, -, hsem, hsome, -⟩
    · exact ⟨l, h⟩
    · cases hsome
  | interrupt hslock hexec hwakes => exact ⟨l, h.interrupt hslock hexec hwakes⟩
  | next hslock hexec =>
    obtain ⟨l', -, hinv⟩ := h.advance hslock hexec
    exact ⟨l', hinv⟩
  | lower hpc hsem => exact ⟨l, h.lower hpc hsem⟩
  | «return» hpc hsem => exact ⟨l, h.leave hpc hsem⟩

lemma diskInv_start (h : M.Start) : DiskInv M [] := by
  have hserving : M.serving = [] := serving_of_zero h.requestServed
  exact
    { queue :=
        { queue := h.requestQueue
          nodup := by
            rw [hserving]
            exact List.nodup_nil
          idle := fun _ _ => rfl
          busy := by
            rw [hserving]
            exact iff_of_false (ne_true_of_eq_false h.busy) fun hfalse => hfalse.1 rfl
          irq := fun htrue => absurd (h.irq.symm.trans htrue) Bool.false_ne_true
          queued := by simp [h.queued, h.raised, hserving]
          issued := by simp [h.issued, h.raised, hserving]
          completed := by simp [h.completed, h.raised, hserving] }
      calls := fun r => by
        rw [h.pc, hserving]
        exact List.not_mem_nil
      numbers :=
        { lt := fun r hr => absurd (h.pc r) hr
          injective := fun r _ hr => absurd (h.pc r) hr
          queued := by simp [h.queued]
          once := by simp [h.queued] }
      owners :=
        { reserved := fun sem => by
            have hown : ¬ M.Owned sem := by
              rintro ⟨r, hr, -⟩
              exact hr.ne_outside (h.pc r)
            rw [h.others, or_iff_left hown]
          unique := fun r _ _ hr => absurd (h.pc r) hr.ne_outside }
      returned := by simp [h.returned] }

lemma diskInv_run (h : M.Start) (hrun : DiskRun M M') : ∃ l, DiskInv M' l := by
  induction hrun with
  | refl => exact ⟨[], diskInv_start h⟩
  | tail _ hstep ih =>
    obtain ⟨l, hinv⟩ := ih
    exact hinv.step hstep

end Osm.Drivers
