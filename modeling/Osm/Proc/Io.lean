import Osm.Proc.Files
import Osm.Vm.Memlimit

/-!
# System calls for files and memory

A model of `proc/io.c`, of `process_memlimit` and of the cases of `syscall_handle` that call them.
A system call is given as it runs without another thread in between.

The functions of the filesystem drivers and of the console return arbitrary values. In `fs/tfs.c`
only `tfs_init` has an assertion; the block numbers that `tfs_remove` passes to `bitmap_set` are
not negative on a sound volume. Pointers from userland are to mapped memory; of a string only its
contents are used. A result `none` stands for a failed assertion or a panic.
-/

namespace Osm.Proc

open Osm.Fs Osm.Vm

/-- `VFS_NOT_OPEN_IN_PROCESS`. -/
def vfsNotOpenInProcess : ℤ := -10

/-- What is written to the console: the text that switches to red, the one that switches back, or
what is in userland memory. -/
inductive TtyText where
  | red
  | reset
  | user (buffer : UInt32)

/-- A call of a function of the console. -/
inductive TtyCall where
  | read (buffer : UInt32) (length : ℤ)
  | write (text : TtyText) (length : ℤ)

/-- The answers of the filesystem drivers, and those of the console if there is one. -/
structure Devices (φ : Type) where
  fs  : FsCall φ → ℤ
  tty : Option (TtyCall → ℤ)

/-- The state that the system calls use: the page table is the one of the thread of a process. -/
structure SysState (φ : Type) where
  vfs       : VfsState φ
  table     : Pid → Pcb
  pagetable : Pid → Pagetable
  pool      : Pagepool

/-- The returned value and the state after it; `none` for a failed assertion. -/
abbrev SysResult (φ : Type) := Option (ℤ × SysState φ)

/-! ### The console -/

/-- `tty_read`. -/
def ttyRead (tty : Option (TtyCall → ℤ)) (buffer : UInt32) (length : ℤ) : ℤ :=
  match tty with
  | none     => vfsError
  | some gcd => gcd (.read buffer length)

/-- `tty_write_stdout`. -/
def ttyWriteStdout (tty : Option (TtyCall → ℤ)) (buffer : UInt32) (length : ℤ) : ℤ :=
  match tty with
  | none     => vfsError
  | some gcd => gcd (.write (.user buffer) length)

/-- `tty_write_stderr`, with `tty_set_red` and `tty_reset_red`. -/
def ttyWriteStderr (tty : Option (TtyCall → ℤ)) (buffer : UInt32) (length : ℤ) : ℤ :=
  match tty with
  | none     => vfsError
  | some gcd =>
    if gcd (.write .red 7) ≠ 7 then vfsError
    else
      let res := gcd (.write (.user buffer) length)
      if gcd (.write .reset 4) ≠ 4 then vfsError else res

/-! ### Files -/

variable {φ : Type}

/-- The open file of a file handle, in the arithmetic of `int`. -/
def fileOf (filehandle : ℤ) : ℤ := addInt filehandle (-3)

/-- Call a function of the virtual filesystem. -/
def onVfs (s : SysState φ) (call : VfsState φ → VfsResult φ) : SysResult φ :=
  (call s.vfs).map fun (ret, vfs) => (ret, { s with vfs })

/-- The beginning of a call for a file that the process must have opened. -/
def onProcessFile (p : Pid) (filehandle : ℤ) (s : SysState φ)
    (call : ℤ → SysState φ → SysResult φ) : SysResult φ :=
  if processHasOpenFile (s.table p).files (fileOf filehandle) then call (fileOf filehandle) s
  else some (vfsNotOpenInProcess, s)

/-- Assign to the files of a process. -/
def SysState.setFiles (s : SysState φ) (p : Pid) (files : Files) : SysState φ :=
  { s with table := Function.update s.table p { s.table p with files } }

/-- `io_read`. -/
def ioRead (d : Devices φ) (p : Pid) (file : ℤ) (buffer : UInt32) (length : ℤ) (s : SysState φ) :
    SysResult φ :=
  if file = 0 then some (ttyRead d.tty buffer length, s)
  else if file = 1 ∨ file = 2 then some (vfsInvalidParams, s)
  else onProcessFile p file s fun file s => onVfs s (vfsRead d.fs file buffer.toNat length)

/-- `io_write`. -/
def ioWrite (d : Devices φ) (p : Pid) (file : ℤ) (buffer : UInt32) (length : ℤ)
    (s : SysState φ) : SysResult φ :=
  if file = 0 then some (vfsInvalidParams, s)
  else if file = 1 then some (ttyWriteStdout d.tty buffer length, s)
  else if file = 2 then some (ttyWriteStderr d.tty buffer length, s)
  else onProcessFile p file s fun file s => onVfs s (vfsWrite d.fs file buffer.toNat length)

/-- `io_open`. -/
def ioOpen (d : Devices φ) (p : Pid) (pathname : List UInt8) (s : SysState φ) : SysResult φ :=
  (onVfs s (vfsOpen d.fs pathname)).map fun (file, s) =>
    if file < 0 then (file, s)
    else (addInt file 3, s.setFiles p (processAddFile (s.table p).files file))

/-- `io_close`. -/
def ioClose (d : Devices φ) (p : Pid) (file : ℤ) (s : SysState φ) : SysResult φ :=
  onProcessFile p file s fun file s =>
    onVfs (s.setFiles p (processRemoveFile (s.table p).files file)) (vfsClose d.fs file)

/-- `io_seek`. -/
def ioSeek (p : Pid) (file offset : ℤ) (s : SysState φ) : SysResult φ :=
  onProcessFile p file s fun file s => onVfs s (vfsSeek file offset)

/-- `io_tell`. -/
def ioTell (p : Pid) (file : ℤ) (s : SysState φ) : SysResult φ :=
  onProcessFile p file s fun file s => onVfs s (vfsTell file)

/-- `io_create`. -/
def ioCreate (d : Devices φ) (pathname : List UInt8) (size : ℤ) (s : SysState φ) : SysResult φ :=
  onVfs s (vfsCreate d.fs pathname size)

/-- `io_remove`. -/
def ioRemove (d : Devices φ) (pathname : List UInt8) (s : SysState φ) : SysResult φ :=
  onVfs s (vfsRemove d.fs pathname)

/-! ### Memory -/

/-- `process_memlimit`, for the process and the page table of its thread. -/
def processMemlimit (p : Pid) (heapEnd : UInt32) (s : SysState φ) :
    Option (UInt32 × SysState φ) :=
  (Vm.processMemlimit ⟨(s.table p).heapEnd, s.pagetable p, s.pool⟩ heapEnd).map
    fun (heap, ret) => (ret,
      { s with
        table     := Function.update s.table p { s.table p with heapEnd := heap.heapEnd }
        pagetable := Function.update s.pagetable p heap.pagetable
        pool      := heap.pool })

/-! ### The system calls -/

/-- The system calls with the contents of the registers of their arguments. -/
inductive Syscall where
  | open (pathname : UInt32)
  | close (file : UInt32)
  | create (pathname size : UInt32)
  | remove (pathname : UInt32)
  | seek (file offset : UInt32)
  | tell (file : UInt32)
  | read (file buffer length : UInt32)
  | write (file buffer length : UInt32)
  | memlimit (heapEnd : UInt32)

/-- A register as an `int`. -/
def toInt (a : UInt32) : ℤ := (a.toNat : ℤ).bmod (2 ^ 32)

/-- An `int` in a register. -/
def ofInt (a : ℤ) : UInt32 := UInt32.ofNat (a % 2 ^ 32).toNat

/-- The cases of `syscall_handle` for files and memory, for the strings in userland memory. -/
def syscallHandle (strings : UInt32 → List UInt8) (d : Devices φ) (p : Pid) (s : SysState φ) :
    Syscall → Option (UInt32 × SysState φ)
  | .open pathname             => value (ioOpen d p (strings pathname) s)
  | .close file                => value (ioClose d p (toInt file) s)
  | .create pathname size      => value (ioCreate d (strings pathname) (toInt size) s)
  | .remove pathname           => value (ioRemove d (strings pathname) s)
  | .seek file offset          => value (ioSeek p (toInt file) (toInt offset) s)
  | .tell file                 => value (ioTell p (toInt file) s)
  | .read file buffer length   => value (ioRead d p (toInt file) buffer (toInt length) s)
  | .write file buffer length  => value (ioWrite d p (toInt file) buffer (toInt length) s)
  | .memlimit heapEnd          => processMemlimit p heapEnd s
where
  /-- The value in the register. -/
  value (result : SysResult φ) : Option (UInt32 × SysState φ) :=
    result.map fun (ret, s) => (ofInt ret, s)

end Osm.Proc
