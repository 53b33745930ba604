import Osm.Core.Request
import Osm.Lib.Bitmap
import Osm.Lib.Libc

/-!
# The trivial filesystem

A model of `fs/tfs.c`. A call holds the lock of the volume from its beginning to its end, so that
the calls on a volume follow each other; each of them is a program that makes requests to the
disk. The buffers belong to the call: whatever is used of them was read or written by the same
call, with one exception, which is `blockNumber`. Numbers on the disk have the most significant
byte first.
-/

namespace Osm.Fs

open Osm.Core Osm.Lib

/-- `TFS_BLOCK_SIZE`. -/
def tfsBlockSize : ℕ := 512

/-- `TFS_MAGIC`. -/
def tfsMagic : UInt32 := 3745

/-- `TFS_HEADER_BLOCK`. -/
def tfsHeaderBlock : ℕ := 0

/-- `TFS_ALLOCATION_BLOCK`. -/
def tfsAllocationBlock : ℕ := 1

/-- `TFS_DIRECTORY_BLOCK`. -/
def tfsDirectoryBlock : ℕ := 2

/-- `TFS_VOLUMENAME_MAX`. -/
def tfsVolumenameMax : ℕ := 16

/-- `TFS_FILENAME_MAX`. -/
def tfsFilenameMax : ℕ := 16

/-- `TFS_BLOCKS_MAX`. -/
def tfsBlocksMax : ℕ := tfsBlockSize / 4 - 1

/-- `sizeof(tfs_direntry_t)`. -/
def sizeofDirentry : ℕ := 4 + tfsFilenameMax

/-- `TFS_MAX_FILES`. -/
def tfsMaxFiles : ℕ := tfsBlockSize / sizeofDirentry

/-- `VFS_OK`. -/
def vfsOk : ℤ := 0

/-- `VFS_ERROR`. -/
def vfsError : ℤ := -2

/-- `VFS_NOT_FOUND`. -/
def vfsNotFound : ℤ := -5

/-- The contents of a block; only the first `tfsBlockSize` bytes count. -/
abbrev Block := Memory

/-- The blocks of a disk. -/
abbrev Disk := ℕ → Block

/-- A piece of a call, which makes requests to the disk. -/
abbrev TfsCall (α : Type) := Request ℕ Block α

/-- `read_block`; the result `none` stands for 0. -/
def readBlock (block : ℕ) : TfsCall (Option Block) := Request.readCell block

/-- `write_block`. -/
def writeBlock (block : ℕ) (buf : Block) : TfsCall Bool := Request.writeCell block buf

/-- `tfs->totalblocks`, as `tfs_init` computes it from the number of blocks of the disk. -/
def tfsTotalblocks (diskBlocks : ℕ) : ℕ := min diskBlocks (8 * tfsBlockSize)

/-! ### Inodes and directory entries -/

/-- `inode->filesize`. -/
def filesize (inode : Block) : UInt32 := inode.readWord 0

/-- `inode->block[i]`. -/
def inodeBlock (inode : Block) (i : ℕ) : UInt32 := inode.readWord (4 + 4 * i)

/-- `inode->block[i] = block`. -/
def setInodeBlock (inode : Block) (i : ℕ) (block : UInt32) : Block :=
  inode.writeWord (4 + 4 * i) block

/-- `md[i].inode`. -/
def entryInode (md : Block) (i : ℕ) : UInt32 := md.readWord (sizeofDirentry * i)

/-- The address of `md[i].name`. -/
def entryNameAddr (i : ℕ) : ℕ := sizeofDirentry * i + 4

/-- The string in `md[i].name`. -/
def entryName (md : Block) (i : ℕ) : List UInt8 := stringAt md (entryNameAddr i) tfsFilenameMax

/-- `md[i].inode = inode`. -/
def setEntryInode (md : Block) (i : ℕ) (inode : UInt32) : Block :=
  md.writeWord (sizeofDirentry * i) inode

/-- The first entry with the given name. -/
def findEntry (md : Block) (filename : List UInt8) : Option ℕ :=
  (List.range tfsMaxFiles).find? fun i => stringcmp md (entryNameAddr i) filename = 0

/-! ### Opening, creating and removing files -/

/-- `tfs_open`. -/
def tfsOpen (filename : List UInt8) : TfsCall ℤ := do
  let some md ← readBlock tfsDirectoryBlock | return vfsError
  let some i := findEntry md filename | return vfsNotFound
  return (entryInode md i).toBitVec.toInt

/-- The number of blocks of a file of `size` bytes, in the arithmetic of `int` and converted to
`uint32_t`. -/
def numBlocks (size : ℤ) : ℕ := (((size + 512 - 1).bmod (2 ^ 32)).tdiv 512 % 2 ^ 32).toNat

/-- The loop of `tfs_create` over the first entries of the directory: `none` if one of them has
the name, and otherwise the last one that is free. -/
def findFreeEntry (md : Block) (filename : List UInt8) : ℕ → Option (Option ℕ)
  | 0     => some none
  | i + 1 => do
    let index ← findFreeEntry md filename i
    if stringcmp md (entryNameAddr i) filename = 0 then none
    else if entryInode md i = 0 then some (some i)
    else some index

/-- The loop of `tfs_create` that allocates the first blocks of a file, in the allocation block
and the inode; `none` if the disk is full. -/
def allocBlocks (totalblocks : ℕ) (bat inode : Block) : ℕ → Option (Block × Block)
  | 0     => some (bat, inode)
  | i + 1 => do
    let (bat, inode) ← allocBlocks totalblocks bat inode i
    let (bat, block) ← bitmapFindnset bat totalblocks
    return (bat, setInodeBlock inode i (UInt32.ofNat block))

/-- Mark the blocks from `i` on in an inode as unused. -/
def clearBlocks (inode : Block) (i : ℕ) : Block :=
  (List.range' i (tfsBlocksMax - i)).foldl (fun inode i => setInodeBlock inode i 0) inode

/-- The loop of `tfs_create` that writes zeros to the first blocks of a file. -/
def zeroBlocks (inode : Block) : ℕ → TfsCall Bool
  | 0     => return true
  | i + 1 => do
    if !(← zeroBlocks inode i) then return false
    writeBlock (inodeBlock inode i).toNat fun _ => 0

/-- The end of `tfs_create`, where everything is written to the disk. -/
def createWrite (bat md inode : Block) (index numblocks : ℕ) : TfsCall ℤ := do
  if !(← writeBlock tfsAllocationBlock bat) then return vfsError
  if !(← writeBlock tfsDirectoryBlock md) then return vfsError
  if !(← writeBlock (entryInode md index).toNat inode) then return vfsError
  if !(← zeroBlocks inode numblocks) then return vfsError
  return vfsOk

/-- `tfs_create`. Every word of the buffer for the inode is assigned, so that it does not matter
what it holds before. -/
def tfsCreate (totalblocks : ℕ) (filename : List UInt8) (size : ℤ) : TfsCall ℤ := do
  let numblocks := numBlocks size
  if numblocks > tfsBlocksMax then return vfsError
  let some md ← readBlock tfsDirectoryBlock | return vfsError
  let some (some index) := findFreeEntry md filename tfsMaxFiles | return vfsError
  let md := stringcopy md (entryNameAddr index) filename tfsFilenameMax
  let some bat ← readBlock tfsAllocationBlock | return vfsError
  let some (bat, inodeNumber) := bitmapFindnset bat totalblocks | return vfsError
  let md := setEntryInode md index (UInt32.ofNat inodeNumber)
  let inode := Memory.writeWord (fun _ => 0) 0 (UInt32.ofInt size)
  let some (bat, inode) := allocBlocks totalblocks bat inode numblocks | return vfsError
  createWrite bat md (clearBlocks inode numblocks) index numblocks

/-- The loop of `tfs_remove` that frees the blocks of a file in the allocation block. -/
def freeBlocks (bat inode : Block) : Block :=
  ((List.range tfsBlocksMax).takeWhile fun i => inodeBlock inode i ≠ 0).foldl
    (fun bat i => bitmapSet bat (inodeBlock inode i).toNat false) bat

/-- `tfs_remove`. -/
def tfsRemove (filename : List UInt8) : TfsCall ℤ := do
  let some md ← readBlock tfsDirectoryBlock | return vfsError
  let some index := findEntry md filename | return vfsNotFound
  let some bat ← readBlock tfsAllocationBlock | return vfsError
  let some inode ← readBlock (entryInode md index).toNat | return vfsError
  let bat := freeBlocks (bitmapSet bat (entryInode md index).toNat false) inode
  let md := setEntryInode md index 0
  let md := Function.update md (entryNameAddr index) 0
  if !(← writeBlock tfsAllocationBlock bat) then return vfsError
  if !(← writeBlock tfsDirectoryBlock md) then return vfsError
  return vfsOk

/-! ### Reading and writing files -/

/-- `tfs->buffer_inode->block[i]`, which is not checked against the size of the table: behind the
buffer for the inode come the one for the allocation block and, in `rest`, more memory. -/
def blockNumber (inode bat : Block) (rest : ℕ → UInt32) (i : ℕ) : ℕ :=
  if i < tfsBlocksMax then (inodeBlock inode i).toNat
  else if i < tfsBlocksMax + 128 then (bat.readWord (4 * (i - tfsBlocksMax))).toNat
  else (rest (i - (tfsBlocksMax + 128))).toNat

/-- `memcopy` to a buffer. -/
def memcopy (buflen : ℕ) (buf : Block) (target : ℕ) (source : ℕ → UInt8) : Block := fun x =>
  if target ≤ x ∧ x < target + buflen then source (x - target) else buf x

/-- Bytes of a buffer, which are appended to what the caller of `tfs_read` gets. -/
def bytesOf (buf : Block) (start buflen : ℕ) : List UInt8 :=
  (List.range buflen).map fun x => buf (start + x)

/-- The loop of `tfs_read` over the blocks after the first one, `n` of which are left. -/
def tfsReadLoop (inode : Block) (rest : ℕ → UInt32) (b2 bufsize : ℕ) :
    ℕ → ℕ → ℕ → Block → List UInt8 → TfsCall (ℤ × List UInt8)
  | 0, _, read, _, buffer        => return (read, buffer)
  | n + 1, b1, read, bat, buffer => do
    let some bat ← readBlock (blockNumber inode bat rest b1) | return (vfsError, buffer)
    if b1 = b2 then
      tfsReadLoop inode rest b2 bufsize n (b1 + 1) bufsize bat
        (buffer ++ bytesOf bat 0 (bufsize - read))
    else
      tfsReadLoop inode rest b2 bufsize n (b1 + 1) (read + tfsBlockSize) bat
        (buffer ++ bytesOf bat 0 tfsBlockSize)

/-- `tfs_read`, with what is in memory after the buffer for the inode. It returns the number of
bytes or an error, and the bytes. The virtual filesystem refuses negative sizes. -/
def tfsRead (totalblocks : ℕ) (bat : Block) (rest : ℕ → UInt32) (fileid : ℤ) (bufsize : ℕ)
    (offset : ℤ) : TfsCall (ℤ × List UInt8) := do
  if fileid < 2 ∨ fileid > totalblocks then return (vfsError, [])
  let some inode ← readBlock fileid.toNat | return (vfsError, [])
  let filesize := (filesize inode).toBitVec.toInt
  if offset < 0 ∨ offset > filesize then return (vfsError, [])
  let bufsize := min bufsize (filesize - offset).toNat
  let offset := offset.toNat
  if bufsize = 0 then return (0, [])
  let b1 := offset / tfsBlockSize
  let b2 := (offset + bufsize - 1) / tfsBlockSize
  let some bat ← readBlock (blockNumber inode bat rest b1) | return (vfsError, [])
  let read := min (tfsBlockSize - offset % tfsBlockSize) bufsize
  tfsReadLoop inode rest b2 bufsize (b2 - b1) (b1 + 1) read bat
    (bytesOf bat (offset % tfsBlockSize) read)

/-- The loop of `tfs_write` over the blocks after the first one, `n` of which are left. -/
def tfsWriteLoop (inode : Block) (rest : ℕ → UInt32) (buffer : ℕ → UInt8) (b2 datasize : ℕ) :
    ℕ → ℕ → ℕ → Block → TfsCall ℤ
  | 0, _, written, _        => return written
  | n + 1, b1, written, bat => do
    let some bat ← (if b1 = b2 ∧ datasize - written < tfsBlockSize
      then readBlock (blockNumber inode bat rest b1) else return some bat) | return vfsError
    let count := if b1 = b2 then datasize - written else tfsBlockSize
    let bat := memcopy count bat 0 fun x => buffer (written + x)
    if !(← writeBlock (blockNumber inode bat rest b1) bat) then return vfsError
    tfsWriteLoop inode rest buffer b2 datasize n (b1 + 1) (written + count) bat

/-- `tfs_write`, with what is in memory after the buffer for the inode. The virtual filesystem
refuses negative sizes. -/
def tfsWrite (totalblocks : ℕ) (bat : Block) (rest : ℕ → UInt32) (fileid : ℤ)
    (buffer : ℕ → UInt8) (datasize : ℕ) (offset : ℤ) : TfsCall ℤ := do
  if fileid < 2 ∨ fileid > totalblocks then return vfsError
  let some inode ← readBlock fileid.toNat | return vfsError
  let filesize := (filesize inode).toBitVec.toInt
  if offset < 0 ∨ offset > filesize then return vfsError
  let datasize := min datasize (filesize - offset).toNat
  let offset := offset.toNat
  if datasize = 0 then return 0
  let b1 := offset / tfsBlockSize
  let b2 := (offset + datasize - 1) / tfsBlockSize
  let written := min (tfsBlockSize - offset % tfsBlockSize) datasize
  let some bat ← (if written < tfsBlockSize
    then readBlock (blockNumber inode bat rest b1) else return some bat) | return vfsError
  let bat := memcopy written bat (offset % tfsBlockSize) buffer
  if !(← writeBlock (blockNumber inode bat rest b1) bat) then return vfsError
  tfsWriteLoop inode rest buffer b2 datasize (b2 - b1) (b1 + 1) written bat

/-! ### Free space -/

/-- The loop of `tfs_getfree` over the first blocks. -/
def countAllocated (bat : Block) : ℕ → ℤ
  | 0     => 0
  | i + 1 => countAllocated bat i + (bitmapGet bat i).toBitVec.toInt

/-- `tfs_getfree`. The result is computed in the arithmetic of `uint32_t` and converted to
`int`. -/
def tfsGetfree (totalblocks : ℕ) : TfsCall ℤ := do
  let some bat ← readBlock tfsAllocationBlock | return vfsError
  return ((totalblocks - countAllocated bat totalblocks) * tfsBlockSize).bmod (2 ^ 32)

end Osm.Fs
