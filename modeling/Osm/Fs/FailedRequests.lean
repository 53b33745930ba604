import Osm.Fs.VolumeRuns

/-!
# Requests that fail

A call of the trivial filesystem ends when one of its requests to the disk fails, and leaves the
blocks that it has written. `tfs_create` writes the allocation block, the directory and the inode
in this order, `tfs_remove` the allocation block and the directory; in both calls the request that
completes the change of the file is the fifth one. A failure there leaves the file that the call
is about with an inode that was never written, or with blocks that are no longer marked. Other
files are not concerned.
-/

namespace Osm.Fs

open Osm.Core Osm.Lib

/-- The calls that change the directory. -/
inductive DirectoryCall
  | create (filename : List UInt8) (size : ℤ)
  | remove (filename : List UInt8)

namespace DirectoryCall

/-- The file that the call is about. -/
def filename : DirectoryCall → List UInt8
  | create filename _ => filename
  | remove filename   => filename

/-- The call can be made by the virtual filesystem. -/
def Valid : DirectoryCall → Prop
  | create filename size => ValidName filename ∧ 0 ≤ size ∧ size < 2 ^ 31
  | remove filename      => ValidName filename

/-- The program of the call. -/
def program (totalblocks : ℕ) : DirectoryCall → TfsCall ℤ
  | create filename size => tfsCreate totalblocks filename size
  | remove filename      => tfsRemove filename

/-- The disk after the call, when the request at position `k` fails. -/
def failingAt (k totalblocks : ℕ) (call : DirectoryCall) (D : Disk) : Disk :=
  ((call.program totalblocks).run (fun pos => decide (pos ≠ k)) D).2

end DirectoryCall

variable {D D' : Disk} {totalblocks : ℕ} {filename : List UInt8} {ok : ℕ → Bool}

/-- What is left of a volume when requests of a call fail: the other files, and a volume in order
apart from the file that the call is about. -/
structure Survives (filename : List UInt8) (totalblocks : ℕ) (D D' : Disk) : Prop where
  sameFile : ∀ i, Listed D i → fileName D i ≠ filename → SameFile D D' i
  soundOn  : SoundOn D' (fun i => fileName D' i ≠ filename) totalblocks

lemma Sound.survives (h : Sound D totalblocks) : Survives filename totalblocks D D :=
  ⟨fun i _ _ => SameFile.refl D i, h.mono fun _ _ => trivial⟩

/-- The files that are there stay as they are when a file is created. -/
lemma CreateEffect.sameFile {size : ℤ} (h : CreateEffect ok totalblocks filename size D D')
    (hsound : Sound D totalblocks) {i : ℕ} (hlisted : Listed D i) : SameFile D D' i := by
  rcases h with rfl | ⟨index, number, bat, inode, hcreated, ⟨-, rfl⟩ | ⟨⟨-, hmd, hframe⟩, -⟩⟩
  · exact SameFile.refl D' i
  · exact (hcreated.sound_bat hsound).2 i
  · apply hcreated.sameFile hsound hmd hframe
    rintro rfl
    exact hcreated.free hlisted

lemma CreateEffect.survives {size : ℤ} (h : CreateEffect ok totalblocks filename size D D')
    (hsound : Sound D totalblocks) (hname : ValidName filename) (htotal : totalblocks ≤ 2 ^ 32) :
    Survives filename totalblocks D D' ∧ (ok 4 = true → Sound D' totalblocks) := by
  have hsame : ∀ i, Listed D i → fileName D i ≠ filename → SameFile D D' i :=
    fun i hlisted _ => h.sameFile hsound hlisted
  rcases h with rfl | ⟨index, number, bat, inode, hcreated, ⟨-, rfl⟩ | ⟨⟨hbat, hmd, hframe⟩, hinode⟩⟩
  · exact ⟨hsound.survives, fun _ => hsound⟩
  · have hsound' := (hcreated.sound_bat hsound).1
    exact ⟨⟨hsame, hsound'.mono fun _ _ => trivial⟩, fun _ => hsound'⟩
  · have hself : fileName D' index = filename := by
      rw [fileName, hmd, createdDirectory, entryName_addEntry hname]
    refine ⟨⟨hsame, ?_⟩, fun hok => ?_⟩
    · refine (hcreated.soundOn hsound hname htotal hbat hmd hframe).mono fun i hi => ?_
      rintro rfl
      exact hi hself
    · rcases hinode with hfail | hinode
      · rw [hok] at hfail
        cases hfail
      · exact hcreated.sound hsound hname htotal hbat hmd hframe hinode

lemma RemoveEffect.survives (h : RemoveEffect ok filename D D') (hsound : Sound D totalblocks) :
    Survives filename totalblocks D D' ∧ (ok 4 = true → Sound D' totalblocks) := by
  rcases h with rfl | ⟨index, hlisted, hfile, hbat, hframe, hmd⟩
  · exact ⟨hsound.survives, fun _ => hsound⟩
  · have hmd' := hmd.imp_left And.right
    have hsame : ∀ i, i ≠ index → SameFile D D' i :=
      fun i => removed_sameFile hsound hframe hmd'
    have hsoundOn := removed_soundOn hlisted hsound hbat hframe hmd'
    refine ⟨⟨fun i _ hne => hsame i ?_, ?_⟩, fun hok => ?_⟩
    · rintro rfl
      exact hne hfile
    · rcases hmd with ⟨-, hold⟩ | hdrop
      · refine hsoundOn.mono fun i hi => ?_
        rintro rfl
        exact hi (by rw [fileName, hold, ← hfile, fileName])
      · exact (removed_sound hlisted hsound hbat hframe hdrop).mono fun _ _ => trivial
    · rcases hmd with ⟨hfail, -⟩ | hdrop
      · rw [hok] at hfail
        cases hfail
      · exact removed_sound hlisted hsound hbat hframe hdrop

/-- Whichever request of a call fails, files other than the one that the call is about keep their
names, inodes and contents, their blocks are marked and no two of them share a block. If the
request is not the one that writes the inode in `tfs_create` or the directory in `tfs_remove`,
this holds of the file of the call as well. -/
theorem failingAt_survives (htotal : totalblocks ≤ 8 * tfsBlockSize) (hinv : AllocInv D totalblocks)
    (call : DirectoryCall) (hvalid : call.Valid) (k : ℕ) :
    (∀ i, Listed D i → fileName D i ≠ call.filename →
      SameFile D (call.failingAt k totalblocks D) i) ∧
    SoundOn (call.failingAt k totalblocks D)
      (fun i => fileName (call.failingAt k totalblocks D) i ≠ call.filename) totalblocks ∧
    (k ≠ 4 → Sound (call.failingAt k totalblocks D) totalblocks) := by
  have hle : totalblocks ≤ 2 ^ 32 := le_trans htotal (by decide)
  have hok : k ≠ 4 → decide (4 ≠ k) = true := fun hk => decide_eq_true hk.symm
  cases call with
  | create filename size =>
    obtain ⟨hname, hpos, hlt⟩ := hvalid
    have heffect := @tfsCreate_effect _ _ _ (fun pos => decide (pos ≠ k)) _ hname hpos hlt hle
      hinv.sound
    obtain ⟨hsurvives, hsound⟩ := heffect.survives hinv.sound hname hle
    exact ⟨hsurvives.sameFile, hsurvives.soundOn, fun hk => hsound (hok hk)⟩
  | remove filename =>
    have heffect := @tfsRemove_effect _ _ _ (fun pos => decide (pos ≠ k)) hvalid hinv.sound
    obtain ⟨hsurvives, hsound⟩ := heffect.survives hinv.sound
    exact ⟨hsurvives.sameFile, hsurvives.soundOn, fun hk => hsound (hok hk)⟩

/-- The volume with one file after that file has been removed. -/
def emptied : Disk := ((tfsRemove [102]).run (fun _ => true) oneFile).2

lemma emptied_reachable : VolumeReachable 8 (fun _ => 65) (fun _ _ => 0) emptied :=
  oneFile_reachable.tail (VolumeStep.remove [102] validName_f)

theorem failingAt_survives_third : AllocInv oneFile (tfsTotalblocks 8) ∧
    Sound ((DirectoryCall.remove [102]).failingAt 3 (tfsTotalblocks 8) oneFile)
      (tfsTotalblocks 8) :=
  have hinv := oneFile_reachable.allocInv
  ⟨hinv, (failingAt_survives (by decide) hinv (.remove [102]) validName_f 3).2.2 (by decide)⟩

/-- A new file whose inode was not written has the inode of a file that was removed, with blocks
that are not marked; and a file whose removal did not reach the directory is still there, without
its blocks. -/
theorem failingAt_unmarked :
    (AllocInv emptied (tfsTotalblocks 8) ∧ (DirectoryCall.create [103] 0).Valid ∧
      Listed ((DirectoryCall.create [103] 0).failingAt 4 (tfsTotalblocks 8) emptied) 24 ∧
      4 ∈ fileBlocks ((DirectoryCall.create [103] 0).failingAt 4 (tfsTotalblocks 8) emptied) 24 ∧
      bitmapGet ((DirectoryCall.create [103] 0).failingAt 4 (tfsTotalblocks 8) emptied
        tfsAllocationBlock) 4 = 0) ∧
    (AllocInv oneFile (tfsTotalblocks 8) ∧ (DirectoryCall.remove [102]).Valid ∧
      Listed ((DirectoryCall.remove [102]).failingAt 4 (tfsTotalblocks 8) oneFile) 24 ∧
      4 ∈ fileBlocks ((DirectoryCall.remove [102]).failingAt 4 (tfsTotalblocks 8) oneFile) 24 ∧
      bitmapGet ((DirectoryCall.remove [102]).failingAt 4 (tfsTotalblocks 8) oneFile
        tfsAllocationBlock) 4 = 0) := by
  have hlisted : Listed ((DirectoryCall.create [103] 0).failingAt 4 (tfsTotalblocks 8) emptied)
    24 := by decide +kernel
  have hnumber : inodeNumber ((DirectoryCall.create [103] 0).failingAt 4 (tfsTotalblocks 8) emptied)
    24 = 3 := by decide +kernel
  have hmem : 4 ∈ fileBlocks ((DirectoryCall.create [103] 0).failingAt 4 (tfsTotalblocks 8) emptied)
      24 := by
    rw [fileBlocks_listed hlisted, hnumber]
    decide +kernel
  refine ⟨⟨emptied_reachable.allocInv, ⟨⟨?_, ?_, ?_⟩, ?_⟩, hlisted, hmem, ?_⟩,
    oneFile_reachable.allocInv, validName_f, ?_⟩
  all_goals decide +kernel

end Osm.Fs
