import Mathlib.Tactic.IntervalCases
import SimpleOs.Fs.RoundTrip

/-!
# A program from the host to a process

A directory of the host with a program in it becomes an image (`others/genromfs.c`), the image
a ramdisk, and a process that asks `task_mm` to run the program gets the segments that the host
had in the file.

* `genromfs_exec`: what the memory of the process holds then, and where it goes on.
-/

namespace SimpleOs

namespace Genromfs

open ByteMem

/-- The bytes of a file on the host, from address 0 on. -/
def fileMem (data : List Byte) : Mem := fun a => data.getD a.toNat 0

variable {align : Align} {volname : Name} {src : Source} {img : List Byte}

theorem StandsAt.same {mem : Mem} {a : Addr} {l : List Byte} (h : StandsAt mem a l)
    (hlen : l.length < 2 ^ 32) : SameBytes (fileMem l) mem 0 a l.length := by
  intro i hi
  have haddr : ((0 : Addr) + BitVec.ofNat 32 i).toNat = i := by
    rw [show (0 : Addr) + BitVec.ofNat 32 i = BitVec.ofNat 32 i from BitVec.zero_add _,
      BitVec.toNat_ofNat, Nat.mod_eq_of_lt (by omega)]
  rw [h i hi, fileMem, haddr, List.getD_eq_getElem?_getD, List.getElem?_eq_getElem hi,
    Option.getD_some]

/-- `task_mm` answers an EXEC with the program `echo` of the packed directory: the segments are
    in the memory of the caller as they were in the file on the host, and the caller goes on at
    the entry point. -/
theorem genromfs_exec (h : genromfs align volname src = .ok img) {dot : DirStat}
    (hdot : src.dot = some dot) (haligns : dot.aligns = []) {sb : SuperBlock} {k k₀ : Machine}
    {echo : Addr} (hm : Mounted sb img echoName k echo)
    (hf : Findable align volname src echoName k.memoryUsed) {e : FileEntry}
    (he : src.files.lookup echoName = some e) (hreg : e.type = 2)
    (helf : IsElf (fileMem e.data) 0 e.data.length) {mm : MmImage} {caller : Pid}
    {path : List Byte} (hreq : ExecRequest mm k caller path) (hstart : k₀.mmStart = k.mmStart)
    (hload : Loadable (fileMem e.data) 0 k.procTable caller k.mmStart)
    (hflat : NativeFlat k.procTable) (eax : BitVec 32) :
    ∃ k', mmDispatch (romfsImage mm sb echo k₀) eax k = .ok (k', .reply (proc2pid caller) eax) ∧
      (k'.procTable caller).regs.eip = eEntry (fileMem e.data) 0 ∧
      LoadedFrom (fileMem e.data) 0 k.procTable caller k'.mem 0 := by
  have hdata : e.data ≠ [] := by
    intro hnil
    have hheader := helf.header
    rw [hnil] at hheader
    exact absurd hheader (by decide)
  obtain ⟨g, hlookup, htype, hne, hfits, hlength, hstands⟩ := hm.file h hdot he hreg hdata
  have hlen : e.data.length < 2 ^ 32 := by
    rw [← hlength]
    exact g.size.isLt
  have haddr : sb.device.startPos + BitVec.ofNat 32 g.dataOffset = fileAddr sb g :=
    BitVec.add_comm _ _
  rw [haddr] at hstands
  -- the file on the device has the headers of the file on the host
  have hbytes := hstands.same hlen
  have hsame := helf.same hbytes
  have hexec : Executable sb (romImage volname (nodes align volname src)) k.mem echoName g := by
    refine ⟨hlookup, htype, hne, hfits, ?_⟩
    rw [hlength]
    exact helf.congr hbytes
  obtain ⟨k', hrun, heip, hloaded⟩ := mmDispatch_echo eax hreq hstart
    (hm.disk_layout h hdot haligns) (hf.sound hdot) hexec (hload.congr hsame) hflat
  refine ⟨k', hrun, heip.trans hsame.entry, fun i hi hpt j hj => ?_⟩
  obtain ⟨hoff, -, hfilesz⟩ := hsame.fields hpt
  have hseg := helf.segments i hpt
  have hat := hloaded i hi (hsame.ptLoad.mpr hpt) j (by rw [hfilesz]; exact hj)
  rw [hsame.segmentAddr_same hpt, hoff] at hat
  refine hat.trans ?_
  have hbyte := hbytes ((pOffset (fileMem e.data) 0 i).toNat + j) (by omega)
  rw [← add_ofNat_add, ← add_ofNat_add, BitVec.ofNat_toNat, BitVec.setWidth_eq] at hbyte
  exact hbyte

/-! ### A sample -/

/-- A directory with `echo`, an executable. -/
def elfSource : Source where
  dot := sampleSource.dot
  dotdot := sampleSource.dotdot
  entries :=
    .cons sampleName (some (sampleName, ⟨1, 11, .reg, true, 0, 0, 88, echoFile, []⟩)) .nil .nil

def elfImg : List Byte :=
  image sampleVolume (nodes sampleAlign sampleVolume elfSource)
    (lastoff sampleAlign sampleVolume elfSource)

theorem elfImg_eq : genromfs sampleAlign sampleVolume elfSource = .ok elfImg :=
  (genromfs_eq ..).trans (if_pos (by decide))

/-- The image on the ramdisk; INIT has asked for `echo`, which stands behind the name. -/
def packedMachine : Machine :=
  let mem := romMem elfImg (echoName ++ 0 :: echoName)
  let mem := writeWord mem (sampleMmImage.mmMsg + offSource) 3
  let mem := writeWord mem (sampleMmImage.mmMsg + offType) EXEC
  let mem := writeWord mem (sampleMmImage.mmMsg + offM3i2) 4
  { bootMachine sampleImage with
    mem := writeWord mem (sampleMmImage.mmMsg + offM3p1) 0x300005 }

theorem packed_mounted : Mounted imageSb elfImg echoName packedMachine 0x300000 := by
  have hlen : elfImg.length = 1024 := by
    rw [elfImg, length_image]
    decide
  have hstart : packedMachine.mmStart = 0x1000000 := rfl
  have hout : ∀ a, 0x200000 ≤ a → packedMachine.mem a =
      romMem elfImg (echoName ++ 0 :: echoName) a := by
    intro a ha
    unfold packedMachine sampleMmImage
    dsimp only
    rw [writeWord_out, writeWord_out, writeWord_out, writeWord_out]
    all_goals
      unfold InBlock
      bv_omega
  refine ⟨?_, ?_, hlen.symm, ?_, fun i hi => ?_, ?_, fun i hi => ?_, ?_⟩
  · rw [hstart]
    decide
  · rw [hstart]
    decide
  · rw [hlen]
    decide
  · rw [hout _ (by rw [hlen] at hi; show (0x200000 : Addr) ≤ 0x200000 + _; bv_omega)]
    exact romMem_stands _ (by omega) i hi
  · decide
  · rw [hstart]
    rw [hlen] at hi
    show ¬ InBlock 0x1000000 (32 * blockSize) (0x200000 + BitVec.ofNat 32 i)
    unfold InBlock blockSize
    bv_omega
  · rw [hstart]
    decide

theorem elf_findable :
    Findable sampleAlign sampleVolume elfSource echoName packedMachine.memoryUsed where
  volume := by decide
  screen := ⟨by decide, fun _ => by decide⟩
  blocks := by decide
  other := by decide
  absent _ := by decide

theorem genromfs_exec_init :
    ∃ k', mmDispatch (romfsImage sampleMmImage imageSb 0x300000 (bootMachine sampleImage)) 0
        packedMachine = .ok (k', .reply 3 0) ∧
      (k'.procTable INIT).regs.eip = 0x101000 ∧
      ∀ j < 4, k'.mem (0x102000 + BitVec.ofNat 32 j) = echoFile.getD (84 + j) 0 := by
  have hnum : ePhnum (fileMem echoFile) 0 = 1 := by decide
  have hzero : ∀ i, PtLoad (fileMem echoFile) 0 i → i = 0 := by
    intro i hi
    have hlt := hi.1
    omega
  have helf : IsElf (fileMem echoFile) 0 echoFile.length := by
    refine ⟨by decide, by decide, by decide, by decide, by decide, fun i hi => ?_⟩
    obtain rfl := hzero i hi
    decide
  have hload : Loadable (fileMem echoFile) 0 packedMachine.procTable INIT
      packedMachine.mmStart := by
    refine ⟨fun i hi => ?_, fun i i' hne hi hi' => ?_⟩
    · obtain rfl := hzero i hi
      decide
    · exact absurd ((hzero i hi).trans (hzero i' hi').symm) hne
  have hreq : ExecRequest sampleMmImage packedMachine INIT echoName :=
    ⟨by decide, by decide, by decide, by decide, by decide⟩
  obtain ⟨k', hrun, heip, hloaded⟩ := genromfs_exec elfImg_eq rfl rfl packed_mounted elf_findable
    (e := entryOf false sampleName ⟨1, 11, .reg, true, 0, 0, 88, echoFile, []⟩) rfl rfl helf hreq
    rfl hload (initProc_quiescent sampleImage).flat 0
  refine ⟨k', hrun, heip.trans (by decide), fun j hj => ?_⟩
  have hseg : segmentAddr (fileMem echoFile) 0 packedMachine.procTable INIT 0 = 0x102000 := by
    decide
  have hat : k'.mem (segmentAddr (fileMem echoFile) 0 packedMachine.procTable INIT 0 +
      BitVec.ofNat 32 j) = fileMem echoFile (0 + pOffset (fileMem echoFile) 0 0 +
        BitVec.ofNat 32 j) := hloaded 0 le_rfl (by decide) j hj
  rw [hseg] at hat
  refine hat.trans ?_
  interval_cases j
  all_goals decide

end Genromfs

end SimpleOs
