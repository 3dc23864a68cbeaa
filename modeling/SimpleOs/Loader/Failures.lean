import SimpleOs.Lib.Held
import SimpleOs.Loader.Chain
import SimpleOs.Loader.Ending

/-!
# Reads that fail

`read_sector` returns whether the BIOS has failed, and its comment says that one should then try
again (kernel_loader.c:346-349). Nothing looks at what it returns: `read_fat` returns `OK`,
`load_file_to_ram` keeps it in `r` and copies the buffer, and `start_c` enters the protected
mode when `load_file_to_ram` returns (kernel_loader.c:468-469, 600-601, 650-651, 880-903). What
is not delivered is replaced by what was delivered before.

* `loadFileToRamAt_of_ok`: without failures this is `load_file_to_ram`.
* `loadFileToRamAt_iff`: the clusters that are visited when reads fail.
* `startCEnd_notSilent_iff`: when the kernel is loaded all the same.
* `loadsOrReports_of_ok`: it is when nothing fails.
* `second_sector_lost`: one read that fails.
-/

namespace SimpleOs

open ByteMem Fat12 Held

/-! ## The loader, with reads that can fail -/

/-- The BIOS when some of its reads fail: the read with the number `k` then leaves the buffer
    as it is. -/
def Int13.failing (int13 : Int13) (fails : ℕ → Bool) (k : ℕ) : Int13 := fun r buff =>
  if fails k then buff else int13 r buff

/-- The loop of `load_file_to_ram` (kernel_loader.c:618-661), with a BIOS for each read. -/
def loadLoopAt (bios : ℕ → Int13) (bpb : Bpb) : ℕ → BitVec 16 → Loader → Option Loader
  | 0, _, _ => none
  | fuel + 1, curCluster, s =>
    let (nextCluster, s) := getNextCluster (bios s.reads.length) curCluster s
    if nextCluster ≠ 0xfff then
      loadLoopAt bios bpb fuel nextCluster
        (loadSector (bios s.reads.length) bpb nextCluster.toNat s)
    else some s

/-- `load_file_to_ram` (kernel_loader.c:581-667), with a BIOS for each read. -/
def loadFileToRamAt (bios : ℕ → Int13) (bpb : Bpb) (fuel : ℕ) (beginCluster : ℤ) (fat : ℤ)
    (s : Loader) : Option Loader :=
  let s := loadSector (bios s.reads.length) bpb beginCluster s
  if fat ≠ 0 then loadLoopAt bios bpb fuel (BitVec.ofInt 16 beginCluster) s else some s

/-- How `start_c` ends. -/
inductive Boot where
  | protectedMode (s : Loader)
  | reported

/-- `start_c` from the call of `load_file_to_ram` on (kernel_loader.c:880-903). There is nothing
    by which it could know of a failure. -/
def startCEnd (bios : ℕ → Int13) (bpb : Bpb) (fuel : ℕ) (firstKernelCluster : ℤ) (fat : ℤ)
    (s : Loader) : Option Boot :=
  (loadFileToRamAt bios bpb fuel firstKernelCluster fat s).map .protectedMode

section Always

variable {int13 : Int13} {bpb : Bpb}

theorem loadLoopAt_always (fuel : ℕ) (cur : BitVec 16) (s : Loader) :
    loadLoopAt (fun _ => int13) bpb fuel cur s = loadLoop int13 bpb fuel cur s := by
  induction fuel generalizing cur s with
  | zero => rfl
  | succ fuel ih => simp only [loadLoopAt, loadLoop, ih]

/-- Without failures this is `load_file_to_ram`. -/
theorem loadFileToRamAt_of_ok {fails : ℕ → Bool} (hok : ∀ k, fails k = false) (fuel : ℕ)
    (beginCluster fat : ℤ) (s : Loader) :
    loadFileToRamAt (int13.failing fails) bpb fuel beginCluster fat s =
      loadFileToRam int13 bpb fuel beginCluster fat s := by
  have halways : int13.failing fails = fun _ => int13 := by
    funext k r buff
    simp [Int13.failing, hok]
  simp only [halways, loadFileToRamAt, loadFileToRam, loadLoopAt_always]

end Always

/-! ## The clusters that are visited -/

section Visits

variable {bios : ℕ → Int13} {bpb : Bpb} {c d fuel : ℕ} {l : List ℕ} {s s' : Loader}

/-- The sector of a cluster, and its entry. -/
def pass (bios : ℕ → Int13) (bpb : Bpb) (c : ℕ) (s : Loader) : BitVec 16 × Loader :=
  let s := loadSector (bios s.reads.length) bpb c s
  getNextCluster (bios s.reads.length) (BitVec.ofNat 16 c) s

def passes (bios : ℕ → Int13) (bpb : Bpb) (l : List ℕ) (s : Loader) : Loader :=
  l.foldl (fun s c => (pass bios bpb c s).2) s

/-- A cluster with which the loop goes on. -/
def IsLink (d : ℕ) : Prop := d < 0x1000 ∧ d ≠ 0xfff

/-- The entries lead from the cluster `c` to those of the list, and then to 0xfff. -/
def Leads (bios : ℕ → Int13) (bpb : Bpb) : ℕ → List ℕ → Loader → Prop
  | c, [], s => (pass bios bpb c s).1 = 0xfff
  | c, d :: l, s => (pass bios bpb c s).1 = BitVec.ofNat 16 d ∧ IsLink d ∧
    Leads bios bpb d l (pass bios bpb c s).2

theorem loadLoopAt_pass (fuel : ℕ) (c : ℕ) (s : Loader) :
    loadLoopAt bios bpb (fuel + 1) (BitVec.ofNat 16 c)
        (loadSector (bios s.reads.length) bpb c s) =
      if (pass bios bpb c s).1 ≠ 0xfff then
        loadLoopAt bios bpb fuel (pass bios bpb c s).1
          (loadSector (bios (pass bios bpb c s).2.reads.length) bpb (pass bios bpb c s).1.toNat
            (pass bios bpb c s).2)
      else some (pass bios bpb c s).2 := rfl

theorem IsLink.ofNat_ne (h : IsLink d) :
    BitVec.ofNat 16 d ≠ 0xfff ∧ (BitVec.ofNat 16 d).toNat = d := by
  have htoNat : (BitVec.ofNat 16 d).toNat = d := by
    rw [BitVec.toNat_ofNat]
    have hlt := h.1
    omega
  refine ⟨fun heq => h.2 ?_, htoNat⟩
  rw [← htoNat, heq]
  rfl

theorem exists_link (h : (pass bios bpb c s).1 ≠ 0xfff) :
    ∃ d, (pass bios bpb c s).1 = BitVec.ofNat 16 d ∧ IsLink d := by
  refine ⟨(pass bios bpb c s).1.toNat, by simp, getNextCluster_lt _ _ _, fun heq => h ?_⟩
  apply BitVec.eq_of_toNat_eq
  rw [heq]
  rfl

/-- The loop, from the read of the sector of `c` on. -/
theorem loadLoopAt_iff : (∃ fuel, loadLoopAt bios bpb fuel (BitVec.ofNat 16 c)
      (loadSector (bios s.reads.length) bpb c s) = some s') ↔
    ∃ l, Leads bios bpb c l s ∧ s' = passes bios bpb (c :: l) s := by
  constructor
  · rintro ⟨fuel, hloop⟩
    induction fuel generalizing c s with
    | zero => cases hloop
    | succ fuel ih =>
      rw [loadLoopAt_pass] at hloop
      by_cases hend : (pass bios bpb c s).1 = 0xfff
      · rw [if_neg (not_not.mpr hend)] at hloop
        exact ⟨[], hend, (Option.some.inj hloop).symm⟩
      · obtain ⟨d, hnext, hlink⟩ := exists_link hend
        obtain ⟨hne, htoNat⟩ := hlink.ofNat_ne
        rw [hnext, if_pos hne, htoNat] at hloop
        obtain ⟨l, hleads, heq⟩ := ih hloop
        exact ⟨d :: l, ⟨hnext, hlink, hleads⟩, heq⟩
  · rintro ⟨l, hleads, rfl⟩
    induction l generalizing c s with
    | nil =>
      have hend : (pass bios bpb c s).1 = 0xfff := hleads
      refine ⟨1, ?_⟩
      rw [loadLoopAt_pass, if_neg (not_not.mpr hend)]
      rfl
    | cons d l ih =>
      obtain ⟨hnext, hlink, hleads⟩ := hleads
      obtain ⟨hne, htoNat⟩ := hlink.ofNat_ne
      obtain ⟨fuel, hloop⟩ := ih hleads
      refine ⟨fuel + 1, ?_⟩
      rw [loadLoopAt_pass, hnext, if_pos hne, htoNat]
      exact hloop

end Visits

/-! ## What the buffers hold -/

section Buffers

variable {bios : ℕ → Int13} {int13 : Int13} {fails : ℕ → Bool} {bpb : Bpb} {c : ℕ} {l : List ℕ}
  {s s' : Loader} {b b' : List (ℕ → Byte)}

/-- The entry of the cluster `c`, taken from what the buffer holds. -/
def entryIn (buff : ℕ → Byte) (c : ℕ) : BitVec 16 :=
  flatEntry (fun i => buff (i - c / 2 * 3 / 512 * 512)) c

/-- What `read_data` holds after the read for each of the clusters. -/
def sectorsHeld (int13 : Int13) (fails : ℕ → Bool) (bpb : Bpb) (l : List ℕ) (s : Loader) :
    List (ℕ → Byte) :=
  held (fun i => fails (s.reads.length + 2 * i)) (fun (c : ℕ) => int13 (dataRead (rSec bpb c))) l
    s.readData

/-- And what `fat_buffer` holds. -/
def tablesHeld (int13 : Int13) (fails : ℕ → Bool) (l : List ℕ) (s : Loader) : List (ℕ → Byte) :=
  held (fun i => fails (s.reads.length + 2 * i + 1)) (fun c => int13 (fatRead c)) l s.fatBuffer

theorem pass_eq (hc : c < 0x1000) : pass bios bpb c s =
    (entryIn (bios (s.reads.length + 1) (fatRead c) s.fatBuffer) c,
      readSector (bios (s.reads.length + 1)) (fatRead c)
        (loadSector (bios s.reads.length) bpb c s)) := by
  have hlength : (loadSector (bios s.reads.length) bpb c s).reads.length = s.reads.length + 1 :=
    List.length_append
  unfold pass
  dsimp only
  rw [hlength]
  apply getNextCluster_decode hc
  intro i hi
  show _ = bios (s.reads.length + 1) (fatRead c) s.fatBuffer _
  congr 1
  omega

theorem length_reads_pass (hc : c < 0x1000) :
    (pass bios bpb c s).2.reads.length = s.reads.length + 2 := by
  rw [pass_eq hc]
  simp [readSector, fatRead, loadSector, asm4gMemcpy, dataRead]

theorem sectorsHeld_cons (hc : c < 0x1000) : sectorsHeld int13 fails bpb (c :: l) s =
    int13.failing fails s.reads.length (dataRead (rSec bpb c)) s.readData ::
      sectorsHeld int13 fails bpb l (pass (int13.failing fails) bpb c s).2 := by
  have hbuff : (pass (int13.failing fails) bpb c s).2.readData =
      int13.failing fails s.reads.length (dataRead (rSec bpb c)) s.readData := by
    rw [pass_eq hc]
    rfl
  unfold sectorsHeld
  rw [held_cons, hbuff, length_reads_pass hc]
  congr 2
  funext i
  congr 1
  omega

theorem tablesHeld_cons (bpb : Bpb) (hc : c < 0x1000) : tablesHeld int13 fails (c :: l) s =
    int13.failing fails (s.reads.length + 1) (fatRead c) s.fatBuffer ::
      tablesHeld int13 fails l (pass (int13.failing fails) bpb c s).2 := by
  have hbuff : (pass (int13.failing fails) bpb c s).2.fatBuffer =
      int13.failing fails (s.reads.length + 1) (fatRead c) s.fatBuffer := by
    rw [pass_eq hc]
    rfl
  unfold tablesHeld
  rw [held_cons, hbuff, length_reads_pass hc]
  congr 2
  funext i
  congr 1
  omega

theorem entry_pass (bpb : Bpb) (hc : c < 0x1000) : (pass (int13.failing fails) bpb c s).1 =
    entryIn (int13.failing fails (s.reads.length + 1) (fatRead c) s.fatBuffer) c := by
  rw [pass_eq hc]

/-- The entries lead to the clusters of the list as `fat_buffer` has them. -/
theorem leads_iff (hc : c < 0x1000) : Leads (int13.failing fails) bpb c l s ↔
    (∀ d ∈ l, IsLink d) ∧ List.zipWith entryIn (tablesHeld int13 fails (c :: l) s) (c :: l) =
      l.map (BitVec.ofNat 16) ++ [0xfff] := by
  induction l generalizing c s with
  | nil =>
    rw [tablesHeld_cons bpb hc, List.zipWith_cons_cons, ← entry_pass bpb hc]
    simp [Leads]
  | cons d l ih =>
    rw [tablesHeld_cons bpb hc, List.zipWith_cons_cons, ← entry_pass bpb hc, Leads, List.map_cons,
      List.cons_append, List.cons.injEq, List.forall_mem_cons]
    by_cases hlink : IsLink d
    · rw [ih hlink.1]
      tauto
    · tauto

/-! ## What is copied -/

/-- The same for the 512 bytes of a sector. -/
def SameSector (x y : ℕ → Byte) : Prop := ∀ j < 512, x j = y j

/-- What has been copied is known from the memory. -/
theorem Copied.copied_iff (h : Copied b s s') (hlen : b.length = b'.length) :
    Copied b' s s' ↔ List.Forall₂ SameSector b b' := by
  rw [List.forall₂_iff_get]
  constructor
  · intro h'
    refine ⟨hlen, fun i hi hi' j hj => ?_⟩
    have hcontents := h.contents i hi j hj
    rw [h'.contents i hi' j hj] at hcontents
    exact hcontents.symm
  · rintro ⟨_, hsame⟩
    refine ⟨fun i hi j hj => ?_, ?_, ?_⟩
    · rw [h.contents i (by omega) j hj]
      exact hsame i (by omega) hi j hj
    · rw [← hlen]
      exact h.rest
    · rw [← hlen]
      exact h.kernelAddr

theorem pass_copied (hc : c < 0x1000) (s : Loader) :
    Copied [bios s.reads.length (dataRead (rSec bpb c)) s.readData] s (pass bios bpb c s).2 := by
  have hcopied := loadSector_copied (bios s.reads.length) bpb c s
  rw [pass_eq hc]
  exact ⟨hcopied.contents, hcopied.rest, hcopied.kernelAddr⟩

theorem passes_copied (hl : ∀ c ∈ l, c < 0x1000) (hlen : 512 * l.length < 2 ^ 32) :
    Copied (sectorsHeld int13 fails bpb l s) s (passes (int13.failing fails) bpb l s) := by
  induction l generalizing s with
  | nil =>
    refine ⟨fun i hi => absurd hi (Nat.not_lt_zero i), fun a _ => rfl, ?_⟩
    exact (BitVec.add_zero _).symm
  | cons c l ih =>
    obtain ⟨hc, hl⟩ := List.forall_mem_cons.mp hl
    rw [List.length_cons] at hlen
    rw [sectorsHeld_cons hc]
    apply (pass_copied hc s).append (ih hl (by omega))
    simp [sectorsHeld]
    omega

theorem dataReads_passes (hl : ∀ c ∈ l, c < 0x1000) :
    (passes bios bpb l s).dataReads = s.dataReads + l.length := by
  induction l generalizing s with
  | nil => rfl
  | cons c l ih =>
    obtain ⟨hc, hl⟩ := List.forall_mem_cons.mp hl
    have hpass : (pass bios bpb c s).2.dataReads = s.dataReads + 1 := by
      rw [pass_eq hc, ← dataReads_loadSector (bios s.reads.length) bpb c s]
      simp [Loader.dataReads, readSector, fatRead]
    show (passes bios bpb l (pass bios bpb c s).2).dataReads = _
    rw [ih hl, hpass, List.length_cons]
    omega

end Buffers

/-! ## The whole file -/

section Files

variable {bios : ℕ → Int13} {int13 : Int13} {fails : ℕ → Bool} {bpb : Bpb} {v : Volume} {fat : ℤ}
  {c : ℕ} {l cl : List ℕ} {s s' : Loader}

/-- The clusters behind `c` that are visited: those to which the entries lead, when the table is
    read. -/
def Visits (int13 : Int13) (fails : ℕ → Bool) (fat : ℤ) (c : ℕ) (l : List ℕ) (s : Loader) : Prop :=
  if fat ≠ 0 then
    (∀ d ∈ l, IsLink d) ∧ List.zipWith entryIn (tablesHeld int13 fails (c :: l) s) (c :: l) =
      l.map (BitVec.ofNat 16) ++ [0xfff]
  else l = []

/-- The loader when the clusters have been visited. -/
def afterVisits (bios : ℕ → Int13) (bpb : Bpb) (fat : ℤ) (c : ℕ) (l : List ℕ) (s : Loader) :
    Loader :=
  if fat ≠ 0 then passes bios bpb (c :: l) s else loadSector (bios s.reads.length) bpb c s

theorem loadFileToRamAt_iff (hc : c < 0x1000) :
    (∃ fuel, loadFileToRamAt (int13.failing fails) bpb fuel c fat s = some s') ↔
      ∃ l, Visits int13 fails fat c l s ∧ s' = afterVisits (int13.failing fails) bpb fat c l s := by
  unfold loadFileToRamAt Visits afterVisits
  dsimp only
  by_cases hfat : fat = 0
  · simp [hfat, eq_comm]
  · have hcluster : BitVec.ofInt 16 (c : ℤ) = BitVec.ofNat 16 c := BitVec.ofInt_natCast ..
    simp only [ne_eq, hfat, not_false_eq_true, if_true, hcluster]
    rw [loadLoopAt_iff]
    simp only [leads_iff hc]

theorem afterVisits_copied (hc : c < 0x1000) (h : Visits int13 fails fat c l s)
    (hlen : 512 * (l.length + 1) < 2 ^ 32) :
    Copied (sectorsHeld int13 fails bpb (c :: l) s) s
      (afterVisits (int13.failing fails) bpb fat c l s) := by
  unfold Visits at h
  unfold afterVisits
  by_cases hfat : fat = 0
  · rw [if_neg (not_not.mpr hfat)] at h ⊢
    rw [h, sectorsHeld_cons hc]
    exact loadSector_copied _ bpb c s
  · rw [if_pos hfat] at h ⊢
    exact passes_copied (List.forall_mem_cons.mpr ⟨hc, fun d hd => (h.1 d hd).1⟩) hlen

theorem dataReads_afterVisits (hc : c < 0x1000) (h : Visits int13 fails fat c l s) :
    (afterVisits bios bpb fat c l s).dataReads = s.dataReads + (l.length + 1) := by
  unfold Visits at h
  unfold afterVisits
  by_cases hfat : fat = 0
  · rw [if_neg (not_not.mpr hfat)] at h ⊢
    rw [h]
    exact dataReads_loadSector _ bpb c s
  · rw [if_pos hfat] at h ⊢
    exact dataReads_passes (List.forall_mem_cons.mpr ⟨hc, fun d hd => (h.1 d hd).1⟩)

/-- The memory from `kernel_addr` on holds the sectors of the clusters, no more sectors than these
    have been copied, and nothing else has been written. -/
structure FileInMemory (v : Volume) (clusters : List ℕ) (s s' : Loader) : Prop where
  copied : Copied (fileBlocks v clusters) s s'
  sectors : s'.dataReads = s.dataReads + clusters.length

theorem fileInMemory_iff (hc : c < 0x1000) (h : Visits int13 fails fat c l s)
    (hlen : 512 * cl.length < 2 ^ 32) :
    FileInMemory v cl s (afterVisits (int13.failing fails) bpb fat c l s) ↔
      List.Forall₂ SameSector (sectorsHeld int13 fails bpb (c :: l) s) (fileBlocks v cl) := by
  have hreads : (afterVisits (int13.failing fails) bpb fat c l s).dataReads = _ :=
    dataReads_afterVisits hc h
  have hheld : (sectorsHeld int13 fails bpb (c :: l) s).length = l.length + 1 := by
    simp [sectorsHeld]
  have hblocks := length_fileBlocks v cl
  by_cases hsame : l.length + 1 = cl.length
  · have hcopied : Copied _ s (afterVisits _ bpb fat c l s) :=
      afterVisits_copied hc h (by omega)
    rw [← hcopied.copied_iff (by omega)]
    exact ⟨fun hholds => hholds.copied, fun hcopied => ⟨hcopied, by omega⟩⟩
  · constructor
    · intro hholds
      have hsectors := hholds.sectors
      omega
    · intro hforall
      have heq := hforall.length_eq
      omega

/-- The kernel is in the memory when the protected mode is entered, or `start_c` knows of a
    failure. -/
def Boot.NotSilent (v : Volume) (clusters : List ℕ) (s : Loader) : Boot → Prop
  | .protectedMode s' => FileInMemory v clusters s s'
  | .reported => True

/-- `start_c` ends, and not with a kernel that is not that of the disk. -/
def LoadsOrReports (int13 : Int13) (fails : ℕ → Bool) (bpb : Bpb) (fat : ℤ) (v : Volume) (c : ℕ)
    (l : List ℕ) (s : Loader) : Prop :=
  ∃ fuel boot, startCEnd (int13.failing fails) bpb fuel c fat s = some boot ∧
    boot.NotSilent v (c :: l) s

/-- What is in `read_data` when the clusters have been visited is the file. -/
theorem loadsOrReports_iff (hc : c < 0x1000) (hlen : 512 * (cl.length + 1) < 2 ^ 32) :
    LoadsOrReports int13 fails bpb fat v c cl s ↔
      ∃ l, Visits int13 fails fat c l s ∧
        List.Forall₂ SameSector (sectorsHeld int13 fails bpb (c :: l) s)
          (fileBlocks v (c :: cl)) := by
  unfold LoadsOrReports startCEnd
  have hlen' : 512 * (c :: cl).length < 2 ^ 32 := hlen
  constructor
  · rintro ⟨fuel, boot, hboot, hholds⟩
    obtain ⟨s', hload, rfl⟩ := Option.map_eq_some_iff.mp hboot
    obtain ⟨l, hvisits, rfl⟩ := (loadFileToRamAt_iff hc).mp ⟨fuel, hload⟩
    exact ⟨l, hvisits, (fileInMemory_iff hc hvisits hlen').mp hholds⟩
  · rintro ⟨l, hvisits, hforall⟩
    have hruns : ∃ fuel, loadFileToRamAt (int13.failing fails) bpb fuel c fat s = _ :=
      (loadFileToRamAt_iff hc).mpr ⟨l, hvisits, rfl⟩
    obtain ⟨fuel, hload⟩ := hruns
    refine ⟨fuel, .protectedMode _, by rw [hload]; rfl, ?_⟩
    exact (fileInMemory_iff hc hvisits hlen').mpr hforall

/-! ## Along the file -/

/-- The two sectors of the table with the entry of the cluster `c`. -/
def tableSectors (v : Volume) (c : ℕ) (i : ℕ) : Byte := v.fatByte (c / 2 * 3 / 512 * 512 + i)

/-- For each cluster of the file, the sectors of the table that were delivered last have the
    right entry, and at the end 0xfff. -/
def EntriesHeld (v : Volume) (fails : ℕ → Bool) (fat : ℤ) (clusters : List ℕ) (s : Loader) : Prop :=
  fat ≠ 0 → List.zipWith entryIn
    (held (fun i => fails (s.reads.length + 2 * i + 1)) (fun c _ => tableSectors v c) clusters
      s.fatBuffer) clusters = clusters.tail.map (BitVec.ofNat 16) ++ [0xfff]

/-- For each cluster of the file, the sector that was delivered last is the same as its own. -/
def SectorsHeld (v : Volume) (fails : ℕ → Bool) (clusters : List ℕ) (s : Loader) : Prop :=
  List.Forall₂ SameSector
    (held (fun i => fails (s.reads.length + 2 * i)) (fun c _ => v.sector (v.clusterSector c))
      clusters s.readData) (fileBlocks v clusters)

/-- The file that begins with the cluster `c`. It has one cluster when the table is not read. -/
def OnDisk (v : Volume) (fat : ℤ) (c : ℕ) (l : List ℕ) : Prop :=
  if fat ≠ 0 then ∃ mark, Volume.IsEndMark mark ∧ v.Chain mark c l else v.IsData c ∧ l = []

theorem OnDisk.isData (h : OnDisk v fat c l) : ∀ d ∈ c :: l, v.IsData d := by
  unfold OnDisk at h
  split_ifs at h
  · obtain ⟨mark, _, hchain⟩ := h
    exact hchain.isData
  · obtain ⟨hdata, rfl⟩ := h
    simpa using hdata

theorem OnDisk.length_lt (h : OnDisk v fat c l) : 512 * (l.length + 1) < 2 ^ 32 := by
  unfold OnDisk at h
  split_ifs at h
  · obtain ⟨mark, hmark, hchain⟩ := h
    have hle := hchain.length_le (hchain.nodup hmark.not_isData)
    rw [List.length_cons] at hle
    omega
  · rw [h.2]
    decide

theorem OnDisk.nil (h : OnDisk v fat c l) (hfat : fat = 0) : l = [] := by
  unfold OnDisk at h
  rw [if_neg (not_not.mpr hfat)] at h
  exact h.2

theorem isLink_of_isData {d : ℕ} (h : v.IsData d) : IsLink d := by
  have hlt := h.2.1
  exact ⟨by omega, by omega⟩

theorem entryIn_congr {x y : ℕ → Byte} (h : ∀ i < 1024, x i = y i) (c : ℕ) :
    entryIn x c = entryIn y c := by
  have hlo : x (3 * c / 2 - c / 2 * 3 / 512 * 512) = y (3 * c / 2 - c / 2 * 3 / 512 * 512) :=
    h _ (by omega)
  have hhi : x (3 * c / 2 + 1 - c / 2 * 3 / 512 * 512) =
      y (3 * c / 2 + 1 - c / 2 * 3 / 512 * 512) := h _ (by omega)
  simp only [entryIn, flatEntry, hlo, hhi]

theorem zipWith_entryIn_congr {b b' : List (ℕ → Byte)}
    (h : List.Forall₂ (fun x y : ℕ → Byte => ∀ i < 1024, x i = y i) b b') (l : List ℕ) :
    List.zipWith entryIn b l = List.zipWith entryIn b' l := by
  induction h generalizing l with
  | nil => rfl
  | cons hfirst _ ih =>
    cases l with
    | nil => rfl
    | cons c l => rw [List.zipWith_cons_cons, List.zipWith_cons_cons, entryIn_congr hfirst, ih]

/-- The clusters of the file are visited when the entries are those of the file. -/
theorem EntriesHeld.visits (hbios : Delivers int13 v) (h : Floppy v bpb) (hfile : OnDisk v fat c l)
    (hentries : EntriesHeld v fails fat (c :: l) s) : Visits int13 fails fat c l s := by
  unfold Visits
  by_cases hfat : fat = 0
  · rw [if_neg (not_not.mpr hfat)]
    exact hfile.nil hfat
  · have hdata := hfile.isData
    rw [if_pos hfat]
    refine ⟨fun d hd => isLink_of_isData (hdata d (List.mem_cons_of_mem c hd)), ?_⟩
    refine Eq.trans (zipWith_entryIn_congr ?_ (c :: l)) (hentries hfat)
    apply held_rel
    · intro d hd b b' _ i hi
      exact hbios.table h (hdata d hd) b hi
    · intro i _
      rfl

theorem Leads.unique {l' : List ℕ} (h : Leads bios bpb c l s) (h' : Leads bios bpb c l' s) :
    l = l' := by
  induction l generalizing c s l' with
  | nil =>
    cases l' with
    | nil => rfl
    | cons d l' =>
      have hend : (pass bios bpb c s).1 = 0xfff := h
      exact absurd (h'.1.symm.trans hend) h'.2.1.ofNat_ne.1
  | cons d l ih =>
    obtain ⟨hnext, hlink, hleads⟩ := h
    cases l' with
    | nil =>
      have hend : (pass bios bpb c s).1 = 0xfff := h'
      exact absurd (hnext.symm.trans hend) hlink.ofNat_ne.1
    | cons d' l' =>
      obtain ⟨hnext', hlink', hleads'⟩ := h'
      have hd : d = d' := by
        rw [← hlink.ofNat_ne.2, ← hnext, hnext', hlink'.ofNat_ne.2]
      subst hd
      rw [ih hleads hleads']

/-- The clusters that are visited are determined by the table, the failures and the buffer. -/
theorem Visits.unique {l' : List ℕ} (bpb : Bpb) (hc : c < 0x1000) (h : Visits int13 fails fat c l s)
    (h' : Visits int13 fails fat c l' s) : l = l' := by
  unfold Visits at h h'
  by_cases hfat : fat = 0
  · rw [if_neg (not_not.mpr hfat)] at h h'
    rw [h, h']
  · rw [if_pos hfat] at h h'
    have hleads : Leads (int13.failing fails) bpb c l s := (leads_iff hc).mpr h
    exact hleads.unique ((leads_iff hc).mpr h')

theorem forall₂_sameSector_iff {a b d : List (ℕ → Byte)} (h : List.Forall₂ SameSector a b) :
    List.Forall₂ SameSector a d ↔ List.Forall₂ SameSector b d := by
  induction h generalizing d with
  | nil => rfl
  | cons hfirst _ ih =>
    cases d with
    | nil => simp
    | cons z d =>
      rw [List.forall₂_cons, List.forall₂_cons, ih]
      refine and_congr_left' ⟨fun hz j hj => ?_, fun hz j hj => ?_⟩
      · rw [← hfirst j hj, hz j hj]
      · rw [hfirst j hj, hz j hj]

theorem sectorsHeld_iff (hbios : Delivers int13 v) (h : Floppy v bpb)
    (hdata : ∀ d ∈ cl, v.IsData d) :
    List.Forall₂ SameSector (sectorsHeld int13 fails (startBpb (v.sector 0) bpb) cl s)
      (fileBlocks v cl) ↔ SectorsHeld v fails cl s := by
  apply forall₂_sameSector_iff
  apply held_rel
  · intro d hd b b' _ j hj
    have hsector := h.clusterSector_lt (hdata d hd)
    have hdisk := h.sectors
    rw [h.rSec (hdata d hd)]
    exact hbios.dataRead (by omega) hsector b hj
  · intro j _
    rfl

/-- Along the file, the sectors decide. -/
theorem EntriesHeld.loadsOrReports_iff (hbios : Delivers int13 v) (h : Floppy v bpb)
    (hfile : OnDisk v fat c l) (hentries : EntriesHeld v fails fat (c :: l) s) :
    LoadsOrReports int13 fails (startBpb (v.sector 0) bpb) fat v c l s ↔
      SectorsHeld v fails (c :: l) s := by
  have hdata := hfile.isData
  have hc : c < 0x1000 := (isLink_of_isData (hdata c List.mem_cons_self)).1
  have hvisits : Visits int13 fails fat c l s := hentries.visits hbios h hfile
  rw [SimpleOs.loadsOrReports_iff hc hfile.length_lt, ← sectorsHeld_iff hbios h hdata]
  constructor
  · rintro ⟨visited, hvisited, hheld⟩
    rwa [hvisited.unique bpb hc hvisits] at hheld
  · intro hheld
    exact ⟨l, hvisits, hheld⟩

theorem entryIn_tableSectors (v : Volume) (c : ℕ) :
    entryIn (tableSectors v c) c = BitVec.ofNat 16 (v.entry c) := by
  have hlo : c / 2 * 3 / 512 * 512 + (3 * c / 2 - c / 2 * 3 / 512 * 512) = 3 * c / 2 := by omega
  have hhi : c / 2 * 3 / 512 * 512 + (3 * c / 2 + 1 - c / 2 * 3 / 512 * 512) = 3 * c / 2 + 1 := by
    omega
  rw [v.entry_eq_flatEntry, BitVec.ofNat_toNat, BitVec.setWidth_eq]
  simp only [entryIn, tableSectors, flatEntry, hlo, hhi]

theorem zipWith_entryIn_chain (h : v.Chain 0xfff c l) :
    List.zipWith entryIn ((c :: l).map (tableSectors v)) (c :: l) =
      l.map (BitVec.ofNat 16) ++ [0xfff] := by
  induction h with
  | last hdata hentry => simp [entryIn_tableSectors, hentry]
  | next hdata hentry h ih =>
    rw [List.map_cons, List.zipWith_cons_cons, ih, entryIn_tableSectors, hentry]
    rfl

/-- Without failures, a file that ends with 0xfff is loaded. -/
theorem loadsOrReports_of_ok (hbios : Delivers int13 v) (h : Floppy v bpb)
    (hok : ∀ k, fails k = false) (hchain : v.Chain 0xfff c l) (s : Loader) :
    LoadsOrReports int13 fails (startBpb (v.sector 0) bpb) 1 v c l s := by
  have hfile : OnDisk v 1 c l := ⟨0xfff, ⟨by omega, le_refl _⟩, hchain⟩
  have hentries : EntriesHeld v fails 1 (c :: l) s := by
    intro _
    rw [held_of_ok fun _ => hok _]
    exact zipWith_entryIn_chain hchain
  rw [hentries.loadsOrReports_iff hbios h hfile, SectorsHeld, held_of_ok fun _ => hok _]
  exact List.forall₂_same.mpr fun _ _ _ _ => rfl

/-- For every floppy with the geometry that the loader assumes, every file on it, every pattern of
    failing reads and all that the buffers hold before: the kernel is loaded or the failure
    reported if and only if the clusters to which the entries in `fat_buffer` lead are as many
    as those of the file, and with each of them `read_data` holds what the file has there.
    Where the entries are those of the file, this is to say that for each of its clusters the
    sector that was delivered last has the same contents. -/
theorem startCEnd_notSilent_iff (hbios : Delivers int13 v) (h : Floppy v bpb)
    (hfile : OnDisk v fat c l) (fails : ℕ → Bool) (s : Loader) :
    (LoadsOrReports int13 fails (startBpb (v.sector 0) bpb) fat v c l s ↔
      ∃ visited, Visits int13 fails fat c visited s ∧
        List.Forall₂ SameSector
          (sectorsHeld int13 fails (startBpb (v.sector 0) bpb) (c :: visited) s)
          (fileBlocks v (c :: l))) ∧
    (EntriesHeld v fails fat (c :: l) s →
      (LoadsOrReports int13 fails (startBpb (v.sector 0) bpb) fat v c l s ↔
        SectorsHeld v fails (c :: l) s)) := by
  have hc : c < 0x1000 := (isLink_of_isData (hfile.isData c List.mem_cons_self)).1
  exact ⟨loadsOrReports_iff hc hfile.length_lt, fun hentries =>
    hentries.loadsOrReports_iff hbios h hfile⟩

end Files

/-! ### Two failures -/

theorem sampleFloppy_onDisk : OnDisk (sampleFloppy 0xf) 1 2 [3] :=
  ⟨0xfff, ⟨by decide, by decide⟩, .next ⟨by decide, by decide, by decide⟩ (by decide)
    (.last ⟨by decide, by decide, by decide⟩ (by decide))⟩

/-- The last read fails, of sectors that `fat_buffer` holds from the read before. -/
theorem startCEnd_notSilent_iff_last :
    LoadsOrReports (sampleInt13 (sampleFloppy 0xf)) (fun k => k == 3)
      (startBpb ((sampleFloppy 0xf).sector 0) sampleBpb) 1 (sampleFloppy 0xf) 2 [3]
      sampleLoader := by
  have hentries : EntriesHeld (sampleFloppy 0xf) (fun k => k == 3) 1 [2, 3] sampleLoader :=
    fun _ => by decide
  have hiff := (startCEnd_notSilent_iff (sampleInt13_delivers (sampleFloppy 0xf))
    (sampleFloppy_floppy 0xf) sampleFloppy_onDisk (fun k => k == 3) sampleLoader).2 hentries
  refine hiff.mpr (.cons ?_ (.cons ?_ .nil))
  · exact fun j _ => rfl
  · exact fun j _ => rfl

/-- The read of the second sector of the file fails: the first is copied again. -/
theorem second_sector_lost :
    ¬ LoadsOrReports (sampleInt13 (sampleFloppy 0xf)) (fun k => k == 2)
      (startBpb ((sampleFloppy 0xf).sector 0) sampleBpb) 1 (sampleFloppy 0xf) 2 [3] sampleLoader ∧
    ∃ s', startCEnd ((sampleInt13 (sampleFloppy 0xf)).failing fun k => k == 2)
        (startBpb ((sampleFloppy 0xf).sector 0) sampleBpb) 2 2 1 sampleLoader =
          some (.protectedMode s') ∧
      s'.mem 0x300200 = 33 ∧
      (sampleFloppy 0xf).sector ((sampleFloppy 0xf).clusterSector 3) 0 = 34 := by
  have hentries : EntriesHeld (sampleFloppy 0xf) (fun k => k == 2) 1 [2, 3] sampleLoader :=
    fun _ => by decide
  refine ⟨?_, _, rfl, ?_, ?_⟩
  · rw [hentries.loadsOrReports_iff (sampleInt13_delivers _) (sampleFloppy_floppy 0xf)
      sampleFloppy_onDisk]
    intro hheld
    have hsecond := (List.forall₂_cons.mp (List.forall₂_cons.mp hheld).2).1 0 (by decide)
    exact absurd hsecond (by decide)
  · decide
  · decide

end SimpleOs
