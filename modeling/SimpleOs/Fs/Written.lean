import SimpleOs.Fs.Dump

/-!
# The two passes agree

`processdir` computes the offsets that `dumpnode` writes into the headers, and never looks at
the file; `dumpnode` never looks at the offset of what it writes. The image is right because
both count the same bytes.

* `genromfs_placed`: every node stands in the image at its offset.
* `genromfs_alignments`: the offsets are aligned as they were asked to be.
* `genromfs_checksums`: every checksum of the image is right.
* `genromfs_ends`: when `bigbuf` is large enough.
-/

namespace SimpleOs

namespace Genromfs

open ByteMem WordSum Layout

/-! ## The bytes of the image -/

section

variable (align : Align) (volname : Name) (src : Source)

/-- The nodes of the root directory. -/
abbrev nodes : Nodes := (dirnodes align volname src).1

/-- The end of the last node. -/
abbrev lastoff : ℕ := (dirnodes align volname src).2

/-- The output, with the checksum of the superblock still open. -/
def raw : List Byte :=
  written volname (nodes align volname src) (lastoff align volname src) ++
    List.replicate (tailFill (lastoff align volname src)) 0

theorem visits_laid :
    Laid (fun v : Visit => v.node.pad) (fun v => v.node.offset) (fun v => spaceneeded v.node)
      (spaceneeded (newnode volname 0)) (visits (nodes align volname src))
      (lastoff align volname src) := by
  have hlaid := (dirnodes_spec align volname src).1
  rw [← map_visits] at hlaid
  exact laid_map.mpr hlaid

theorem visit_mem {v : Visit} {t : Nodes} (hv : v ∈ visits t) : v.node ∈ preorder t := by
  rw [← map_visits]
  exact List.mem_map_of_mem hv

theorem visit_length {v : Visit} (hv : v ∈ visits (nodes align volname src)) :
    v.body.length = spaceneeded v.node :=
  (dirnodes_wellPlaced (visit_mem hv)).length_body

theorem length_superblock (lastoff : ℕ) :
    (headerBytes (superblock lastoff) (newnode volname 0)).length =
      spaceneeded (newnode volname 0) := by
  rw [length_headerBytes]
  simp [spaceneeded, newnode, pad16]

theorem length_written :
    (written volname (nodes align volname src) (lastoff align volname src)).length =
      lastoff align volname src := by
  rw [written, List.length_append, length_superblock]
  exact (visits_laid align volname src).length_emit 0 fun v hv => visit_length _ _ _ hv

theorem lastoff_ge : spaceneeded (newnode volname 0) ≤ lastoff align volname src :=
  (visits_laid align volname src).le

theorem spaceneeded_ge (n : FileNode) : 32 ≤ spaceneeded n := by
  unfold spaceneeded pad16
  omega

theorem length_raw :
    (raw align volname src).length = (lastoff align volname src + 1023) / 1024 * 1024 := by
  rw [raw, List.length_append, length_written, List.length_replicate, tailFill]
  split
  · omega
  · omega

theorem length_raw_ge : 1024 ≤ (raw align volname src).length := by
  have hge := lastoff_ge align volname src
  have hspace := spaceneeded_ge (newnode volname 0)
  rw [length_raw]
  omega

/-- The checksum is all that the buffer changes. -/
theorem image_eq : image volname (nodes align volname src) (lastoff align volname src) =
    flushed ((raw align volname src).take 512) ++ (raw align volname src).drop 512 := by
  have hlen := length_raw_ge align volname src
  rw [image, ← raw, after, if_neg (by omega)]

theorem length_flushed {b : List Byte} (hb : b.length = 512) : (flushed b).length = 512 := by
  rw [flushed, length_fixsum (by omega), hb]

theorem length_take_raw : ((raw align volname src).take 512).length = 512 := by
  have hlen := length_raw_ge align volname src
  rw [List.length_take]
  omega

theorem length_image :
    (image volname (nodes align volname src) (lastoff align volname src)).length =
      (lastoff align volname src + 1023) / 1024 * 1024 := by
  have hlen := length_raw_ge align volname src
  rw [image_eq, List.length_append, length_flushed (length_take_raw align volname src),
    List.length_drop, ← length_raw]
  omega

/-- Behind the superblock the image is what was written. -/
theorem image_drop {k : ℕ} (hk : 16 ≤ k) :
    (image volname (nodes align volname src) (lastoff align volname src)).drop k =
      (raw align volname src).drop k := by
  have hlen := length_take_raw align volname src
  have hflushed : (flushed ((raw align volname src).take 512)).drop k =
      ((raw align volname src).take 512).drop k := by
    rw [flushed, fixsum_eq (by omega)]
    exact drop_setWord _ hk (by omega)
  rw [image_eq, List.drop_append, hflushed, length_flushed hlen]
  conv_rhs => rw [← List.take_append_drop 512 (raw align volname src), List.drop_append, hlen]

theorem image_take : (image volname (nodes align volname src) (lastoff align volname src)).take 12 =
    (raw align volname src).take 12 := by
  have hlen := length_take_raw align volname src
  rw [image_eq, List.take_append_of_le_length (by rw [length_flushed hlen]; omega), flushed,
    fixsum_eq (by omega), take_setWord _ (Nat.le_refl _) (by omega), List.take_take]
  rfl

end

/-! ## The nodes in the image -/

section

variable {align : Align} {volname : Name} {src : Source} {img : List Byte}

/-- A run that ends has written the image. -/
theorem img_eq (h : genromfs align volname src = .ok img) :
    img = image volname (nodes align volname src) (lastoff align volname src) := by
  rw [genromfs_eq] at h
  split at h
  · exact (Except.ok.inj h).symm
  · cases h

theorem node_offset_ge {n : FileNode} (hn : n ∈ preorder (nodes align volname src)) :
    32 ≤ n.offset := by
  have hbounds := (dirnodes_spec align volname src).1.bounds hn
  have hspace := spaceneeded_ge (newnode volname 0)
  omega

/-- What is written for a node stands at its offset. -/
theorem body_at (h : genromfs align volname src = .ok img) {v : Visit}
    (hv : v ∈ visits (nodes align volname src)) : v.body <+: img.drop v.node.offset := by
  have hge := node_offset_ge (visit_mem hv)
  rw [img_eq h, image_drop align volname src (by omega)]
  exact (visits_laid align volname src).emit_at 0 (fun v hv => visit_length _ _ _ hv)
    (length_superblock volname _) hv

/-- The size in the superblock. -/
theorem superblock_size (volname : Name) (size : ℕ) (l : List Byte) :
    firstWord ((headerBytes (superblock size) (newnode volname 0) ++ l).drop 8) =
      BitVec.ofNat 32 size := by
  unfold headerBytes
  rw [if_neg (by simp [newnode])]
  exact append_wordBytes _

theorem raw_size (align : Align) (volname : Name) (src : Source) :
    firstWord ((raw align volname src).drop 8) = BitVec.ofNat 32 (lastoff align volname src) := by
  rw [raw, written, List.append_assoc]
  exact superblock_size volname _ _

theorem image_size (h : genromfs align volname src = .ok img) :
    firstWord (img.drop 8) = BitVec.ofNat 32 (lastoff align volname src) := by
  have hword : ∀ l : List Byte, firstWord ((l.take 12).drop 8) = firstWord (l.drop 8) := by
    intro l
    rw [List.drop_take, firstWord_take _ (Nat.le_refl 4)]
  rw [← raw_size, img_eq h, ← hword, image_take, hword]

/-- What `main` has when it begins to dump. -/
theorem buildtree_inj {root : FileNode} {t rest : Nodes} {fin : ℕ}
    (ht : buildtree align volname src = (.cons root t rest, fin)) :
    t = nodes align volname src ∧ fin = lastoff align volname src := by
  rw [buildtree_eq] at ht
  obtain ⟨⟨_, rfl, _⟩, rfl⟩ : (newnode volname 0 = root ∧ nodes align volname src = t ∧
      Nodes.nil = rest) ∧ (dirnodes align volname src).2 = fin := by
    simpa using ht
  exact ⟨rfl, rfl⟩

/-- The image of the sample directory. -/
def sampleImg : List Byte :=
  image sampleVolume (nodes sampleAlign sampleVolume sampleSource)
    (lastoff sampleAlign sampleVolume sampleSource)

theorem sampleImg_eq : genromfs sampleAlign sampleVolume sampleSource = .ok sampleImg :=
  (genromfs_eq ..).trans (if_pos (by decide))

/-- Every node of the tree that the first pass has built stands in the image of the second
    pass at the offset of the first, and no two of them overlap; the superblock has the end of
    the last one, and the image ends with the kilobyte in which it is. -/
theorem genromfs_placed (h : genromfs align volname src = .ok img) {root : FileNode}
    {t rest : Nodes} {fin : ℕ} (ht : buildtree align volname src = (.cons root t rest, fin))
    (hfin : fin < 2 ^ 31) :
    (∀ v ∈ visits t, v.body.length = spaceneeded v.node ∧ v.body <+: img.drop v.node.offset) ∧
      (preorder t).Pairwise (fun m n => m.offset + spaceneeded m ≤ n.offset) ∧
      (∀ n ∈ preorder t, n.offset + spaceneeded n ≤ fin) ∧
      (firstWord (img.drop 8)).toNat = fin ∧ img.length = (fin + 1023) / 1024 * 1024 := by
  obtain ⟨rfl, rfl⟩ := buildtree_inj ht
  have hlaid := (dirnodes_spec align volname src).1
  refine ⟨fun v hv => ⟨visit_length _ _ _ hv, body_at h hv⟩, hlaid.pairwise,
    fun n hn => (hlaid.bounds hn).2, ?_, ?_⟩
  · rw [image_size h, BitVec.toNat_ofNat, Nat.mod_eq_of_lt (by omega)]
  · rw [img_eq h, length_image]

theorem genromfs_placed_sample : sampleImg.length = 1024 :=
  (genromfs_placed sampleImg_eq (buildtree_eq ..) (by decide)).2.2.2.2.trans (by decide)

/-! ## Alignments -/

theorem node_aligned {n : FileNode} (hn : n ∈ preorder (nodes align volname src)) :
    16 ∣ n.offset := by
  have hplaced := (dirnodes_wellPlaced hn).aligned
  obtain ⟨b, _, hb, _⟩ := findalign_spec align n
  rw [hb] at hplaced
  have hlead : 16 ∣ lead n := by
    unfold lead pad16
    split
    · omega
    · omega
  have hsum : 16 ∣ n.offset + lead n := b.dvd.trans (Nat.dvd_of_mod_eq_zero hplaced)
  omega

/-- Every header stands at a multiple of 16, which an `int` holds. The contents of a regular
    file stand at a multiple of the alignment of regular files and of each alignment whose
    pattern matches it; any other node stands itself at a multiple of the latter. -/
theorem genromfs_alignments {root : FileNode} {t rest : Nodes} {fin : ℕ}
    (ht : buildtree align volname src = (.cons root t rest, fin)) (hfin : fin < 2 ^ 31)
    {n : FileNode} (hn : n ∈ preorder t) :
    (16 ∣ n.offset ∧ n.offset + spaceneeded n < 2 ^ 31) ∧
      (n.origLink = none ∧ n.type = .reg →
        align.val ∣ n.offset + 16 + pad16 (n.name.val.length + 1) ∧
          ∀ a ∈ n.aligns, a.val ∣ n.offset + 16 + pad16 (n.name.val.length + 1)) ∧
      (¬ (n.origLink = none ∧ n.type = .reg) → ∀ a ∈ n.aligns, a.val ∣ n.offset) := by
  obtain ⟨rfl, rfl⟩ := buildtree_inj ht
  have hplaced := (dirnodes_wellPlaced hn).aligned
  obtain ⟨b, _, hb, hasked⟩ := findalign_spec align n
  rw [hb] at hplaced
  have hdvd : ∀ a ∈ asked align n, a.val ∣ n.offset + lead n := fun a ha =>
    (Align.dvd_of_le (hasked a ha)).trans (Nat.dvd_of_mod_eq_zero hplaced)
  have haligns : ∀ a ∈ n.aligns, a.val ∣ n.offset + lead n := fun a ha =>
    hdvd a (List.mem_cons_of_mem _ ha)
  have hend : n.offset + spaceneeded n ≤ lastoff align volname src :=
    ((dirnodes_spec align volname src).1.bounds hn).2
  refine ⟨⟨node_aligned hn, by omega⟩, fun hreg => ?_, fun hreg => ?_⟩
  · have hlead : n.offset + lead n = n.offset + 16 + pad16 (n.name.val.length + 1) := by
      rw [lead, if_pos hreg]
      omega
    rw [hlead] at haligns hdvd
    refine ⟨hdvd align ?_, haligns⟩
    rw [asked, if_pos hreg.2]
    exact List.mem_cons_self ..
  · have hlead : n.offset + lead n = n.offset := by rw [lead, if_neg hreg, Nat.add_zero]
    rwa [hlead] at haligns

/-- `echo` is to stand at a multiple of 64. -/
theorem genromfs_alignments_sample :
    ∃ n ∈ preorder (nodes sampleAlign sampleVolume sampleSource),
      n.name = sampleName ∧ 64 ∣ n.offset + 16 + pad16 (n.name.val.length + 1) := by
  obtain ⟨n, hn, hname, hreg, haligns⟩ :
      ∃ n ∈ preorder (nodes sampleAlign sampleVolume sampleSource), n.name = sampleName ∧
        (n.origLink = none ∧ n.type = .reg) ∧ n.aligns.map Align.val = [64] := by
    decide
  refine ⟨n, hn, hname, ?_⟩
  obtain ⟨a, ha, hval⟩ : ∃ a ∈ n.aligns, a.val = 64 := by
    have hmem : 64 ∈ n.aligns.map Align.val := haligns ▸ List.mem_cons_self ..
    exact List.mem_map.mp hmem
  exact hval ▸ ((genromfs_alignments (buildtree_eq ..) (by decide) hn).2.1 hreg).2 a ha

/-! ## Checksums -/

/-- A sum over the beginning of a list. -/
theorem romfsChecksum_isPrefix {a l : List Byte} (h : a <+: l) {size : ℕ} (hsize : size ≤ a.length) :
    romfsChecksum l size = romfsChecksum a size := by
  obtain ⟨b, rfl⟩ := h
  rw [romfsChecksum_eq, romfsChecksum_eq, List.take_append_of_le_length (by omega)]

theorem headerBytes_checksum (ri : RomFh) {n : FileNode} (hoff : n.offset ≠ 0) :
    romfsChecksum (headerBytes ri n) (16 + pad16 (n.name.val.length + 1)) = 0 := by
  have hlen := length_headerBytes ri n
  unfold headerBytes at hlen ⊢
  rw [if_pos hoff] at hlen ⊢
  rw [length_fixsum (by simp)] at hlen
  rw [← hlen]
  exact fixsum_checksum (by omega) (Nat.le_refl _)

/-- The sums over the superblock and over every header are 0, as the readers of the format
    want them to be. -/
theorem genromfs_checksums (h : genromfs align volname src = .ok img) {root : FileNode}
    {t rest : Nodes} {fin : ℕ} (ht : buildtree align volname src = (.cons root t rest, fin))
    (hfin : fin < 2 ^ 31) :
    romfsChecksum img (min 512 fin) = 0 ∧
      ∀ n ∈ preorder t,
        romfsChecksum (img.drop n.offset) (16 + pad16 (n.name.val.length + 1)) = 0 := by
  obtain ⟨rfl, rfl⟩ := buildtree_inj ht
  constructor
  · have hlen := length_take_raw align volname src
    have hsize : firstWord (((raw align volname src).take 512).drop 8) =
        BitVec.ofNat 32 (lastoff align volname src) := by
      rw [List.drop_take, firstWord_take _ (by omega), raw_size]
    have hge := lastoff_ge align volname src
    have hspace := spaceneeded_ge (newnode volname 0)
    have hmin : (if 512 < lastoff align volname src then 512 else lastoff align volname src) =
        min 512 (lastoff align volname src) := by
      split
      · omega
      · omega
    rw [img_eq h, image_eq, romfsChecksum_isPrefix (List.prefix_append _ _)
      (by rw [length_flushed hlen]; omega), flushed, hsize, BitVec.toNat_ofNat,
      Nat.mod_eq_of_lt (by omega), hmin]
    exact fixsum_checksum (by omega) (by omega)
  · intro n hn
    rw [← map_visits] at hn
    obtain ⟨v, hv, rfl⟩ := List.mem_map.mp hn
    have hge := node_offset_ge (visit_mem hv)
    have hheader : headerBytes (nodeheader v.node v.child v.next) v.node <+:
        img.drop v.node.offset := (List.prefix_append _ _).trans (body_at h hv)
    rw [romfsChecksum_isPrefix hheader (Nat.le_of_eq (length_headerBytes _ _).symm)]
    exact headerBytes_checksum _ (by omega)

theorem genromfs_checksums_sample :
    romfsChecksum sampleImg (min 512 (lastoff sampleAlign sampleVolume sampleSource)) = 0 :=
  (genromfs_checksums sampleImg_eq (buildtree_eq ..) (by decide)).1

/-! ## The end of a run -/

/-- With names and link targets of the lengths that a host has, `genromfs` writes an image if
    and only if no padding is larger than `bigbuf`; it writes one whenever no alignment is. -/
theorem genromfs_ends (hvol : volname.val.length < 4080)
    (hnames : ∀ e ∈ src.taken, e.1.val.length < 4080)
    (hlinks : ∀ e ∈ src.taken, e.2.type = .lnk → e.2.size ≤ 4096) {root : FileNode}
    {t rest : Nodes} {fin : ℕ} (ht : buildtree align volname src = (.cons root t rest, fin))
    (hfin : fin < 2 ^ 31) :
    ((∃ img, genromfs align volname src = .ok img ∧ img.length ≤ 2 ^ 31) ↔
        ∀ n ∈ preorder t, n.pad ≤ 4096) ∧
      (align.val ≤ 4096 → (∀ e ∈ src.taken, ∀ a ∈ e.2.aligns, a.val ≤ 4096) →
        ∃ img, genromfs align volname src = .ok img ∧ img.length ≤ 2 ^ 31) := by
  obtain ⟨rfl, rfl⟩ := buildtree_inj ht
  have hfits : ∀ n ∈ preorder (nodes align volname src), Fits n ↔ n.pad ≤ 4096 := by
    intro n hn
    obtain ⟨link, cur, e, he, hplaced⟩ := (dirnodes_spec align volname src).2 n hn
    have hname : NameFits n := by
      have hlen := hnames e he
      unfold NameFits pad16
      rw [hplaced.name]
      show _ ≤ 4096
      omega
    have hsize : n.origLink = none → n.type = .lnk → n.size ≤ bigbufSize := by
      intro hlink htype
      rw [hplaced.type] at htype
      rw [hplaced.size, if_pos ⟨hplaced.origLink ▸ hlink, .inr htype⟩]
      exact hlinks e he htype
    exact ⟨fun hf => hf.1, fun hpad => ⟨hpad, hname, hsize⟩⟩
  have hroot : NameFits (newnode volname 0) := by
    unfold NameFits pad16 newnode
    show _ ≤ 4096
    dsimp only
    omega
  have hiff : (∃ img, genromfs align volname src = .ok img ∧ img.length ≤ 2 ^ 31) ↔
      ∀ n ∈ preorder (nodes align volname src), n.pad ≤ 4096 := by
    constructor
    · rintro ⟨img, himg, _⟩ n hn
      rw [genromfs_eq] at himg
      split at himg
      · rename_i hc
        exact (hfits n hn).mp (hc.2 n hn)
      · cases himg
    · intro hpads
      refine ⟨_, (genromfs_eq ..).trans (if_pos ⟨hroot, fun n hn => (hfits n hn).mpr (hpads n hn)⟩),
        ?_⟩
      rw [length_image]
      omega
  refine ⟨hiff, fun halign haligns => hiff.mpr fun n hn => ?_⟩
  obtain ⟨link, cur, e, he, hplaced⟩ := (dirnodes_spec align volname src).2 n hn
  obtain ⟨b, hb, hfind, _⟩ := findalign_spec align n
  have hlt := hplaced.wellPlaced.pad_lt
  have hle : b.val ≤ 4096 := by
    rcases List.mem_cons.mp hb with rfl | hb
    · split
      · exact halign
      · decide
    · exact haligns e he b (hplaced.aligns ▸ hb)
  omega

theorem genromfs_ends_sample :
    ∃ img, genromfs sampleAlign sampleVolume sampleSource = .ok img ∧ img.length ≤ 2 ^ 31 :=
  (genromfs_ends (by decide) (by decide) (by decide) (buildtree_eq ..) (by decide)).2 (by decide)
    (by decide)

end

end Genromfs

end SimpleOs
