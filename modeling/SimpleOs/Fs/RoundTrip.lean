import SimpleOs.Fs.Load
import SimpleOs.Fs.ReadBack

/-!
# From genromfs to the kernel

The image that `genromfs` writes is the ramdisk of the kernel. It is one of the images that
`romfs_namei` takes, so that what was proved of a lookup holds of the directory that the image
was made of: a file that was put into it comes out of `do_execl`'s buffer byte by byte.

* `genromfs_stored`: the image is well formed for the kernel.
* `genromfs_namei`: which files a lookup finds.
* `genromfs_readFile`: what is read of them.
-/

namespace SimpleOs

namespace Genromfs

open ByteMem WordSum Layout Bitmap

/-! ## Bytes in memory -/

/-- The bytes of a list stand at `a`. -/
def StandsAt (mem : Mem) (a : Addr) (l : List Byte) : Prop :=
  ∀ i (h : i < l.length), mem (a + BitVec.ofNat 32 i) = l[i]

section

variable {mem : Mem} {a : Addr} {l l' : List Byte}

theorem StandsAt.of_prefix (h : StandsAt mem a l) {off : ℕ} (hp : l' <+: l.drop off) :
    StandsAt mem (a + BitVec.ofNat 32 off) l' := by
  obtain ⟨rest, hrest⟩ := hp
  intro i hi
  have hlen := congrArg List.length hrest
  rw [List.length_append, List.length_drop] at hlen
  have hget : l[off + i]? = l'[i]? := by
    rw [← @List.getElem?_append_left _ _ rest _ hi, hrest, List.getElem?_drop]
  rw [List.getElem?_eq_getElem hi, List.getElem?_eq_getElem (by omega)] at hget
  rw [add_ofNat_add, h (off + i) (by omega), Option.some.inj hget]

theorem StandsAt.tail {b : Byte} (h : StandsAt mem a (b :: l)) : StandsAt mem (a + 1) l := by
  intro i hi
  rw [add_one_add_ofNat, h (i + 1) (by simpa using hi)]
  rfl

theorem StandsAt.head {b : Byte} (h : StandsAt mem a (b :: l)) : mem a = b := by
  have h0 := h 0 (by simp)
  rwa [show a + BitVec.ofNat 32 0 = a by simp] at h0

/-- A name and the NUL byte behind it. -/
theorem StandsAt.isStr {s rest : List Byte} (hs : 0 ∉ s) (h : StandsAt mem a (s ++ 0 :: rest)) :
    IsStr mem a s := by
  induction s generalizing a with
  | nil => exact h.head
  | cons c s ih =>
    rw [List.mem_cons, not_or] at hs
    exact ⟨h.head, Ne.symm hs.1, ih hs.2 h.tail⟩

/-- The word of a header. -/
theorem StandsAt.beWord (h : StandsAt mem a l) {off : ℕ} (hoff : off + 4 ≤ l.length) :
    SimpleOs.beWord mem (a + BitVec.ofNat 32 off) = wordAt l off := by
  have hget : ∀ i, i < 4 → mem (a + BitVec.ofNat 32 off + BitVec.ofNat 32 i) =
      (l.drop off)[i]?.getD 0 := by
    intro i hi
    rw [add_ofNat_add, h (off + i) (by omega), List.getElem?_drop,
      List.getElem?_eq_getElem (by omega)]
    rfl
  have h0 := hget 0 (by omega)
  rw [show a + BitVec.ofNat 32 off + BitVec.ofNat 32 0 = a + BitVec.ofNat 32 off by simp] at h0
  rw [beWord_eq, h0, show (1 : Addr) = BitVec.ofNat 32 1 from rfl,
    show (2 : Addr) = BitVec.ofNat 32 2 from rfl, show (3 : Addr) = BitVec.ofNat 32 3 from rfl,
    hget 1 (by omega), hget 2 (by omega), hget 3 (by omega), wordAt]
  have hlen : 4 ≤ (l.drop off).length := by
    rw [List.length_drop]
    omega
  obtain ⟨b3, b2, b1, b0, t, hl⟩ := exists_cons_four hlen
  rw [hl]
  rfl

end

/-! ## The image -/

/-- The header of a node. -/
def FileNode.header (n : FileNode) : RomHeader := ⟨n.offset, n.name.val, BitVec.ofNat 32 n.size⟩

/-- The nodes of a list, without those below them. -/
def Nodes.toList : Nodes → List FileNode
  | .nil => []
  | .cons n _ rest => n :: rest.toList

/-- What a lookup depends on of a tree. -/
def romImage (volname : Name) : Nodes → RomImage
  | .nil => ⟨volname.val, ⟨0, [], 0⟩, []⟩
  | .cons n _ rest => ⟨volname.val, n.header, rest.toList.map FileNode.header⟩

section

variable {align : Align} {volname : Name} {src : Source} {img : List Byte} {mem : Mem} {base : Addr}

/-- A padded name in the image. -/
theorem isField_of_prefix {name : Name} {off k : ℕ} (hmem : StandsAt mem base img)
    (hk : name.val.length + k = pad16 (name.val.length + 1))
    (h : name.val ++ List.replicate k 0 <+: img.drop off) (hoff : off ≤ img.length) :
    IsField mem base img.length off name.val := by
  have hstands := hmem.of_prefix h
  have hle := le_pad16 (name.val.length + 1)
  have hlen := h.length_le
  rw [List.length_append, List.length_replicate, List.length_drop] at hlen
  refine ⟨?_, fun i hi hi' => ?_, by omega⟩
  · obtain ⟨k, rfl⟩ : ∃ j, k = j + 1 := ⟨k - 1, by omega⟩
    rw [List.replicate_succ] at hstands
    exact hstands.isStr name.property
  · have hget := hstands i (by rw [List.length_append, List.length_replicate]; omega)
    rw [add_ofNat_add] at hget
    rw [hget, List.getElem_append_right hi, List.getElem_replicate]

/-- A header of the image, as the kernel sees it. -/
theorem isHeader_of_shows (hmem : StandsAt mem base img) {v : Visit}
    (hoff : v.node.offset ≠ 0) (hbody : v.body <+: img.drop v.node.offset)
    (hlen : v.node.offset + 16 ≤ img.length) (halign : 16 ∣ v.node.offset)
    (hnext : 16 ∣ nextoffset v.next) :
    IsHeader mem base img.length v.node.header (nextoffset v.next) := by
  have hshows := shows_of_body hoff hbody
  refine ⟨Nat.mod_eq_zero_of_dvd halign, ?_, ?_, ?_⟩
  · obtain ⟨sum, hheader⟩ := headerBytes_split (nodeheader v.node v.child v.next) hoff
    have hle := le_pad16 (v.node.name.val.length + 1)
    apply isField_of_prefix (k := pad16 (v.node.name.val.length + 1) - v.node.name.val.length) hmem
      (by omega) _ hlen
    obtain ⟨rest, hrest⟩ := hbody
    rw [← List.drop_drop, ← hrest, Visit.body, hheader]
    exact ⟨nodeData v.node ++ rest, by simp [List.append_assoc, wordBytes]⟩
  · show SimpleOs.beWord mem (base + BitVec.ofNat 32 v.node.offset) &&& 0xfffffff0 = _
    rw [hmem.beWord (by omega), hshows.nextfh, nodeheader_nextfh _ _ _ hnext]
    exact and_offset (ofNat_and_15 hnext) (flags_offset v.node)
  · show SimpleOs.beWord mem (base + BitVec.ofNat 32 v.node.offset + 8) = _
    rw [show (8 : Addr) = BitVec.ofNat 32 8 from rfl, add_ofNat_add, hmem.beWord (by omega),
      hshows.size]
    rfl

/-- The nodes of a list, as a chain of headers. -/
theorem isChain_of_readable (hmem : StandsAt mem base img) {t : Nodes} (h : Readable align img t)
    (hbody : ∀ v ∈ visits t, v.body <+: img.drop v.node.offset ∧ v.node.offset + 16 ≤ img.length)
    {n : FileNode} {d r : Nodes} (ht : t = .cons n d r) :
    IsChain mem base img.length n.header (r.toList.map FileNode.header) := by
  induction r generalizing t n d with
  | nil =>
    subst ht
    have hn : n ∈ preorder (.cons n d .nil) := by simp [preorder]
    have hbounds := (h.bounds n hn).1
    obtain ⟨hb, hlen⟩ := hbody ⟨n, d.head?, none⟩ (by simp [visits, Nodes.head?])
    exact isHeader_of_shows hmem (by dsimp only; omega) hb hlen (h.aligned n hn) (Nat.dvd_zero _)
  | cons m d' r' _ ihr =>
    subst ht
    have hn : n ∈ preorder (.cons n d (.cons m d' r')) := by simp [preorder]
    have hm : m ∈ preorder (.cons m d' r') := by simp [preorder]
    have hbounds := (h.bounds n hn).1
    obtain ⟨hb, hlen⟩ := hbody ⟨n, d.head?, some m⟩ (by simp [visits, Nodes.head?])
    have hlt : n.offset < m.offset :=
      (List.pairwise_cons.mp h.ordered).1 m (List.mem_append_right _ hm)
    refine ⟨hlt, ?_, ?_⟩
    · exact isHeader_of_shows hmem (by dsimp only; omega) hb hlen (h.aligned n hn)
        (h.rest.aligned m hm)
    · refine ihr h.rest (fun v hv => hbody v ?_) rfl
      exact List.mem_cons_of_mem _ (List.mem_append_right _ hv)

/-- The superblock, with the checksum open, and the volume name at the beginning of the output. -/
theorem superblock_prefix (align : Align) (volname : Name) (src : Source) :
    (superblock (lastoff align volname src)).bytes ++ (volname.val ++
        List.replicate (pad16 (volname.val.length + 1) - volname.val.length) 0) <+:
      raw align volname src := by
  have hsuper : headerBytes (superblock (lastoff align volname src)) (newnode volname 0) =
      (superblock (lastoff align volname src)).bytes ++ volname.val ++
        List.replicate (pad16 (volname.val.length + 1) - volname.val.length) 0 := by
    unfold headerBytes
    rw [if_neg (by simp [newnode])]
    rfl
  rw [← List.append_assoc, ← hsuper, raw, written, List.append_assoc]
  exact List.prefix_append _ _

/-- The checksum stands behind the first words. -/
theorem romMagic_isPrefix (h : genromfs align volname src = .ok img) : romMagic <+: img := by
  have htake : img.take 8 = (img.take 12).take 8 := by
    rw [List.take_take]
    rfl
  have hmagic : wordBytes 0x2d726f6d ++ wordBytes 0x3166732d = romMagic := by decide
  obtain ⟨rest, hrest⟩ := superblock_prefix align volname src
  rw [List.prefix_iff_eq_take, show romMagic.length = 8 from rfl, htake, img_eq h, image_take,
    List.take_take, ← hrest, RomFh.bytes, ← hmagic]
  simp only [superblock, List.append_assoc]
  exact (List.take_left' rfl).symm

/-- Every image that `genromfs` writes is well formed for the kernel, which finds in it the
    headers of the root directory. -/
theorem genromfs_stored (h : genromfs align volname src = .ok img)
    (hblock : img.length ≤ blockSize) {dot : DirStat} (hdot : src.dot = some dot)
    (haligns : dot.aligns = []) (hmem : StandsAt mem base img) :
    (romImage volname (nodes align volname src)).Stored mem base img.length := by
  have hroom : lastoff align volname src ≤ img.length := by
    rw [img_eq h, length_image]
    omega
  have hread := nodes_readable h (by unfold blockSize at hblock; omega)
  have hfirst := first_offset align volname hdot haligns
  have hbody : ∀ v ∈ visits (nodes align volname src),
      v.body <+: img.drop v.node.offset ∧ v.node.offset + 16 ≤ img.length := by
    intro v hv
    have hend : v.node.offset + spaceneeded v.node ≤ lastoff align volname src :=
      ((dirnodes_spec align volname src).1.bounds (visit_mem hv)).2
    have hspace := spaceneeded_ge v.node
    exact ⟨body_at h hv, by omega⟩
  cases hnodes : nodes align volname src with
  | nil =>
    -- there is at least `.`
    rw [hnodes] at hfirst
    have hzero : 0 = 16 + pad16 (volname.val.length + 1) := hfirst
    omega
  | cons n d r =>
    rw [hnodes] at hfirst hread hbody
    have hge := lastoff_ge align volname src
    have hspace := spaceneeded_ge (newnode volname 0)
    refine ⟨hblock, fun i => ?_, ?_, hfirst, isChain_of_readable hmem hread hbody rfl⟩
    · have hmagic := hmem.of_prefix (romMagic_isPrefix h : romMagic <+: img.drop 0)
      rw [show base + BitVec.ofNat 32 0 = base by simp] at hmagic
      exact hmagic i.val i.isLt
    · have hle := le_pad16 (volname.val.length + 1)
      apply isField_of_prefix (k := pad16 (volname.val.length + 1) - volname.val.length) hmem
        (by omega) _ (by omega)
      obtain ⟨rest, hrest⟩ := superblock_prefix align volname src
      rw [img_eq h, image_drop align volname src (Nat.le_refl 16), ← hrest, List.append_assoc,
        List.drop_left' (RomFh.length_bytes _)]
      exact List.prefix_append _ _

/-! ## What it reads -/

/-- The files of a directory, without those below them. -/
def Entries.toList : Entries → List FileEntry
  | .nil => []
  | .cons e _ rest => e :: rest.toList

/-- The first file with a given name. -/
def Entries.lookup (t : Entries) (name : List Byte) : Option FileEntry :=
  t.toList.find? fun e => e.name = name

theorem nodesEntries_toList (t : Nodes) : (nodesEntries t).toList = t.toList.map nodeEntry := by
  induction t with
  | nil => rfl
  | cons n d r _ ihr => exact congrArg (nodeEntry n :: ·) ihr

theorem nodeEntry_name (n : FileNode) : (nodeEntry n).name = n.name.val := by
  unfold nodeEntry entryOf
  split
  · rfl
  · rfl

theorem toList_mem {t : Nodes} {n : FileNode} (h : n ∈ t.toList) : n ∈ preorder t := by
  induction t with
  | nil => exact h
  | cons m d r _ ihr =>
    rcases List.mem_cons.mp h with rfl | h
    · exact List.mem_cons_self ..
    · exact List.mem_cons_of_mem _ (List.mem_append_right _ (ihr h))

theorem romImage_root {n : FileNode} {d r : Nodes} :
    (romImage volname (.cons n d r)).root = (Nodes.cons n d r).toList.map FileNode.header := rfl

/-- The names in the image are those of the files. -/
theorem lookup_node (volname : Name) {t : Nodes} {n : FileNode} {d r : Nodes}
    (ht : t = .cons n d r) (name : List Byte) :
    (romImage volname t).lookup name =
        (t.toList.find? fun n => n.name.val = name).map FileNode.header ∧
      (nodesEntries t).lookup name = (t.toList.find? fun n => n.name.val = name).map nodeEntry := by
  constructor
  · rw [ht, RomImage.lookup, romImage_root, List.find?_map]
    rfl
  · rw [Entries.lookup, nodesEntries_toList, List.find?_map]
    congr 2
    funext n
    simp [nodeEntry_name]

/-- The kernel has the image on its ramdisk, apart from the blocks, and a name in memory. -/
structure Mounted (sb : SuperBlock) (img name : List Byte) (k : Machine) (dir : Addr) : Prop where
  fits : SimpleOs.Fits k.mmStart
  above : kernelText ≤ k.mmStart.toNat ∧ kernelText ≤ dir.toNat
  size : sb.device.storageSize.toNat = img.length
  size_le : img.length ≤ blockSize
  stands : StandsAt k.mem sb.device.startPos img
  str : IsStr k.mem dir name
  disk : ∀ i < img.length, ¬ InPool k.mmStart (sb.device.startPos + BitVec.ofNat 32 i)
  outside : ∀ i ≤ name.length, ¬ InPool k.mmStart (dir + BitVec.ofNat 32 i)

theorem visit_next {t : Nodes} {v : Visit} (hv : v ∈ visits t) {m : FileNode}
    (hm : v.next = some m) : m ∈ preorder t := by
  induction t with
  | nil => exact absurd hv List.not_mem_nil
  | cons n d r ihd ihr =>
    rcases List.mem_cons.mp hv with rfl | hv
    · exact List.mem_cons_of_mem _ (List.mem_append_right _ (head?_mem hm))
    · rcases List.mem_append.mp hv with hv | hv
      · exact List.mem_cons_of_mem _ (List.mem_append_left _ (ihd hv))
      · exact List.mem_cons_of_mem _ (List.mem_append_right _ (ihr hv))

/-- Where the type and the contents of a file stand. -/
theorem node_read (h : genromfs align volname src = .ok img) (hsize : img.length < 2 ^ 31)
    {n : FileNode} (hn : n ∈ preorder (nodes align volname src)) :
    wordAt img n.offset &&& 7 = (nodeEntry n).type ∧
      (nodeEntry n).data = (img.drop n.header.dataOffset).take n.size ∧
      n.header.dataOffset + n.size ≤ img.length := by
  have hroom : lastoff align volname src ≤ img.length := by
    rw [img_eq h, length_image]
    omega
  have hread := nodes_readable h (Nat.lt_of_le_of_lt hroom hsize)
  have hend : n.offset + spaceneeded n ≤ lastoff align volname src :=
    ((dirnodes_spec align volname src).1.bounds hn).2
  have hbounds := hread.bounds n hn
  have hplaced := hread.placed n hn
  rw [← map_visits] at hn
  obtain ⟨v, hv, rfl⟩ := List.mem_map.mp hn
  have hshows := hread.shows v hv
  have hnext : 16 ∣ nextoffset v.next := by
    cases hm : v.next with
    | none => exact Nat.dvd_zero _
    | some m => exact hread.aligned m (visit_next hv hm)
  obtain ⟨hentry, -, -⟩ := hshows.entryAt_eq hplaced hnext hbounds.2.2
  rw [← hentry]
  refine ⟨rfl, ?_, ?_⟩
  · show (img.drop (v.node.offset + 16 + pad16 ((nameAt img (v.node.offset + 16)).length + 1))).take
      (wordAt img (v.node.offset + 8)).toNat = _
    rw [hshows.name, hshows.size]
    show List.take (BitVec.ofNat 32 v.node.size).toNat _ = _
    rw [BitVec.toNat_ofNat, Nat.mod_eq_of_lt hbounds.2.2]
    rfl
  · have hle := le_pad16 v.node.size
    unfold spaceneeded at hend
    unfold RomHeader.dataOffset FileNode.header
    dsimp only
    omega

theorem data_length (h : genromfs align volname src = .ok img) (hsize : img.length < 2 ^ 31)
    {n : FileNode} (hn : n ∈ preorder (nodes align volname src)) :
    (nodeEntry n).data.length = n.size := by
  obtain ⟨-, hdata, hfits⟩ := node_read h hsize hn
  rw [hdata, List.length_take, List.length_drop]
  omega

/-- The root directory has a `.`, and its header is the first one. -/
theorem nodes_cons (align : Align) (volname : Name) {dot : DirStat} (hdot : src.dot = some dot) :
    ∃ n d r, nodes align volname src = .cons n d r ∧ n.name = dotName := by
  obtain ⟨hplaced, -⟩ := placeentry_spec align none dotName dot.toFileStat
    (spaceneeded (newnode volname 0))
  unfold nodes dirnodes dots
  rw [hdot]
  dsimp only
  cases src.dotdot with
  | none => exact ⟨_, _, _, rfl, hplaced.name⟩
  | some dotdot => exact ⟨_, _, _, rfl, hplaced.name⟩

/-- A name that the kernel can look for in the image of a directory: what it prints about the
    headers that it passes stays below its text, and there are a block for the image and one
    for the inode. -/
structure Findable (align : Align) (volname : Name) (src : Source) (name : List Byte)
    (used : BitVec 32) : Prop where
  volume : volname.val.length < 256 ∧ volname.val.length % 16 ≠ 0
  screen : Displayable (romImage volname (nodes align volname src)) name
  blocks : 2 ≤ freeBlocks used
  other : name ≠ dotName.val
  absent : src.files.lookup name = none → name ≠ volname.val

theorem Findable.sound {dot : DirStat} (hdot : src.dot = some dot) {name : List Byte}
    {used : BitVec 32} (hf : Findable align volname src name used) :
    LookupSound (romImage volname (nodes align volname src)) name used := by
  obtain ⟨n, d, r, hnodes, hname⟩ := nodes_cons align volname hdot
  obtain ⟨hheld, hfound⟩ := lookup_node volname hnodes name
  have hroot : ∀ t, (∃ g ∈ RomImage.root t, g.name = name) ↔ t.lookup name ≠ none := by
    intro t
    simp [RomImage.lookup]
  have hvolume : (romImage volname (nodes align volname src)).volume = volname.val := by
    rw [hnodes]
    rfl
  have hfirst : (romImage volname (nodes align volname src)).first.name = dotName.val := by
    rw [hnodes, ← hname]
    rfl
  refine ⟨?_, hf.screen, fun _ => ?_, fun hno => .inl ?_⟩
  · rw [hvolume]
    exact hf.volume.1
  · rw [hvolume, hfirst]
    exact ⟨hf.volume.2, Ne.symm hf.other, hf.blocks⟩
  · rw [hvolume]
    apply hf.absent
    rw [hroot, not_not, hheld, Option.map_eq_none_iff] at hno
    rw [← nodes_entries align volname src, hfound, hno]
    rfl

theorem Mounted.disk_layout (h : genromfs align volname src = .ok img) {dot : DirStat}
    (hdot : src.dot = some dot) (haligns : dot.aligns = []) {sb : SuperBlock} {name : List Byte}
    {k : Machine} {dir : Addr} (hm : Mounted sb img name k dir) :
    DiskLayout sb (romImage volname (nodes align volname src)) name k dir where
  fits := hm.fits
  above := hm.above
  stored := by
    rw [hm.size]
    exact genromfs_stored h hm.size_le hdot haligns hm.stands
  str := hm.str
  disk i hi := hm.disk i (hm.size ▸ hi)
  outside := hm.outside

/-- `romfs_namei` looks into the image of a directory as into the directory: it returns an
    inode with the size of the first file of the name that it is asked for, and 0 when the
    directory has none. -/
theorem genromfs_namei (h : genromfs align volname src = .ok img) {dot : DirStat}
    (hdot : src.dot = some dot) (haligns : dot.aligns = []) {sb : SuperBlock} {name : List Byte}
    {k : Machine} {dir : Addr} (hm : Mounted sb img name k dir)
    (hf : Findable align volname src name k.memoryUsed) :
    ∃ k' inode, romfsNamei sb k dir = .ok (k', inode) ∧
      match src.files.lookup name with
      | some e => inode ≠ 0 ∧
          readWord k'.mem (inode + offDsize) = BitVec.ofNat 32 e.data.length
      | none => inode = 0 := by
  have hsize : img.length < 2 ^ 31 := by
    have hle := hm.size_le
    unfold blockSize at hle
    omega
  have hlayout := (hm.disk_layout h hdot haligns).namei (by have := hf.blocks; omega)
  obtain ⟨k', inode, hrun, hright⟩ := (namei_exact hlayout).1 (hf.sound hdot)
  obtain ⟨n, d, r, hnodes, -⟩ := nodes_cons align volname hdot
  obtain ⟨hheld, hfound⟩ := lookup_node volname hnodes name
  rw [nodes_entries] at hfound
  refine ⟨k', inode, hrun, ?_⟩
  rw [hheld] at hright
  rw [hfound]
  cases hfind : (nodes align volname src).toList.find? fun n => n.name.val = name with
  | none =>
    rw [hfind] at hright
    exact hright
  | some m =>
    rw [hfind] at hright
    have hmem := toList_mem (List.mem_of_find?_eq_some hfind)
    show _ ∧ _ = BitVec.ofNat 32 (nodeEntry m).data.length
    rw [data_length h hsize hmem]
    exact ⟨hright.1, hright.2.2⟩

/-! ### The sample image -/

/-- The machine with the image on its ramdisk, and the name `echo`. -/
def imageMachine : Machine :=
  { bootMachine sampleImage with mem := romMem sampleImg echoName }

def imageSb : SuperBlock := ⟨0x180000, 0x200000, 1024⟩

theorem romMem_stands {l : List Byte} (name : List Byte) (hlen : l.length ≤ 0x100000) :
    StandsAt (romMem l name) 0x200000 l := by
  intro i hi
  have hlt : (0x200000 : Addr) + BitVec.ofNat 32 i < 0x300000 := by bv_omega
  have hsub : ((0x200000 : Addr) + BitVec.ofNat 32 i - 0x200000).toNat = i := by bv_omega
  rw [romMem, if_pos hlt, hsub, List.getD_eq_getElem?_getD,
    List.getElem?_eq_getElem hi, Option.getD_some]

theorem imageMachine_mounted : Mounted imageSb sampleImg echoName imageMachine 0x300000 := by
  have hlen : sampleImg.length = 1024 := by
    rw [sampleImg, length_image]
    decide
  have hstart : imageMachine.mmStart = 0x1000000 := rfl
  refine ⟨?_, ?_, hlen.symm, ?_, romMem_stands _ (by omega), ?_, fun i hi => ?_, ?_⟩
  · rw [hstart]
    decide
  · rw [hstart]
    decide
  · rw [hlen]
    decide
  · show IsStr (romMem sampleImg echoName) 0x300000 echoName
    decide
  · rw [hstart]
    rw [hlen] at hi
    show ¬ InBlock 0x1000000 (32 * blockSize) (0x200000 + BitVec.ofNat 32 i)
    unfold InBlock blockSize
    bv_omega
  · rw [hstart]
    decide

theorem echo_findable :
    Findable sampleAlign sampleVolume sampleSource echoName imageMachine.memoryUsed where
  volume := by decide
  screen := ⟨by decide, fun _ => by decide⟩
  blocks := by decide
  other := by decide
  absent _ := by decide

theorem genromfs_namei_echo :
    ∃ k' inode, romfsNamei imageSb imageMachine 0x300000 = .ok (k', inode) ∧
      inode ≠ 0 ∧ readWord k'.mem (inode + offDsize) = 4 :=
  genromfs_namei sampleImg_eq rfl rfl imageMachine_mounted echo_findable

/-- The header of a regular file that is not empty, and its contents. -/
theorem Mounted.file (h : genromfs align volname src = .ok img) {dot : DirStat}
    (hdot : src.dot = some dot) {sb : SuperBlock} {name : List Byte} {k : Machine} {dir : Addr}
    (hm : Mounted sb img name k dir) {e : FileEntry} (he : src.files.lookup name = some e)
    (hreg : e.type = 2) (hdata : e.data ≠ []) :
    ∃ g, (romImage volname (nodes align volname src)).lookup name = some g ∧
      beWord k.mem (sb.device.startPos + BitVec.ofNat 32 g.offset) &&& 7 = 2 ∧ g.size ≠ 0 ∧
      g.dataOffset + g.size.toNat ≤ sb.device.storageSize.toNat ∧
      g.size.toNat = e.data.length ∧
      StandsAt k.mem (sb.device.startPos + BitVec.ofNat 32 g.dataOffset) e.data := by
  have hsize : img.length < 2 ^ 31 := by
    have hle := hm.size_le
    unfold blockSize at hle
    omega
  obtain ⟨n, d, r, hnodes, -⟩ := nodes_cons align volname hdot
  obtain ⟨hheld, hfound⟩ := lookup_node volname hnodes name
  rw [nodes_entries, he] at hfound
  obtain ⟨m, hfind, rfl⟩ := Option.map_eq_some_iff.mp hfound.symm
  rw [hfind] at hheld
  have hmem := toList_mem (List.mem_of_find?_eq_some hfind)
  obtain ⟨htype, hread, hfits⟩ := node_read h hsize hmem
  have hlength := data_length h hsize hmem
  have hword : m.header.size.toNat = m.size := by
    show (BitVec.ofNat 32 m.size).toNat = m.size
    rw [BitVec.toNat_ofNat, Nat.mod_eq_of_lt (by omega)]
  have hpos : m.size ≠ 0 := fun hzero => hdata (List.eq_nil_of_length_eq_zero (hlength.trans hzero))
  have hge : m.header.offset + 16 ≤ m.header.dataOffset := by
    unfold RomHeader.dataOffset
    omega
  refine ⟨m.header, hheld, ?_, ?_, ?_, hword.trans hlength.symm, ?_⟩
  · rw [hm.stands.beWord (by omega), ← hreg, ← htype]
    rfl
  · rw [Ne, ← BitVec.toNat_inj, hword]
    exact hpos
  · rw [hword, hm.size]
    exact hfits
  · exact hm.stands.of_prefix (by rw [hread]; exact List.take_prefix _ _)

/-- What `do_execl` reads of a regular file is what the host had in it, whatever stands beside
    it in the image. -/
theorem genromfs_readFile (h : genromfs align volname src = .ok img) {dot : DirStat}
    (hdot : src.dot = some dot) (haligns : dot.aligns = []) {sb : SuperBlock} {name : List Byte}
    {k : Machine} {dir : Addr} (hm : Mounted sb img name k dir)
    (hf : Findable align volname src name k.memoryUsed) (hlen : name.length ≤ 15) {e : FileEntry}
    (he : src.files.lookup name = some e) (hreg : e.type = 2) (hdata : e.data ≠ []) :
    ∃ k' i, readFile sb k dir = .ok (k', blockAddr k.mmStart i) ∧
      StandsAt k'.mem (blockAddr k.mmStart i) e.data ∧
      ∀ a, ¬ InPool k.mmStart a → k'.mem a = k.mem a := by
  obtain ⟨g, hlookup, htype, hne, hfits, hlength, hstands⟩ := hm.file h hdot he hreg hdata
  obtain ⟨k', i, hrun, -, hsame, hout⟩ := readFile_eq (hm.disk_layout h hdot haligns)
    (hf.sound hdot) hlookup hlen htype hne hfits
  refine ⟨k', i, hrun, fun j hj => ?_, hout⟩
  rw [hsame j (by omega), ← hstands j hj, BitVec.add_comm sb.device.startPos]

theorem genromfs_readFile_echo :
    ∃ k' i, readFile imageSb imageMachine 0x300000 = .ok (k', blockAddr 0x1000000 i) ∧
      StandsAt k'.mem (blockAddr 0x1000000 i) [0x90, 0x90, 0xeb, 0xfe] := by
  obtain ⟨k', i, hrun, hstands, -⟩ := genromfs_readFile sampleImg_eq rfl rfl imageMachine_mounted
    echo_findable (by decide) (e := entryOf false sampleName sampleFile) rfl rfl (by decide)
  exact ⟨k', i, hrun, hstands⟩

end

end Genromfs

end SimpleOs
