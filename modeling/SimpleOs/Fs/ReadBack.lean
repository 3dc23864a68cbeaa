import SimpleOs.Fs.Written

/-!
# Reading an image back

`readdir` reads a romfs image as the format wants it to be read: from a header to the next one
by `nextfh`, and below a directory by `spec`. It knows nothing of how the image was written.
On an image that `genromfs` has written it finds the files of the source directory.

* `readdir_eq`: what it finds in the image of a tree of nodes.
* `genromfs_readdir`: the round trip, from the directory to the image and back.
* `genromfs_links`: what the hard links are.
-/

namespace SimpleOs

namespace Genromfs

open ByteMem WordSum Layout

/-! ## The reader -/

/-- What a reader finds out about a file. -/
structure FileEntry where
  name : List Byte
  type : BitVec 32
  exec : Bool
  device : BitVec 32
  data : List Byte

/-- The files of a directory, each with those below it. -/
inductive Entries where
  | nil
  | cons (e : FileEntry) (entries rest : Entries)

section

variable (img : List Byte)

def wordAt (off : ℕ) : BitVec 32 := firstWord (img.drop off)

/-- The name at `off`, which ends with a NUL byte. -/
def nameAt (off : ℕ) : List Byte := (img.drop off).takeWhile fun b => b ≠ 0

/-- The file whose header stands at `off`. A device is told by the third word of its header,
    and contents stand behind the padded name. -/
def entryAt (off : ℕ) : FileEntry :=
  let type := wordAt img off &&& 7
  let name := nameAt img (off + 16)
  { name := name
    type := type
    exec := wordAt img off &&& 8 ≠ 0
    device := if type = 4 ∨ type = 5 then wordAt img (off + 4) else 0
    data := (img.drop (off + 16 + pad16 (name.length + 1))).take (wordAt img (off + 8)).toNat }

/-- The files from the header at `off` on; `fuel` bounds the number of headers on a path. A
    directory that is empty has the offset of its own header in `spec`. -/
def readdir : ℕ → ℕ → Option Entries
  | 0, _ => none
  | fuel + 1, off =>
    if off = 0 then some .nil
    else
      let spec := (wordAt img (off + 4)).toNat
      let entries :=
        if wordAt img off &&& 7 = 1 ∧ spec ≠ off then readdir fuel spec else some .nil
      match entries, readdir fuel (wordAt img off &&& 0xfffffff0).toNat with
      | some entries, some rest => some (.cons (entryAt img off) entries rest)
      | _, _ => none

end

/-! ## Words -/

section

variable {w m : BitVec 32}

/-- A mask of low bits takes the flags out of a word whose offset is a multiple of 16. -/
theorem and_flags (hw : w &&& 15 = 0) (hm : 15 &&& m = m) (f : BitVec 32) :
    (w ||| f) &&& m = f &&& m := by
  have hwm : w &&& m = 0 := by
    rw [← hm, ← BitVec.and_assoc, hw]
    exact BitVec.zero_and
  rw [BitVec.and_or_distrib_right, hwm]
  exact BitVec.zero_or

/-- A mask that clears low bits only keeps the offset. -/
theorem and_high (hw : w &&& 15 = 0) (hm : m ||| 15 = BitVec.allOnes 32) : w &&& m = w := by
  have hall : w &&& (m ||| 15) = w := by rw [hm, BitVec.and_allOnes]
  rw [BitVec.and_or_distrib_left, hw] at hall
  exact BitVec.or_zero.symm.trans hall

theorem and_offset (hw : w &&& 15 = 0) {f : BitVec 32} (hf : f &&& 0xfffffff0 = 0) :
    (w ||| f) &&& 0xfffffff0 = w := by
  rw [BitVec.and_or_distrib_right, hf, and_high hw (by decide)]
  exact BitVec.or_zero

end

theorem ofNat_and_15 {n : ℕ} (h : 16 ∣ n) : BitVec.ofNat 32 n &&& 15 = 0 := by
  apply BitVec.eq_of_toNat_eq
  rw [BitVec.toNat_and, BitVec.toNat_ofNat, show (15 : BitVec 32).toNat = 2 ^ 4 - 1 from rfl,
    Nat.and_two_pow_sub_one_eq_mod]
  show n % 2 ^ 32 % 2 ^ 4 = 0
  omega

/-- The flags in the first word of a header: the type, and whether it may be executed. -/
def flags (n : FileNode) : BitVec 32 :=
  if n.origLink.isSome then 0
  else n.type.romfh ||| if n.exec ∧ (n.type = .dir ∨ n.type = .reg) then 8 else 0

theorem flags_offset (n : FileNode) : flags n &&& 0xfffffff0 = 0 := by
  unfold flags
  split
  · decide
  · cases n.type
    all_goals
      split
      · decide
      · decide

/-- The first word of a header. -/
theorem nodeheader_nextfh (n : FileNode) (child next : Option FileNode)
    (hnext : 16 ∣ nextoffset next) :
    (nodeheader n child next).nextfh = BitVec.ofNat 32 (nextoffset next) ||| flags n := by
  have hw := ofNat_and_15 hnext
  unfold nodeheader flags
  generalize BitVec.ofNat 32 (nextoffset next) = w at hw ⊢
  dsimp only
  have hzero : w ||| 0 = w := BitVec.or_zero
  cases n.origLink with
  | none =>
    show (if n.exec ∧ _ then w ||| 8 else w) ||| n.type.romfh = w ||| (n.type.romfh ||| _)
    split
    · rw [BitVec.or_assoc, BitVec.or_comm 8]
    · exact congrArg (w ||| ·) BitVec.or_zero.symm
  | some link =>
    -- a link never has the flag
    have h8 : w &&& ~~~8 = w := and_high hw (by decide)
    show (if n.exec ∧ _ then w ||| 8 else w) &&& ~~~8 = w ||| 0
    rw [hzero]
    split
    · rw [BitVec.and_or_distrib_right, h8]
      exact hzero
    · exact h8

/-! ## One header -/

/-- A header part by part; the checksum is whatever it has to be. -/
theorem headerBytes_split (ri : RomFh) {n : FileNode} (hoff : n.offset ≠ 0) :
    ∃ sum, headerBytes ri n = wordBytes ri.nextfh ++ (wordBytes ri.spec ++ (wordBytes ri.size ++
      (wordBytes sum ++ (n.name.val ++
        List.replicate (pad16 (n.name.val.length + 1) - n.name.val.length) 0)))) := by
  unfold headerBytes
  rw [if_pos hoff, fixsum_eq (by simp)]
  generalize -romfsChecksum _ _ = sum
  refine ⟨sum, ?_⟩
  rw [setWord, RomFh.bytes]
  rfl

/-- A reader sees the words, the name and the contents of a node where it stands. -/
structure Shows (img : List Byte) (n : FileNode) (ri : RomFh) : Prop where
  nextfh : wordAt img n.offset = ri.nextfh
  spec : wordAt img (n.offset + 4) = ri.spec
  size : wordAt img (n.offset + 8) = ri.size
  name : nameAt img (n.offset + 16) = n.name.val
  data : nodeData n <+: img.drop (n.offset + 16 + pad16 (n.name.val.length + 1))

theorem nameAt_eq {l : List Byte} {name : Name} {k : ℕ} (hk : 0 < k) (rest : List Byte)
    (h : l = name.val ++ List.replicate k 0 ++ rest) : l.takeWhile (fun b => b ≠ 0) = name.val := by
  obtain ⟨k, rfl⟩ : ∃ j, k = j + 1 := ⟨k - 1, by omega⟩
  have hall : ∀ b ∈ name.val, decide (b ≠ 0) = true := by
    intro b hb
    rw [decide_eq_true_iff]
    rintro rfl
    exact name.property hb
  rw [h, List.append_assoc, List.takeWhile_append_of_pos hall, List.replicate_succ, List.cons_append,
    List.takeWhile_cons_of_neg (by simp), List.append_nil]

theorem shows_of_body {img : List Byte} {v : Visit} (hoff : v.node.offset ≠ 0)
    (h : v.body <+: img.drop v.node.offset) :
    Shows img v.node (nodeheader v.node v.child v.next) := by
  obtain ⟨rest, hrest⟩ := h
  obtain ⟨sum, hheader⟩ := headerBytes_split (nodeheader v.node v.child v.next) hoff
  have hle := le_pad16 (v.node.name.val.length + 1)
  have hdrop : ∀ k, img.drop (v.node.offset + k) = (img.drop v.node.offset).drop k := fun k =>
    (List.drop_drop ..).symm
  -- the words are those of the header
  have hwords : img.drop v.node.offset = wordBytes (nodeheader v.node v.child v.next).nextfh ++
      (wordBytes (nodeheader v.node v.child v.next).spec ++
        (wordBytes (nodeheader v.node v.child v.next).size ++ (wordBytes sum ++ (v.node.name.val ++
          List.replicate (pad16 (v.node.name.val.length + 1) - v.node.name.val.length) 0 ++
            (nodeData v.node ++ rest))))) := by
    rw [← hrest, Visit.body, hheader]
    simp only [List.append_assoc]
  refine ⟨?_, ?_, ?_, ?_, ?_⟩
  · rw [wordAt, hwords]
    exact firstWord_wordBytes _ _
  · rw [wordAt, hdrop, hwords]
    exact firstWord_wordBytes _ _
  · rw [wordAt, hdrop, hwords]
    exact firstWord_wordBytes _ _
  · rw [nameAt, hdrop, hwords]
    exact nameAt_eq (by omega) _ rfl
  · have hlen := length_headerBytes (nodeheader v.node v.child v.next) v.node
    rw [Nat.add_assoc, hdrop, ← hrest, Visit.body, List.append_assoc,
      List.drop_append_of_le_length (by omega), List.drop_eq_nil_of_le (by omega), List.nil_append]
    exact List.prefix_append _ _

/-- What a reader should find out about a file. -/
def fileEntry (name : Name) (sb : FileStat) : FileEntry where
  name := name.val
  type := sb.type.romfh
  exec := sb.exec ∧ (sb.type = .dir ∨ sb.type = .reg)
  device := if sb.type = .chr ∨ sb.type = .blk then sb.major <<< 16 ||| sb.minor else 0
  data :=
    if sb.type = .reg ∨ sb.type = .lnk then
      sb.contents.take sb.size ++ List.replicate (sb.size - sb.contents.length) 0
    else []

/-- What it should find out about an entry, which may be a hard link. -/
def entryOf (linked : Bool) (name : Name) (sb : FileStat) : FileEntry :=
  if linked then ⟨name.val, 0, false, 0, []⟩ else fileEntry name sb

/-- What a node has kept of a `stat`. -/
def FileNode.stat (n : FileNode) : FileStat where
  dev := n.onDev
  ino := n.onIno
  type := n.type
  exec := n.exec
  major := n.major
  minor := n.minor
  size := n.size
  contents := n.contents
  aligns := n.aligns

def nodeEntry (n : FileNode) : FileEntry := entryOf n.origLink.isSome n.name n.stat

/-- It has kept what a reader should find out. -/
theorem Placed.nodeEntry_eq {align : Align} {n : FileNode} {link : Option ℕ} {name : Name}
    {sb : FileStat} {cur : ℕ} (h : Placed align n link name sb cur) :
    nodeEntry n = entryOf link.isSome name sb := by
  unfold nodeEntry entryOf
  rw [h.origLink, h.name]
  cases link with
  | some link => rfl
  | none =>
    have hdevice : (if n.type = .chr ∨ n.type = .blk then n.major <<< 16 ||| n.minor else 0) =
        if sb.type = .chr ∨ sb.type = .blk then sb.major <<< 16 ||| sb.minor else 0 := by
      rw [h.type]
      by_cases hdev : sb.type = .chr ∨ sb.type = .blk
      · rw [if_pos hdev, if_pos hdev, (h.device rfl hdev).1, (h.device rfl hdev).2]
      · rw [if_neg hdev, if_neg hdev]
    have hdata : (if n.type = .reg ∨ n.type = .lnk then
          n.contents.take n.size ++ List.replicate (n.size - n.contents.length) 0 else []) =
        if sb.type = .reg ∨ sb.type = .lnk then
          sb.contents.take sb.size ++ List.replicate (sb.size - sb.contents.length) 0 else [] := by
      rw [h.type, h.contents]
      by_cases hdata : sb.type = .reg ∨ sb.type = .lnk
      · rw [if_pos hdata, if_pos hdata, h.size, if_pos ⟨rfl, hdata⟩]
      · rw [if_neg hdata, if_neg hdata]
    show fileEntry name n.stat = fileEntry name sb
    unfold fileEntry FileNode.stat
    dsimp only
    rw [hdevice, hdata, h.type, h.exec]

/-- The contents as they are read back. -/
theorem Shows.take_data {align : Align} {img : List Byte} {n : FileNode} {ri : RomFh}
    (h : Shows img n ri) (hn : WellPlaced align n) :
    (img.drop (n.offset + 16 + pad16 (n.name.val.length + 1))).take n.size =
      if n.origLink = none ∧ (n.type = .reg ∨ n.type = .lnk) then
        n.contents.take n.size ++ List.replicate (n.size - n.contents.length) 0
      else [] := by
  obtain ⟨rest, hrest⟩ := h.data
  rw [← hrest]
  unfold nodeData
  by_cases hc : n.origLink = none ∧ (n.type = .reg ∨ n.type = .lnk)
  · have hle := le_pad16 n.size
    have hlen : (n.contents.take n.size).length = min n.size n.contents.length := List.length_take
    rw [if_pos hc, if_pos hc, List.take_append_of_le_length (by rw [length_paddedContents]; exact hle),
      paddedContents, List.take_append, List.take_take, Nat.min_self, hlen, List.take_replicate]
    congr 2
    omega
  · have hsize : n.size = 0 := by
      by_contra hne
      exact hc (hn.sized hne)
    rw [if_neg hc, if_neg hc, hsize, List.take_zero]

/-- The type that a reader sees. -/
def romfhType (n : FileNode) : BitVec 32 := if n.origLink.isSome then 0 else n.type.romfh

theorem flags_type (n : FileNode) : flags n &&& 7 = romfhType n := by
  unfold flags romfhType
  split
  · decide
  · cases n.type
    all_goals
      split
      · decide
      · decide

theorem flags_exec (n : FileNode) : flags n &&& 8 ≠ 0 ↔
    n.origLink.isSome = false ∧ n.exec ∧ (n.type = .dir ∨ n.type = .reg) := by
  unfold flags
  split
  · rename_i h
    simp [h]
  · rename_i h
    rw [Bool.not_eq_true] at h
    rw [and_iff_right h]
    by_cases hx : n.exec ∧ (n.type = .dir ∨ n.type = .reg)
    · rw [if_pos hx, iff_true_right hx]
      cases n.type
      all_goals decide
    · rw [if_neg hx, iff_false_right hx]
      cases n.type
      all_goals decide

/-- A device is told by `spec`. -/
theorem device_eq (n : FileNode) (child : Option FileNode) :
    (if romfhType n = 4 ∨ romfhType n = 5 then nodespec n child else 0) = (nodeEntry n).device := by
  unfold romfhType nodespec nodeEntry entryOf fileEntry FileNode.stat
  cases n.origLink with
  | some link => simp
  | none =>
    cases n.type
    all_goals simp [FileType.romfh]

/-- What a reader sees where a node stands. -/
theorem Shows.entryAt_eq {align : Align} {img : List Byte} {n : FileNode}
    {child next : Option FileNode} (h : Shows img n (nodeheader n child next))
    (hn : WellPlaced align n) (hnext : 16 ∣ nextoffset next) (hsize : n.size < 2 ^ 32) :
    entryAt img n.offset = nodeEntry n ∧
      wordAt img n.offset &&& 7 = romfhType n ∧
      wordAt img n.offset &&& 0xfffffff0 = BitVec.ofNat 32 (nextoffset next) := by
  have hw := ofNat_and_15 hnext
  have hfirst := h.nextfh.trans (nodeheader_nextfh n child next hnext)
  have htype : wordAt img n.offset &&& 7 = romfhType n := by
    rw [hfirst, and_flags hw (by decide), flags_type]
  have hexec : wordAt img n.offset &&& 8 = flags n &&& 8 := by
    rw [hfirst, and_flags hw (by decide)]
  refine ⟨?_, htype, ?_⟩
  · have hword : (BitVec.ofNat 32 n.size).toNat = n.size := by
      rw [BitVec.toNat_ofNat, Nat.mod_eq_of_lt hsize]
    unfold entryAt
    dsimp only
    rw [htype, h.name, hexec, h.spec, h.size, show (nodeheader n child next).size =
      BitVec.ofNat 32 n.size from rfl, hword, h.take_data hn,
      show (nodeheader n child next).spec = nodespec n child from rfl, device_eq]
    have hflags := flags_exec n
    unfold nodeEntry entryOf romfhType
    cases hlink : n.origLink with
    | some link =>
      have hno : flags n &&& 8 = 0 := by
        by_contra hne
        exact absurd (hflags.mp hne).1 (by simp [hlink])
      simp [show flags n &&& 8#32 = 0#32 from hno]
    | none =>
      rw [hlink] at hflags
      simp only [Option.isSome_none, true_and, Bool.false_eq_true, if_false]
      unfold fileEntry FileNode.stat
      dsimp only
      congr 1
      exact decide_eq_decide.mpr (by simpa using hflags)
  · rw [hfirst]
    exact and_offset hw (flags_offset n)

/-! ## A tree of nodes -/

/-- The entries that a reader should find for a list of nodes. -/
def nodesEntries : Nodes → Entries
  | .nil => .nil
  | .cons n dirlist rest => .cons (nodeEntry n) (nodesEntries dirlist) (nodesEntries rest)

/-- Only a directory that is new has nodes below it. -/
def Proper : Nodes → Prop
  | .nil => True
  | .cons n dirlist rest =>
    (dirlist ≠ .nil → n.origLink = none ∧ n.type = .dir) ∧ Proper dirlist ∧ Proper rest

/-- What a reader needs to know about a tree in the image. -/
structure Readable (align : Align) (img : List Byte) (t : Nodes) : Prop where
  proper : Proper t
  shows : ∀ v ∈ visits t, Shows img v.node (nodeheader v.node v.child v.next)
  placed : ∀ n ∈ preorder t, WellPlaced align n
  aligned : ∀ n ∈ preorder t, 16 ∣ n.offset
  bounds : ∀ n ∈ preorder t, 0 < n.offset ∧ n.offset < 2 ^ 32 ∧ n.size < 2 ^ 32
  ordered : (preorder t).Pairwise fun m n => m.offset < n.offset

theorem Readable.dirlist {align : Align} {img : List Byte} {n : FileNode} {d r : Nodes}
    (h : Readable align img (.cons n d r)) : Readable align img d := by
  have hmem : ∀ m ∈ preorder d, m ∈ preorder (.cons n d r) := fun m hm => by
    simp [preorder, hm]
  refine ⟨h.proper.2.1, fun v hv => h.shows v (by simp [visits, hv]),
    fun m hm => h.placed m (hmem m hm), fun m hm => h.aligned m (hmem m hm),
    fun m hm => h.bounds m (hmem m hm), ?_⟩
  exact h.ordered.sublist ((List.sublist_append_left _ _).trans (List.sublist_cons_self ..))

theorem Readable.rest {align : Align} {img : List Byte} {n : FileNode} {d r : Nodes}
    (h : Readable align img (.cons n d r)) : Readable align img r := by
  have hmem : ∀ m ∈ preorder r, m ∈ preorder (.cons n d r) := fun m hm => by
    simp [preorder, hm]
  refine ⟨h.proper.2.2, fun v hv => h.shows v (by simp [visits, hv]),
    fun m hm => h.placed m (hmem m hm), fun m hm => h.aligned m (hmem m hm),
    fun m hm => h.bounds m (hmem m hm), ?_⟩
  exact h.ordered.sublist ((List.sublist_append_right _ _).trans (List.sublist_cons_self ..))

theorem head?_mem {t : Nodes} {n : FileNode} (h : t.head? = some n) : n ∈ preorder t := by
  cases t with
  | nil => cases h
  | cons m d r =>
    obtain rfl := Option.some.inj h
    simp [preorder]

/-- The offset of the first node of a list. -/
theorem Readable.nextoffset {align : Align} {img : List Byte} {t : Nodes}
    (h : Readable align img t) : 16 ∣ nextoffset t.head? ∧
      (BitVec.ofNat 32 (Genromfs.nextoffset t.head?)).toNat = Genromfs.nextoffset t.head? := by
  rw [BitVec.toNat_ofNat]
  cases hhead : t.head? with
  | none => exact ⟨Nat.dvd_zero _, rfl⟩
  | some n =>
    have hn := head?_mem hhead
    exact ⟨h.aligned n hn, Nat.mod_eq_of_lt (h.bounds n hn).2.1⟩

/-- A reader that is sent to the first node of a list finds the whole list. -/
theorem readdir_eq {align : Align} {img : List Byte} {t : Nodes} (h : Readable align img t)
    {fuel : ℕ} (hfuel : (preorder t).length < fuel) :
    readdir img fuel (nextoffset t.head?) = some (nodesEntries t) := by
  induction t generalizing fuel with
  | nil =>
    obtain ⟨fuel, rfl⟩ : ∃ k, fuel = k + 1 := ⟨fuel - 1, by omega⟩
    rfl
  | cons n d r ihd ihr =>
    obtain ⟨fuel, rfl⟩ : ∃ k, fuel = k + 1 := ⟨fuel - 1, by omega⟩
    have hmem : n ∈ preorder (.cons n d r) := by simp [preorder]
    have hlen : (preorder d).length < fuel ∧ (preorder r).length < fuel := by
      simp only [preorder, List.length_cons, List.length_append] at hfuel
      omega
    have hshows := h.shows ⟨n, d.head?, r.head?⟩ (by simp [visits])
    dsimp only at hshows
    obtain ⟨hentry, htype, hnext⟩ := hshows.entryAt_eq (h.placed n hmem) h.rest.nextoffset.1
      (h.bounds n hmem).2.2
    have hrest := ihr h.rest hlen.2
    have hdir := ihd h.dirlist hlen.1
    -- what stands below the node
    have hbelow : (if wordAt img n.offset &&& 7 = 1 ∧ (wordAt img (n.offset + 4)).toNat ≠ n.offset
        then readdir img fuel (wordAt img (n.offset + 4)).toNat else some .nil) =
        some (nodesEntries d) := by
      rw [htype, hshows.spec, show (nodeheader n d.head? r.head?).spec = nodespec n d.head? from rfl]
      cases hhead : d.head? with
      | none =>
        have hd : d = .nil := by
          cases d with
          | nil => rfl
          | cons m d' r' => cases hhead
        have hspec : romfhType n = 1 → (nodespec n none).toNat = n.offset := by
          have hlt := (h.bounds n hmem).2.1
          unfold romfhType nodespec
          cases n.origLink with
          | some link => simp
          | none =>
            cases n.type
            case dir => simpa [FileType.romfh] using hlt
            all_goals simp [FileType.romfh]
        rw [if_neg (fun hc => hc.2 (hspec hc.1)), hd]
        rfl
      | some m =>
        have hm := head?_mem hhead
        obtain ⟨hlink, hdirtype⟩ := h.proper.1 (by
          rintro rfl
          cases hhead)
        have hspec : nodespec n (some m) = BitVec.ofNat 32 m.offset := by
          unfold nodespec
          rw [hlink, hdirtype]
        have hlt := h.dirlist.nextoffset.2
        rw [hhead] at hlt hdir
        have hne : m.offset ≠ n.offset := by
          have hord := (List.pairwise_cons.mp h.ordered).1 m (List.mem_append_left _ hm)
          omega
        have htype' : romfhType n = 1 := by
          unfold romfhType
          rw [hlink, hdirtype]
          rfl
        rw [hspec, show (BitVec.ofNat 32 m.offset).toNat = m.offset from hlt, if_pos ⟨htype', hne⟩]
        exact hdir
    show readdir img (fuel + 1) n.offset = _
    rw [readdir, if_neg (by have := (h.bounds n hmem).1; omega)]
    dsimp only
    rw [hbelow, hnext, h.rest.nextoffset.2, hrest, hentry]
    rfl

/-! ## The source directory -/

/-- What tells files of the host apart. -/
abbrev Inode := BitVec 64 × BitVec 64

def FileNode.inode (n : FileNode) : Inode := (n.onDev, n.onIno)

/-- The files that a reader should find for the entries of a directory, when the files `seen`
    are already there, and all files that are there then. A file that is there already is a
    hard link. -/
def sourceEntries (level : ℕ) : Listing → List Inode → Entries × List Inode
  | .nil, seen => (.nil, seen)
  | .cons dName entry entries rest, seen =>
    if level ≤ 1 ∧ (dName = dotName ∨ dName = dotdotName) then sourceEntries level rest seen
    else match entry with
    | none => sourceEntries level rest seen
    | some (name, sb) =>
      let linked := decide (name = dotName ∨ name = dotdotName ∨ (sb.dev, sb.ino) ∈ seen)
      let seen := seen ++ [(sb.dev, sb.ino)]
      let sub :=
        if linked = false ∧ sb.type = .dir then sourceEntries (level + 1) entries seen
        else (.nil, seen)
      let tail := sourceEntries level rest sub.2
      (.cons (entryOf linked name sb) sub.1 tail.1, tail.2)

/-- The files that a reader should find in the image: `.`, the link `..`, and the entries. -/
def Source.files (src : Source) : Entries :=
  let root : Inode := (-1, -1)
  match src.dot, src.dotdot with
  | none, _ => (sourceEntries 1 src.entries [root]).1
  | some dot, none =>
    .cons (fileEntry dotName dot.toFileStat) .nil
      (sourceEntries 1 src.entries [root, (dot.dev, dot.ino)]).1
  | some dot, some dotdot =>
    .cons (fileEntry dotName dot.toFileStat) .nil
      (.cons (entryOf true dotdotName dotdot.toFileStat) .nil
        (sourceEntries 1 src.entries
          [root, (dot.dev, dot.ino), (dotdot.dev, dotdot.ino)]).1)

/-- A link is made for `.`, for `..` and for a file that is there. -/
theorem linkOf_isSome (seen : List FileNode) (self up : ℕ) (name : Name) (sb : FileStat) :
    (linkOf seen self up name sb).isSome =
      decide (name = dotName ∨ name = dotdotName ∨
        (sb.dev, sb.ino) ∈ seen.map FileNode.inode) := by
  unfold linkOf
  by_cases hdot : name = dotName
  · simp [hdot]
  · by_cases hdotdot : name = dotdotName
    · have hne : dotdotName ≠ dotName := by decide
      simp [hdotdot, hne]
    · rw [if_neg hdot, if_neg hdotdot, Option.isSome_map, Bool.eq_iff_iff, List.find?_isSome,
        decide_eq_true_iff]
      simp [hdot, hdotdot, FileNode.inode, Prod.ext_iff]

theorem place_entries (align : Align) (l : Listing) :
    ∀ (level self up : ℕ) (seen : List FileNode) (cur : ℕ),
      sourceEntries level l (seen.map FileNode.inode) =
        (nodesEntries (place align level self up l seen cur).1,
          (seen ++ preorder (place align level self up l seen cur).1).map FileNode.inode) := by
  induction l with
  | nil =>
    intro level self up seen cur
    simp [sourceEntries, place, nodesEntries, preorder]
  | cons dName entry entries rest ihe ihr =>
    intro level self up seen cur
    rw [sourceEntries.eq_def, place.eq_def]
    dsimp only
    split
    · exact ihr ..
    · cases entry with
      | none => exact ihr ..
      | some entry =>
        obtain ⟨name, sb⟩ := entry
        dsimp only
        rw [← linkOf_isSome seen self up name sb]
        generalize linkOf seen self up name sb = link
        obtain ⟨hplaced, -⟩ := placeentry_spec align link name sb cur
        generalize placeentry align link name sb cur = e at hplaced ⊢
        have hinode : e.1.inode = (sb.dev, sb.ino) := by
          rw [FileNode.inode, hplaced.dev, hplaced.ino]
        have hseen : seen.map FileNode.inode ++ [(sb.dev, sb.ino)] =
            (seen ++ [e.1]).map FileNode.inode := by
          rw [List.map_append, ← hinode]
          rfl
        have hnone : (link.isSome = false ∧ sb.type = .dir) = (link = none ∧ sb.type = .dir) := by
          rw [Option.isSome_eq_false_iff, Option.isNone_iff_eq_none]
        rw [hseen, ← hplaced.nodeEntry_eq]
        -- the nodes below the entry, if it is a directory
        have hsub : (if link.isSome = false ∧ sb.type = .dir then
              sourceEntries (level + 1) entries ((seen ++ [e.1]).map FileNode.inode)
              else (.nil, (seen ++ [e.1]).map FileNode.inode)) =
            (nodesEntries (if link = none ∧ sb.type = .dir then
                place align (level + 1) e.1.offset self entries (seen ++ [e.1]) e.2
                else (.nil, e.2)).1,
              (seen ++ e.1 :: preorder (if link = none ∧ sb.type = .dir then
                place align (level + 1) e.1.offset self entries (seen ++ [e.1]) e.2
                else (.nil, e.2)).1).map FileNode.inode) := by
          simp only [hnone]
          split
          · rw [ihe, List.append_assoc]
            rfl
          · rfl
        rw [hsub]
        generalize (if link = none ∧ sb.type = .dir then
          place align (level + 1) e.1.offset self entries (seen ++ [e.1]) e.2
          else (.nil, e.2)) = sub
        dsimp only
        rw [ihr level self up (seen ++ e.1 :: preorder sub.1) sub.2]
        simp [nodesEntries, preorder]

/-- The nodes are those of the files. -/
theorem nodes_entries (align : Align) (volname : Name) (src : Source) :
    nodesEntries (nodes align volname src) = src.files := by
  unfold nodes dirnodes dots Source.files
  have hroot : (newnode volname 0).inode = (-1, -1) := rfl
  dsimp only
  cases src.dot with
  | none =>
    have hplace := place_entries align src.entries 1 0 0 [newnode volname 0]
      (spaceneeded (newnode volname 0))
    rw [List.map_singleton, hroot] at hplace
    rw [hplace]
    rfl
  | some dot =>
    obtain ⟨hdot, -⟩ := placeentry_spec align none dotName dot.toFileStat
      (spaceneeded (newnode volname 0))
    dsimp only
    generalize placeentry align none dotName dot.toFileStat (spaceneeded (newnode volname 0)) = e
      at hdot ⊢
    have hinode : e.1.inode = (dot.dev, dot.ino) := by
      rw [FileNode.inode, hdot.dev, hdot.ino]
    cases src.dotdot with
    | none =>
      have hplace := place_entries align src.entries 1 e.1.offset 0 [newnode volname 0, e.1] e.2
      rw [List.map_cons, List.map_singleton, hroot, hinode] at hplace
      dsimp only
      rw [hplace]
      show Entries.cons (nodeEntry e.1) .nil (nodesEntries _) = _
      rw [hdot.nodeEntry_eq]
      rfl
    | some dotdot =>
      obtain ⟨hdotdot, -⟩ :=
        placeentry_spec align (some e.1.offset) dotdotName dotdot.toFileStat e.2
      dsimp only
      generalize placeentry align (some e.1.offset) dotdotName dotdot.toFileStat e.2 = e'
        at hdotdot ⊢
      have hinode' : e'.1.inode = (dotdot.dev, dotdot.ino) := by
        rw [FileNode.inode, hdotdot.dev, hdotdot.ino]
      have hplace := place_entries align src.entries 1 e.1.offset 0 [newnode volname 0, e.1, e'.1]
        e'.2
      rw [List.map_cons, List.map_cons, List.map_singleton, hroot, hinode, hinode'] at hplace
      rw [hplace]
      show Entries.cons (nodeEntry e.1) .nil (.cons (nodeEntry e'.1) .nil (nodesEntries _)) = _
      rw [hdot.nodeEntry_eq, hdotdot.nodeEntry_eq]
      rfl

/-! ## The round trip -/

theorem proper_attach {f t : Nodes} (hf : Proper f) (ht : Proper t) : Proper (attach f 0 t) := by
  induction t with
  | nil => exact hf
  | cons n d r ihd ihr => exact ⟨ht.1, ht.2.1, ihr ht.2.2⟩

theorem place_proper (align : Align) (l : Listing) :
    ∀ (level self up : ℕ) (seen : List FileNode) (cur : ℕ),
      Proper (place align level self up l seen cur).1 := by
  induction l with
  | nil =>
    intro level self up seen cur
    trivial
  | cons dName entry entries rest ihe ihr =>
    intro level self up seen cur
    rw [place.eq_def]
    dsimp only
    split
    · exact ihr ..
    · cases entry with
      | none => exact ihr ..
      | some entry =>
        obtain ⟨name, sb⟩ := entry
        dsimp only
        generalize linkOf seen self up name sb = link
        obtain ⟨hplaced, -⟩ := placeentry_spec align link name sb cur
        refine ⟨fun hne => ?_, ?_, ihr ..⟩
        · rw [hplaced.origLink, hplaced.type]
          split at hne
          · assumption
          · exact absurd rfl hne
        · split
          · exact ihe ..
          · trivial

theorem nodes_proper (align : Align) (volname : Name) (src : Source) :
    Proper (nodes align volname src) := by
  have hdots : Proper (dots align src (spaceneeded (newnode volname 0))).1 := by
    unfold dots
    cases src.dot with
    | none => trivial
    | some dot =>
      cases src.dotdot with
      | none => exact ⟨fun hne => absurd rfl hne, trivial, trivial⟩
      | some dotdot =>
        exact ⟨fun hne => absurd rfl hne, trivial, fun hne => absurd rfl hne, trivial, trivial⟩
  exact proper_attach (place_proper ..) hdots

section

variable {align : Align} {volname : Name} {src : Source} {img : List Byte}

theorem size_le_spaceneeded (n : FileNode) : n.size ≤ spaceneeded n := by
  have hle := le_pad16 n.size
  unfold spaceneeded
  omega

theorem nodes_readable (h : genromfs align volname src = .ok img)
    (hfin : lastoff align volname src < 2 ^ 31) :
    Readable align img (nodes align volname src) where
  proper := nodes_proper align volname src
  shows v hv := by
    have hge := node_offset_ge (visit_mem hv)
    exact shows_of_body (by omega) (body_at h hv)
  placed n hn := dirnodes_wellPlaced hn
  aligned _ hn := node_aligned hn
  bounds n hn := by
    have hge := node_offset_ge hn
    have hend : n.offset + spaceneeded n ≤ lastoff align volname src :=
      ((dirnodes_spec align volname src).1.bounds hn).2
    have hsize := size_le_spaceneeded n
    omega
  ordered := by
    refine (dirnodes_spec align volname src).1.pairwise.imp fun {m n} hmn => ?_
    have hspace := spaceneeded_ge m
    omega

/-- The header of `.` stands behind the volume name, unless a pattern of `-A` matches it. -/
theorem first_offset (align : Align) (volname : Name) {dot : DirStat}
    (hdot : src.dot = some dot) (haligns : dot.aligns = []) :
    nextoffset (nodes align volname src).head? = 16 + pad16 (volname.val.length + 1) := by
  have hspace : spaceneeded (newnode volname 0) = 16 + pad16 (volname.val.length + 1) := by
    simp [spaceneeded, newnode, pad16]
  obtain ⟨hplaced, -⟩ := placeentry_spec align none dotName dot.toFileStat
    (spaceneeded (newnode volname 0))
  have hhead : (nodes align volname src).head? =
      some (placeentry align none dotName dot.toFileStat (spaceneeded (newnode volname 0))).1 := by
    unfold nodes dirnodes dots
    rw [hdot]
    dsimp only
    cases src.dotdot with
    | none => rfl
    | some dotdot => rfl
  rw [hhead, nextoffset]
  generalize (placeentry align none dotName dot.toFileStat _).1 = n at hplaced ⊢
  have hpad : n.pad = 0 := by
    have htype : n.type = .dir := hplaced.type.trans dot.isDir
    have hal : findalign align n = 16 := by
      rw [findalign, hplaced.aligns, haligns, htype]
      rfl
    rw [hplaced.pad, hal, hspace, lead, htype, if_neg (by simp), padding, if_neg]
    unfold pad16
    omega
  rw [hplaced.offset, hpad, hspace]
  rfl

/-- A reader of the format that begins behind the volume name finds in an image of `genromfs`
    the files of the directory that it was made of, with their names, types and contents, in
    the order in which the host lists them. -/
theorem genromfs_readdir (h : genromfs align volname src = .ok img)
    (hfin : (buildtree align volname src).2 < 2 ^ 31) {dot : DirStat} (hdot : src.dot = some dot)
    (haligns : dot.aligns = []) :
    readdir img img.length (16 + pad16 (volname.val.length + 1)) = some src.files := by
  rw [buildtree_eq] at hfin
  have hread := nodes_readable h hfin
  -- the first node is not padded
  have hfirst : nextoffset (nodes align volname src).head? =
      16 + pad16 (volname.val.length + 1) := first_offset align volname hdot haligns
  have hlen : (preorder (nodes align volname src)).length < img.length := by
    have hroom : spaceneeded (newnode volname 0) + 32 * (preorder (nodes align volname src)).length ≤
        lastoff align volname src :=
      (dirnodes_spec align volname src).1.length_le fun n _ => spaceneeded_ge n
    have hspace := spaceneeded_ge (newnode volname 0)
    rw [img_eq h, length_image]
    omega
  rw [← hfirst, ← nodes_entries align volname src]
  exact readdir_eq hread hlen

theorem genromfs_readdir_sample :
    readdir sampleImg sampleImg.length (16 + pad16 (sampleVolume.val.length + 1)) =
      some sampleSource.files := by
  have hfin : (buildtree sampleAlign sampleVolume sampleSource).2 < 2 ^ 31 := by
    rw [buildtree_eq]
    decide
  exact genromfs_readdir sampleImg_eq hfin rfl rfl

/-! ## Hard links -/

/-- Each node that is not called `.` or `..` is a link to the first node before it that is the
    same file of the host, and no link when there is none. -/
def LinksFrom (seen : List FileNode) : List FileNode → Prop
  | [] => True
  | n :: l =>
    (n.name ≠ dotName → n.name ≠ dotdotName →
      n.origLink = (seen.find? fun m => m.inode = n.inode).map FileNode.offset) ∧
      LinksFrom (seen ++ [n]) l

theorem linksFrom_append {seen l l' : List FileNode} :
    LinksFrom seen (l ++ l') ↔ LinksFrom seen l ∧ LinksFrom (seen ++ l) l' := by
  induction l generalizing seen with
  | nil => simp [LinksFrom]
  | cons n l ih =>
    rw [List.cons_append, LinksFrom, LinksFrom, ih, List.append_assoc, List.singleton_append,
      and_assoc]

/-- `.` and `..` are links to a directory and to the one above it. -/
def DotsFrom (self up : ℕ) : Nodes → Prop
  | .nil => True
  | .cons n dirlist rest =>
    (n.name = dotName → n.origLink = some self) ∧ (n.name = dotdotName → n.origLink = some up) ∧
      DotsFrom n.offset self dirlist ∧ DotsFrom self up rest

theorem linkOf_eq (seen : List FileNode) (self up : ℕ) {align : Align} {n : FileNode} {name : Name}
    {sb : FileStat} {cur : ℕ} (h : Placed align n (linkOf seen self up name sb) name sb cur) :
    (n.name = dotName → n.origLink = some self) ∧
      (n.name = dotdotName → n.origLink = some up) ∧
      (n.name ≠ dotName → n.name ≠ dotdotName →
        n.origLink = (seen.find? fun m => m.inode = n.inode).map FileNode.offset) := by
  have hne : dotdotName ≠ dotName := by decide
  rw [h.origLink, h.name]
  unfold linkOf
  refine ⟨fun hdot => if_pos hdot, fun hdotdot => ?_, fun hdot hdotdot => ?_⟩
  · rw [hdotdot, if_neg hne, if_pos rfl]
  · rw [if_neg hdot, if_neg hdotdot]
    simp only [FileNode.inode, Prod.mk.injEq, h.dev, h.ino]

theorem place_links (align : Align) (l : Listing) :
    ∀ (level self up : ℕ) (seen : List FileNode) (cur : ℕ),
      LinksFrom seen (preorder (place align level self up l seen cur).1) ∧
        DotsFrom self up (place align level self up l seen cur).1 := by
  induction l with
  | nil =>
    intro level self up seen cur
    exact ⟨trivial, trivial⟩
  | cons dName entry entries rest ihe ihr =>
    intro level self up seen cur
    rw [place.eq_def]
    dsimp only
    split
    · exact ihr ..
    · cases entry with
      | none => exact ihr ..
      | some entry =>
        obtain ⟨name, sb⟩ := entry
        dsimp only
        obtain ⟨hplaced, -⟩ := placeentry_spec align (linkOf seen self up name sb) name sb cur
        obtain ⟨hdot, hdotdot, hfirst⟩ := linkOf_eq seen self up hplaced
        generalize placeentry align (linkOf seen self up name sb) name sb cur = e at *
        have hsub : ∀ sub : Nodes × ℕ, sub = (if linkOf seen self up name sb = none ∧
              sb.type = .dir then
            place align (level + 1) e.1.offset self entries (seen ++ [e.1]) e.2
            else (.nil, e.2)) →
            LinksFrom (seen ++ [e.1]) (preorder sub.1) ∧ DotsFrom e.1.offset self sub.1 := by
          intro sub hsub
          split at hsub
          · rw [hsub]
            exact ihe ..
          · rw [hsub]
            exact ⟨trivial, trivial⟩
        generalize hs : (if linkOf seen self up name sb = none ∧ sb.type = .dir then
          place align (level + 1) e.1.offset self entries (seen ++ [e.1]) e.2
          else (.nil, e.2)) = sub
        obtain ⟨hlinks, hdots⟩ := hsub sub hs.symm
        obtain ⟨hlinks', hdots'⟩ := ihr level self up (seen ++ e.1 :: preorder sub.1) sub.2
        refine ⟨⟨hfirst, linksFrom_append.mpr ⟨hlinks, ?_⟩⟩, hdot, hdotdot, hdots, hdots'⟩
        rw [List.append_assoc]
        exact hlinks'

/-- The directories of the root directory, with `..` in them. -/
def RootDots (up : ℕ) : Nodes → Prop
  | .nil => True
  | .cons n dirlist rest => DotsFrom n.offset up dirlist ∧ RootDots up rest

theorem DotsFrom.rootDots {self up : ℕ} {t : Nodes} (h : DotsFrom self up t) : RootDots self t := by
  induction t with
  | nil => trivial
  | cons n d r ihd ihr => exact ⟨h.2.2.1, ihr h.2.2.2⟩

theorem rootDots_attach {up : ℕ} {f t : Nodes} (hf : RootDots up f) (ht : RootDots up t) :
    RootDots up (attach f 0 t) := by
  induction t with
  | nil => exact hf
  | cons n d r ihd ihr => exact ⟨ht.1, ihr ht.2⟩

theorem nodes_links (align : Align) (volname : Name) (src : Source) :
    LinksFrom [newnode volname 0] (preorder (nodes align volname src)) ∧
      RootDots (dots align src (spaceneeded (newnode volname 0))).2.2 (nodes align volname src) := by
  unfold nodes dirnodes
  dsimp only
  rw [preorder_attach _ (deep_zero _), linksFrom_append]
  have hplace := place_links align src.entries 1
    (dots align src (spaceneeded (newnode volname 0))).2.2 0
    (newnode volname 0 :: preorder (dots align src (spaceneeded (newnode volname 0))).1)
    (dots align src (spaceneeded (newnode volname 0))).2.1
  refine ⟨⟨?_, hplace.1⟩, rootDots_attach hplace.2.rootDots ?_⟩
  · unfold dots
    cases src.dot with
    | none => trivial
    | some dot =>
      obtain ⟨hdot, -⟩ := placeentry_spec align none dotName dot.toFileStat
        (spaceneeded (newnode volname 0))
      dsimp only
      generalize placeentry align none dotName dot.toFileStat (spaceneeded (newnode volname 0)) = e
        at hdot ⊢
      cases src.dotdot with
      | none => exact ⟨fun hne => absurd hdot.name hne, trivial⟩
      | some dotdot =>
        obtain ⟨hdotdot, -⟩ :=
          placeentry_spec align (some e.1.offset) dotdotName dotdot.toFileStat e.2
        exact ⟨fun hne => absurd hdot.name hne, fun _ hne => absurd hdotdot.name hne, trivial⟩
  · unfold dots
    cases src.dot with
    | none => trivial
    | some dot =>
      cases src.dotdot with
      | none => exact ⟨trivial, trivial⟩
      | some dotdot => exact ⟨trivial, trivial, trivial⟩

/-- A file that is no link is none of the files before it. -/
theorem LinksFrom.new {seen l : List FileNode} (h : LinksFrom seen l) {n : FileNode} (hn : n ∈ l)
    (hdot : n.name ≠ dotName) (hdotdot : n.name ≠ dotdotName) (hnone : n.origLink = none)
    {m : FileNode} (hm : m ∈ seen) : m.inode ≠ n.inode := by
  induction l generalizing seen with
  | nil => exact absurd hn List.not_mem_nil
  | cons c l ih =>
    rcases List.mem_cons.mp hn with rfl | hn
    · have hfind := (h.1 hdot hdotdot).symm.trans hnone
      rw [Option.map_eq_none_iff, List.find?_eq_none] at hfind
      simpa using hfind m hm
    · exact ih h.2 hn (List.mem_append_left _ hm)

theorem LinksFrom.pairwise {seen l : List FileNode} (h : LinksFrom seen l) :
    l.Pairwise fun m n => n.name ≠ dotName → n.name ≠ dotdotName → n.origLink = none →
      m.inode ≠ n.inode := by
  induction l generalizing seen with
  | nil => exact .nil
  | cons c l ih =>
    refine .cons (fun n hn hdot hdotdot hnone => ?_) (ih h.2)
    exact h.2.new hn hdot hdotdot hnone (by simp)

/-- What the `..` of the directories in the root directory links to. -/
theorem dots_owner (align : Align) (volname : Name) (src : Source) :
    (dots align src (spaceneeded (newnode volname 0))).2.2 =
      if src.dot.isSome then nextoffset (nodes align volname src).head? else 0 := by
  unfold nodes dirnodes dots
  cases src.dot with
  | none => rfl
  | some dot =>
    cases src.dotdot with
    | none => rfl
    | some dotdot => rfl

/-- A hard link carries the offset of the first node that is the same file of the host, and
    no file is written twice. In the directories below, `.` is a link to the directory and
    `..` to the one above it, which is the `.` of the root directory. -/
theorem genromfs_links (h : genromfs align volname src = .ok img) {root : FileNode}
    {t rest : Nodes} {fin : ℕ} (ht : buildtree align volname src = (.cons root t rest, fin))
    (hfin : fin < 2 ^ 31) :
    (∀ a n b, preorder t = a ++ n :: b → n.name ≠ dotName → n.name ≠ dotdotName →
      n.origLink = ((root :: a).find? fun m => m.inode = n.inode).map FileNode.offset) ∧
      (∀ n ∈ preorder t, n.offset < 2 ^ 31 ∧ ∀ link, n.origLink = some link →
        wordAt img (n.offset + 4) = BitVec.ofNat 32 link) ∧
      ((preorder t).Pairwise fun m n => n.name ≠ dotName → n.name ≠ dotdotName →
        n.origLink = none → m.inode ≠ n.inode) ∧
      RootDots (if src.dot.isSome then nextoffset t.head? else 0) t := by
  have hroot : root = newnode volname 0 := by
    rw [buildtree_eq] at ht
    exact (Nodes.cons.inj (Prod.mk.inj ht).1).1.symm
  obtain ⟨rfl, rfl⟩ := buildtree_inj ht
  obtain ⟨hlinks, hdots⟩ := nodes_links align volname src
  refine ⟨fun a n b hsplit hdot hdotdot => ?_, fun n hn => ⟨?_, fun link hlink => ?_⟩,
    hlinks.pairwise, ?_⟩
  · rw [hsplit, linksFrom_append] at hlinks
    rw [hroot]
    exact hlinks.2.1 hdot hdotdot
  · have hend : n.offset + spaceneeded n ≤ lastoff align volname src :=
      ((dirnodes_spec align volname src).1.bounds hn).2
    omega
  · rw [← map_visits] at hn
    obtain ⟨v, hv, rfl⟩ := List.mem_map.mp hn
    have hge := node_offset_ge (visit_mem hv)
    rw [(shows_of_body (by omega) (body_at h hv)).spec]
    show nodespec v.node v.child = _
    unfold nodespec
    rw [hlink]
  · rw [← dots_owner align volname src]
    exact hdots

/-- The `echo` in `a` is a link to the other one. -/
theorem genromfs_links_sample :
    ∃ n ∈ preorder (nodes sampleAlign sampleVolume sampleSource),
      n.name = sampleName ∧ wordAt sampleImg (n.offset + 4) = 96 := by
  obtain ⟨n, hn, hname, hlink⟩ : ∃ n ∈ preorder (nodes sampleAlign sampleVolume sampleSource),
      n.name = sampleName ∧ n.origLink = some 96 := by
    decide
  exact ⟨n, hn, hname,
    ((genromfs_links sampleImg_eq (buildtree_eq ..) (by decide)).2.1 n hn).2 96 hlink⟩

end

end Genromfs

end SimpleOs
