import SimpleOs.Fs.Image
import SimpleOs.Lib.WordSum

/-!
# genromfs

Model of others/genromfs.c, the program that writes the romfs images. `processdir` reads a
directory tree and gives every file its offset (lines 489-683); `dumpall` writes the nodes
that it has built, in the same order (lines 217-418).

What the program asks the host for is its input: the entries of the directories in the order
in which `readdir` yields them, the result of `lstat` and the contents of the files. Offsets
and sizes are natural numbers here and words in the image. The program has them in `int`s, so
that it does what the model does as long as `lastoff` is less than `2 ^ 31`; behind that
`curroffset`, `atoffs` and the `max` of `dumpnode` overflow.
-/

namespace SimpleOs

namespace Genromfs

open ByteMem WordSum

/-! ## The directory -/

/-- The types of a file that `S_ISREG` and the like tell apart. -/
inductive FileType where
  | dir | reg | lnk | chr | blk | fifo | sock
  deriving DecidableEq

/-- A string of the host, without its terminator. -/
abbrev Name := {s : List Byte // 0 ∉ s}

/-- `.` and `..`. -/
def dotName : Name := ⟨[0x2e], by decide⟩
def dotdotName : Name := ⟨[0x2e, 0x2e], by decide⟩

/-- An alignment that `main` accepts (lines 737-750). -/
structure Align where
  val : ℕ
  accepted : ¬ (val < 16 ∨ val &&& (val - 1) ≠ 0)

/-- The alignment of a header. -/
def Align.header : Align := ⟨16, by decide⟩

/-- What the host knows about a file: the members of `struct stat` that are used, what
    `read` or `readlink` give later on, and the alignments of the `-A` patterns that
    `nodematch` finds to match it, in the order of the list. -/
structure FileStat where
  dev : BitVec 64
  ino : BitVec 64
  type : FileType
  exec : Bool
  major : BitVec 32
  minor : BitVec 32
  size : ℕ
  contents : List Byte
  aligns : List Align

/-- What the host knows about a directory. -/
structure DirStat extends FileStat where
  isDir : type = .dir

/-- What `readdir` yields for a directory: `d_name`, the name and the `stat` with which the
    entry gets to line 634, if it is not ignored before, and what is below it. -/
inductive Listing where
  | nil
  | cons (dName : Name) (entry : Option (Name × FileStat)) (entries rest : Listing)

/-- The directory that the image is made of: what `lstat` says about its `.` and `..`, and
    its entries. -/
structure Source where
  dot : Option DirStat
  dotdot : Option DirStat
  entries : Listing

/-! ## The nodes -/

/-- `struct filenode`. The pointer `orig_link` is the offset of the node that it points to,
    which is final before the link is made. -/
structure FileNode where
  name : Name
  onDev : BitVec 64
  onIno : BitVec 64
  type : FileType
  exec : Bool
  major : BitVec 32
  minor : BitVec 32
  origLink : Option ℕ
  offset : ℕ
  size : ℕ
  pad : ℕ
  contents : List Byte
  aligns : List Align

/-- Nodes linked by `next`, each with its `dirlist`. -/
inductive Nodes where
  | nil
  | cons (n : FileNode) (dirlist rest : Nodes)

/-- The node at the head of a list (`listisempty`). -/
def Nodes.head? : Nodes → Option FileNode
  | .nil => none
  | .cons n _ _ => some n

/-- `append` (lines 153-160). Directories are read depth first, so that the list is that of
    the last node `level` levels down. -/
def append (n : FileNode) : ℕ → Nodes → Nodes
  | 0, .nil => .cons n .nil .nil
  | 0, .cons m dirlist rest => .cons m dirlist (append n 0 rest)
  | _ + 1, .nil => .nil
  | level + 1, .cons m dirlist .nil => .cons m (append n level dirlist) .nil
  | level + 1, .cons m dirlist (.cons m' dirlist' rest) =>
    .cons m dirlist (append n (level + 1) (.cons m' dirlist' rest))

/-- `newnode` (lines 434-487); the modes are written before they are read. -/
def newnode (name : Name) (curroffset : ℕ) : FileNode where
  name := name
  onDev := -1
  onIno := -1
  type := .dir
  exec := true
  major := 0
  minor := 0
  origLink := none
  offset := curroffset
  size := 0
  pad := 0
  contents := []
  aligns := []

/-- `setnode` (lines 427-432). -/
def setnode (n : FileNode) (sb : FileStat) : FileNode :=
  { n with
    onDev := sb.dev, onIno := sb.ino, type := sb.type, exec := sb.exec
    contents := sb.contents, aligns := sb.aligns }

/-- `findnode` (lines 489-504), of a list of nodes. -/
def findnode (dev ino : BitVec 64) : Nodes → Option FileNode
  | .nil => none
  | .cons n dirlist rest =>
    if n.onDev = dev ∧ n.onIno = ino then some n
    else match findnode dev ino dirlist with
      | some found => some found
      | none => findnode dev ino rest

/-- `findalign` (lines 201-215). -/
def findalign (align : Align) (n : FileNode) : ℕ :=
  n.aligns.foldl (fun i pa => if i < pa.val then pa.val else i)
    (if n.type = .reg then align.val else 16)

/-- `spaceneeded` (lines 508-511). -/
def spaceneeded (n : FileNode) : ℕ := 16 + pad16 (n.name.val.length + 1) + pad16 n.size

/-- `alignnode` (lines 513-525): the node and the new `curroffset`. -/
def alignnode (align : Align) (n : FileNode) (curroffset extraspace : ℕ) : FileNode × ℕ :=
  let al := findalign align n
  let d := (curroffset + extraspace) &&& (al - 1)
  if d ≠ 0 then
    ({ n with offset := n.offset + (al - d), pad := al - d }, curroffset + (al - d))
  else (n, curroffset)

/-! ## `processdir` -/

/-- A link to the node at `link` (lines 653-657). -/
def placelink (align : Align) (n : FileNode) (link curroffset : ℕ) : FileNode × ℕ :=
  let (n, curroffset) := alignnode align { n with origLink := some link } curroffset 0
  (n, curroffset + spaceneeded n)

/-- A file that is new (lines 658-669). -/
def placefile (align : Align) (n : FileNode) (sb : FileStat) (curroffset : ℕ) : FileNode × ℕ :=
  let (n, curroffset) :=
    alignnode align n curroffset (if sb.type = .reg then spaceneeded n else 0)
  let n := if sb.type = .reg ∨ sb.type = .lnk then { n with size := sb.size } else n
  let curroffset := curroffset + spaceneeded n
  let n := if sb.type = .chr ∨ sb.type = .blk then { n with major := sb.major, minor := sb.minor }
    else n
  (n, curroffset)

/-- The loop of `processdir` over the entries of a directory (lines 566-680), which adds to
    the tree. `self` and `up` are the offsets of `n->parent` and `n->parent->parent`. -/
def processdir (align : Align) (level self up : ℕ) : Listing → Nodes → ℕ → Nodes × ℕ
  | .nil, root, curroffset => (root, curroffset)
  | .cons dName entry entries rest, root, curroffset =>
    if level ≤ 1 ∧ (dName = dotName ∨ dName = dotdotName) then
      processdir align level self up rest root curroffset
    else match entry with
    | none => processdir align level self up rest root curroffset
    | some (name, sb) =>
      let n := setnode (newnode name curroffset) sb
      let link :=
        if name = dotName then some self
        else if name = dotdotName then some up
        else (findnode sb.dev sb.ino root).map FileNode.offset
      match link with
      | some link =>
        let (n, curroffset) := placelink align n link curroffset
        processdir align level self up rest (append n level root) curroffset
      | none =>
        let (n, curroffset) := placefile align n sb curroffset
        let root := append n level root
        let (root, curroffset) :=
          if sb.type = .dir then processdir align (level + 1) n.offset self entries root curroffset
          else (root, curroffset)
        processdir align level self up rest root curroffset

/-- The first lines of `processdir` for the directory itself (lines 535-560), which put `.`
    and `..` in front: the tree, `curroffset` and the offset of `dir->dirlist.owner`. -/
def adddots (align : Align) (src : Source) (root : Nodes) (curroffset : ℕ) : Nodes × ℕ × ℕ :=
  match src.dot with
  | none => (root, curroffset, 0)
  | some sb =>
    let link := setnode (newnode dotName curroffset) sb.toFileStat
    let (link, curroffset) := alignnode align link curroffset 0
    let curroffset := curroffset + spaceneeded link
    let root := append link 1 root
    match src.dotdot with
    | none => (root, curroffset, link.offset)
    | some sb =>
      let n := setnode (newnode dotdotName curroffset) sb.toFileStat
      let (n, curroffset) := placelink align n link.offset curroffset
      (append n 1 root, curroffset, link.offset)

/-- The tree that `main` builds (lines 804-806), and `lastoff`. -/
def buildtree (align : Align) (volname : Name) (src : Source) : Nodes × ℕ :=
  let root := newnode volname 0
  let (t, curroffset, owner) := adddots align src (.cons root .nil .nil) (spaceneeded root)
  processdir align 1 owner 0 src.entries t curroffset

/-! ## Checksums -/

/-- The loop of `romfs_checksum`. -/
def romfsChecksumLoop : ℕ → List Byte → BitVec 32 → BitVec 32
  | 0, _, sum => sum
  | size + 1, ptr, sum => romfsChecksumLoop size (ptr.drop 4) (sum + firstWord ptr)

/-- `romfs_checksum` (lines 217-229). -/
def romfsChecksum (data : List Byte) (size : ℕ) : BitVec 32 := romfsChecksumLoop (size / 4) data 0

/-- `fixsum` (lines 231-235); the checksum is the fourth word of `struct romfh`. -/
def fixsum (ri : List Byte) (size : ℕ) : List Byte :=
  setWord 12 (-romfsChecksum (setWord 12 0 ri) size) (setWord 12 0 ri)

/-! ## Dumping -/

/-- The output: what has been copied to `fixbuf`, `atoffs` and the file. -/
structure Dump where
  fixbuf : List Byte
  atoffs : ℕ
  file : List Byte

/-- `sizeof(bigbuf)`. -/
abbrev bigbufSize : ℕ := 4096

/-- `dumpdata` (lines 237-265). -/
def dumpdata (data : List Byte) (f : Dump) : Dump :=
  if data.length = 0 then f
  else if 512 ≤ f.atoffs then { f with atoffs := f.atoffs + data.length, file := f.file ++ data }
  else
    let tocopy := if data.length < 512 - f.atoffs then data.length else 512 - f.atoffs
    let fixbuf := f.fixbuf ++ data.take tocopy
    let atoffs := f.atoffs + tocopy
    let data := data.drop tocopy
    let size := (firstWord (fixbuf.drop 8)).toNat
    let fixbuf := if atoffs = 512 then fixsum fixbuf (if 512 < size then 512 else size) else fixbuf
    let file := if atoffs = 512 then f.file ++ fixbuf else f.file
    if data.length ≠ 0 then ⟨fixbuf, atoffs + data.length, file ++ data⟩
    else ⟨fixbuf, atoffs, file⟩

/-- `dumpzero` (lines 267-271): the zeros are written to `bigbuf` first. -/
def dumpzero (len : ℕ) (f : Dump) : Except Fault Dump :=
  if len ≤ bigbufSize then .ok (dumpdata (List.replicate len 0) f) else .error .overrun

/-- `struct romfh`, in the byte order of the host. -/
structure RomFh where
  nextfh : BitVec 32
  spec : BitVec 32
  size : BitVec 32
  checksum : BitVec 32

/-- The header as it stands in memory. -/
def RomFh.bytes (ri : RomFh) : List Byte :=
  wordBytes ri.nextfh ++ wordBytes ri.spec ++ wordBytes ri.size ++ wordBytes ri.checksum

/-- `dumpri` (lines 285-308); `bigbuf` takes the header and the padded name. -/
def dumpri (ri : RomFh) (n : FileNode) (f : Dump) : Except Fault Dump :=
  let len := n.name.val.length + 1
  let fill := if len % 16 ≠ 0 then 16 - len % 16 else 0
  let bigbuf := ri.bytes ++ n.name.val ++ [0] ++ List.replicate fill 0
  if bigbuf.length ≤ bigbufSize then
    .ok (dumpdata (if n.offset ≠ 0 then fixsum bigbuf bigbuf.length else bigbuf) f)
  else .error .overrun

/-- The loop that copies a file (lines 360-367): `rest` is what there is still to read, and
    `offset` what has been written. -/
def dumpcontents (max : ℕ) : ℕ → List Byte → ℕ → Dump → ℕ × Dump
  | 0, _, offset, f => (offset, f)
  | fuel + 1, rest, offset, f =>
    if offset < max then
      let avail := if max - offset < bigbufSize then max - offset else bigbufSize
      let buf := rest.take avail
      if buf.length = 0 then (offset, f)
      else dumpcontents max fuel (rest.drop avail) (offset + buf.length) (dumpdata buf f)
    else (offset, f)

/-- The loop that fills it up (lines 371-376). -/
def dumpfill (max : ℕ) : ℕ → ℕ → Dump → Dump
  | 0, _, f => f
  | fuel + 1, offset, f =>
    if offset < max then
      let avail := if max - offset < bigbufSize then max - offset else bigbufSize
      dumpfill max fuel (offset + avail) (dumpdata (List.replicate avail 0) f)
    else f

/-- A regular file (lines 348-376). -/
def dumpfile (n : FileNode) (f : Dump) : Dump :=
  let (offset, f) := dumpcontents n.size n.size n.contents 0 f
  dumpfill (pad16 n.size) (pad16 n.size) offset f

/-- The target of a symbolic link (lines 344-346): `readlink` writes up to `size` bytes to
    `bigbuf`, and `dumpdataa` (lines 273-278) writes `size` bytes from there. -/
def dumplink (n : FileNode) (f : Dump) : Except Fault Dump :=
  if n.size ≤ bigbufSize then
    let bigbuf := n.contents.take n.size ++ List.replicate (n.size - n.contents.length) 0
    let f := dumpdata bigbuf f
    if n.size % 16 ≠ 0 then dumpzero (16 - n.size % 16) f else .ok f
  else .error .overrun

/-- `ROMFH_DIR` and the like. -/
def FileType.romfh : FileType → BitVec 32
  | .dir => 1
  | .reg => 2
  | .lnk => 3
  | .blk => 4
  | .chr => 5
  | .sock => 6
  | .fifo => 7

/-- The offset of the node behind a node (lines 315, 321-322). -/
def nextoffset : Option FileNode → ℕ
  | some next => next.offset
  | none => 0

/-- The word `spec` of a node, with `child` the first node of its `dirlist` (lines 327-390). -/
def nodespec (n : FileNode) (child : Option FileNode) : BitVec 32 :=
  match n.origLink, n.type, child with
  | some link, _, _ => BitVec.ofNat 32 link
  | none, .dir, some child => BitVec.ofNat 32 child.offset
  | none, .dir, none => BitVec.ofNat 32 n.offset
  | none, .chr, _ => n.major <<< 16 ||| n.minor
  | none, .blk, _ => n.major <<< 16 ||| n.minor
  | none, _, _ => 0

/-- The header of a node in front of the node `next` (lines 315-338). `ROMFH_HRD` is 0 and
    `ROMFH_EXEC` is 8. -/
def nodeheader (n : FileNode) (child next : Option FileNode) : RomFh :=
  let nextfh := BitVec.ofNat 32 (nextoffset next)
  let nextfh := if n.exec ∧ (n.type = .dir ∨ n.type = .reg) then nextfh ||| 8 else nextfh
  { nextfh := if n.origLink.isSome then nextfh &&& ~~~8 else nextfh ||| n.type.romfh
    spec := nodespec n child
    size := BitVec.ofNat 32 n.size
    checksum := 0x55555555 }

/-- The fill in front of a node (lines 319-320). -/
def dumppad (n : FileNode) (f : Dump) : Except Fault Dump :=
  if n.pad ≠ 0 then dumpzero n.pad f else .ok f

/-- `dumpnode` (lines 310-391), without the nodes below. -/
def dumpnode (n : FileNode) (child next : Option FileNode) (f : Dump) : Except Fault Dump := do
  let f ← dumppad n f
  let f ← dumpri (nodeheader n child next) n f
  match n.origLink, n.type with
  | none, .lnk => dumplink n f
  | none, .reg => .ok (dumpfile n f)
  | _, _ => .ok f

/-- The loop over a list of nodes, each with the nodes below it (lines 393-397, 410-414). -/
def dumpnodes : Nodes → Dump → Except Fault Dump
  | .nil, f => .ok f
  | .cons n dirlist rest, f => do
    let f ← dumpnode n dirlist.head? rest.head? f
    let f ← dumpnodes dirlist f
    dumpnodes rest f

/-- `dumpall` (lines 400-418). -/
def dumpall (root : FileNode) (dirlist : Nodes) (lastoff : ℕ) (f : Dump) : Except Fault Dump := do
  let f ← dumpri ⟨0x2d726f6d, 0x3166732d, BitVec.ofNat 32 lastoff, 0x55555555⟩ root f
  let f ← dumpnodes dirlist f
  if lastoff % 1024 ≠ 0 then dumpzero (1024 - lastoff % 1024) f else .ok f

/-- `main` (lines 803-811): the file that it writes. -/
def genromfs (align : Align) (volname : Name) (src : Source) : Except Fault (List Byte) := do
  match buildtree align volname src with
  | (.cons root dirlist _, lastoff) =>
    let f ← dumpall root dirlist lastoff ⟨[], 0, []⟩
    .ok f.file
  | (.nil, _) => .ok []

/-! ## A directory

The volume `rom` with a file `echo`, whose contents are to stand at a multiple of 64, and a
directory `a` that holds a hard link to it. -/

def sampleAlign : Align := ⟨16, by decide⟩

def sampleVolume : Name := ⟨romName, by decide⟩
def sampleName : Name := ⟨echoName, by decide⟩

def sampleDir (ino : BitVec 64) : FileStat := ⟨1, ino, .dir, true, 0, 0, 4096, [], []⟩

def sampleFile : FileStat :=
  ⟨1, 11, .reg, true, 0, 0, 4, [0x90, 0x90, 0xeb, 0xfe], [⟨64, by decide⟩]⟩

/-- What is in `a`. -/
def sampleEntries : Listing :=
  .cons dotName (some (dotName, sampleDir 12)) .nil <|
  .cons dotdotName (some (dotdotName, sampleDir 10)) .nil <|
  .cons sampleName (some (sampleName, sampleFile)) .nil .nil

def sampleSource : Source where
  dot := some ⟨sampleDir 10, rfl⟩
  dotdot := some ⟨sampleDir 9, rfl⟩
  entries :=
    .cons dotName none .nil <|
    .cons sampleName (some (sampleName, sampleFile)) .nil <|
    .cons ⟨[0x61], by decide⟩ (some (⟨[0x61], by decide⟩, sampleDir 12)) sampleEntries .nil

end Genromfs

end SimpleOs
