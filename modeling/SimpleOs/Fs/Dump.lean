import SimpleOs.Fs.Placement

/-!
# What genromfs writes

The image goes through `dumpdata`, which holds back the first 512 bytes until their checksum
is known. `after raw` is the state behind the output of `raw`, so that each function of the
dump appends its own bytes, and the image is what all of them append, with the checksum of the
superblock in its place.

* `fixsum_checksum`: a checksum makes the sum 0.
* `dumpdata_after`: the buffer does not show.
* `genromfs_eq`: the image, and when it is not written because `bigbuf` is too small.
-/

namespace SimpleOs

namespace Genromfs

open ByteMem WordSum Layout

/-! ## Checksums -/

theorem romfsChecksumLoop_eq (n : ℕ) (l : List Byte) (s : BitVec 32) :
    romfsChecksumLoop n l s = s + wordSum (l.take (4 * n)) := by
  induction n generalizing l s with
  | zero =>
    rw [romfsChecksumLoop, Nat.mul_zero, List.take_zero]
    exact (BitVec.add_zero s).symm
  | succ n ih =>
    rw [romfsChecksumLoop, ih, show 4 * (n + 1) = 4 * n + 4 by omega]
    -- a rest of less than a word counts for nothing
    match l with
    | b3 :: b2 :: b1 :: b0 :: l => simp [firstWord, wordSum, BitVec.add_assoc]
    | [] => simp [firstWord, wordSum]
    | [_] => simp [firstWord, wordSum]
    | [_, _] => simp [firstWord, wordSum]
    | [_, _, _] => simp [firstWord, wordSum]

theorem romfsChecksum_eq (l : List Byte) (size : ℕ) :
    romfsChecksum l size = wordSum (l.take (4 * (size / 4))) := by
  rw [romfsChecksum, romfsChecksumLoop_eq]
  exact BitVec.zero_add _

theorem fixsum_eq {ri : List Byte} (h : 16 ≤ ri.length) (size : ℕ) :
    fixsum ri size = setWord 12 (-romfsChecksum (setWord 12 0 ri) size) ri := by
  have hlen : 12 + 4 ≤ ri.length := h
  rw [fixsum]
  conv_lhs => rw [setWord]
  rw [take_setWord _ (Nat.le_refl _) hlen, drop_setWord _ (Nat.le_refl _) hlen]
  rfl

@[simp] theorem length_fixsum {ri : List Byte} (h : 16 ≤ ri.length) (size : ℕ) :
    (fixsum ri size).length = ri.length := by
  rw [fixsum_eq h, length_setWord _ h]

/-- The checksum makes the sum 0, for every size that takes it in. -/
theorem fixsum_checksum {ri : List Byte} {size : ℕ} (hsize : 16 ≤ size)
    (h : size ≤ ri.length) : romfsChecksum (fixsum ri size) size = 0 := by
  rw [fixsum_eq (by omega), romfsChecksum_eq, romfsChecksum_eq]
  exact wordSum_seal (by omega) (by omega) (by omega)

/-! ## The buffer -/

/-- The first 512 bytes with their checksum. -/
def flushed (fixbuf : List Byte) : List Byte :=
  fixsum fixbuf (if 512 < (firstWord (fixbuf.drop 8)).toNat then 512
    else (firstWord (fixbuf.drop 8)).toNat)

/-- The state behind the output of `raw`. -/
def after (raw : List Byte) : Dump :=
  if raw.length < 512 then ⟨raw, raw.length, []⟩
  else ⟨flushed (raw.take 512), raw.length, flushed (raw.take 512) ++ raw.drop 512⟩

theorem dumpdata_after (raw data : List Byte) : dumpdata data (after raw) = after (raw ++ data) := by
  unfold dumpdata
  by_cases hnil : data.length = 0
  · rw [if_pos hnil, List.eq_nil_of_length_eq_zero hnil, List.append_nil]
  · rw [if_neg hnil]
    by_cases hraw : raw.length < 512
    · have hafter : after raw = ⟨raw, raw.length, []⟩ := if_pos hraw
      rw [hafter, if_neg (show ¬ 512 ≤ raw.length by omega)]
      dsimp only
      by_cases hfit : data.length < 512 - raw.length
      · -- the buffer is not full yet
        have hlen : (raw ++ data).length < 512 := by
          rw [List.length_append]
          omega
        rw [if_pos hfit, List.take_length, List.drop_length, after, if_pos hlen,
          if_neg (show ¬ raw.length + data.length = 512 by omega), List.length_append,
          if_neg (show ¬ ([] : List Byte).length ≠ 0 by simp),
          if_neg (show ¬ raw.length + data.length = 512 by omega)]
      · have hlen : ¬ (raw ++ data).length < 512 := by
          rw [List.length_append]
          omega
        have htake : (raw ++ data).take 512 = raw ++ data.take (512 - raw.length) := by
          rw [List.take_append, List.take_of_length_le (by omega)]
        have hdrop : (raw ++ data).drop 512 = data.drop (512 - raw.length) := by
          rw [List.drop_append, List.drop_eq_nil_of_le (by omega), List.nil_append]
        rw [if_neg hfit, if_pos (show raw.length + (512 - raw.length) = 512 by omega),
          if_pos (show raw.length + (512 - raw.length) = 512 by omega), after, if_neg hlen,
          htake, hdrop, ← flushed, List.nil_append, List.length_append]
        split
        · rename_i hrest
          rw [List.length_drop] at hrest ⊢
          congr 1
          omega
        · rename_i hrest
          rw [not_not, List.length_drop] at hrest
          rw [List.drop_eq_nil_of_le (by omega), List.append_nil]
          congr 1
          omega
    · have hafter : after raw =
          ⟨flushed (raw.take 512), raw.length, flushed (raw.take 512) ++ raw.drop 512⟩ :=
        if_neg hraw
      have hlen : ¬ (raw ++ data).length < 512 := by
        rw [List.length_append]
        omega
      rw [hafter, if_pos (show 512 ≤ raw.length by omega), after, if_neg hlen,
        List.take_append_of_le_length (by omega), List.drop_append_of_le_length (by omega),
        List.length_append, List.append_assoc]

/-! ## Nodes -/

theorem dumpzero_after {len : ℕ} (h : len ≤ bigbufSize) (raw : List Byte) :
    dumpzero len (after raw) = .ok (after (raw ++ List.replicate len 0)) := by
  rw [dumpzero, if_pos h, dumpdata_after]

theorem le_pad16 (n : ℕ) : n ≤ pad16 n := by
  unfold pad16
  omega

/-- A header and its name, padded. -/
def headerBytes (ri : RomFh) (n : FileNode) : List Byte :=
  let b := ri.bytes ++ n.name.val ++
    List.replicate (pad16 (n.name.val.length + 1) - n.name.val.length) 0
  if n.offset ≠ 0 then fixsum b b.length else b

@[simp] theorem RomFh.length_bytes (ri : RomFh) : ri.bytes.length = 16 := rfl

theorem length_headerBytes (ri : RomFh) (n : FileNode) :
    (headerBytes ri n).length = 16 + pad16 (n.name.val.length + 1) := by
  have hle := le_pad16 (n.name.val.length + 1)
  unfold headerBytes
  split
  · rw [length_fixsum]
    all_goals simp
    omega
  · simp
    omega

/-- A name that `bigbuf` has room for, behind the header. -/
def NameFits (n : FileNode) : Prop := 16 + pad16 (n.name.val.length + 1) ≤ bigbufSize

instance (n : FileNode) : Decidable (NameFits n) := inferInstanceAs (Decidable (_ ≤ _))

theorem dumpri_after (ri : RomFh) (n : FileNode) (raw : List Byte) :
    dumpri ri n (after raw) =
      if NameFits n then .ok (after (raw ++ headerBytes ri n)) else .error .overrun := by
  have hfill : ([0] : List Byte) ++ List.replicate (if (n.name.val.length + 1) % 16 ≠ 0 then
      16 - (n.name.val.length + 1) % 16 else 0) 0 =
      List.replicate (pad16 (n.name.val.length + 1) - n.name.val.length) 0 := by
    rw [← List.replicate_one, List.replicate_append_replicate]
    congr 1
    unfold pad16
    split
    · omega
    · omega
  have hle := le_pad16 (n.name.val.length + 1)
  unfold dumpri
  dsimp only
  rw [List.append_assoc _ [0], hfill, dumpdata_after]
  have hlen : (ri.bytes ++ n.name.val ++ List.replicate
      (pad16 (n.name.val.length + 1) - n.name.val.length) 0).length =
      16 + pad16 (n.name.val.length + 1) := by
    simp
    omega
  unfold headerBytes
  dsimp only
  rw [hlen]
  rfl

/-- The contents of a file or the target of a link, padded. -/
def paddedContents (n : FileNode) : List Byte :=
  n.contents.take n.size ++ List.replicate (pad16 n.size - min n.size n.contents.length) 0

theorem length_paddedContents (n : FileNode) : (paddedContents n).length = pad16 n.size := by
  have hle := le_pad16 n.size
  rw [paddedContents, List.length_append, List.length_take, List.length_replicate]
  omega

theorem dumpcontents_after (max : ℕ) {fuel : ℕ} (rest : List Byte) {offset : ℕ} (raw : List Byte)
    (hle : offset ≤ max) (hfuel : max ≤ offset + fuel) :
    dumpcontents max fuel rest offset (after raw) =
      (offset + min (max - offset) rest.length, after (raw ++ rest.take (max - offset))) := by
  induction fuel generalizing rest offset raw with
  | zero => simp [dumpcontents, show max - offset = 0 by omega]
  | succ fuel ih =>
    rw [dumpcontents]
    by_cases hlt : offset < max
    · rw [if_pos hlt]
      dsimp only
      -- how much is read at once does not matter
      generalize havail : (if max - offset < bigbufSize then max - offset else bigbufSize) = avail
      have hpos : 0 < avail ∧ avail ≤ max - offset := by
        rw [← havail]
        split
        · omega
        · unfold bigbufSize at *
          omega
      have hlen : (rest.take avail).length = min avail rest.length := List.length_take
      by_cases hnil : (rest.take avail).length = 0
      · have hrest : rest = [] := List.eq_nil_of_length_eq_zero (by omega)
        rw [if_pos hnil, hrest]
        simp
      · rw [if_neg hnil, dumpdata_after, hlen]
        by_cases hshort : rest.length ≤ avail
        · -- the last read
          rw [List.drop_eq_nil_of_le hshort, List.take_of_length_le hshort,
            List.take_of_length_le (by omega), Nat.min_eq_right hshort,
            Nat.min_eq_right (by omega), ih _ _ (by omega) (by omega)]
          simp
        · have htake : rest.take (max - offset) =
              rest.take avail ++ (rest.drop avail).take (max - offset - avail) := by
            rw [← List.take_add]
            congr 1
            omega
          rw [Nat.min_eq_left (by omega), ih _ _ (by omega) (by omega), htake,
            List.append_assoc, List.length_drop, Nat.sub_add_eq]
          congr 1
          omega
    · rw [if_neg hlt]
      simp [show max - offset = 0 by omega]

theorem dumpfill_after (max : ℕ) {fuel offset : ℕ} (raw : List Byte)
    (hfuel : max ≤ offset + fuel) :
    dumpfill max fuel offset (after raw) = after (raw ++ List.replicate (max - offset) 0) := by
  induction fuel generalizing offset raw with
  | zero => simp [dumpfill, show max - offset = 0 by omega]
  | succ fuel ih =>
    rw [dumpfill]
    by_cases hlt : offset < max
    · rw [if_pos hlt]
      dsimp only
      generalize havail : (if max - offset < bigbufSize then max - offset else bigbufSize) = avail
      have hpos : 0 < avail ∧ avail ≤ max - offset := by
        rw [← havail]
        split
        · omega
        · unfold bigbufSize at *
          omega
      rw [dumpdata_after, ih _ (by omega), List.append_assoc, List.replicate_append_replicate,
        show avail + (max - (offset + avail)) = max - offset by omega]
    · rw [if_neg hlt]
      simp [show max - offset = 0 by omega]

theorem dumpfile_after (n : FileNode) (raw : List Byte) :
    dumpfile n (after raw) = after (raw ++ paddedContents n) := by
  unfold dumpfile
  rw [dumpcontents_after _ _ _ (Nat.zero_le _) (by omega)]
  dsimp only
  rw [dumpfill_after _ _ (by omega), paddedContents, List.append_assoc]
  simp

theorem dumplink_after (n : FileNode) (raw : List Byte) :
    dumplink n (after raw) = if n.size ≤ bigbufSize then .ok (after (raw ++ paddedContents n))
      else .error .overrun := by
  unfold dumplink
  by_cases h : n.size ≤ bigbufSize
  · rw [if_pos h, if_pos h]
    dsimp only
    rw [dumpdata_after]
    by_cases hmod : n.size % 16 ≠ 0
    · rw [if_pos hmod, dumpzero_after (by unfold bigbufSize; omega), paddedContents]
      simp only [List.append_assoc, List.replicate_append_replicate]
      congr 5
      unfold pad16
      omega
    · rw [if_neg hmod, paddedContents]
      congr 5
      unfold pad16
      omega
  · rw [if_neg h, if_neg h]

/-- A node with what its header is made of. -/
structure Visit where
  node : FileNode
  child : Option FileNode
  next : Option FileNode

/-- The nodes in the order of the dump. -/
def visits : Nodes → List Visit
  | .nil => []
  | .cons n dirlist rest => ⟨n, dirlist.head?, rest.head?⟩ :: (visits dirlist ++ visits rest)

theorem map_visits (t : Nodes) : (visits t).map Visit.node = preorder t := by
  induction t with
  | nil => rfl
  | cons n dirlist rest ihd ihr => simp [visits, preorder, ihd, ihr]

/-- What stands behind the header of a node. -/
def nodeData (n : FileNode) : List Byte :=
  if n.origLink = none ∧ (n.type = .reg ∨ n.type = .lnk) then paddedContents n else []

/-- What is written for a node, behind its padding. -/
def Visit.body (v : Visit) : List Byte :=
  headerBytes (nodeheader v.node v.child v.next) v.node ++ nodeData v.node

theorem WellPlaced.length_body {align : Align} {v : Visit} (h : WellPlaced align v.node) :
    v.body.length = spaceneeded v.node := by
  rw [Visit.body, List.length_append, length_headerBytes, spaceneeded, nodeData]
  by_cases hc : v.node.origLink = none ∧ (v.node.type = .reg ∨ v.node.type = .lnk)
  · rw [if_pos hc, length_paddedContents]
  · have hsize : v.node.size = 0 := by
      by_contra hne
      exact hc (h.sized hne)
    rw [if_neg hc, hsize]
    rfl

/-- `bigbuf` is large enough for what is put together there for a node. -/
def Fits (n : FileNode) : Prop :=
  n.pad ≤ bigbufSize ∧ NameFits n ∧
    (n.origLink = none → n.type = .lnk → n.size ≤ bigbufSize)

instance (n : FileNode) : Decidable (Fits n) := inferInstanceAs (Decidable (_ ∧ _ ∧ (_ → _ → _)))

theorem dumppad_after (n : FileNode) (raw : List Byte) :
    dumppad n (after raw) = if n.pad ≤ bigbufSize then
      .ok (after (raw ++ List.replicate n.pad 0)) else .error .overrun := by
  unfold dumppad
  by_cases h0 : n.pad ≠ 0
  · rw [if_pos h0, dumpzero, dumpdata_after]
  · rw [not_not] at h0
    simp [h0]

theorem dumpnode_after (v : Visit) (raw : List Byte) :
    dumpnode v.node v.child v.next (after raw) =
      if Fits v.node then .ok (after (raw ++ (List.replicate v.node.pad 0 ++ v.body)))
      else .error .overrun := by
  obtain ⟨n, child, next⟩ := v
  unfold dumpnode
  dsimp only
  rw [dumppad_after]
  by_cases hp : n.pad ≤ bigbufSize
  · by_cases hn : NameFits n
    · rw [if_pos hp]
      simp only [bind, Except.bind]
      rw [dumpri_after, if_pos hn]
      dsimp only
      rw [Visit.body, nodeData]
      cases ho : n.origLink with
      | some link => simp [Fits, hp, hn, ho]
      | none =>
        cases ht : n.type
        case lnk =>
          rw [dumplink_after]
          simp [Fits, hp, hn, ho, ht]
        case reg =>
          rw [dumpfile_after]
          simp [Fits, hp, hn, ho, ht]
        all_goals simp [Fits, hp, hn, ho, ht]
    · rw [if_pos hp, if_neg (fun h : Fits n => hn h.2.1)]
      simp only [bind, Except.bind]
      rw [dumpri_after, if_neg hn]
  · rw [if_neg hp, if_neg (fun h : Fits n => hp h.1)]
    rfl

/-- The nodes as they are dumped. -/
def nodesBytes (t : Nodes) : List Byte :=
  emit 0 (fun v => v.node.pad) Visit.body (visits t)

theorem nodesBytes_cons (n : FileNode) (dirlist rest : Nodes) :
    nodesBytes (.cons n dirlist rest) =
      List.replicate n.pad 0 ++ Visit.body ⟨n, dirlist.head?, rest.head?⟩ ++ nodesBytes dirlist ++
        nodesBytes rest := by
  simp [nodesBytes, emit, visits]

theorem dumpnodes_after (t : Nodes) (raw : List Byte) :
    dumpnodes t (after raw) = if ∀ n ∈ preorder t, Fits n then .ok (after (raw ++ nodesBytes t))
      else .error .overrun := by
  induction t generalizing raw with
  | nil => simp [dumpnodes, preorder, nodesBytes, emit, visits]
  | cons n dirlist rest ihd ihr =>
    have hnode := dumpnode_after ⟨n, dirlist.head?, rest.head?⟩ raw
    dsimp only at hnode
    have hall : (∀ m ∈ preorder (.cons n dirlist rest), Fits m) ↔
        Fits n ∧ (∀ m ∈ preorder dirlist, Fits m) ∧ ∀ m ∈ preorder rest, Fits m := by
      simp only [preorder, List.forall_mem_cons, List.forall_mem_append]
    rw [dumpnodes, hnode]
    by_cases hn : Fits n
    · rw [if_pos hn]
      simp only [bind, Except.bind]
      rw [ihd]
      by_cases hd : ∀ m ∈ preorder dirlist, Fits m
      · rw [if_pos hd]
        dsimp only
        rw [ihr, nodesBytes_cons]
        by_cases hr : ∀ m ∈ preorder rest, Fits m
        · rw [if_pos hr, if_pos (hall.mpr ⟨hn, hd, hr⟩)]
          simp only [List.append_assoc]
        · rw [if_neg hr, if_neg (fun h => hr (hall.mp h).2.2)]
      · rw [if_neg hd, if_neg (fun h => hd (hall.mp h).2.1)]
    · rw [if_neg hn, if_neg (fun h => hn (hall.mp h).1)]
      rfl

/-! ## The image -/

/-- The superblock. -/
def superblock (lastoff : ℕ) : RomFh := ⟨0x2d726f6d, 0x3166732d, BitVec.ofNat 32 lastoff, 0x55555555⟩

/-- The output up to the end of the last node. -/
def written (volname : Name) (dirlist : Nodes) (lastoff : ℕ) : List Byte :=
  headerBytes (superblock lastoff) (newnode volname 0) ++ nodesBytes dirlist

/-- The fill behind it, to a multiple of `ROMBSIZE`. -/
def tailFill (lastoff : ℕ) : ℕ := if lastoff % 1024 ≠ 0 then 1024 - lastoff % 1024 else 0

/-- The image. -/
def image (volname : Name) (dirlist : Nodes) (lastoff : ℕ) : List Byte :=
  (after (written volname dirlist lastoff ++ List.replicate (tailFill lastoff) 0)).file

theorem dumpall_after (volname : Name) (dirlist : Nodes) (lastoff : ℕ) :
    dumpall (newnode volname 0) dirlist lastoff ⟨[], 0, []⟩ =
      if NameFits (newnode volname 0) ∧ ∀ n ∈ preorder dirlist, Fits n then
        .ok (after (written volname dirlist lastoff ++ List.replicate (tailFill lastoff) 0))
      else .error .overrun := by
  have hempty : (⟨[], 0, []⟩ : Dump) = after [] := rfl
  unfold dumpall
  rw [hempty, ← superblock, dumpri_after, List.nil_append]
  by_cases hname : NameFits (newnode volname 0)
  · rw [if_pos hname]
    simp only [bind, Except.bind]
    rw [dumpnodes_after]
    by_cases hall : ∀ n ∈ preorder dirlist, Fits n
    · rw [if_pos hall, if_pos ⟨hname, hall⟩]
      dsimp only
      rw [← written, tailFill]
      by_cases hmod : lastoff % 1024 ≠ 0
      · rw [if_pos hmod, if_pos hmod, dumpzero_after (by unfold bigbufSize; omega)]
      · rw [if_neg hmod, if_neg hmod, List.replicate_zero, List.append_nil]
    · rw [if_neg hall, if_neg (fun h => hall h.2)]
  · rw [if_neg hname, if_neg (fun h => hname h.1)]
    rfl

/-- What `genromfs` writes, and when. -/
theorem genromfs_eq (align : Align) (volname : Name) (src : Source) :
    genromfs align volname src =
      if NameFits (newnode volname 0) ∧ ∀ n ∈ preorder (dirnodes align volname src).1, Fits n then
        .ok (image volname (dirnodes align volname src).1 (dirnodes align volname src).2)
      else .error .overrun := by
  unfold genromfs
  rw [buildtree_eq]
  dsimp only
  rw [dumpall_after]
  split
  · rfl
  · rfl

end Genromfs

end SimpleOs
