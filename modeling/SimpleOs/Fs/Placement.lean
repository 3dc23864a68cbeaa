import SimpleOs.Lib.Layout
import SimpleOs.Fs.Genromfs

/-!
# Where genromfs puts the files

`processdir` adds every node to the tree that it has built so far, and looks up hard links in
that tree. `place` says the same without the tree: it lays out the entries of a directory
behind the nodes `seen` that are already there.

* `processdir_eq`: `processdir` adds the nodes of `place`.
* `place_laid`: each node stands behind the one before it, in the order of the dump.
* `place_aligned`: what the alignments give.
-/

namespace SimpleOs

namespace Genromfs

open Layout

/-! ## Lists of nodes -/

/-- The nodes in the order in which they are appended, searched and dumped. -/
def preorder : Nodes → List FileNode
  | .nil => []
  | .cons n dirlist rest => n :: (preorder dirlist ++ preorder rest)

/-- The nodes of `f` at the end of the list that is `level` levels down. -/
def attach (f : Nodes) : ℕ → Nodes → Nodes
  | 0, .nil => f
  | 0, .cons m dirlist rest => .cons m dirlist (attach f 0 rest)
  | _ + 1, .nil => .nil
  | level + 1, .cons m dirlist .nil => .cons m (attach f level dirlist) .nil
  | level + 1, .cons m dirlist (.cons m' dirlist' rest) =>
    .cons m dirlist (attach f (level + 1) (.cons m' dirlist' rest))

/-- There is such a list. -/
def Deep : ℕ → Nodes → Prop
  | 0, _ => True
  | _ + 1, .nil => False
  | level + 1, .cons _ dirlist .nil => Deep level dirlist
  | level + 1, .cons _ _ (.cons m' dirlist' rest) => Deep (level + 1) (.cons m' dirlist' rest)

theorem append_eq (n : FileNode) (level : ℕ) (t : Nodes) :
    append n level t = attach (.cons n .nil .nil) level t := by
  fun_induction append n level t with
  | case1 => rfl
  | case2 m dirlist rest ih => rw [attach, ih]
  | case3 => rfl
  | case4 level m dirlist ih => rw [attach, ih]
  | case5 level m dirlist m' dirlist' rest ih => rw [attach, ih]

theorem attach_nil (level : ℕ) (t : Nodes) : attach .nil level t = t := by
  fun_induction attach .nil level t with
  | case1 => rfl
  | case2 m dirlist rest ih => rw [ih]
  | case3 => rfl
  | case4 level m dirlist ih => rw [ih]
  | case5 level m dirlist m' dirlist' rest ih => rw [ih]

/-- A list that is not empty stays so. -/
theorem attach_cons (f : Nodes) (level : ℕ) (m : FileNode) (d r : Nodes) :
    ∃ m' d' r', attach f level (.cons m d r) = .cons m' d' r' := by
  match level, r with
  | 0, r => exact ⟨m, d, attach f 0 r, rfl⟩
  | level + 1, .nil => exact ⟨m, attach f level d, .nil, rfl⟩
  | level + 1, .cons m' d' r' => exact ⟨m, d, attach f (level + 1) (.cons m' d' r'), rfl⟩

/-- Nodes behind a node that has been added. -/
theorem attach_attach (n : FileNode) (d f : Nodes) (level : ℕ) (t : Nodes) :
    attach f level (attach (.cons n d .nil) level t) = attach (.cons n d f) level t := by
  fun_induction attach (.cons n d .nil) level t with
  | case1 => rfl
  | case2 m dirlist rest ih => rw [attach, ih, attach]
  | case3 => rfl
  | case4 level m dirlist ih => rw [attach, ih, attach]
  | case5 level m dirlist m' dirlist' rest ih =>
    obtain ⟨m₁, d₁, r₁, h₁⟩ := attach_cons (.cons n d .nil) (level + 1) m' dirlist' rest
    rw [h₁] at ih ⊢
    rw [attach, ih, attach]

/-- Nodes below it. -/
theorem attach_below (n : FileNode) (f : Nodes) (level : ℕ) (t : Nodes) :
    attach f (level + 1) (attach (.cons n .nil .nil) level t) =
      attach (.cons n f .nil) level t := by
  fun_induction attach (.cons n .nil .nil) level t with
  | case1 => simp [attach]
  | case2 m dirlist rest ih =>
    match rest with
    | .nil => simp [attach]
    | .cons m' dirlist' rest =>
      obtain ⟨m₁, d₁, r₁, h₁⟩ := attach_cons (.cons n .nil .nil) 0 m' dirlist' rest
      rw [h₁] at ih ⊢
      exact congrArg (Nodes.cons m dirlist) ih
  | case3 => rfl
  | case4 level m dirlist ih => rw [attach, ih, attach]
  | case5 level m dirlist m' dirlist' rest ih =>
    obtain ⟨m₁, d₁, r₁, h₁⟩ := attach_cons (.cons n .nil .nil) (level + 1) m' dirlist' rest
    rw [h₁] at ih ⊢
    rw [attach, ih, attach]

theorem deep_zero (t : Nodes) : Deep 0 t := by
  cases t
  · trivial
  · trivial

theorem preorder_attach (f : Nodes) {level : ℕ} {t : Nodes} (h : Deep level t) :
    preorder (attach f level t) = preorder t ++ preorder f := by
  fun_induction attach f level t with
  | case1 => simp [preorder]
  | case2 m dirlist rest ih => simp [preorder, ih (deep_zero rest)]
  | case3 => exact absurd h id
  | case4 level m dirlist ih => simp [preorder, ih h]
  | case5 level m dirlist m' dirlist' rest ih =>
    rw [preorder, ih h]
    simp [preorder]

theorem deep_attach (f : Nodes) {level : ℕ} {t : Nodes} (h : Deep level t) :
    Deep level (attach f level t) := by
  fun_induction attach f level t with
  | case1 => exact deep_zero f
  | case2 => exact deep_zero _
  | case3 => exact h
  | case4 level m dirlist ih => exact ih h
  | case5 level m dirlist m' dirlist' rest ih =>
    obtain ⟨m₁, d₁, r₁, h₁⟩ := attach_cons f (level + 1) m' dirlist' rest
    have hrec := ih h
    rw [h₁] at hrec ⊢
    exact hrec

/-- There is a list below a node that has been added. -/
theorem deep_below (n : FileNode) {level : ℕ} {t : Nodes} (h : Deep level t) :
    Deep (level + 1) (attach (.cons n .nil .nil) level t) := by
  fun_induction attach (.cons n .nil .nil) level t with
  | case1 => trivial
  | case2 m dirlist rest ih =>
    match rest with
    | .nil => trivial
    | .cons m' dirlist' rest => exact ih (deep_zero _)
  | case3 => exact absurd h id
  | case4 level m dirlist ih => exact ih h
  | case5 level m dirlist m' dirlist' rest ih =>
    obtain ⟨m₁, d₁, r₁, h₁⟩ := attach_cons (.cons n .nil .nil) (level + 1) m' dirlist' rest
    have hrec := ih h
    rw [h₁] at hrec ⊢
    exact hrec

/-- The search is one of the nodes in their order. -/
theorem findnode_eq (dev ino : BitVec 64) (t : Nodes) :
    findnode dev ino t = (preorder t).find? fun n => n.onDev = dev ∧ n.onIno = ino := by
  induction t with
  | nil => rfl
  | cons n dirlist rest ihd ihr =>
    rw [findnode, preorder]
    by_cases h : n.onDev = dev ∧ n.onIno = ino
    · rw [if_pos h, List.find?_cons_of_pos (by simpa using h)]
    · rw [if_neg h, List.find?_cons_of_neg (by simpa using h), List.find?_append, ihd, ihr]
      cases (preorder dirlist).find? fun n => n.onDev = dev ∧ n.onIno = ino <;> rfl

/-! ## The layout of a directory -/

/-- What an entry links to, when the nodes `seen` are there. -/
def linkOf (seen : List FileNode) (self up : ℕ) (name : Name) (sb : FileStat) : Option ℕ :=
  if name = dotName then some self
  else if name = dotdotName then some up
  else (seen.find? fun n => n.onDev = sb.dev ∧ n.onIno = sb.ino).map FileNode.offset

/-- The node of an entry at `cur`, and where the next one begins. -/
def placeentry (align : Align) (link : Option ℕ) (name : Name) (sb : FileStat) (cur : ℕ) :
    FileNode × ℕ :=
  match link with
  | some link => placelink align (setnode (newnode name cur) sb) link cur
  | none => placefile align (setnode (newnode name cur) sb) sb cur

/-- The nodes of a directory from `cur` on, and where the next node begins. -/
def place (align : Align) (level self up : ℕ) : Listing → List FileNode → ℕ → Nodes × ℕ
  | .nil, _, cur => (.nil, cur)
  | .cons dName entry entries rest, seen, cur =>
    if level ≤ 1 ∧ (dName = dotName ∨ dName = dotdotName) then
      place align level self up rest seen cur
    else match entry with
    | none => place align level self up rest seen cur
    | some (name, sb) =>
      let link := linkOf seen self up name sb
      let e := placeentry align link name sb cur
      let sub :=
        if link = none ∧ sb.type = .dir then
          place align (level + 1) e.1.offset self entries (seen ++ [e.1]) e.2
        else (.nil, e.2)
      let tail := place align level self up rest (seen ++ e.1 :: preorder sub.1) sub.2
      (.cons e.1 sub.1 tail.1, tail.2)

/-- `processdir` adds the nodes of the directory to the tree. -/
theorem processdir_eq (align : Align) (l : Listing) : ∀ (level self up : ℕ) (t : Nodes) (cur : ℕ),
    Deep level t → processdir align level self up l t cur =
      (attach (place align level self up l (preorder t) cur).1 level t,
        (place align level self up l (preorder t) cur).2) := by
  induction l with
  | nil =>
    intro level self up t cur _
    rw [processdir, place, attach_nil]
  | cons dName entry entries rest ihe ihr =>
    intro level self up t cur hdeep
    rw [processdir.eq_def, place.eq_def]
    dsimp only
    split
    · exact ihr level self up t cur hdeep
    · cases entry with
      | none => exact ihr level self up t cur hdeep
      | some entry =>
        obtain ⟨name, sb⟩ := entry
        dsimp only
        rw [findnode_eq, ← linkOf]
        generalize hlink : linkOf (preorder t) self up name sb = link
        have hpre : ∀ n d, preorder (attach (.cons n d .nil) level t) =
            preorder t ++ n :: preorder d := by
          intro n d
          rw [preorder_attach _ hdeep]
          simp [preorder]
        cases link with
        | some link =>
          -- a link has nothing below it
          have hsub : ¬ (some link = none ∧ sb.type = .dir) := by simp
          dsimp only [placeentry]
          rw [append_eq, ihr _ _ _ _ _ (deep_attach _ hdeep), hpre, attach_attach, if_neg hsub]
        | none =>
          dsimp only [placeentry]
          rw [append_eq]
          by_cases hdir : sb.type = .dir
          · have hsub : none = (none : Option ℕ) ∧ sb.type = .dir := ⟨rfl, hdir⟩
            have hnil : ∀ n, preorder t ++ n :: preorder .nil = preorder t ++ [n] := by
              simp [preorder]
            rw [if_pos hdir, if_pos hsub, ihe _ _ _ _ _ (deep_below _ hdeep), hpre, hnil,
              attach_below, ihr _ _ _ _ _ (deep_attach _ hdeep), hpre, attach_attach]
          · have hsub : ¬ (none = (none : Option ℕ) ∧ sb.type = .dir) := fun h => hdir h.2
            rw [if_neg hdir, if_neg hsub, ihr _ _ _ _ _ (deep_attach _ hdeep), hpre,
              attach_attach]

/-! ## Alignments -/

namespace Align

theorem isPowerOfTwo (a : Align) : a.val.isPowerOfTwo := by
  have ha := a.accepted
  rw [← Nat.and_sub_one_eq_zero_iff_isPowerOfTwo (by omega)]
  by_contra h
  exact ha (.inr h)

theorem le (a : Align) : 16 ≤ a.val := by
  have ha := a.accepted
  omega

/-- Of two alignments the smaller one divides the other. -/
theorem dvd_of_le {a b : Align} (h : a.val ≤ b.val) : a.val ∣ b.val := by
  obtain ⟨i, hi⟩ := a.isPowerOfTwo
  obtain ⟨j, hj⟩ := b.isPowerOfTwo
  rw [hi, hj] at h ⊢
  exact Nat.pow_dvd_pow 2 ((Nat.pow_le_pow_iff_right (by omega)).mp h)

theorem dvd (a : Align) : 16 ∣ a.val := dvd_of_le (a := header) a.le

theorem and_eq (a : Align) (x : ℕ) : x &&& (a.val - 1) = x % a.val := by
  obtain ⟨i, hi⟩ := a.isPowerOfTwo
  rw [hi, Nat.and_two_pow_sub_one_eq_mod]

end Align

/-- The fill in front of `x` that makes it a multiple of `al`. -/
def padding (al x : ℕ) : ℕ := if x % al ≠ 0 then al - x % al else 0

theorem padding_lt {al : ℕ} (hal : 0 < al) (x : ℕ) : padding al x < al := by
  unfold padding
  split
  · omega
  · exact hal

theorem add_padding_mod {al : ℕ} (hal : 0 < al) (x : ℕ) : (x + padding al x) % al = 0 := by
  have hlt := Nat.mod_lt x hal
  have hdiv := Nat.div_add_mod x al
  unfold padding
  split
  · have hsum : x + (al - x % al) = al * (x / al + 1) := by
      rw [Nat.mul_add, Nat.mul_one]
      omega
    rw [hsum, Nat.mul_mod_right]
  · rw [Nat.add_zero]
    omega

section

variable (align : Align) (n : FileNode)

/-- The loop finds the largest alignment. -/
theorem foldl_align (l : List Align) (a : Align) :
    ∃ b ∈ a :: l, l.foldl (fun i pa => if i < pa.val then pa.val else i) a.val = b.val ∧
      ∀ pa ∈ a :: l, pa.val ≤ b.val := by
  induction l generalizing a with
  | nil => exact ⟨a, by simp, rfl, by simp⟩
  | cons c l ih =>
    rw [List.foldl_cons]
    by_cases h : a.val < c.val
    · rw [if_pos h]
      obtain ⟨b, hmem, hb, hl⟩ := ih c
      have hcb := hl c (List.mem_cons_self ..)
      exact ⟨b, List.mem_cons_of_mem _ hmem, hb, List.forall_mem_cons.mpr ⟨by omega, hl⟩⟩
    · rw [if_neg h]
      obtain ⟨b, hmem, hb, hl⟩ := ih a
      rw [List.forall_mem_cons] at hl
      have hcb : c.val ≤ b.val := by omega
      refine ⟨b, ?_, hb, List.forall_mem_cons.mpr ⟨hl.1, List.forall_mem_cons.mpr ⟨hcb, hl.2⟩⟩⟩
      rcases List.mem_cons.mp hmem with rfl | hmem
      · simp
      · simp [hmem]

/-- The alignments that a node is given. -/
def asked : List Align := (if n.type = .reg then align else Align.header) :: n.aligns

theorem findalign_spec : ∃ b ∈ asked align n, findalign align n = b.val ∧
    ∀ pa ∈ asked align n, pa.val ≤ b.val := by
  unfold findalign asked
  by_cases h : n.type = .reg
  · rw [if_pos h, if_pos h]
    exact foldl_align n.aligns align
  · rw [if_neg h, if_neg h]
    exact foldl_align n.aligns Align.header

theorem alignnode_eq (hpad : n.pad = 0) (cur extra : ℕ) :
    alignnode align n cur extra =
      ({ n with
          offset := n.offset + padding (findalign align n) (cur + extra)
          pad := padding (findalign align n) (cur + extra) },
        cur + padding (findalign align n) (cur + extra)) := by
  obtain ⟨b, _, hb, _⟩ := findalign_spec align n
  unfold alignnode padding
  dsimp only
  rw [hb, b.and_eq]
  by_cases h : (cur + extra) % b.val ≠ 0
  · rw [if_pos h, if_pos h]
  · rw [if_neg h, if_neg h, Nat.add_zero, Nat.add_zero, ← hpad]

/-- What stands between the beginning of a node and the place that is aligned: the header
    of a regular file that is new. -/
def lead : ℕ :=
  if n.origLink = none ∧ n.type = .reg then 16 + pad16 (n.name.val.length + 1) else 0

/-- A node at its place, behind `cur`. -/
structure Placed (link : Option ℕ) (name : Name) (sb : FileStat) (cur : ℕ) : Prop where
  name : n.name = name
  dev : n.onDev = sb.dev
  ino : n.onIno = sb.ino
  type : n.type = sb.type
  exec : n.exec = sb.exec
  contents : n.contents = sb.contents
  aligns : n.aligns = sb.aligns
  origLink : n.origLink = link
  size : n.size = if link = none ∧ (sb.type = .reg ∨ sb.type = .lnk) then sb.size else 0
  device : link = none → sb.type = .chr ∨ sb.type = .blk →
    n.major = sb.major ∧ n.minor = sb.minor
  offset : n.offset = cur + n.pad
  pad : n.pad = padding (findalign align n) (cur + lead n)

end

theorem placelink_spec (align : Align) (link : ℕ) (name : Name) (sb : FileStat) (cur : ℕ) :
    Placed align (placelink align (setnode (newnode name cur) sb) link cur).1 (some link) name sb
        cur ∧
      (placelink align (setnode (newnode name cur) sb) link cur).2 =
        (placelink align (setnode (newnode name cur) sb) link cur).1.offset +
          spaceneeded (placelink align (setnode (newnode name cur) sb) link cur).1 := by
  unfold placelink
  rw [alignnode_eq _ _ rfl]
  exact ⟨⟨rfl, rfl, rfl, rfl, rfl, rfl, rfl, rfl, rfl, by simp, rfl, rfl⟩, rfl⟩

theorem placefile_spec (align : Align) (name : Name) (sb : FileStat) (cur : ℕ) :
    Placed align (placefile align (setnode (newnode name cur) sb) sb cur).1 none name sb cur ∧
      (placefile align (setnode (newnode name cur) sb) sb cur).2 =
        (placefile align (setnode (newnode name cur) sb) sb cur).1.offset +
          spaceneeded (placefile align (setnode (newnode name cur) sb) sb cur).1 := by
  unfold placefile
  rw [alignnode_eq _ _ rfl]
  cases htype : sb.type
  all_goals
    constructor
    · constructor
      all_goals simp [setnode, newnode, lead, findalign, spaceneeded, htype, pad16]
    · simp [setnode, newnode, spaceneeded]

/-- An entry is placed at the end of what is there. -/
theorem placeentry_spec (align : Align) (link : Option ℕ) (name : Name) (sb : FileStat) (cur : ℕ) :
    Placed align (placeentry align link name sb cur).1 link name sb cur ∧
      (placeentry align link name sb cur).2 = (placeentry align link name sb cur).1.offset +
        spaceneeded (placeentry align link name sb cur).1 := by
  cases link with
  | some link => exact placelink_spec align link name sb cur
  | none => exact placefile_spec align name sb cur

/-! ## All nodes -/

/-- The entries that are not ignored, with those of the directories below. -/
def Listing.taken : Listing → List (Name × FileStat)
  | .nil => []
  | .cons _ none _ rest => rest.taken
  | .cons _ (some entry) entries rest => entry :: (entries.taken ++ rest.taken)

/-- The same for the directory that the image is made of, with its `.` and `..`. -/
def Source.taken (src : Source) : List (Name × FileStat) :=
  (src.dot.toList.map fun sb => (dotName, sb.toFileStat)) ++
    (src.dotdot.toList.map fun sb => (dotdotName, sb.toFileStat)) ++ src.entries.taken

/-- The node is that of one of the entries. -/
def FromEntry (align : Align) (l : List (Name × FileStat)) (n : FileNode) : Prop :=
  ∃ link cur, ∃ e ∈ l, Placed align n link e.1 e.2 cur

theorem FromEntry.mono {align : Align} {l l' : List (Name × FileStat)} {n : FileNode}
    (h : FromEntry align l n) (hsub : l ⊆ l') : FromEntry align l' n := by
  obtain ⟨link, cur, e, he, hp⟩ := h
  exact ⟨link, cur, e, hsub he, hp⟩

/-- The nodes stand one behind the other. -/
abbrev NodesLaid (cur : ℕ) (l : List FileNode) (fin : ℕ) : Prop :=
  Laid FileNode.pad FileNode.offset spaceneeded cur l fin

/-- What can be said about each node of a tree: its alignment, its padding, and that only
    regular files and symbolic links have a size. -/
structure WellPlaced (align : Align) (n : FileNode) : Prop where
  aligned : (n.offset + lead n) % findalign align n = 0
  pad_lt : n.pad < findalign align n
  sized : n.size ≠ 0 → n.origLink = none ∧ (n.type = .reg ∨ n.type = .lnk)

theorem Placed.wellPlaced {align : Align} {n : FileNode} {link : Option ℕ} {name : Name}
    {sb : FileStat} {cur : ℕ} (h : Placed align n link name sb cur) : WellPlaced align n := by
  obtain ⟨b, _, hb, _⟩ := findalign_spec align n
  have hpos : 0 < findalign align n := by
    have := b.le
    omega
  constructor
  · rw [h.offset, Nat.add_right_comm]
    nth_rewrite 1 [h.pad]
    exact add_padding_mod hpos _
  · rw [h.pad]
    exact padding_lt hpos _
  · intro hsize
    by_cases hc : link = none ∧ (sb.type = .reg ∨ sb.type = .lnk)
    · rw [h.origLink, h.type]
      exact hc
    · exact absurd (h.size.trans (if_neg hc)) hsize

theorem place_spec (align : Align) (l : Listing) :
    ∀ (level self up : ℕ) (seen : List FileNode) (cur : ℕ),
      NodesLaid cur (preorder (place align level self up l seen cur).1)
          (place align level self up l seen cur).2 ∧
        ∀ n ∈ preorder (place align level self up l seen cur).1, FromEntry align l.taken n := by
  induction l with
  | nil =>
    intro level self up seen cur
    exact ⟨rfl, by simp [place, preorder]⟩
  | cons dName entry entries rest ihe ihr =>
    intro level self up seen cur
    rw [place.eq_def]
    dsimp only
    cases entry with
    | none => simpa [Listing.taken] using ihr level self up seen cur
    | some entry =>
      have hrest : rest.taken ⊆ (Listing.cons dName (some entry) entries rest).taken := by
        intro e he
        simp [Listing.taken, he]
      split
      · exact ⟨(ihr ..).1, fun n hn => ((ihr ..).2 n hn).mono hrest⟩
      · obtain ⟨name, sb⟩ := entry
        dsimp only
        generalize linkOf seen self up name sb = link
        obtain ⟨hplaced, hnext⟩ := placeentry_spec align link name sb cur
        generalize placeentry align link name sb cur = e at hplaced hnext ⊢
        -- the nodes below the entry, if it is a directory
        have hsub : ∀ sub : Nodes × ℕ, sub = (if link = none ∧ sb.type = .dir then
            place align (level + 1) e.1.offset self entries (seen ++ [e.1]) e.2
            else (.nil, e.2)) →
            NodesLaid e.2 (preorder sub.1) sub.2 ∧
              ∀ n ∈ preorder sub.1, FromEntry align entries.taken n := by
          intro sub hsub
          split at hsub
          · rw [hsub]
            exact ihe ..
          · rw [hsub]
            exact ⟨rfl, by simp [preorder]⟩
        generalize hs : (if link = none ∧ sb.type = .dir then
          place align (level + 1) e.1.offset self entries (seen ++ [e.1]) e.2
          else (.nil, e.2)) = sub
        obtain ⟨hlaid, hfrom⟩ := hsub sub hs.symm
        obtain ⟨hlaid', hfrom'⟩ := ihr level self up (seen ++ e.1 :: preorder sub.1) sub.2
        refine ⟨⟨hplaced.offset, ?_⟩, ?_⟩
        · rw [← hnext]
          exact hlaid.append hlaid'
        · intro n hn
          rcases List.mem_cons.mp hn with rfl | hn
          · exact ⟨link, cur, (name, sb), by simp [Listing.taken], hplaced⟩
          · rcases List.mem_append.mp hn with hn | hn
            · exact (hfrom n hn).mono fun x hx => by simp [Listing.taken, hx]
            · exact (hfrom' n hn).mono hrest

/-! ## The tree -/

/-- `.` and `..` from `cur` on, where the next node begins, and what the `..` of the
    directories below link to. -/
def dots (align : Align) (src : Source) (cur : ℕ) : Nodes × ℕ × ℕ :=
  match src.dot with
  | none => (.nil, cur, 0)
  | some sb =>
    let link := placeentry align none dotName sb.toFileStat cur
    match src.dotdot with
    | none => (.cons link.1 .nil .nil, link.2, link.1.offset)
    | some sb =>
      let n := placeentry align (some link.1.offset) dotdotName sb.toFileStat link.2
      (.cons link.1 .nil (.cons n.1 .nil .nil), n.2, link.1.offset)

/-- The nodes of the root directory, and where they end. -/
def dirnodes (align : Align) (volname : Name) (src : Source) : Nodes × ℕ :=
  let root := newnode volname 0
  let d := dots align src (spaceneeded root)
  let p := place align 1 d.2.2 0 src.entries (root :: preorder d.1) d.2.1
  (attach p.1 0 d.1, p.2)

/-- The header of a directory is all that there is of it. -/
theorem placefile_dir (align : Align) (n : FileNode) {sb : FileStat} (h : sb.type = .dir)
    (cur : ℕ) : placefile align n sb cur =
      ((alignnode align n cur 0).1,
        (alignnode align n cur 0).2 + spaceneeded (alignnode align n cur 0).1) := by
  unfold placefile
  simp [h]

theorem adddots_eq (align : Align) (src : Source) (root : FileNode) (cur : ℕ) :
    adddots align src (.cons root .nil .nil) cur =
      (.cons root (dots align src cur).1 .nil, (dots align src cur).2) := by
  unfold adddots dots
  cases src.dot with
  | none => rfl
  | some sb =>
    dsimp only [placeentry]
    rw [placefile_dir _ _ sb.isDir]
    cases src.dotdot with
    | none => rfl
    | some sb => rfl

theorem buildtree_eq (align : Align) (volname : Name) (src : Source) :
    buildtree align volname src =
      (.cons (newnode volname 0) (dirnodes align volname src).1 .nil,
        (dirnodes align volname src).2) := by
  unfold buildtree
  dsimp only
  rw [adddots_eq]
  dsimp only
  have hdeep : ∀ n d, Deep 1 (.cons n d .nil) := fun _ d => deep_zero d
  rw [processdir_eq _ _ _ _ _ _ _ (hdeep _ _)]
  simp [preorder, attach, dirnodes]

theorem dots_spec (align : Align) (src : Source) (cur : ℕ) :
    NodesLaid cur (preorder (dots align src cur).1) (dots align src cur).2.1 ∧
      ∀ n ∈ preorder (dots align src cur).1, FromEntry align src.taken n := by
  unfold dots
  cases hsrc : src.dot with
  | none => exact ⟨rfl, by simp [preorder]⟩
  | some sb =>
    obtain ⟨hdot, hnext⟩ := placeentry_spec align none dotName sb.toFileStat cur
    dsimp only
    generalize placeentry align none dotName sb.toFileStat cur = e at hdot hnext ⊢
    have hfrom : FromEntry align src.taken e.1 :=
      ⟨none, cur, (dotName, sb.toFileStat), by simp [Source.taken, hsrc], hdot⟩
    cases hsrc' : src.dotdot with
    | none => exact ⟨⟨hdot.offset, hnext.symm⟩, by simpa [preorder] using hfrom⟩
    | some sb' =>
      obtain ⟨hdotdot, hnext'⟩ :=
        placeentry_spec align (some e.1.offset) dotdotName sb'.toFileStat e.2
      dsimp only
      generalize placeentry align (some e.1.offset) dotdotName sb'.toFileStat e.2 = e'
        at hdotdot hnext' ⊢
      have hfrom' : FromEntry align src.taken e'.1 :=
        ⟨some e.1.offset, e.2, (dotdotName, sb'.toFileStat), by simp [Source.taken, hsrc'],
          hdotdot⟩
      refine ⟨⟨hdot.offset, ?_, hnext'.symm⟩, ?_⟩
      · rw [← hnext]
        exact hdotdot.offset
      · simpa [preorder] using And.intro hfrom hfrom'

/-- The nodes stand one behind the other between the superblock and `lastoff`. -/
theorem dirnodes_spec (align : Align) (volname : Name) (src : Source) :
    NodesLaid (spaceneeded (newnode volname 0)) (preorder (dirnodes align volname src).1)
        (dirnodes align volname src).2 ∧
      ∀ n ∈ preorder (dirnodes align volname src).1, FromEntry align src.taken n := by
  unfold dirnodes
  dsimp only
  obtain ⟨hlaid, hfrom⟩ := dots_spec align src (spaceneeded (newnode volname 0))
  generalize dots align src (spaceneeded (newnode volname 0)) = d at hlaid hfrom ⊢
  obtain ⟨hlaid', hfrom'⟩ := place_spec align src.entries 1 d.2.2 0
    (newnode volname 0 :: preorder d.1) d.2.1
  rw [preorder_attach _ (deep_zero _)]
  refine ⟨hlaid.append hlaid', fun n hn => ?_⟩
  rcases List.mem_append.mp hn with hn | hn
  · exact hfrom n hn
  · exact (hfrom' n hn).mono fun e he => by simp [Source.taken, he]

/-- Where a node stands: a multiple of 16, with what it asked for aligned. -/
theorem dirnodes_wellPlaced {align : Align} {volname : Name} {src : Source} {n : FileNode}
    (hn : n ∈ preorder (dirnodes align volname src).1) : WellPlaced align n := by
  obtain ⟨link, cur, e, _, hplaced⟩ := (dirnodes_spec align volname src).2 n hn
  exact hplaced.wellPlaced

end Genromfs

end SimpleOs
