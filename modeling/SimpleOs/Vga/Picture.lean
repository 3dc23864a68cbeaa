import SimpleOs.Io.Screen
import SimpleOs.Lib.Raster
import SimpleOs.Vga.Draw

/-!
# Drawing a picture

`set_palette` and `draw_bg` (vga/draw_func.c:95-123, 148-155). `draw_bg` hands the line of
the picture to `draw_point` without adding `oy`.

* `drawBg_drawn`, `drawBg_kept`: what is on the screen afterwards.
* `drawBg_placed_iff`: when that is the picture at its place and nothing else.
* `drawBg_top`: it always is for `oy = 0`.
-/

namespace SimpleOs

open ByteMem

/-- `set_palette(index, r, g, b)` (vga/draw_func.c:148-155): the bytes sent to the ports. -/
def setPalette (index : ℕ) (r g b : Byte) : List (BitVec 16 × Byte) :=
  [(0x3c6, 0xff), (0x3c8, BitVec.ofNat 8 index), (0x3c9, r), (0x3c9, g), (0x3c9, b)]

/-- The loop over the palette, three bytes for each color. -/
def loadPalette (palette : ℕ → Byte) : List (BitVec 16 × Byte) :=
  (List.range 256).flatMap fun i =>
    setPalette i (palette (3 * i)) (palette (3 * i + 1)) (palette (3 * i + 2))

/-- `draw_bg(ox, oy, pic_raw_data, w, h, palette)` (vga/draw_func.c:95-123): what it sends
    to the ports, and its calls of `draw_point`. The line is `y`, not `oy + y`. -/
def drawBg (ox _oy : BitVec 32) (picRawData : ℕ → Byte) (w h : BitVec 32)
    (palette : ℕ → Byte) : List (BitVec 16 × Byte) × List Point :=
  (loadPalette palette,
    (Raster.scan (fun x y imageAddr =>
      Point.mk (ox + BitVec.ofNat 32 x) (BitVec.ofNat 32 y) (picRawData imageAddr))
      w.toInt.toNat h.toInt.toNat 0 0).1)

/-- The memory after the calls of `draw_point`. -/
def drawPoints (points : List Point) (mem : Mem) : Mem :=
  Output.write (points.map fun p => (p.addr, p.c)) mem

/-- The byte of a pixel. -/
def pixel (x y : ℕ) : Addr := 0xa0000 + BitVec.ofNat 32 x + BitVec.ofNat 32 y * 320

/-! ## The screen afterwards -/

theorem pixel_toNat {x y : ℕ} (hx : x < 320) (hy : y < 200) :
    (pixel x y).toNat = 0xa0000 + x + y * 320 := by
  have hxnat : (BitVec.ofNat 32 x).toNat = x := by
    rw [BitVec.toNat_ofNat]
    omega
  have hynat : (BitVec.ofNat 32 y).toNat = y := by
    rw [BitVec.toNat_ofNat]
    omega
  unfold pixel
  bv_omega

/-- Different pixels have different bytes. -/
theorem pixel_inj {x y x' y' : ℕ} (hx : x < 320) (hy : y < 200) (hx' : x' < 320)
    (hy' : y' < 200) (h : pixel x y = pixel x' y') : x = x' ∧ y = y' := by
  have hnat := congrArg BitVec.toNat h
  rw [pixel_toNat hx hy, pixel_toNat hx' hy'] at hnat
  omega

section Drawn

variable {ox oy w h : BitVec 32} {picRawData palette : ℕ → Byte} {mem : Mem}

/-- The rectangle with the corner `(ox, oy)` is on the screen, if it is not empty. -/
def InScreen (ox oy w h : BitVec 32) : Prop :=
  ∀ x y : ℕ, (x : ℤ) < w.toInt → (y : ℤ) < h.toInt →
    (0 ≤ ox.toInt ∧ ox.toInt + x < 320) ∧ (0 ≤ oy.toInt ∧ oy.toInt + y < 200)

/-- The rectangle in natural numbers. -/
theorem InScreen.bounds (hin : InScreen ox oy w h) {x y : ℕ} (hx : x < w.toInt.toNat)
    (hy : y < h.toInt.toNat) :
    ox.toNat + w.toInt.toNat ≤ 320 ∧ oy.toNat + h.toInt.toNat ≤ 200 := by
  obtain ⟨⟨hox, hx320⟩, hoy, hy200⟩ :=
    hin (w.toInt.toNat - 1) (h.toInt.toNat - 1) (by omega) (by omega)
  have hoxlt := ox.isLt
  have hoylt := oy.isLt
  rw [BitVec.toInt_eq_toNat_cond] at hox hx320 hoy hy200
  split_ifs at hox hx320 hoy hy200 <;> omega

theorem mem_drawBg {v : Addr × Byte} :
    v ∈ ((drawBg ox oy picRawData w h palette).2.map fun p => (p.addr, p.c)) ↔
      ∃ y < h.toInt.toNat, ∃ x < w.toInt.toNat,
        v = (pixel (ox.toNat + x) y, picRawData (y * w.toInt.toNat + x)) := by
  have hpixel : ∀ x y, (Point.mk (ox + BitVec.ofNat 32 x) (BitVec.ofNat 32 y)
      (picRawData (y * w.toInt.toNat + x))).addr = pixel (ox.toNat + x) y := by
    intro x y
    unfold Point.addr pixel
    rw [BitVec.ofNat_add, BitVec.ofNat_toNat, BitVec.setWidth_eq]
  unfold drawBg
  simp only [List.mem_map, Raster.mem_scan]
  constructor
  · rintro ⟨p, ⟨y, hy, x, hx, rfl⟩, rfl⟩
    exact ⟨y, hy, x, hx, by rw [hpixel]⟩
  · rintro ⟨y, hy, x, hx, rfl⟩
    exact ⟨_, ⟨y, hy, x, hx, rfl⟩, by rw [hpixel]⟩

/-- In the columns of the rectangle, from line 0 on, there is the picture. -/
theorem drawBg_drawn (hin : InScreen ox oy w h) {x y : ℕ} (hx : x < w.toInt.toNat)
    (hy : y < h.toInt.toNat) :
    drawPoints (drawBg ox oy picRawData w h palette).2 mem (pixel (ox.toNat + x) y) =
      picRawData (y * w.toInt.toNat + x) := by
  obtain ⟨hcol, hline⟩ := hin.bounds hx hy
  apply Output.write_of_mem
  · exact ⟨_, mem_drawBg.mpr ⟨y, hy, x, hx, rfl⟩, rfl⟩
  · intro v hv hva
    obtain ⟨y', hy', x', hx', rfl⟩ := mem_drawBg.mp hv
    obtain ⟨hxeq, rfl⟩ := pixel_inj (by omega) (by omega) (by omega) (by omega) hva
    obtain rfl : x' = x := by omega
    rfl

/-- Elsewhere there is what was there. -/
theorem drawBg_kept (hin : InScreen ox oy w h) {px py : ℕ} (hpx : px < 320) (hpy : py < 200)
    (hout : ∀ x < w.toInt.toNat, ∀ y < h.toInt.toNat, ¬ (px = ox.toNat + x ∧ py = y)) :
    drawPoints (drawBg ox oy picRawData w h palette).2 mem (pixel px py) = mem (pixel px py) := by
  apply Output.write_out
  intro v hv hva
  obtain ⟨y, hy, x, hx, rfl⟩ := mem_drawBg.mp hv
  obtain ⟨hcol, hline⟩ := hin.bounds hx hy
  obtain ⟨hxeq, hyeq⟩ := pixel_inj (by omega) (by omega) hpx hpy hva
  exact hout x hx y hy ⟨hxeq.symm, hyeq.symm⟩

/-! ## The place of the picture -/

/-- The picture is at its place, and the rest of the screen is as before. -/
structure Placed (ox oy : BitVec 32) (picRawData : ℕ → Byte) (w h : BitVec 32)
    (before after : Mem) : Prop where
  inside : ∀ x < w.toInt.toNat, ∀ y < h.toInt.toNat,
    after (pixel (ox.toNat + x) (oy.toNat + y)) = picRawData (y * w.toInt.toNat + x)
  outside : ∀ px < 320, ∀ py < 200,
    (∀ x < w.toInt.toNat, ∀ y < h.toInt.toNat, ¬ (px = ox.toNat + x ∧ py = oy.toNat + y)) →
    after (pixel px py) = before (pixel px py)

/-- The picture and the screen before are such that it makes no difference whether a line
    is drawn in its place or `oy` lines above. -/
structure NoDifference (ox oy : BitVec 32) (picRawData : ℕ → Byte) (w h : BitVec 32)
    (mem : Mem) : Prop where
  above : ∀ x < w.toInt.toNat, ∀ y < h.toInt.toNat, y < oy.toNat →
    picRawData (y * w.toInt.toNat + x) = mem (pixel (ox.toNat + x) y)
  repeats : ∀ x < w.toInt.toNat, ∀ y < h.toInt.toNat, oy.toNat + y < h.toInt.toNat →
    picRawData ((oy.toNat + y) * w.toInt.toNat + x) = picRawData (y * w.toInt.toNat + x)
  below : ∀ x < w.toInt.toNat, ∀ y < h.toInt.toNat, h.toInt.toNat ≤ oy.toNat + y →
    mem (pixel (ox.toNat + x) (oy.toNat + y)) = picRawData (y * w.toInt.toNat + x)

theorem Placed.noDifference (hin : InScreen ox oy w h)
    (hp : Placed ox oy picRawData w h mem
      (drawPoints (drawBg ox oy picRawData w h palette).2 mem)) :
    NoDifference ox oy picRawData w h mem := by
  refine ⟨fun x hx y hy habove => ?_, fun x hx y hy hrep => ?_, fun x hx y hy hbelow => ?_⟩
  · obtain ⟨hcol, hline⟩ := hin.bounds hx hy
    rw [← hp.outside (ox.toNat + x) (by omega) y (by omega) (fun x' _ y' _ heq => by omega)]
    exact (drawBg_drawn hin hx hy).symm
  · rw [← hp.inside x hx y hy]
    exact (drawBg_drawn hin hx hrep).symm
  · obtain ⟨hcol, hline⟩ := hin.bounds hx hy
    rw [← hp.inside x hx y hy]
    exact (drawBg_kept hin (by omega) (by omega) (fun x' _ y' _ heq => by omega)).symm

theorem NoDifference.placed (hin : InScreen ox oy w h)
    (hno : NoDifference ox oy picRawData w h mem) :
    Placed ox oy picRawData w h mem (drawPoints (drawBg ox oy picRawData w h palette).2 mem) := by
  refine ⟨fun x hx y hy => ?_, fun px hpx py hpy hout => ?_⟩
  · obtain ⟨hcol, hline⟩ := hin.bounds hx hy
    rcases Nat.lt_or_ge (oy.toNat + y) h.toInt.toNat with hrep | hbelow
    · rw [drawBg_drawn hin hx hrep]
      exact hno.repeats x hx y hy hrep
    · rw [drawBg_kept hin (by omega) (by omega) (fun x' _ y' _ heq => by omega)]
      exact hno.below x hx y hy hbelow
  · by_cases hdrawn : ∃ x < w.toInt.toNat, px = ox.toNat + x ∧ py < h.toInt.toNat
    · obtain ⟨x, hx, rfl, hy⟩ := hdrawn
      have habove : py < oy.toNat := by
        by_contra hbelow
        exact hout x hx (py - oy.toNat) (by omega) ⟨rfl, by omega⟩
      rw [drawBg_drawn hin hx hy]
      exact hno.above x hx py hy habove
    · exact drawBg_kept hin hpx hpy fun x hx y hy heq => hdrawn ⟨x, hx, heq.1, heq.2 ▸ hy⟩

/-- The picture is where it should be if and only if it makes no difference. -/
theorem drawBg_placed_iff (ox oy : BitVec 32) (picRawData : ℕ → Byte) (w h : BitVec 32)
    (palette : ℕ → Byte) (mem : Mem) (hin : InScreen ox oy w h) :
    Placed ox oy picRawData w h mem (drawPoints (drawBg ox oy picRawData w h palette).2 mem) ↔
      NoDifference ox oy picRawData w h mem :=
  ⟨fun hp => hp.noDifference hin, fun hno => hno.placed hin⟩

/-- Two lines of two pixels at (120, 0). -/
theorem drawBg_placed_console :
    Placed 120 0 (BitVec.ofNat 8) 2 2 (fun _ => 0)
      (drawPoints (drawBg 120 0 (BitVec.ofNat 8) 2 2 fun _ => 0).2 fun _ => 0) := by
  have hin : InScreen 120 0 2 2 := by
    intro x y hx hy
    have hw : (2 : BitVec 32).toInt = 2 := by decide
    have hox : (120 : BitVec 32).toInt = 120 := by decide
    have hoy : (0 : BitVec 32).toInt = 0 := by decide
    omega
  exact (drawBg_placed_iff 120 0 (BitVec.ofNat 8) 2 2 (fun _ => 0) (fun _ => 0) hin).mpr
    ⟨by decide, by decide, by decide⟩

/-- A pixel at (0, 1) is drawn at (0, 0). -/
theorem drawBg_one_line_above :
    InScreen 0 1 1 1 ∧
      ¬ Placed 0 1 (fun _ => 7) 1 1 (fun _ => 0)
        (drawPoints (drawBg 0 1 (fun _ => 7) 1 1 fun _ => 0).2 fun _ => 0) := by
  refine ⟨fun x y hx hy => ?_, fun hp => ?_⟩
  · have hone : (1 : BitVec 32).toInt = 1 := by decide
    have hzero : (0 : BitVec 32).toInt = 0 := by decide
    omega
  · exact absurd (hp.inside 0 (by decide) 0 (by decide)) (by decide)

/-- At the top of the screen every picture is drawn at its place. -/
theorem drawBg_top (hin : InScreen ox 0 w h) :
    Placed ox 0 picRawData w h mem (drawPoints (drawBg ox 0 picRawData w h palette).2 mem) := by
  have hzero : (0 : BitVec 32).toNat = 0 := rfl
  refine NoDifference.placed hin ⟨fun x hx y hy habove => ?_, fun x hx y hy _ => ?_,
    fun x hx y hy hbelow => ?_⟩
  · rw [hzero] at habove
    omega
  · rw [hzero, Nat.zero_add]
  · rw [hzero] at hbelow
    omega

end Drawn

end SimpleOs
