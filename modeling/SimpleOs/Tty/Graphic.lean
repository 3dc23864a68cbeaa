import Mathlib.Data.List.Induction
import SimpleOs.Tty.Terminal
import SimpleOs.Vga.Draw

/-!
# The graphic console

`s32_console_print_char` (tty/console.c:152-202) on the console of type `GRAPHIC_CONSOLE`, with
the points that it draws. It moves its cursor through cells of 8 × 16 points, 40 in a line. The
text consoles stop at line 50; this one has no last line.

* `graphicPrint_onScreen_iff`: everything is drawn on the screen if and only if the characters
  below the screen are blank there.
-/

namespace SimpleOs

open ByteMem

/-- The consoles, and the points that `draw_8x16_ch` has drawn. -/
structure Graphic where
  screen : Screen
  drawn : List Point

/-- `s32_console_print_char` with its call of `draw_8x16_ch` (tty/console.c:159). The grid and
    the pictures that follow a backquote go through other functions. -/
def Graphic.printChar (g : Graphic) (c : ConsoleId) (ch : Byte) : Graphic where
  screen := s32ConsolePrintChar g.screen c ch
  drawn :=
    let con := g.screen.consoleTable c
    if con.type = .graphic then g.drawn ++ draw8x16Ch con.curX con.curY ch 5 else g.drawn

/-- A text on the graphic console behind `init_console`. -/
def graphicPrint (s : Screen) (text : List Byte) : Graphic :=
  text.foldl (fun g ch => g.printChar 3 ch) ⟨initConsole s, []⟩

theorem graphicPrint_concat (s : Screen) (text : List Byte) (ch : Byte) :
    graphicPrint s (text ++ [ch]) = (graphicPrint s text).printChar 3 ch := by
  simp [graphicPrint]

/-! ## The cursor -/

/-- The cursor stands on the cell behind `n` characters. -/
structure AtCell (con : Console) (n : ℕ) : Prop where
  type : con.type = .graphic
  x : con.curX.toNat = 8 * (n % 40)
  y : con.curY.toNat = 16 * (n / 40 % 2 ^ 28)

theorem AtCell.drawChar {con : Console} {n : ℕ} (h : AtCell con n) :
    AtCell con.drawChar (n + 1) := by
  obtain ⟨htype, hx, hy⟩ := h
  have hnext : (con.curX + 8).toNat = 8 * (n % 40) + 8 := by
    rw [BitVec.toNat_add, hx]
    show (8 * (n % 40) + 8) % 2 ^ 32 = _
    omega
  have hdown : (con.curY + 16).toNat = 16 * ((n / 40 + 1) % 2 ^ 28) := by
    rw [BitVec.toNat_add, hy]
    show (16 * (n / 40 % 2 ^ 28) + 16) % 2 ^ 32 = _
    omega
  have hedge : 320 ≤ con.curX + 8 ↔ n % 40 = 39 := by
    rw [BitVec.le_def, hnext]
    show 320 ≤ 8 * (n % 40) + 8 ↔ n % 40 = 39
    omega
  unfold Console.drawChar
  by_cases hlast : n % 40 = 39
  · rw [if_pos (hedge.mpr hlast)]
    refine ⟨htype, ?_, ?_⟩
    · show 0 = 8 * ((n + 1) % 40)
      omega
    · rw [hdown, show (n + 1) / 40 = n / 40 + 1 by omega]
  · rw [if_neg fun hle => hlast (hedge.mp hle)]
    refine ⟨htype, ?_, ?_⟩
    · rw [hnext]
      omega
    · rw [show (n + 1) / 40 = n / 40 by omega]
      exact hy

section GraphicPrint

variable {s : Screen} (hx : (s.consoleTable 3).curX = 0) (hy : (s.consoleTable 3).curY = 0)

include hx hy

/-- Every character moves the cursor to the next cell. -/
theorem graphicPrint_atCell (text : List Byte) :
    AtCell ((graphicPrint s text).screen.consoleTable 3) text.length := by
  induction text using List.reverseRecOn with
  | nil =>
    refine ⟨rfl, ?_, ?_⟩
    · show (s.consoleTable 3).curX.toNat = 0
      rw [hx]
      rfl
    · show (s.consoleTable 3).curY.toNat = 0
      rw [hy]
      rfl
  | append_singleton text ch ih =>
    have hprint : ((graphicPrint s (text ++ [ch])).screen.consoleTable 3) =
        ((graphicPrint s text).screen.consoleTable 3).drawChar := by
      rw [graphicPrint_concat]
      rcases printChar_cases (graphicPrint s text).screen 3 ch with
        ⟨_, htext, _⟩ | ⟨h, _⟩ | ⟨_, hacc⟩
      · rw [ih.type] at htext
        nomatch htext
      · rw [Graphic.printChar, h, Screen.setConsole_self]
      · have htext := hacc.1
        rw [ih.type] at htext
        nomatch htext
    rw [hprint, List.length_append, List.length_singleton]
    exact ih.drawChar

/-- What one more character draws. -/
theorem graphicPrint_drawn (text : List Byte) (ch : Byte) :
    (graphicPrint s (text ++ [ch])).drawn = (graphicPrint s text).drawn ++
      draw8x16Ch ((graphicPrint s text).screen.consoleTable 3).curX
        ((graphicPrint s text).screen.consoleTable 3).curY ch 5 := by
  rw [graphicPrint_concat]
  exact if_pos (graphicPrint_atCell hx hy text).type

/-! ## The screen -/

/-- The character in cell `i` has no dot below line 199. -/
theorem graphicPrint_char_onScreen_iff (text : List Byte) (ch : Byte) :
    (∀ p ∈ draw8x16Ch ((graphicPrint s text).screen.consoleTable 3).curX
        ((graphicPrint s text).screen.consoleTable 3).curY ch 5, p.OnScreen) ↔
      ∀ y < 16, 200 ≤ 16 * (text.length / 40 % 2 ^ 28) + y → fontByte ch y = 0 := by
  have hcell := graphicPrint_atCell hx hy text
  rw [draw8x16Ch_onScreen_iff, hcell.y]
  · rw [hcell.x]
    omega
  · rw [hcell.y]
    omega

/-- For all texts, printed on the graphic console from (0,0): every point of every character is
    on the screen if and only if each character has blank rows where its cell is below line
    199. -/
theorem graphicPrint_onScreen_iff (text : List Byte) :
    (∀ p ∈ (graphicPrint s text).drawn, p.OnScreen) ↔
      ∀ i ch, text[i]? = some ch →
        ∀ y < 16, 200 ≤ 16 * (i / 40 % 2 ^ 28) + y → fontByte ch y = 0 := by
  induction text using List.reverseRecOn with
  | nil => simp [graphicPrint]
  | append_singleton text ch ih =>
    rw [graphicPrint_drawn hx hy, List.forall_mem_append, ih,
      graphicPrint_char_onScreen_iff hx hy]
    constructor
    · rintro ⟨hold, hnew⟩ i ch' hi
      rcases Nat.lt_trichotomy i text.length with hlt | rfl | hgt
      · rw [List.getElem?_append_left hlt] at hi
        exact hold i ch' hi
      · rw [List.getElem?_concat_length] at hi
        obtain rfl := Option.some.inj hi
        exact hnew
      · have hlen : (text ++ [ch]).length ≤ i := by
          rw [List.length_append, List.length_singleton]
          omega
        rw [List.getElem?_eq_none hlen] at hi
        simp at hi
    · intro hall
      refine ⟨fun i ch' hi => hall i ch' ?_, hall text.length ch List.getElem?_concat_length⟩
      obtain ⟨hlt, _⟩ := List.getElem?_eq_some_iff.mp hi
      rw [List.getElem?_append_left hlt, hi]

end GraphicPrint

/-- At boot the cursor is there; the first 481 characters are spaces. -/
theorem graphicPrint_onScreen_iff_spaces :
    (∀ p ∈ (graphicPrint Terminal.bss.toScreen (List.replicate 481 0x20)).drawn, p.OnScreen) ↔
      ∀ i ch, (List.replicate 481 (0x20 : Byte))[i]? = some ch →
        ∀ y < 16, 200 ≤ 16 * (i / 40 % 2 ^ 28) + y → fontByte ch y = 0 :=
  graphicPrint_onScreen_iff rfl rfl _

/-- Spaces in the twelve lines above, then `A`: its feet are drawn in lines 200 to 203. -/
theorem letter_below_the_screen :
    ¬ ∀ p ∈ (graphicPrint Terminal.bss.toScreen (List.replicate 480 0x20 ++ [0x41])).drawn,
      p.OnScreen := by
  intro hall
  rw [graphicPrint_drawn rfl rfl] at hall
  have hletter := (graphicPrint_char_onScreen_iff rfl rfl (List.replicate 480 0x20) 0x41).mp
    fun p hp => hall p (List.mem_append_right _ hp)
  rw [List.length_replicate] at hletter
  exact absurd (hletter 8 (by omega) (by omega)) (by decide)

end SimpleOs
