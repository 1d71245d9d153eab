import Lvisor.Lib.Output
import Lvisor.Lib.Scroll
import Lvisor.Strings
import Mathlib.Tactic.IntervalCases

/-!
# The screen (`vgacon.c`)

The console writes into the video memory, where each cell of the screen is two bytes, and keeps
its place in two registers of the CRT controller between two writes.

* `vgaconPutc`, `vgaconWrite` — a character, and a text;
* `vgaPage` — the video memory as a page of 24 lines;
* `vgaconPutc_page` — a character is the next mark on that page;
* `vgacon_shows` — after any number of texts the screen has the last 24 lines of all that was
  written.
-/

namespace Lvisor

/-! ## The console

A character is a store of two bytes, a newline moves the place, and behind the last line the
screen is moved up. The registers of the CRT controller are read and written around a text. -/

/-- `vga_vram_base`: the first byte of the text screen. -/
abbrev vgaVramBase : BitVec 64 := 0xb8000#64

/-- `vga_video_num_columns`: the cells of a line. -/
abbrev vgaVideoNumColumns : BitVec 32 := 80#32

/-- `vga_video_num_lines`: the lines that the console uses. -/
abbrev vgaVideoNumLines : BitVec 32 := 24#32

/-- The bytes that the cells of the screen take. -/
abbrev vgaVramSize : ℕ := 3840

/-- The machine as the console sees it: the memory, the index register of the CRT controller, and
the registers behind it. -/
structure Vga where
  mem : Memory
  crtIc : BitVec 8
  crtc : BitVec 8 → BitVec 8

/-- `vga_rcrt`: the number of the register goes to the index register, and then it is read. -/
def vgaRcrt (st : Vga) (reg : BitVec 8) : BitVec 8 × Vga :=
  let st := { st with crtIc := reg }
  (st.crtc st.crtIc, st)

/-- `vga_wcrt`: the number of the register goes to the index register, and then it is written. -/
def vgaWcrt (st : Vga) (reg val : BitVec 8) : Vga :=
  let st := { st with crtIc := reg }
  { st with crtc := Function.update st.crtc st.crtIc val }

/-- `VGA_CRTC_CURSOR_HI`: the register with the upper half of the place. -/
abbrev vgaCrtcCursorHi : BitVec 8 := 0x0e#8

/-- `VGA_CRTC_CURSOR_LO`: the register with its lower half. -/
abbrev vgaCrtcCursorLo : BitVec 8 := 0x0f#8

/-- The end of `vgacon_putc`, where the screen may move. -/
def vgaconScroll (mem : Memory) (cur : BitVec 16) : Memory × BitVec 16 :=
  let size := (vgaVideoNumColumns * vgaVideoNumLines).setWidth 16
  let p := vgaVramBase
  if size ≤ cur then
    let columns := vgaVideoNumColumns.setWidth 64
    let rest := size.setWidth 64 - columns
    let mem := memmove mem p (p + 2 * columns) (2 * rest).toNat
    let mem := memset (2 * columns).toNat mem (p + 2 * rest) 0
    (mem, cur - vgaVideoNumColumns.setWidth 16)
  else (mem, cur)

/-- `vgacon_putc`: the memory and the place behind the character, or behind the line for a
newline. -/
def vgaconPutc (mem : Memory) (cur : BitVec 16) (c : BitVec 8) : Memory × BitVec 16 :=
  if c = 0x0a#8 then
    vgaconScroll mem
      (cur + (vgaVideoNumColumns - cur.setWidth 32 % vgaVideoNumColumns).setWidth 16)
  else
    vgaconScroll (storeLe mem (vgaVramBase + 2 * cur.setWidth 64) (c.setWidth 16 ||| 0x0700))
      (cur + 1)

/-- The loop of `vgacon_write`, with `n` characters left and `s` at the next of them. -/
def vgaconPuts : ℕ → Memory → BitVec 16 → BitVec 64 → Memory × BitVec 16
  | 0, mem, cur, _ => (mem, cur)
  | n + 1, mem, cur, s =>
    let (mem, cur) := vgaconPutc mem cur (mem s)
    vgaconPuts n mem cur (s + 1)

/-- `vgacon_write`: the place is read from the registers, the characters are put, and the place
goes back. -/
def vgaconWrite (st : Vga) (s : BitVec 64) (n : ℕ) : Vga :=
  let (hi, st) := vgaRcrt st vgaCrtcCursorHi
  let cur := hi.setWidth 16 <<< 8
  let (lo, st) := vgaRcrt st vgaCrtcCursorLo
  let cur := cur ||| lo.setWidth 16
  let (mem, cur) := vgaconPuts n st.mem cur s
  let st := { st with mem := mem }
  let st := vgaWcrt st vgaCrtcCursorHi ((cur >>> 8).setWidth 8)
  vgaWcrt st vgaCrtcCursorLo ((cur &&& 0xff).setWidth 8)

/-! ## The page in the video memory -/

/-- A cell of the screen: a character with its attribute. -/
def vgaCell (mem : Memory) (i : ℕ) : BitVec 16 := read16 mem (vgaVramBase + BitVec.ofNat 64 (2 * i))

/-- The screen, with the place that is written next. -/
def vgaPage (mem : Memory) (cur : BitVec 16) : Sheet (BitVec 16) := ⟨vgaCell mem, cur.toNat⟩

/-- What a character is on the screen: a new line, or a light grey letter on black. -/
def vgaMark (c : BitVec 8) : Mark (BitVec 16) :=
  if c = 0x0a#8 then .line else .cell (0x07#8 ++ c)

section Page

variable {mem : Memory} {cur : BitVec 16} {p : BitVec 64} {off n k i : ℕ}

/-- Copied bytes, seen from some address below them. -/
theorem copyTo_add_ofNat {f : ℕ → BitVec 8} (hoff : off + n ≤ 2 ^ 64) (hk : k < 2 ^ 64) :
    copyTo mem (p + BitVec.ofNat 64 off) n f (p + BitVec.ofNat 64 k) =
      if off ≤ k ∧ k < off + n then f (k - off) else mem (p + BitVec.ofNat 64 k) := by
  by_cases hle : off ≤ k
  · have hdist : (p + BitVec.ofNat 64 k - (p + BitVec.ofNat 64 off)).toNat = k - off := by
      bv_omega
    rw [copyTo, hdist]
    exact if_congr (by omega) rfl rfl
  · have hdist : (p + BitVec.ofNat 64 k - (p + BitVec.ofNat 64 off)).toNat =
        2 ^ 64 - (off - k) := by
      bv_omega
    rw [copyTo, hdist, if_neg (by omega), if_neg (by omega)]

theorem vgaCell_eq (mem : Memory) (i : ℕ) :
    vgaCell mem i = mem (vgaVramBase + BitVec.ofNat 64 (2 * i + 1)) ++
      mem (vgaVramBase + BitVec.ofNat 64 (2 * i)) := by
  rw [vgaCell, read16, BitVec.add_assoc, BitVec.ofNat_add]
  rfl

theorem leBytes_append16 (x : BitVec 16) :
    GuestParams.leByte x 1 ++ GuestParams.leByte x 0 = x := by
  refine BitVec.eq_of_getLsbD_eq fun i hi => ?_
  simp only [GuestParams.leByte, BitVec.getLsbD_append, BitVec.getLsbD_setWidth,
    BitVec.getLsbD_ushiftRight]
  split_ifs <;> (rw [decide_eq_true (by omega), Bool.true_and]; congr 1; omega)

/-- A character at the cursor changes the one cell, and no other. -/
theorem vgaCell_storeLe (hcur : cur.toNat < 1920) (hi : i < 1920) (x : BitVec 16) :
    vgaCell (storeLe mem (vgaVramBase + 2 * cur.setWidth 64) x) i =
      if i = cur.toNat then x else vgaCell mem i := by
  have haddr : 2 * cur.setWidth 64 = BitVec.ofNat 64 (2 * cur.toNat) := by bv_omega
  rw [vgaCell_eq, vgaCell_eq, storeLe, haddr, copyTo_add_ofNat (by omega) (by omega),
    copyTo_add_ofNat (by omega) (by omega)]
  by_cases hat : i = cur.toNat
  · subst hat
    rw [if_pos (by omega), if_pos (by omega), if_pos rfl, Nat.add_sub_cancel_left, Nat.sub_self,
      leBytes_append16]
  · rw [if_neg (by omega), if_neg (by omega), if_neg hat]

/-- The video memory moves down by a line, and the last line is cleared. -/
theorem scroll_byte (hk : k < 3840) :
    memset 160 (memmove mem vgaVramBase (vgaVramBase + 160) 3680) (vgaVramBase + 3680) 0
        (vgaVramBase + BitVec.ofNat 64 k) =
      if k < 3680 then mem (vgaVramBase + BitVec.ofNat 64 (160 + k)) else 0 := by
  have hlast : vgaVramBase + 3680 = vgaVramBase + BitVec.ofNat 64 3680 := rfl
  rw [memset_eq _ _ (by decide), memmove_eq_copyTo _ _ _ _ (by decide) (by decide), hlast,
    copyTo_add_ofNat (by decide) (by omega)]
  split_ifs with hin hfirst hfirst
  · omega
  · rfl
  · have hoff : (vgaVramBase + BitVec.ofNat 64 k - vgaVramBase).toNat = k :=
      toNat_add_ofNat_sub (by omega)
    rw [copyTo, hoff, if_pos hfirst, BitVec.ofNat_add, ← BitVec.add_assoc]
    rfl
  · omega

/-- The screen moves up by a line, and the last line is empty. -/
theorem vgaCell_scroll (hi : i < 1920) :
    vgaCell (memset 160 (memmove mem vgaVramBase (vgaVramBase + 160) 3680) (vgaVramBase + 3680)
        0) i =
      if i + 80 < 1920 then vgaCell mem (i + 80) else 0 := by
  rw [vgaCell_eq, vgaCell_eq, scroll_byte (by omega), scroll_byte (by omega)]
  by_cases hin : i + 80 < 1920
  · have hhigh : 160 + (2 * i + 1) = 2 * (i + 80) + 1 := by omega
    have hlow : 160 + 2 * i = 2 * (i + 80) := by omega
    rw [if_pos (by omega), if_pos (by omega), if_pos hin, hhigh, hlow]
  · rw [if_neg (by omega), if_neg (by omega), if_neg hin]
    rfl

/-- The page moves up if the place is behind its last line. -/
theorem vgaconScroll_page {page : Sheet (BitVec 16)} (hpos : cur.toNat = page.pos)
    (hcells : ∀ i < 1920, vgaCell mem i = page.cells i) :
    let next := vgaconScroll mem cur
    let page' := if 24 * 80 ≤ page.pos then page.scroll 80 24 0 else page
    next.2.toNat = page'.pos ∧ ∀ i < 1920, vgaCell next.1 i = page'.cells i := by
  intro next page'
  have hsize : (vgaVideoNumColumns * vgaVideoNumLines).setWidth 16 ≤ cur ↔ 24 * 80 ≤ page.pos := by
    rw [BitVec.le_def, hpos]
    rfl
  by_cases hfull : 24 * 80 ≤ page.pos
  · have hnext : next = (memset 160 (memmove mem vgaVramBase (vgaVramBase + 160) 3680)
        (vgaVramBase + 3680) 0, cur - 80#16) := if_pos (hsize.mpr hfull)
    have hpage : page' = page.scroll 80 24 0 := if_pos hfull
    rw [hnext, hpage]
    refine ⟨?_, fun i hi => ?_⟩
    · have hle : (80#16).toNat ≤ cur.toNat := by
        rw [hpos]
        exact Nat.le_trans (by decide) hfull
      rw [BitVec.toNat_sub_of_le hle, hpos]
      rfl
    · rw [vgaCell_scroll hi]
      simp only [Sheet.scroll]
      split_ifs with hin
      · exact hcells _ hin
      · rfl
  · have hnext : next = (mem, cur) := if_neg fun h => hfull (hsize.mp h)
    have hpage : page' = page := if_neg hfull
    rw [hnext, hpage]
    exact ⟨hpos, hcells⟩

/-- A character is the next mark on the page. -/
theorem vgaconPutc_page (mem : Memory) (hcur : cur.toNat < 1920) (c : BitVec 8) :
    let next := vgaconPutc mem cur c
    let page := (vgaPage mem cur).putOn 80 24 0 (vgaMark c)
    next.2.toNat = page.pos ∧ ∀ i < 1920, vgaCell next.1 i = page.cells i := by
  unfold vgaconPutc vgaMark
  by_cases hline : c = 0x0a#8
  · rw [if_pos hline, if_pos hline]
    have hcol : (cur.setWidth 32 % vgaVideoNumColumns).toNat = cur.toNat % 80 := by
      rw [BitVec.toNat_umod, BitVec.toNat_setWidth_of_le (by decide)]
      rfl
    have hlt : cur.toNat % 80 < 80 := Nat.mod_lt _ (by decide)
    have hpos : (cur + (vgaVideoNumColumns - cur.setWidth 32 % vgaVideoNumColumns).setWidth
        16).toNat = cur.toNat + (80 - cur.toNat % 80) := by bv_omega
    exact vgaconScroll_page hpos fun i hi => rfl
  · rw [if_neg hline, if_neg hline]
    have hvalue : c.setWidth 16 ||| 0x0700 = 0x07#8 ++ c := by
      rw [BitVec.or_comm]
      rfl
    have hpos : (cur + 1).toNat = cur.toNat + 1 := by bv_omega
    have hcells (i : ℕ) (hi : i < 1920) :
        vgaCell (storeLe mem (vgaVramBase + 2 * cur.setWidth 64) (c.setWidth 16 ||| 0x0700)) i =
          ((vgaPage mem cur).put 80 (.cell (0x07#8 ++ c))).cells i := by
      rw [vgaCell_storeLe hcur hi, hvalue]
      simp only [Sheet.put, vgaPage]
      rw [Function.update_apply]
    exact vgaconScroll_page hpos hcells

/-- The bytes of the screen are all that moves. -/
theorem vgaconScroll_frame (ha : ¬Within vgaVramBase vgaVramSize p) :
    (vgaconScroll mem cur).1 p = mem p := by
  by_cases hfull : (vgaVideoNumColumns * vgaVideoNumLines).setWidth 16 ≤ cur
  · have hnext : vgaconScroll mem cur = (memset 160 (memmove mem vgaVramBase (vgaVramBase + 160)
        3680) (vgaVramBase + 3680) 0, cur - 80#16) := if_pos hfull
    have hfar : 3840 ≤ (p - vgaVramBase).toNat := Nat.le_of_not_lt ha
    have hlast : ¬Within (vgaVramBase + 3680) 160 p := by
      unfold Within
      bv_omega
    have hfirst : ¬Within vgaVramBase 3680 p := fun h => ha (h.mono (by decide))
    have hset (mem' : Memory) : memset 160 mem' (vgaVramBase + 3680) 0 p = mem' p := by
      rw [memset_eq _ _ (by decide), copyTo_of_not_within hlast]
    have hmove : memmove mem vgaVramBase (vgaVramBase + 160) 3680 p = mem p := by
      rw [memmove_eq_copyTo _ _ _ _ (by decide) (by decide), copyTo_of_not_within hfirst]
    rw [hnext]
    exact (hset _).trans hmove
  · have hnext : vgaconScroll mem cur = (mem, cur) := if_neg hfull
    rw [hnext]

theorem vgaconPutc_frame (mem : Memory) (hcur : cur.toNat < 1920) (c : BitVec 8)
    (ha : ¬Within vgaVramBase vgaVramSize p) : (vgaconPutc mem cur c).1 p = mem p := by
  unfold vgaconPutc
  split_ifs
  · exact vgaconScroll_frame ha
  · rw [vgaconScroll_frame ha]
    have hfar : 3840 ≤ (p - vgaVramBase).toNat := Nat.le_of_not_lt ha
    exact storeLe_of_le (by bv_omega)

end Page

/-! ## What is on the screen

The texts are on paper without an end, and the screen has the last 24 lines of it. A text must
not be on the screen itself, which would change while it is read. -/

/-- `n` characters from `s` on, as memory has them. -/
def vgaChars (mem : Memory) (s : BitVec 64) (n : ℕ) : List (BitVec 8) :=
  (List.range n).map fun i => mem (s + BitVec.ofNat 64 i)

/-- The characters are not on the screen itself, where the text would change while it is written. -/
def OffScreen (s : BitVec 64) (n : ℕ) : Prop :=
  ∀ i < n, ¬Within vgaVramBase vgaVramSize (s + BitVec.ofNat 64 i)

instance (s : BitVec 64) (n : ℕ) : Decidable (OffScreen s n) :=
  inferInstanceAs (Decidable (∀ i < n, ¬Within vgaVramBase vgaVramSize (s + BitVec.ofNat 64 i)))

/-- The characters as they come on the endless paper, one after the other. -/
def typed (paper : Sheet (BitVec 16)) (text : List (BitVec 8)) : Sheet (BitVec 16) :=
  (text.map vgaMark).foldl (Sheet.put 80) paper

section Screen

variable {mem mem₀ : Memory} {cur : BitVec 16} {s : BitVec 64} {n top : ℕ}
  {paper : Sheet (BitVec 16)} {st : Vga}

theorem vgaChars_succ (mem : Memory) (s : BitVec 64) (n : ℕ) :
    vgaChars mem s (n + 1) = mem s :: vgaChars mem (s + 1) n := by
  have hfirst : s + BitVec.ofNat 64 0 = s := BitVec.add_zero s
  have hrest : (fun i => mem (s + BitVec.ofNat 64 i)) ∘ Nat.succ =
      fun i => mem (s + 1 + BitVec.ofNat 64 i) := by
    funext i
    exact congrArg mem (add_one_add_ofNat s i).symm
  rw [vgaChars, List.range_succ_eq_map, List.map_cons, List.map_map, hfirst, hrest]
  rfl

theorem OffScreen.tail (hoff : OffScreen s (n + 1)) : OffScreen (s + 1) n := by
  intro i hi
  rw [add_one_add_ofNat]
  exact hoff (i + 1) (Nat.succ_lt_succ hi)

theorem OffScreen.vgaChars_eq (hoff : OffScreen s n)
    (hkept : ∀ a, ¬Within vgaVramBase vgaVramSize a → mem a = mem₀ a) :
    vgaChars mem s n = vgaChars mem₀ s n :=
  List.map_congr_left fun i hi => hkept _ (hoff i (List.mem_range.mp hi))

/-- One character: the screen still shows the paper with that character on it. -/
theorem Shows.vgaconPutc (hs : Shows 80 24 0 top paper (vgaPage mem cur)) (c : BitVec 8) :
    ∃ top', Shows 80 24 0 top' (paper.put 80 (vgaMark c))
      (vgaPage (vgaconPutc mem cur c).1 (vgaconPutc mem cur c).2) := by
  obtain ⟨hpos, hcells⟩ := vgaconPutc_page mem hs.pos_lt c
  obtain ⟨top', hs'⟩ := hs.putOn (by decide) (by decide) (vgaMark c)
  exact ⟨top', hs'.congr hpos hcells⟩

/-- The loop of `vgacon_write`, by induction over the characters that are left. -/
theorem Shows.vgaconPuts (hs : Shows 80 24 0 top paper (vgaPage mem cur)) (hoff : OffScreen s n) :
    let next := vgaconPuts n mem cur s
    (∃ top', Shows 80 24 0 top' (typed paper (vgaChars mem s n)) (vgaPage next.1 next.2)) ∧
      ∀ a, ¬Within vgaVramBase vgaVramSize a → next.1 a = mem a := by
  induction n generalizing mem cur s top paper with
  | zero => exact ⟨⟨top, hs⟩, fun a ha => rfl⟩
  | succ n ih =>
    obtain ⟨top', hs'⟩ := hs.vgaconPutc (mem s)
    have hkept := fun (a : BitVec 64) (ha : ¬Within vgaVramBase vgaVramSize a) =>
      vgaconPutc_frame mem hs.pos_lt (mem s) ha
    obtain ⟨hshows, hframe⟩ := ih hs' hoff.tail
    rw [hoff.tail.vgaChars_eq hkept] at hshows
    rw [vgaChars_succ]
    exact ⟨hshows, fun a ha => (hframe a ha).trans (hkept a ha)⟩

/-- The place that the two registers have. -/
def Vga.cursor (st : Vga) : BitVec 16 := st.crtc vgaCrtcCursorHi ++ st.crtc vgaCrtcCursorLo

theorem cursor_append (hi lo : BitVec 8) :
    hi.setWidth 16 <<< 8 ||| lo.setWidth 16 = hi ++ lo := by
  refine BitVec.eq_of_getLsbD_eq fun i hi => ?_
  simp only [BitVec.getLsbD_or, BitVec.getLsbD_shiftLeft, BitVec.getLsbD_setWidth,
    BitVec.getLsbD_append]
  by_cases hlow : i < 8
  · simp [hlow, hi]
  · have hbeyond : lo.getLsbD i = false := BitVec.getLsbD_of_ge lo i (by omega)
    have hin : i - 8 < 16 := by omega
    simp [hlow, hbeyond, hi, hin]

theorem word_append (x : BitVec 16) :
    (x >>> 8).setWidth 8 ++ (x &&& 0xff).setWidth 8 = x := by
  refine BitVec.eq_of_getLsbD_eq fun i hi => ?_
  simp only [BitVec.getLsbD_append, BitVec.getLsbD_setWidth, BitVec.getLsbD_ushiftRight,
    BitVec.getLsbD_and]
  by_cases hlow : i < 8
  · interval_cases i <;> simp
  · have hin : i - 8 < 8 := by omega
    have hback : 8 + (i - 8) = i := by omega
    simp [hlow, hin, hback]

/-- `vgacon_write` is its loop, from the place in the registers and back to them. -/
theorem vgaconWrite_eq (st : Vga) (s : BitVec 64) (n : ℕ) :
    let next := vgaconPuts n st.mem st.cursor s
    (vgaconWrite st s n).mem = next.1 ∧ (vgaconWrite st s n).cursor = next.2 ∧
      ∀ r, r ≠ vgaCrtcCursorHi → r ≠ vgaCrtcCursorLo →
        (vgaconWrite st s n).crtc r = st.crtc r := by
  intro next
  have hnext : next = vgaconPuts n st.mem ((st.crtc vgaCrtcCursorHi).setWidth 16 <<< 8 |||
      (st.crtc vgaCrtcCursorLo).setWidth 16) s := by rw [cursor_append]; rfl
  have hregs : (vgaconWrite st s n).crtc = Function.update (Function.update st.crtc vgaCrtcCursorHi
      ((next.2 >>> 8).setWidth 8)) vgaCrtcCursorLo ((next.2 &&& 0xff).setWidth 8) := by
    rw [hnext]; rfl
  refine ⟨by rw [hnext]; rfl, ?_, fun r hhi hlo => ?_⟩
  · rw [Vga.cursor, hregs, Function.update_self, Function.update_of_ne (by decide),
      Function.update_self]
    exact word_append _
  · rw [hregs, Function.update_of_ne hlo, Function.update_of_ne hhi]

end Screen

/-- A call of `vgacon_write`, with the memory as it is then. -/
structure VgaCall where
  mem : Memory
  s : BitVec 64
  n : ℕ

/-- The screen from one memory, and the rest from another. -/
def screenOf (screen rest : Memory) : Memory :=
  fun a => if Within vgaVramBase vgaVramSize a then screen a else rest a

/-- The call, where anything may have happened to the memory since the last one, except to the
screen. -/
def Vga.call (st : Vga) (c : VgaCall) : Vga :=
  vgaconWrite { st with mem := screenOf st.mem c.mem } c.s c.n

/-- What a call has to write, as memory has it at the time. -/
def VgaCall.text (c : VgaCall) : List (BitVec 8) := vgaChars c.mem c.s c.n

/-- Outside of the screen the memory is that of the last call, and of the registers only those of
the cursor have changed. -/
def Vga.Keeps (st st' : Vga) (mem : Memory) : Prop :=
  (∀ a, ¬Within vgaVramBase vgaVramSize a → st'.mem a = mem a) ∧
    ∀ r, r ≠ vgaCrtcCursorHi → r ≠ vgaCrtcCursorLo → st'.crtc r = st.crtc r

section Calls

variable {top : ℕ} {paper : Sheet (BitVec 16)} {st : Vga} {c : VgaCall} {cs : List VgaCall}

theorem vgaCell_screenOf {screen rest : Memory} {i : ℕ} (hi : i < 1920) :
    vgaCell (screenOf screen rest) i = vgaCell screen i := by
  have hbyte (k : ℕ) (hk : k < 3840) : screenOf screen rest (vgaVramBase + BitVec.ofNat 64 k) =
      screen (vgaVramBase + BitVec.ofNat 64 k) := if_pos (within_add hk (by decide))
  rw [vgaCell_eq, vgaCell_eq, hbyte _ (by omega), hbyte _ (by omega)]

/-- One call, from the registers and back to them. -/
theorem Shows.call (hs : Shows 80 24 0 top paper (vgaPage st.mem st.cursor))
    (hoff : OffScreen c.s c.n) :
    (∃ top', Shows 80 24 0 top' (typed paper c.text) (vgaPage (st.call c).mem (st.call c).cursor)) ∧
      st.Keeps (st.call c) c.mem := by
  have hrest : ∀ a, ¬Within vgaVramBase vgaVramSize a → screenOf st.mem c.mem a = c.mem a :=
    fun a ha => if_neg ha
  have hpage : Shows 80 24 0 top paper (vgaPage (screenOf st.mem c.mem) st.cursor) :=
    hs.congr rfl fun i hi => vgaCell_screenOf hi
  obtain ⟨hmem, hcursor, hregs⟩ := vgaconWrite_eq { st with mem := screenOf st.mem c.mem } c.s c.n
  obtain ⟨hshows, hframe⟩ := hpage.vgaconPuts hoff
  rw [hoff.vgaChars_eq hrest] at hshows
  rw [VgaCall.text, Vga.call, hmem, hcursor]
  refine ⟨hshows, fun a ha => ?_, hregs⟩
  rw [hmem]
  exact (hframe a ha).trans (hrest a ha)

/-- Any number of calls, by induction: the screen shows all that was written. -/
theorem Shows.calls (hs : Shows 80 24 0 top paper (vgaPage st.mem st.cursor))
    (hoff : ∀ c ∈ cs, OffScreen c.s c.n) :
    (∃ top', Shows 80 24 0 top' (typed paper (cs.flatMap VgaCall.text))
      (vgaPage (cs.foldl Vga.call st).mem (cs.foldl Vga.call st).cursor)) ∧
      st.Keeps (cs.foldl Vga.call st) ((cs.getLast?.map VgaCall.mem).getD st.mem) := by
  induction cs generalizing st top paper with
  | nil => exact ⟨⟨top, hs⟩, fun a ha => rfl, fun r hhi hlo => rfl⟩
  | cons c cs ih =>
    obtain ⟨⟨top', hs'⟩, hkeeps⟩ := hs.call (hoff c List.mem_cons_self)
    obtain ⟨hshows, hmem, hregs⟩ := ih hs' fun c' hc' => hoff c' (List.mem_cons_of_mem c hc')
    rw [typed, typed, ← List.foldl_append, ← List.map_append] at hshows
    refine ⟨hshows, fun a ha => ?_, fun r hhi hlo => ?_⟩
    · rw [List.foldl_cons, hmem a ha, List.getLast?_cons]
      cases cs.getLast? with
      | none => exact hkeeps.1 a ha
      | some last => rfl
    · exact (hregs r hhi hlo).trans (hkeeps.2 r hhi hlo)

/-- **The screen** has the last 24 lines of all that was written, as on paper without an end that
starts with what the screen had. The registers have the place after the last character, and
nothing else is written to. -/
theorem vgacon_shows (st : Vga) (calls : List VgaCall) (hcur : st.cursor.toNat < 1920)
    (hoff : ∀ c ∈ calls, OffScreen c.s c.n) :
    let st' := calls.foldl Vga.call st
    let paper := typed ⟨fun i => if i < 1920 then vgaCell st.mem i else 0, st.cursor.toNat⟩
      (calls.flatMap VgaCall.text)
    let top := paper.pos / 80 + 1 - 24
    (∀ i < 1920, vgaCell st'.mem i = paper.cells (top * 80 + i)) ∧
      paper.pos = top * 80 + st'.cursor.toNat ∧ st'.cursor.toNat < 1920 ∧
      st.Keeps st' ((calls.getLast?.map VgaCall.mem).getD st.mem) := by
  intro st' paper top
  have hstart := Shows.start 80 24 0 (vgaPage st.mem st.cursor) hcur
  obtain ⟨⟨top', hs⟩, hkeeps⟩ := hstart.calls hoff
  have htop : top' = top := hs.top_eq (by decide)
  subst htop
  exact ⟨hs.cells_eq, hs.pos_eq, hs.pos_lt, hkeeps⟩

/-- A screen of zeroes, and the cursor in its last line. -/
def vgaBlank : Vga where
  mem _ := 0
  crtIc := 0
  crtc r := if r = vgaCrtcCursorHi then 0x07 else 0x70

/-- Two lines to it, as a single text with a newline in it. -/
def vgaTwoLines : List VgaCall := [⟨fun a => if a = 1 then 0x0a else 0x41, 0, 3⟩]

theorem vgacon_shows_twoLines :
    let st' := vgaTwoLines.foldl Vga.call vgaBlank
    let paper := typed ⟨fun i => if i < 1920 then vgaCell vgaBlank.mem i else 0,
      vgaBlank.cursor.toNat⟩ (vgaTwoLines.flatMap VgaCall.text)
    let top := paper.pos / 80 + 1 - 24
    (∀ i < 1920, vgaCell st'.mem i = paper.cells (top * 80 + i)) ∧
      paper.pos = top * 80 + st'.cursor.toNat ∧ st'.cursor.toNat < 1920 ∧
      vgaBlank.Keeps st' ((vgaTwoLines.getLast?.map VgaCall.mem).getD vgaBlank.mem) :=
  vgacon_shows vgaBlank vgaTwoLines (by decide) (by
    intro c hc
    obtain rfl := List.mem_singleton.mp hc
    change OffScreen 0 3
    decide)

end Calls

end Lvisor
