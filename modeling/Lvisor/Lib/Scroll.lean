import Mathlib.Data.Nat.Notation
import Mathlib.Logic.Function.Basic
import Mathlib.Tactic.SplitIfs

/-!
# A page that scrolls

A text is written cell by cell, in lines of a fixed width. On paper without an end nothing else
happens; a page of so many lines moves up by one when its last line is full.

* `Sheet.put` — the next mark on a sheet, as on endless paper;
* `Sheet.putOn` — the next mark on a page;
* `Shows` — the page has the lines of the paper from one of them on, and below there is nothing;
* `Shows.putOn`, `Shows.foldl` — writing keeps that, from one mark and from a text;
* `Shows.top_eq` — which line the page starts with.
-/

namespace Lvisor

universe u

variable {α : Type u}

/-- What is written: a new line, or one cell. -/
inductive Mark (α : Type u) where
  | line
  | cell (a : α)

/-- Cells, and the one that is written next. -/
structure Sheet (α : Type u) where
  cells : ℕ → α
  pos : ℕ

namespace Sheet

/-- The next mark, in lines of `w` cells. -/
def put (w : ℕ) (s : Sheet α) : Mark α → Sheet α
  | .line => { s with pos := s.pos + (w - s.pos % w) }
  | .cell a => ⟨Function.update s.cells s.pos a, s.pos + 1⟩

/-- The page of `h` lines moves up by one. -/
def scroll (w h : ℕ) (blank : α) (s : Sheet α) : Sheet α where
  cells i := if i + w < h * w then s.cells (i + w) else blank
  pos := s.pos - w

/-- The next mark on a page. -/
def putOn (w h : ℕ) (blank : α) (s : Sheet α) (m : Mark α) : Sheet α :=
  let s := s.put w m
  if h * w ≤ s.pos then s.scroll w h blank else s

end Sheet

/-- The page has the `h` lines of the paper from line `top` on, which are the last ones. -/
structure Shows (w h : ℕ) (blank : α) (top : ℕ) (paper page : Sheet α) : Prop where
  pos_eq : paper.pos = top * w + page.pos
  pos_lt : page.pos < h * w
  /-- it has not moved further than it had to -/
  last : top = 0 ∨ (h - 1) * w ≤ page.pos
  cells_eq : ∀ i < h * w, page.cells i = paper.cells (top * w + i)
  below : ∀ i, top * w + h * w ≤ i → paper.cells i = blank

namespace Shows

variable {w h top : ℕ} {blank : α} {paper page page' : Sheet α} {m : Mark α}

/-- Only the cells of the page count. -/
theorem congr (hs : Shows w h blank top paper page) (hpos : page'.pos = page.pos)
    (hcells : ∀ i < h * w, page'.cells i = page.cells i) : Shows w h blank top paper page' where
  pos_eq := by rw [hpos, hs.pos_eq]
  pos_lt := by rw [hpos]; exact hs.pos_lt
  last := by rw [hpos]; exact hs.last
  cells_eq i hi := by rw [hcells i hi, hs.cells_eq i hi]
  below := hs.below

/-- A page that has not moved yet. -/
theorem start (w h : ℕ) (blank : α) (page : Sheet α) (hlt : page.pos < h * w) :
    Shows w h blank 0 ⟨fun i => if i < h * w then page.cells i else blank, page.pos⟩ page where
  pos_eq := by rw [Nat.zero_mul, Nat.zero_add]
  pos_lt := hlt
  last := .inl rfl
  cells_eq i hi := by
    rw [Nat.zero_mul, Nat.zero_add]
    exact (if_pos hi).symm
  below i hi := by
    rw [Nat.zero_mul, Nat.zero_add] at hi
    exact if_neg (Nat.not_lt.mpr hi)

/-- The line of the paper that the page starts with. -/
theorem top_eq (hs : Shows w h blank top paper page) (hw : 0 < w) :
    top = paper.pos / w + 1 - h := by
  have hline : paper.pos / w = top + page.pos / w := by
    rw [hs.pos_eq, Nat.add_comm, Nat.add_mul_div_right _ _ hw, Nat.add_comm]
  have hlt : page.pos / w < h := Nat.div_lt_of_lt_mul (by rw [Nat.mul_comm]; exact hs.pos_lt)
  rcases hs.last with htop | hlast
  · omega
  · have hge : h - 1 ≤ page.pos / w := (Nat.le_div_iff_mul_le hw).mpr hlast
    omega

/-- Before the page may move, the mark is where it is on the paper. -/
theorem put_pos (hs : Shows w h blank top paper page) :
    (paper.put w m).pos = top * w + (page.put w m).pos := by
  cases m with
  | line =>
    have hmod : paper.pos % w = page.pos % w := by rw [hs.pos_eq, Nat.mul_add_mod_self_right]
    simp only [Sheet.put]
    rw [hmod, hs.pos_eq, Nat.add_assoc]
  | cell a =>
    simp only [Sheet.put]
    rw [hs.pos_eq, Nat.add_assoc]

theorem put_cells (hs : Shows w h blank top paper page) {i : ℕ} (hi : i < h * w) :
    (page.put w m).cells i = (paper.put w m).cells (top * w + i) := by
  cases m with
  | line => exact hs.cells_eq i hi
  | cell a =>
    simp only [Sheet.put]
    by_cases hat : i = page.pos
    · rw [hat, ← hs.pos_eq, Function.update_self, Function.update_self]
    · have hne : top * w + i ≠ paper.pos := by
        rw [hs.pos_eq]
        omega
      rw [Function.update_of_ne hat, Function.update_of_ne hne, hs.cells_eq i hi]

theorem put_below (hs : Shows w h blank top paper page) {i : ℕ} (hi : top * w + h * w ≤ i) :
    (paper.put w m).cells i = blank := by
  cases m with
  | line => exact hs.below i hi
  | cell a =>
    have hne : i ≠ paper.pos := by
      have hlt := hs.pos_lt
      rw [hs.pos_eq]
      omega
    simp only [Sheet.put]
    rw [Function.update_of_ne hne, hs.below i hi]

/-- A mark goes further, and at most to the start of the line after the page. -/
theorem put_pos_bounds (hs : Shows w h blank top paper page) (hw : 0 < w) :
    page.pos ≤ (page.put w m).pos ∧ (page.put w m).pos ≤ h * w := by
  have hlt := hs.pos_lt
  cases m with
  | line =>
    refine ⟨Nat.le_add_right _ _, ?_⟩
    have hrow : page.pos / w + 1 ≤ h :=
      Nat.div_lt_of_lt_mul (by rw [Nat.mul_comm]; exact hs.pos_lt)
    have hend : (page.pos / w + 1) * w ≤ h * w := Nat.mul_le_mul_right w hrow
    have hsplit := Nat.div_add_mod' page.pos w
    have hmod := Nat.mod_lt page.pos hw
    rw [Nat.add_mul, Nat.one_mul] at hend
    simp only [Sheet.put]
    omega
  | cell a => exact ⟨Nat.le_succ _, hlt⟩

/-- The next mark: the page moves up if it has to. -/
theorem putOn (hs : Shows w h blank top paper page) (hw : 0 < w) (hh : 0 < h) (m : Mark α) :
    ∃ top', Shows w h blank top' (paper.put w m) (page.putOn w h blank m) := by
  have hpos := hs.put_pos (m := m)
  obtain ⟨hforth, hfits⟩ := hs.put_pos_bounds (m := m) hw
  have hlines : (h - 1) * w + w = h * w := by
    rw [← Nat.succ_mul, Nat.succ_eq_add_one, Nat.sub_add_cancel hh]
  dsimp only [Sheet.putOn]
  split_ifs with hfull
  · have hmoved : (top + 1) * w = top * w + w := Nat.succ_mul top w
    refine ⟨top + 1, ?_, ?_, .inr ?_, fun i hi => ?_, fun i hi => ?_⟩
    · simp only [Sheet.scroll]
      omega
    · simp only [Sheet.scroll]
      omega
    · simp only [Sheet.scroll]
      omega
    · simp only [Sheet.scroll]
      split_ifs with hin
      · rw [hs.put_cells hin, hmoved]
        congr 1
        omega
      · exact (hs.put_below (by omega)).symm
    · exact hs.put_below (by omega)
  · exact ⟨top, hpos, Nat.lt_of_not_le hfull, hs.last.imp_right (Nat.le_trans · hforth),
      fun i hi => hs.put_cells hi, fun i hi => hs.put_below hi⟩

/-- A text. -/
theorem foldl (hs : Shows w h blank top paper page) (hw : 0 < w) (hh : 0 < h)
    (text : List (Mark α)) :
    ∃ top', Shows w h blank top' (text.foldl (Sheet.put w) paper)
      (text.foldl (Sheet.putOn w h blank) page) := by
  induction text generalizing top paper page with
  | nil => exact ⟨top, hs⟩
  | cons m text ih =>
    obtain ⟨top', hs'⟩ := hs.putOn hw hh m
    exact ih hs'

end Shows

end Lvisor
