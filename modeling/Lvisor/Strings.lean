import Lvisor.Elf
import Mathlib.Data.List.Infix

/-!
# Memory and strings (`lib/string.c`)

* `memmove` — a copy of bytes, where the two areas may have some in common (`memmove_eq_copyTo`);
* `strlen`, `strnlen`, `strchr`, `strrchr` — searches in one string;
* `memcmp`, `strcmp`, `strncmp` — comparisons, which are that of lists of bytes;
* `strstr` — the search for a string in another (`strstr_first`).

The functions that only read do so from the part of memory that they may read, so that a result
means that they have read nothing else. A string ends with the first byte that is zero.
-/

namespace Lvisor

/-! ## `memmove` -/

/-- The loop of `memmove` that goes down, from the last byte on. -/
def memmoveDown : ℕ → Memory → BitVec 64 → BitVec 64 → Memory
  | 0, mem, _, _ => mem
  | count + 1, mem, tmp, s =>
    memmoveDown count (Function.update mem (tmp - 1) (mem (s - 1))) (tmp - 1) (s - 1)

/-- `memmove`. Its loop that goes up is that of `memcpy`. -/
def memmove (mem : Memory) (dest src : BitVec 64) (count : ℕ) : Memory :=
  if dest ≤ src then memcpy count mem dest src
  else memmoveDown count mem (dest + BitVec.ofNat 64 count) (src + BitVec.ofNat 64 count)

section Move

variable {mem : Memory} {dest src : BitVec 64} {n : ℕ}

/-- Bytes that lie above the destination are read before they are written. -/
theorem memcpy_of_le (hle : dest.toNat ≤ src.toNat) (hsrc : src.toNat + n ≤ 2 ^ 64) :
    memcpy n mem dest src = copyTo mem dest n fun i => mem (src + BitVec.ofNat 64 i) := by
  induction n generalizing mem dest src with
  | zero => rfl
  | succ n ih =>
    have hfirst : mem (src + BitVec.ofNat 64 0) = mem src := congrArg mem (BitVec.add_zero src)
    rw [memcpy]
    cases n with
    | zero =>
      rw [memcpy, ← copyTo_update_succ (by decide), hfirst]
      rfl
    | succ n =>
      have hnext : (src + 1).toNat = src.toNat + 1 := by bv_omega
      have hnext' : (dest + 1).toNat = dest.toNat + 1 := by bv_omega
      have hkept : ∀ i < n + 1, Function.update mem dest (mem src) (src + 1 + BitVec.ofNat 64 i) =
          mem (src + BitVec.ofNat 64 (i + 1)) := by
        intro i hi
        have haddr : (src + BitVec.ofNat 64 (i + 1)).toNat = src.toNat + (i + 1) :=
          toNat_add_ofNat (by omega)
        rw [add_one_add_ofNat, Function.update_of_ne]
        intro heq
        rw [heq] at haddr
        omega
      rw [ih (by omega) (by omega)]
      refine Eq.trans ?_ (copyTo_update_succ (by omega))
      rw [hfirst]
      funext a
      unfold copyTo
      split_ifs with ha
      · exact hkept _ ha
      · rfl

/-- A store of the last byte of a range, and then of the others. -/
theorem copyTo_update_last {f : ℕ → BitVec 8} (hn : n < 2 ^ 64) :
    copyTo (Function.update mem (dest + BitVec.ofNat 64 n) (f n)) dest n f =
      copyTo mem dest (n + 1) f := by
  funext a
  unfold copyTo
  by_cases ha : a = dest + BitVec.ofNat 64 n
  · subst ha
    rw [toNat_add_ofNat_sub hn, if_neg (Nat.lt_irrefl n), if_pos (Nat.lt_succ_self n),
      Function.update_self]
  · have hne : (a - dest).toNat ≠ n := fun heq => ha (by rw [← heq, add_ofNat_toNat_sub])
    rw [Function.update_of_ne ha]
    by_cases hlt : (a - dest).toNat < n
    · rw [if_pos hlt, if_pos (Nat.lt_succ_of_lt hlt)]
    · rw [if_neg hlt, if_neg (by omega)]

/-- Bytes that lie below the destination are read before they are written. -/
theorem memmoveDown_of_lt (hlt : src.toNat < dest.toNat) (hdest : dest.toNat + n ≤ 2 ^ 64) :
    memmoveDown n mem (dest + BitVec.ofNat 64 n) (src + BitVec.ofNat 64 n) =
      copyTo mem dest n fun i => mem (src + BitVec.ofNat 64 i) := by
  induction n generalizing mem with
  | zero => rfl
  | succ n ih =>
    have hback : ∀ p : BitVec 64, p + BitVec.ofNat 64 (n + 1) - 1 = p + BitVec.ofNat 64 n := by
      intro p
      rw [BitVec.ofNat_add, ← BitVec.add_assoc]
      exact BitVec.add_sub_cancel _ _
    have hlast : (dest + BitVec.ofNat 64 n).toNat = dest.toNat + n := toNat_add_ofNat (by omega)
    rw [memmoveDown, hback, hback, ih (by omega),
      ← copyTo_update_last (f := fun i => mem (src + BitVec.ofNat 64 i)) (by omega)]
    funext a
    unfold copyTo
    split_ifs with ha
    · have haddr : (src + BitVec.ofNat 64 (a - dest).toNat).toNat =
          src.toNat + (a - dest).toNat := toNat_add_ofNat (by omega)
      refine Function.update_of_ne ?_ _ _
      intro heq
      rw [heq] at haddr
      omega
    · rfl

end Move

/-- The bytes are copied as they were, whichever of them the two areas have in common. -/
theorem memmove_eq_copyTo (mem : Memory) (dest src : BitVec 64) (n : ℕ)
    (hdest : dest.toNat + n ≤ 2 ^ 64) (hsrc : src.toNat + n ≤ 2 ^ 64) :
    memmove mem dest src n = copyTo mem dest n fun i => mem (src + BitVec.ofNat 64 i) := by
  unfold memmove
  split_ifs with hle
  · exact memcpy_of_le hle hsrc
  · exact memmoveDown_of_lt (Nat.lt_of_not_le hle) hdest

/-- **`memmove`** leaves at the destination what was at the source, and the rest as it was. -/
theorem memmove_moves (mem : Memory) (dest src : BitVec 64) (n : ℕ)
    (hdest : dest.toNat + n ≤ 2 ^ 64) (hsrc : src.toNat + n ≤ 2 ^ 64) :
    (∀ i < n, memmove mem dest src n (dest + BitVec.ofNat 64 i) =
      mem (src + BitVec.ofNat 64 i)) ∧
      ∀ a, ¬Within dest n a → memmove mem dest src n a = mem a := by
  rw [memmove_eq_copyTo mem dest src n hdest hsrc]
  refine ⟨fun i hi => ?_, fun a ha => if_neg ha⟩
  have hoffset : (dest + BitVec.ofNat 64 i - dest).toNat = i := toNat_add_ofNat_sub (by omega)
  rw [copyTo, hoffset, if_pos hi]

/-- Eight bytes moved up and down by three. -/
theorem memmove_moves_overlap :
    (∀ i < 8, memmove (fun a => a.setWidth 8) 0x13 0x10 8 (0x13 + BitVec.ofNat 64 i) =
      (0x10 + BitVec.ofNat 64 i : BitVec 64).setWidth 8) ∧
    ∀ i < 8, memmove (fun a => a.setWidth 8) 0x10 0x13 8 (0x10 + BitVec.ofNat 64 i) =
      (0x13 + BitVec.ofNat 64 i : BitVec 64).setWidth 8 :=
  ⟨(memmove_moves _ 0x13 0x10 8 (by decide) (by decide)).1,
    (memmove_moves _ 0x10 0x13 8 (by decide) (by decide)).1⟩

/-! ## Strings

The functions, on memory that says for each address whether it may be read. A loop without a
bound of its own has fuel, and ends before that on a string. -/

/-- The memory that a function may read; any other byte is `none`, and a function that reads it
has no result. -/
abbrev Readable : Type := BitVec 64 → Option (BitVec 8)

/-- The string `t` is at `s`, with its NUL. -/
def StringAt (rd : Readable) : BitVec 64 → List (BitVec 8) → Prop
  | s, [] => rd s = some 0
  | s, c :: cs => rd s = some c ∧ c ≠ 0 ∧ StringAt rd (s + 1) cs

/-- The bytes `t` are at `s`, and may be read. -/
def BytesAt (rd : Readable) : BitVec 64 → List (BitVec 8) → Prop
  | _, [] => True
  | s, c :: cs => rd s = some c ∧ BytesAt rd (s + 1) cs

/-- The loop of `strlen`: the address of the NUL. -/
def strlenLoop (rd : Readable) : ℕ → BitVec 64 → Option (BitVec 64)
  | 0, _ => none
  | fuel + 1, sc => do
    let c ← rd sc
    if c ≠ 0 then strlenLoop rd fuel (sc + 1) else return sc

/-- `strlen`: the distance to the NUL. The fuel bounds the loop. -/
def strlen (rd : Readable) (fuel : ℕ) (s : BitVec 64) : Option ℕ := do
  let sc ← strlenLoop rd fuel s
  return (sc - s).toNat

/-- The loop of `strnlen`, over the characters that may be looked at. -/
def strnlenLoop (rd : Readable) : ℕ → BitVec 64 → Option (BitVec 64)
  | 0, sc => some sc
  | count + 1, sc => do
    let c ← rd sc
    if c ≠ 0 then strnlenLoop rd count (sc + 1) else return sc

/-- `strnlen`: the distance to the NUL, or `count` if it is not before that. -/
def strnlen (rd : Readable) (s : BitVec 64) (count : ℕ) : Option ℕ := do
  let sc ← strnlenLoop rd count s
  return (sc - s).toNat

/-- `memcmp`: the difference of the first bytes that differ, or zero. -/
def memcmp (rd : Readable) : ℕ → BitVec 64 → BitVec 64 → Option ℤ
  | 0, _, _ => some 0
  | count + 1, su1, su2 => do
    let res : ℤ := (← rd su1).toNat - (← rd su2).toNat
    if res ≠ 0 then return res else memcmp rd count (su1 + 1) (su2 + 1)

/-- `strcmp`: -1, 0 or 1, by the first difference or the NUL. -/
def strcmp (rd : Readable) : ℕ → BitVec 64 → BitVec 64 → Option ℤ
  | 0, _, _ => none
  | fuel + 1, cs, ct => do
    let c1 ← rd cs
    let c2 ← rd ct
    if c1 ≠ c2 then return (if c1 < c2 then -1 else 1)
    else if c1 = 0 then return 0
    else strcmp rd fuel (cs + 1) (ct + 1)

/-- `strncmp`: the same, for at most `count` characters. -/
def strncmp (rd : Readable) : ℕ → BitVec 64 → BitVec 64 → Option ℤ
  | 0, _, _ => some 0
  | count + 1, cs, ct => do
    let c1 ← rd cs
    let c2 ← rd ct
    if c1 ≠ c2 then return (if c1 < c2 then -1 else 1)
    else if c1 = 0 then return 0
    else strncmp rd count (cs + 1) (ct + 1)

/-- `strchr`; the result is NULL where the inner option is `none`. -/
def strchr (rd : Readable) (c : BitVec 8) : ℕ → BitVec 64 → Option (Option (BitVec 64))
  | 0, _ => none
  | fuel + 1, s => do
    let x ← rd s
    if x ≠ c then
      if x = 0 then return none else strchr rd c fuel (s + 1)
    else return some s

/-- `strrchr`, from the value `last` on. -/
def strrchr (rd : Readable) (c : BitVec 8) :
    ℕ → BitVec 64 → Option (BitVec 64) → Option (Option (BitVec 64))
  | 0, _, _ => none
  | fuel + 1, s, last => do
    let x ← rd s
    let last := if x = c then some s else last
    if x ≠ 0 then strrchr rd c fuel (s + 1) last else return last

/-- The loop of `strstr`, with `l1` bytes from `s1` on. -/
def strstrLoop (rd : Readable) (s2 : BitVec 64) (l2 : ℕ) :
    ℕ → BitVec 64 → Option (Option (BitVec 64))
  | 0, _ => some none
  | l1 + 1, s1 =>
    if l2 ≤ l1 + 1 then do
      if (← memcmp rd l2 s1 s2) = 0 then return some s1 else strstrLoop rd s2 l2 l1 (s1 + 1)
    else some none

/-- `strstr`. `l2` is not 0 in the loop, which ends before `l1` is 0. -/
def strstr (rd : Readable) (fuel : ℕ) (s1 s2 : BitVec 64) : Option (Option (BitVec 64)) := do
  let l2 ← strlen rd fuel s2
  if l2 = 0 then return some s1
  else
    let l1 ← strlen rd fuel s1
    strstrLoop rd s2 l2 l1 s1

section Strings

variable {rd : Readable} {s s₁ s₂ : BitVec 64} {t t₁ t₂ : List (BitVec 8)} {c : BitVec 8}
  {fuel count : ℕ}

theorem StringAt.bytes (h : StringAt rd s t) : BytesAt rd s t := by
  induction t generalizing s with
  | nil => trivial
  | cons c cs ih => exact ⟨h.1, ih h.2.2⟩

theorem BytesAt.take (h : BytesAt rd s t) (n : ℕ) : BytesAt rd s (t.take n) := by
  induction t generalizing s n with
  | nil =>
    rw [List.take_nil]
    trivial
  | cons c cs ih =>
    cases n with
    | zero => trivial
    | succ n => exact ⟨h.1, ih h.2 n⟩

/-! ### Lengths -/

theorem strlenLoop_of_read (h : rd s = some c) :
    strlenLoop rd (fuel + 1) s = if c ≠ 0 then strlenLoop rd fuel (s + 1) else some s := by
  rw [strlenLoop, h]
  rfl

/-- The loop ends at the NUL, and reads nothing behind it. -/
theorem strlenLoop_of_stringAt (h : StringAt rd s t) (hfuel : t.length < fuel) :
    strlenLoop rd fuel s = some (s + BitVec.ofNat 64 t.length) := by
  induction t generalizing s fuel with
  | nil =>
    obtain ⟨fuel, rfl⟩ := Nat.exists_eq_succ_of_ne_zero (Nat.ne_of_gt hfuel)
    rw [strlenLoop_of_read h, if_neg (not_not.mpr rfl)]
    exact congrArg some (BitVec.add_zero s).symm
  | cons c cs ih =>
    obtain ⟨fuel, rfl⟩ := Nat.exists_eq_succ_of_ne_zero (Nat.ne_of_gt (Nat.zero_lt_of_lt hfuel))
    obtain ⟨hc, hne, hrest⟩ := h
    rw [strlenLoop_of_read hc, if_pos hne, ih hrest (Nat.lt_of_succ_lt_succ hfuel),
      add_one_add_ofNat, List.length_cons]

theorem strlen_of_stringAt (h : StringAt rd s t) (hfuel : t.length < fuel)
    (hlen : t.length < 2 ^ 64) : strlen rd fuel s = some t.length := by
  rw [strlen, strlenLoop_of_stringAt h hfuel]
  exact congrArg some (toNat_add_ofNat_sub hlen)

theorem strnlenLoop_of_read (h : rd s = some c) :
    strnlenLoop rd (count + 1) s = if c ≠ 0 then strnlenLoop rd count (s + 1) else some s := by
  rw [strnlenLoop, h]
  rfl

/-- Only the bytes up to the NUL and below the limit are read. -/
theorem strnlenLoop_of_bytesAt (h : BytesAt rd s ((t ++ [0]).take count)) (hne : ∀ c ∈ t, c ≠ 0) :
    strnlenLoop rd count s = some (s + BitVec.ofNat 64 (min count t.length)) := by
  induction t generalizing s count with
  | nil =>
    cases count with
    | zero => exact congrArg some (BitVec.add_zero s).symm
    | succ count =>
      rw [strnlenLoop_of_read h.1, if_neg (not_not.mpr rfl)]
      exact congrArg some (BitVec.add_zero s).symm
  | cons c cs ih =>
    cases count with
    | zero =>
      rw [Nat.zero_min]
      exact congrArg some (BitVec.add_zero s).symm
    | succ count =>
      rw [List.forall_mem_cons] at hne
      rw [strnlenLoop_of_read h.1, if_pos hne.1, ih h.2 hne.2, add_one_add_ofNat, List.length_cons,
        Nat.succ_min_succ]

theorem strnlen_of_bytesAt (h : BytesAt rd s ((t ++ [0]).take count)) (hne : ∀ c ∈ t, c ≠ 0)
    (hlen : t.length < 2 ^ 64) : strnlen rd s count = some (min count t.length) := by
  rw [strnlen, strnlenLoop_of_bytesAt h hne]
  exact congrArg some (toNat_add_ofNat_sub (by omega))

/-! ### Comparisons

The order of lists of bytes is the lexicographic one. A comparison reads both lists up to the
first byte in which they differ; `decided` counts these. -/

/-- The sign of a comparison of two lists of bytes, from the first bytes that differ. -/
def lexSign (t₁ t₂ : List (BitVec 8)) : ℤ := if t₁ < t₂ then -1 else if t₁ = t₂ then 0 else 1

/-- How many bytes from the start decide the comparison: those up to the first that differ, and
all of the shorter list if none do. -/
def decided : List (BitVec 8) → List (BitVec 8) → ℕ
  | c :: cs, d :: ds => if c = d then decided cs ds + 1 else 1
  | _, _ => 0

theorem decided_cons_self (c : BitVec 8) (t₁ t₂ : List (BitVec 8)) :
    decided (c :: t₁) (c :: t₂) = decided t₁ t₂ + 1 :=
  if_pos rfl

theorem decided_cons_of_ne {c d : BitVec 8} (h : c ≠ d) (t₁ t₂ : List (BitVec 8)) :
    decided (c :: t₁) (d :: t₂) = 1 :=
  if_neg h

theorem decided_cons_pos (c d : BitVec 8) (t₁ t₂ : List (BitVec 8)) :
    0 < decided (c :: t₁) (d :: t₂) := by
  by_cases h : c = d
  · rw [h, decided_cons_self]
    exact Nat.succ_pos _
  · rw [decided_cons_of_ne h]
    exact Nat.one_pos

theorem lexSign_cons_self (c : BitVec 8) (t₁ t₂ : List (BitVec 8)) :
    lexSign (c :: t₁) (c :: t₂) = lexSign t₁ t₂ := by
  simp [lexSign]

theorem lexSign_cons_of_ne {c d : BitVec 8} (h : c ≠ d) (t₁ t₂ : List (BitVec 8)) :
    lexSign (c :: t₁) (d :: t₂) = if c < d then -1 else 1 := by
  simp [lexSign, List.cons_lt_cons_iff, h]

theorem strcmp_of_read {d : BitVec 8} (h₁ : rd s₁ = some c) (h₂ : rd s₂ = some d) :
    strcmp rd (fuel + 1) s₁ s₂ =
      if c ≠ d then some (if c < d then -1 else 1)
      else if c = 0 then some 0 else strcmp rd fuel (s₁ + 1) (s₂ + 1) := by
  rw [strcmp, h₁, h₂]
  rfl

/-- The first byte is among those that are there. -/
theorem BytesAt.head {n : ℕ} {cs : List (BitVec 8)} (h : BytesAt rd s ((c :: cs).take n))
    (hn : 0 < n) : rd s = some c := by
  obtain ⟨n, rfl⟩ := Nat.exists_eq_succ_of_ne_zero (Nat.ne_of_gt hn)
  exact h.1

/-- **`strcmp`** compares the strings as lists of bytes, and reads only the bytes that decide. -/
theorem strcmp_eq_lexSign
    (h₁ : BytesAt rd s₁ ((t₁ ++ [0]).take (decided (t₁ ++ [0]) (t₂ ++ [0]))))
    (h₂ : BytesAt rd s₂ ((t₂ ++ [0]).take (decided (t₁ ++ [0]) (t₂ ++ [0]))))
    (hne₁ : ∀ c ∈ t₁, c ≠ 0) (hne₂ : ∀ c ∈ t₂, c ≠ 0) (hfuel : t₁.length < fuel) :
    strcmp rd fuel s₁ s₂ = some (lexSign t₁ t₂) := by
  induction t₁ generalizing s₁ s₂ t₂ fuel with
  | nil =>
    obtain ⟨fuel, rfl⟩ := Nat.exists_eq_succ_of_ne_zero (Nat.ne_of_gt hfuel)
    cases t₂ with
    | nil =>
      rw [strcmp_of_read (h₁.head (decided_cons_pos _ _ _ _)) (h₂.head (decided_cons_pos _ _ _ _)),
        if_neg (not_not.mpr rfl), if_pos rfl]
      rfl
    | cons d ds =>
      rw [List.forall_mem_cons] at hne₂
      have hlt : (0 : BitVec 8) < d := BitVec.lt_def.mpr (BitVec.toNat_pos_of_ne_zero hne₂.1)
      rw [strcmp_of_read (h₁.head (decided_cons_pos _ _ _ _)) (h₂.head (decided_cons_pos _ _ _ _)),
        if_pos (Ne.symm hne₂.1), if_pos hlt]
      rfl
  | cons c cs ih =>
    obtain ⟨fuel, rfl⟩ := Nat.exists_eq_succ_of_ne_zero (Nat.ne_of_gt (Nat.zero_lt_of_lt hfuel))
    rw [List.forall_mem_cons] at hne₁
    cases t₂ with
    | nil =>
      have hnot : ¬c < (0 : BitVec 8) := BitVec.not_lt_zero
      rw [strcmp_of_read (h₁.head (decided_cons_pos _ _ _ _)) (h₂.head (decided_cons_pos _ _ _ _)),
        if_pos hne₁.1, if_neg hnot]
      rfl
    | cons d ds =>
      rw [List.forall_mem_cons] at hne₂
      rw [strcmp_of_read (h₁.head (decided_cons_pos _ _ _ _)) (h₂.head (decided_cons_pos _ _ _ _))]
      by_cases hcd : c = d
      · subst hcd
        rw [if_neg (not_not.mpr rfl), if_neg hne₁.1, lexSign_cons_self]
        rw [List.cons_append, List.cons_append, decided_cons_self, List.take_succ_cons] at h₁ h₂
        exact ih h₁.2 h₂.2 hne₁.2 hne₂.2 (Nat.lt_of_succ_lt_succ hfuel)
      · rw [if_pos hcd, lexSign_cons_of_ne hcd]

theorem strncmp_of_read {d : BitVec 8} (h₁ : rd s₁ = some c) (h₂ : rd s₂ = some d) :
    strncmp rd (count + 1) s₁ s₂ =
      if c ≠ d then some (if c < d then -1 else 1)
      else if c = 0 then some 0 else strncmp rd count (s₁ + 1) (s₂ + 1) := by
  rw [strncmp, h₁, h₂]
  rfl

/-- **`strncmp`** compares the strings up to the limit. Of the bytes in front of the limit it
reads only those that decide. -/
theorem strncmp_eq_lexSign
    (h₁ : BytesAt rd s₁ ((t₁ ++ [0]).take (min count (decided (t₁ ++ [0]) (t₂ ++ [0])))))
    (h₂ : BytesAt rd s₂ ((t₂ ++ [0]).take (min count (decided (t₁ ++ [0]) (t₂ ++ [0])))))
    (hne₁ : ∀ c ∈ t₁, c ≠ 0) (hne₂ : ∀ c ∈ t₂, c ≠ 0) :
    strncmp rd count s₁ s₂ = some (lexSign (t₁.take count) (t₂.take count)) := by
  induction count generalizing s₁ s₂ t₁ t₂ with
  | zero =>
    rw [List.take_zero, List.take_zero]
    rfl
  | succ count ih =>
    have hpos : ∀ {c d : BitVec 8} {cs ds : List (BitVec 8)},
        0 < min (count + 1) (decided (c :: cs) (d :: ds)) :=
      lt_min (Nat.succ_pos count) (decided_cons_pos _ _ _ _)
    cases t₁ with
    | nil =>
      cases t₂ with
      | nil =>
        rw [strncmp_of_read (h₁.head hpos) (h₂.head hpos), if_neg (not_not.mpr rfl), if_pos rfl]
        rfl
      | cons d ds =>
        rw [List.forall_mem_cons] at hne₂
        have hlt : (0 : BitVec 8) < d := BitVec.lt_def.mpr (BitVec.toNat_pos_of_ne_zero hne₂.1)
        rw [strncmp_of_read (h₁.head hpos) (h₂.head hpos), if_pos (Ne.symm hne₂.1), if_pos hlt]
        rfl
    | cons c cs =>
      rw [List.forall_mem_cons] at hne₁
      cases t₂ with
      | nil =>
        have hnot : ¬c < (0 : BitVec 8) := BitVec.not_lt_zero
        rw [strncmp_of_read (h₁.head hpos) (h₂.head hpos), if_pos hne₁.1, if_neg hnot]
        rfl
      | cons d ds =>
        rw [List.forall_mem_cons] at hne₂
        rw [strncmp_of_read (h₁.head hpos) (h₂.head hpos), List.take_succ_cons,
          List.take_succ_cons]
        by_cases hcd : c = d
        · subst hcd
          rw [if_neg (not_not.mpr rfl), if_neg hne₁.1, lexSign_cons_self]
          rw [List.cons_append, List.cons_append, decided_cons_self, Nat.add_min_add_right,
            List.take_succ_cons] at h₁ h₂
          exact ih h₁.2 h₂.2 hne₁.2 hne₂.2
        · rw [if_pos hcd, lexSign_cons_of_ne hcd]

theorem memcmp_of_read {d : BitVec 8} (h₁ : rd s₁ = some c) (h₂ : rd s₂ = some d) :
    memcmp rd (count + 1) s₁ s₂ =
      if (c.toNat : ℤ) - d.toNat ≠ 0 then some ((c.toNat : ℤ) - d.toNat)
      else memcmp rd count (s₁ + 1) (s₂ + 1) := by
  rw [memcmp, h₁, h₂]
  rfl

/-- **`memcmp`** compares the bytes as lists do, NULs among them, and reads only those that
decide. -/
theorem memcmp_sign (h₁ : BytesAt rd s₁ (t₁.take (decided t₁ t₂)))
    (h₂ : BytesAt rd s₂ (t₂.take (decided t₁ t₂))) (hlen : t₁.length = t₂.length) :
    ∃ r, memcmp rd t₁.length s₁ s₂ = some r ∧ r.sign = lexSign t₁ t₂ := by
  induction t₁ generalizing s₁ s₂ t₂ with
  | nil =>
    obtain rfl := List.length_eq_zero_iff.mp hlen.symm
    exact ⟨0, rfl, rfl⟩
  | cons c cs ih =>
    cases t₂ with
    | nil => exact absurd hlen (Nat.succ_ne_zero _)
    | cons d ds =>
      rw [List.length_cons, memcmp_of_read (h₁.head (decided_cons_pos _ _ _ _))
        (h₂.head (decided_cons_pos _ _ _ _))]
      by_cases hcd : c = d
      · subst hcd
        rw [if_neg (not_not.mpr (Int.sub_self _)), lexSign_cons_self]
        rw [decided_cons_self, List.take_succ_cons] at h₁ h₂
        exact ih h₁.2 h₂.2 (Nat.succ.inj hlen)
      · have hne : c.toNat ≠ d.toNat := fun heq => hcd (BitVec.eq_of_toNat_eq heq)
        rw [if_pos (by omega), lexSign_cons_of_ne hcd]
        refine ⟨_, rfl, ?_⟩
        split_ifs with hlt <;> rw [BitVec.lt_def] at hlt
        · exact Int.sign_eq_neg_one_of_neg (by omega)
        · exact Int.sign_eq_one_of_pos (by omega)

theorem lexSign_eq_zero_iff {t₁ t₂ : List (BitVec 8)} : lexSign t₁ t₂ = 0 ↔ t₁ = t₂ := by
  unfold lexSign
  split_ifs with hlt heq
  · exact iff_of_false (by decide) fun heq => absurd (heq ▸ hlt) (List.lt_irrefl t₁)
  · exact iff_of_true rfl heq
  · exact iff_of_false (by decide) heq

/-- The bytes at the two addresses are the same. -/
theorem memcmp_eq_zero_iff (h₁ : BytesAt rd s₁ t₁) (h₂ : BytesAt rd s₂ t₂)
    (hlen : t₁.length = t₂.length) :
    ∃ r, memcmp rd t₁.length s₁ s₂ = some r ∧ (r = 0 ↔ t₁ = t₂) := by
  obtain ⟨r, hr, hsign⟩ := memcmp_sign (h₁.take _) (h₂.take _) hlen
  refine ⟨r, hr, ?_⟩
  rw [← Int.sign_eq_zero_iff_zero, hsign, lexSign_eq_zero_iff]

/-! ### Searches -/

theorem strchr_of_read {d : BitVec 8} (h : rd s = some d) :
    strchr rd c (fuel + 1) s =
      if d ≠ c then if d = 0 then some none else strchr rd c fuel (s + 1) else some (some s) := by
  rw [strchr, h]
  rfl

/-- **`strchr`** finds the first byte that is `c`; the NUL is one of them. -/
theorem strchr_first (h : StringAt rd s t) (hfuel : t.length < fuel) :
    strchr rd c fuel s = some (((t ++ [0]).idxOf? c).map fun i => s + BitVec.ofNat 64 i) := by
  have hzero : ∀ s : BitVec 64, s + BitVec.ofNat 64 0 = s := BitVec.add_zero
  induction t generalizing s fuel with
  | nil =>
    obtain ⟨fuel, rfl⟩ := Nat.exists_eq_succ_of_ne_zero (Nat.ne_of_gt hfuel)
    rw [strchr_of_read h, List.nil_append, List.idxOf?_cons]
    by_cases hc : (0 : BitVec 8) = c
    · subst hc
      simp
    · have hbeq : ¬(((0 : BitVec 8) == c) = true) := fun heq => hc (beq_iff_eq.mp heq)
      rw [if_pos hc, if_pos rfl, if_neg hbeq]
      rfl
  | cons d ds ih =>
    obtain ⟨fuel, rfl⟩ := Nat.exists_eq_succ_of_ne_zero (Nat.ne_of_gt (Nat.zero_lt_of_lt hfuel))
    obtain ⟨hd, hne, hrest⟩ := h
    rw [strchr_of_read hd, List.cons_append, List.idxOf?_cons]
    by_cases hc : d = c
    · subst hc
      simp
    · have hbeq : ¬((d == c) = true) := fun heq => hc (beq_iff_eq.mp heq)
      rw [if_pos hc, if_neg hne, ih hrest (Nat.lt_of_succ_lt_succ hfuel), if_neg hbeq,
        Option.map_map]
      simp only [add_one_add_ofNat, Function.comp_def]

theorem strrchr_of_read {d : BitVec 8} {last : Option (BitVec 64)} (h : rd s = some d) :
    strrchr rd c (fuel + 1) s last =
      let last := if d = c then some s else last
      if d ≠ 0 then strrchr rd c fuel (s + 1) last else some last := by
  rw [strrchr, h]
  rfl

/-- **`strrchr`** finds the last byte that is `c`, or else leaves what was found before. -/
theorem strrchr_last {last : Option (BitVec 64)} (h : StringAt rd s t) (hfuel : t.length < fuel) :
    ∃ r, strrchr rd c fuel s last = some r ∧ (c ∉ t ++ [0] → r = last) ∧
      ∀ i, (t ++ [0])[i]? = some c → (∀ j > i, (t ++ [0])[j]? ≠ some c) →
        r = some (s + BitVec.ofNat 64 i) := by
  have hzero : ∀ s : BitVec 64, s + BitVec.ofNat 64 0 = s := BitVec.add_zero
  induction t generalizing s fuel last with
  | nil =>
    obtain ⟨fuel, rfl⟩ := Nat.exists_eq_succ_of_ne_zero (Nat.ne_of_gt hfuel)
    refine ⟨_, strrchr_of_read h, fun hc => ?_, fun i hi _ => ?_⟩
    · exact if_neg fun heq => hc (List.mem_singleton.mpr heq.symm)
    · obtain ⟨rfl, heq⟩ : i = 0 ∧ (0 : BitVec 8) = c := by
        cases i with
        | zero => exact ⟨rfl, Option.some.inj hi⟩
        | succ i => cases hi
      rw [hzero]
      exact if_pos heq
  | cons d ds ih =>
    obtain ⟨fuel, rfl⟩ := Nat.exists_eq_succ_of_ne_zero (Nat.ne_of_gt (Nat.zero_lt_of_lt hfuel))
    obtain ⟨hd, hne, hrest⟩ := h
    have hrec : ∃ r, strrchr rd c fuel (s + 1) (if d = c then some s else last) = some r ∧
        (c ∉ ds ++ [0] → r = if d = c then some s else last) ∧
        ∀ i, (ds ++ [0])[i]? = some c → (∀ j > i, (ds ++ [0])[j]? ≠ some c) →
          r = some (s + 1 + BitVec.ofNat 64 i) := ih hrest (Nat.lt_of_succ_lt_succ hfuel)
    obtain ⟨r, hr, hnone, hlast⟩ := hrec
    refine ⟨r, ?_, fun hc => ?_, fun i hi hafter => ?_⟩
    · rw [strrchr_of_read hd]
      exact (if_pos hne).trans hr
    · rw [List.cons_append, List.mem_cons, not_or] at hc
      rw [hnone hc.2, if_neg (Ne.symm hc.1)]
    · cases i with
      | zero =>
        have hdc : d = c := Option.some.inj hi
        have hout : c ∉ ds ++ [0] := by
          intro hmem
          obtain ⟨j, hj⟩ := List.mem_iff_getElem?.mp hmem
          exact hafter (j + 1) (Nat.succ_pos j) hj
        rw [hnone hout, if_pos hdc, hzero]
      | succ i =>
        rw [hlast i hi fun j hj => hafter (j + 1) (Nat.succ_lt_succ hj), add_one_add_ofNat]

/-- One turn of the loop of `strstr`, by the result of its comparison. -/
theorem strstrLoop_of_memcmp {l₁ l₂ : ℕ} {r : ℤ} (hle : l₂ ≤ l₁ + 1)
    (h : memcmp rd l₂ s₁ s₂ = some r) : strstrLoop rd s₂ l₂ (l₁ + 1) s₁ =
      if r = 0 then some (some s₁) else strstrLoop rd s₂ l₂ l₁ (s₁ + 1) := by
  rw [strstrLoop, if_pos hle, h]
  rfl

/-- What the search for `t₂` in `t₁` returns: the first place, or nothing where there is none. -/
structure FoundAt (t₁ t₂ : List (BitVec 8)) (s₁ : BitVec 64) (r : Option (BitVec 64)) : Prop where
  none_iff : r = none ↔ ¬t₂ <:+: t₁
  first : ∀ i ≤ t₁.length, t₂ <+: t₁.drop i → (∀ j < i, ¬t₂ <+: t₁.drop j) →
    r = some (s₁ + BitVec.ofNat 64 i)

theorem FoundAt.here (h : t₂ <+: t₁) : FoundAt t₁ t₂ s (some s) := by
  refine ⟨iff_of_false (by simp) fun hno => hno h.isInfix, fun i _ _ hbefore => ?_⟩
  cases i with
  | zero => exact congrArg some (BitVec.add_zero s).symm
  | succ i => exact absurd h (hbefore 0 (Nat.succ_pos i))

theorem FoundAt.later {r : Option (BitVec 64)} (h : FoundAt t₁ t₂ (s + 1) r)
    (hno : ¬t₂ <+: c :: t₁) : FoundAt (c :: t₁) t₂ s r := by
  refine ⟨?_, fun i hi hprefix hbefore => ?_⟩
  · rw [h.none_iff, List.infix_cons_iff, not_or]
    exact ⟨fun hin => ⟨hno, hin⟩, fun hin => hin.2⟩
  · cases i with
    | zero => exact absurd hprefix hno
    | succ i =>
      rw [← add_one_add_ofNat]
      refine h.first i (Nat.le_of_succ_le_succ hi) hprefix fun j hj => ?_
      exact hbefore (j + 1) (Nat.succ_lt_succ hj)

/-- The loop of `strstr`, for a string that is not empty. -/
theorem strstrLoop_found (h₁ : StringAt rd s₁ t₁) (h₂ : BytesAt rd s₂ t₂) (hne : t₂ ≠ []) :
    ∃ r, strstrLoop rd s₂ t₂.length t₁.length s₁ = some r ∧ FoundAt t₁ t₂ s₁ r := by
  induction t₁ generalizing s₁ with
  | nil =>
    refine ⟨none, rfl, ⟨iff_of_true rfl fun hin => hne (List.infix_nil.mp hin), ?_⟩⟩
    intro i _ hi
    rw [List.drop_nil] at hi
    exact absurd (List.prefix_nil.mp hi) hne
  | cons c cs ih =>
    rw [List.length_cons]
    by_cases hle : t₂.length ≤ cs.length + 1
    · have hlen : ((c :: cs).take t₂.length).length = t₂.length :=
        List.length_take_of_le hle
      obtain ⟨r, hr, htake⟩ := memcmp_eq_zero_iff (h₁.bytes.take t₂.length) h₂ hlen
      have hzero : r = 0 ↔ t₂ <+: c :: cs := by
        rw [htake, List.prefix_iff_eq_take]
        exact eq_comm
      rw [hlen] at hr
      rw [strstrLoop_of_memcmp hle hr]
      by_cases hhere : t₂ <+: c :: cs
      · rw [if_pos (hzero.mpr hhere)]
        exact ⟨_, rfl, FoundAt.here hhere⟩
      · obtain ⟨r', hr', hfound⟩ := ih h₁.2.2
        rw [if_neg fun h0 => hhere (hzero.mp h0)]
        exact ⟨r', hr', hfound.later hhere⟩
    · rw [strstrLoop, if_neg hle]
      refine ⟨none, rfl, ⟨iff_of_true rfl fun hin => hle hin.length_le, fun i _ hi _ => ?_⟩⟩
      have hshort := hi.length_le
      rw [List.length_drop, List.length_cons] at hshort
      exact absurd (Nat.le_trans hshort (Nat.sub_le _ _)) hle

/-- **`strstr`** returns the first place of the second string in the first one, or NULL if there is
none, and reads no byte behind the NUL of either. -/
theorem strstr_first (rd : Readable) (s₁ s₂ : BitVec 64) (t₁ t₂ : List (BitVec 8))
    (h₁ : StringAt rd s₁ t₁) (h₂ : StringAt rd s₂ t₂) (hlen₁ : t₁.length < 2 ^ 64)
    (hlen₂ : t₂.length < 2 ^ 64) (fuel : ℕ) (hfuel₁ : t₁.length < fuel)
    (hfuel₂ : t₂.length < fuel) :
    ∃ r, strstr rd fuel s₁ s₂ = some r ∧ FoundAt t₁ t₂ s₁ r := by
  rw [strstr, strlen_of_stringAt h₂ hfuel₂ hlen₂, Option.bind_eq_bind, Option.bind_some]
  by_cases hempty : t₂ = []
  · subst hempty
    exact ⟨some s₁, rfl, FoundAt.here (List.nil_prefix)⟩
  · have hne : t₂.length ≠ 0 := fun h0 => hempty (List.length_eq_zero_iff.mp h0)
    rw [if_neg hne, strlen_of_stringAt h₁ hfuel₁ hlen₁]
    exact strstrLoop_found h₁ h₂.bytes hempty

/-- **The comparisons** are those of lists of bytes: of the whole strings, of as much as the limit
leaves of them, and of any bytes, where a NUL is a byte like the others. Each only needs the bytes
that decide, whatever may be read behind them. -/
theorem strings_compare (rd : Readable) (s₁ s₂ : BitVec 64) :
    (∀ t₁ t₂ : List (BitVec 8), (∀ c ∈ t₁, c ≠ 0) → (∀ c ∈ t₂, c ≠ 0) →
      BytesAt rd s₁ ((t₁ ++ [0]).take (decided (t₁ ++ [0]) (t₂ ++ [0]))) →
      BytesAt rd s₂ ((t₂ ++ [0]).take (decided (t₁ ++ [0]) (t₂ ++ [0]))) →
        ∀ fuel, t₁.length < fuel → strcmp rd fuel s₁ s₂ = some (lexSign t₁ t₂)) ∧
    (∀ (t₁ t₂ : List (BitVec 8)) (count : ℕ), (∀ c ∈ t₁, c ≠ 0) → (∀ c ∈ t₂, c ≠ 0) →
      BytesAt rd s₁ ((t₁ ++ [0]).take (min count (decided (t₁ ++ [0]) (t₂ ++ [0])))) →
      BytesAt rd s₂ ((t₂ ++ [0]).take (min count (decided (t₁ ++ [0]) (t₂ ++ [0])))) →
        strncmp rd count s₁ s₂ = some (lexSign (t₁.take count) (t₂.take count))) ∧
    ∀ t₁ t₂ : List (BitVec 8), t₁.length = t₂.length →
      BytesAt rd s₁ (t₁.take (decided t₁ t₂)) → BytesAt rd s₂ (t₂.take (decided t₁ t₂)) →
        ∃ r, memcmp rd t₁.length s₁ s₂ = some r ∧ r.sign = lexSign t₁ t₂ := by
  refine ⟨fun t₁ t₂ hne₁ hne₂ h₁ h₂ fuel hfuel => ?_, fun t₁ t₂ count hne₁ hne₂ h₁ h₂ => ?_,
    fun t₁ t₂ hlen h₁ h₂ => memcmp_sign h₁ h₂ hlen⟩
  · exact strcmp_eq_lexSign h₁ h₂ hne₁ hne₂ hfuel
  · exact strncmp_eq_lexSign h₁ h₂ hne₁ hne₂

end Strings

/-- Memory with the strings "abab" and "ba", and nothing else that may be read. -/
def twoStrings : Readable := fun a =>
  [(0x10#64, 0x61#8), (0x11#64, 0x62#8), (0x12#64, 0x61#8), (0x13#64, 0x62#8), (0x14#64, 0#8),
    (0x20#64, 0x62#8), (0x21#64, 0x61#8), (0x22#64, 0#8)].lookup a

theorem twoStrings_first : StringAt twoStrings 0x10 [0x61, 0x62, 0x61, 0x62] :=
  ⟨by decide, by decide, by decide, by decide, by decide, by decide, by decide, by decide, rfl⟩

theorem twoStrings_second : StringAt twoStrings 0x20 [0x62, 0x61] :=
  ⟨by decide, by decide, by decide, by decide, rfl⟩

theorem strstr_first_twoStrings :
    ∃ r, strstr twoStrings 8 0x10 0x20 = some r ∧
      FoundAt [0x61, 0x62, 0x61, 0x62] [0x62, 0x61] 0x10 r :=
  strstr_first twoStrings 0x10 0x20 _ _ twoStrings_first twoStrings_second (by decide) (by decide)
    8 (by decide) (by decide)

/-- The first bytes of the strings decide, and the two bytes at the end of the first string, its
NUL among them, are compared with two of the second. -/
theorem strings_compare_twoStrings :
    strcmp twoStrings 8 0x10 0x20 = some (-1) ∧ strncmp twoStrings 3 0x20 0x10 = some 1 ∧
      ∃ r, memcmp twoStrings 2 0x13 0x20 = some r ∧ r.sign = -1 :=
  ⟨(strings_compare twoStrings 0x10 0x20).1 [0x61, 0x62, 0x61, 0x62] [0x62, 0x61] (by decide)
      (by decide) ⟨by decide, trivial⟩ ⟨by decide, trivial⟩ 8 (by decide),
    (strings_compare twoStrings 0x20 0x10).2.1 [0x62, 0x61] [0x61, 0x62, 0x61, 0x62] 3 (by decide)
      (by decide) ⟨by decide, trivial⟩ ⟨by decide, trivial⟩,
    (strings_compare twoStrings 0x13 0x20).2.2 [0x62, 0] [0x62, 0x61] rfl
      ⟨by decide, by decide, trivial⟩ ⟨by decide, by decide, trivial⟩⟩

end Lvisor
