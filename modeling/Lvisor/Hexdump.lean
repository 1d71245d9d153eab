import Lvisor.Elf
import Lvisor.Vsprintf

/-!
# Hexadecimal text (`lib/hexdump.c`, `lib/ctype.c`)

* `ctype` — the classes of characters, with `isalnum_ctype` and `hexToBin_eq` for what follows
  from the table;
* `hex2bin_decodes` — what `hex2bin` returns and stores, for any text, and where the bytes may go;
* `hex_roundTrip` — the text of `bin2hex` is read back as the bytes.
-/

namespace Lvisor

/-! ## `_ctype` -/

namespace Ctype

/-- `_U`: the character is an upper case letter. -/
abbrev upper : BitVec 8 := 0x01

/-- `_L`: the character is a lower case letter. -/
abbrev lower : BitVec 8 := 0x02

/-- `_D`: the character is a decimal digit. -/
abbrev digit : BitVec 8 := 0x04

/-- `_C`: the character is a control character. -/
abbrev cntrl : BitVec 8 := 0x08

/-- `_P`: the character is punctuation. -/
abbrev punct : BitVec 8 := 0x10

/-- `_S`: the character is white space. -/
abbrev space : BitVec 8 := 0x20

/-- `_X`: the character is a letter that is a hexadecimal digit. -/
abbrev hex : BitVec 8 := 0x40

/-- `_SP`: the character is the blank, or the one that does not break. -/
abbrev hardSpace : BitVec 8 := 0x80

end Ctype

open Ctype in
/-- `_ctype`, as runs of equal entries: how many there are, and what each of them is. -/
def ctype : List (ℕ × BitVec 8) :=
  [(9, cntrl), (5, cntrl ||| space), (18, cntrl), (1, space ||| hardSpace), (15, punct),
    (10, digit), (7, punct), (6, upper ||| hex), (20, upper), (6, punct), (6, lower ||| hex),
    (20, lower), (4, punct), (1, cntrl), (32, 0), (1, space ||| hardSpace), (31, punct),
    (23, upper), (1, punct), (7, upper), (24, lower), (1, punct), (8, lower)]

/-- An entry of a table of runs, by its index. -/
def runsGet : List (ℕ × BitVec 8) → ℕ → BitVec 8
  | [], _ => 0
  | (n, x) :: runs, i => if i < n then x else runsGet runs (i - n)

/-- `__ismask`: the character has one of the classes of the mask. -/
def ismask (c mask : BitVec 8) : Bool := runsGet ctype c.toNat &&& mask ≠ 0

/-- `isupper`, for all of Latin-1. -/
def isupper (c : BitVec 8) : Bool := ismask c Ctype.upper

/-- `isxdigit`: the decimal digits, and the letters from A to F in either case. -/
def isxdigit (c : BitVec 8) : Bool := ismask c (Ctype.digit ||| Ctype.hex)

/-- `__tolower`: the small letter for a capital one, and any other character as it is. -/
def tolower (c : BitVec 8) : BitVec 8 := if isupper c then c - (ch 'A' - ch 'a') else c

/-- `isalnum` of `Lvisor.Vsprintf` is a look into this table. -/
theorem isalnum_ctype :
    ∀ c, isalnum c = ismask c (Ctype.upper ||| Ctype.lower ||| Ctype.digit) := by
  decide +kernel

/-! ## `hexdump.c` -/

/-- `hex_to_bin`: the value of a digit, or -1. A `char` is signed. -/
def hexToBin (c : BitVec 8) : BitVec 32 :=
  if (ch '0').sle c ∧ c.sle (ch '9') then c.signExtend 32 - (ch '0').signExtend 32
  else
    let c := tolower c
    if (ch 'a').sle c ∧ c.sle (ch 'f') then c.signExtend 32 - (ch 'a').signExtend 32 + 10 else -1

/-- `EINVAL`, of which the negative is returned. -/
abbrev EINVAL : BitVec 32 := 22

/-- `hex2bin` of `count` bytes: what it returns, and the memory. It stops at a pair that is not
of two digits. -/
def hex2bin : ℕ → Memory → BitVec 64 → BitVec 64 → BitVec 32 × Memory
  | 0, mem, _, _ => (0, mem)
  | count + 1, mem, dst, src =>
    let hi := hexToBin (mem src)
    let lo := hexToBin (mem (src + 1))
    if hi.toInt < 0 ∨ lo.toInt < 0 then (-EINVAL, mem)
    else
      hex2bin count (Function.update mem dst (((hi <<< 4) ||| lo).setWidth 8)) (dst + 1)
        (src + 1 + 1)

/-- `hex_byte_pack` to memory: the pointer behind the two digits, and the memory with them. -/
def hexBytePackTo (mem : Memory) (buf : BitVec 64) (byte : BitVec 8) : BitVec 64 × Memory :=
  (buf + 1 + 1,
    Function.update (Function.update mem buf (hexAscHi byte)) (buf + 1) (hexAscLo byte))

/-- `bin2hex` of `count` bytes: what it returns, and the memory. -/
def bin2hex : ℕ → Memory → BitVec 64 → BitVec 64 → BitVec 64 × Memory
  | 0, mem, dst, _ => (dst, mem)
  | count + 1, mem, dst, src =>
    let r := hexBytePackTo mem dst (mem src)
    bin2hex count r.2 r.1 (src + 1)

/-! ## Digits

The digits are looked up in the table of the character classes. That the table and the arithmetic
agree on each of the 256 characters is checked by evaluation. -/

/-- The value of a hexadecimal digit, in lower or upper case. -/
def hexValue (c : BitVec 8) : Option ℕ := hexAsc.idxOf? c <|> hexAscUpper.idxOf? c

/-- `hex_to_bin` is right: letters of Latin-1 that `tolower` changes are no digits. -/
theorem hexToBin_eq : ∀ c, hexToBin c = ((hexValue c).map (BitVec.ofNat 32)).getD (-1) ∧
    ∀ d ∈ hexValue c, d < 16 := by
  decide +kernel

theorem isxdigit_eq : ∀ c, isxdigit c = (hexValue c).isSome := by
  decide +kernel

theorem hexValue_hexBytePack : ∀ x, hexValue (hexAscHi x) = some (x.toNat / 16) ∧
    hexValue (hexAscLo x) = some (x.toNat % 16) := by
  decide +kernel

/-- Two characters that are hexadecimal digits. -/
def IsPair (hi lo : BitVec 8) : Prop := isxdigit hi ∧ isxdigit lo

/-- The byte that two digits stand for, the upper one first. -/
def pairByte (hi lo : BitVec 8) : BitVec 8 :=
  BitVec.ofNat 8 (16 * (hexValue hi).getD 0 + (hexValue lo).getD 0)

theorem hexToBin_nonneg_iff (c : BitVec 8) :
    ¬(hexToBin c).toInt < 0 ↔ isxdigit c := by
  rw [isxdigit_eq]
  obtain ⟨heq, hlt⟩ := hexToBin_eq c
  rw [heq]
  cases hc : hexValue c with
  | none => exact iff_of_false (by decide) (by decide)
  | some d =>
    have hsmall : ∀ d < 16, ¬(BitVec.ofNat 32 d).toInt < 0 := by decide
    exact iff_of_true (hsmall d (hlt d hc)) rfl

/-- The byte that `hex2bin` puts together is that of the two digits. -/
theorem pairByte_eq {hi lo : BitVec 8} (h : IsPair hi lo) :
    ((hexToBin hi <<< 4) ||| hexToBin lo).setWidth 8 = pairByte hi lo := by
  rw [IsPair, isxdigit_eq, isxdigit_eq] at h
  obtain ⟨hhi, hlo⟩ := h
  obtain ⟨x, hx⟩ := Option.isSome_iff_exists.mp hhi
  obtain ⟨y, hy⟩ := Option.isSome_iff_exists.mp hlo
  obtain ⟨hhi', hltx⟩ := hexToBin_eq hi
  obtain ⟨hlo', hlty⟩ := hexToBin_eq lo
  have hbyte : ∀ x < 16, ∀ y < 16,
      ((BitVec.ofNat 32 x <<< 4) ||| BitVec.ofNat 32 y).setWidth 8 =
        BitVec.ofNat 8 (16 * x + y) := by decide
  rw [hhi', hlo', pairByte, hx, hy]
  exact hbyte x (hltx x hx) y (hlty y hy)

theorem pairByte_hexBytePack (x : BitVec 8) :
    IsPair (hexAscHi x) (hexAscLo x) ∧ pairByte (hexAscHi x) (hexAscLo x) = x := by
  obtain ⟨hhi, hlo⟩ := hexValue_hexBytePack x
  rw [IsPair, isxdigit_eq, isxdigit_eq, pairByte, hhi, hlo]
  refine ⟨⟨rfl, rfl⟩, ?_⟩
  rw [Option.getD_some, Option.getD_some, Nat.div_add_mod, BitVec.ofNat_toNat, BitVec.setWidth_eq]

/-! ## Text in memory -/

section InMemory

variable {mem : Memory} {dst src : BitVec 64} {n : ℕ}

theorem copyTo_zero {p : BitVec 64} {f : ℕ → BitVec 8} : copyTo mem p 0 f = mem := by
  funext a
  exact if_neg (Nat.not_lt_zero _)

theorem copyTo_congr {p : BitVec 64} {f g : ℕ → BitVec 8} (h : ∀ i < n, f i = g i) :
    copyTo mem p n f = copyTo mem p n g := by
  funext a
  unfold copyTo
  split_ifs with ha
  · exact h _ ha
  · rfl

/-- A byte that is read later than it could be written. -/
theorem update_add_of_ne {a p : BitVec 64} {b : BitVec 8} {i : ℕ} (hp : p.toNat + i < 2 ^ 64)
    (hne : a.toNat ≠ p.toNat + i) :
    Function.update mem a b (p + BitVec.ofNat 64 i) = mem (p + BitVec.ofNat 64 i) := by
  refine Function.update_of_ne (fun heq => hne ?_) _ _
  rw [← heq, toNat_add_ofNat hp]

/-- **`hex2bin`**: it stores the bytes of the pairs in front of the first one that is not of two
digits, and there is none if it returns 0. The bytes may go where the text is that was read. -/
theorem hex2bin_spec (hdst : dst.toNat + n ≤ 2 ^ 64) (hsrc : src.toNat + 2 * n ≤ 2 ^ 64)
    (happ : dst.toNat ≤ src.toNat + 1 ∨ src.toNat + 2 * n ≤ dst.toNat) :
    ∃ k ≤ n, (∀ i < k, IsPair (charsAt mem src (2 * i)) (charsAt mem src (2 * i + 1))) ∧
      (k < n → ¬IsPair (charsAt mem src (2 * k)) (charsAt mem src (2 * k + 1))) ∧
      hex2bin n mem dst src = (if k = n then 0 else -EINVAL,
        copyTo mem dst k fun i =>
          pairByte (charsAt mem src (2 * i)) (charsAt mem src (2 * i + 1))) := by
  induction n generalizing mem dst src with
  | zero =>
    refine ⟨0, Nat.le_refl _, fun i hi => absurd hi (Nat.not_lt_zero i), fun h => absurd h
      (Nat.lt_irrefl 0), ?_⟩
    rw [copyTo_zero]
    rfl
  | succ n ih =>
    have hfirst : charsAt mem src 0 = mem src := congrArg mem (BitVec.add_zero src)
    have hsecond : charsAt mem src 1 = mem (src + 1) := rfl
    by_cases hpair : IsPair (mem src) (mem (src + 1))
    · have hnext : (src + 1 + 1).toNat = src.toNat + 2 ∨ n = 0 := by bv_omega
      have hnext' : (dst + 1).toNat = dst.toNat + 1 ∨ n = 0 := by bv_omega
      have hdigits : ¬((hexToBin (mem src)).toInt < 0 ∨ (hexToBin (mem (src + 1))).toInt < 0) :=
        not_or.mpr ⟨(hexToBin_nonneg_iff _).mpr hpair.1, (hexToBin_nonneg_iff _).mpr hpair.2⟩
      -- the text that is left is not changed by the byte
      have hkept : ∀ i < 2 * n,
          charsAt (Function.update mem dst (pairByte (mem src) (mem (src + 1)))) (src + 1 + 1) i =
            charsAt mem src (i + 2) := by
        intro i hi
        rw [charsAt, charsAt, ← add_one_add_ofNat, ← add_one_add_ofNat]
        refine update_add_of_ne ?_ ?_
        · omega
        · omega
      obtain ⟨k, hk, hpairs, hstop, heq⟩ :=
        @ih (Function.update mem dst (pairByte (mem src) (mem (src + 1)))) (dst + 1) (src + 1 + 1)
          (by omega) (by omega) (by omega)
      have hshift {i : ℕ} (hi : i < n) : charsAt (Function.update mem dst (pairByte (mem src)
          (mem (src + 1)))) (src + 1 + 1) (2 * i) = charsAt mem src (2 * (i + 1)) ∧
          charsAt (Function.update mem dst (pairByte (mem src) (mem (src + 1)))) (src + 1 + 1)
            (2 * i + 1) = charsAt mem src (2 * (i + 1) + 1) :=
        ⟨hkept _ (by omega), hkept _ (by omega)⟩
      refine ⟨k + 1, Nat.succ_le_succ hk, fun i hi => ?_, fun hlt => ?_, ?_⟩
      · cases i with
        | zero =>
          rw [Nat.mul_zero, hfirst, hsecond]
          exact hpair
        | succ i =>
          have hpair' := hpairs i (Nat.lt_of_succ_lt_succ hi)
          rw [(hshift (by omega)).1, (hshift (by omega)).2] at hpair'
          exact hpair'
      · have hstop' := hstop (Nat.lt_of_succ_lt_succ hlt)
        rw [(hshift (by omega)).1, (hshift (by omega)).2] at hstop'
        exact hstop'
      · rw [hex2bin, if_neg hdigits, pairByte_eq hpair, heq]
        refine congrArg₂ Prod.mk ?_ ?_
        · simp only [Nat.add_right_cancel_iff]
        · rw [← copyTo_update_succ (by omega), Nat.mul_zero, hfirst, hsecond]
          refine copyTo_congr fun i hi => ?_
          rw [(hshift (by omega)).1, (hshift (by omega)).2]
    · refine ⟨0, Nat.zero_le _, fun i hi => absurd hi (Nat.not_lt_zero i), fun _ => ?_, ?_⟩
      · rw [Nat.mul_zero, hfirst, hsecond]
        exact hpair
      · have hbad : (hexToBin (mem src)).toInt < 0 ∨ (hexToBin (mem (src + 1))).toInt < 0 := by
          by_contra hnot
          obtain ⟨hhi, hlo⟩ := not_or.mp hnot
          exact hpair ⟨(hexToBin_nonneg_iff _).mp hhi, (hexToBin_nonneg_iff _).mp hlo⟩
        rw [copyTo_zero, hex2bin]
        exact if_pos hbad

/-- The text of bytes, character by character: two digits for each byte. -/
def textByte (bytes : ℕ → BitVec 8) (i : ℕ) : BitVec 8 :=
  if i % 2 = 0 then hexAscHi (bytes (i / 2)) else hexAscLo (bytes (i / 2))

/-- **`bin2hex`**: the text may go where the bytes are, as long as it ends in front of the last
one. -/
theorem bin2hex_spec (hdst : dst.toNat + 2 * n ≤ 2 ^ 64) (hsrc : src.toNat + n ≤ 2 ^ 64)
    (happ : dst.toNat + n ≤ src.toNat + 1 ∨ src.toNat + n ≤ dst.toNat) :
    bin2hex n mem dst src = (dst + BitVec.ofNat 64 (2 * n),
      copyTo mem dst (2 * n) (textByte (charsAt mem src))) := by
  induction n generalizing mem dst src with
  | zero =>
    rw [Nat.mul_zero, copyTo_zero, BitVec.add_zero]
    rfl
  | succ n ih =>
    have hfirst : charsAt mem src 0 = mem src := congrArg mem (BitVec.add_zero src)
    have hnext : (dst + 1).toNat = dst.toNat + 1 := by bv_omega
    have hnext' : (dst + 1 + 1).toNat = dst.toNat + 2 ∨ n = 0 := by bv_omega
    have hnext'' : (src + 1).toNat = src.toNat + 1 ∨ n = 0 := by bv_omega
    -- the bytes that are left are not changed by the text
    have hkept : ∀ i < n, charsAt (hexBytePackTo mem dst (mem src)).2 (src + 1) i =
        charsAt mem src (i + 1) := by
      intro i hi
      rw [charsAt, charsAt, hexBytePackTo, ← add_one_add_ofNat]
      refine (update_add_of_ne ?_ ?_).trans (update_add_of_ne ?_ ?_)
      · omega
      · omega
      · omega
      · omega
    have hloop : bin2hex (n + 1) mem dst src =
        bin2hex n (hexBytePackTo mem dst (mem src)).2 (dst + 1 + 1) (src + 1) := rfl
    rw [hloop, ih (by omega) (by omega) (by omega)]
    refine congrArg₂ Prod.mk ?_ ?_
    · rw [add_one_add_ofNat, add_one_add_ofNat]
      rfl
    · have hzero : textByte (charsAt mem src) 0 = hexAscHi (mem src) := congrArg hexAscHi hfirst
      have hone : textByte (charsAt mem src) (0 + 1) = hexAscLo (mem src) :=
        congrArg hexAscLo hfirst
      have hlen : 2 * (n + 1) = 2 * n + 1 + 1 := rfl
      rw [hlen, ← copyTo_update_succ (by omega), hzero]
      refine Eq.trans ?_ (copyTo_update_succ (by omega))
      rw [hone]
      refine copyTo_congr fun i hi => ?_
      have hhalf : (i + 1 + 1) / 2 = i / 2 + 1 := by omega
      have hpar : (i + 1 + 1) % 2 = i % 2 := by omega
      rw [textByte, textByte, hhalf, hpar, hkept _ (by omega)]

end InMemory

/-- **Decoding**: for every text of `2 * n` characters, and bytes that go elsewhere or begin not
after its second character, `hex2bin` stores the bytes of the pairs in front of the first one
that is not of two digits, and no other byte. It returns 0 if there is no such pair, and `-EINVAL`
otherwise. -/
theorem hex2bin_decodes (mem : Memory) (dst src : BitVec 64) (n : ℕ)
    (hdst : dst.toNat + n ≤ 2 ^ 64) (hsrc : src.toNat + 2 * n ≤ 2 ^ 64)
    (happ : dst.toNat ≤ src.toNat + 1 ∨ src.toNat + 2 * n ≤ dst.toNat) :
    ∃ k ≤ n, (∀ i < k, IsPair (charsAt mem src (2 * i)) (charsAt mem src (2 * i + 1))) ∧
      (k < n → ¬IsPair (charsAt mem src (2 * k)) (charsAt mem src (2 * k + 1))) ∧
      (hex2bin n mem dst src).1 = (if k = n then 0 else -EINVAL) ∧
      (∀ i < k, (hex2bin n mem dst src).2 (dst + BitVec.ofNat 64 i) =
        pairByte (charsAt mem src (2 * i)) (charsAt mem src (2 * i + 1))) ∧
      ∀ a, ¬Within dst k a → (hex2bin n mem dst src).2 a = mem a := by
  obtain ⟨k, hk, hpairs, hstop, heq⟩ := @hex2bin_spec mem dst src n hdst hsrc happ
  obtain ⟨hreturn, hmem⟩ := Prod.ext_iff.mp heq
  dsimp only at hreturn hmem
  refine ⟨k, hk, hpairs, hstop, hreturn, fun i hi => ?_, fun a ha => ?_⟩
  · rw [hmem, copyTo_of_within (within_add hi (by omega)), toNat_add_ofNat_sub (by omega)]
  · rw [hmem]
    exact copyTo_of_not_within ha

/-- The bytes from 0x30 on are ten digits, and no digit after them. -/
theorem hex2bin_decodes_digits :
    ∃ k ≤ 8, (∀ i < k, IsPair (charsAt (fun a => a.setWidth 8) 0x30 (2 * i))
        (charsAt (fun a => a.setWidth 8) 0x30 (2 * i + 1))) ∧
      (k < 8 → ¬IsPair (charsAt (fun a => a.setWidth 8) 0x30 (2 * k))
        (charsAt (fun a => a.setWidth 8) 0x30 (2 * k + 1))) ∧
      (hex2bin 8 (fun a => a.setWidth 8) 0x30 0x30).1 = (if k = 8 then 0 else -EINVAL) :=
  have ⟨k, hk, hpairs, hstop, hreturn, _⟩ := hex2bin_decodes (fun a => a.setWidth 8) 0x30 0x30 8
    (by decide) (by decide) (.inl (by decide))
  ⟨k, hk, hpairs, hstop, hreturn⟩

/-- **The round trip**: `bin2hex` and then `hex2bin`, to any place that is not above the second
character of the text or apart from it, is a copy of the bytes. -/
theorem hex_roundTrip (mem : Memory) (data text out : BitVec 64) (n : ℕ)
    (hdata : data.toNat + n ≤ 2 ^ 64) (htext : text.toNat + 2 * n ≤ 2 ^ 64)
    (hout : out.toNat + n ≤ 2 ^ 64)
    (hwrite : text.toNat + n ≤ data.toNat + 1 ∨ data.toNat + n ≤ text.toNat)
    (hread : out.toNat ≤ text.toNat + 1 ∨ text.toNat + 2 * n ≤ out.toNat) :
    (bin2hex n mem text data).1 = text + BitVec.ofNat 64 (2 * n) ∧
      (hex2bin n (bin2hex n mem text data).2 out text).1 = 0 ∧
      (∀ i < n, (hex2bin n (bin2hex n mem text data).2 out text).2 (out + BitVec.ofNat 64 i) =
        charsAt mem data i) ∧
      ∀ a, ¬Within text (2 * n) a → ¬Within out n a →
        (hex2bin n (bin2hex n mem text data).2 out text).2 a = mem a := by
  obtain ⟨hend, hbin⟩ := Prod.ext_iff.mp (@bin2hex_spec mem text data n htext hdata hwrite)
  dsimp only at hend hbin
  obtain ⟨k, hk, hpairs, hstop, heq⟩ :=
    @hex2bin_spec (bin2hex n mem text data).2 out text n hout htext hread
  obtain ⟨hreturn, hmem⟩ := Prod.ext_iff.mp heq
  dsimp only at hreturn hmem
  have hpair {i : ℕ} (hi : i < n) :
      charsAt (bin2hex n mem text data).2 text (2 * i) = hexAscHi (charsAt mem data i) ∧
        charsAt (bin2hex n mem text data).2 text (2 * i + 1) = hexAscLo (charsAt mem data i) := by
    have hhalf : (2 * i + 1) / 2 = i := by omega
    have hpar : ¬(2 * i + 1) % 2 = 0 := by omega
    have hat {j : ℕ} (hj : j < 2 * n) : charsAt (bin2hex n mem text data).2 text j =
        textByte (charsAt mem data) j := by
      rw [hbin, charsAt, copyTo_of_within (within_add hj (by omega)),
        toNat_add_ofNat_sub (by omega)]
    rw [hat (by omega), hat (by omega), textByte, textByte, if_pos (Nat.mul_mod_right 2 i),
      if_neg hpar, hhalf, Nat.mul_div_cancel_left i (by decide)]
    exact ⟨rfl, rfl⟩
  have hall : k = n := by
    by_contra hne
    have hlt : k < n := by omega
    refine hstop hlt ?_
    rw [(hpair hlt).1, (hpair hlt).2]
    exact (pairByte_hexBytePack _).1
  rw [if_pos hall] at hreturn
  rw [hall] at hmem
  refine ⟨hend, hreturn, fun i hi => ?_, fun a ha ha' => ?_⟩
  · rw [hmem, copyTo_of_within (within_add hi (by omega)), toNat_add_ofNat_sub (by omega),
      (hpair hi).1, (hpair hi).2]
    exact (pairByte_hexBytePack _).2
  · rw [hmem, copyTo_of_not_within ha', hbin]
    exact copyTo_of_not_within ha

/-- Text that is read back to where it is. -/
theorem hex_roundTrip_inPlace :
    (hex2bin 4 (bin2hex 4 (fun a => a.setWidth 8) 0x20 0x10).2 0x20 0x20).1 = 0 ∧
      ∀ i < 4, (hex2bin 4 (bin2hex 4 (fun a => a.setWidth 8) 0x20 0x10).2 0x20 0x20).2
        (0x20 + BitVec.ofNat 64 i) = charsAt (fun a => a.setWidth 8) 0x10 i :=
  have ⟨_, hreturn, hbytes, _⟩ := hex_roundTrip (fun a => a.setWidth 8) 0x10 0x20 0x20 4
    (by decide) (by decide) (by decide) (.inr (by decide)) (.inl (by decide))
  ⟨hreturn, hbytes⟩

end Lvisor
