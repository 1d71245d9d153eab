import Lvisor.VsprintfNumber

/-!
# The language of formats (`lib/vsprintf.c`)

A format is text with conversions in it, and a conversion has flags, a width, a precision, a
qualifier and a kind. `format_decode` takes a format apart, sometimes in three calls, and
`vsnprintf` prints each part as it is found.

* `Format` — the formats, with their characters `Format.chars`;
* `Format.out` — what a format means: its text, and how many arguments it takes;
* `decodeQualifier_eq`, `decodePrecision_eq` — `format_decode` finds the parts of a conversion;
* `Prints.text`, `Prints.conversion` — the rounds of the loop for one part of a format;
* `vsnprintf_format` — `vsnprintf` prints what a format means.
-/

namespace Lvisor

/-! ## Formats

The abstract syntax of formats. A conversion has its parts in the order of the characters, and a
part that need not be there has a constructor for that. -/

/-- A flag of a conversion. The same flag may be given more than once, and the order is of no
importance. -/
inductive FormatFlag where
  | left | plus | space | special | zeropad
  deriving DecidableEq, Repr

namespace FormatFlag

/-- The character of a flag. -/
def char : FormatFlag → BitVec 8
  | left => ch '-'
  | plus => ch '+'
  | space => ch ' '
  | special => ch '#'
  | zeropad => ch '0'

/-- The bit of `struct printf_spec` that a flag sets. -/
def bit : FormatFlag → BitVec 8
  | left => Flag.left
  | plus => Flag.plus
  | space => Flag.space
  | special => Flag.special
  | zeropad => Flag.zeropad

/-- The flags of a conversion, as `format_decode` collects them on top of those that it has. -/
def bits (fs : List FormatFlag) (acc : BitVec 8) : BitVec 8 :=
  fs.foldl (fun acc f => acc ||| f.bit) acc

end FormatFlag

/-- A width. One that begins with a zero would be a flag. -/
inductive FieldWidth where
  | default
  | given (n : ℕ) (pos : 0 < n)
  | arg

/-- A precision. A dot with nothing behind it stands for the precision 0, and no dot for none. -/
inductive FieldPrecision where
  | default
  | empty
  | given (n : ℕ)
  | arg

/-- A qualifier, that is, a length modifier: the letters between the precision and the kind. Two
of them are a letter that is doubled. -/
inductive Qualifier where
  | none | hh | h | l | ll | L | z | t
  deriving DecidableEq, Repr

/-- The conversion of an integer, by its letter. `d` and `i` mean the same. -/
inductive IntegerKind where
  | o | x | X | d | i | u
  deriving DecidableEq, Repr

/-- What a conversion prints, by its letter. The letters and digits behind `%p` are its
extension, and say what the pointer is shown as. -/
inductive ConversionKind where
  | char
  | str
  | ptr (ext : List (BitVec 8)) (alnum : ∀ c ∈ ext, isalnum c = true)
  | percent
  | integer (kind : IntegerKind)

/-- A conversion, with its parts in the order in which they are written. A qualifier may stand in
front of any kind, and has an effect on integers only. -/
structure Conversion where
  flags : List FormatFlag
  width : FieldWidth
  precision : FieldPrecision
  qualifier : Qualifier
  kind : ConversionKind

/-- A format: texts, which may be empty, and the conversions between them. -/
inductive Format where
  | text (t : List (BitVec 8))
  | conversion (t : List (BitVec 8)) (c : Conversion) (rest : Format)

/-! ## The characters

How a format is written. Not every list of parts can be read back: a text may have no percent
sign, and none of its first letters may be taken for the extension of a pointer in front of it. -/

/-- How a width is written. -/
def FieldWidth.chars : FieldWidth → List (BitVec 8)
  | default => []
  | given n _ => numeral 10 n false
  | arg => [ch '*']

/-- How a precision is written, with its dot. -/
def FieldPrecision.chars : FieldPrecision → List (BitVec 8)
  | default => []
  | empty => [ch '.']
  | given n => ch '.' :: numeral 10 n false
  | arg => [ch '.', ch '*']

namespace Qualifier

/-- The letters of a qualifier, as they stand in a format. -/
def chars : Qualifier → List (BitVec 8)
  | none => []
  | hh => [ch 'h', ch 'h']
  | h => [ch 'h']
  | l => [ch 'l']
  | ll => [ch 'l', ch 'l']
  | L => [ch 'L']
  | z => [ch 'z']
  | t => [ch 't']

/-- The number by which `format_decode` remembers a qualifier: its letter, and for a doubled one
a code that is no letter. -/
def code : Qualifier → BitVec 8
  | none => 0
  | hh => ch 'H'
  | h => ch 'h'
  | l => ch 'l'
  | ll => ch 'L'
  | L => ch 'L'
  | z => ch 'z'
  | t => ch 't'

end Qualifier

namespace IntegerKind

/-- The letter of an integer conversion. -/
def char : IntegerKind → BitVec 8
  | o => ch 'o'
  | x => ch 'x'
  | X => ch 'X'
  | d => ch 'd'
  | i => ch 'i'
  | u => ch 'u'

/-- The base in which the digits are. -/
def base : IntegerKind → BitVec 8
  | o => 8
  | x | X => 16
  | d | i | u => 10

/-- The flags that come with the letter of an integer conversion: the sign, and lower case. -/
def bits : IntegerKind → BitVec 8
  | x => Flag.small
  | d | i => Flag.sign
  | o | X | u => 0

end IntegerKind

namespace ConversionKind

/-- The letter of a kind, which is the last character of a conversion but for the extension. -/
def letter : ConversionKind → BitVec 8
  | char => ch 'c'
  | str => ch 's'
  | ptr _ _ => ch 'p'
  | percent => ch '%'
  | integer kind => kind.char

/-- The extension of a pointer. The other kinds have none. -/
def ext : ConversionKind → List (BitVec 8)
  | ptr ext _ => ext
  | _ => []

end ConversionKind

/-- The characters of a conversion, from the percent sign on. -/
def Conversion.chars (c : Conversion) : List (BitVec 8) :=
  ch '%' :: (c.flags.map FormatFlag.char ++ (c.width.chars ++ (c.precision.chars ++
    (c.qualifier.chars ++ (c.kind.letter :: c.kind.ext)))))

/-- The characters of a format, without the NUL that ends it in memory. -/
def Format.chars : Format → List (BitVec 8)
  | text t => t
  | conversion t c rest => t ++ (c.chars ++ rest.chars)

/-- The text at the beginning of a format, in front of its first conversion. -/
def Format.first : Format → List (BitVec 8)
  | text t => t
  | conversion t _ _ => t

/-- A text in which no character would be read as anything else: it has no NUL, which would end
the format, and no percent sign. -/
def PlainText (t : List (BitVec 8)) : Prop := ∀ c ∈ t, c ≠ 0 ∧ c ≠ ch '%'

instance (t : List (BitVec 8)) : Decidable (PlainText t) := inferInstanceAs (Decidable (∀ c ∈ t, _))

/-- The text behind a pointer is not a part of its extension. -/
def Separated : ConversionKind → List (BitVec 8) → Prop
  | .ptr _ _, t => isalnum (peek t) = false
  | _, _ => True

/-- The format can be taken apart in one way only: its texts are plain, and the extension of a
pointer ends where the next text begins. -/
def Format.WellFormed : Format → Prop
  | text t => PlainText t
  | conversion t c rest => PlainText t ∧ Separated c.kind rest.first ∧ rest.WellFormed

/-! ## What a format means

The text that a format stands for, without a buffer, a position or a state of the decoder: each
conversion takes its arguments, the width and the precision among them, and adds its text. -/

/-- The width and its flag, and what is left of the arguments; a negative argument means
`FormatFlag.left`. -/
def FieldWidth.value :
    FieldWidth → List (BitVec 64) → Exec ((BitVec 24 × BitVec 8) × List (BitVec 64))
  | default, args => .ok ((-1, 0), args)
  | given n _, args => .ok ((BitVec.ofNat 24 n, 0), args)
  | arg, args => vaArg args >>= fun r =>
    let width := r.1.setWidth 24
    .ok (if width.toInt < 0 then (-width, Flag.left) else (width, 0), r.2)

/-- The precision and what is left of the arguments. There is none that is negative: an argument
below 0 counts as 0. -/
def FieldPrecision.value :
    FieldPrecision → List (BitVec 64) → Exec (BitVec 16 × List (BitVec 64))
  | default, args => .ok (-1, args)
  | empty, args => .ok (-1, args)
  | given n, args =>
    let precision := BitVec.ofNat 16 n
    .ok (if precision.toInt < 0 then 0 else precision, args)
  | arg, args => vaArg args >>= fun r =>
    let precision := r.1.setWidth 16
    .ok (if precision.toInt < 0 then 0 else precision, r.2)

/-- The `printf_spec` for a kind, from what the conversion says besides. A kind sets the type and
the base, and for integers the flags of its letter. -/
def ConversionKind.spec (q : Qualifier) (width : BitVec 24) (flags : BitVec 8)
    (precision : BitVec 16) : ConversionKind → PrintfSpec
  | char => ⟨.char, width, flags, 10, precision⟩
  | str => ⟨.str, width, flags, 10, precision⟩
  | ptr _ _ => ⟨.ptr, width, flags, 10, precision⟩
  | percent => ⟨.percentChar, width, flags, 10, precision⟩
  | integer kind =>
    ⟨integerType q.code (flags ||| kind.bits), width, flags ||| kind.bits, kind.base, precision⟩

/-- The `printf_spec` for a conversion, once its width and its precision are known. -/
def Conversion.spec (c : Conversion) (width : BitVec 24 × BitVec 8) (precision : BitVec 16) :
    PrintfSpec :=
  c.kind.spec c.qualifier width.1 (FormatFlag.bits c.flags 0 ||| width.2) precision

/-- A character, with its padding. There is one width at which the loop behind the character
counts down through the least number that the field holds. -/
def charText (c : BitVec 8) (spec : PrintfSpec) : List (BitVec 8) :=
  let padding := List.replicate (spec.fieldWidth - 1).toInt.toNat (ch ' ')
  if hasFlag spec.flags Flag.left then c :: padding
  else padding ++ c :: List.replicate (if spec.fieldWidth = 0x800001 then 0x7fffff else 0) (ch ' ')

/-- A string, cut by the precision, with its padding on the left or on the right of it. -/
def strText (s : CStr) (spec : PrintfSpec) : List (BitVec 8) :=
  widened spec (stringText s (spec.precision.signExtend 64).toNat 0)

/-- Bytes in hexadecimal notation, from the `i`-th on, with the separator between any two of
them. -/
def hexText (addr : CStr) (separator : BitVec 8) (len : ℕ) : ℕ → ℕ → List (BitVec 8)
  | 0, _ => []
  | n + 1, i =>
    hexBytePack (addr i) ++ (if separator ≠ 0 ∧ i ≠ len - 1 then [separator] else []) ++
      hexText addr separator len n (i + 1)

/-- A pointer, as its extension says: a symbol, a block of bytes, a MAC address, or else the
number of the address itself. -/
def pointerText (mem : Memory) (ext : List (BitVec 8)) (ptr : BitVec 64) (spec : PrintfSpec) :
    List (BitVec 8) :=
  if ptr = 0 then
    strText nullText
      (if spec.fieldWidth = -1 then { spec with fieldWidth := 16 } else spec)
  else if [ch 'F', ch 'f', ch 'S', ch 's', ch 'B'].contains (peek ext) then
    rendered ptr ⟨.ptr, 18, Flag.special ||| Flag.small ||| Flag.zeropad, 16, -1⟩
  else if peek ext = ch 'h' then
    if spec.fieldWidth = 0 then []
    else
      let c := peek ext.tail
      let separator :=
        if c = ch 'C' then ch ':' else if c = ch 'D' then ch '-' else if c = ch 'N' then 0
        else ch ' '
      let len := if spec.fieldWidth.toInt > 0 then (min spec.fieldWidth.toInt 64).toNat else 1
      hexText (charsAt mem ptr) separator len len 0
  else if [ch 'M', ch 'm'].contains (peek ext) then
    strText (cstr (macAddr (charsAt mem ptr) ext)) spec
  else
    let spec := { spec with base := 16, flags := spec.flags ||| Flag.small }
    rendered ptr (if spec.fieldWidth = -1 then
      { spec with fieldWidth := 16, flags := spec.flags ||| Flag.zeropad } else spec)

/-- What is printed for the arguments, and what is left of them. -/
def ConversionKind.out (mem : Memory) (spec : PrintfSpec) :
    ConversionKind → List (BitVec 64) → Exec (List (BitVec 8) × List (BitVec 64))
  | char, args => vaArg args >>= fun r => .ok (charText (r.1.setWidth 8) spec, r.2)
  | str, args => vaArg args >>= fun r =>
    .ok (strText (if r.1 = 0 then nullText else charsAt mem r.1) spec, r.2)
  | ptr ext _, args => vaArg args >>= fun r => .ok (pointerText mem ext r.1 spec, r.2)
  | percent, args => .ok ([ch '%'], args)
  | integer _, args => vaArg args >>= fun r => .ok (rendered (integerArg spec.type r.1) spec, r.2)

/-- What a conversion means: it takes the arguments for its width, its precision and its value,
in this order, and its text depends on nothing else. -/
def Conversion.out (mem : Memory) (c : Conversion) (args : List (BitVec 64)) :
    Exec (List (BitVec 8) × List (BitVec 64)) :=
  c.width.value args >>= fun w =>
    c.precision.value w.2 >>= fun p => c.kind.out mem (c.spec w.1 p.1) p.2

/-- What a format means. The texts stand for themselves and the conversions take their arguments
from the front of the list; an argument that is missing is an error. -/
def Format.out (mem : Memory) : Format → List (BitVec 64) → Exec (List (BitVec 8))
  | text t, _ => .ok t
  | conversion t c rest, args =>
    c.out mem args >>= fun r => rest.out mem r.2 >>= fun l => .ok (t ++ (r.1 ++ l))

/-! ## What the emitters print

The functions of `vsprintf.c` print to a position in a buffer. Each of them puts a list of
characters there, which is the text that the conversion means. -/

section Emitters

variable {stop : Option ℕ} {o : Output (BitVec 8)} {mem : Memory} {spec : PrintfSpec}
  {ext rest : List (BitVec 8)}

/-- What is left for the loop behind a character that is on the right. -/
theorem afterCharLoop_padding (w : BitVec 24) :
    (afterCharLoop w - 1).toInt.toNat = if w = 0x800001 then 0x7fffff else 0 := by
  have hw := w.isLt
  have hmin : w = 0x800001 ↔ w.toNat = 0x800001 := by rw [← BitVec.toNat_inj]; rfl
  have hone : (w - 1).toNat = (w.toNat + (2 ^ 24 - 1)) % 2 ^ 24 := by bv_omega
  have htwo : (w - 1 - 1).toNat = (w.toNat + (2 ^ 24 - 2)) % 2 ^ 24 := by bv_omega
  unfold afterCharLoop
  split_ifs with hpos heq heq
  · rw [hmin] at heq
    rw [BitVec.toInt_eq_toNat_cond, hone] at hpos
    omega
  · rfl
  · rw [heq]
    decide
  · rw [hmin] at heq
    rw [BitVec.toInt_eq_toNat_cond, hone] at hpos
    rw [BitVec.toInt_eq_toNat_cond, htwo]
    omega

theorem putChar_charText (c : BitVec 8) (spec : PrintfSpec) :
    Emits (putChar c spec) (charText c spec) := by
  intro stop o
  unfold putChar charText
  dsimp only
  by_cases hleft : hasFlag spec.flags Flag.left = true
  · simp only [hleft, Bool.not_true, Bool.false_eq_true, if_false, if_true, Output.fill_eq]
    rfl
  · rw [Bool.not_eq_true] at hleft
    simp only [hleft, Bool.not_false, Bool.false_eq_true, if_false, if_true, Output.fill_eq,
      afterCharLoop_padding, Output.puts_append, Output.puts_cons]

theorem string_strText (s : Option CStr) (spec : PrintfSpec) :
    Emits (string s spec) (strText (s.getD nullText) spec) :=
  string_emits s spec

theorem hexLoop_hexText (addr : CStr) (separator : BitVec 8) (len n i : ℕ) :
    Emits (fun stop o => hexLoop addr separator len stop n i o)
      (hexText addr separator len n i) := by
  induction n generalizing i with
  | zero => exact .nothing
  | succ n ih =>
    exact (Emits.put _).comp (.put _) |>.comp (.ite (.put _) .nothing) |>.comp (ih (i + 1))

/-- A character behind the extension is not one that `pointer` looks for. -/
theorem peek_append (hrest : isalnum (peek rest) = false) {c : BitVec 8}
    (hc : isalnum c = true) : peek (ext ++ rest) = c ↔ peek ext = c := by
  cases ext with
  | nil =>
    have hne : peek rest ≠ c := fun heq => by
      rw [heq, hc] at hrest
      cases hrest
    have hzero : (0 : BitVec 8) ≠ c := fun heq => by
      rw [← heq] at hc
      exact absurd hc (by decide)
    exact ⟨fun h => absurd h hne, fun h => absurd h hzero⟩
  | cons x ext => exact Iff.rfl

theorem peek_tail_append (hrest : isalnum (peek rest) = false) (hext : ext ≠ []) {c : BitVec 8}
    (hc : isalnum c = true) : peek (ext ++ rest).tail = c ↔ peek ext.tail = c := by
  rw [List.tail_append_of_ne_nil hext]
  exact peek_append hrest hc

theorem ne_nil_of_peek (h : peek ext ≠ 0) : ext ≠ [] := fun hnil => h (hnil ▸ rfl)

/-- The text of a MAC address depends on the extension only, and not on what follows it in the
format. -/
theorem macAddr_append (hrest : isalnum (peek rest) = false) (hext : ext ≠ [])
    (addr : CStr) : macAddr addr (ext ++ rest) = macAddr addr ext := by
  have hR : (peek (ext ++ rest).tail == ch 'R') = (peek ext.tail == ch 'R') := by
    rw [Bool.eq_iff_iff, beq_iff_eq, beq_iff_eq]
    exact peek_tail_append hrest hext (by decide)
  simp only [macAddr, hR, peek_tail_append hrest hext (c := ch 'F') (by decide),
    peek_append hrest (c := ch 'M') (by decide)]

/-- A pointer is printed as its extension says. The emitter looks at the format itself, where the
extension is followed by the rest. -/
theorem pointer_pointerText (hrest : isalnum (peek rest) = false) (ptr : BitVec 64) :
    Emits (pointer mem (ext ++ rest) ptr spec) (pointerText mem ext ptr spec) := by
  have hfirst {c : BitVec 8} (hc : isalnum c = true) : peek (ext ++ rest) = c ↔ peek ext = c :=
    peek_append hrest hc
  intro stop o
  unfold pointer pointerText
  by_cases hnull : ptr = 0
  · rw [if_pos hnull, if_pos hnull]
    exact string_strText _ _ stop o
  rw [if_neg hnull, if_neg hnull]
  have hsymbol : peek (ext ++ rest) ∈ [ch 'F', ch 'f', ch 'S', ch 's', ch 'B'] ↔
      peek ext ∈ [ch 'F', ch 'f', ch 'S', ch 's', ch 'B'] := by
    simp only [List.mem_cons, List.not_mem_nil, or_false, hfirst (c := ch 'F') (by decide),
      hfirst (c := ch 'f') (by decide), hfirst (c := ch 'S') (by decide),
      hfirst (c := ch 's') (by decide), hfirst (c := ch 'B') (by decide)]
  have hmac : peek (ext ++ rest) ∈ [ch 'M', ch 'm'] ↔ peek ext ∈ [ch 'M', ch 'm'] := by
    simp only [List.mem_cons, List.not_mem_nil, or_false, hfirst (c := ch 'M') (by decide),
      hfirst (c := ch 'm') (by decide)]
  by_cases hs : peek ext ∈ [ch 'F', ch 'f', ch 'S', ch 's', ch 'B']
  · rw [if_pos (hsymbol.mpr hs), if_pos (List.contains_iff_mem.mpr hs),
      ← numberText_eq _ _ (.inr (.inr rfl))]
    exact number_emits _ _ stop o
  rw [if_neg fun h => hs (hsymbol.mp h), if_neg fun h => hs (List.contains_iff_mem.mp h)]
  by_cases hh : peek ext = ch 'h'
  · have hext : ext ≠ [] := ne_nil_of_peek (hh ▸ by decide)
    rw [if_pos ((hfirst (by decide)).mpr hh), if_pos hh, hexString]
    simp only [peek_tail_append hrest hext (c := ch 'C') (by decide),
      peek_tail_append hrest hext (c := ch 'D') (by decide),
      peek_tail_append hrest hext (c := ch 'N') (by decide)]
    by_cases hzero : spec.fieldWidth = 0
    · rw [if_pos hzero, if_pos hzero]
      rfl
    · rw [if_neg hzero, if_neg hzero]
      exact hexLoop_hexText _ _ _ _ _ stop o
  rw [if_neg fun h => hh ((hfirst (by decide)).mp h), if_neg hh]
  by_cases hm : peek ext ∈ [ch 'M', ch 'm']
  · have hext : ext ≠ [] := ne_nil_of_peek fun hzero => by
      rw [hzero] at hm
      exact absurd hm (by decide)
    rw [if_pos (hmac.mpr hm), if_pos (List.contains_iff_mem.mpr hm), macAddressString]
    rw [macAddr_append hrest hext]
    exact string_strText _ _ stop o
  rw [if_neg fun h => hm (hmac.mp h), if_neg fun h => hm (List.contains_iff_mem.mp h),
    pointerString]
  have hbase (s : PrintfSpec) (hs : s.base = 16) : (if s.fieldWidth = -1 then
      { s with fieldWidth := 16, flags := s.flags ||| Flag.zeropad } else s).base = 16 := by
    split_ifs
    · exact hs
    · exact hs
  rw [← numberText_eq _ _ (.inr (.inr (hbase _ rfl)))]
  exact number_emits _ _ stop o

end Emitters

/-! ## What `format_decode` finds

The decoder goes through a conversion from left to right: the flags, the width, the precision,
the qualifier, the letter. An asterisk ends a call in the middle, and the next call goes on
behind it. There is a lemma for each part, with anything at all behind it. -/

section Decoder

variable {rest : List (BitVec 8)} {spec : PrintfSpec}

theorem flagsLoop_append (fs : List FormatFlag) (acc : BitVec 8)
    (hrest : flagOf (peek rest) = none) :
    flagsLoop (fs.map FormatFlag.char ++ rest) acc = (FormatFlag.bits fs acc, rest) := by
  induction fs generalizing acc with
  | nil =>
    cases rest with
    | nil => rfl
    | cons c cs =>
      have hnone : flagOf c = none := hrest
      rw [List.map_nil, List.nil_append, flagsLoop, hnone]
      rfl
  | cons f fs ih =>
    have hflag : flagOf f.char = some f.bit := by cases f <;> decide
    rw [List.map_cons, List.cons_append, flagsLoop, hflag]
    exact ih _

/-- `skip_atoi` on digits and something else behind them: it takes all the digits, and makes
their value of them with the first one as the highest. -/
theorem skipAtoi_append (ds : List ℕ) (hds : ∀ d ∈ ds, d < 10)
    (hrest : isdigit (peek rest) = false) (a : ℕ) :
    skipAtoi (ds.map (digitChar false) ++ rest) (BitVec.ofNat 32 a) =
      (BitVec.ofNat 32 (ds.foldl (fun a d => a * 10 + d) a), rest) := by
  induction ds generalizing a with
  | nil =>
    cases rest with
    | nil => rfl
    | cons c cs =>
      have hnot : isdigit c = false := hrest
      rw [List.map_nil, List.nil_append, skipAtoi, hnot]
      rfl
  | cons d ds ih =>
    obtain ⟨hd, hds⟩ := List.forall_mem_cons.mp hds
    have hdigit : ∀ d < 10, isdigit (digitChar false d) = true ∧
        (digitChar false d).setWidth 32 = BitVec.ofNat 32 (48 + d) := by decide
    have hnext : BitVec.ofNat 32 a * 10 + (digitChar false d).setWidth 32 -
        (ch '0').setWidth 32 = BitVec.ofNat 32 (a * 10 + d) := by
      have hzero : (ch '0').setWidth 32 = BitVec.ofNat 32 48 := rfl
      have hten : (10 : BitVec 32) = BitVec.ofNat 32 10 := rfl
      rw [(hdigit d hd).2, hzero, hten, ← BitVec.ofNat_mul, ← BitVec.ofNat_add,
        BitVec.ofNat_sub_ofNat_of_le _ _ (by decide) (by omega)]
      congr 1
      omega
    rw [List.map_cons, List.cons_append, skipAtoi, if_pos (hdigit d hd).1, hnext, ih hds]
    rfl

theorem skipAtoi_numeral (n : ℕ) (hrest : isdigit (peek rest) = false) :
    skipAtoi (numeral 10 n false ++ rest) 0 = (BitVec.ofNat 32 n, rest) := by
  rw [numeral]
  by_cases hzero : n = 0
  · subst hzero
    exact skipAtoi_append [0] (by decide) hrest 0
  · have hds : ∀ d ∈ (Nat.digits 10 n).reverse, d < 10 := fun d hd =>
      Nat.digits_lt_base (by decide) (List.mem_reverse.mp hd)
    have hvalue : (Nat.digits 10 n).reverse.foldl (fun a d => a * 10 + d) 0 = n := by
      rw [List.foldl_reverse]
      have hdigits := Nat.ofDigits_digits 10 n
      rw [Nat.ofDigits_eq_foldr] at hdigits
      refine Eq.trans ?_ hdigits
      congr 1
      funext x y
      simp only [Nat.cast_id]
      omega
    rw [if_neg hzero]
    refine (skipAtoi_append _ hds hrest 0).trans ?_
    rw [hvalue]

/-- A number begins with a digit, which is no flag if it is not zero. -/
theorem peek_numeral (n : ℕ) : isdigit (peek (numeral 10 n false ++ rest)) = true ∧
    (0 < n → flagOf (peek (numeral 10 n false ++ rest)) = none) := by
  have hdigit : ∀ d < 10, isdigit (digitChar false d) = true ∧
      (d ≠ 0 → flagOf (digitChar false d) = none) := by decide
  rw [numeral]
  by_cases hzero : n = 0
  · rw [if_pos hzero]
    exact ⟨rfl, fun h => absurd hzero h.ne'⟩
  · have hne : Nat.digits 10 n ≠ [] := Nat.digits_ne_nil_iff_ne_zero.mpr hzero
    obtain ⟨init, last, heq⟩ := (List.eq_nil_or_concat (Nat.digits 10 n)).resolve_left hne
    have hlast : last < 10 := Nat.digits_lt_base (m := n) (by decide) (by simp [heq])
    have hlast' : last ≠ 0 := by
      have hne' := Nat.getLast_digit_ne_zero 10 hzero
      simpa [heq] using hne'
    have hpeek : peek (((Nat.digits 10 n).reverse.map (digitChar false)) ++ rest) =
        digitChar false last := by simp [heq, peek]
    rw [if_neg hzero, hpeek]
    exact ⟨(hdigit last hlast).1, fun _ => (hdigit last hlast).2 hlast'⟩

/-- A character that begins neither a flag, a width nor a precision. -/
def IsLetter (c : BitVec 8) : Prop :=
  c ≠ 0 ∧ flagOf c = none ∧ isdigit c = false ∧ c ≠ ch '.' ∧ c ≠ ch '*'

instance (c : BitVec 8) : Decidable (IsLetter c) := inferInstanceAs (Decidable (_ ∧ _))

theorem ConversionKind.isLetter (k : ConversionKind) : IsLetter k.letter := by
  cases k with
  | integer kind => cases kind <;> decide
  | ptr ext alnum => exact (by decide : IsLetter (ch 'p'))
  | _ => decide

/-- The letter of a kind is not taken for a qualifier. -/
theorem ConversionKind.not_qualifier (k : ConversionKind) :
    ¬(k.letter = ch 'h' ∨ k.letter ||| 0x20 = ch 'l' ∨ k.letter = ch 'z' ∨ k.letter = ch 't') := by
  cases k with
  | integer kind => cases kind <;> decide
  | ptr ext alnum =>
    exact (by decide : ¬(ch 'p' = ch 'h' ∨ ch 'p' ||| 0x20 = ch 'l' ∨ ch 'p' = ch 'z' ∨
      ch 'p' = ch 't'))
  | _ => decide

theorem isLetter_peek (q : Qualifier) (k : ConversionKind) :
    IsLetter (peek (q.chars ++ k.letter :: rest)) := by
  have hletters : ∀ c ∈ [ch 'h', ch 'l', ch 'L', ch 'z', ch 't'], IsLetter c := by decide
  cases q with
  | none => exact k.isLetter
  | hh => exact hletters (ch 'h') (by decide)
  | h => exact hletters (ch 'h') (by decide)
  | l => exact hletters (ch 'l') (by decide)
  | ll => exact hletters (ch 'l') (by decide)
  | L => exact hletters (ch 'L') (by decide)
  | z => exact hletters (ch 'z') (by decide)
  | t => exact hletters (ch 't') (by decide)

theorem decodeConversion_eq (q : Qualifier) (k : ConversionKind) :
    decodeConversion q.code (k.letter :: rest) spec =
      (rest, k.spec q spec.fieldWidth spec.flags spec.precision) := by
  have hzero : spec.flags ||| 0 = spec.flags := BitVec.or_zero
  cases k with
  | integer kind =>
    cases kind with
    | x => rfl
    | d => rfl
    | i => rfl
    | _ =>
      simp only [ConversionKind.spec, IntegerKind.bits, hzero]
      rfl
  | _ => rfl

/-- A qualifier of one letter: the letter behind it is another one. -/
theorem decodeQualifier_single {c : BitVec 8}
    (hc : c = ch 'h' ∨ c ||| 0x20 = ch 'l' ∨ c = ch 'z' ∨ c = ch 't')
    (hl : c = ch 'l' → c ≠ peek rest) (hh : c = ch 'h' → c ≠ peek rest) :
    decodeQualifier (c :: rest) spec = decodeConversion c rest spec := by
  refine (if_pos hc).trans ((if_neg ?_).trans (if_neg ?_))
  · exact fun h => hl h.2 h.1
  · exact fun h => hh h.2 h.1

/-- **A qualifier and a kind**: the decoder finds both, and stops behind the letter of the kind. -/
theorem decodeQualifier_eq (q : Qualifier) (k : ConversionKind) :
    decodeQualifier (q.chars ++ k.letter :: rest) spec =
      (rest, k.spec q spec.fieldWidth spec.flags spec.precision) := by
  rw [← decodeConversion_eq]
  have hnot := k.not_qualifier
  have hh : ch 'h' ≠ k.letter := fun h => hnot (.inl h.symm)
  have hl : ch 'l' ≠ k.letter := fun h => hnot (.inr (.inl (h ▸ by decide)))
  have hlower : ch 'l' ||| 0x20 = ch 'l' := by decide
  cases q with
  | none => exact if_neg hnot
  | hh => rfl
  | h => exact decodeQualifier_single (.inl rfl) (fun _ => hh) fun _ => hh
  | l => exact decodeQualifier_single (.inr (.inl hlower)) (fun _ => hl) fun _ => hl
  | ll => exact (if_pos (.inr (.inl hlower))).trans (if_pos ⟨rfl, rfl⟩)
  | L =>
    exact decodeQualifier_single (by decide) (fun h => absurd h (by decide))
      fun h => absurd h (by decide)
  | z =>
    exact decodeQualifier_single (by decide) (fun h => absurd h (by decide))
      fun h => absurd h (by decide)
  | t =>
    exact decodeQualifier_single (by decide) (fun h => absurd h (by decide))
      fun h => absurd h (by decide)

theorem decodePrecision_dot (fmt : List (BitVec 8)) :
    decodePrecision (ch '.' :: fmt) spec =
      if isdigit (peek fmt) then
        decodeQualifier (skipAtoi fmt 0).2 { spec with
          precision := if ((skipAtoi fmt 0).1.setWidth 16 : BitVec 16).toInt < 0 then 0
            else (skipAtoi fmt 0).1.setWidth 16 }
      else if peek fmt = ch '*' then
        (fmt.tail, { spec with precision := -1, type := .precision })
      else decodeQualifier fmt { spec with precision := -1 } := by
  have hdot : peek (ch '.' :: fmt) = ch '.' := rfl
  rw [decodePrecision, if_pos hdot]
  rfl

/-- A precision that is in the format, as digits or as a dot alone: the decoder goes on to the
qualifier behind it in the same call. -/
theorem decodePrecision_eq (p : FieldPrecision) (q : Qualifier) (k : ConversionKind) :
    (∃ x, (∀ args, p.value args = .ok (x, args)) ∧
      decodePrecision (p.chars ++ (q.chars ++ k.letter :: rest)) spec =
        (rest, k.spec q spec.fieldWidth spec.flags x)) ∨ p = .arg := by
  obtain ⟨-, -, hdigit, hdot, hstar⟩ : IsLetter (peek (q.chars ++ k.letter :: rest)) :=
    isLetter_peek q k
  have hnext (x : BitVec 16) : decodeQualifier (q.chars ++ k.letter :: rest)
      { spec with precision := x } = (rest, k.spec q spec.fieldWidth spec.flags x) :=
    decodeQualifier_eq q k
  cases p with
  | default => exact .inl ⟨-1, fun _ => rfl, (if_neg hdot).trans (hnext _)⟩
  | empty =>
    refine .inl ⟨-1, fun _ => rfl, ?_⟩
    rw [FieldPrecision.chars, List.singleton_append, decodePrecision_dot, hdigit,
      if_neg Bool.false_ne_true, if_neg hstar]
    exact hnext _
  | given n =>
    refine .inl ⟨_, fun _ => rfl, ?_⟩
    have hcut : (BitVec.ofNat 32 n).setWidth 16 = BitVec.ofNat 16 n :=
      BitVec.setWidth_ofNat_of_le (by decide) n
    rw [FieldPrecision.chars, List.cons_append, decodePrecision_dot, if_pos (peek_numeral n).1,
      skipAtoi_numeral n hdigit, hcut]
    exact hnext _
  | arg => exact .inr rfl

theorem decodePrecision_arg (fmt : List (BitVec 8)) :
    decodePrecision (ch '.' :: ch '*' :: fmt) spec =
      (fmt, { spec with precision := -1, type := .precision }) :=
  rfl

/-- The call after one that has found an asterisk for the width: the decoder goes on with the
precision. -/
theorem formatDecode_width (htype : spec.type = .width) (fmt : List (BitVec 8)) :
    ∃ s : PrintfSpec, formatDecode fmt spec = decodePrecision fmt s ∧
      (s.fieldWidth, s.flags) = (if spec.fieldWidth.toInt < 0 then
        (-spec.fieldWidth, spec.flags ||| Flag.left) else (spec.fieldWidth, spec.flags)) := by
  rw [formatDecode, htype]
  dsimp only
  by_cases hneg : spec.fieldWidth.toInt < 0
  · rw [if_pos hneg, if_pos hneg]
    exact ⟨_, rfl, rfl⟩
  · rw [if_neg hneg, if_neg hneg]
    exact ⟨_, rfl, rfl⟩

/-- The call after one that has found an asterisk for the precision: the decoder goes on with the
qualifier. -/
theorem formatDecode_precision (htype : spec.type = .precision) (q : Qualifier)
    (k : ConversionKind) :
    formatDecode (q.chars ++ k.letter :: rest) spec =
      (rest, k.spec q spec.fieldWidth spec.flags
        (if spec.precision.toInt < 0 then 0 else spec.precision)) := by
  rw [formatDecode, htype]
  dsimp only
  by_cases hneg : spec.precision.toInt < 0
  · rw [if_pos hneg, if_pos hneg]
    exact decodeQualifier_eq q k
  · rw [if_neg hneg, if_neg hneg]
    exact decodeQualifier_eq q k

/-- A call that begins at a text or at a conversion, so that nothing of an earlier call is left
to be continued. -/
theorem formatDecode_start (hwidth : spec.type ≠ .width) (hprecision : spec.type ≠ .precision)
    (fmt : List (BitVec 8)) :
    formatDecode fmt spec =
      if (afterLiteral fmt).length ≠ fmt.length ∨ peek fmt = 0 then
        (afterLiteral fmt, { spec with type := .none })
      else
        let r := flagsLoop fmt.tail 0
        if isdigit (peek r.2) then
          decodePrecision (skipAtoi r.2 0).2 { spec with
            type := .none, flags := r.1, fieldWidth := (skipAtoi r.2 0).1.setWidth 24 }
        else if peek r.2 = ch '*' then
          (r.2.tail, { spec with type := .width, flags := r.1, fieldWidth := -1 })
        else decodePrecision r.2 { spec with type := .none, flags := r.1, fieldWidth := -1 } := by
  rcases spec with ⟨type, fieldWidth, flags, base, precision⟩
  cases type with
  | width => exact absurd rfl hwidth
  | precision => exact absurd rfl hprecision
  | _ => rfl

/-- From the percent sign on: the flags and the width, and whether an asterisk ends the call. -/
theorem formatDecode_percent (fs : List FormatFlag) (hrest : flagOf (peek rest) = none)
    (hwidth : spec.type ≠ .width) (hprecision : spec.type ≠ .precision) :
    formatDecode (ch '%' :: (fs.map FormatFlag.char ++ rest)) spec =
      if isdigit (peek rest) then
        decodePrecision (skipAtoi rest 0).2 { spec with
          type := .none, flags := FormatFlag.bits fs 0,
          fieldWidth := (skipAtoi rest 0).1.setWidth 24 }
      else if peek rest = ch '*' then
        (rest.tail, { spec with type := .width, flags := FormatFlag.bits fs 0, fieldWidth := -1 })
      else decodePrecision rest
        { spec with type := .none, flags := FormatFlag.bits fs 0, fieldWidth := -1 } := by
  have hpercent (fmt : List (BitVec 8)) : afterLiteral (ch '%' :: fmt) = ch '%' :: fmt := rfl
  have hliteral (fmt : List (BitVec 8)) : ¬((afterLiteral (ch '%' :: fmt)).length ≠
      (ch '%' :: fmt).length ∨ peek (ch '%' :: fmt) = 0) := by
    rintro (hne | hzero)
    · exact hne (congrArg List.length (hpercent fmt))
    · exact absurd hzero (by decide : ¬ch '%' = 0)
  rw [formatDecode_start hwidth hprecision, if_neg (hliteral _), List.tail_cons,
    flagsLoop_append fs 0 hrest]

end Decoder

/-! ## What the loop prints

The loop of `vsnprintf` takes what the decoder has found and prints it. The rounds for one
conversion, of which there are up to three, are composed here to what the conversion means, and
whatever is left in the `printf_spec` by those before has no effect. -/

section Run

variable {mem : Memory} {stop : Option ℕ} {o : Output (BitVec 8)} {fmt rest : List (BitVec 8)}
  {spec : PrintfSpec} {args : List (BitVec 64)} {n : ℕ}

/-- The types that the inner `switch` of `vsnprintf` is for. All of them print with `number`. -/
def integerTypes : List FormatType :=
  [.longLong, .ulong, .long, .sizeT, .ptrdiff, .ubyte, .byte, .ushort, .short, .uint, .int]

theorem integerType_mem (qualifier flags : BitVec 8) :
    integerType qualifier flags ∈ integerTypes := by
  unfold integerType
  dsimp only
  split_ifs <;> decide

/-- A kind is not an argument for the width or the precision. -/
theorem ConversionKind.type_spec (k : ConversionKind) (q : Qualifier) (w : BitVec 24)
    (f : BitVec 8) (p : BitVec 16) :
    (k.spec q w f p).type ≠ .width ∧ (k.spec q w f p).type ≠ .precision := by
  cases k with
  | integer kind =>
    have hmem : integerType q.code (f ||| kind.bits) ∈ integerTypes := integerType_mem _ _
    have hne {t : FormatType} (ht : t ∉ integerTypes) : integerType q.code (f ||| kind.bits) ≠ t :=
      fun h => ht (h ▸ hmem)
    exact ⟨hne (by decide), hne (by decide)⟩
  | _ => exact ⟨FormatType.noConfusion, FormatType.noConfusion⟩

theorem vsnprintfBody_integer {st : PrintfState}
    (hdecode : formatDecode st.fmt st.spec = (rest, spec)) (hlen : st.fmt.length ≤ intMax)
    (htype : spec.type ∈ integerTypes) :
    vsnprintfBody mem st stop o = vaArg st.args >>= fun r =>
      .ok (some ⟨rest, spec, r.2⟩, number (integerArg spec.type r.1) spec stop o) := by
  have hread : ¬st.fmt.length - rest.length > intMax := by omega
  rw [vsnprintfBody, hdecode]
  dsimp only
  rw [if_neg hread]
  rcases spec with ⟨type, fieldWidth, flags, base, precision⟩
  replace htype : type ∈ integerTypes := htype
  cases type with
  | none => exact absurd htype (by decide)
  | width => exact absurd htype (by decide)
  | precision => exact absurd htype (by decide)
  | char => exact absurd htype (by decide)
  | str => exact absurd htype (by decide)
  | ptr => exact absurd htype (by decide)
  | percentChar => exact absurd htype (by decide)
  | invalid => exact absurd htype (by decide)
  | _ => rfl

/-- What is left of a format begins with none of the characters of an extension. -/
theorem dropWhile_isalnum {ext : List (BitVec 8)} (hext : ∀ c ∈ ext, isalnum c = true)
    (hrest : isalnum (peek rest) = false) : (ext ++ rest).dropWhile isalnum = rest := by
  rw [List.dropWhile_append_of_pos hext]
  cases rest with
  | nil => rfl
  | cons c rest =>
    have hc : isalnum c = false := hrest
    rw [List.dropWhile_cons, hc, if_neg Bool.false_ne_true]

/-- **A conversion that was decoded** prints what it means: the body of the loop takes its
argument and calls the emitter of its kind. -/
theorem vsnprintfBody_kind {st : PrintfState} (k : ConversionKind) (q : Qualifier)
    (w : BitVec 24) (f : BitVec 8) (p : BitVec 16)
    (hdecode : formatDecode st.fmt st.spec = (k.ext ++ rest, k.spec q w f p))
    (hlen : st.fmt.length ≤ intMax) (hsep : Separated k rest) :
    ∃ next : PrintfSpec, next.type ≠ .width ∧ next.type ≠ .precision ∧
      vsnprintfBody mem st stop o = k.out mem (k.spec q w f p) st.args >>= fun r =>
        .ok (some ⟨rest, next, r.2⟩, o.puts stop r.1) := by
  have hread : ¬st.fmt.length - (k.ext ++ rest).length > intMax := by omega
  obtain ⟨hwidth, hprecision⟩ := k.type_spec q w f p
  rcases st with ⟨fmt, spec, args⟩
  cases k with
  | integer kind =>
    have hmem : integerType q.code (f ||| kind.bits) ∈ integerTypes := integerType_mem _ _
    have hbase : kind.base = 8 ∨ kind.base = 10 ∨ kind.base = 16 := by cases kind <;> decide
    refine ⟨ConversionKind.spec q w f p (.integer kind), hwidth, hprecision, ?_⟩
    rw [vsnprintfBody_integer hdecode hlen hmem]
    rcases args with _ | ⟨arg, args⟩
    · rfl
    · refine congrArg (fun o' => Except.ok (some _, o')) ?_
      rw [number_emits, numberText_eq _ _ hbase]
  | percent =>
    refine ⟨ConversionKind.spec q w f p .percent, hwidth, hprecision, ?_⟩
    rw [vsnprintfBody, hdecode]
    exact if_neg hread
  | char =>
    refine ⟨{ ConversionKind.spec q w f p .char with
      fieldWidth := charFieldWidth (ConversionKind.spec q w f p .char) }, hwidth, hprecision, ?_⟩
    rw [vsnprintfBody, hdecode]
    refine (if_neg hread).trans ?_
    rcases args with _ | ⟨arg, args⟩
    · rfl
    · exact congrArg (fun o' => Except.ok (some _, o')) (putChar_charText _ _ stop o)
  | str =>
    refine ⟨ConversionKind.spec q w f p .str, hwidth, hprecision, ?_⟩
    rw [vsnprintfBody, hdecode]
    refine (if_neg hread).trans ?_
    rcases args with _ | ⟨arg, args⟩
    · rfl
    · refine congrArg (fun o' => Except.ok (some _, o')) ((string_strText _ _ stop o).trans ?_)
      by_cases hnull : arg = 0
      · rw [if_pos hnull, if_pos hnull]
        rfl
      · rw [if_neg hnull, if_neg hnull]
        rfl
  | ptr ext alnum =>
    refine ⟨ConversionKind.spec q w f p (.ptr ext alnum), hwidth, hprecision, ?_⟩
    rw [vsnprintfBody, hdecode]
    refine (if_neg hread).trans ?_
    rcases args with _ | ⟨arg, args⟩
    · rfl
    · have hdrop := dropWhile_isalnum alnum hsep
      refine Eq.trans
        (congrArg (fun fmt' => Except.ok (some (PrintfState.mk fmt' _ args), _)) hdrop) ?_
      exact congrArg (fun o' => Except.ok (some _, o')) (pointer_pointerText hsep arg stop o)

theorem vsnprintfBody_width {st : PrintfState}
    (hdecode : formatDecode st.fmt st.spec = (rest, spec)) (hlen : st.fmt.length ≤ intMax)
    (htype : spec.type = .width) : vsnprintfBody mem st stop o = vaArg st.args >>= fun r =>
      .ok (some ⟨rest, { spec with fieldWidth := r.1.setWidth 24 }, r.2⟩, o) := by
  have hread : ¬st.fmt.length - rest.length > intMax := by omega
  rw [vsnprintfBody, hdecode]
  refine (if_neg hread).trans ?_
  rw [htype]

theorem vsnprintfBody_precision {st : PrintfState}
    (hdecode : formatDecode st.fmt st.spec = (rest, spec)) (hlen : st.fmt.length ≤ intMax)
    (htype : spec.type = .precision) : vsnprintfBody mem st stop o = vaArg st.args >>= fun r =>
      .ok (some ⟨rest, { spec with precision := r.1.setWidth 16 }, r.2⟩, o) := by
  have hread : ¬st.fmt.length - rest.length > intMax := by omega
  rw [vsnprintfBody, hdecode]
  refine (if_neg hread).trans ?_
  rw [htype]

/-- One round that goes on: the loop is called again with one less of its fuel, on what is left
of the format. -/
theorem vsnprintfLoop_next {α : Type} {x : Exec α} {next : α → PrintfState}
    {out : α → Output (BitVec 8)} {f : α → Exec (Unit × Output (BitVec 8))} {st : PrintfState}
    (hpeek : peek st.fmt ≠ 0) (hn : st.fmt.length ≤ n)
    (hbody : vsnprintfBody mem st stop o = x >>= fun a => .ok (some (next a), out a))
    (hf : ∀ a m, st.fmt.length ≤ m + 1 → vsnprintfLoop mem m (next a) stop (out a) = f a) :
    vsnprintfLoop mem n st stop o = x >>= f := by
  cases n with
  | zero =>
    have hnil : st.fmt = [] := List.length_eq_zero_iff.mp (Nat.le_zero.mp hn)
    exact absurd (hnil ▸ rfl) hpeek
  | succ m =>
    rw [vsnprintfLoop, if_neg hpeek, hbody]
    cases x with
    | error e => rfl
    | ok a => exact hf a m hn

/-- What the loop makes of a format, whatever the last conversion was. -/
def Prints (mem : Memory) (stop : Option ℕ) (fmt : List (BitVec 8))
    (f : List (BitVec 64) → Output (BitVec 8) → Exec (Unit × Output (BitVec 8))) : Prop :=
  ∀ n (spec : PrintfSpec) args o, fmt.length ≤ n → spec.type ≠ .width → spec.type ≠ .precision →
    vsnprintfLoop mem n ⟨fmt, spec, args⟩ stop o = f args o

variable {f : List (BitVec 64) → Output (BitVec 8) → Exec (Unit × Output (BitVec 8))}

/-- The round of a kind, which is the last one of its conversion. Behind it the rest of the
format prints what it prints. -/
theorem Prints.kind (h : Prints mem stop rest f) (k : ConversionKind) (q : Qualifier)
    (w : BitVec 24) (fl : BitVec 8) (p : BitVec 16) (st : PrintfState)
    (hdecode : formatDecode st.fmt st.spec = (k.ext ++ rest, k.spec q w fl p))
    (hlen : st.fmt.length ≤ intMax) (hsep : Separated k rest) (hpeek : peek st.fmt ≠ 0)
    (hn : st.fmt.length ≤ n) (hlt : rest.length < st.fmt.length) :
    vsnprintfLoop mem n st stop o =
      k.out mem (k.spec q w fl p) st.args >>= fun r => f r.2 (o.puts stop r.1) := by
  obtain ⟨next, hwidth, hprecision, hbody⟩ := vsnprintfBody_kind k q w fl p hdecode hlen hsep
  exact vsnprintfLoop_next hpeek hn hbody fun r m hm =>
    h m next r.2 _ (by omega) hwidth hprecision

/-- A conversion from its qualifier on, and what comes behind it in the format. -/
def Conversion.fromQualifier (c : Conversion) (rest : List (BitVec 8)) : List (BitVec 8) :=
  c.qualifier.chars ++ c.kind.letter :: (c.kind.ext ++ rest)

/-- A conversion from its precision on, and what comes behind it in the format. -/
def Conversion.fromPrecision (c : Conversion) (rest : List (BitVec 8)) : List (BitVec 8) :=
  c.precision.chars ++ c.fromQualifier rest

theorem Conversion.chars_append (c : Conversion) (rest : List (BitVec 8)) :
    c.chars ++ rest =
      ch '%' :: (c.flags.map FormatFlag.char ++ (c.width.chars ++ c.fromPrecision rest)) := by
  simp [Conversion.chars, Conversion.fromPrecision, Conversion.fromQualifier]

theorem Conversion.peek_fromPrecision (c : Conversion) (rest : List (BitVec 8)) :
    peek (c.fromPrecision rest) ≠ 0 ∧ flagOf (peek (c.fromPrecision rest)) = none ∧
      isdigit (peek (c.fromPrecision rest)) = false ∧ peek (c.fromPrecision rest) ≠ ch '*' := by
  have hdot : ch '.' ≠ 0 ∧ flagOf (ch '.') = none ∧ isdigit (ch '.') = false ∧ ch '.' ≠ ch '*' := by
    decide
  unfold Conversion.fromPrecision
  cases c.precision with
  | default =>
    obtain ⟨hzero, hflag, hdigit, -, hstar⟩ := isLetter_peek c.qualifier c.kind
    exact ⟨hzero, hflag, hdigit, hstar⟩
  | _ => exact hdot

theorem Conversion.length_fromQualifier (c : Conversion) (rest : List (BitVec 8)) :
    rest.length < (c.fromQualifier rest).length := by
  simp only [Conversion.fromQualifier, List.length_append, List.length_cons]
  omega

theorem Conversion.length_fromPrecision (c : Conversion) (rest : List (BitVec 8)) :
    (c.fromQualifier rest).length ≤ (c.fromPrecision rest).length := by
  rw [Conversion.fromPrecision, List.length_append]
  exact Nat.le_add_left _ _

/-- The round behind a precision that is an argument: the call of the decoder starts at the
qualifier. -/
theorem Prints.qualifier (h : Prints mem stop rest f) (c : Conversion)
    (hlen : (c.fromQualifier rest).length ≤ intMax) (hsep : Separated c.kind rest)
    (hn : (c.fromQualifier rest).length ≤ n) (htype : spec.type = .precision) :
    vsnprintfLoop mem n ⟨c.fromQualifier rest, spec, args⟩ stop o =
      c.kind.out mem (c.kind.spec c.qualifier spec.fieldWidth spec.flags
        (if spec.precision.toInt < 0 then 0 else spec.precision)) args >>= fun r =>
          f r.2 (o.puts stop r.1) :=
  h.kind c.kind c.qualifier _ _ _ ⟨c.fromQualifier rest, spec, args⟩
    (formatDecode_precision htype _ _) hlen hsep (isLetter_peek _ _).1 hn
    (c.length_fromQualifier rest)

/-- The rounds from a precision on: one, or two if the precision is an argument. -/
theorem Prints.precision (h : Prints mem stop rest f) (c : Conversion) (st : PrintfState)
    (hdecode : formatDecode st.fmt st.spec = decodePrecision (c.fromPrecision rest) spec)
    (hlen : st.fmt.length ≤ intMax) (hsep : Separated c.kind rest) (hpeek : peek st.fmt ≠ 0)
    (hn : st.fmt.length ≤ n) (hle : (c.fromPrecision rest).length ≤ st.fmt.length) :
    vsnprintfLoop mem n st stop o = c.precision.value st.args >>= fun p =>
      c.kind.out mem (c.kind.spec c.qualifier spec.fieldWidth spec.flags p.1) p.2 >>= fun r =>
        f r.2 (o.puts stop r.1) := by
  have hrest := c.length_fromQualifier rest
  have hqualifier := c.length_fromPrecision rest
  obtain ⟨x, hvalue, hfixed⟩ | hstar := @decodePrecision_eq (c.kind.ext ++ rest) spec c.precision
    c.qualifier c.kind
  · rw [hvalue]
    exact h.kind c.kind c.qualifier _ _ x st (hdecode.trans hfixed) hlen hsep hpeek hn (by omega)
  -- the precision is an argument, and the next round goes on behind it
  have hchars : c.fromPrecision rest = ch '.' :: ch '*' :: c.fromQualifier rest := by
    rw [Conversion.fromPrecision, hstar]
    rfl
  rw [hchars, List.length_cons, List.length_cons] at hle
  rw [hchars, decodePrecision_arg] at hdecode
  refine (vsnprintfLoop_next hpeek hn (vsnprintfBody_precision hdecode hlen rfl) fun r m hm =>
    h.qualifier c (by omega) hsep (by omega) rfl).trans ?_
  rw [hstar]
  rcases st with ⟨fmt, spec', _ | ⟨arg, args⟩⟩
  · rfl
  · rfl

/-- The rounds behind a width that is an argument, which has set the width in the state. -/
theorem Prints.width (h : Prints mem stop rest f) (c : Conversion)
    (hlen : (c.fromPrecision rest).length ≤ intMax) (hsep : Separated c.kind rest)
    (hn : (c.fromPrecision rest).length ≤ n) (htype : spec.type = .width)
    (hflags : spec.flags = FormatFlag.bits c.flags 0) :
    vsnprintfLoop mem n ⟨c.fromPrecision rest, spec, args⟩ stop o =
      c.precision.value args >>= fun p =>
        c.kind.out mem (c.spec (if spec.fieldWidth.toInt < 0 then (-spec.fieldWidth, Flag.left)
          else (spec.fieldWidth, 0)) p.1) p.2 >>= fun r => f r.2 (o.puts stop r.1) := by
  have hzero : spec.flags ||| 0 = spec.flags := BitVec.or_zero
  obtain ⟨s, hdecode, hs⟩ := formatDecode_width htype (c.fromPrecision rest)
  refine (h.precision c ⟨c.fromPrecision rest, spec, args⟩ hdecode hlen hsep
    (c.peek_fromPrecision rest).1 hn (Nat.le_refl _)).trans ?_
  by_cases hneg : spec.fieldWidth.toInt < 0
  · rw [if_pos hneg] at hs
    obtain ⟨hwidth, hleft⟩ := Prod.mk.inj hs
    simp only [Conversion.spec, if_pos hneg, hwidth, hleft, hflags]
  · rw [if_neg hneg] at hs
    obtain ⟨hwidth, hleft⟩ := Prod.mk.inj hs
    simp only [Conversion.spec, if_neg hneg, hwidth, hleft, ← hflags, hzero]

/-- **The rounds of a conversion**: at most three, which print what it means. -/
theorem Prints.conversion (h : Prints mem stop rest f) (c : Conversion)
    (hlen : (c.chars ++ rest).length ≤ intMax) (hsep : Separated c.kind rest) :
    Prints mem stop (c.chars ++ rest) fun args o =>
      c.out mem args >>= fun r => f r.2 (o.puts stop r.1) := by
  intro n spec args o hn hwidth hprecision
  obtain ⟨hnext, hflag, hdigit, hstar⟩ := c.peek_fromPrecision rest
  have hzero : FormatFlag.bits c.flags 0 ||| 0 = FormatFlag.bits c.flags 0 := BitVec.or_zero
  have hpeek : peek (c.chars ++ rest) ≠ 0 := (by decide : ch '%' ≠ 0)
  have hout : (c.out mem args >>= fun r => f r.2 (o.puts stop r.1)) =
      c.width.value args >>= fun w => c.precision.value w.2 >>= fun p =>
        c.kind.out mem (c.spec w.1 p.1) p.2 >>= fun r => f r.2 (o.puts stop r.1) := by
    simp only [Conversion.out, bind_assoc]
  refine Eq.trans ?_ hout.symm
  have hlength : (c.fromPrecision rest).length < (c.chars ++ rest).length := by
    rw [c.chars_append]
    simp only [List.length_cons, List.length_append]
    omega
  have hdecode (hnone : flagOf (peek (c.width.chars ++ c.fromPrecision rest)) = none) :=
    formatDecode_percent c.flags hnone hwidth hprecision
  rw [← c.chars_append] at hdecode
  cases hw : c.width with
  | default =>
    rw [hw] at hdecode
    have hfixed := (hdecode hflag).trans
      ((if_neg (ne_true_of_eq_false hdigit)).trans (if_neg hstar))
    refine (h.precision c ⟨c.chars ++ rest, spec, args⟩ hfixed hlen hsep hpeek hn
      hlength.le).trans ?_
    simp only [FieldWidth.value, Exec.ok_bind, Conversion.spec, hzero]
  | given width pos =>
    rw [hw] at hdecode
    obtain ⟨hisdigit, hnone⟩ := @peek_numeral (c.fromPrecision rest) width
    have hcut : (BitVec.ofNat 32 width).setWidth 24 = BitVec.ofNat 24 width :=
      BitVec.setWidth_ofNat_of_le (by decide) width
    have hgiven := (hdecode (hnone pos)).trans (if_pos hisdigit)
    dsimp only [FieldWidth.chars] at hgiven
    rw [skipAtoi_numeral width hdigit, hcut] at hgiven
    refine (h.precision c ⟨c.chars ++ rest, spec, args⟩ hgiven hlen hsep hpeek hn
      hlength.le).trans ?_
    simp only [FieldWidth.value, Exec.ok_bind, Conversion.spec, hzero]
  | arg =>
    rw [hw] at hdecode
    have hnone : flagOf (peek (FieldWidth.arg.chars ++ c.fromPrecision rest)) = none :=
      (by decide : flagOf (ch '*') = none)
    have hnot : isdigit (peek (FieldWidth.arg.chars ++ c.fromPrecision rest)) = false :=
      (by decide : isdigit (ch '*') = false)
    have harg := (hdecode hnone).trans ((if_neg (ne_true_of_eq_false hnot)).trans (if_pos rfl))
    -- the next round goes on behind it
    refine (vsnprintfLoop_next hpeek hn (vsnprintfBody_width harg hlen rfl)
      fun r m (hm : (c.chars ++ rest).length ≤ m + 1) =>
        h.width c (by omega) hsep (by omega) rfl rfl).trans ?_
    rcases args with _ | ⟨arg, args⟩
    · rfl
    · rfl

theorem Prints.nil : Prints mem stop [] fun _ o => .ok ((), o) := by
  rintro (_ | n) spec args o - - -
  · rfl
  · rfl

theorem afterLiteral_append {t : List (BitVec 8)} (ht : PlainText t)
    (hrest : rest = [] ∨ peek rest = ch '%') : afterLiteral (t ++ rest) = rest := by
  have hplain : ∀ c ∈ t, decide (c ≠ 0 ∧ c ≠ ch '%') = true := fun c hc => decide_eq_true (ht c hc)
  rw [afterLiteral, List.dropWhile_append_of_pos hplain]
  rcases rest with _ | ⟨c, rest⟩
  · rfl
  · obtain rfl : c = ch '%' := hrest.resolve_left (List.cons_ne_nil _ _)
    rfl

/-- **The round of a text**: it is copied to the output up to the next percent sign or the end. -/
theorem Prints.text (h : Prints mem stop rest f) {t : List (BitVec 8)} (ht : PlainText t)
    (hrest : rest = [] ∨ peek rest = ch '%') (hlen : (t ++ rest).length ≤ intMax) :
    Prints mem stop (t ++ rest) fun args o => f args (o.puts stop t) := by
  rcases t with _ | ⟨c, t⟩
  · exact h
  intro n spec args o hn hwidth hprecision
  have hpeek : peek (c :: t ++ rest) ≠ 0 := (ht c List.mem_cons_self).1
  have hlength : rest.length < (c :: t ++ rest).length := by
    simp only [List.length_append, List.length_cons]
    omega
  have hliteral : afterLiteral (c :: t ++ rest) = rest := afterLiteral_append ht hrest
  have hdecode : formatDecode (c :: t ++ rest) spec = (rest, { spec with type := .none }) := by
    rw [formatDecode_start hwidth hprecision, hliteral]
    exact if_pos (.inl hlength.ne)
  have hread : (c :: t ++ rest).length - rest.length = (c :: t).length := by
    rw [List.length_append, Nat.add_sub_cancel]
  have hbody : vsnprintfBody mem ⟨c :: t ++ rest, spec, args⟩ stop o = (.ok () : Exec Unit) >>=
      fun _ => .ok (some ⟨rest, { spec with type := .none }, args⟩, o.puts stop (c :: t)) := by
    rw [vsnprintfBody, hdecode]
    refine (if_neg (by dsimp only; omega)).trans ?_
    dsimp only
    rw [hread, List.take_left, Output.copy_eq]
    rfl
  exact vsnprintfLoop_next hpeek hn hbody fun _ m (hm : (c :: t ++ rest).length ≤ m + 1) =>
    h m _ args _ (by omega) FormatType.noConfusion FormatType.noConfusion

/-- What is behind a pointer begins with the text behind it, or with the next conversion. -/
theorem separated_chars {k : ConversionKind} {next : Format} (h : Separated k next.first) :
    Separated k next.chars := by
  cases k with
  | ptr ext alnum =>
    cases next with
    | text t => exact h
    | conversion t c rest =>
      rcases t with _ | ⟨x, t⟩
      · exact (by decide : isalnum (ch '%') = false)
      · exact h
  | _ => trivial

/-- **A format** prints what it means, by induction on its parts: a text and a conversion are
some rounds of the loop, and the rest of the format is the rest of the run. -/
theorem prints_format (mem : Memory) (stop : Option ℕ) (fmt : Format) (h : fmt.WellFormed)
    (hlen : fmt.chars.length ≤ intMax) :
    Prints mem stop fmt.chars fun args o =>
      fmt.out mem args >>= fun l => .ok ((), o.puts stop l) := by
  induction fmt with
  | text t =>
    have htext : Prints mem stop (t ++ []) fun _ o => .ok ((), o.puts stop t) :=
      Prints.nil.text h (.inl rfl) ((List.append_nil t).symm ▸ hlen)
    rw [List.append_nil] at htext
    exact htext
  | conversion t c next ih =>
    obtain ⟨ht, hsep, hnext⟩ := h
    have hle : next.chars.length ≤ intMax ∧ (c.chars ++ next.chars).length ≤ intMax := by
      simp only [Format.chars, List.length_append] at hlen ⊢
      omega
    have hconversion := (ih hnext hle.1).conversion c hle.2 (separated_chars hsep)
    have htext := hconversion.text ht (.inr rfl) hlen
    intro n spec args o hn hwidth hprecision
    refine (htext n spec args o hn hwidth hprecision).trans ?_
    simp only [Format.out, bind_assoc, Exec.ok_bind, Output.puts_append]

end Run

/-- **The language of formats**: `vsnprintf` prints what a format means. With an unlimited buffer
it produces the texts of the format and, for each conversion, what it makes of the arguments that
it takes; with a buffer it stores what fits of this, and returns how long it is. -/
theorem vsnprintf_format (mem : Memory) (fmt : Format) (h : fmt.WellFormed)
    (hlen : fmt.chars.length ≤ intMax) (args : List (BitVec 64)) :
    unlimitedOutput mem fmt.chars args = fmt.out mem args ∧
      ∀ out, fmt.out mem args = .ok out → ∀ (size : BitVec 64) (buf : ℕ → BitVec 8),
        size.toNat ≤ intMax → vsnprintf mem buf size fmt.chars args =
          .ok (truncated buf size.toNat out, BitVec.ofNat 32 out.length) := by
  have hunlimited : unlimitedOutput mem fmt.chars args = fmt.out mem args := by
    rw [unlimitedOutput, vsnprintfRun, prints_format mem none fmt h hlen _ _ _ _ (Nat.le_refl _)
      FormatType.noConfusion FormatType.noConfusion]
    dsimp only
    rcases fmt.out mem args with e | out
    · rfl
    · simp only [Exec.ok_bind, Output.puts_eq, cut, Nat.zero_add]
      rw [block_overlay (Nat.le_refl _), List.take_length]
  refine ⟨hunlimited, fun out hout size buf hsize => ?_⟩
  exact vsnprintf_of_unlimited (hunlimited.trans hout) hsize buf

/-- `"eth%d: %-*.*s|%#06x %pMF\n"`, with a conversion of three rounds in it. -/
def linkFormat : Format :=
  .conversion (['e', 't', 'h'].map ch) ⟨[], .default, .default, .none, .integer .d⟩
    (.conversion ([':', ' '].map ch) ⟨[.left], .arg, .arg, .none, .str⟩
      (.conversion [ch '|']
        ⟨[.special, .zeropad], .given 6 (by decide), .default, .none, .integer .x⟩
        (.conversion [ch ' ']
          ⟨[], .default, .default, .none, .ptr [ch 'M', ch 'F'] (by decide)⟩ (.text [10]))))

/-- A string at 0, and an address behind it. -/
def linkMemory : Memory := fun a =>
  (['u', 'p', 'p', 'e', 'r', '-'].map ch ++ [0, 0x16, 0x3e, 0x0a, 0x0b, 0x0c]).getD
    (a - 0x100).toNat 0

theorem vsnprintf_format_link :
    vsnprintf linkMemory (fun _ => 0) 64 linkFormat.chars [1, 5, 2, 0x100, 0x2a, 0x106] =
      .ok (truncated (fun _ => 0) 64
        ("eth1: up   |0x002a 00-16-3e-0a-0b-0c\n".toList.map ch), 37) := by
  have hwell : linkFormat.WellFormed := by
    refine ⟨by decide, trivial, by decide, trivial, by decide, trivial, by decide, ?_, ?_⟩
    · exact (by decide : isalnum 10 = false)
    · exact (by decide : PlainText [10])
  have hout : linkFormat.out linkMemory [1, 5, 2, 0x100, 0x2a, 0x106] =
      .ok ("eth1: up   |0x002a 00-16-3e-0a-0b-0c\n".toList.map ch) := by rfl
  exact (vsnprintf_format linkMemory linkFormat hwell (by decide) _).2 _ hout 64 _ (by decide)

end Lvisor
