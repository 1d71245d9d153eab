import Mathlib.Data.Int.Order.Basic
import Lvisor.Lib.Output
import Lvisor.Machine

/-!
# Formatted output

`lib/vsprintf.c`, function by function. A pointer into the output is an offset from `buf`: all
memory that is mapped is further from the end of the address space than any output is long, so
that `end < buf` never holds and no pointer wraps. The end of the buffer may be missing, for
output without a limit.

A pointer into the format is what is left of the format; its end, or a zero byte, ends the
string. An argument takes 64 bits, of which an `int` uses the lower half. The bit fields of
`struct printf_spec` have their width, and wrap.
-/

namespace Lvisor

/-- A character as the byte that the source has for it; all of those that are used here are
ASCII. -/
abbrev ch (c : Char) : BitVec 8 := BitVec.ofNat 8 c.toNat

/-- `INT_MAX`, the bound on sizes and positions beyond which the source converts to a negative
`int`. -/
abbrev intMax : ℕ := 2 ^ 31 - 1

/-- Characters in memory from a pointer on, by their distance from it. Where the text ends is not
a part of this. -/
abbrev CStr : Type := ℕ → BitVec 8

/-- A local buffer or a literal as characters from a pointer on: the characters of the list, and
zeros behind them. -/
def cstr (l : List (BitVec 8)) : CStr := fun i => l.getD i 0

/-- What a pointer points to. Addresses wrap around at 2^64, as pointers do. -/
def charsAt (mem : Memory) (p : BitVec 64) : CStr := fun i => mem (p + BitVec.ofNat 64 i)

/-- `hex_asc`: the sixteen digits with small letters, as `hex_byte_pack` uses them. -/
def hexAsc : List (BitVec 8) :=
  ['0', '1', '2', '3', '4', '5', '6', '7', '8', '9', 'a', 'b', 'c', 'd', 'e', 'f'].map ch

/-- `hex_asc_upper`: the digits with capital letters. `number` makes small letters of them by a
bit. -/
def hexAscUpper : List (BitVec 8) :=
  ['0', '1', '2', '3', '4', '5', '6', '7', '8', '9', 'A', 'B', 'C', 'D', 'E', 'F'].map ch

/-- `hex_asc_hi`: the digit for the upper four bits of a byte. -/
def hexAscHi (x : BitVec 8) : BitVec 8 := hexAsc.getD ((x &&& 0xf0) >>> 4).toNat 0

/-- `hex_asc_lo`: the digit for the lower four bits of a byte. -/
def hexAscLo (x : BitVec 8) : BitVec 8 := hexAsc.getD (x &&& 0x0f).toNat 0

/-- `hex_byte_pack`: the two characters that it stores for a byte, upper digit first. -/
def hexBytePack (x : BitVec 8) : List (BitVec 8) := [hexAscHi x, hexAscLo x]

/-- `isdigit`: the ASCII digits only, by the table `_ctype`. -/
def isdigit (c : BitVec 8) : Bool := ch '0' ≤ c ∧ c ≤ ch '9'

/-- `isalnum`: `_ctype` has the letters of Latin-1, too. -/
def isalnum (c : BitVec 8) : Bool :=
  isdigit c ∨ ch 'A' ≤ c ∧ c ≤ ch 'Z' ∨ ch 'a' ≤ c ∧ c ≤ ch 'z' ∨
    0xc0 ≤ c ∧ c ≠ 0xd7 ∧ c ≠ 0xf7

/-! ## Decimal digits -/

/-- An entry of `decpair`: the two digits of a number below 100 as a word, the lower digit in its
low byte. -/
def decpair (x : BitVec 32) : BitVec 16 := ((x % 10) ||| ((x / 10) <<< 8)).setWidth 16 + 0x3030

/-- A store of an entry of `decpair`, low byte first. -/
def putDecpair (x : BitVec 32) : List (BitVec 8) :=
  [(decpair x).setWidth 8, (decpair x >>> 8).setWidth 8]

/-- `out_r` of `put_dec_trunc8`: one of two bytes counts if there is one digit only. -/
def putDecLast (r : BitVec 32) : List (BitVec 8) :=
  (putDecpair r).take (if r < 10 then 1 else 2)

/-- `put_dec_trunc8`, the characters up to the pointer that it returns. -/
def putDecTrunc8 (r : BitVec 32) : List (BitVec 8) :=
  if r < 100 then putDecLast r
  else
    let q := ((r.setWidth 64 * 0x28f5c29) >>> 32).setWidth 32
    putDecpair (r - 100 * q) ++
    if q < 100 then putDecLast q
    else
      let r := ((q.setWidth 64 * 0x28f5c29) >>> 32).setWidth 32
      putDecpair (q - 100 * r) ++
      if r < 100 then putDecLast r
      else
        let q := (r * 0x147b) >>> 19
        putDecpair (r - 100 * q) ++ putDecLast q

/-- `put_dec_full8`: all eight digits of a number below 10^8, leading zeros included, lowest
digit first. -/
def putDecFull8 (r : BitVec 32) : List (BitVec 8) :=
  let q := ((r.setWidth 64 * 0x28f5c29) >>> 32).setWidth 32
  let r' := ((q.setWidth 64 * 0x28f5c29) >>> 32).setWidth 32
  let q' := (r' * 0x147b) >>> 19
  putDecpair (r - 100 * q) ++ putDecpair (q - 100 * r') ++ putDecpair (r' - 100 * q') ++
    putDecpair q'

/-- `put_dec`: the digits of a number, lowest first. It takes eight at a time from the low end,
and the rest of the number without leading zeros. -/
def putDec (n : BitVec 64) : List (BitVec 8) :=
  if n ≥ 100000000 then
    let n' := n / 100000000
    putDecFull8 ((n % 100000000).setWidth 32) ++
    if n' ≥ 100000000 then
      putDecFull8 ((n' % 100000000).setWidth 32) ++ putDecTrunc8 ((n' / 100000000).setWidth 32)
    else putDecTrunc8 (n'.setWidth 32)
  else putDecTrunc8 (n.setWidth 32)

/-! ## `struct printf_spec` -/

/-- `enum format_type`, without the prefix `FORMAT_TYPE_` of the members. -/
inductive FormatType where
  | none | width | precision | char | str | ptr | percentChar | invalid | longLong | ulong | long
  | ubyte | byte | ushort | short | uint | int | sizeT | ptrdiff
  deriving DecidableEq, Repr

/-- `struct printf_spec`. The members are bit fields of eight bytes together, and an assignment
cuts a value down to the width of its member. -/
structure PrintfSpec where
  type : FormatType
  fieldWidth : BitVec 24
  flags : BitVec 8
  base : BitVec 8
  precision : BitVec 16
  deriving DecidableEq, Repr

namespace Flag

/-- `SIGN`: the argument is a signed number. -/
abbrev sign : BitVec 8 := 1

/-- `LEFT`, the flag `-`: the output is left-justified in its field. -/
abbrev left : BitVec 8 := 2

/-- `PLUS`, the flag `+`: a signed number that is not negative has a plus sign. -/
abbrev plus : BitVec 8 := 4

/-- `SPACE`, the flag for a blank in place of that sign. -/
abbrev space : BitVec 8 := 8

/-- `ZEROPAD`, the flag `0`. As a number it is the difference between a blank and the digit zero. -/
abbrev zeropad : BitVec 8 := 16

/-- `SMALL`: small letters for the digits. As a number it is the difference between the cases. -/
abbrev small : BitVec 8 := 32

/-- `SPECIAL`, the flag `#`: a hexadecimal number has the prefix `0x`, and an octal one a zero. -/
abbrev special : BitVec 8 := 64

end Flag

/-- `flags & mask` as a condition: at least one flag of the mask is set. -/
def hasFlag (flags mask : BitVec 8) : Bool := flags &&& mask ≠ 0

/-! ## Numbers -/

/-- The sign of a number, the number without it, and the width that is left. -/
def numberSign (flags : BitVec 8) (num : BitVec 64) (fieldWidth : ℤ) :
    BitVec 8 × BitVec 64 × ℤ :=
  if hasFlag flags Flag.sign then
    if num.toInt < 0 then (ch '-', -num, fieldWidth - 1)
    else if hasFlag flags Flag.plus then (ch '+', num, fieldWidth - 1)
    else if hasFlag flags Flag.space then (ch ' ', num, fieldWidth - 1)
    else (0, num, fieldWidth)
  else (0, num, fieldWidth)

/-- The loop over the digits of a number in base 8 or 16, as long as the number has bits. -/
def shiftDigits (mask : BitVec 8) (shift : ℕ) (locase : BitVec 8) :
    ℕ → BitVec 64 → List (BitVec 8)
  | 0, _ => []
  | n + 1, num =>
    (hexAscUpper.getD (num.setWidth 8 &&& mask).toNat 0 ||| locase) ::
      if num >>> shift = 0 then [] else shiftDigits mask shift locase n (num >>> shift)

/-- `tmp` behind the conversion: the digits of a number that has no sign any more, lowest digit
first. -/
def numberDigits (num : BitVec 64) (base locase : BitVec 8) : List (BitVec 8) :=
  if num < base.setWidth 64 then
    [hexAscUpper.getD num.toNat 0 ||| locase]
  else if base ≠ 10 then
    shiftDigits (base - 1) (if base = 16 then 4 else 3) locase 64 num
  else
    putDec num

/-- A counter after `while (--n >= 0)`, which runs `n` times. -/
def afterLoop (n : ℤ) : ℤ := if 0 ≤ n then -1 else n - 1

/-- `number`: all it emits for one number, in the order in which it emits it. `stop` is where the
buffer ends. -/
def number (num : BitVec 64) (spec : PrintfSpec) (stop : Option ℕ) (o : Output (BitVec 8)) :
    Output (BitVec 8) :=
  let needPfx := hasFlag spec.flags Flag.special && spec.base != 10
  let isZero := num == 0
  let locase := spec.flags &&& Flag.small
  let flags := if hasFlag spec.flags Flag.left then spec.flags &&& ~~~Flag.zeropad else spec.flags
  let signed := numberSign flags num spec.fieldWidth.toInt
  let sign := signed.1
  let pfxWidth : ℤ :=
    if needPfx then (if spec.base = 16 then 2 else if !isZero then 1 else 0) else 0
  let tmp := numberDigits signed.2.1 spec.base locase
  let precision := max (tmp.length : ℤ) spec.precision.toInt
  let fieldWidth := signed.2.2 - pfxWidth - precision
  -- leading space padding
  let leading := !hasFlag flags (Flag.zeropad ||| Flag.left)
  let o := if leading then o.fill stop (ch ' ') fieldWidth.toNat else o
  let fieldWidth := if leading then afterLoop fieldWidth else fieldWidth
  -- sign
  let o := if sign ≠ 0 then o.put stop sign else o
  -- "0x" / "0" prefix
  let o := if needPfx && (spec.base == 16 || !isZero) then o.put stop (ch '0') else o
  let o := if needPfx && spec.base == 16 then o.put stop (ch 'X' ||| locase) else o
  -- zero or space padding
  let padding := !hasFlag flags Flag.left
  let o := if padding then
    o.fill stop (ch ' ' + (flags &&& Flag.zeropad)) fieldWidth.toNat else o
  let fieldWidth := if padding then afterLoop fieldWidth else fieldWidth
  -- even more zero padding
  let o := o.fill stop (ch '0') (precision - tmp.length).toNat
  -- actual digits of result
  let o := o.puts stop tmp.reverse
  -- trailing space padding
  o.fill stop (ch ' ') fieldWidth.toNat

/-- `special_hex_number`: an address of `size` bytes with its prefix and all its zeros. -/
def specialHexNumber (num : BitVec 64) (size : ℕ) (stop : Option ℕ) (o : Output (BitVec 8)) :
    Output (BitVec 8) :=
  number num
    { type := .ptr
      fieldWidth := BitVec.ofNat 24 (2 + 2 * size)
      flags := Flag.special ||| Flag.small ||| Flag.zeropad
      base := 16
      precision := -1 }
    stop o

/-! ## Strings

A string that is to be right-justified is emitted first and moved to its place then, by what its
length leaves of the width. -/

/-- `move_right`: the `len` characters from `p` on are moved by `spaces` places, and blanks are
stored where they have been. What would be behind the end is cut off. -/
def moveRight (stop : Option ℕ) (p len spaces : ℕ) (buf : ℕ → BitVec 8) : ℕ → BitVec 8 :=
  if !fits stop p then buf
  else
    match stop with
    | some n =>
      let size := n - p
      if size ≤ spaces then overlay buf p (List.replicate size (ch ' '))
      else
        let buf := if len ≠ 0 then
          let len := if len > size - spaces then size - spaces else len
          overlay buf (p + spaces) (block buf p len) else buf
        overlay buf p (List.replicate spaces (ch ' '))
    | none =>
      let buf := if len ≠ 0 then overlay buf (p + spaces) (block buf p len) else buf
      overlay buf p (List.replicate spaces (ch ' '))

/-- `widen_string`: the `n` characters that end at the position are padded to the width of the
field, at the side that the flag LEFT says. -/
def widenString (n : ℕ) (spec : PrintfSpec) (stop : Option ℕ) (o : Output (BitVec 8)) :
    Output (BitVec 8) :=
  if (n : ℤ) ≥ spec.fieldWidth.toInt then o
  else
    let spaces := (spec.fieldWidth.toInt - n).toNat
    if !hasFlag spec.flags Flag.left then
      ⟨moveRight stop (o.pos - n) n spaces o.buf, o.pos + spaces⟩
    else o.fill stop (ch ' ') spaces

/-- The loop of `string` over at most `lim` characters, up to the NUL: how many there have been,
and the output. -/
def stringLoop (s : CStr) (stop : Option ℕ) : ℕ → ℕ → Output (BitVec 8) → ℕ × Output (BitVec 8)
  | 0, len, o => (len, o)
  | lim + 1, len, o =>
    if s len = 0 then (len, o) else stringLoop s stop lim (len + 1) (o.put stop (s len))

/-- The text `"(null)"`, which stands for a null pointer in `%s` and in `%p`. -/
def nullText : CStr := cstr (['(', 'n', 'u', 'l', 'l', ')'].map ch)

/-- `string`, where `none` is a null pointer. A precision of -1 is a limit of 2^64 - 1
characters. -/
def string (s : Option CStr) (spec : PrintfSpec) (stop : Option ℕ) (o : Output (BitVec 8)) :
    Output (BitVec 8) :=
  let lim := (spec.precision.signExtend 64).toNat
  let (len, o) := stringLoop (s.getD nullText) stop lim 0 o
  widenString len spec stop o

/-! ## Pointers -/

/-- `*fmt`: the character that is next, and the NUL at the end of the format. -/
def peek (fmt : List (BitVec 8)) : BitVec 8 := fmt.headD 0

/-- `symbol_string`: the address that `__builtin_extract_return_addr` returns is its argument. -/
def symbolString (ptr : BitVec 64) (stop : Option ℕ) (o : Output (BitVec 8)) : Output (BitVec 8) :=
  specialHexNumber ptr 8 stop o

/-- The loop of `hex_string`, over the number of bytes left. -/
def hexLoop (addr : CStr) (separator : BitVec 8) (len : ℕ) (stop : Option ℕ) :
    ℕ → ℕ → Output (BitVec 8) → Output (BitVec 8)
  | 0, _, o => o
  | n + 1, i, o =>
    let o := (o.put stop (hexAscHi (addr i))).put stop (hexAscLo (addr i))
    let o := if separator ≠ 0 ∧ i ≠ len - 1 then o.put stop separator else o
    hexLoop addr separator len stop n (i + 1) o

/-- `hex_string` of a pointer that is not null: the bytes at the pointer, as many as the field is
wide and at most 64, with a separator that the character behind the `h` says. -/
def hexString (addr : CStr) (spec : PrintfSpec) (fmt : List (BitVec 8)) (stop : Option ℕ)
    (o : Output (BitVec 8)) : Output (BitVec 8) :=
  if spec.fieldWidth = 0 then o
  else
    let c := peek fmt.tail
    let separator :=
      if c = ch 'C' then ch ':' else if c = ch 'D' then ch '-' else if c = ch 'N' then 0 else ch ' '
    let len := if spec.fieldWidth.toInt > 0 then (min spec.fieldWidth.toInt 64).toNat else 1
    hexLoop addr separator len stop len 0 o

/-- The local buffer `mac_addr` of `mac_address_string`: six bytes in hexadecimal, in either
order, with separators for `%pM` and without for `%pm`. -/
def macAddr (addr : CStr) (fmt : List (BitVec 8)) : List (BitVec 8) :=
  let reversed := peek fmt.tail == ch 'R'
  let separator := if peek fmt.tail = ch 'F' then ch '-' else ch ':'
  (List.range 6).flatMap fun i =>
    hexBytePack (addr (if reversed then 5 - i else i)) ++
      if peek fmt = ch 'M' ∧ i ≠ 5 then [separator] else []

/-- `mac_address_string`: the text of the address goes through `string`, and has its width and
precision. -/
def macAddressString (addr : CStr) (spec : PrintfSpec) (fmt : List (BitVec 8)) (stop : Option ℕ)
    (o : Output (BitVec 8)) : Output (BitVec 8) :=
  string (some (cstr (macAddr addr fmt))) spec stop o

/-- `pointer_string`: a plain pointer is a hexadecimal number, of sixteen digits with zeros when
no width is given. -/
def pointerString (ptr : BitVec 64) (spec : PrintfSpec) (stop : Option ℕ)
    (o : Output (BitVec 8)) : Output (BitVec 8) :=
  let spec := { spec with base := 16, flags := spec.flags ||| Flag.small }
  let spec := if spec.fieldWidth = -1 then
    { spec with fieldWidth := 16, flags := spec.flags ||| Flag.zeropad } else spec
  number ptr spec stop o

/-- `pointer`: the characters behind `%p` say what the pointer points to. A null pointer is
printed as a text whatever they say. -/
def pointer (mem : Memory) (fmt : List (BitVec 8)) (ptr : BitVec 64) (spec : PrintfSpec)
    (stop : Option ℕ) (o : Output (BitVec 8)) : Output (BitVec 8) :=
  if ptr = 0 then
    let spec := if spec.fieldWidth = -1 then { spec with fieldWidth := 16 } else spec
    string (some nullText) spec stop o
  else if peek fmt ∈ [ch 'F', ch 'f', ch 'S', ch 's', ch 'B'] then symbolString ptr stop o
  else if peek fmt = ch 'h' then hexString (charsAt mem ptr) spec fmt stop o
  else if peek fmt ∈ [ch 'M', ch 'm'] then macAddressString (charsAt mem ptr) spec fmt stop o
  else pointerString ptr spec stop o

/-! ## Decoding of a format

One function for each stretch of `format_decode` between two of its labels. Each takes the format
from where the last one has stopped. -/

/-- `skip_atoi`, started at a digit: the number that the digits are, and the format behind them.
The sum is an `int` and wraps around. -/
def skipAtoi : List (BitVec 8) → BitVec 32 → BitVec 32 × List (BitVec 8)
  | [], i => (i, [])
  | c :: cs, i =>
    if isdigit c then skipAtoi cs (i * 10 + c.setWidth 32 - (ch '0').setWidth 32) else (i, c :: cs)

/-- The flag that a character stands for, if it stands for one: the cases of the `switch` in the
loop over flags. -/
def flagOf (c : BitVec 8) : Option (BitVec 8) :=
  if c = ch '-' then some Flag.left
  else if c = ch '+' then some Flag.plus
  else if c = ch ' ' then some Flag.space
  else if c = ch '#' then some Flag.special
  else if c = ch '0' then some Flag.zeropad
  else none

/-- The loop over the flags: all flags up to the first character that is none, and the format
from there on. -/
def flagsLoop : List (BitVec 8) → BitVec 8 → BitVec 8 × List (BitVec 8)
  | [], flags => (flags, [])
  | c :: cs, flags =>
    match flagOf c with
    | some flag => flagsLoop cs (flags ||| flag)
    | none => (flags, c :: cs)

/-- The type of an integer argument: its size by the qualifier, and its signedness by the flag
SIGN where there are two types. -/
def integerType (qualifier flags : BitVec 8) : FormatType :=
  let signed := hasFlag flags Flag.sign
  if qualifier = ch 'L' then .longLong
  else if qualifier = ch 'l' then if signed then .long else .ulong
  else if qualifier = ch 'z' then .sizeT
  else if qualifier = ch 't' then .ptrdiff
  else if qualifier = ch 'H' then if signed then .byte else .ubyte
  else if qualifier = ch 'h' then if signed then .short else .ushort
  else if signed then .int else .uint

/-- The conversion character, from the `switch` of `format_decode` on. A character that is no
conversion stays unread. -/
def decodeConversion (qualifier : BitVec 8) (fmt : List (BitVec 8)) (spec : PrintfSpec) :
    List (BitVec 8) × PrintfSpec :=
  let spec := { spec with base := 10 }
  let integer (spec : PrintfSpec) :=
    (fmt.tail, { spec with type := integerType qualifier spec.flags })
  if peek fmt = ch 'c' then (fmt.tail, { spec with type := .char })
  else if peek fmt = ch 's' then (fmt.tail, { spec with type := .str })
  else if peek fmt = ch 'p' then (fmt.tail, { spec with type := .ptr })
  else if peek fmt = ch '%' then (fmt.tail, { spec with type := .percentChar })
  else if peek fmt = ch 'o' then integer { spec with base := 8 }
  else if peek fmt = ch 'x' then
    integer { spec with flags := spec.flags ||| Flag.small, base := 16 }
  else if peek fmt = ch 'X' then integer { spec with base := 16 }
  else if peek fmt = ch 'd' ∨ peek fmt = ch 'i' then
    integer { spec with flags := spec.flags ||| Flag.sign }
  else if peek fmt = ch 'u' then integer spec
  else (fmt, { spec with type := .invalid })

/-- From the label `qualifier` on: a length modifier, which may be doubled to `ll` or `hh`. -/
def decodeQualifier (fmt : List (BitVec 8)) (spec : PrintfSpec) : List (BitVec 8) × PrintfSpec :=
  let c := peek fmt
  if c = ch 'h' ∨ c ||| 0x20 = ch 'l' ∨ c = ch 'z' ∨ c = ch 't' then
    if c = peek fmt.tail ∧ c = ch 'l' then decodeConversion (ch 'L') fmt.tail.tail spec
    else if c = peek fmt.tail ∧ c = ch 'h' then decodeConversion (ch 'H') fmt.tail.tail spec
    else decodeConversion c fmt.tail spec
  else decodeConversion 0 fmt spec

/-- From the label `precision` on: a dot with digits, with an asterisk, or with nothing, which is
no precision. -/
def decodePrecision (fmt : List (BitVec 8)) (spec : PrintfSpec) : List (BitVec 8) × PrintfSpec :=
  let spec := { spec with precision := -1 }
  if peek fmt = ch '.' then
    let fmt := fmt.tail
    if isdigit (peek fmt) then
      let (i, fmt) := skipAtoi fmt 0
      let precision : BitVec 16 := i.setWidth 16
      decodeQualifier fmt { spec with precision := if precision.toInt < 0 then 0 else precision }
    else if peek fmt = ch '*' then (fmt.tail, { spec with type := .precision })
    else decodeQualifier fmt spec
  else decodeQualifier fmt spec

/-- The format behind its literal text: from the first `%` on, or at its end. -/
def afterLiteral (fmt : List (BitVec 8)) : List (BitVec 8) :=
  fmt.dropWhile fun c => c ≠ 0 ∧ c ≠ ch '%'

/-- `format_decode`: what is left of the format, and the specification. -/
def formatDecode (fmt : List (BitVec 8)) (spec : PrintfSpec) : List (BitVec 8) × PrintfSpec :=
  match spec.type with
  | .width =>
    let spec := if spec.fieldWidth.toInt < 0 then
      { spec with fieldWidth := -spec.fieldWidth, flags := spec.flags ||| Flag.left } else spec
    decodePrecision fmt { spec with type := .none }
  | .precision =>
    let spec := if spec.precision.toInt < 0 then { spec with precision := 0 } else spec
    decodeQualifier fmt { spec with type := .none }
  | _ =>
    let spec := { spec with type := .none }
    if (afterLiteral fmt).length ≠ fmt.length ∨ peek fmt = 0 then (afterLiteral fmt, spec)
    else
      let (flags, fmt) := flagsLoop fmt.tail 0
      let spec := { spec with flags, fieldWidth := -1 }
      if isdigit (peek fmt) then
        let (i, fmt) := skipAtoi fmt 0
        decodePrecision fmt { spec with fieldWidth := i.setWidth 24 }
      else if peek fmt = ch '*' then (fmt.tail, { spec with type := .width })
      else decodePrecision fmt spec

/-! ## `vsnprintf` -/

/-- `va_arg`: the next argument. Taking one that is not there is undefined in C. -/
def vaArg : List (BitVec 64) → Exec (BitVec 64 × List (BitVec 64))
  | [] => .error .undefined
  | arg :: args => .ok (arg, args)

/-- An integer argument, as the `long long` that `number` gets. -/
def integerArg (type : FormatType) (arg : BitVec 64) : BitVec 64 :=
  match type with
  | .longLong | .ulong | .long | .sizeT | .ptrdiff => arg
  | .ubyte => (arg.setWidth 8).setWidth 64
  | .byte => (arg.setWidth 8).signExtend 64
  | .ushort => (arg.setWidth 16).setWidth 64
  | .short => (arg.setWidth 16).signExtend 64
  | .int => (arg.setWidth 32).signExtend 64
  | _ => (arg.setWidth 32).setWidth 64

/-- `spec.field_width` behind `while (--spec.field_width > 0)`, in the width of the member. -/
def afterCharLoop (fieldWidth : BitVec 24) : BitVec 24 :=
  if (fieldWidth - 1).toInt > 0 then 0 else fieldWidth - 1

/-- `FORMAT_TYPE_CHAR`; a loop that starts with `w` runs `w - 1` times. -/
def putChar (c : BitVec 8) (spec : PrintfSpec) (stop : Option ℕ) (o : Output (BitVec 8)) :
    Output (BitVec 8) :=
  let right := !hasFlag spec.flags Flag.left
  let o := if right then o.fill stop (ch ' ') (spec.fieldWidth - 1).toInt.toNat else o
  let fieldWidth := if right then afterCharLoop spec.fieldWidth else spec.fieldWidth
  let o := o.put stop c
  o.fill stop (ch ' ') (fieldWidth - 1).toInt.toNat

/-- `spec.field_width` behind the whole case of `FORMAT_TYPE_CHAR`. The next call of
`format_decode` may see it. -/
def charFieldWidth (spec : PrintfSpec) : BitVec 24 :=
  afterCharLoop (if !hasFlag spec.flags Flag.left then afterCharLoop spec.fieldWidth
    else spec.fieldWidth)

/-- What the loop of `vsnprintf` goes on with, but for the output. -/
structure PrintfState where
  fmt : List (BitVec 8)
  spec : PrintfSpec
  args : List (BitVec 64)

/-- The body of the loop of `vsnprintf`. There is no next state after `goto out`. -/
def vsnprintfBody (mem : Memory) (st : PrintfState) (stop : Option ℕ) (o : Output (BitVec 8)) :
    Exec (Option PrintfState × Output (BitVec 8)) :=
  let (fmt, spec) := formatDecode st.fmt st.spec
  let read := st.fmt.length - fmt.length
  if read > intMax then .error .undefined
  else
    match spec.type with
    | .none => .ok (some ⟨fmt, spec, st.args⟩, o.copy stop (st.fmt.take read))
    | .width => vaArg st.args >>= fun (arg, args) =>
      .ok (some ⟨fmt, { spec with fieldWidth := arg.setWidth 24 }, args⟩, o)
    | .precision => vaArg st.args >>= fun (arg, args) =>
      .ok (some ⟨fmt, { spec with precision := arg.setWidth 16 }, args⟩, o)
    | .char => vaArg st.args >>= fun (arg, args) =>
      .ok (some ⟨fmt, { spec with fieldWidth := charFieldWidth spec }, args⟩,
        putChar (arg.setWidth 8) spec stop o)
    | .str => vaArg st.args >>= fun (arg, args) =>
      .ok (some ⟨fmt, spec, args⟩,
        string (if arg = 0 then none else some (charsAt mem arg)) spec stop o)
    | .ptr => vaArg st.args >>= fun (arg, args) =>
      .ok (some ⟨fmt.dropWhile isalnum, spec, args⟩, pointer mem fmt arg spec stop o)
    | .percentChar => .ok (some ⟨fmt, spec, st.args⟩, o.put stop (ch '%'))
    | .invalid => .ok (none, o)
    | type => vaArg st.args >>= fun (arg, args) =>
      .ok (some ⟨fmt, spec, args⟩, number (integerArg type arg) spec stop o)

/-- The loop of `vsnprintf` over the format. The fuel is a bound on its turns, and `vsnprintfRun`
starts it with the length of the format. -/
def vsnprintfLoop (mem : Memory) :
    ℕ → PrintfState → Option ℕ → Output (BitVec 8) → Exec (Unit × Output (BitVec 8))
  | 0, st, _, o => if peek st.fmt = 0 then .ok ((), o) else .error .outOfFuel
  | n + 1, st, stop, o =>
    if peek st.fmt = 0 then .ok ((), o)
    else
      vsnprintfBody mem st stop o >>= fun (next, o) =>
        match next with
        | none => .ok ((), o)
        | some st => vsnprintfLoop mem n st stop o

/-- The loop from the beginning, with `struct printf_spec spec = {0}`. -/
def vsnprintfRun (mem : Memory) (fmt : List (BitVec 8)) (args : List (BitVec 64))
    (stop : Option ℕ) (o : Output (BitVec 8)) : Exec (Unit × Output (BitVec 8)) :=
  vsnprintfLoop mem fmt.length ⟨fmt, ⟨.none, 0, 0, 0, 0⟩, args⟩ stop o

/-- `vsnprintf`: the buffer that it leaves, and what it returns. -/
def vsnprintf (mem : Memory) (buf : ℕ → BitVec 8) (size : BitVec 64) (fmt : List (BitVec 8))
    (args : List (BitVec 64)) : Exec ((ℕ → BitVec 8) × BitVec 32) :=
  if size.toNat > intMax then .ok (buf, 0)
  else
    vsnprintfRun mem fmt args (some size.toNat) ⟨buf, 0⟩ >>= fun (_, o) =>
      let buf :=
        if size.toNat > 0 then
          if o.pos < size.toNat then overlay o.buf o.pos [0] else overlay o.buf (size.toNat - 1) [0]
        else o.buf
      .ok (buf, BitVec.ofNat 32 o.pos)

/-- `vscnprintf`: as `vsnprintf`, but it returns how many characters are in the buffer and not
how many there would be. -/
def vscnprintf (mem : Memory) (buf : ℕ → BitVec 8) (size : BitVec 64) (fmt : List (BitVec 8))
    (args : List (BitVec 64)) : Exec ((ℕ → BitVec 8) × BitVec 32) :=
  vsnprintf mem buf size fmt args >>= fun (buf, i) =>
    .ok (buf, if i.signExtend 64 < size then i else if size ≠ 0 then (size - 1).setWidth 32 else 0)

/-- The characters that are produced with an unlimited buffer. -/
def unlimitedOutput (mem : Memory) (fmt : List (BitVec 8)) (args : List (BitVec 64)) :
    Exec (List (BitVec 8)) :=
  vsnprintfRun mem fmt args none ⟨fun _ => 0, 0⟩ >>= fun (_, o) => .ok (block o.buf 0 o.pos)

end Lvisor
