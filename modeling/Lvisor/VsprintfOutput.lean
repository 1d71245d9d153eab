import Lvisor.Vsprintf

/-!
# Truncation of formatted output

No emitter of `vsprintf.c` looks at the buffer, though each has its own check of the end, and
right-justified strings are written first and moved then. So `vsnprintf` emits the same
characters whatever the size of the buffer, and stores those that fit.

* `moveRight_puts` — text that is moved right behind its padding, as if emitted in this order;
* `vsnprintfBody_oblivious`, `vsnprintfLoop_oblivious` — one conversion, and the whole run;
* `formatDecode_advances` — each conversion takes something of the format, so the run ends;
* `vsnprintf_truncates` — what `vsnprintf` and `vscnprintf` leave in the buffer and return.
-/

namespace Lvisor

variable {stop : Option ℕ} {o : Output (BitVec 8)}

/-! ## Strings -/

/-- What was just emitted, with `spaces` in front of it: `move_right` leaves the buffer as if the
spaces had been emitted first. -/
theorem moveRight_puts (l : List (BitVec 8)) (spaces : ℕ) :
    moveRight stop o.pos l.length spaces (o.puts stop l).buf =
      (o.puts stop (List.replicate spaces (ch ' ') ++ l)).buf := by
  rw [Output.puts_eq, Output.puts_eq]
  dsimp only
  generalize o.pos = p
  have hguard {buf : ℕ → BitVec 8} {k : ℕ} (hk : k ≤ l.length) : (if l.length ≠ 0 then
      overlay buf (p + spaces) (block buf p k) else buf) =
      overlay buf (p + spaces) (block buf p k) := by
    split
    · rfl
    · rename_i hzero
      obtain rfl : k = 0 := by omega
      exact overlay_nil.symm
  rcases stop with _ | n
  · simp only [moveRight, fits, cut, Bool.not_true, Bool.false_eq_true, if_false]
    rw [hguard (Nat.le_refl _), block_overlay (Nat.le_refl _), List.take_length]
    exact overlay_pad (Nat.le_add_left _ _)
  by_cases hfit : p < n
  swap
  · have hzero : n - p = 0 := by omega
    simp [moveRight, fits, cut, hfit, hzero]
  simp only [moveRight, fits, cut, hfit, decide_true, Bool.not_true, Bool.false_eq_true, if_false]
  by_cases hsize : n - p ≤ spaces
  · -- cut inside of the padding
    have hcover : (l.take (n - p)).length ≤ (List.replicate (n - p) (ch ' ')).length := by
      rw [List.length_take, List.length_replicate]
      exact Nat.min_le_left _ _
    rw [if_pos hsize, overlay_overlay hcover,
      List.take_append_of_le_length (by rw [List.length_replicate]; exact hsize),
      List.take_replicate, Nat.min_eq_left hsize]
  · -- cut inside of the text, or not at all
    have hlen : (if l.length > n - p - spaces then n - p - spaces else l.length) =
        min l.length (n - p - spaces) := by
      split
      · omega
      · omega
    rw [if_neg hsize, hlen, hguard (Nat.min_le_left _ _),
      block_overlay (by rw [List.length_take]; omega)]
    have htext : ((l.take (n - p)).take (min l.length (n - p - spaces))) =
        l.take (n - p - spaces) := by
      rw [List.take_take, List.take_eq_take_iff]
      omega
    rw [htext, overlay_pad (by rw [List.length_take, List.length_take]; omega)]
    have hpad : (List.replicate spaces (ch ' ')).length ≤ n - p := by
      rw [List.length_replicate]
      omega
    rw [List.take_append, List.take_of_length_le hpad, List.length_replicate]

/-- A string and its padding, on the side that the flag LEFT says. -/
def widened (spec : PrintfSpec) (l : List (BitVec 8)) : List (BitVec 8) :=
  let padding := List.replicate (spec.fieldWidth.toInt - l.length).toNat (ch ' ')
  if !hasFlag spec.flags Flag.left then padding ++ l else l ++ padding

/-- **Padding**: a string that was emitted is widened as if it had been emitted with its
padding. -/
theorem widenString_puts (spec : PrintfSpec) (l : List (BitVec 8)) :
    widenString l.length spec stop (o.puts stop l) = o.puts stop (widened spec l) := by
  unfold widenString widened
  by_cases hwide : (l.length : ℤ) ≥ spec.fieldWidth.toInt
  · have hzero : (spec.fieldWidth.toInt - l.length).toNat = 0 := by omega
    rw [if_pos hwide, hzero]
    simp
  rw [if_neg hwide]
  dsimp only
  by_cases hright : (!hasFlag spec.flags Flag.left) = true
  · rw [if_pos hright, if_pos hright, Output.puts_pos, Nat.add_sub_cancel, moveRight_puts]
    rw [Output.puts_eq]
    simp only [List.length_append, List.length_replicate]
    congr 1
    omega
  · rw [if_neg hright, if_neg hright, Output.fill_eq, Output.puts_append]

/-- The characters that `string` reads: those before the NUL, and at most `lim`. -/
def stringText (s : CStr) : ℕ → ℕ → List (BitVec 8)
  | 0, _ => []
  | lim + 1, len => if s len = 0 then [] else s len :: stringText s lim (len + 1)

theorem stringLoop_eq (s : CStr) (lim len : ℕ) :
    stringLoop s stop lim len o =
      (len + (stringText s lim len).length, o.puts stop (stringText s lim len)) := by
  induction lim generalizing len o with
  | zero => rfl
  | succ lim ih =>
    rw [stringLoop, stringText]
    by_cases hend : s len = 0
    · rw [if_pos hend, if_pos hend]
      rfl
    · rw [if_neg hend, if_neg hend, ih, List.length_cons, Nat.add_assoc, Nat.add_comm 1,
        Output.puts_cons]

theorem string_emits (s : Option CStr) (spec : PrintfSpec) :
    Emits (string s spec)
      (widened spec (stringText (s.getD nullText) (spec.precision.signExtend 64).toNat 0)) := by
  intro stop o
  unfold string
  dsimp only
  rw [stringLoop_eq, Nat.zero_add]
  exact widenString_puts spec _

/-! ## Numbers and pointers -/

/-- The characters that `number` emits, as a list of its parts. -/
def numberText (num : BitVec 64) (spec : PrintfSpec) : List (BitVec 8) :=
  let needPfx := hasFlag spec.flags Flag.special && spec.base != 10
  let isZero := num == 0
  let locase := spec.flags &&& Flag.small
  let flags := if hasFlag spec.flags Flag.left then spec.flags &&& ~~~Flag.zeropad else spec.flags
  let signed := numberSign flags num spec.fieldWidth.toInt
  let pfxWidth : ℤ :=
    if needPfx then (if spec.base = 16 then 2 else if !isZero then 1 else 0) else 0
  let tmp := numberDigits signed.2.1 spec.base locase
  let precision := max (tmp.length : ℤ) spec.precision.toInt
  let width := signed.2.2 - pfxWidth - precision
  let leading := !hasFlag flags (Flag.zeropad ||| Flag.left)
  let width' := if leading then afterLoop width else width
  let padding := !hasFlag flags Flag.left
  let width'' := if padding then afterLoop width' else width'
  (if leading then List.replicate width.toNat (ch ' ') else []) ++
    (if signed.1 ≠ 0 then [signed.1] else []) ++
    (if needPfx && (spec.base == 16 || !isZero) then [ch '0'] else []) ++
    (if needPfx && spec.base == 16 then [ch 'X' ||| locase] else []) ++
    (if padding then List.replicate width'.toNat (ch ' ' + (flags &&& Flag.zeropad)) else []) ++
    List.replicate (precision - tmp.length).toNat (ch '0') ++ tmp.reverse ++
    List.replicate width''.toNat (ch ' ')

theorem number_emits (num : BitVec 64) (spec : PrintfSpec) :
    Emits (number num spec) (numberText num spec) := by
  have leading {c : Bool} {x : BitVec 8} {n : ℕ} := Emits.ite (c := c) (.fill x n) .nothing
  have single {c : Prop} [Decidable c] {x : BitVec 8} := Emits.ite (c := c) (.put x) .nothing
  exact leading |>.comp single |>.comp single |>.comp single |>.comp leading |>.comp (.fill _ _)
    |>.comp (.puts _) |>.comp (.fill _ _)

theorem specialHexNumber_emits (num : BitVec 64) (size : ℕ) :
    ∃ l, Emits (specialHexNumber num size) l :=
  ⟨_, number_emits num _⟩

theorem hexLoop_emits (addr : CStr) (separator : BitVec 8) (len n i : ℕ) :
    ∃ l, Emits (fun stop o => hexLoop addr separator len stop n i o) l := by
  induction n generalizing i with
  | zero => exact ⟨[], .nothing⟩
  | succ n ih =>
    obtain ⟨l, hl⟩ := ih (i + 1)
    exact ⟨_, (Emits.put _).comp (.put _) |>.comp (.ite (.put _) .nothing) |>.comp hl⟩

theorem hexString_emits (addr : CStr) (spec : PrintfSpec) (fmt : List (BitVec 8)) :
    ∃ l, Emits (hexString addr spec fmt) l := by
  have hloop (separator : BitVec 8) (len : ℕ) := hexLoop_emits addr separator len len 0
  choose l hl using hloop
  exact ⟨_, .ite .nothing (hl _ _)⟩

/-- **Pointers**: every extension of `%p` emits a text that does not depend on the buffer. -/
theorem pointer_emits (mem : Memory) (fmt : List (BitVec 8)) (ptr : BitVec 64)
    (spec : PrintfSpec) : ∃ l, Emits (pointer mem fmt ptr spec) l := by
  obtain ⟨symbol, hsymbol⟩ := specialHexNumber_emits ptr 8
  obtain ⟨hex, hhex⟩ := hexString_emits (charsAt mem ptr) spec fmt
  exact ⟨_, .ite (string_emits _ _) (.ite hsymbol (.ite hhex (.ite (string_emits _ _)
    (number_emits _ _))))⟩

theorem putChar_emits (c : BitVec 8) (spec : PrintfSpec) : ∃ l, Emits (putChar c spec) l :=
  ⟨_, (Emits.ite (.fill _ _) .nothing).comp (.put _) |>.comp (.fill _ _)⟩

/-! ## Runs -/

/-- **One conversion** does not look at the buffer, nor at where it ends. -/
theorem vsnprintfBody_oblivious (mem : Memory) (st : PrintfState) :
    Oblivious (vsnprintfBody mem st) := by
  unfold vsnprintfBody
  rcases formatDecode st.fmt st.spec with ⟨fmt, spec⟩
  refine .ite (.error _) ?_
  cases spec.type with
  | none => exact .ok (.copy _) _
  | width => exact .bind_const fun ⟨arg, args⟩ => .ok .nothing _
  | precision => exact .bind_const fun ⟨arg, args⟩ => .ok .nothing _
  | char => exact .bind_const fun ⟨arg, args⟩ => .ok (putChar_emits _ _).choose_spec _
  | str => exact .bind_const fun ⟨arg, args⟩ => .ok (string_emits _ _) _
  | ptr => exact .bind_const fun ⟨arg, args⟩ => .ok (pointer_emits _ _ _ _).choose_spec _
  | percentChar => exact .ok (.put _) _
  | invalid => exact .ok .nothing _
  | _ => exact .bind_const fun ⟨arg, args⟩ => .ok (number_emits _ _) _

/-- **A run** does not look at the buffer, by induction over its conversions. -/
theorem vsnprintfLoop_oblivious (mem : Memory) (n : ℕ) (st : PrintfState) :
    Oblivious (vsnprintfLoop mem n st) := by
  induction n generalizing st with
  | zero => exact .ite (.ok .nothing _) (.error _)
  | succ n ih =>
    refine .ite (.ok .nothing _) (.bind (vsnprintfBody_oblivious mem st) ?_)
    rintro (_ | st')
    · exact .ok .nothing _
    · exact ih st'

/-! ## Termination

Each call of `format_decode` takes at least one character of the format, or is the last one. The
length of what is left is the measure. -/

/-- A decoder stops at an invalid conversion, or takes something of the format. -/
def Advances (fmt : List (BitVec 8)) (decoded : List (BitVec 8) × PrintfSpec) : Prop :=
  decoded.2.type = .invalid ∨ decoded.1.length < fmt.length

section Advances

variable {fmt fmt' : List (BitVec 8)} {spec : PrintfSpec} {decoded : List (BitVec 8) × PrintfSpec}

theorem Advances.of_le (h : Advances fmt' decoded) (hle : fmt'.length ≤ fmt.length) :
    Advances fmt decoded :=
  h.imp_right fun hlt => hlt.trans_le hle

theorem Advances.ite {c : Prop} [Decidable c] {other : List (BitVec 8) × PrintfSpec}
    (h : c → Advances fmt decoded) (h' : ¬c → Advances fmt other) :
    Advances fmt (if c then decoded else other) := by
  by_cases hc : c
  · rw [if_pos hc]
    exact h hc
  · rw [if_neg hc]
    exact h' hc

theorem length_tail_le (fmt : List (BitVec 8)) : fmt.tail.length ≤ fmt.length := by
  rw [List.length_tail]
  exact Nat.sub_le _ _

theorem length_tail_lt (h : peek fmt ≠ 0) : fmt.tail.length < fmt.length := by
  cases fmt with
  | nil => exact absurd rfl h
  | cons c fmt => exact Nat.lt_succ_self _

/-- A character that is in the format is taken. -/
theorem advances_tail {c : BitVec 8} (h : peek fmt = c) (hc : c ≠ 0) (spec : PrintfSpec) :
    Advances fmt (fmt.tail, spec) :=
  .inr (length_tail_lt (h ▸ hc))

theorem length_skipAtoi_le (fmt : List (BitVec 8)) (i : BitVec 32) :
    (skipAtoi fmt i).2.length ≤ fmt.length := by
  induction fmt generalizing i with
  | nil => exact Nat.le_refl _
  | cons c fmt ih =>
    rw [skipAtoi]
    split
    · exact (ih _).trans (Nat.le_succ _)
    · exact Nat.le_refl _

theorem length_flagsLoop_le (fmt : List (BitVec 8)) (flags : BitVec 8) :
    (flagsLoop fmt flags).2.length ≤ fmt.length := by
  induction fmt generalizing flags with
  | nil => exact Nat.le_refl _
  | cons c fmt ih =>
    rw [flagsLoop]
    split
    · exact (ih _).trans (Nat.le_succ _)
    · exact Nat.le_refl _

theorem decodeConversion_advances (qualifier : BitVec 8) :
    Advances fmt (decodeConversion qualifier fmt spec) := by
  have known {c : BitVec 8} (hc : c ≠ 0) {spec : PrintfSpec} (h : peek fmt = c) :
      Advances fmt (fmt.tail, spec) := advances_tail h hc spec
  refine .ite (known (by decide)) fun _ => .ite (known (by decide)) fun _ =>
    .ite (known (by decide)) fun _ => .ite (known (by decide)) fun _ =>
    .ite (known (by decide)) fun _ => .ite (known (by decide)) fun _ =>
    .ite (known (by decide)) fun _ => .ite ?_ fun _ => .ite (known (by decide)) fun _ => .inl rfl
  rintro (hd | hi)
  · exact known (by decide) hd
  · exact known (by decide) hi

theorem decodeQualifier_advances : Advances fmt (decodeQualifier fmt spec) := by
  have htail := length_tail_le fmt
  have htail' := (length_tail_le fmt.tail).trans htail
  exact .ite
    (fun _ => .ite (fun _ => (decodeConversion_advances _).of_le htail') fun _ =>
      .ite (fun _ => (decodeConversion_advances _).of_le htail') fun _ =>
        (decodeConversion_advances _).of_le htail)
    fun _ => decodeConversion_advances _

theorem decodePrecision_advances : Advances fmt (decodePrecision fmt spec) := by
  have htail := length_tail_le fmt
  refine .ite (fun _ => ?_) fun _ => decodeQualifier_advances
  refine .ite (fun _ => ?_) fun _ => .ite (fun hstar => ?_) fun _ => ?_
  · exact decodeQualifier_advances.of_le ((length_skipAtoi_le _ 0).trans htail)
  · exact (advances_tail hstar (by decide) _).of_le htail
  · exact decodeQualifier_advances.of_le htail

/-- **Progress**: each call of `format_decode` takes something of a format that is not empty, or
ends the run. -/
theorem formatDecode_advances (h : peek fmt ≠ 0) : Advances fmt (formatDecode fmt spec) := by
  unfold formatDecode
  split
  · exact decodePrecision_advances
  · exact decodeQualifier_advances
  have hflags := (length_flagsLoop_le fmt.tail 0).trans (length_tail_le fmt)
  refine .ite (fun hliteral => ?_) fun _ =>
    .ite (fun _ => ?_) fun _ => .ite (fun hstar => ?_) fun _ => ?_
  · have hle : (afterLiteral fmt).length ≤ fmt.length := (List.dropWhile_sublist _).length_le
    exact .inr (lt_of_le_of_ne hle (hliteral.resolve_right h))
  · exact decodePrecision_advances.of_le ((length_skipAtoi_le _ 0).trans hflags)
  · exact (advances_tail hstar (by decide) _).of_le hflags
  · exact decodePrecision_advances.of_le hflags

end Advances

/-- The body of the loop fails, ends the run, or goes on with less of the format. -/
def Shortens (fmt : List (BitVec 8)) (x : Exec (Option PrintfState × Output (BitVec 8))) : Prop :=
  x = .error .undefined ∨ ∃ next o, x = .ok (next, o) ∧ ∀ st ∈ next, st.fmt.length < fmt.length

namespace Shortens

variable {fmt fmt' : List (BitVec 8)}

theorem next (h : fmt'.length < fmt.length) (spec : PrintfSpec) (args : List (BitVec 64))
    (o : Output (BitVec 8)) : Shortens fmt (.ok (some ⟨fmt', spec, args⟩, o)) := by
  refine .inr ⟨_, _, rfl, fun st hst => ?_⟩
  obtain rfl := Option.some.inj hst
  exact h

theorem vaArg {f : BitVec 64 × List (BitVec 64) → Exec (Option PrintfState × Output (BitVec 8))}
    (args : List (BitVec 64)) (hf : ∀ arg args, Shortens fmt (f (arg, args))) :
    Shortens fmt (Lvisor.vaArg args >>= f) := by
  rcases args with _ | ⟨arg, args⟩
  · exact .inl rfl
  · exact hf arg args

end Shortens

theorem vsnprintfBody_shortens (mem : Memory) {st : PrintfState} (h : peek st.fmt ≠ 0) :
    Shortens st.fmt (vsnprintfBody mem st stop o) := by
  have hadvances : Advances st.fmt (formatDecode st.fmt st.spec) := formatDecode_advances h
  unfold vsnprintfBody
  rcases hdecode : formatDecode st.fmt st.spec with ⟨fmt, spec⟩
  rw [hdecode] at hadvances
  dsimp only
  split
  · exact .inl rfl
  obtain (hinvalid : spec.type = .invalid) | (hlt : fmt.length < st.fmt.length) := hadvances
  · rw [hinvalid]
    exact .inr ⟨none, o, rfl, nofun⟩
  cases spec.type with
  | none => exact .next hlt _ _ _
  | percentChar => exact .next hlt _ _ _
  | invalid => exact .inr ⟨none, o, rfl, nofun⟩
  | ptr =>
    have hdrop : (fmt.dropWhile isalnum).length ≤ fmt.length := (List.dropWhile_sublist _).length_le
    exact .vaArg _ fun arg args => .next (hdrop.trans_lt hlt) _ _ _
  | _ => exact .vaArg _ fun arg args => .next hlt _ _ _

/-- **Termination**: as many rounds as the format has characters are enough. -/
theorem vsnprintfLoop_ne_outOfFuel (mem : Memory) {n : ℕ} {st : PrintfState}
    (hn : st.fmt.length ≤ n) : vsnprintfLoop mem n st stop o ≠ .error .outOfFuel := by
  induction n generalizing st o with
  | zero =>
    have hnil : st.fmt = [] := List.length_eq_zero_iff.mp (Nat.le_zero.mp hn)
    have hend : peek st.fmt = 0 := by rw [hnil]; rfl
    rw [vsnprintfLoop, if_pos hend]
    exact nofun
  | succ n ih =>
    rw [vsnprintfLoop]
    by_cases hend : peek st.fmt = 0
    · rw [if_pos hend]
      exact nofun
    rw [if_neg hend]
    have hshort : Shortens st.fmt (vsnprintfBody mem st stop o) := vsnprintfBody_shortens mem hend
    obtain hbody | ⟨next, o', hbody, hnext⟩ := hshort
    · rw [hbody]
      exact nofun
    · rw [hbody, Exec.ok_bind]
      rcases next with _ | st'
      · exact nofun
      · have hlt := hnext st' rfl
        exact ih (by omega)

theorem vsnprintfRun_ne_outOfFuel (mem : Memory) (fmt : List (BitVec 8))
    (args : List (BitVec 64)) : vsnprintfRun mem fmt args stop o ≠ .error .outOfFuel :=
  vsnprintfLoop_ne_outOfFuel mem (Nat.le_refl fmt.length)

/-! ## The buffer at the end

The NUL goes behind the text, or over its last character that fits. What is returned is the
length of the whole text, and for `vscnprintf` that of what was stored. -/

/-- The NUL at the end: the buffer holds what fits in front of it. -/
theorem overlay_nul {α : Type} (buf : ℕ → α) (out : List α) (nul : α) {size : ℕ}
    (hsize : 0 < size) :
    (if out.length < size then overlay (overlay buf 0 (out.take size)) out.length [nul]
      else overlay (overlay buf 0 (out.take size)) (size - 1) [nul]) =
      overlay buf 0 (out.take (size - 1) ++ [nul]) := by
  split
  · rename_i hlt
    rw [List.take_of_length_le hlt.le, List.take_of_length_le (by omega), overlay_append,
      Nat.zero_add]
  · rename_i hge
    have hlen : (out.take (size - 1)).length = size - 1 := by
      rw [List.length_take]
      omega
    have hlast : out.take size = out.take (size - 1) ++ [out[size - 1]] := by
      rw [← List.take_succ_eq_append_getElem, Nat.sub_add_cancel hsize]
    have hone : [out[size - 1]].length ≤ [nul].length := Nat.le_refl _
    rw [hlast, overlay_append, overlay_append, hlen, Nat.zero_add, overlay_overlay hone]

/-- A run with an unlimited buffer, and the runs with an end. -/
theorem vsnprintfRun_of_unlimited {mem : Memory} {fmt : List (BitVec 8)} {args : List (BitVec 64)}
    {out : List (BitVec 8)} (h : unlimitedOutput mem fmt args = .ok out) (n : ℕ)
    (buf : ℕ → BitVec 8) :
    vsnprintfRun mem fmt args (some n) ⟨buf, 0⟩ =
      .ok ((), ⟨overlay buf 0 (out.take n), out.length⟩) := by
  obtain ⟨⟨⟨⟩, o⟩, hrun, hout⟩ := Exec.bind_eq_ok.mp h
  obtain rfl := Except.ok.inj hout
  have hobl : Oblivious (vsnprintfRun mem fmt args) := vsnprintfLoop_oblivious mem _ _
  rw [hobl.truncates hrun]
  simp [block]

/-- The buffer that `vsnprintf` leaves: what fits of the text with a NUL behind it, or the buffer
as it was when the size is zero. -/
def truncated (buf : ℕ → BitVec 8) (size : ℕ) (out : List (BitVec 8)) : ℕ → BitVec 8 :=
  if 0 < size then overlay buf 0 (out.take (size - 1) ++ [0]) else buf

theorem vsnprintf_of_unlimited {mem : Memory} {fmt : List (BitVec 8)} {args : List (BitVec 64)}
    {out : List (BitVec 8)} (h : unlimitedOutput mem fmt args = .ok out) {size : BitVec 64}
    (hsize : size.toNat ≤ intMax) (buf : ℕ → BitVec 8) :
    vsnprintf mem buf size fmt args =
      .ok (truncated buf size.toNat out, BitVec.ofNat 32 out.length) := by
  rw [vsnprintf, if_neg (Nat.not_lt.mpr hsize), vsnprintfRun_of_unlimited h, Exec.ok_bind]
  dsimp only
  rw [truncated]
  by_cases hpos : 0 < size.toNat
  · rw [if_pos hpos, if_pos hpos, overlay_nul buf out 0 hpos]
  · have hzero : size.toNat = 0 := by omega
    rw [if_neg hpos, if_neg hpos, hzero, List.take_zero, overlay_nil]

theorem truncated_of_le {buf : ℕ → BitVec 8} {size i : ℕ} {out : List (BitVec 8)} (h : size ≤ i) :
    truncated buf size out i = buf i := by
  unfold truncated
  split
  · refine overlay_of_le ?_
    rw [List.length_append, List.length_take, List.length_singleton]
    omega
  · rfl

theorem block_truncated {buf : ℕ → BitVec 8} {size : ℕ} {out : List (BitVec 8)} (h : 0 < size) :
    block (truncated buf size out) 0 (min out.length (size - 1) + 1) =
      out.take (size - 1) ++ [0] := by
  have hlen : (out.take (size - 1) ++ [(0 : BitVec 8)]).length = min out.length (size - 1) + 1 := by
    rw [List.length_append, List.length_take, List.length_singleton, Nat.min_comm]
  rw [truncated, if_pos h, ← hlen, block_overlay (Nat.le_refl _)]
  exact List.take_length

theorem toNat_ofNat_of_le {n : ℕ} (h : n ≤ intMax) : (BitVec.ofNat 32 n).toNat = n := by
  have hn : n ≤ 2 ^ 31 - 1 := h
  rw [BitVec.toNat_ofNat, Nat.mod_eq_of_lt (by omega)]

/-- An `int` that is not negative. -/
theorem toInt_eq_toNat_of_le {x : BitVec 32} (h : x.toNat ≤ intMax) : x.toInt = x.toNat := by
  have hx : x.toNat ≤ 2 ^ 31 - 1 := h
  exact BitVec.toInt_eq_toNat_of_lt (by omega)

/-- What `vscnprintf` makes of the result: an `int` that is compared with a `size_t`. -/
theorem vscnprintf_return {i : BitVec 32} (hi : i.toNat ≤ intMax) {size : BitVec 64}
    (hsize : size.toNat ≤ intMax) :
    (if i.signExtend 64 < size then i else if size ≠ 0 then (size - 1).setWidth 32 else 0).toNat =
      min i.toNat (size.toNat - 1) := by
  have hi' : i.toNat ≤ 2 ^ 31 - 1 := hi
  have hsize' : size.toNat ≤ 2 ^ 31 - 1 := hsize
  have hmsb : i.msb = false := BitVec.msb_eq_false_iff_two_mul_lt.mpr (by omega)
  have hwide : (i.signExtend 64).toNat = i.toNat := by
    rw [BitVec.signExtend_eq_setWidth_of_msb_false hmsb, BitVec.toNat_setWidth,
      Nat.mod_eq_of_lt (by omega)]
  by_cases hlt : i.signExtend 64 < size
  · rw [if_pos hlt]
    rw [BitVec.lt_def, hwide] at hlt
    omega
  · rw [if_neg hlt]
    rw [BitVec.lt_def, hwide] at hlt
    by_cases hzero : size = 0
    · rw [if_neg (not_not_intro hzero), hzero]
      simp
    · have hpos : size.toNat ≠ 0 := fun h => hzero (BitVec.eq_of_toNat_eq h)
      have hsub : (size - 1).toNat = size.toNat - 1 := by bv_omega
      rw [if_pos hzero, BitVec.toNat_setWidth, hsub]
      omega

/-- **Truncation of `vsnprintf`**: the run with an unlimited buffer ends. If it produces `out`, of
at most `INT_MAX` characters, then for every size and whatever is in the buffer, `vsnprintf`
returns the length of `out` and leaves the first `size - 1` characters of it in the buffer, with a
NUL; no byte behind the buffer changes; and `vscnprintf` returns what was stored. -/
theorem vsnprintf_truncates (mem : Memory) (fmt : List (BitVec 8)) (args : List (BitVec 64)) :
    unlimitedOutput mem fmt args ≠ .error .outOfFuel ∧
      ∀ out, unlimitedOutput mem fmt args = .ok out → out.length ≤ intMax →
        ∀ (size : BitVec 64) (buf : ℕ → BitVec 8), size.toNat ≤ intMax →
          ∃ buf' ret ret', vsnprintf mem buf size fmt args = .ok (buf', ret) ∧
            ret.toInt = out.length ∧
            (0 < size.toNat → block buf' 0 (min out.length (size.toNat - 1) + 1) =
              out.take (size.toNat - 1) ++ [0]) ∧
            (∀ i, size.toNat ≤ i → buf' i = buf i) ∧
            vscnprintf mem buf size fmt args = .ok (buf', ret') ∧
            ret'.toInt = ((min out.length (size.toNat - 1) : ℕ) : ℤ) := by
  refine ⟨fun hfuel => ?_, fun out hout hlen size buf hsize => ?_⟩
  · rw [unlimitedOutput] at hfuel
    rcases hrun : vsnprintfRun mem fmt args none ⟨fun _ => 0, 0⟩ with e | x
    · rw [hrun] at hfuel
      obtain rfl : e = .outOfFuel := Except.error.inj hfuel
      exact vsnprintfRun_ne_outOfFuel mem fmt args hrun
    · rw [hrun] at hfuel
      cases hfuel
  · have hvsnprintf := vsnprintf_of_unlimited hout hsize buf
    have hret := toNat_ofNat_of_le hlen
    have hret' := vscnprintf_return (i := BitVec.ofNat 32 out.length) (hret.trans_le hlen) hsize
    rw [hret] at hret'
    refine ⟨_, BitVec.ofNat 32 out.length, _, hvsnprintf, ?_, block_truncated,
      fun i hi => truncated_of_le hi, congrArg (· >>= _) hvsnprintf, ?_⟩
    · rw [toInt_eq_toNat_of_le (hret.trans_le hlen), hret]
    · rw [toInt_eq_toNat_of_le (hret'.trans_le ((Nat.min_le_left ..).trans hlen)), hret']

/-- Memory with a string of four letters at 0x1000. -/
def lettersMemory : Memory := fun p =>
  if p = 0x1000#64 then ch 'A' else if p = 0x1001#64 then ch 'B' else
    if p = 0x1002#64 then ch 'C' else if p = 0x1003#64 then ch 'D' else 0

/-- A right-justified string that is cut inside of the text. -/
theorem vsnprintf_truncates_lettersMemory :
    ∃ buf ret ret',
      vsnprintf lettersMemory (fun _ => 0x23) 4 [ch '%', ch '6', ch 's'] [0x1000] = .ok (buf, ret) ∧
      ret.toInt = 6 ∧ block buf 0 4 = [ch ' ', ch ' ', ch 'A', 0] ∧ buf 4 = 0x23 ∧
      vscnprintf lettersMemory (fun _ => 0x23) 4 [ch '%', ch '6', ch 's'] [0x1000] =
        .ok (buf, ret') ∧
      ret'.toInt = 3 := by
  obtain ⟨out, hout, heq⟩ := Exec.exists_of_any
    (x := unlimitedOutput lettersMemory [ch '%', ch '6', ch 's'] [0x1000])
    (p := (· = [ch ' ', ch ' ', ch 'A', ch 'B', ch 'C', ch 'D'])) (by decide +kernel)
  obtain rfl := of_decide_eq_true heq
  obtain ⟨buf, ret, ret', hrun, hret, hblock, hframe, hrun', hret'⟩ :=
    (vsnprintf_truncates lettersMemory [ch '%', ch '6', ch 's'] [0x1000]).2 _ hout (by decide) 4
      (fun _ => 0x23) (by decide)
  exact ⟨buf, ret, ret', hrun, hret, hblock (by decide), hframe 4 (Nat.le_refl _), hrun', hret'⟩

end Lvisor
