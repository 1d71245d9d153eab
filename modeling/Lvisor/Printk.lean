import Lvisor.Tsc
import Lvisor.Vsprintf

/-!
# The log (`printk.c`)

`vprintk` formats a message behind its time into a static buffer and gives it to all consoles,
unless its level is above `loglevel`. A message of level `LOGLEVEL_CONT` has no time, and takes
the level `curlevel`.

* `vprintk_levels` — neither `loglevel` nor `curlevel` ever changes;
* `vprintk_written_iff` — whether a call is written, and `consoles_vprintk` what the consoles get;
* `printkRun_consoles` — what the consoles have got after many calls;
* `continuations_follow_iff` — continuations follow the message that they continue exactly when
  messages at the default level are written just as that message is.

A pointer into `buf` is an offset; the lock is left out.
-/

namespace Lvisor

/-- `LOG_LINE_MAX`: the size of the buffer for a text with its prefix. -/
abbrev logLineMax : ℕ := 1024

/-- `LOGLEVEL_CONT`: the text goes on where the last one has ended. -/
abbrev loglevelCont : BitVec 32 := -1#32

/-- `LOGLEVEL_INFO`, the level of `pr_info`. -/
abbrev loglevelInfo : BitVec 32 := 6#32

/-- `LOGLEVEL_DEBUG`, the highest level. -/
abbrev loglevelDebug : BitVec 32 := 7#32

/-- `LOGLEVEL_DEFAULT`: the bound on levels when nothing else is set. -/
abbrev loglevelDefault : BitVec 32 := loglevelInfo

/-- A `struct console`: whether it has a function `write`, and what that function was given. -/
structure Console where
  write : Bool
  texts : List (List (BitVec 8))

/-- The statics of `printk.c`: the consoles, the two levels, and the buffer. -/
structure PrintkState where
  consoleDrivers : List Console
  loglevel : BitVec 32
  curlevel : BitVec 32
  /-- `buf` of `vprintk` -/
  buf : ℕ → BitVec 8

/-- A call of `vprintk`, with the value of the counter that `uptime` reads in it. -/
structure PrintkCall where
  level : BitVec 32
  fmt : List (BitVec 8)
  args : List (BitVec 64)
  cycles : BitVec 64

/-- The format of `pr_prefix`, `"[%5lu.%06lu] "`: seconds and microseconds. -/
def prefixFmt : List (BitVec 8) :=
  ['[', '%', '5', 'l', 'u', '.', '%', '0', '6', 'l', 'u', ']', ' '].map ch

/-- `pr_prefix`: the time since boot as a text in the buffer, and its length. -/
def prPrefix (mem : Memory) (tscKhz cycles : BitVec 64) (buf : ℕ → BitVec 8) (size : BitVec 64) :
    Exec ((ℕ → BitVec 8) × ℕ) := do
  let s := uptime tscKhz cycles
  let us := s % 1000000#64
  let s := s / 1000000#64
  let (buf, len) ← vscnprintf mem buf size prefixFmt [s, us]
  return (buf, len.toNat)

/-- `con->write(con, buf, len)`, if there is such a function. -/
def Console.give (text : List (BitVec 8)) (con : Console) : Console :=
  if con.write then { con with texts := con.texts ++ [text] } else con

/-- A console after several calls: of those that are written it has the texts, in order. -/
def Console.giveAll (texts : List (Option (List (BitVec 8)))) (con : Console) : Console :=
  if con.write then { con with texts := con.texts ++ texts.filterMap id } else con

/-- The start of the line: the time, but for a continuation. -/
def lineStart (mem : Memory) (tscKhz : BitVec 64) (c : PrintkCall) (buf : ℕ → BitVec 8) :
    Exec ((ℕ → BitVec 8) × ℕ) :=
  if c.level = loglevelCont then .ok (buf, 0)
  else prPrefix mem tscKhz c.cycles buf (BitVec.ofNat 64 logLineMax)

/-- `vprintk`: what it gives to the consoles, if it does, and the state it leaves. -/
def vprintk (mem : Memory) (tscKhz : BitVec 64) (st : PrintkState) (c : PrintkCall) :
    Exec (Option (List (BitVec 8)) × PrintkState) :=
  let thislevel := if c.level = loglevelCont then st.curlevel else c.level
  if st.loglevel.slt thislevel then .ok (none, st)
  else do
    let (buf, len) ← lineStart mem tscKhz c st.buf
    let (tail, n) ←
      vscnprintf mem (fun i => buf (len + i)) (BitVec.ofNat 64 (logLineMax - len)) c.fmt c.args
    let buf := fun i => if i < len then buf i else tail (i - len)
    let text := block buf 0 (len + n.toNat)
    return (some text, { st with
      buf := buf, consoleDrivers := st.consoleDrivers.map (Console.give text) })

/-- Calls one after the other: what each of them gives to the consoles, and the state. -/
def printkRun (mem : Memory) (tscKhz : BitVec 64) :
    PrintkState → List PrintkCall → Exec (List (Option (List (BitVec 8))) × PrintkState)
  | st, [] => .ok ([], st)
  | st, c :: calls => do
    let (text, st) ← vprintk mem tscKhz st c
    let (texts, st) ← printkRun mem tscKhz st calls
    return (text :: texts, st)

/-! ## One call

A call either returns at once, by its level, or formats and writes. Which of the two it is
depends on the levels only, and the levels are the same after it. -/

section Call

variable {mem : Memory} {tscKhz : BitVec 64} {st st' : PrintkState} {c : PrintkCall}
  {text : Option (List (BitVec 8))}

/-- What a call does: nothing when its level is too high, and else it formats a text and gives it
to the consoles. -/
theorem vprintk_cases (h : vprintk mem tscKhz st c = .ok (text, st')) :
    let thislevel := if c.level = loglevelCont then st.curlevel else c.level
    (st.loglevel.slt thislevel = true ∧ text = none ∧ st' = st) ∨
      (st.loglevel.slt thislevel = false ∧ ∃ t buf, text = some t ∧ st' = { st with
        buf := buf, consoleDrivers := st.consoleDrivers.map (Console.give t) }) := by
  intro thislevel
  unfold vprintk at h
  dsimp only at h
  by_cases hlevel : st.loglevel.slt thislevel = true
  · rw [if_pos hlevel] at h
    obtain ⟨rfl, rfl⟩ := Prod.mk.inj (Except.ok.inj h)
    exact .inl ⟨hlevel, rfl, rfl⟩
  · rw [if_neg hlevel] at h
    obtain ⟨⟨buf, len⟩, -, h⟩ := Exec.bind_eq_ok.mp h
    obtain ⟨⟨tail, n⟩, -, h⟩ := Exec.bind_eq_ok.mp h
    obtain ⟨rfl, rfl⟩ := Prod.mk.inj (Except.ok.inj h)
    exact .inr ⟨Bool.eq_false_iff.mpr hlevel, _, _, rfl, rfl⟩

/-- A call leaves the bound on levels and the current level as they are. -/
theorem vprintk_levels (h : vprintk mem tscKhz st c = .ok (text, st')) :
    st'.loglevel = st.loglevel ∧ st'.curlevel = st.curlevel := by
  rcases vprintk_cases h with ⟨-, -, rfl⟩ | ⟨-, t, buf, -, rfl⟩
  · exact ⟨rfl, rfl⟩
  · exact ⟨rfl, rfl⟩

/-- A call is written when its level, or for a continuation `curlevel`, is not above
`loglevel`. -/
theorem vprintk_written_iff (h : vprintk mem tscKhz st c = .ok (text, st')) :
    text.isSome = true ↔
      (if c.level = loglevelCont then st.curlevel else c.level).sle st.loglevel = true := by
  rw [BitVec.sle_eq_not_slt]
  rcases vprintk_cases h with ⟨hlt, rfl, -⟩ | ⟨hlt, t, buf, rfl, -⟩
  · rw [hlt]
    exact Iff.rfl
  · rw [hlt]
    exact Iff.rfl

/-- The consoles with a function `write` get the text of a call that is written, and nothing of
another one. -/
theorem consoles_vprintk (h : vprintk mem tscKhz st c = .ok (text, st')) :
    st'.consoleDrivers = st.consoleDrivers.map fun con =>
      text.elim con fun t => con.give t := by
  rcases vprintk_cases h with ⟨-, rfl, rfl⟩ | ⟨-, t, buf, rfl, rfl⟩
  · exact (List.map_id _).symm
  · rfl

theorem Console.giveAll_cons (texts : List (Option (List (BitVec 8)))) (con : Console) :
    (text.elim con fun t => con.give t).giveAll texts = con.giveAll (text :: texts) := by
  cases text with
  | none => rfl
  | some t =>
    rcases con with ⟨write, given⟩
    cases write with
    | false => rfl
    | true => exact congrArg (Console.mk true) (List.append_assoc given [t] _)

theorem Console.giveAll_nil (con : Console) : con.giveAll [] = con := by
  rcases con with ⟨write, given⟩
  cases write with
  | false => rfl
  | true => exact congrArg (Console.mk true) (List.append_nil given)

end Call

/-! ## Histories of calls

A continuation is meant to go where the message went that it continues. The code gives it the
level `curlevel`, which is never assigned, and so treats it as a message of the default level. -/

/-- The level of the message that a continuation after these calls continues. -/
def lastLevel (before : List PrintkCall) : BitVec 32 :=
  (before.reverse.find? fun c => c.level ≠ loglevelCont).elim loglevelDefault PrintkCall.level

/-- A call after these should be written: the message that it continues, or its own, has a level
that is not above `loglevel`. -/
def ShouldBeWritten (loglevel : BitVec 32) (before : List PrintkCall) (c : PrintkCall) : Prop :=
  (if c.level = loglevelCont then lastLevel before else c.level).sle loglevel = true

instance (loglevel : BitVec 32) (before : List PrintkCall) (c : PrintkCall) :
    Decidable (ShouldBeWritten loglevel before c) :=
  inferInstanceAs (Decidable (_ = _))

/-- The statics as they are initialised, but for `loglevel`, with some consoles. -/
structure PrintkState.Initial (st : PrintkState) : Prop where
  curlevel : st.curlevel = loglevelDefault

/-- Exactly the calls that should be written are: those with a level that is not above the bound,
and continuations of these. -/
def ContinuationsFollow (loglevel : BitVec 32) (calls : List PrintkCall)
    (texts : List (Option (List (BitVec 8)))) : Prop :=
  ∀ (before : List PrintkCall) (c : PrintkCall) (after : List PrintkCall),
    calls = before ++ c :: after →
      ((∃ t, texts[before.length]? = some (some t)) ↔ ShouldBeWritten loglevel before c)

section History

variable {mem : Memory} {tscKhz : BitVec 64} {st st' : PrintkState} {c : PrintkCall}
  {calls before after : List PrintkCall} {texts : List (Option (List (BitVec 8)))}

/-- A run up to a call, the call, and the rest. -/
theorem printkRun_split (h : printkRun mem tscKhz st (before ++ c :: after) = .ok (texts, st')) :
    ∃ st₁ st₂ text, st₁.loglevel = st.loglevel ∧ st₁.curlevel = st.curlevel ∧
      vprintk mem tscKhz st₁ c = .ok (text, st₂) ∧ texts[before.length]? = some text := by
  induction before generalizing st texts with
  | nil =>
    obtain ⟨⟨text, st₂⟩, hcall, h⟩ := Exec.bind_eq_ok.mp h
    obtain ⟨⟨rest, st₃⟩, -, h⟩ := Exec.bind_eq_ok.mp h
    obtain ⟨rfl, -⟩ := Prod.mk.inj (Except.ok.inj h)
    exact ⟨st, st₂, text, rfl, rfl, hcall, rfl⟩
  | cons c₀ before ih =>
    obtain ⟨⟨text₀, st₀⟩, hcall₀, h⟩ := Exec.bind_eq_ok.mp h
    obtain ⟨⟨rest, st₃⟩, hrest, h⟩ := Exec.bind_eq_ok.mp h
    obtain ⟨rfl, rfl⟩ := Prod.mk.inj (Except.ok.inj h)
    obtain ⟨st₁, st₂, text, hlog, hcur, hcall, htext⟩ := ih hrest
    obtain ⟨hlog₀, hcur₀⟩ := vprintk_levels hcall₀
    exact ⟨st₁, st₂, text, hlog.trans hlog₀, hcur.trans hcur₀, hcall, htext⟩

/-- **The consoles of a run** get the texts of the calls that are written, in order. -/
theorem printkRun_consoles (h : printkRun mem tscKhz st calls = .ok (texts, st')) :
    texts.length = calls.length ∧
      st'.consoleDrivers = st.consoleDrivers.map (Console.giveAll texts) := by
  induction calls generalizing st texts with
  | nil =>
    obtain ⟨rfl, rfl⟩ := Prod.mk.inj (Except.ok.inj h)
    exact ⟨rfl, ((List.map_congr_left fun con _ => con.giveAll_nil).trans (List.map_id' _)).symm⟩
  | cons c calls ih =>
    obtain ⟨⟨text, st₁⟩, hcall, h⟩ := Exec.bind_eq_ok.mp h
    obtain ⟨⟨rest, st₂⟩, hrest, h⟩ := Exec.bind_eq_ok.mp h
    obtain ⟨rfl, rfl⟩ := Prod.mk.inj (Except.ok.inj h)
    obtain ⟨hlen, hconsoles⟩ := ih hrest
    refine ⟨congrArg Nat.succ hlen, ?_⟩
    rw [hconsoles, consoles_vprintk hcall, List.map_map]
    exact List.map_congr_left fun con _ => Console.giveAll_cons rest con

/-- **Every call of a run**: a continuation is written when `LOGLEVEL_DEFAULT` is not above
`loglevel`, whatever came before. -/
theorem printkRun_written_iff (hinit : st.Initial)
    (h : printkRun mem tscKhz st (before ++ c :: after) = .ok (texts, st')) :
    (∃ t, texts[before.length]? = some (some t)) ↔
      (if c.level = loglevelCont then loglevelDefault else c.level).sle st.loglevel = true := by
  obtain ⟨st₁, st₂, text, hlog, hcur, hcall, htext⟩ := printkRun_split h
  have hwritten := vprintk_written_iff hcall
  rw [hlog, hcur, hinit.curlevel] at hwritten
  rw [htext, ← hwritten, Option.isSome_iff_exists]
  exact exists_congr fun t => Option.some_inj

end History

/-- **Continuations** follow the message that they continue, in a run, exactly when at each of
them that message is written just as messages of the default level are. What a call is found to
have written is what every console with a function `write` has been given, in the order of the
calls. -/
theorem continuations_follow_iff (mem : Memory) (tscKhz : BitVec 64) (st st' : PrintkState)
    (calls : List PrintkCall) (texts : List (Option (List (BitVec 8)))) (hinit : st.Initial)
    (h : printkRun mem tscKhz st calls = .ok (texts, st')) :
    (texts.length = calls.length ∧
      st'.consoleDrivers = st.consoleDrivers.map (Console.giveAll texts)) ∧
    (ContinuationsFollow st.loglevel calls texts ↔
      ∀ (before : List PrintkCall) (c : PrintkCall) (after : List PrintkCall),
        calls = before ++ c :: after → c.level = loglevelCont →
          ((lastLevel before).sle st.loglevel = true ↔
            loglevelDefault.sle st.loglevel = true)) := by
  refine ⟨printkRun_consoles h, ?_⟩
  refine forall_congr' fun before => forall_congr' fun c => forall_congr' fun after =>
    forall_congr' fun hcalls => ?_
  subst hcalls
  rw [printkRun_written_iff hinit h, ShouldBeWritten]
  by_cases hcont : c.level = loglevelCont
  · rw [if_pos hcont, if_pos hcont]
    exact ⟨fun hiff _ => hiff.symm, fun hiff => (hiff hcont).symm⟩
  · rw [if_neg hcont, if_neg hcont]
    exact ⟨fun _ hcont' => absurd hcont' hcont, fun _ => Iff.rfl⟩

/-- The state at boot, with one console and the default level. -/
def bootPrintk : PrintkState where
  consoleDrivers := [⟨true, []⟩]
  loglevel := loglevelDefault
  curlevel := loglevelDefault
  buf _ := 0

/-- A message of one character, without a conversion. -/
def message (level : BitVec 32) (c : Char) : PrintkCall := ⟨level, [ch c], [], 0⟩

/-- A message that is written, and a continuation of it. -/
theorem continuations_follow_info :
    ∃ texts st', printkRun (fun _ => 0) 0 bootPrintk
        [message loglevelInfo 'a', message loglevelCont 'b'] = .ok (texts, st') ∧
      st'.consoleDrivers = [⟨true, texts.filterMap id⟩] ∧
      ContinuationsFollow bootPrintk.loglevel
        [message loglevelInfo 'a', message loglevelCont 'b'] texts := by
  obtain ⟨⟨texts, st'⟩, hrun, -⟩ : ∃ r, printkRun (fun _ => 0) 0 bootPrintk
      [message loglevelInfo 'a', message loglevelCont 'b'] = .ok r ∧ true = true :=
    Exec.exists_of_any (by decide +kernel)
  obtain ⟨⟨-, hconsoles⟩, hiff⟩ := continuations_follow_iff _ _ _ _ _ _ ⟨rfl⟩ hrun
  refine ⟨texts, st', hrun, hconsoles, hiff.mpr ?_⟩
  intro before c after hcalls hcont
  have hlast : lastLevel before = loglevelInfo := by
    rcases before with _ | ⟨c₀, _ | ⟨c₁, before⟩⟩
    · rfl
    · obtain ⟨rfl, -⟩ := List.cons.inj hcalls
      rfl
    · exact absurd (congrArg List.length hcalls) (by simp)
  rw [hlast]

/-- A message that is not written, and a continuation of it that is. -/
theorem not_continuationsFollow_debug :
    ∃ texts st', printkRun (fun _ => 0) 0 bootPrintk
        [message loglevelDebug 'a', message loglevelCont 'b'] = .ok (texts, st') ∧
      texts = [none, some [ch 'b']] ∧
      ¬ContinuationsFollow bootPrintk.loglevel
        [message loglevelDebug 'a', message loglevelCont 'b'] texts := by
  obtain ⟨⟨texts, st'⟩, hrun, htexts⟩ : ∃ r, printkRun (fun _ => 0) 0 bootPrintk
      [message loglevelDebug 'a', message loglevelCont 'b'] = .ok r ∧
        decide (r.1 = [none, some [ch 'b']]) = true :=
    Exec.exists_of_any (by decide +kernel)
  obtain rfl : texts = _ := of_decide_eq_true htexts
  refine ⟨_, st', hrun, rfl, fun hfollow => ?_⟩
  have hcont := hfollow [message loglevelDebug 'a'] (message loglevelCont 'b') [] rfl
  exact absurd (hcont.mp ⟨_, rfl⟩) (by decide)

end Lvisor
