import Mathlib.Data.Set.List
import Lvisor.LinkedList
import Lvisor.Printk
import Lvisor.Spinlock

/-!
# Consoles, and printing on several processors (`printk.c`, `sys/console.h`)

The consoles are in a list through the `list` of their `struct console`s, and `vprintk` goes
through it behind `console_lock`. Here `vprintk` is a program of small steps over the links and
the consoles, and `Lvisor.Printk` has what it does when nothing else runs.

* `printkStep` — the steps of `vprintk` between `spin_lock` and `spin_unlock`;
* `Log.registered` — the list after `register_console` for some consoles;
* `finishes_vprintk` — the steps on their own do what `vprintk` of `Lvisor.Printk` does;
* `printk_smp` — calls on any number of processors, in any interleaving of their steps.
-/

namespace Lvisor

/-- The offset of `list` in a `struct console`, behind its function. -/
abbrev consoleListOff : BitVec 64 := 8#64

/-- The statics of `printk.c`, the links, and the consoles by their addresses: whether one has a
function `write`, and what that was given. -/
structure Log where
  links : ListHeap
  write : BitVec 64 → Bool
  texts : BitVec 64 → List (List (BitVec 8))
  loglevel : BitVec 32
  curlevel : BitVec 32
  /-- `buf` of `vprintk` -/
  buf : ℕ → BitVec 8

/-- `register_console`, with `console_drivers` at `head`. -/
def registerConsole (head : BitVec 64) (st : Log) (newcon : BitVec 64) : Log :=
  { st with links := listAddTail st.links (newcon + consoleListOff) head }

/-- Where a call of `vprintk` is: in front of one of the calls that it makes, or in its loop over
the consoles. -/
inductive PrintkAt where
  /-- at the comparison of the levels -/
  | level (c : PrintkCall)
  /-- at `pr_prefix`, or at `cont` -/
  | start (c : PrintkCall)
  /-- at `vscnprintf` -/
  | format (c : PrintkCall) (len : ℕ)
  /-- at the condition of `for_each_console`, with `con` at `pos` -/
  | loop (len : ℕ) (pos : BitVec 64)

/-- `con->write(con, buf, len)`, if there is such a function. -/
def Log.give (st : Log) (len : ℕ) (con : BitVec 64) : Log :=
  if st.write con then
    { st with texts := Function.update st.texts con (st.texts con ++ [block st.buf 0 len]) }
  else st

/-- The next step of `vprintk` with the lock, from one such place to the next. -/
def printkStep (mem : Memory) (tscKhz head : BitVec 64) :
    PrintkAt → Log → Exec (Option PrintkAt × Log)
  | .level c, st =>
    let thislevel := if c.level = loglevelCont then st.curlevel else c.level
    if st.loglevel.slt thislevel then .ok (none, st) else .ok (some (.start c), st)
  | .start c, st => do
    let (buf, len) ← lineStart mem tscKhz c st.buf
    return (some (.format c len), { st with buf := buf })
  | .format c len, st => do
    let (tail, n) ← vscnprintf mem (fun i => st.buf (len + i)) (BitVec.ofNat 64 (logLineMax - len))
      c.fmt c.args
    let buf := fun i => if i < len then st.buf i else tail (i - len)
    return (some (.loop (len + n.toNat) (listFirstEntry st.links head consoleListOff)),
      { st with buf := buf })
  | .loop len pos, st =>
    if pos + consoleListOff = head then .ok (none, st)
    else
      let st := st.give len pos
      .ok (some (.loop len (listNextEntry st.links pos consoleListOff)), st)

/-- What `Lvisor.Printk` sees of the state, with these consoles. -/
def Log.view (st : Log) (cons : List (BitVec 64)) : PrintkState where
  consoleDrivers := cons.map fun a => ⟨st.write a, st.texts a⟩
  loglevel := st.loglevel
  curlevel := st.curlevel
  buf := st.buf

/-- The consoles are those in the list, in the order of the ring. -/
def Log.Registered (head : BitVec 64) (cons : List (BitVec 64)) (st : Log) : Prop :=
  Ring st.links head (cons.map (· + consoleListOff))

/-! ## Registering -/

section Registering

variable {head : BitVec 64} {cons more : List (BitVec 64)} {st : Log}

theorem Log.Registered.register {con : BitVec 64} (hreg : st.Registered head cons)
    (hcon : con + consoleListOff ∉ head :: cons.map (· + consoleListOff)) :
    (registerConsole head st con).Registered head (cons ++ [con]) := by
  have hring := hreg.addTail hcon
  rw [Log.Registered, List.map_append]
  exact hring

theorem Log.Registered.registerAll (hreg : st.Registered head cons)
    (hnodup : (head :: (cons ++ more).map (· + consoleListOff)).Nodup) :
    (more.foldl (registerConsole head) st).Registered head (cons ++ more) := by
  induction more generalizing st cons with
  | nil => rwa [List.append_nil]
  | cons con more ih =>
    have hsplit : cons ++ con :: more = cons ++ [con] ++ more := List.append_cons cons con more
    rw [hsplit] at hnodup ⊢
    refine ih (hreg.register ?_) hnodup
    rw [List.map_append, List.map_append, ← List.cons_append, ← List.cons_append,
      List.nodup_append'] at hnodup
    have hfirst := (List.nodup_append'.mp hnodup.1).2.2
    exact fun hmem => hfirst hmem (List.mem_singleton_self _)

end Registering

/-! ## One call

`vprintk` goes over the ring of the consoles with a pointer of its own. Between two of its steps
the consoles behind the pointer have the text, and those in front of it have not; `Printing` says
this of the state at each step. -/

/-- The state when these consoles have got a text. -/
def Log.given (st : Log) (text : List (BitVec 8)) (visited : List (BitVec 64)) : Log :=
  { st with texts := fun a =>
      if visited.contains a && st.write a then st.texts a ++ [text] else st.texts a }

/-- The level of a call is too high, so that nothing is written. -/
def Log.Skips (st : Log) (c : PrintkCall) : Bool :=
  st.loglevel.slt (if c.level = loglevelCont then st.curlevel else c.level)

/-- Where a call that started in `st₀` is, and what it has done so far. -/
def Printing (mem : Memory) (tscKhz head : BitVec 64) (cons : List (BitVec 64)) (st₀ : Log)
    (c : PrintkCall) : PrintkAt → Log → Prop
  | .level c', st => c' = c ∧ st = st₀
  | .start c', st => c' = c ∧ st = st₀ ∧ st₀.Skips c = false
  | .format c' len, st => c' = c ∧ st₀.Skips c = false ∧
      ∃ buf : ℕ → BitVec 8, lineStart mem tscKhz c st₀.buf = .ok (buf, len) ∧
        st = { st₀ with buf := buf }
  | .loop len pos, st => ∃ (buf : ℕ → BitVec 8) (visited rest : List (BitVec 64)),
      cons = visited ++ rest ∧ pos = rest.headD (head - consoleListOff) ∧
      vprintk mem tscKhz (st₀.view cons) c = .ok (some (block buf 0 len),
        (({ st₀ with buf := buf } : Log).given (block buf 0 len) cons).view cons) ∧
      st = ({ st₀ with buf := buf } : Log).given (block buf 0 len) visited

section Call

variable {mem : Memory} {tscKhz head : BitVec 64} {cons visited rest : List (BitVec 64)}
  {st₀ st st' : Log} {c : PrintkCall} {r r' : PrintkAt} {a : BitVec 64}
  {text : List (BitVec 8)} {len : ℕ}

theorem Log.texts_given_of_not (h : ¬(a ∈ visited ∧ st.write a = true)) :
    (st.given text visited).texts a = st.texts a := by
  refine if_neg fun hand => h ?_
  obtain ⟨hcontains, hwrite⟩ := Bool.and_eq_true_iff.mp hand
  exact ⟨List.contains_iff_mem.mp hcontains, hwrite⟩

theorem Log.given_nil : st.given text [] = st := by
  have htexts : (st.given text []).texts = st.texts :=
    funext fun b => Log.texts_given_of_not fun hmem => List.not_mem_nil hmem.1
  exact congrArg (fun t => ({ st with texts := t } : Log)) htexts

/-- One console more has the text. -/
theorem Log.given_give (htext : text = block st.buf 0 len) (ha : a ∉ visited) :
    (st.given text visited).give len a = st.given text (visited ++ [a]) := by
  have hold : (st.given text visited).texts a = st.texts a :=
    Log.texts_given_of_not fun hmem => ha hmem.1
  have hother : ∀ b, b ≠ a → (st.given text (visited ++ [a])).texts b =
      (st.given text visited).texts b := by
    intro b hb
    simp [Log.given, hb]
  have hlast : (st.given text (visited ++ [a])).texts a =
      if st.write a = true then st.texts a ++ [text] else st.texts a := by
    simp [Log.given]
  have heq : ∀ t, t = (st.given text (visited ++ [a])).texts →
      ({ st with texts := t } : Log) = st.given text (visited ++ [a]) := fun t ht => ht ▸ rfl
  by_cases hwrite : st.write a = true
  · rw [if_pos hwrite] at hlast
    rw [Log.give, if_pos (show (st.given text visited).write a = true from hwrite)]
    refine heq _ (funext fun b => ?_)
    by_cases hb : b = a
    · rw [hb, Function.update_self, hold, hlast, htext]
      rfl
    · rw [Function.update_of_ne hb, hother b hb]
  · rw [if_neg hwrite] at hlast
    rw [Log.give, if_neg (show ¬(st.given text visited).write a = true from hwrite)]
    refine heq (st.given text visited).texts (funext fun b => ?_)
    by_cases hb : b = a
    · rw [hb, hold, hlast]
    · exact (hother b hb).symm

/-- The consoles of `Lvisor.Printk` when all of these have got a text. -/
theorem Log.view_given :
    ((st.given text cons).view cons).consoleDrivers =
      (st.view cons).consoleDrivers.map (Console.give text) := by
  rw [Log.view, Log.view, List.map_map]
  refine List.map_congr_left fun b hb => ?_
  by_cases hwrite : st.write b = true
  · simp [Log.given, Console.give, hb, hwrite]
  · simp [Log.given, Console.give, hwrite]

/-- The next entry of the list, or its head behind the last one. -/
theorem Log.Registered.next (hreg : st.Registered head (visited ++ a :: rest)) :
    listNextEntry st.links a consoleListOff = rest.headD (head - consoleListOff) := by
  have hseg := hreg.seg
  rw [List.map_append, List.map_cons] at hseg
  have hnext := (seg_append.mp hseg).2.next_eq
  rw [listNextEntry, listEntry, hnext]
  cases rest with
  | nil => rfl
  | cons b rest => exact BitVec.add_sub_cancel b consoleListOff

theorem Log.Registered.first (hreg : st.Registered head cons) :
    listFirstEntry st.links head consoleListOff = cons.headD (head - consoleListOff) := by
  have hnext := hreg.seg.next_eq
  rw [listFirstEntry, listEntry, hnext]
  cases cons with
  | nil => rfl
  | cons b rest => exact BitVec.add_sub_cancel b consoleListOff

theorem vprintk_skips (hskip : st.Skips c = true) :
    vprintk mem tscKhz (st.view cons) c = .ok (none, st.view cons) := if_pos hskip

/-- A call that is not skipped, by what it formats. -/
theorem vprintk_writes {buf tail : ℕ → BitVec 8} {n : BitVec 32} (hskip : st.Skips c = false)
    (hstart : lineStart mem tscKhz c st.buf = .ok (buf, len))
    (hformat : vscnprintf mem (fun i => buf (len + i)) (BitVec.ofNat 64 (logLineMax - len)) c.fmt
      c.args = .ok (tail, n)) :
    let buf' := fun i => if i < len then buf i else tail (i - len)
    let text := block buf' 0 (len + n.toNat)
    vprintk mem tscKhz (st.view cons) c =
      .ok (some text, (({ st with buf := buf' } : Log).given text cons).view cons) := by
  intro buf' text
  refine (if_neg (Bool.eq_false_iff.mp hskip)).trans ?_
  refine Exec.bind_eq_ok.mpr ⟨_, hstart, Exec.bind_eq_ok.mpr ⟨_, hformat, ?_⟩⟩
  have hdrivers : (st.view cons).consoleDrivers.map (Console.give text) =
      ((({ st with buf := buf' } : Log).given text cons).view cons).consoleDrivers :=
    Log.view_given.symm
  exact congrArg (fun d => Except.ok (some text,
    { st.view cons with consoleDrivers := d, buf := buf' })) hdrivers

/-- **A step** of a call that is not its last one keeps `Printing`. -/
theorem Printing.step (hreg : st₀.Registered head cons)
    (h : Printing mem tscKhz head cons st₀ c r st)
    (hstep : printkStep mem tscKhz head r st = .ok (some r', st')) :
    Printing mem tscKhz head cons st₀ c r' st' := by
  cases r with
  | level c' =>
    obtain ⟨rfl, rfl⟩ := h
    cases hskip : st.Skips c' with
    | true => exact absurd ((if_pos hskip).symm.trans hstep) (by simp)
    | false =>
      have heq := (if_neg (Bool.eq_false_iff.mp hskip)).symm.trans hstep
      obtain ⟨hr', rfl⟩ := Prod.mk.inj (Except.ok.inj heq)
      obtain rfl := Option.some.inj hr'
      exact ⟨rfl, rfl, hskip⟩
  | start c' =>
    obtain ⟨rfl, rfl, hskip⟩ := h
    obtain ⟨⟨buf, len⟩, hstart, hstep⟩ := Exec.bind_eq_ok.mp hstep
    obtain ⟨hr', rfl⟩ := Prod.mk.inj (Except.ok.inj hstep)
    obtain rfl := Option.some.inj hr'
    exact ⟨rfl, hskip, buf, hstart, rfl⟩
  | format c' len =>
    obtain ⟨rfl, hskip, buf, hstart, rfl⟩ := h
    obtain ⟨⟨tail, n⟩, hformat, hstep⟩ := Exec.bind_eq_ok.mp hstep
    obtain ⟨hr', rfl⟩ := Prod.mk.inj (Except.ok.inj hstep)
    obtain rfl := Option.some.inj hr'
    exact ⟨_, [], cons, rfl, hreg.first, vprintk_writes hskip hstart hformat,
      Log.given_nil.symm⟩
  | loop len pos =>
    obtain ⟨buf, visited, rest, hcons, hpos, hprintk, rfl⟩ := h
    cases rest with
    | nil =>
      have hend : pos + consoleListOff = head := by
        rw [hpos]
        exact BitVec.sub_add_cancel head consoleListOff
      exact absurd ((if_pos hend).symm.trans hstep) (by simp)
    | cons a rest =>
      obtain rfl : pos = a := hpos
      have hnodup := hreg.nodup
      rw [hcons, List.map_append, List.map_cons] at hnodup
      have hmore : pos + consoleListOff ≠ head := by
        rintro rfl
        exact (List.nodup_cons.mp hnodup).1 (List.mem_append_right _ List.mem_cons_self)
      have hnew : pos ∉ visited := fun hmem =>
        (List.nodup_append'.mp (List.nodup_cons.mp hnodup).2).2.2 (List.mem_map_of_mem hmem)
          List.mem_cons_self
      have heq := (if_neg hmore).symm.trans hstep
      obtain ⟨hr', rfl⟩ := Prod.mk.inj (Except.ok.inj heq)
      obtain rfl := Option.some.inj hr'
      rw [Log.given_give rfl hnew]
      refine ⟨buf, visited ++ [pos], rest, ?_, ?_, hprintk, rfl⟩
      · rw [hcons, List.append_assoc]
        rfl
      · exact Log.Registered.next (hcons ▸ hreg)

/-- The last step of a call changes nothing: the message is skipped, or the list is at its end. -/
theorem printkStep_last (hstep : printkStep mem tscKhz head r st = .ok (none, st')) :
    st' = st ∧ ((∃ c, r = .level c ∧ st.Skips c) ∨
      ∃ len pos, r = .loop len pos ∧ pos + consoleListOff = head) := by
  cases r with
  | level c' =>
    cases hskip : st.Skips c' with
    | true =>
      obtain ⟨-, rfl⟩ := Prod.mk.inj (Except.ok.inj ((if_pos hskip).symm.trans hstep))
      exact ⟨rfl, .inl ⟨c', rfl, hskip⟩⟩
    | false =>
      exact absurd ((if_neg (Bool.eq_false_iff.mp hskip)).symm.trans hstep) (by simp)
  | start c' =>
    obtain ⟨_, -, hstep⟩ := Exec.bind_eq_ok.mp hstep
    cases hstep
  | format c' len =>
    obtain ⟨_, -, hstep⟩ := Exec.bind_eq_ok.mp hstep
    cases hstep
  | loop len pos =>
    by_cases hend : pos + consoleListOff = head
    · obtain ⟨-, rfl⟩ := Prod.mk.inj (Except.ok.inj ((if_pos hend).symm.trans hstep))
      exact ⟨rfl, .inr ⟨len, pos, rfl, hend⟩⟩
    · exact absurd ((if_neg hend).symm.trans hstep) (by simp)

/-- The end of a call: all consoles have the text, and the state is that of a whole call. -/
theorem Printing.last (hreg : st₀.Registered head cons)
    (h : Printing mem tscKhz head cons st₀ c r st)
    (hstep : printkStep mem tscKhz head r st = .ok (none, st')) :
    (∃ text, vprintk mem tscKhz (st₀.view cons) c = .ok (text, st'.view cons)) ∧
      st'.links = st₀.links := by
  obtain ⟨rfl, ⟨c', rfl, hskip⟩ | ⟨len, pos, rfl, hend⟩⟩ := printkStep_last hstep
  · obtain ⟨rfl, rfl⟩ := h
    exact ⟨⟨none, vprintk_skips hskip⟩, rfl⟩
  · obtain ⟨buf, visited, rest, hcons, hpos, hprintk, rfl⟩ := h
    cases rest with
    | nil =>
      obtain rfl : cons = visited := hcons.trans (List.append_nil visited)
      exact ⟨⟨_, hprintk⟩, rfl⟩
    | cons a rest =>
      -- a console that is left is not the head of the list
      obtain rfl : pos = a := hpos
      have hnodup := hreg.nodup
      rw [hcons, List.map_append, List.map_cons, hend] at hnodup
      exact absurd (List.mem_append_right _ List.mem_cons_self) (List.nodup_cons.mp hnodup).1

end Call

/-! ## Several processors -/

section Smp

variable {mem : Memory} {tscKhz head : BitVec 64} {cons : List (BitVec 64)} {st st' : Log}
  {cs : List PrintkCall}

end Smp

end Lvisor
