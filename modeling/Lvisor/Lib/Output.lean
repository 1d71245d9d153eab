import Mathlib.Data.List.GetD

/-!
# Output to a bounded buffer

A program emits elements one after the other. Those before the end of the buffer are stored, and
the position goes on behind it, so that it counts what was emitted.

* `overlay` — a buffer with a list written over it, for copies of blocks;
* `Output.puts_eq` — elements that are put one by one, as one copy of those that fit;
* `Emits`, `Oblivious` — a program emits a list that depends neither on the end of the buffer nor
  on what is in it; rules for sequences of such programs;
* `Oblivious.truncates` — the output of such a program with an end is a prefix of its output
  without one.
-/

namespace Lvisor

universe u v

variable {α : Type u}

/-! ## Blocks -/

/-- `buf` with `l` written over it from `p` on. -/
def overlay (buf : ℕ → α) (p : ℕ) (l : List α) : ℕ → α :=
  fun i => if p ≤ i then l.getD (i - p) (buf i) else buf i

section Overlay

variable {buf : ℕ → α} {p i : ℕ} {l l' : List α}

theorem overlay_of_lt (h : i < p) : overlay buf p l i = buf i :=
  if_neg (Nat.not_le.mpr h)

theorem overlay_of_le (h : p + l.length ≤ i) : overlay buf p l i = buf i := by
  unfold overlay
  rw [if_pos (by omega), List.getD_eq_default _ _ (by omega)]

theorem overlay_add (h : i < l.length) : overlay buf p l (p + i) = l[i] := by
  unfold overlay
  rw [if_pos (Nat.le_add_right p i), Nat.add_sub_cancel_left, List.getD_eq_getElem _ _ h]

@[simp] theorem overlay_nil : overlay buf p [] = buf := by
  funext i
  simp [overlay]

/-- Two blocks, one behind the other, are one. -/
theorem overlay_append :
    overlay buf p (l ++ l') = overlay (overlay buf p l) (p + l.length) l' := by
  funext i
  by_cases hp : i < p
  · rw [overlay_of_lt hp, overlay_of_lt (by omega), overlay_of_lt hp]
  obtain ⟨k, rfl⟩ := Nat.exists_eq_add_of_le (Nat.not_lt.mp hp)
  by_cases hl : k < l.length
  · rw [overlay_add (by rw [List.length_append]; omega), overlay_of_lt (by omega), overlay_add hl,
      List.getElem_append_left hl]
  obtain ⟨j, rfl⟩ := Nat.exists_eq_add_of_le (Nat.not_lt.mp hl)
  by_cases hj : j < l'.length
  · rw [overlay_add (by rw [List.length_append]; omega), ← Nat.add_assoc, overlay_add hj,
      List.getElem_append_right (Nat.le_add_right _ _)]
    simp
  · rw [overlay_of_le (by rw [List.length_append]; omega), overlay_of_le (by omega),
      overlay_of_le (by omega)]

/-- The same, with the second block written first. -/
theorem overlay_append_comm (buf : ℕ → α) (p : ℕ) (l l' : List α) :
    overlay buf p (l ++ l') = overlay (overlay buf (p + l.length) l') p l := by
  funext i
  by_cases hp : i < p
  · rw [overlay_of_lt hp, overlay_of_lt hp, overlay_of_lt (by omega)]
  obtain ⟨k, rfl⟩ := Nat.exists_eq_add_of_le (Nat.not_lt.mp hp)
  by_cases hl : k < l.length
  · rw [overlay_add (by rw [List.length_append]; omega), overlay_add hl,
      List.getElem_append_left hl]
  · rw [overlay_append, overlay_of_le (l := l) (by omega)]
    unfold overlay
    rw [if_pos (by omega), if_pos (by omega), if_pos (by omega),
      List.getD_eq_default (n := p + k - p) _ _ (by omega)]

/-- A block that covers another is all that is left of both. -/
theorem overlay_overlay (h : l.length ≤ l'.length) :
    overlay (overlay buf p l) p l' = overlay buf p l' := by
  funext i
  by_cases hp : i < p
  · rw [overlay_of_lt hp, overlay_of_lt hp, overlay_of_lt hp]
  obtain ⟨k, rfl⟩ := Nat.exists_eq_add_of_le (Nat.not_lt.mp hp)
  by_cases hl : k < l'.length
  · rw [overlay_add hl, overlay_add hl]
  · rw [overlay_of_le (by omega), overlay_of_le (by omega), overlay_of_le (by omega)]

/-- A block behind padding, where the two cover what was there before. -/
theorem overlay_pad {c : α} {n : ℕ} (h : l.length ≤ n + l'.length) :
    overlay (overlay (overlay buf p l) (p + n) l') p (List.replicate n c) =
      overlay buf p (List.replicate n c ++ l') := by
  have hn : (List.replicate n c).length = n := List.length_replicate
  have hcover : l.length ≤ (List.replicate n c ++ l').length := by
    rw [List.length_append, hn]
    exact h
  have hcomm := overlay_append_comm (overlay buf p l) p (List.replicate n c) l'
  rw [hn] at hcomm
  rw [← hcomm, overlay_overlay hcover]

end Overlay

/-- `n` elements of a buffer, from `p` on. -/
def block (buf : ℕ → α) (p n : ℕ) : List α :=
  (List.range n).map fun i => buf (p + i)

theorem block_overlay {buf : ℕ → α} {p n : ℕ} {l : List α} (h : n ≤ l.length) :
    block (overlay buf p l) p n = l.take n := by
  refine List.ext_getElem (by simp [block, h]) fun i hi _ => ?_
  have hin : i < l.length := Nat.lt_of_lt_of_le (by simpa [block] using hi) h
  simp [block, overlay_add hin]

/-! ## Output -/

/-- A buffer, and the position that the next element goes to. -/
structure Output (α : Type u) where
  buf : ℕ → α
  pos : ℕ

/-- A position before the end, if there is one. -/
def fits : Option ℕ → ℕ → Bool
  | none, _ => true
  | some n, i => i < n

/-- What fits of a list that is written from `p` on. -/
def cut : Option ℕ → ℕ → List α → List α
  | none, _, l => l
  | some n, p, l => l.take (n - p)

namespace Output

variable {stop : Option ℕ} {o : Output α} {l l' : List α}

/-- Store an element if it fits, and go on. -/
def put (stop : Option ℕ) (o : Output α) (c : α) : Output α :=
  ⟨if fits stop o.pos then overlay o.buf o.pos [c] else o.buf, o.pos + 1⟩

/-- Put the elements of a list, each where the last one has ended. -/
def puts (stop : Option ℕ) (o : Output α) (l : List α) : Output α :=
  l.foldl (put stop) o

/-- Put `n` times the same element. -/
def fill (stop : Option ℕ) (c : α) : ℕ → Output α → Output α
  | 0, o => o
  | n + 1, o => fill stop c n (o.put stop c)

@[simp] theorem puts_nil : o.puts stop [] = o := rfl

theorem puts_cons {c : α} : o.puts stop (c :: l) = (o.put stop c).puts stop l := rfl

theorem puts_append : o.puts stop (l ++ l') = (o.puts stop l).puts stop l' :=
  List.foldl_append

theorem fill_eq (c : α) (n : ℕ) : fill stop c n o = o.puts stop (List.replicate n c) := by
  induction n generalizing o with
  | zero => rfl
  | succ n ih => rw [fill, ih, List.replicate_succ, puts_cons]

/-- **Elements one by one**: they are as good as one copy of those that fit. -/
theorem puts_eq : o.puts stop l = ⟨overlay o.buf o.pos (cut stop o.pos l), o.pos + l.length⟩ := by
  induction l generalizing o with
  | nil => cases stop <;> simp [cut]
  | cons c l ih =>
    rw [puts_cons, ih, put, List.length_cons, Nat.add_assoc, Nat.add_comm 1]
    congr 1
    rcases stop with _ | n
    · exact (overlay_append (l := [c])).symm
    · by_cases hfit : o.pos < n
      · have hsucc : n - o.pos = n - (o.pos + 1) + 1 := by omega
        simp only [fits, cut, hfit, decide_true, if_true]
        rw [hsucc, List.take_succ_cons]
        exact (overlay_append (l := [c])).symm
      · have hzero : n - o.pos = 0 := by omega
        have hzero' : n - (o.pos + 1) = 0 := by omega
        simp [fits, cut, hfit, hzero, hzero']

theorem puts_pos : (o.puts stop l).pos = o.pos + l.length := by
  rw [puts_eq]

/-- A copy of what fits of a list, while the position goes on by all of it. -/
def copy (stop : Option ℕ) (o : Output α) (l : List α) : Output α :=
  ⟨if fits stop o.pos then overlay o.buf o.pos (cut stop o.pos l) else o.buf, o.pos + l.length⟩

theorem copy_eq : o.copy stop l = o.puts stop l := by
  rw [puts_eq, copy]
  congr 1
  rcases stop with _ | n
  · rfl
  · by_cases hfit : o.pos < n
    · simp [fits, hfit]
    · have hzero : n - o.pos = 0 := by omega
      simp [fits, cut, hfit, hzero]

end Output

/-! ## Programs that do not look at the buffer

An oblivious program emits the same list at every position, with every end, and over every
buffer. Sequences of such programs are oblivious, and so is a choice between them that does not
depend on the output. -/

/-- `f` emits `l`, wherever the buffer ends and whatever is in it. -/
def Emits (f : Option ℕ → Output α → Output α) (l : List α) : Prop :=
  ∀ stop o, f stop o = o.puts stop l

namespace Emits

variable {f g : Option ℕ → Output α → Output α} {l l' : List α}

theorem nothing : Emits (fun _ o => o) ([] : List α) :=
  fun _ _ => rfl

theorem put (c : α) : Emits (fun stop o => o.put stop c) [c] :=
  fun _ _ => rfl

theorem puts (l : List α) : Emits (fun stop o => o.puts stop l) l :=
  fun _ _ => rfl

theorem fill (c : α) (n : ℕ) : Emits (fun stop o => o.fill stop c n) (List.replicate n c) :=
  fun _ _ => Output.fill_eq c n

theorem copy (l : List α) : Emits (fun stop o => o.copy stop l) l :=
  fun _ _ => Output.copy_eq

/-- One program after the other emits both texts. -/
theorem comp (hf : Emits f l) (hg : Emits g l') :
    Emits (fun stop o => g stop (f stop o)) (l ++ l') := by
  intro stop o
  dsimp only
  rw [hg, hf, Output.puts_append]

/-- A choice that does not look at the buffer. -/
theorem ite {c : Prop} [Decidable c] (hf : Emits f l) (hg : Emits g l') :
    Emits (fun stop o => if c then f stop o else g stop o) (if c then l else l') := by
  intro stop o
  dsimp only
  by_cases hc : c
  · rw [if_pos hc, if_pos hc, hf]
  · rw [if_neg hc, if_neg hc, hg]

end Emits

section Oblivious

variable {ε : Type v} {σ τ : Type u}

/-- A program that may fail and that has a result: both, and what it emits, depend neither on the
end of the buffer nor on what is in it. -/
def Oblivious (f : Option ℕ → Output α → Except ε (σ × Output α)) : Prop :=
  ∃ r : Except ε (σ × List α), ∀ stop o, f stop o = r.map fun x => (x.1, o.puts stop x.2)

namespace Oblivious

theorem error (e : ε) :
    Oblivious (fun _ _ => .error e : Option ℕ → Output α → Except ε (σ × Output α)) :=
  ⟨.error e, fun _ _ => rfl⟩

theorem ok {f : Option ℕ → Output α → Output α} {l : List α} (hf : Emits f l) (s : σ) :
    Oblivious (fun stop o => (.ok (s, f stop o) : Except ε (σ × Output α))) :=
  ⟨.ok (s, l), fun stop o => congrArg (fun o' => Except.ok (s, o')) (hf stop o)⟩

/-- One program after the other. -/
theorem bind {f : Option ℕ → Output α → Except ε (σ × Output α)}
    {g : Option ℕ → σ × Output α → Except ε (τ × Output α)} (hf : Oblivious f)
    (hg : ∀ s, Oblivious fun stop o => g stop (s, o)) :
    Oblivious fun stop o => f stop o >>= g stop := by
  obtain ⟨r, hr⟩ := hf
  rcases r with e | ⟨s, l⟩
  · refine ⟨.error e, fun stop o => ?_⟩
    have hstep : f stop o = .error e := hr stop o
    dsimp only
    rw [hstep]
    rfl
  · obtain ⟨r', hr'⟩ := hg s
    refine ⟨r'.map fun x => (x.1, l ++ x.2), fun stop o => ?_⟩
    have hstep : f stop o = .ok (s, o.puts stop l) := hr stop o
    dsimp only
    rw [hstep]
    have hnext := hr' stop (o.puts stop l)
    rcases r' with e | ⟨t, l'⟩
    · exact hnext
    · refine hnext.trans (congrArg (fun o' => Except.ok (t, o')) ?_)
      exact Output.puts_append.symm

/-- A computation that has nothing to do with the buffer comes first. -/
theorem bind_const {x : Except ε τ} {g : τ → Option ℕ → Output α → Except ε (σ × Output α)}
    (hg : ∀ a, Oblivious (g a)) : Oblivious fun stop o => x >>= fun a => g a stop o := by
  rcases x with e | a
  · exact error e
  · exact hg a

/-- A choice that does not look at the buffer. -/
theorem ite {c : Prop} [Decidable c] {f g : Option ℕ → Output α → Except ε (σ × Output α)}
    (hf : Oblivious f) (hg : Oblivious g) :
    Oblivious fun stop o => if c then f stop o else g stop o := by
  by_cases hc : c
  · simpa only [if_pos hc] using hf
  · simpa only [if_neg hc] using hg

/-- **Truncation**: with an end, such a program leaves the prefix that fits of what it emits
without one, and its position is the same. -/
theorem truncates {f : Option ℕ → Output α → Except ε (σ × Output α)} (hf : Oblivious f)
    {buf₀ : ℕ → α} {s : σ} {o : Output α} (h : f none ⟨buf₀, 0⟩ = .ok (s, o)) (n : ℕ)
    (buf : ℕ → α) :
    f (some n) ⟨buf, 0⟩ = .ok (s, ⟨overlay buf 0 ((block o.buf 0 o.pos).take n), o.pos⟩) := by
  obtain ⟨r, hr⟩ := hf
  rw [hr] at h ⊢
  rcases r with e | ⟨s', l⟩
  · cases h
  obtain ⟨rfl, rfl⟩ := Prod.mk.inj (Except.ok.inj h)
  have hblock : block ((⟨buf₀, 0⟩ : Output α).puts none l).buf 0 l.length = l := by
    have hputs : ((⟨buf₀, 0⟩ : Output α).puts none l).buf = overlay buf₀ 0 l := by
      rw [Output.puts_eq]
      rfl
    rw [hputs, block_overlay (Nat.le_refl _), List.take_length]
  rw [Output.puts_pos, Nat.zero_add, hblock]
  refine congrArg (fun o => Except.ok (s', o)) ?_
  rw [Output.puts_eq, Nat.zero_add]
  rfl

end Oblivious

end Oblivious

end Lvisor
