import Mathlib.Data.List.Chain
import Mathlib.Data.List.Sort
import Mathlib.Order.MinMax

/-!
# Piecewise constant maps and their exact description

A map `t : α → V` on a linear order, with `0 : V` for "nothing here", is described
by a list of half-open pieces. The *runs* of `t` are the maximal pieces on which
it is constant and not `0`, and its *exact map* is the list of all its runs in
order.

* `Canonical` — a local condition on a list: non-empty pieces with non-zero values,
  in order, where pieces that touch have different values;
* `Canonical.isExactMap` — a canonical list is the exact map of what it describes;
* `IsExactMap.unique` — a map has one exact map.

The second half is the builder of a sweep: it reads addresses in non-decreasing
order, each with the value from there on, and closes a piece when the value
changes. Several values may be seen at one address; only the last one counts
(`Sweep.At` is the invariant), provided that the value never *returns* to the
one before the address once it has left it.
-/

namespace Lvisor

universe u v

variable {α : Type u} {V : Type v}

/-- The half-open piece `[lo, hi)` with a value. -/
@[ext] structure Piece (α : Type u) (V : Type v) where
  /-- the first address -/
  lo : α
  /-- the first address past the end -/
  hi : α
  /-- the value on the piece -/
  val : V
  deriving DecidableEq, Repr

section Order

variable [LinearOrder α]

/-- `a` lies in the piece. -/
def Piece.Contains (p : Piece α V) (a : α) : Prop := p.lo ≤ a ∧ a < p.hi

instance (p : Piece α V) (a : α) : Decidable (p.Contains a) :=
  inferInstanceAs (Decidable (_ ∧ _))

variable [Zero V]

/-- The value a list of pieces gives to an address: that of the first piece that
contains it, `0` when none does. -/
def lookup : List (Piece α V) → α → V
  | [], _ => 0
  | p :: l, a => if p.Contains a then p.val else lookup l a

/-! ## Runs and the exact map

The exact map of `t` has all that can be said about `t` with the fewest pieces. It is defined by
the runs of `t` and not by an algorithm, so that there is something to compare an algorithm with. -/

/-- `p` is a run of `t`: a maximal piece on which `t` is constant and not `0`. -/
structure IsRun (t : α → V) (p : Piece α V) : Prop where
  lt : p.lo < p.hi
  ne_zero : p.val ≠ 0
  const : ∀ a, p.Contains a → t a = p.val
  maximal : ∀ lo hi, lo ≤ p.lo → p.hi ≤ hi → (∀ a, lo ≤ a → a < hi → t a = p.val) →
    lo = p.lo ∧ hi = p.hi

/-- The exact map of `t`: all its runs, in order. -/
def IsExactMap (t : α → V) (l : List (Piece α V)) : Prop :=
  l.Pairwise (fun p q => p.lo < q.lo) ∧ ∀ p, p ∈ l ↔ IsRun t p

/-- A map has at most one exact list of pieces. -/
theorem IsExactMap.unique {t : α → V} {l l' : List (Piece α V)}
    (h : IsExactMap t l) (h' : IsExactMap t l') : l = l' := by
  have hnd : ∀ {k : List (Piece α V)}, k.Pairwise (fun p q => p.lo < q.lo) → k.Nodup :=
    fun hk => hk.imp fun hlt heq => absurd (heq ▸ hlt) (lt_irrefl _)
  have hperm : l.Perm l' :=
    (List.perm_ext_iff_of_nodup (hnd h.1) (hnd h'.1)).mpr fun p => (h.2 p).trans (h'.2 p).symm
  refine List.Perm.eq_of_pairwise ?_ h.1 h'.1 hperm
  intro p q _ _ hpq hqp
  exact absurd (lt_trans hpq hqp) (lt_irrefl _)

/-- Non-empty pieces with non-zero values, in order; pieces that touch differ. -/
structure Canonical (l : List (Piece α V)) : Prop where
  piece : ∀ p ∈ l, p.lo < p.hi ∧ p.val ≠ 0
  order : l.Pairwise fun p q => p.hi < q.lo ∨ (p.hi = q.lo ∧ p.val ≠ q.val)

/-- An exact map is canonical: two runs neither overlap nor join. -/
theorem IsExactMap.canonical {t : α → V} {l : List (Piece α V)} (h : IsExactMap t l) :
    Canonical l := by
  refine ⟨fun p hp => ⟨((h.2 p).mp hp).lt, ((h.2 p).mp hp).ne_zero⟩, h.1.imp_of_mem ?_⟩
  intro p q hp hq hlo
  have hp' := (h.2 p).mp hp
  have hq' := (h.2 q).mp hq
  rcases lt_trichotomy p.hi q.lo with hlt | heq | hgt
  · exact Or.inl hlt
  · refine Or.inr ⟨heq, fun hval => ?_⟩
    have hjoin : ∀ a, p.lo ≤ a → a < q.hi → t a = p.val := by
      intro a ha₁ ha₂
      rcases lt_or_ge a p.hi with ha | ha
      · exact hp'.const a ⟨ha₁, ha⟩
      · exact (hq'.const a ⟨heq ▸ ha, ha₂⟩).trans hval.symm
    have hle : p.hi < q.hi := heq ▸ hq'.lt
    exact absurd (hp'.maximal p.lo q.hi le_rfl (le_of_lt hle) hjoin).2 (ne_of_gt hle)
  · have hval : p.val = q.val :=
      (hp'.const q.lo ⟨le_of_lt hlo, hgt⟩).symm.trans (hq'.const q.lo ⟨le_rfl, hq'.lt⟩)
    have hjoin : ∀ a, p.lo ≤ a → a < max p.hi q.hi → t a = q.val := by
      intro a ha₁ ha₂
      rcases lt_or_ge a p.hi with ha | ha
      · exact (hp'.const a ⟨ha₁, ha⟩).trans hval
      · exact hq'.const a ⟨le_trans (le_of_lt hgt) ha,
          (lt_max_iff.mp ha₂).resolve_left (not_lt.mpr ha)⟩
    exact absurd (hq'.maximal p.lo _ (le_of_lt hlo) (le_max_right _ _) hjoin).1 (ne_of_lt hlo)

namespace Canonical

variable {l : List (Piece α V)}

theorem nil : Canonical ([] : List (Piece α V)) := ⟨by simp, List.Pairwise.nil⟩

theorem tail {p : Piece α V} (h : Canonical (p :: l)) : Canonical l :=
  ⟨fun q hq => h.piece q (List.mem_cons_of_mem _ hq), (List.pairwise_cons.mp h.order).2⟩

/-- Append a piece above all others. -/
theorem concat (h : Canonical l) {p : Piece α V} (hlt : p.lo < p.hi) (hne : p.val ≠ 0)
    (hall : ∀ q ∈ l, q.hi < p.lo ∨ (q.hi = p.lo ∧ q.val ≠ p.val)) : Canonical (l ++ [p]) := by
  constructor
  · intro q hq
    rcases List.mem_append.mp hq with hq | hq
    · exact h.piece q hq
    · obtain rfl := List.mem_singleton.mp hq
      exact ⟨hlt, hne⟩
  · refine List.pairwise_append.mpr ⟨h.order, List.pairwise_singleton _ _, ?_⟩
    intro q hq r hr
    obtain rfl := List.mem_singleton.mp hr
    exact hall q hq

/-- Every part of a canonical list is canonical. -/
theorem take (h : Canonical l) (n : ℕ) : Canonical (l.take n) :=
  ⟨fun p hp => h.piece p (List.mem_of_mem_take hp), h.order.sublist (List.take_sublist n l)⟩

end Canonical

/-! ## What a list says about an address

In a canonical list each address is in one piece at most, so that a lookup needs no order of
preference. The value changes at the ends of the pieces, and there only. -/

theorem lookup_eq_zero {l : List (Piece α V)} {a : α} (h : ∀ p ∈ l, ¬p.Contains a) :
    lookup l a = 0 := by
  induction l with
  | nil => rfl
  | cons p l ih =>
    rw [lookup, if_neg (h p (List.mem_cons_self ..))]
    exact ih fun q hq => h q (List.mem_cons_of_mem _ hq)

theorem lookup_append_left {l l' : List (Piece α V)} {a : α} (h : ∀ p ∈ l', ¬p.Contains a) :
    lookup (l ++ l') a = lookup l a := by
  induction l with
  | nil => exact lookup_eq_zero h
  | cons p l ih => rw [List.cons_append, lookup, lookup, ih]

theorem lookup_append_right {l l' : List (Piece α V)} {a : α} (h : ∀ p ∈ l, ¬p.Contains a) :
    lookup (l ++ l') a = lookup l' a := by
  induction l with
  | nil => rfl
  | cons p l ih =>
    rw [List.cons_append, lookup, if_neg (h p (List.mem_cons_self ..))]
    exact ih fun q hq => h q (List.mem_cons_of_mem _ hq)

/-- A non-zero value comes from a piece. -/
theorem exists_of_lookup_ne_zero {l : List (Piece α V)} {a : α} (h : lookup l a ≠ 0) :
    ∃ p ∈ l, p.Contains a ∧ p.val = lookup l a := by
  induction l with
  | nil => exact absurd rfl h
  | cons p l ih =>
    rw [lookup] at h ⊢
    by_cases hp : p.Contains a
    · rw [if_pos hp]
      exact ⟨p, List.mem_cons_self .., hp, rfl⟩
    · rw [if_neg hp] at h ⊢
      obtain ⟨q, hq, hc, hv⟩ := ih h
      exact ⟨q, List.mem_cons_of_mem _ hq, hc, hv⟩

namespace Canonical

variable {l : List (Piece α V)} {p q : Piece α V} {a : α}

/-- Two pieces of a canonical list are the same or one ends where the other has
not begun. -/
theorem eq_or_order (h : Canonical l) (hp : p ∈ l) (hq : q ∈ l) :
    p = q ∨ (p.hi < q.lo ∨ (p.hi = q.lo ∧ p.val ≠ q.val)) ∨
      (q.hi < p.lo ∨ (q.hi = p.lo ∧ q.val ≠ p.val)) := by
  induction l with
  | nil => cases hp
  | cons r l ih =>
    have hr := (List.pairwise_cons.mp h.order).1
    rcases List.mem_cons.mp hp with rfl | hp'
    · rcases List.mem_cons.mp hq with rfl | hq'
      · exact Or.inl rfl
      · exact Or.inr (Or.inl (hr q hq'))
    · rcases List.mem_cons.mp hq with rfl | hq'
      · exact Or.inr (Or.inr (hr p hp'))
      · exact ih h.tail hp' hq'

/-- Pieces of a canonical list are disjoint. -/
theorem eq_of_contains (h : Canonical l) (hp : p ∈ l) (hq : q ∈ l) (hpa : p.Contains a)
    (hqa : q.Contains a) : p = q := by
  rcases h.eq_or_order hp hq with heq | hlt | hlt
  · exact heq
  · have hle : p.hi ≤ q.lo := hlt.elim le_of_lt fun hh => le_of_eq hh.1
    exact absurd (lt_of_lt_of_le hpa.2 (le_trans hle hqa.1)) (lt_irrefl _)
  · have hle : q.hi ≤ p.lo := hlt.elim le_of_lt fun hh => le_of_eq hh.1
    exact absurd (lt_of_lt_of_le hqa.2 (le_trans hle hpa.1)) (lt_irrefl _)

/-- A canonical list gives each address of a piece the value of the piece. -/
theorem lookup_of_mem (h : Canonical l) (hp : p ∈ l) (hpa : p.Contains a) :
    lookup l a = p.val := by
  induction l with
  | nil => cases hp
  | cons r l ih =>
    rw [lookup]
    by_cases hra : r.Contains a
    · rw [if_pos hra, h.eq_of_contains (List.mem_cons_self ..) hp hra hpa]
    · rw [if_neg hra]
      rcases List.mem_cons.mp hp with rfl | hp'
      · exact absurd hpa hra
      · exact ih h.tail hp'

/-- The value changes at the end of a piece. -/
theorem lookup_hi_ne (h : Canonical l) (hp : p ∈ l) : lookup l p.hi ≠ p.val := by
  intro heq
  have hne : lookup l p.hi ≠ 0 := by
    rw [heq]
    exact (h.piece p hp).2
  obtain ⟨q, hq, hc, hv⟩ := exists_of_lookup_ne_zero hne
  rcases h.eq_or_order hp hq with rfl | (hlt | ⟨-, hval⟩) | hlt
  · exact lt_irrefl _ hc.2
  · exact lt_irrefl _ (lt_of_lt_of_le hlt hc.1)
  · exact hval (hv.trans heq).symm
  · have hle : q.hi ≤ p.lo := hlt.elim le_of_lt fun hh => le_of_eq hh.1
    exact lt_irrefl _ (lt_trans (lt_of_lt_of_le hc.2 hle) (h.piece p hp).1)

/-- A piece of a canonical list is a run of what the list describes. -/
theorem isRun (h : Canonical l) (hp : p ∈ l) : IsRun (lookup l) p where
  lt := (h.piece p hp).1
  ne_zero := (h.piece p hp).2
  const := fun _ ha => h.lookup_of_mem hp ha
  maximal := by
    intro lo hi hlo hhi hconst
    constructor
    · rcases lt_or_eq_of_le hlo with hlt | heq
      · -- the piece at `lo` ends at an address that still has the value of `p`
        exfalso
        have hlo' : lookup l lo = p.val := hconst lo le_rfl
          (lt_of_lt_of_le (lt_trans hlt (h.piece p hp).1) hhi)
        obtain ⟨r, hr, hc, hv⟩ := exists_of_lookup_ne_zero (by rw [hlo']; exact (h.piece p hp).2)
        have hrp : r.hi ≤ p.lo := by
          rcases h.eq_or_order hr hp with rfl | hlt' | hlt'
          · exact absurd (lt_of_lt_of_le hlt hc.1) (lt_irrefl _)
          · exact hlt'.elim le_of_lt fun hh => le_of_eq hh.1
          · have hle : p.hi ≤ r.lo := hlt'.elim le_of_lt fun hh => le_of_eq hh.1
            exact absurd (lt_of_lt_of_le (lt_trans hlt (h.piece p hp).1) (le_trans hle hc.1))
              (lt_irrefl _)
        apply h.lookup_hi_ne hr
        rw [hv, hlo']
        exact hconst r.hi (le_of_lt hc.2)
          (lt_of_le_of_lt hrp (lt_of_lt_of_le (h.piece p hp).1 hhi))
      · exact heq
    · rcases lt_or_eq_of_le hhi with hlt | heq
      · exact absurd (hconst p.hi (le_trans hlo (le_of_lt (h.piece p hp).1)) hlt)
          (h.lookup_hi_ne hp)
      · exact heq.symm

/-- **A canonical list is the exact map of what it describes.** -/
theorem isExactMap (h : Canonical l) {t : α → V} (ht : ∀ a, lookup l a = t a) :
    IsExactMap t l := by
  obtain rfl : lookup l = t := funext ht
  refine ⟨h.order.imp_of_mem ?_, fun p => ⟨fun hp => h.isRun hp, fun hrun => ?_⟩⟩
  · intro p q hp _ hpq
    have hle : p.hi ≤ q.lo := hpq.elim le_of_lt fun hh => le_of_eq hh.1
    exact lt_of_lt_of_le (h.piece p hp).1 hle
  · -- the piece at the start of the run is a run as well, and the two join
    have hlo : lookup l p.lo = p.val := hrun.const p.lo ⟨le_rfl, hrun.lt⟩
    obtain ⟨r, hr, hc, hv⟩ := exists_of_lookup_ne_zero (by rw [hlo]; exact hrun.ne_zero)
    have hval : r.val = p.val := hv.trans hlo
    have hjoin : ∀ a, r.lo ≤ a → a < max r.hi p.hi → lookup l a = p.val := by
      intro a hra ha
      rcases lt_or_ge a r.hi with har | har
      · rw [h.lookup_of_mem hr ⟨hra, har⟩, hval]
      · refine hrun.const a ⟨le_trans (le_of_lt hc.2) har, ?_⟩
        exact (lt_max_iff.mp ha).resolve_left (not_lt.mpr har)
    obtain ⟨hlo₁, hhi₁⟩ := hrun.maximal r.lo _ hc.1 (le_max_right _ _) hjoin
    obtain ⟨-, hhi₂⟩ := (h.isRun hr).maximal r.lo _ le_rfl (le_max_left _ _)
      (fun a h₁ h₂ => (hjoin a h₁ h₂).trans hval.symm)
    obtain rfl : r = p := Piece.ext hlo₁ (hhi₂.symm.trans hhi₁) hval
    exact hr

/-- Past the first piece, the rest of a list decides. -/
theorem lookup_cons_of_le {a : α} (ha : p.hi ≤ a) : lookup (p :: l) a = lookup l a :=
  if_neg fun hc => lt_irrefl _ (lt_of_lt_of_le hc.2 ha)

/-- A canonical list has a piece for each change of value along a list of addresses. -/
theorem length_le_of_isChain {as : List α} (h : Canonical l) (hne : ∀ a ∈ as, lookup l a ≠ 0)
    (hlt : as.Pairwise (· < ·)) (halt : as.IsChain fun a b => lookup l a ≠ lookup l b) :
    as.length ≤ l.length := by
  induction l generalizing as with
  | nil =>
    cases as with
    | nil => exact Nat.le_refl _
    | cons a as => exact absurd rfl (hne a (List.mem_cons_self ..))
  | cons p l ih =>
    -- addresses past `p` need a piece of the rest for each change
    have hrest {bs : List α} (hbs : ∀ b ∈ bs, b ∈ as) (hblt : bs.Pairwise (· < ·))
        (hbalt : bs.IsChain fun a b => lookup (p :: l) a ≠ lookup (p :: l) b)
        (hge : ∀ b ∈ bs, p.hi ≤ b) : bs.length ≤ l.length := by
      refine ih h.tail (fun b hb => ?_) hblt (hbalt.imp_of_mem_imp fun a b ha hb hab => ?_)
      · rw [← lookup_cons_of_le (hge b hb)]
        exact hne b (hbs b hb)
      · rwa [lookup_cons_of_le (hge a ha), lookup_cons_of_le (hge b hb)] at hab
    cases as with
    | nil => exact Nat.zero_le _
    | cons a as =>
      have hlt' := List.pairwise_cons.mp hlt
      by_cases hpa : p.Contains a
      · refine Nat.succ_le_succ (hrest (fun b hb => List.mem_cons_of_mem _ hb) hlt'.2 halt.tail ?_)
        -- the next address has another value, so it is past `p`, and so are all others
        cases as with
        | nil => exact nofun
        | cons b as =>
          have hb : p.hi ≤ b := by
            by_contra hb
            have hpb : p.Contains b :=
              ⟨le_trans hpa.1 (le_of_lt (hlt'.1 b (List.mem_cons_self ..))), not_le.mp hb⟩
            refine halt.rel ?_
            rw [h.lookup_of_mem (List.mem_cons_self ..) hpa,
              h.lookup_of_mem (List.mem_cons_self ..) hpb]
          intro c hc
          rcases List.mem_cons.mp hc with rfl | hc
          · exact hb
          · exact le_trans hb (le_of_lt ((List.pairwise_cons.mp hlt'.2).1 c hc))
      · refine Nat.le_succ_of_le (hrest (fun b hb => hb) hlt halt ?_)
        -- `a` lies in a piece of the rest
        have hne' : lookup l a ≠ 0 := by
          have := hne a (List.mem_cons_self ..)
          rwa [lookup, if_neg hpa] at this
        obtain ⟨q, hq, hqa, -⟩ := exists_of_lookup_ne_zero hne'
        have hpq : p.hi ≤ q.lo :=
          ((List.pairwise_cons.mp h.order).1 q hq).elim le_of_lt fun hh => le_of_eq hh.1
        have ha : p.hi ≤ a := le_trans hpq hqa.1
        intro c hc
        rcases List.mem_cons.mp hc with rfl | hc
        · exact ha
        · exact le_trans ha (le_of_lt (hlt'.1 c hc))

end Canonical

/-- An exact map describes its function, where that is `0` from some address on. -/
theorem IsExactMap.lookup_eq {V : Type v} [Zero V] {t : ℕ → V} {l : List (Piece ℕ V)}
    (h : IsExactMap t l) {b : ℕ} (hb : ∀ a, b ≤ a → t a = 0) (a : ℕ) : lookup l a = t a := by
  classical
  by_cases ha : t a = 0
  · rw [ha]
    refine lookup_eq_zero fun p hp hpa => ?_
    have hrun := (h.2 p).mp hp
    exact hrun.ne_zero ((hrun.const a hpa).symm.trans ha)
  · -- the run around `a`, from the first address of its value to the first of another
    have hlo : ∃ lo, lo ≤ a ∧ ∀ x, lo ≤ x → x ≤ a → t x = t a :=
      ⟨a, le_rfl, fun x h₁ h₂ => by rw [le_antisymm h₂ h₁]⟩
    have hhi : ∃ hi, a < hi ∧ t hi ≠ t a :=
      ⟨max b (a + 1), lt_of_lt_of_le (Nat.lt_succ_self a) (le_max_right ..), by
        rw [hb _ (le_max_left ..)]
        exact fun h => ha h.symm⟩
    obtain ⟨hlo₁, hlo₂⟩ := Nat.find_spec hlo
    obtain ⟨hhi₁, hhi₂⟩ := Nat.find_spec hhi
    have hconst : ∀ x, Nat.find hlo ≤ x → x < Nat.find hhi → t x = t a := by
      intro x h₁ h₂
      rcases le_or_gt x a with hxa | hxa
      · exact hlo₂ x h₁ hxa
      · by_contra hne
        exact Nat.find_min hhi h₂ ⟨hxa, hne⟩
    have hrun : IsRun t ⟨Nat.find hlo, Nat.find hhi, t a⟩ := by
      refine ⟨lt_of_le_of_lt hlo₁ hhi₁, ha, fun x hx => hconst x hx.1 hx.2, ?_⟩
      intro lo hi h₁ h₂ hall
      refine ⟨le_antisymm h₁ (Nat.find_min' hlo ⟨le_trans h₁ hlo₁, fun x hx hxa => ?_⟩), ?_⟩
      · exact hall x hx (lt_of_le_of_lt hxa (lt_of_lt_of_le hhi₁ h₂))
      · by_contra hne
        have hlt : Nat.find hhi < hi := lt_of_le_of_ne h₂ fun heq => hne heq.symm
        exact hhi₂ (hall _ (le_trans h₁ (le_trans hlo₁ (le_of_lt hhi₁))) hlt)
    exact h.canonical.lookup_of_mem ((h.2 _).mpr hrun) ⟨hlo₁, hhi₁⟩

/-! ## The builder of a sweep

The builder has the pieces that are closed, and the value and the start of the one that is open.
At an address where several values are seen, the open piece may be empty; it is dropped then. -/

/-- The state of a sweep: the pieces closed so far, the value now, and the address
where it began when it is not `0`. -/
structure Sweep (α : Type u) (V : Type v) where
  /-- closed pieces, in order -/
  out : List (Piece α V)
  /-- the value from the current address on -/
  last : V
  /-- where the open piece began -/
  lastAddr : α

variable [DecidableEq V]

/-- From address `a` on the value is `c`. A piece that would be empty is dropped. -/
def Sweep.step (st : Sweep α V) (a : α) (c : V) : Sweep α V :=
  if c = st.last then st
  else
    { out := if st.last ≠ 0 ∧ st.lastAddr ≠ a then st.out ++ [⟨st.lastAddr, a, st.last⟩]
        else st.out
      last := c
      lastAddr := if c ≠ 0 then a else st.lastAddr }

@[simp] theorem Sweep.step_last (st : Sweep α V) (a : α) (c : V) : (st.step a c).last = c := by
  rw [Sweep.step]
  by_cases hc : c = st.last
  · rw [if_pos hc, hc]
  · rw [if_neg hc]

/-- Closed pieces stay closed. -/
theorem Sweep.out_prefix_step (st : Sweep α V) (a : α) (c : V) : st.out <+: (st.step a c).out := by
  rw [Sweep.step]
  by_cases hc : c = st.last
  · rewrite [if_pos hc]
    exact List.prefix_rfl
  · rw [if_neg hc]
    by_cases hopen : st.last ≠ 0 ∧ st.lastAddr ≠ a
    · rw [if_pos hopen]
      exact List.prefix_append ..
    · rewrite [if_neg hopen]
      exact List.prefix_rfl

/-- The invariant of a sweep for `t` at address `a`, where `p` is the value just
below `a`. Either the value is still `p`, and the open piece began below `a`
(`settled`); or it changed at `a`, and the closed pieces describe `t` below `a`
(`boundary`). -/
structure Sweep.At (t : α → V) (a : α) (p : V) (st : Sweep α V) : Prop where
  canonical : Canonical st.out
  le : ∀ q ∈ st.out, q.hi ≤ a
  settled : st.last = p →
    (∀ x < a, t x = if st.last ≠ 0 ∧ st.lastAddr ≤ x then st.last else lookup st.out x) ∧
    (st.last = 0 → ∀ q ∈ st.out, q.hi < a) ∧
    (st.last ≠ 0 → st.lastAddr < a ∧
      ∀ q ∈ st.out, q.hi < st.lastAddr ∨ (q.hi = st.lastAddr ∧ q.val ≠ st.last))
  boundary : st.last ≠ p →
    (∀ x < a, t x = lookup st.out x) ∧ (st.last ≠ 0 → st.lastAddr = a) ∧
    (∀ q ∈ st.out, q.hi = a → q.val = p)

namespace Sweep

variable {t : α → V} {a b : α} {p c : V} {st : Sweep α V}

/-- A sweep starts with nothing below its first address. -/
theorem At.init {x₀ : α} (h : ∀ x < a, t x = 0) : At t a 0 (⟨[], 0, x₀⟩ : Sweep α V) where
  canonical := Canonical.nil
  le := by simp
  settled := fun _ => ⟨fun x hx => by simpa [lookup] using h x hx, by simp, by simp⟩
  boundary := fun hne => absurd rfl hne

/-- **Advance**: `t` keeps the current value up to `b`. -/
theorem At.advance (h : At t a p st) (hab : a < b) (hconst : ∀ x, a ≤ x → x < b → t x = st.last) :
    At t b st.last st where
  canonical := h.canonical
  le := fun q hq => le_trans (h.le q hq) (le_of_lt hab)
  settled := by
    intro _
    have hnone : ∀ x, a ≤ x → lookup st.out x = 0 := fun x hx =>
      lookup_eq_zero fun q hq hc => lt_irrefl _ (lt_of_lt_of_le hc.2 (le_trans (h.le q hq) hx))
    refine ⟨?_, fun _ q hq => lt_of_le_of_lt (h.le q hq) hab, ?_⟩
    · intro x hx
      by_cases hlast : st.last = 0
      · rw [if_neg (fun hh => hh.1 hlast)]
        rcases lt_or_ge x a with hxa | hxa
        · by_cases hp : st.last = p
          · have := (h.settled hp).1 x hxa
            rwa [if_neg (fun hh => hh.1 hlast)] at this
          · exact (h.boundary hp).1 x hxa
        · rw [hconst x hxa hx, hlast, hnone x hxa]
      · rcases lt_or_ge x a with hxa | hxa
        · by_cases hp : st.last = p
          · exact (h.settled hp).1 x hxa
          · rw [(h.boundary hp).2.1 hlast, if_neg (fun hh => not_le.mpr hxa hh.2)]
            exact (h.boundary hp).1 x hxa
        · have hle : st.lastAddr ≤ x := by
            by_cases hp : st.last = p
            · exact le_trans (le_of_lt ((h.settled hp).2.2 hlast).1) hxa
            · rw [(h.boundary hp).2.1 hlast]
              exact hxa
          rw [if_pos ⟨hlast, hle⟩, hconst x hxa hx]
    · intro hlast
      by_cases hp : st.last = p
      · obtain ⟨hlt, hq⟩ := (h.settled hp).2.2 hlast
        exact ⟨lt_trans hlt hab, hq⟩
      · obtain ⟨-, haddr, hval⟩ := h.boundary hp
        rw [haddr hlast]
        refine ⟨hab, fun q hq => ?_⟩
        rcases lt_or_eq_of_le (h.le q hq) with hlt | heq
        · exact Or.inl hlt
        · exact Or.inr ⟨heq, fun hv => hp (hv.symm.trans (hval q hq heq))⟩
  boundary := fun hne => absurd rfl hne

/-- **Step**: a new value at the same address, which does not return to the value
below the address. -/
theorem At.step (h : At t a p st) (hret : st.last ≠ p → c ≠ p) : At t a p (st.step a c) := by
  unfold Sweep.step
  by_cases hc : c = st.last
  · rw [if_pos hc]
    exact h
  rw [if_neg hc]
  by_cases hp : st.last = p
  · -- the value leaves `p`: close the open piece, if there is one
    obtain ⟨ht, hzero, hopen⟩ := h.settled hp
    have hne : c ≠ p := fun hh => hc (hh.trans hp.symm)
    by_cases hlast : st.last = 0
    · rw [if_neg (fun hh => hh.1 hlast)]
      refine ⟨h.canonical, h.le, fun hh => absurd hh hne, fun _ => ⟨fun x hx => ?_, ?_, ?_⟩⟩
      · have := ht x hx
        rwa [if_neg (fun hh => hh.1 hlast)] at this
      · intro hc0
        exact if_pos hc0
      · intro q hq hhi
        exact absurd hhi (ne_of_lt (hzero hlast q hq))
    · obtain ⟨hlt, hout⟩ := hopen hlast
      rw [if_pos ⟨hlast, ne_of_lt hlt⟩]
      refine ⟨h.canonical.concat hlt hlast hout, ?_, fun hh => absurd hh hne,
        fun _ => ⟨fun x hx => ?_, fun hc0 => if_pos hc0, ?_⟩⟩
      · intro q hq
        rcases List.mem_append.mp hq with hq | hq
        · exact h.le q hq
        · obtain rfl := List.mem_singleton.mp hq
          exact le_rfl
      · rw [ht x hx]
        by_cases hx' : st.lastAddr ≤ x
        · have hbelow : ∀ q ∈ st.out, ¬q.Contains x := fun q hq hcq =>
            lt_irrefl _ (lt_of_lt_of_le hcq.2 (le_trans
              ((hout q hq).elim le_of_lt fun hh => le_of_eq hh.1) hx'))
          rw [if_pos ⟨hlast, hx'⟩, lookup_append_right hbelow, lookup, if_pos ⟨hx', hx⟩]
        · rw [if_neg (fun hh => hx' hh.2), lookup_append_left]
          intro q hq hcq
          obtain rfl := List.mem_singleton.mp hq
          exact hx' hcq.1
      · intro q hq hhi
        rcases List.mem_append.mp hq with hq | hq
        · have hle := (hout q hq).elim le_of_lt fun hh => le_of_eq hh.1
          exact absurd (lt_of_le_of_lt (hhi ▸ hle) hlt) (lt_irrefl _)
        · obtain rfl := List.mem_singleton.mp hq
          exact hp
  · -- a second value at this address: the open piece is empty and is dropped
    obtain ⟨ht, haddr, hval⟩ := h.boundary hp
    rw [if_neg (fun hh => hh.2 (haddr hh.1))]
    exact ⟨h.canonical, h.le, fun hh => absurd hh (hret hp),
      fun _ => ⟨ht, fun hc0 => if_pos hc0, hval⟩⟩

/-- **Finish**: when the value is `0` at the end, the closed pieces are the exact
map. -/
theorem At.finish (h : At t a p st) (hlast : st.last = 0) (hend : ∀ x, a ≤ x → t x = 0) :
    IsExactMap t st.out := by
  refine h.canonical.isExactMap fun x => ?_
  rcases lt_or_ge x a with hx | hx
  · by_cases hp : st.last = p
    · have := (h.settled hp).1 x hx
      rw [if_neg (fun hh => hh.1 hlast)] at this
      exact this.symm
    · exact ((h.boundary hp).1 x hx).symm
  · rw [hend x hx]
    exact lookup_eq_zero fun q hq hc => lt_irrefl _ (lt_of_lt_of_le hc.2 (le_trans (h.le q hq) hx))

end Sweep

end Order

end Lvisor
