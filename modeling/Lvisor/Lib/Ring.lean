import Mathlib.Data.List.Nodup
import Mathlib.Logic.Function.Basic

/-!
# Rings of links

A list may be kept in links that its nodes hold themselves: each node has a link to the next one
and a link to the one before, and a node of its own, the head, closes the ring.

* `Seg` — nodes that are linked both ways from one node to another; `seg_append` cuts such a
  segment at a node, `Seg.frame` moves it to links that agree where it reads them;
* `Ring` — a segment from the head to itself, without a node twice;
* `linkIn`, `linkOut` — the four and the two assignments that put a node between two others, and
  that join two nodes;
* `Ring.add`, `Ring.addTail`, `Ring.del` — what they do at the head, at the tail, and at a member.
-/

namespace Lvisor

universe u

variable {α : Type u}

/-- The two links of a node, forward and back. -/
structure Links (α : Type u) where
  next : α
  prev : α

/-- From `a` through `xs` to `b`, linked both ways. -/
def Seg (h : α → Links α) : α → List α → α → Prop
  | a, [], b => (h a).next = b ∧ (h b).prev = a
  | a, x :: xs, b => (h a).next = x ∧ (h x).prev = a ∧ Seg h x xs b

section Segments

variable {h h' : α → Links α} {a b c x : α} {xs ys : List α}

/-- A segment is cut at a node into one before it and one behind. -/
theorem seg_append : Seg h a (xs ++ x :: ys) b ↔ Seg h a xs x ∧ Seg h x ys b := by
  induction xs generalizing a with
  | nil => exact and_assoc.symm
  | cons y xs ih =>
    change (_ ∧ _ ∧ Seg h y (xs ++ x :: ys) b) ↔ (_ ∧ _ ∧ Seg h y xs x) ∧ Seg h x ys b
    rw [ih, and_assoc, and_assoc]

/-- A segment reads the links forward of all but its last node, and those back of all but its
first. -/
theorem Seg.frame (hseg : Seg h a xs b) (hnext : ∀ y ∈ a :: xs, (h' y).next = (h y).next)
    (hprev : ∀ y, y ∈ xs ∨ y = b → (h' y).prev = (h y).prev) : Seg h' a xs b := by
  induction xs generalizing a with
  | nil =>
    exact ⟨(hnext a List.mem_cons_self).trans hseg.1, (hprev b (.inr rfl)).trans hseg.2⟩
  | cons x xs ih =>
    obtain ⟨hax, hxa, hrest⟩ := hseg
    refine ⟨(hnext a List.mem_cons_self).trans hax,
      (hprev x (.inl List.mem_cons_self)).trans hxa, ih hrest ?_ ?_⟩
    · exact fun y hy => hnext y (List.mem_cons_of_mem a hy)
    · exact fun y hy => hprev y (hy.imp_left (List.mem_cons_of_mem x))

/-- The node after the first, which is the last if there is none between. -/
theorem Seg.next_eq (hseg : Seg h a xs b) : (h a).next = xs.headD b := by
  cases xs with
  | nil => exact hseg.1
  | cons x xs => exact hseg.1

/-- The node before the last, which is the first if there is none between. -/
theorem Seg.prev_eq (hseg : Seg h a xs b) : (h b).prev = xs.getLastD a := by
  induction xs generalizing a with
  | nil => exact hseg.2
  | cons x xs ih => rw [ih hseg.2.2, List.getLastD_cons]

/-- Another node at the end: one link forward of the last inner node. -/
theorem Seg.relink_end (hseg : Seg h a xs b) (hnodup : (a :: xs).Nodup)
    (hlast : (h' (h b).prev).next = c) (hback : (h' c).prev = (h b).prev)
    (hnext : ∀ y ∈ a :: xs, y ≠ (h b).prev → (h' y).next = (h y).next)
    (hprev : ∀ y ∈ xs, (h' y).prev = (h y).prev) : Seg h' a xs c := by
  rcases List.eq_nil_or_concat xs with rfl | ⟨ys, p, rfl⟩
  · rw [hseg.2] at hlast hback
    exact ⟨hlast, hback⟩
  · rw [List.concat_eq_append] at *
    obtain ⟨hys, hp⟩ := seg_append.mp hseg
    rw [hp.2] at hlast hback hnext
    refine seg_append.mpr ⟨hys.frame ?_ ?_, hlast, hback⟩
    · intro y hy
      refine hnext y (List.mem_append_left [p] hy) ?_
      rintro rfl
      have hsplit : (a :: ys ++ [y]).Nodup := hnodup
      exact List.disjoint_of_nodup_append hsplit hy (List.mem_singleton_self y)
    · rintro y (hy | rfl)
      · exact hprev y (List.mem_append_left [p] hy)
      · exact hprev y (List.mem_append_right ys (List.mem_singleton_self y))

/-- Another node at the start: one link back of the first inner node. -/
theorem Seg.relink_start (hseg : Seg h a xs b) (hnodup : (b :: xs).Nodup)
    (hfirst : (h' c).next = (h a).next) (hback : (h' (h a).next).prev = c)
    (hnext : ∀ y ∈ xs, (h' y).next = (h y).next)
    (hprev : ∀ y, y ∈ xs ∨ y = b → y ≠ (h a).next → (h' y).prev = (h y).prev) :
    Seg h' c xs b := by
  cases xs with
  | nil =>
    rw [hseg.1] at hfirst hback
    exact ⟨hfirst, hback⟩
  | cons x xs =>
    obtain ⟨hax, -, hrest⟩ := hseg
    rw [hax] at hfirst hback hprev
    obtain ⟨hb, hx⟩ := List.nodup_cons.mp hnodup
    refine ⟨hfirst, hback, hrest.frame hnext ?_⟩
    rintro y (hy | rfl)
    · refine hprev y (.inl (List.mem_cons_of_mem x hy)) ?_
      rintro rfl
      exact (List.nodup_cons.mp hx).1 hy
    · refine hprev y (.inr rfl) ?_
      rintro rfl
      exact hb List.mem_cons_self

end Segments

/-! ## Rings -/

/-- The nodes `xs`, none of them twice, in a ring that `head` closes. -/
structure Ring (h : α → Links α) (head : α) (xs : List α) : Prop where
  seg : Seg h head xs head
  nodup : (head :: xs).Nodup

section Rings

variable {h h' : α → Links α} {head x : α} {xs ys : List α}

theorem Ring.nil (hself : h head = ⟨head, head⟩) : Ring h head [] := by
  refine ⟨?_, List.nodup_singleton head⟩
  rw [Seg, hself]
  exact ⟨rfl, rfl⟩

theorem Ring.frame (hring : Ring h head xs) (heq : ∀ y ∈ head :: xs, h' y = h y) :
    Ring h' head xs := by
  refine ⟨hring.seg.frame (fun y hy => by rw [heq y hy]) ?_, hring.nodup⟩
  rintro y (hy | rfl)
  · rw [heq y (List.mem_cons_of_mem head hy)]
  · rw [heq y List.mem_cons_self]

theorem headD_mem (xs : List α) (x : α) : xs.headD x ∈ x :: xs := by
  cases xs with
  | nil => exact List.mem_cons_self
  | cons y xs => exact List.mem_cons_of_mem x List.mem_cons_self

/-- The node after the head is in the ring. -/
theorem Ring.next_mem (hring : Ring h head xs) : (h head).next ∈ head :: xs := by
  rw [hring.seg.next_eq]
  exact headD_mem xs head

/-- The node before the head is in the ring. -/
theorem Ring.prev_mem (hring : Ring h head xs) : (h head).prev ∈ head :: xs := by
  rw [hring.seg.prev_eq]
  cases xs with
  | nil => exact List.mem_cons_self
  | cons x xs =>
    rw [List.getLastD_cons, List.getLastD_eq_getLast?]
    cases hlast : xs.getLast? with
    | none => exact List.mem_cons_of_mem _ List.mem_cons_self
    | some y =>
      exact List.mem_cons_of_mem _ (List.mem_cons_of_mem x (List.mem_of_getLast? hlast))

/-- Only the head of an empty ring follows itself. -/
theorem Ring.next_eq_head_iff (hring : Ring h head xs) : (h head).next = head ↔ xs = [] := by
  rw [hring.seg.next_eq]
  cases xs with
  | nil => exact iff_of_true rfl rfl
  | cons x xs =>
    refine iff_of_false (fun heq => ?_) (List.cons_ne_nil x xs)
    have hx : x = head := heq
    exact (List.nodup_cons.mp hring.nodup).1 (hx ▸ List.mem_cons_self)

/-- The nodes around a member of the ring are its neighbours in the list, or the head. -/
theorem Ring.around (hring : Ring h head (xs ++ x :: ys)) :
    (h x).prev ∈ head :: xs ∧ (h x).next ∈ head :: ys := by
  obtain ⟨hxs, hys⟩ := seg_append.mp hring.seg
  refine ⟨?_, ?_⟩
  · rw [hxs.prev_eq]
    rcases List.eq_nil_or_concat xs with rfl | ⟨zs, z, rfl⟩
    · exact List.mem_cons_self
    · rw [List.concat_eq_append, List.getLastD_concat]
      exact List.mem_cons_of_mem head (List.mem_append_right zs (List.mem_singleton_self z))
  · rw [hys.next_eq]
    exact headD_mem ys head

end Rings

/-! ## Edits

Putting a node in and taking one out are assignments to the links of its two neighbours. A ring
that has none of the nodes concerned is not affected. -/

variable [DecidableEq α]

/-- An assignment to the link forward of `a`, and to nothing else. -/
def setNext (h : α → Links α) (a b : α) : α → Links α :=
  Function.update h a { h a with next := b }

/-- An assignment to the link back of `a`, and to nothing else. -/
def setPrev (h : α → Links α) (a b : α) : α → Links α :=
  Function.update h a { h a with prev := b }

/-- `new` is put between `p` and `q`, by four assignments. -/
def linkIn (h : α → Links α) (new p q : α) : α → Links α :=
  setNext (setPrev (setNext (setPrev h q new) new q) new p) p new

/-- `p` and `q` are joined, past whatever was between them. -/
def linkOut (h : α → Links α) (p q : α) : α → Links α := setNext (setPrev h q p) p q

section Edits

variable {h : α → Links α} {head new a b p q x y : α} {xs ys : List α}

@[simp] theorem setNext_next :
    (setNext h a b y).next = if y = a then b else (h y).next := by
  rw [setNext, Function.update_apply]
  split <;> rfl

@[simp] theorem setNext_prev : (setNext h a b y).prev = (h y).prev := by
  rw [setNext, Function.update_apply]
  split
  · next heq => rw [heq]
  · rfl

@[simp] theorem setPrev_prev :
    (setPrev h a b y).prev = if y = a then b else (h y).prev := by
  rw [setPrev, Function.update_apply]
  split <;> rfl

@[simp] theorem setPrev_next : (setPrev h a b y).next = (h y).next := by
  rw [setPrev, Function.update_apply]
  split
  · next heq => rw [heq]
  · rfl

theorem setNext_of_ne (hne : y ≠ a) : setNext h a b y = h y := Function.update_of_ne hne _ _

theorem setPrev_of_ne (hne : y ≠ a) : setPrev h a b y = h y := Function.update_of_ne hne _ _

theorem linkIn_next :
    (linkIn h new p q y).next = if y = p then new else if y = new then q else (h y).next := by
  simp [linkIn]

theorem linkIn_prev :
    (linkIn h new p q y).prev = if y = new then p else if y = q then new else (h y).prev := by
  simp [linkIn]

theorem linkIn_of_ne (hnew : y ≠ new) (hp : y ≠ p) (hq : y ≠ q) : linkIn h new p q y = h y := by
  rw [linkIn, setNext_of_ne hp, setPrev_of_ne hnew, setNext_of_ne hnew, setPrev_of_ne hq]

theorem linkOut_next : (linkOut h p q y).next = if y = p then q else (h y).next := by
  simp [linkOut]

theorem linkOut_prev : (linkOut h p q y).prev = if y = q then p else (h y).prev := by
  simp [linkOut]

theorem linkOut_of_ne (hp : y ≠ p) (hq : y ≠ q) : linkOut h p q y = h y := by
  rw [linkOut, setNext_of_ne hp, setPrev_of_ne hq]

/-- A new node after the head is the first member. -/
theorem Ring.add (hring : Ring h head xs) (hnew : new ∉ head :: xs) :
    Ring (linkIn h new head (h head).next) head (new :: xs) := by
  obtain ⟨hhead, hxs⟩ := List.nodup_cons.mp hring.nodup
  have hne : new ≠ head := List.ne_of_not_mem_cons hnew
  have hnewxs : new ∉ xs := List.not_mem_of_not_mem_cons hnew
  have hfirst : (h head).next ≠ new := fun heq => hnew (heq ▸ hring.next_mem)
  refine ⟨⟨?_, ?_, ?_⟩, ?_⟩
  · rw [linkIn_next, if_pos rfl]
  · rw [linkIn_prev, if_pos rfl]
  · refine hring.seg.relink_start hring.nodup ?_ ?_ ?_ ?_
    · rw [linkIn_next, if_neg hne, if_pos rfl]
    · rw [linkIn_prev, if_neg hfirst, if_pos rfl]
    · intro y hy
      rw [linkIn_next, if_neg (ne_of_mem_of_not_mem hy hhead),
        if_neg (ne_of_mem_of_not_mem hy hnewxs)]
    · intro y hy hyfirst
      have hynew : y ≠ new := by
        rcases hy with hy | rfl
        · exact ne_of_mem_of_not_mem hy hnewxs
        · exact hne.symm
      rw [linkIn_prev, if_neg hynew, if_neg hyfirst]
  · exact List.nodup_cons.mpr ⟨List.not_mem_cons_of_ne_of_not_mem hne.symm hhead,
      List.nodup_cons.mpr ⟨hnewxs, hxs⟩⟩

/-- A new node before the head is the last member. -/
theorem Ring.addTail (hring : Ring h head xs) (hnew : new ∉ head :: xs) :
    Ring (linkIn h new (h head).prev head) head (xs ++ [new]) := by
  obtain ⟨hhead, hxs⟩ := List.nodup_cons.mp hring.nodup
  have hne : new ≠ head := List.ne_of_not_mem_cons hnew
  have hnewxs : new ∉ xs := List.not_mem_of_not_mem_cons hnew
  have hlast : new ≠ (h head).prev := fun heq => hnew (heq ▸ hring.prev_mem)
  refine ⟨seg_append.mpr ⟨?_, ?_, ?_⟩, ?_⟩
  · refine hring.seg.relink_end hring.nodup ?_ ?_ ?_ ?_
    · rw [linkIn_next, if_pos rfl]
    · rw [linkIn_prev, if_pos rfl]
    · intro y hy hylast
      rw [linkIn_next, if_neg hylast, if_neg (ne_of_mem_of_not_mem hy hnew)]
    · intro y hy
      rw [linkIn_prev, if_neg (ne_of_mem_of_not_mem hy hnewxs),
        if_neg (ne_of_mem_of_not_mem hy hhead)]
  · rw [linkIn_next, if_neg hlast, if_pos rfl]
  · rw [linkIn_prev, if_neg hne.symm, if_pos rfl]
  · have hmem : head :: (xs ++ [new]) = (head :: xs) ++ [new] := rfl
    rw [hmem]
    exact hring.nodup.append (List.nodup_singleton new)
      (List.disjoint_singleton.mpr hnew)

/-- A member is taken out, and the others stay in their order. -/
theorem Ring.del (hring : Ring h head (xs ++ x :: ys)) :
    Ring (linkOut h (h x).prev (h x).next) head (xs ++ ys) := by
  obtain ⟨hxs, hys⟩ := seg_append.mp hring.seg
  obtain ⟨hprevmem, hnextmem⟩ := hring.around
  have hall : ((head :: xs) ++ x :: ys).Nodup := hring.nodup
  obtain ⟨hleft, hright, hdisj⟩ := List.nodup_append'.mp hall
  have hxys : x ∉ ys := (List.nodup_cons.mp hright).1
  have hysnodup : ys.Nodup := (List.nodup_cons.mp hright).2
  have hsub : (head :: (xs ++ ys)).Sublist (head :: (xs ++ x :: ys)) :=
    ((List.sublist_cons_self x ys).append_left xs).cons_cons head
  have hcut : ∀ y ∈ head :: xs, y ∉ ys := fun y hy hy' =>
    hdisj hy (List.mem_cons_of_mem x hy')
  have hstart : Seg (linkOut h (h x).prev (h x).next) head xs (h x).next := by
    refine hxs.relink_end hleft ?_ ?_ ?_ ?_
    · rw [linkOut_next, if_pos rfl]
    · rw [linkOut_prev, if_pos rfl]
    · intro y _ hy
      rw [linkOut_next, if_neg hy]
    · intro y hy
      have hyhead : y ≠ head := ne_of_mem_of_not_mem hy (List.nodup_cons.mp hleft).1
      have hynext : y ≠ (h x).next := by
        intro heq
        rcases List.mem_cons.mp hnextmem with hhead | hmem
        · exact hyhead (heq.trans hhead)
        · exact hcut y (List.mem_cons_of_mem head hy) (heq ▸ hmem)
      rw [linkOut_prev, if_neg hynext]
  refine ⟨?_, hring.nodup.sublist hsub⟩
  cases ys with
  | nil =>
    rw [hys.1] at hstart
    rw [List.append_nil]
    rwa [hys.1]
  | cons y ys =>
    obtain ⟨hxy, hyx, hrest⟩ := hys
    have hyleft : y ∉ head :: xs := fun hy => hcut y hy List.mem_cons_self
    rw [hxy] at hstart ⊢
    refine seg_append.mpr ⟨hstart, hrest.frame ?_ ?_⟩
    · intro z hz
      have hz' : z ≠ (h x).prev := fun heq => hcut z (heq ▸ hprevmem) hz
      rw [linkOut_next, if_neg hz']
    · rintro z (hz | rfl)
      · have hz' : z ≠ y := ne_of_mem_of_not_mem hz (List.nodup_cons.mp hysnodup).1
        rw [linkOut_prev, if_neg hz']
      · have hz' : z ≠ y := fun heq => hyleft (heq ▸ List.mem_cons_self)
        rw [linkOut_prev, if_neg hz']

end Edits

end Lvisor
