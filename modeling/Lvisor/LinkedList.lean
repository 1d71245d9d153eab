import Mathlib.Data.BitVec
import Mathlib.Data.List.Perm.Basic
import Lvisor.Machine
import Lvisor.Lib.Ring

/-!
# Linked lists (`sys/list.h`)

A list is a `struct list_head` that closes a ring of others, each inside of an entry of the list.

* `ListOp` — the calls that make and change lists, with `ListOp.run` for what they do to the links
  and `ListOp.apply` for what they are meant to do to the lists;
* `HoldsLists` — the links hold these lists, and no node is in two of them;
* `HoldsLists.step` — one call, and `lists_of_run` — any sequence of calls that the comments of
  the header allow;
* `listForEachEntry_ring` — the loop over a list visits its entries in their order.

A node is its address. `list_del` leaves poison in the node that it takes out.
-/

namespace Lvisor

/-- The `struct list_head`s of the memory, by their addresses. -/
abbrev ListHeap : Type := BitVec 64 → Links (BitVec 64)

/-- `LIST_POISON1`, which stands in a link that must not be followed. -/
def listPoison1 : BitVec 64 := 0x100#64

/-- `LIST_POISON2`, the same for the link back. -/
def listPoison2 : BitVec 64 := 0x200#64

/-- `INIT_LIST_HEAD`: a ring of one node. -/
def initListHead (h : ListHeap) (list : BitVec 64) : ListHeap :=
  setPrev (setNext h list list) list list

/-- `__list_add`: a node goes between two that are neighbours. -/
def listAddBetween (h : ListHeap) (new prev next : BitVec 64) : ListHeap :=
  let h := setPrev h next new
  let h := setNext h new next
  let h := setPrev h new prev
  setNext h prev new

/-- `list_add`: the new entry is the first one. -/
def listAdd (h : ListHeap) (new head : BitVec 64) : ListHeap :=
  listAddBetween h new head (h head).next

/-- `list_add_tail`: the new entry is the last one. -/
def listAddTail (h : ListHeap) (new head : BitVec 64) : ListHeap :=
  listAddBetween h new (h head).prev head

/-- `__list_del`: the nodes at both sides become neighbours. -/
def listDelBetween (h : ListHeap) (prev next : BitVec 64) : ListHeap :=
  let h := setPrev h next prev
  setNext h prev next

/-- `__list_del_entry`: the neighbours of an entry are linked past it, and its own links stay. -/
def listDelEntry (h : ListHeap) (entry : BitVec 64) : ListHeap :=
  listDelBetween h (h entry).prev (h entry).next

/-- `list_del`: the entry is taken out, and its links are poisoned. -/
def listDel (h : ListHeap) (entry : BitVec 64) : ListHeap :=
  let h := listDelEntry h entry
  let h := setNext h entry listPoison1
  setPrev h entry listPoison2

/-- `list_move`: the entry is taken out of its list and is the first one of another. -/
def listMove (h : ListHeap) (list head : BitVec 64) : ListHeap :=
  let h := listDelEntry h list
  listAdd h list head

/-- `list_move_tail`: the entry is taken out of its list and is the last one of another. -/
def listMoveTail (h : ListHeap) (list head : BitVec 64) : ListHeap :=
  let h := listDelEntry h list
  listAddTail h list head

/-- `list_empty`: the head is its own successor. -/
def listEmpty (h : ListHeap) (head : BitVec 64) : Bool := decide ((h head).next = head)

/-- `list_entry`, for a `struct list_head` at an offset of the entry. -/
def listEntry (ptr off : BitVec 64) : BitVec 64 := ptr - off

/-- `list_first_entry`: what contains the node behind the head, which must not be the head. -/
def listFirstEntry (h : ListHeap) (head off : BitVec 64) : BitVec 64 :=
  listEntry (h head).next off

/-- `list_first_entry_or_null`: the same, or null if the list is empty. -/
def listFirstEntryOrNull (h : ListHeap) (head off : BitVec 64) : Option (BitVec 64) :=
  let pos := (h head).next
  if pos ≠ head then some (listEntry pos off) else none

/-- `list_next_entry`: what contains the next node. Behind the last entry it is where the head
would be contained. -/
def listNextEntry (h : ListHeap) (pos off : BitVec 64) : BitVec 64 :=
  listEntry (h (pos + off)).next off

section Loop

variable {σ : Type}

/-- `list_for_each_entry` from `pos` on, with a body that leaves the links as they are. -/
def listForEachEntryFrom (h : ListHeap) (head off : BitVec 64) (body : σ → BitVec 64 → Exec σ) :
    ℕ → BitVec 64 → σ → Exec σ
  | 0, pos, s => if pos + off = head then .ok s else .error .outOfFuel
  | fuel + 1, pos, s =>
    if pos + off = head then .ok s
    else do
      let s ← body s pos
      listForEachEntryFrom h head off body fuel (listNextEntry h pos off) s

/-- `list_for_each_entry`: the body runs for the first entry, and on to the head. -/
def listForEachEntry (h : ListHeap) (head off : BitVec 64) (body : σ → BitVec 64 → Exec σ)
    (fuel : ℕ) (s : σ) : Exec σ :=
  listForEachEntryFrom h head off body fuel (listFirstEntry h head off) s

variable {h : ListHeap} {head off a x : BitVec 64} {body : σ → BitVec 64 → Exec σ} {fuel : ℕ}
  {xs : List (BitVec 64)} {s : σ}

/-- The loop over the rest of a list, by induction over the segment of the ring that is left. -/
theorem listForEachEntryFrom_seg (hseg : Seg h a xs head) (hhead : head ∉ xs)
    (hfuel : xs.length ≤ fuel) :
    listForEachEntryFrom h head off body fuel (listEntry (h a).next off) s =
      (xs.map fun x => listEntry x off).foldlM body s := by
  induction xs generalizing a fuel s with
  | nil =>
    have hend : listEntry (h a).next off + off = head := by
      rw [listEntry, BitVec.sub_add_cancel]
      exact hseg.1
    cases fuel with
    | zero => exact if_pos hend
    | succ fuel => exact if_pos hend
  | cons x xs ih =>
    obtain ⟨hax, -, hrest⟩ := hseg
    obtain ⟨fuel, rfl⟩ : ∃ n, fuel = n + 1 :=
      ⟨fuel - 1, (Nat.sub_add_cancel (Nat.le_trans (Nat.succ_pos _) hfuel)).symm⟩
    have hpos : listEntry x off + off = x := BitVec.sub_add_cancel x off
    have hne : x ≠ head := fun heq => hhead (heq ▸ List.mem_cons_self)
    rw [listForEachEntryFrom, hax, hpos, if_neg hne, List.map_cons, List.foldlM_cons]
    refine congrArg (body s (listEntry x off) >>= ·) (funext fun s' => ?_)
    rw [listNextEntry, hpos]
    exact ih hrest (fun hmem => hhead (List.mem_cons_of_mem x hmem)) (Nat.le_of_succ_le_succ hfuel)

/-- **The loop over a list** runs its body for the entries of the list, in their order. -/
theorem listForEachEntry_ring (hring : Ring h head xs) (hfuel : xs.length ≤ fuel) :
    listForEachEntry h head off body fuel s =
      (xs.map fun x => listEntry x off).foldlM body s :=
  listForEachEntryFrom_seg hring.seg (List.nodup_cons.mp hring.nodup).1 hfuel

end Loop

/-! ## The lists that the links hold

The abstract state: for each head the entries of its list. A node belongs to one list at most,
and a call changes the lists that its arguments are in. -/

/-- Lists, each with its head. -/
abbrev Lists : Type := List (BitVec 64 × List (BitVec 64))

namespace Lists

/-- The heads and the entries: all nodes that are in use. -/
def nodes (ls : Lists) : List (BitVec 64) := ls.flatMap fun p => p.1 :: p.2

/-- The heads of the lists. -/
def heads (ls : Lists) : List (BitVec 64) := ls.map Prod.fst

/-- The entries of all lists, without the heads. -/
def entries (ls : Lists) : List (BitVec 64) := ls.flatMap Prod.snd

/-- The list of `head` is changed, and the others stay. -/
def modify (f : List (BitVec 64) → List (BitVec 64)) (head : BitVec 64) (ls : Lists) : Lists :=
  ls.map fun p => if p.1 = head then (p.1, f p.2) else p

/-- An entry is taken out of its list, whichever that is. -/
def drop (entry : BitVec 64) (ls : Lists) : Lists := ls.map fun p => (p.1, p.2.erase entry)

section

variable {ls : Lists} {x head : BitVec 64} {p q : BitVec 64 × List (BitVec 64)}

theorem mem_nodes : x ∈ nodes ls ↔ ∃ p ∈ ls, x ∈ p.1 :: p.2 := List.mem_flatMap

theorem mem_heads : head ∈ heads ls ↔ ∃ p ∈ ls, p.1 = head := List.mem_map

theorem mem_entries : x ∈ entries ls ↔ ∃ p ∈ ls, x ∈ p.2 := List.mem_flatMap

theorem nodes_cons (p : BitVec 64 × List (BitVec 64)) (ls : Lists) :
    nodes (p :: ls) = (p.1 :: p.2) ++ nodes ls := List.flatMap_cons

/-- A node is in one list only. -/
theorem eq_of_mem (hnodup : (nodes ls).Nodup) (hp : p ∈ ls) (hq : q ∈ ls)
    (hxp : x ∈ p.1 :: p.2) (hxq : x ∈ q.1 :: q.2) : p = q := by
  induction ls with
  | nil => exact absurd hp List.not_mem_nil
  | cons r ls ih =>
    rw [nodes_cons] at hnodup
    obtain ⟨-, hrest, hdisj⟩ := List.nodup_append'.mp hnodup
    rcases List.mem_cons.mp hp with hpr | hpls
    · rcases List.mem_cons.mp hq with hqr | hqls
      · exact hpr.trans hqr.symm
      · exact (hdisj (hpr ▸ hxp) (mem_nodes.mpr ⟨q, hqls, hxq⟩)).elim
    · rcases List.mem_cons.mp hq with hqr | hqls
      · exact (hdisj (hqr ▸ hxq) (mem_nodes.mpr ⟨p, hpls, hxp⟩)).elim
      · exact ih hrest hpls hqls

theorem modify_of_not_mem {f : List (BitVec 64) → List (BitVec 64)} (hhead : head ∉ heads ls) :
    modify f head ls = ls := by
  refine (List.map_congr_left (g := id) fun p hp => ?_).trans (List.map_id ls)
  exact if_neg fun heq => hhead (mem_heads.mpr ⟨p, hp, heq⟩)

/-- With a new node in one of the lists, the nodes are those before and the new one. -/
theorem nodes_modify {f : List (BitVec 64) → List (BitVec 64)} (hnodup : (nodes ls).Nodup)
    (hhead : head ∈ heads ls) (hf : ∀ xs, (f xs).Perm (x :: xs)) :
    (nodes (modify f head ls)).Perm (x :: nodes ls) := by
  induction ls with
  | nil => exact absurd hhead List.not_mem_nil
  | cons p ls ih =>
    rw [nodes_cons] at hnodup
    obtain ⟨-, hrest, hdisj⟩ := List.nodup_append'.mp hnodup
    rw [modify, List.map_cons, nodes_cons, nodes_cons]
    by_cases hp : p.1 = head
    · have hout : head ∉ heads ls := by
        intro hmem
        obtain ⟨q, hq, rfl⟩ := mem_heads.mp hmem
        exact hdisj (hp ▸ List.mem_cons_self) (mem_nodes.mpr ⟨q, hq, List.mem_cons_self⟩)
      have hsame := modify_of_not_mem (f := f) hout
      rw [if_pos hp, ← modify, hsame]
      exact (((hf p.2).cons p.1).trans (List.Perm.swap x p.1 p.2)).append_right (nodes ls)
    · have hmem : head ∈ heads ls := by
        obtain ⟨q, hq, rfl⟩ := mem_heads.mp hhead
        rcases List.mem_cons.mp hq with rfl | hq
        · exact absurd rfl hp
        · exact mem_heads.mpr ⟨q, hq, rfl⟩
      rw [if_neg hp, ← modify]
      exact ((ih hrest hmem).append_left _).trans List.perm_middle

/-- The nodes without an entry are still apart from each other, and the entry is not among them. -/
theorem nodes_drop (hnodup : (nodes ls).Nodup) (hx : x ∈ entries ls) :
    (nodes (drop x ls)).Sublist (nodes ls) ∧ x ∉ nodes (drop x ls) := by
  refine ⟨?_, ?_⟩
  · clear hnodup hx
    induction ls with
    | nil => exact List.Sublist.refl _
    | cons p ls ih =>
      rw [drop, List.map_cons, nodes_cons, nodes_cons, ← drop]
      exact (List.erase_sublist.cons_cons p.1).append ih
  · intro hmem
    obtain ⟨p', hp', hxp'⟩ := mem_nodes.mp hmem
    obtain ⟨p, hp, rfl⟩ := List.mem_map.mp hp'
    obtain ⟨q, hq, hxq⟩ := mem_entries.mp hx
    have hxp : x ∈ p.1 :: p.2 := List.cons_subset_cons p.1 List.erase_subset hxp'
    obtain rfl := eq_of_mem hnodup hp hq hxp (List.mem_cons_of_mem q.1 hxq)
    obtain ⟨hhead, hpnodup⟩ := List.nodup_cons.mp ((List.nodup_flatMap.mp hnodup).1 p hp)
    rcases List.mem_cons.mp hxp' with heq | hxp'
    · exact hhead (heq ▸ hxq)
    · exact hpnodup.not_mem_erase hxp'

theorem heads_drop : heads (drop x ls) = heads ls := by
  rw [heads, drop, List.map_map]
  rfl

end

end Lists

/-! ## Calls

What the functions of the header do to the links, what they are meant to do to the lists, and
that these agree. A call is allowed as the comments of the header say; `list_del` of a node that
is in no list, for one, is not. -/

/-- A call that makes a list or changes one. -/
inductive ListOp where
  | init (head : BitVec 64)
  | add (new head : BitVec 64)
  | addTail (new head : BitVec 64)
  | del (entry : BitVec 64)
  | move (entry head : BitVec 64)
  | moveTail (entry head : BitVec 64)

/-- What a call does to the links: the function of the header. -/
def ListOp.run (h : ListHeap) : ListOp → ListHeap
  | .init head => initListHead h head
  | .add new head => listAdd h new head
  | .addTail new head => listAddTail h new head
  | .del entry => listDel h entry
  | .move entry head => listMove h entry head
  | .moveTail entry head => listMoveTail h entry head

/-- What a call is meant to do to the lists: a new list has a new head, and an entry is added when
it is in no list, and deleted and moved when it is in one. -/
def ListOp.apply (ls : Lists) : ListOp → Option Lists
  | .init head => if head ∈ ls.nodes then none else some ((head, []) :: ls)
  | .add new head =>
    if new ∉ ls.nodes ∧ head ∈ ls.heads then some (ls.modify (new :: ·) head) else none
  | .addTail new head =>
    if new ∉ ls.nodes ∧ head ∈ ls.heads then some (ls.modify (· ++ [new]) head) else none
  | .del entry => if entry ∈ ls.entries then some (ls.drop entry) else none
  | .move entry head =>
    if entry ∈ ls.entries ∧ head ∈ ls.heads then
      some ((ls.drop entry).modify (entry :: ·) head)
    else none
  | .moveTail entry head =>
    if entry ∈ ls.entries ∧ head ∈ ls.heads then
      some ((ls.drop entry).modify (· ++ [entry]) head)
    else none

/-- The links hold the lists: each is a ring through its head, and no node is in two of them. -/
structure HoldsLists (h : ListHeap) (ls : Lists) : Prop where
  nodup : ls.nodes.Nodup
  ring : ∀ p ∈ ls, Ring h p.1 p.2

section Calls

variable {h : ListHeap} {ls ls' : Lists} {head new entry : BitVec 64}
  {p q : BitVec 64 × List (BitVec 64)}

/-- A list is as it was when only nodes of another one, and new ones, are written. -/
theorem HoldsLists.ring_frame {h' : ListHeap} (hrep : HoldsLists h ls) (hp : p ∈ ls) (hq : q ∈ ls)
    (hne : p ≠ q) (hframe : ∀ y ∈ ls.nodes, y ∉ q.1 :: q.2 → h' y = h y) :
    Ring h' p.1 p.2 := by
  refine (hrep.ring p hp).frame fun y hy => hframe y (Lists.mem_nodes.mpr ⟨p, hp, hy⟩) ?_
  exact fun hyq => hne (Lists.eq_of_mem hrep.nodup hp hq hy hyq)

theorem HoldsLists.init (hrep : HoldsLists h ls) (hhead : head ∉ ls.nodes) :
    HoldsLists (initListHead h head) ((head, []) :: ls) := by
  refine ⟨List.nodup_cons.mpr ⟨hhead, hrep.nodup⟩, fun p hp => ?_⟩
  rcases List.mem_cons.mp hp with rfl | hls
  · refine Ring.nil ?_
    rw [initListHead, setPrev, setNext, Function.update_self, Function.update_self]
  · refine (hrep.ring p hls).frame fun y hy => ?_
    have hne : y ≠ head := fun heq => hhead (heq ▸ Lists.mem_nodes.mpr ⟨p, hls, hy⟩)
    rw [initListHead, setPrev_of_ne hne, setNext_of_ne hne]

/-- A new entry, at one of the ends of a list. -/
theorem HoldsLists.insert {h' : ListHeap} {f : List (BitVec 64) → List (BitVec 64)}
    (hrep : HoldsLists h ls) (hnew : new ∉ ls.nodes) (hhead : head ∈ ls.heads)
    (hf : ∀ xs, (f xs).Perm (new :: xs))
    (hring : ∀ xs, Ring h head xs → new ∉ head :: xs → Ring h' head (f xs))
    (hframe : ∀ xs, Ring h head xs → ∀ y, y ≠ new → y ∉ head :: xs → h' y = h y) :
    HoldsLists h' (ls.modify f head) := by
  obtain ⟨q, hq, rfl⟩ := Lists.mem_heads.mp hhead
  have hqnew : new ∉ q.1 :: q.2 := fun hmem => hnew (Lists.mem_nodes.mpr ⟨q, hq, hmem⟩)
  refine ⟨?_, fun p' hp' => ?_⟩
  · exact (Lists.nodes_modify hrep.nodup hhead hf).nodup_iff.mpr
      (List.nodup_cons.mpr ⟨hnew, hrep.nodup⟩)
  · obtain ⟨p, hp, rfl⟩ := List.mem_map.mp hp'
    by_cases hpq : p.1 = q.1
    · obtain rfl := Lists.eq_of_mem hrep.nodup hp hq List.mem_cons_self
        (hpq ▸ List.mem_cons_self)
      rw [if_pos rfl]
      exact hring p.2 (hrep.ring p hp) hqnew
    · rw [if_neg hpq]
      refine hrep.ring_frame hp hq (fun heq => hpq (congrArg Prod.fst heq)) fun y hy hyq => ?_
      refine hframe q.2 (hrep.ring q hq) y ?_ hyq
      rintro rfl
      exact hnew hy

theorem HoldsLists.add (hrep : HoldsLists h ls) (hnew : new ∉ ls.nodes)
    (hhead : head ∈ ls.heads) :
    HoldsLists (listAdd h new head) (ls.modify (new :: ·) head) := by
  refine hrep.insert hnew hhead (fun _ => List.Perm.refl _) (fun _ hring => hring.add) ?_
  intro xs hring y hynew hy
  refine linkIn_of_ne hynew ?_ ?_
  · exact fun heq => hy (heq ▸ List.mem_cons_self)
  · exact fun heq => hy (heq ▸ hring.next_mem)

theorem HoldsLists.addTail (hrep : HoldsLists h ls) (hnew : new ∉ ls.nodes)
    (hhead : head ∈ ls.heads) :
    HoldsLists (listAddTail h new head) (ls.modify (· ++ [new]) head) := by
  refine hrep.insert hnew hhead (fun xs => List.perm_append_singleton new xs)
    (fun _ hring => hring.addTail) ?_
  intro xs hring y hynew hy
  refine linkIn_of_ne hynew ?_ ?_
  · exact fun heq => hy (heq ▸ hring.prev_mem)
  · exact fun heq => hy (heq ▸ List.mem_cons_self)

/-- An entry is taken out of its list, and the other rings do not notice. -/
theorem HoldsLists.delEntry (hrep : HoldsLists h ls) (hentry : entry ∈ ls.entries) :
    HoldsLists (listDelEntry h entry) (ls.drop entry) := by
  obtain ⟨q, hq, hmem⟩ := Lists.mem_entries.mp hentry
  refine ⟨hrep.nodup.sublist (Lists.nodes_drop hrep.nodup hentry).1, fun p' hp' => ?_⟩
  obtain ⟨p, hp, rfl⟩ := List.mem_map.mp hp'
  obtain ⟨xs, ys, hsplit⟩ := List.append_of_mem hmem
  have hring := hrep.ring q hq
  by_cases hpq : p = q
  · subst hpq
    have hxs : entry ∉ xs := by
      have hnodup := (List.nodup_cons.mp hring.nodup).2
      rw [hsplit] at hnodup
      exact fun hmem' => (List.nodup_append'.mp hnodup).2.2 hmem' List.mem_cons_self
    rw [hsplit] at hring
    rw [hsplit, List.erase_append_right _ hxs, List.erase_cons_head]
    exact hring.del
  · have hnot : entry ∉ p.2 := fun hmem' =>
      hpq (Lists.eq_of_mem hrep.nodup hp hq (List.mem_cons_of_mem _ hmem')
        (List.mem_cons_of_mem _ hmem))
    rw [List.erase_of_not_mem hnot]
    refine hrep.ring_frame hp hq hpq fun y _ hyq => ?_
    rw [hsplit] at hring hyq
    obtain ⟨hprev, hnext⟩ := hring.around
    refine linkOut_of_ne (fun heq => hyq ?_) (fun heq => hyq ?_)
    · exact List.cons_subset_cons q.1 (List.subset_append_left xs _) (heq ▸ hprev)
    · exact List.cons_subset_cons q.1
        (fun z hz => List.mem_append_right xs (List.mem_cons_of_mem entry hz)) (heq ▸ hnext)

theorem HoldsLists.del (hrep : HoldsLists h ls) (hentry : entry ∈ ls.entries) :
    HoldsLists (listDel h entry) (ls.drop entry) := by
  have hdel := hrep.delEntry hentry
  refine ⟨hdel.nodup, fun p hp => (hdel.ring p hp).frame fun y hy => ?_⟩
  have hne : y ≠ entry := by
    rintro rfl
    exact (Lists.nodes_drop hrep.nodup hentry).2 (Lists.mem_nodes.mpr ⟨p, hp, hy⟩)
  rw [listDel, setPrev_of_ne hne, setNext_of_ne hne]

/-- **A call** that is allowed does to the links what it is meant to do to the lists. -/
theorem HoldsLists.step {op : ListOp} (hrep : HoldsLists h ls) (hop : op.apply ls = some ls') :
    HoldsLists (op.run h) ls' := by
  cases op with
  | init head =>
    obtain ⟨hhead, hls⟩ := Option.ite_none_left_eq_some.mp hop
    obtain rfl := Option.some.inj hls
    exact hrep.init hhead
  | add new head =>
    obtain ⟨⟨hnew, hhead⟩, hls⟩ := Option.ite_none_right_eq_some.mp hop
    obtain rfl := Option.some.inj hls
    exact hrep.add hnew hhead
  | addTail new head =>
    obtain ⟨⟨hnew, hhead⟩, hls⟩ := Option.ite_none_right_eq_some.mp hop
    obtain rfl := Option.some.inj hls
    exact hrep.addTail hnew hhead
  | del entry =>
    obtain ⟨hentry, hls⟩ := Option.ite_none_right_eq_some.mp hop
    obtain rfl := Option.some.inj hls
    exact hrep.del hentry
  | move entry head =>
    obtain ⟨⟨hentry, hhead⟩, hls⟩ := Option.ite_none_right_eq_some.mp hop
    obtain rfl := Option.some.inj hls
    exact (hrep.delEntry hentry).add (Lists.nodes_drop hrep.nodup hentry).2
      (Lists.heads_drop.symm ▸ hhead)
  | moveTail entry head =>
    obtain ⟨⟨hentry, hhead⟩, hls⟩ := Option.ite_none_right_eq_some.mp hop
    obtain rfl := Option.some.inj hls
    exact (hrep.delEntry hentry).addTail (Lists.nodes_drop hrep.nodup hentry).2
      (Lists.heads_drop.symm ▸ hhead)

end Calls

/-! ## Sequences of calls -/

/-- The nodes that a call names. Their neighbours are written, too. -/
def ListOp.args : ListOp → List (BitVec 64)
  | .init head => [head]
  | .add new head => [new, head]
  | .addTail new head => [new, head]
  | .del entry => [entry]
  | .move entry head => [entry, head]
  | .moveTail entry head => [entry, head]

section Runs

variable {h : ListHeap} {ls ls' : Lists} {entry head y : BitVec 64} {op : ListOp}
  {ops : List ListOp}

theorem HoldsLists.head_ring (hrep : HoldsLists h ls) (hhead : head ∈ ls.heads) :
    ∃ xs, Ring h head xs ∧ ∀ y ∈ head :: xs, y ∈ ls.nodes := by
  obtain ⟨p, hp, rfl⟩ := Lists.mem_heads.mp hhead
  exact ⟨p.2, hrep.ring p hp, fun y hy => Lists.mem_nodes.mpr ⟨p, hp, hy⟩⟩

theorem HoldsLists.around (hrep : HoldsLists h ls) (hentry : entry ∈ ls.entries) :
    (h entry).prev ∈ ls.nodes ∧ (h entry).next ∈ ls.nodes := by
  obtain ⟨q, hq, hmem⟩ := Lists.mem_entries.mp hentry
  obtain ⟨xs, ys, hsplit⟩ := List.append_of_mem hmem
  have hring := hrep.ring q hq
  rw [hsplit] at hring
  obtain ⟨hprev, hnext⟩ := hring.around
  refine ⟨Lists.mem_nodes.mpr ⟨q, hq, ?_⟩, Lists.mem_nodes.mpr ⟨q, hq, ?_⟩⟩
  · rw [hsplit]
    exact List.cons_subset_cons q.1 (List.subset_append_left xs _) hprev
  · rw [hsplit]
    exact List.cons_subset_cons q.1
      (fun z hz => List.mem_append_right xs (List.mem_cons_of_mem entry hz)) hnext

/-- A call writes to nodes of the lists and to those it names. -/
theorem HoldsLists.frame (hrep : HoldsLists h ls) (hop : op.apply ls = some ls')
    (hy : y ∉ ls.nodes) (hargs : y ∉ op.args) : op.run h y = h y := by
  have hdel : ∀ entry ∈ ls.entries, listDelEntry h entry y = h y := fun entry hentry =>
    linkOut_of_ne (fun heq => hy (heq ▸ (hrep.around hentry).1))
      (fun heq => hy (heq ▸ (hrep.around hentry).2))
  have hadd : ∀ {h' : ListHeap} {ls₁ : Lists} {new head : BitVec 64}, HoldsLists h' ls₁ →
      y ∉ ls₁.nodes → y ≠ new → head ∈ ls₁.heads →
      listAdd h' new head y = h' y ∧ listAddTail h' new head y = h' y := by
    intro h' ls₁ new head hrep₁ hy₁ hnew hhead
    obtain ⟨xs, hring, hsub⟩ := hrep₁.head_ring hhead
    have hne : y ≠ head := fun heq => hy₁ (heq ▸ hsub head List.mem_cons_self)
    exact ⟨linkIn_of_ne hnew hne fun heq => hy₁ (heq ▸ hsub _ hring.next_mem),
      linkIn_of_ne hnew (fun heq => hy₁ (heq ▸ hsub _ hring.prev_mem)) hne⟩
  have hdrop : ∀ entry ∈ ls.entries, y ∉ (ls.drop entry).nodes := fun entry hentry hmem =>
    hy ((Lists.nodes_drop hrep.nodup hentry).1.subset hmem)
  cases op with
  | init head =>
    have hne : y ≠ head := List.ne_of_not_mem_cons hargs
    rw [ListOp.run, initListHead, setPrev_of_ne hne, setNext_of_ne hne]
  | add new head =>
    obtain ⟨⟨-, hhead⟩, -⟩ := Option.ite_none_right_eq_some.mp hop
    exact (hadd hrep hy (List.ne_of_not_mem_cons hargs) hhead).1
  | addTail new head =>
    obtain ⟨⟨-, hhead⟩, -⟩ := Option.ite_none_right_eq_some.mp hop
    exact (hadd hrep hy (List.ne_of_not_mem_cons hargs) hhead).2
  | del entry =>
    obtain ⟨hentry, -⟩ := Option.ite_none_right_eq_some.mp hop
    have hne : y ≠ entry := List.ne_of_not_mem_cons hargs
    rw [ListOp.run, listDel, setPrev_of_ne hne, setNext_of_ne hne]
    exact hdel entry hentry
  | move entry head =>
    obtain ⟨⟨hentry, hhead⟩, -⟩ := Option.ite_none_right_eq_some.mp hop
    exact (hadd (hrep.delEntry hentry) (hdrop entry hentry) (List.ne_of_not_mem_cons hargs)
      (Lists.heads_drop.symm ▸ hhead)).1.trans (hdel entry hentry)
  | moveTail entry head =>
    obtain ⟨⟨hentry, hhead⟩, -⟩ := Option.ite_none_right_eq_some.mp hop
    exact (hadd (hrep.delEntry hentry) (hdrop entry hentry) (List.ne_of_not_mem_cons hargs)
      (Lists.heads_drop.symm ▸ hhead)).2.trans (hdel entry hentry)

/-- A call adds no node but those it names. -/
theorem ListOp.nodes_apply (hnodup : ls.nodes.Nodup) (hop : op.apply ls = some ls')
    (hy : y ∈ ls'.nodes) : y ∈ op.args ∨ y ∈ ls.nodes := by
  have hinsert : ∀ {ls₁ : Lists} {new head : BitVec 64} {f : List (BitVec 64) → List (BitVec 64)},
      ls₁.nodes.Nodup → head ∈ ls₁.heads → (∀ xs, (f xs).Perm (new :: xs)) →
      y ∈ (ls₁.modify f head).nodes → y = new ∨ y ∈ ls₁.nodes := fun hnodup₁ hhead hf hmem =>
    List.mem_cons.mp ((Lists.nodes_modify hnodup₁ hhead hf).mem_iff.mp hmem)
  have hdrop : ∀ entry ∈ ls.entries, (ls.drop entry).nodes.Sublist ls.nodes :=
    fun entry hentry => (Lists.nodes_drop hnodup hentry).1
  cases op with
  | init head =>
    obtain ⟨-, hls⟩ := Option.ite_none_left_eq_some.mp hop
    obtain rfl := Option.some.inj hls
    exact (List.mem_cons.mp hy).imp_left fun heq => List.mem_cons.mpr (.inl heq)
  | add new head =>
    obtain ⟨⟨-, hhead⟩, hls⟩ := Option.ite_none_right_eq_some.mp hop
    obtain rfl := Option.some.inj hls
    exact (hinsert hnodup hhead (fun _ => List.Perm.refl _) hy).imp_left
      fun heq => List.mem_cons.mpr (.inl heq)
  | addTail new head =>
    obtain ⟨⟨-, hhead⟩, hls⟩ := Option.ite_none_right_eq_some.mp hop
    obtain rfl := Option.some.inj hls
    exact (hinsert hnodup hhead (fun xs => List.perm_append_singleton new xs) hy).imp_left
      fun heq => List.mem_cons.mpr (.inl heq)
  | del entry =>
    obtain ⟨hentry, hls⟩ := Option.ite_none_right_eq_some.mp hop
    obtain rfl := Option.some.inj hls
    exact .inr ((hdrop entry hentry).subset hy)
  | move entry head =>
    obtain ⟨⟨hentry, hhead⟩, hls⟩ := Option.ite_none_right_eq_some.mp hop
    obtain rfl := Option.some.inj hls
    exact (hinsert (hnodup.sublist (hdrop entry hentry)) (Lists.heads_drop.symm ▸ hhead)
      (fun _ => List.Perm.refl _) hy).imp (fun heq => List.mem_cons.mpr (.inl heq))
      fun hmem => (hdrop entry hentry).subset hmem
  | moveTail entry head =>
    obtain ⟨⟨hentry, hhead⟩, hls⟩ := Option.ite_none_right_eq_some.mp hop
    obtain rfl := Option.some.inj hls
    exact (hinsert (hnodup.sublist (hdrop entry hentry)) (Lists.heads_drop.symm ▸ hhead)
      (fun xs => List.perm_append_singleton entry xs) hy).imp
      (fun heq => List.mem_cons.mpr (.inl heq)) fun hmem => (hdrop entry hentry).subset hmem

/-- The links after calls that are allowed, and the nodes that were not touched. -/
theorem HoldsLists.run (hrep : HoldsLists h ls) (hops : ops.foldlM ListOp.apply ls = some ls') :
    HoldsLists (ops.foldl ListOp.run h) ls' ∧
      ∀ y, y ∉ ls.nodes → (∀ op ∈ ops, y ∉ op.args) → ops.foldl ListOp.run h y = h y := by
  induction ops generalizing h ls with
  | nil =>
    obtain rfl := Option.some.inj hops
    exact ⟨hrep, fun _ _ _ => rfl⟩
  | cons op ops ih =>
    rw [List.foldlM_cons] at hops
    obtain ⟨ls₁, hop, hrest⟩ := Option.bind_eq_some_iff.mp hops
    obtain ⟨hrep', hsame⟩ := ih (hrep.step hop) hrest
    refine ⟨hrep', fun y hy hargs => ?_⟩
    have hyop : y ∉ op.args := hargs op List.mem_cons_self
    have hy₁ : y ∉ ls₁.nodes := fun hmem =>
      (ListOp.nodes_apply hrep.nodup hop hmem).elim hyop hy
    exact (hsame y hy₁ fun op' hop' => hargs op' (List.mem_cons_of_mem op hop')).trans
      (hrep.frame hop hy hyop)

end Runs

/-- **Lists after any calls.** From links that hold no list, after calls that are all allowed, the
loop over a list visits its entries in their order, `list_empty` and `list_first_entry_or_null`
are right, no node is in two lists, and the links of a node that no call named are as before. -/
theorem lists_of_run (h : ListHeap) (ops : List ListOp) (ls : Lists)
    (hops : ops.foldlM ListOp.apply [] = some ls) :
    let h' := ops.foldl ListOp.run h
    ls.nodes.Nodup ∧
      (∀ head xs, (head, xs) ∈ ls →
        (∀ (σ : Type) (off : BitVec 64) (body : σ → BitVec 64 → Exec σ) (fuel : ℕ) (s : σ),
          xs.length ≤ fuel →
            listForEachEntry h' head off body fuel s =
              (xs.map fun x => listEntry x off).foldlM body s) ∧
        (listEmpty h' head = true ↔ xs = []) ∧
        ∀ off, listFirstEntryOrNull h' head off = xs.head?.map fun x => listEntry x off) ∧
      ∀ y, (∀ op ∈ ops, y ∉ op.args) → h' y = h y := by
  have hnone : HoldsLists h [] := ⟨List.nodup_nil, fun p hp => absurd hp List.not_mem_nil⟩
  obtain ⟨hrep, hsame⟩ := hnone.run hops
  refine ⟨hrep.nodup, fun head xs hmem => ?_, fun y hy => hsame y List.not_mem_nil hy⟩
  have hring := hrep.ring (head, xs) hmem
  refine ⟨fun σ off body fuel s hfuel => listForEachEntry_ring hring hfuel, ?_, fun off => ?_⟩
  · rw [listEmpty, decide_eq_true_iff]
    exact hring.next_eq_head_iff
  · have hempty := hring.next_eq_head_iff
    have hnext := hring.seg.next_eq
    rw [listFirstEntryOrNull]
    cases xs with
    | nil => exact if_neg (not_not.mpr (hempty.mpr rfl))
    | cons x xs =>
      rw [if_pos fun heq => List.cons_ne_nil x xs (hempty.mp heq), hnext]
      rfl

/-- Two lists, with an entry that goes from one to the other. -/
theorem lists_of_run_move :
    listEmpty ([ListOp.init 8, .init 24, .add 40 8, .addTail 56 8, .move 40 24, .del 56].foldl
      ListOp.run fun _ => ⟨0, 0⟩) 8 = true :=
  ((lists_of_run (fun _ => ⟨0, 0⟩)
    [.init 8, .init 24, .add 40 8, .addTail 56 8, .move 40 24, .del 56]
    [(24, [40]), (8, [])] (by decide)).2.1 8 [] (by decide)).2.1.mpr rfl

end Lvisor
