import Mathlib.Data.List.Perm.Basic
import Mathlib.Data.List.Nodup

/-!
# Lib.Heap — allocated blocks and the record of what was freed

A heap knows the blocks that are allocated now and, newest first, the blocks that were freed.
Touching or freeing a block that is not allocated has no result.

* `Owns h xs`: the blocks `xs` are different and allocated, nothing was freed twice, and nothing
  freed is still allocated.
* `Owns.free`, `Owns.calloc`: what freeing an owned block and allocating a new one leave owned.
-/

namespace Lib

structure Heap (α : Type) where
  live : List α
  freed : List α

namespace Heap

section Code

variable {α β : Type} [DecidableEq α]

/-- Read or write something of the block `p`. -/
def touch (h : Heap α) (p : α) (v : β) : Option β := if p ∈ h.live then some v else none

def free (h : Heap α) (p : α) : Option (Heap α) :=
  h.touch p ⟨h.live.filter (· ≠ p), p :: h.freed⟩

omit [DecidableEq α] in
def calloc (h : Heap α) (p : α) : Heap α := ⟨p :: h.live, h.freed⟩

end Code

variable {α β : Type} {h : Heap α} {p : α} {xs ys : List α}

/-- The blocks `xs` are different and allocated, and what was freed was freed once and is gone. -/
structure Owns (h : Heap α) (xs : List α) : Prop where
  nodup : xs.Nodup
  live : ∀ x ∈ xs, x ∈ h.live
  once : h.freed.Nodup
  gone : ∀ x ∈ h.freed, x ∉ h.live

theorem Owns.perm (ho : h.Owns xs) (hp : xs.Perm ys) : h.Owns ys :=
  ⟨hp.nodup_iff.mp ho.nodup, fun x hx => ho.live x (hp.mem_iff.mpr hx), ho.once, ho.gone⟩

theorem Owns.sublist (ho : h.Owns xs) (hs : ys.Sublist xs) : h.Owns ys :=
  ⟨ho.nodup.sublist hs, fun x hx => ho.live x (hs.subset hx), ho.once, ho.gone⟩

/-- What is owned was never freed. -/
theorem Owns.notMem_freed (ho : h.Owns xs) (hp : p ∈ xs) : p ∉ h.freed :=
  fun hf => ho.gone p hf (ho.live p hp)

theorem Owns.calloc (ho : h.Owns xs) (hl : p ∉ h.live) (hf : p ∉ h.freed) :
    (h.calloc p).Owns (p :: xs) := by
  refine ⟨List.nodup_cons.mpr ⟨fun hx => hl (ho.live p hx), ho.nodup⟩, ?_, ho.once, ?_⟩
  · intro x hx
    rcases List.mem_cons.mp hx with rfl | hx
    · exact List.mem_cons_self
    · exact List.mem_cons_of_mem p (ho.live x hx)
  · intro x hx hm
    rcases List.mem_cons.mp hm with rfl | hm
    · exact hf hx
    · exact ho.gone x hx hm

variable [DecidableEq α]

@[simp] theorem touch_eq {v : β} (hp : p ∈ h.live) : h.touch p v = some v := if_pos hp

/-- An owned block can be freed, and everything else stays owned. -/
theorem Owns.free (ho : h.Owns (p :: xs)) :
    ∃ k, h.free p = some k ∧ k.Owns xs ∧ k.freed = p :: h.freed := by
  obtain ⟨hp, hd⟩ := List.nodup_cons.mp ho.nodup
  refine ⟨_, touch_eq (ho.live p List.mem_cons_self), ⟨hd, ?_, ?_, ?_⟩, rfl⟩
  · intro x hx
    have hne : x ≠ p := fun e => hp (e ▸ hx)
    exact List.mem_filter.mpr ⟨ho.live x (List.mem_cons_of_mem p hx), decide_eq_true hne⟩
  · exact List.nodup_cons.mpr ⟨ho.notMem_freed List.mem_cons_self, ho.once⟩
  · intro x hx hm
    obtain ⟨hl, hne⟩ := List.mem_filter.mp hm
    rcases List.mem_cons.mp hx with rfl | hx
    · exact of_decide_eq_true hne rfl
    · exact ho.gone x hx hl

end Heap

end Lib
