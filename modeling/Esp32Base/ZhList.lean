import Mathlib.Algebra.Order.Ring.Int
import Mathlib.Data.List.Nodup
import Mathlib.Tactic.Ring
import Esp32Base.Lib.Links

/-!
# ZhList — the doubly linked list (`zhlist.c`, `zhlist_exp.c`)

The nodes are pieces of memory of the caller: inserting writes the links of the node and of its
neighbours, deleting leaves the links of the removed node as they are.

* `Represents`: the list header and the links of the heap hold a sequence of distinct nodes.
* `zhListRun_represents`: every allowed sequence of calls keeps the abstract sequence.
-/

namespace Esp32Base

open Lib

/-! ## The code -/

section Code

/-- The links of all nodes (`TzhListNode.next`, `TzhListNode.prev`) and one list header: `HEAD` is
`node.next` of the header, `TAIL` its `node.prev`. -/
structure TzhList (α : Type) where
  next : α → Option α
  prev : α → Option α
  HEAD : Option α
  TAIL : Option α
  count : ℤ

variable {α : Type}

def zhListInit (pList : TzhList α) : TzhList α :=
  { pList with HEAD := none, TAIL := none, count := 0 }

def zhListFirst (pList : TzhList α) : Option α := pList.HEAD

def zhListLast (pList : TzhList α) : Option α := pList.TAIL

def zhListNext (pList : TzhList α) (pNode : α) : Option α := pList.next pNode

def zhListPrev (pList : TzhList α) (pNode : α) : Option α := pList.prev pNode

def zhListCount (pList : TzhList α) : ℤ := pList.count

variable [DecidableEq α]

def TzhList.setNext (pList : TzhList α) (p : α) (v : Option α) : TzhList α :=
  { pList with next := Function.update pList.next p v }

def TzhList.setPrev (pList : TzhList α) (p : α) (v : Option α) : TzhList α :=
  { pList with prev := Function.update pList.prev p v }

/-- Insert a node after `pPrev`, at the head when `pPrev` is `NULL`. -/
def zhListInsert (pList : TzhList α) (pPrev : Option α) (pNode : α) : TzhList α :=
  let r : Option α × TzhList α := match pPrev with
    | none => (pList.HEAD, { pList with HEAD := some pNode })
    | some q => (pList.next q, pList.setNext q (some pNode))
  let pNext := r.1
  let pList := match pNext with
    | none => { r.2 with TAIL := some pNode }
    | some n => r.2.setPrev n (some pNode)
  let pList := (pList.setNext pNode pNext).setPrev pNode pPrev
  { pList with count := pList.count + 1 }

def zhListAdd (pList : TzhList α) (pNode : α) : TzhList α :=
  zhListInsert pList pList.TAIL pNode

def zhListDelete (pList : TzhList α) (pNode : α) : TzhList α :=
  let pList := match pList.prev pNode with
    | none => { pList with HEAD := pList.next pNode }
    | some q => pList.setNext q (pList.next pNode)
  let pList := match pList.next pNode with
    | none => { pList with TAIL := pList.prev pNode }
    | some n => pList.setPrev n (pList.prev pNode)
  { pList with count := pList.count - 1 }

/-- The loop of `zhListFind`; `none` when the fuel runs out in a list that never ends. -/
def zhListFindLoop (pList : TzhList α) (pNode : α) : ℕ → Option α → ℤ → Option ℤ
  | 0, _, _ => none
  | _ + 1, none, _ => some (-1)
  | fuel + 1, some pNextNode, index =>
    if pNextNode = pNode then some index
    else zhListFindLoop pList pNode fuel (zhListNext pList pNextNode) (index + 1)

/-- The number of a node, counted from 1, or -1. -/
def zhListFind (fuel : ℕ) (pList : TzhList α) (pNode : α) : Option ℤ :=
  zhListFindLoop pList pNode fuel (zhListFirst pList) 1

omit [DecidableEq α] in
/-- `index` steps along `next`; `none` when a step starts at the null pointer. -/
def zhListSteps (pList : TzhList α) : ℕ → Option α → Option (Option α)
  | 0, p => some p
  | _ + 1, none => none
  | i + 1, some p => zhListSteps pList i (zhListNext pList p)

/-- The node at an index counted from 0: `some none` is the null pointer the source returns. -/
def zhListNodeFindWithIndex (pList : TzhList α) (index : ℤ) : Option (Option α) :=
  if 0 ≤ index ∧ index < zhListCount pList then
    zhListSteps pList index.toNat (zhListFirst pList)
  else some none

end Code

/-! ## The abstract sequence -/

section Spec

variable {α : Type} [DecidableEq α]

/-- The calls that change a list. -/
inductive ListCall (α : Type)
  | insert (pPrev : Option α) (pNode : α)
  | add (pNode : α)
  | delete (pNode : α)

def ListCall.run (pList : TzhList α) : ListCall α → TzhList α
  | .insert pPrev pNode => zhListInsert pList pPrev pNode
  | .add pNode => zhListAdd pList pNode
  | .delete pNode => zhListDelete pList pNode

def zhListRun (pList : TzhList α) (cs : List (ListCall α)) : TzhList α :=
  cs.foldl ListCall.run pList

/-- Insert `x` behind `p`, in front of everything when there is no `p`. -/
def insertAfter (x : α) : Option α → List α → List α
  | none, l => x :: l
  | some _, [] => []
  | some p, y :: l => if y = p then y :: x :: l else y :: insertAfter x (some p) l

/-- The call on the abstract sequence. -/
def ListCall.apply (l : List α) : ListCall α → List α
  | .insert pPrev pNode => insertAfter pNode pPrev l
  | .add pNode => l ++ [pNode]
  | .delete pNode => l.erase pNode

def applyAll (l : List α) (cs : List (ListCall α)) : List α :=
  cs.foldl ListCall.apply l

omit [DecidableEq α] in
/-- Inserted nodes are no members; the node inserted after and the deleted node are members. -/
def ListCall.Allowed (l : List α) : ListCall α → Prop
  | .insert pPrev pNode => (∀ p ∈ pPrev, p ∈ l) ∧ pNode ∉ l
  | .add pNode => pNode ∉ l
  | .delete pNode => pNode ∈ l

instance (l : List α) : (c : ListCall α) → Decidable (c.Allowed l)
  | .insert pPrev pNode => inferInstanceAs (Decidable ((∀ p ∈ pPrev, p ∈ l) ∧ pNode ∉ l))
  | .add pNode => inferInstanceAs (Decidable (pNode ∉ l))
  | .delete pNode => inferInstanceAs (Decidable (pNode ∈ l))

/-- Every call of the run is allowed when its turn comes. -/
def AllowedRun : List α → List (ListCall α) → Prop
  | _, [] => True
  | l, c :: cs => c.Allowed l ∧ AllowedRun (c.apply l) cs

instance decidableAllowedRun : (l : List α) → (cs : List (ListCall α)) → Decidable (AllowedRun l cs)
  | _, [] => .isTrue trivial
  | l, c :: cs => @instDecidableAnd _ _ _ (decidableAllowedRun (c.apply l) cs)

/-- The header and the links hold the sequence `l` of distinct nodes. -/
structure Represents (s : TzhList α) (l : List α) : Prop where
  nodup : l.Nodup
  head : s.HEAD = l.head?
  tail : s.TAIL = l.getLast?
  linked : Linked s.next s.prev none l none
  count : s.count = l.length

omit [DecidableEq α] in
theorem zhListInit_represents (s : TzhList α) : Represents (zhListInit s) [] :=
  ⟨List.nodup_nil, rfl, rfl, trivial, rfl⟩

/-! ## Inserting and deleting -/

/-- Where a new node behind `pPrev` finds its next node. -/
def TzhList.nextOf (s : TzhList α) : Option α → Option α
  | none => s.HEAD
  | some q => s.next q

/-- All writes of an insertion, in terms of the two neighbours. -/
theorem zhListInsert_eq (s : TzhList α) (pPrev : Option α) (x : α) :
    zhListInsert s pPrev x =
      { next := Function.update (link s.next pPrev (some x)) x (s.nextOf pPrev)
        prev := Function.update (link s.prev (s.nextOf pPrev) (some x)) x pPrev
        HEAD := pPrev.elim (some x) fun _ => s.HEAD
        TAIL := (s.nextOf pPrev).elim (some x) fun _ => s.TAIL
        count := s.count + 1 } := by
  obtain ⟨next, prev, HEAD, TAIL, count⟩ := s
  cases pPrev with
  | none => cases HEAD <;> rfl
  | some q =>
    simp only [zhListInsert, TzhList.nextOf]
    cases next q <;> rfl

/-- All writes of a deletion, in terms of the two neighbours. -/
theorem zhListDelete_eq {s : TzhList α} {x : α} (h : s.prev x ≠ some x) :
    zhListDelete s x =
      { next := link s.next (s.prev x) (s.next x)
        prev := link s.prev (s.next x) (s.prev x)
        HEAD := (s.prev x).elim (s.next x) fun _ => s.HEAD
        TAIL := (s.next x).elim (s.prev x) fun _ => s.TAIL
        count := s.count - 1 } := by
  cases hp : s.prev x with
  | none =>
    simp only [zhListDelete, hp]
    cases s.next x <;> rfl
  | some q =>
    -- the link written first is not the one read next
    have hq : x ≠ q := fun e => h (by rw [hp, e])
    have hn : (s.setNext q (s.next x)).next x = s.next x := Function.update_of_ne hq ..
    have hv : (s.setNext q (s.next x)).prev x = some q := hp
    simp only [zhListDelete, hp, hn, hv]
    cases s.next x <;> rfl

variable {s : TzhList α} {a b : List α} {x : α}

omit [DecidableEq α] in
theorem Represents.nextOf (h : Represents s (a ++ b)) : s.nextOf a.getLast? = b.head? := by
  cases a using List.reverseRecOn with
  | nil => exact h.head
  | append_singleton a q =>
    have hl := h.linked
    rw [List.append_assoc, linked_append, List.singleton_append, linked_cons] at hl
    rw [List.getLast?_concat]
    exact hl.2.2.1.trans (Option.or_none)

theorem Represents.insert (h : Represents s (a ++ b)) (hx : x ∉ a ++ b) :
    Represents (zhListInsert s a.getLast? x) (a ++ x :: b) := by
  rw [zhListInsert_eq, h.nextOf]
  refine ⟨?_, ?_, ?_, h.linked.insert h.nodup hx, ?_⟩
  · exact List.nodup_middle.mpr (List.nodup_cons.mpr ⟨hx, h.nodup⟩)
  · show (a.getLast?.elim (some x) fun _ => s.HEAD) = _
    rw [h.head]
    cases a with
    | nil => rfl
    | cons y a => rw [List.getLast?_cons]; rfl
  · show (b.head?.elim (some x) fun _ => s.TAIL) = _
    rw [h.tail]
    cases b with
    | nil => rw [List.getLast?_concat]; rfl
    | cons y b => rw [List.getLast?_append, List.getLast?_append, List.getLast?_cons_cons]; rfl
  · show s.count + 1 = _
    rw [h.count, List.length_append, List.length_append, List.length_cons]
    push_cast
    ring

omit [DecidableEq α] in
theorem Represents.notMem (h : Represents s (a ++ x :: b)) : x ∉ a ++ b :=
  (List.nodup_cons.mp (List.nodup_middle.mp h.nodup)).1

omit [DecidableEq α] in
/-- The links of a node are its neighbours in the sequence. -/
theorem Represents.links (h : Represents s (a ++ x :: b)) :
    s.prev x = a.getLast? ∧ s.next x = b.head? := by
  have hl := h.linked
  rw [linked_append, linked_cons, Option.or_none, Option.or_none] at hl
  exact ⟨hl.2.1, hl.2.2.1.trans Option.or_none⟩

omit [DecidableEq α] in
theorem Represents.prev_ne (h : Represents s (a ++ x :: b)) : s.prev x ≠ some x := by
  rw [h.links.1]
  exact (getLast?_ne_of_notMem fun hm => h.notMem (List.mem_append_left b hm)).symm

/-- The links of other nodes do not matter. -/
theorem Represents.setLinks {l : List α} (h : Represents s l) (hx : x ∉ l) (v w : Option α) :
    Represents ((s.setNext x v).setPrev x w) l := by
  refine ⟨h.nodup, h.head, h.tail, h.linked.congr (fun y hy => ?_) (fun y hy => ?_), h.count⟩
  · exact Function.update_of_ne (ne_of_mem_of_not_mem hy hx) ..
  · exact Function.update_of_ne (ne_of_mem_of_not_mem hy hx) ..

theorem Represents.delete (h : Represents s (a ++ x :: b)) :
    Represents (zhListDelete s x) (a ++ b) := by
  rw [zhListDelete_eq h.prev_ne, h.links.1, h.links.2]
  refine ⟨(List.nodup_cons.mp (List.nodup_middle.mp h.nodup)).2, ?_, ?_,
    h.linked.remove h.nodup, ?_⟩
  · show (a.getLast?.elim b.head? fun _ => s.HEAD) = _
    rw [h.head]
    cases a with
    | nil => rfl
    | cons y a => rw [List.getLast?_cons]; rfl
  · show (b.head?.elim a.getLast? fun _ => s.TAIL) = _
    rw [h.tail]
    cases b with
    | nil => rw [List.append_nil]; rfl
    | cons y b => rw [List.getLast?_append, List.getLast?_append, List.getLast?_cons_cons]; rfl
  · show s.count - 1 = _
    rw [h.count, List.length_append, List.length_append, List.length_cons]
    push_cast
    ring

/-- Inserting behind a member splits the sequence at it. -/
theorem insertAfter_split {l : List α} {pPrev : Option α} (h : ∀ p ∈ pPrev, p ∈ l) :
    ∃ a b, l = a ++ b ∧ a.getLast? = pPrev ∧ insertAfter x pPrev l = a ++ x :: b := by
  cases pPrev with
  | none => exact ⟨[], l, rfl, rfl, by rw [insertAfter]; rfl⟩
  | some p =>
    replace h : p ∈ l := h p rfl
    induction l with
    | nil => cases h
    | cons y l ih =>
      rw [insertAfter]
      by_cases hy : y = p
      · subst hy
        exact ⟨[y], l, rfl, rfl, if_pos rfl⟩
      · obtain ⟨a, b, rfl, h2, h3⟩ := ih ((List.mem_cons.mp h).resolve_left fun e => hy e.symm)
        refine ⟨y :: a, b, rfl, ?_, ?_⟩
        · rw [List.getLast?_cons, h2, Option.getD_some]
        · rw [if_neg hy, h3, List.cons_append]

/-- Every allowed call keeps the abstract sequence. -/
theorem ListCall.run_represents {l : List α} (h : Represents s l) {c : ListCall α}
    (hc : c.Allowed l) : Represents (c.run s) (c.apply l) := by
  cases c with
  | insert pPrev pNode =>
    obtain ⟨a, b, rfl, h2, h3⟩ := insertAfter_split hc.1 (x := pNode)
    rw [run, apply, h3, ← h2]
    exact h.insert hc.2
  | add pNode =>
    rw [run, apply, zhListAdd, h.tail]
    rw [← List.append_nil l] at h hc
    exact h.insert hc
  | delete pNode =>
    obtain ⟨a, b, rfl, hx, he⟩ : ∃ a b, l = a ++ pNode :: b ∧ pNode ∉ a ∧
        l.erase pNode = a ++ b := by
      obtain ⟨a, b, hx, h1, h2⟩ := List.exists_erase_eq hc
      exact ⟨a, b, h1, hx, h2⟩
    rw [run, apply, he]
    exact h.delete

theorem zhListRun_represents {l : List α} (h : Represents s l) {cs : List (ListCall α)}
    (hcs : AllowedRun l cs) : Represents (zhListRun s cs) (applyAll l cs) := by
  induction cs generalizing s l with
  | nil => exact h
  | cons c cs ih => exact ih (ListCall.run_represents h hcs.1) hcs.2

/-! ## Finding -/

omit [DecidableEq α] in
theorem zhListSteps_of_follows {p : Option α} (h : Follows s.next p (a ++ x :: b)) :
    zhListSteps s a.length p = some (some x) := by
  induction a generalizing p with
  | nil => exact congrArg some h.1
  | cons y a ih =>
    obtain ⟨rfl, h⟩ := h
    exact ih h

theorem zhListFindLoop_of_follows {p : Option α} (h : Follows s.next p (a ++ x :: b))
    (hx : x ∉ a) {fuel : ℕ} (hf : a.length < fuel) (k : ℤ) :
    zhListFindLoop s x fuel p k = some (k + a.length) := by
  induction a generalizing p fuel k with
  | nil =>
    obtain ⟨rfl, -⟩ := h
    obtain ⟨fuel, rfl⟩ := Nat.exists_eq_add_one_of_ne_zero (Nat.ne_of_gt hf)
    rw [zhListFindLoop, if_pos rfl, List.length_nil, Nat.cast_zero, add_zero]
  | cons y a ih =>
    obtain ⟨rfl, h⟩ := h
    obtain ⟨fuel, rfl⟩ := Nat.exists_eq_add_one_of_ne_zero (Nat.ne_of_gt (Nat.zero_lt_of_lt hf))
    rw [List.mem_cons, not_or] at hx
    rw [zhListFindLoop, if_neg (Ne.symm hx.1), zhListNext,
      ih h hx.2 (Nat.lt_of_succ_lt_succ hf), List.length_cons]
    push_cast
    rw [add_assoc, add_comm 1]

theorem Represents.find {l : List α} (h : Represents s l) {i : ℤ} (hi : 0 ≤ i)
    (hc : i < s.count) :
    ∃ x, zhListNodeFindWithIndex s i = some (some x) ∧
      ∀ fuel, l.length < fuel → zhListFind fuel s x = some (i + 1) := by
  rw [h.count] at hc
  obtain ⟨n, rfl⟩ := Int.eq_ofNat_of_zero_le hi
  have hn : n < l.length := by omega
  obtain ⟨a, b, x, hl, ha⟩ : ∃ a b x, l = a ++ x :: b ∧ a.length = n :=
    ⟨l.take n, l.drop (n + 1), l[n], by rw [List.getElem_cons_drop, List.take_append_drop],
      List.length_take_of_le (Nat.le_of_lt hn)⟩
  have hf : Follows s.next s.HEAD (a ++ x :: b) := by
    rw [h.head, ← hl]
    exact h.linked.follows_next
  have hx : x ∉ a := by
    have hd := h.nodup
    rw [hl, List.nodup_middle, List.nodup_cons] at hd
    exact fun hm => hd.1 (List.mem_append_left b hm)
  refine ⟨x, ?_, fun fuel hfuel => ?_⟩
  · rw [zhListNodeFindWithIndex, zhListCount, h.count, if_pos ⟨hi, hc⟩, zhListFirst]
    rw [Int.toNat_natCast, ← ha]
    exact zhListSteps_of_follows hf
  · rw [zhListFind, zhListFirst, zhListFindLoop_of_follows hf hx (by omega), ha, add_comm]

/-- After any allowed sequence of calls the list holds the abstract sequence, read in both
directions, counted, and numbered from 1 by `zhListFind`. -/
theorem zhList_holds_sequence (s : TzhList α) {cs : List (ListCall α)} (h : AllowedRun [] cs) :
    let t := zhListRun (zhListInit s) cs
    let l := applyAll [] cs
    l.Nodup ∧ Follows t.next t.HEAD l ∧ Follows t.prev t.TAIL l.reverse ∧ t.count = l.length ∧
      ∀ i : ℤ, 0 ≤ i → i < t.count → ∃ x, zhListNodeFindWithIndex t i = some (some x) ∧
        ∀ fuel, l.length < fuel → zhListFind fuel t x = some (i + 1) := by
  intro t l
  have hr : Represents t l := zhListRun_represents (zhListInit_represents s) h
  refine ⟨hr.nodup, ?_, ?_, hr.count, fun i hi hc => hr.find hi hc⟩
  · rw [hr.head]
    exact hr.linked.follows_next
  · rw [hr.tail]
    exact hr.linked.follows_prev

/-- Node 1 is deleted and put back behind node 2 with its stale links. -/
theorem zhList_holds_relinked :
    let t := zhListRun (zhListInit ⟨fun _ => none, fun _ => none, some 7, none, 5⟩)
      [.add 1, .add 2, .insert none 3, .delete 1, .insert (some 2) 1]
    Follows t.next t.HEAD [3, 2, 1] ∧ Follows t.prev t.TAIL [1, 2, 3] ∧ t.count = 3 := by
  have hrun : AllowedRun [] [.add 1, .add 2, .insert none 3, .delete 1, .insert (some 2) 1] := by decide
  obtain ⟨-, h1, h2, h3, -⟩ :=
    zhList_holds_sequence ⟨fun _ => none, fun _ => none, some 7, none, 5⟩ hrun
  exact ⟨h1, h2, h3⟩

end Spec

end Esp32Base
