import Esp32Base.Lib.Heap
import Esp32Base.ZhList

/-!
# ZhListExp — the list that owns its nodes and elements (`zhlist_exp.c`)

`zhListNodeAdd` allocates the nodes itself and hangs a block of the caller on each. The links of
the list live in those nodes, so every access to one of them is an access to allocated memory.

* `ListHeap`: the list of `ZhList`, what the nodes hold besides the links, and the heap.
* `Keeps m l`: the list holds `l`, and `l` and its elements are different allocated blocks.
* `NodeCall.run_keeps`: every call on members has a result and keeps that.
* `zhListNodeFreeAndDeleteAll_frees`: the last call frees exactly what the list still owns.
-/

namespace Esp32Base

open Lib

/-! ## The code -/

/-- What `TzhListElementNode` holds besides its links. -/
structure TzhElement (α : Type) where
  pElement : Option α
  nElementSize : ℤ
  nEleType : ℤ

structure ListHeap (α : Type) where
  pList : TzhList α
  ele : α → TzhElement α
  heap : Heap α

namespace ListHeap

section Code

variable {α : Type} [DecidableEq α]

/-! Every access to a node touches the heap: it has no result when the node is not allocated. -/

def loadNext (m : ListHeap α) (p : α) : Option (Option α) := m.heap.touch p (m.pList.next p)

def loadPrev (m : ListHeap α) (p : α) : Option (Option α) := m.heap.touch p (m.pList.prev p)

def loadElement (m : ListHeap α) (p : α) : Option (Option α) := m.heap.touch p (m.ele p).pElement

def storeNext (m : ListHeap α) (p : α) (v : Option α) : Option (ListHeap α) :=
  m.heap.touch p { m with pList := m.pList.setNext p v }

def storePrev (m : ListHeap α) (p : α) (v : Option α) : Option (ListHeap α) :=
  m.heap.touch p { m with pList := m.pList.setPrev p v }

def storeElement (m : ListHeap α) (p : α) (v : TzhElement α) : Option (ListHeap α) :=
  m.heap.touch p { m with ele := Function.update m.ele p v }

def free (m : ListHeap α) (p : α) : Option (ListHeap α) :=
  (m.heap.free p).map fun k => { m with heap := k }

def zhListInsert (m : ListHeap α) (pPrev : Option α) (pNode : α) : Option (ListHeap α) := do
  let (pNext, m) ← match pPrev with
    | none => some (m.pList.HEAD, { m with pList := { m.pList with HEAD := some pNode } })
    | some q => do
      let pNext ← m.loadNext q
      let m ← m.storeNext q (some pNode)
      some (pNext, m)
  let m ← match pNext with
    | none => some { m with pList := { m.pList with TAIL := some pNode } }
    | some n => m.storePrev n (some pNode)
  let m ← m.storeNext pNode pNext
  let m ← m.storePrev pNode pPrev
  some { m with pList := { m.pList with count := m.pList.count + 1 } }

def zhListAdd (m : ListHeap α) (pNode : α) : Option (ListHeap α) :=
  m.zhListInsert m.pList.TAIL pNode

def zhListDelete (m : ListHeap α) (pNode : α) : Option (ListHeap α) := do
  let m ← match ← m.loadPrev pNode with
    | none => do
      let pNext ← m.loadNext pNode
      some { m with pList := { m.pList with HEAD := pNext } }
    | some q => do m.storeNext q (← m.loadNext pNode)
  let m ← match ← m.loadNext pNode with
    | none => do
      let pPrev ← m.loadPrev pNode
      some { m with pList := { m.pList with TAIL := pPrev } }
    | some n => do m.storePrev n (← m.loadPrev pNode)
  some { m with pList := { m.pList with count := m.pList.count - 1 } }

def zhListNodeInit (m : ListHeap α) (eleNode : α) : Option (ListHeap α) := do
  let m ← m.storeNext eleNode none
  let m ← m.storePrev eleNode none
  m.storeElement eleNode ⟨none, 0, 0⟩

/-- `pListNode` is what `calloc` returns. -/
def zhListNodeAdd (m : ListHeap α) (pListNode pElement : Option α) (nElementSize elementType : ℤ) :
    Option (ListHeap α × Option α) :=
  match pListNode with
  | none => some (m, none)
  | some p => do
    let m := { m with heap := m.heap.calloc p }
    let m ← m.zhListNodeInit p
    let m ← m.storeElement p ⟨pElement, nElementSize, elementType⟩
    let m ← m.zhListAdd p
    some (m, some p)

/-- Release the element of a node. `zhListNodeFreeAll`, `zhListNodeFreeAndDelete` and
`zhListNodeFreeAndDeleteAll` repeat this body. -/
def zhListNodeFree (m : ListHeap α) (node : α) : Option (ListHeap α) := do
  match ← m.loadElement node with
  | none => some m
  | some e => do
    let m ← m.free e
    m.storeElement node ⟨none, 0, 0⟩

/-- Take a node out and free it; the element stays as it is. -/
def zhListNodeDelete (m : ListHeap α) (node : Option α) : Option (ListHeap α × Option α) :=
  match node with
  | none => some (m, none)
  | some p => do
    let pNew ← m.loadNext p
    let m ← m.zhListDelete p
    let m ← m.free p
    some (m, pNew)

def zhListNodeFreeAndDelete (m : ListHeap α) (node : Option α) : Option (ListHeap α × Option α) :=
  match node with
  | none => some (m, none)
  | some p => do
    let pNew ← m.loadNext p
    let m ← m.zhListDelete p
    let m ← m.zhListNodeFree p
    let m ← m.free p
    some (m, pNew)

def zhListNodePopFirst (m : ListHeap α) : Option (ListHeap α × Option α) :=
  match zhListFirst m.pList with
  | none => some (m, none)
  | some p => do
    let pNew ← m.loadNext p
    let m ← m.zhListDelete p
    let m ← m.free p
    some (m, pNew)

def zhListNodePopBack (m : ListHeap α) : Option (ListHeap α × Option α) :=
  match zhListLast m.pList with
  | none => some (m, none)
  | some p => do
    let pNew ← m.loadPrev p
    let m ← m.zhListDelete p
    let m ← m.free p
    some (m, pNew)

/-! The loops; `none` also when the fuel runs out in a list that never ends. -/

def zhListNodeFreeAllLoop : ℕ → ListHeap α → Option α → Option (ListHeap α)
  | 0, _, _ => none
  | _ + 1, m, none => some m
  | fuel + 1, m, some eleNode => do
    let m ← m.zhListNodeFree eleNode
    let eleNode ← m.loadNext eleNode
    zhListNodeFreeAllLoop fuel m eleNode

def zhListNodeFreeAll (fuel : ℕ) (m : ListHeap α) : Option (ListHeap α) :=
  zhListNodeFreeAllLoop fuel m (zhListFirst m.pList)

def zhListNodeDeleteAllLoop : ℕ → ListHeap α → Option α → Option (ListHeap α)
  | 0, _, _ => none
  | _ + 1, m, none => some m
  | fuel + 1, m, some pListNode => do
    let (m, pListNode) ← m.zhListNodeDelete (some pListNode)
    zhListNodeDeleteAllLoop fuel m pListNode

def zhListNodeDeleteAll (fuel : ℕ) (m : ListHeap α) : Option (ListHeap α) :=
  zhListNodeDeleteAllLoop fuel m (zhListFirst m.pList)

def zhListNodeFreeAndDeleteAllLoop : ℕ → ListHeap α → Option α → Option (ListHeap α)
  | 0, _, _ => none
  | _ + 1, m, none => some m
  | fuel + 1, m, some pListNode => do
    let m ← m.zhListNodeFree pListNode
    let (m, pListNode) ← m.zhListNodeDelete (some pListNode)
    zhListNodeFreeAndDeleteAllLoop fuel m pListNode

def zhListNodeFreeAndDeleteAll (fuel : ℕ) (m : ListHeap α) : Option (ListHeap α) :=
  zhListNodeFreeAndDeleteAllLoop fuel m (zhListFirst m.pList)

end Code

/-! ## What the list owns -/

variable {α : Type}

/-- The elements of the nodes `l`. -/
def elements (m : ListHeap α) (l : List α) : List α := l.filterMap fun p => (m.ele p).pElement

/-- The blocks of the list: its nodes and their elements. -/
def owned (m : ListHeap α) (l : List α) : List α := l ++ m.elements l

/-- The list holds `l`, and its nodes and elements are different allocated blocks. -/
structure Keeps (m : ListHeap α) (l : List α) : Prop where
  represents : Represents m.pList l
  owns : m.heap.Owns (m.owned l)

variable {m t : ListHeap α} {a b l : List α} {x : α}

theorem elements_append : m.elements (a ++ b) = m.elements a ++ m.elements b :=
  List.filterMap_append

theorem elements_cons : m.elements (x :: l) = (m.ele x).pElement.toList ++ m.elements l := by
  rw [elements, List.filterMap_cons]
  cases (m.ele x).pElement with
  | none => rfl
  | some e => rfl

/-- A node in the middle, its element, and what the others own. -/
theorem owned_perm :
    (m.owned (a ++ x :: b)).Perm (x :: ((m.ele x).pElement.toList ++ m.owned (a ++ b))) := by
  rw [owned, owned, elements_append, elements_append, elements_cons]
  refine (List.perm_middle.append_right _).trans (List.Perm.cons x ?_)
  refine List.Perm.trans ?_ (List.perm_append_comm_assoc _ _ _)
  exact (List.perm_append_comm_assoc _ _ _).append_left (a ++ b)

theorem owned_congr (h : ∀ p ∈ l, t.ele p = m.ele p) : t.owned l = m.owned l := by
  rw [owned, owned, elements, elements]
  congr 1
  apply List.filterMap_congr
  intro p hp
  rw [h p hp]

theorem Keeps.mem_live (h : Keeps m l) {p : α} (hp : p ∈ l) : p ∈ m.heap.live :=
  h.owns.live p (List.mem_append_left _ hp)

variable [DecidableEq α]

/-! ## One access after the other -/

/-- Unlinking a member touches it and its neighbours, nothing else. -/
theorem zhListDelete_eq (hr : Represents m.pList (a ++ x :: b))
    (hl : ∀ p ∈ a ++ x :: b, p ∈ m.heap.live) :
    m.zhListDelete x = some { m with pList := Esp32Base.zhListDelete m.pList x } := by
  obtain ⟨hp, hn⟩ := hr.links
  have hx : x ∈ m.heap.live := hl x (List.mem_append_right a List.mem_cons_self)
  have hq : ∀ q, m.pList.prev x = some q → q ∈ m.heap.live := by
    intro q e
    rw [hp] at e
    exact hl q (List.mem_append_left _ (List.mem_of_getLast? e))
  have hy : ∀ n, m.pList.next x = some n → n ∈ m.heap.live := by
    intro n e
    rw [hn] at e
    exact hl n (List.mem_append_right a (List.mem_cons_of_mem x (List.mem_of_head? e)))
  cases hpx : m.pList.prev x with
  | none =>
    cases hnx : m.pList.next x with
    | none => simp [ListHeap.zhListDelete, Esp32Base.zhListDelete, loadPrev, loadNext, hx, hpx, hnx]
    | some n =>
      simp [ListHeap.zhListDelete, Esp32Base.zhListDelete, loadPrev, loadNext, storePrev, hx, hpx, hnx,
        hy n hnx]
  | some q =>
    have hne : x ≠ q := fun e => hr.prev_ne (by rw [hpx, e])
    cases hnx : m.pList.next x with
    | none =>
      simp [ListHeap.zhListDelete, Esp32Base.zhListDelete, loadPrev, loadNext, storeNext, hx, hpx, hnx,
        hq q hpx, TzhList.setNext, hne]
    | some n =>
      simp [ListHeap.zhListDelete, Esp32Base.zhListDelete, loadPrev, loadNext, storePrev, storeNext, hx,
        hpx, hnx, hq q hpx, hy n hnx, TzhList.setNext, hne]

theorem free_eq {k : Heap α} (h : m.heap.free x = some k) : m.free x = some { m with heap := k } := by
  rw [ListHeap.free, h, Option.map_some]

/-- Releasing the element of a node: the list and the other nodes are untouched. -/
theorem zhListNodeFree_spec {ys : List α}
    (ho : m.heap.Owns (x :: ((m.ele x).pElement.toList ++ ys))) :
    ∃ t v, m.zhListNodeFree x = some t ∧ t.pList = m.pList ∧ v.pElement = none ∧
      t.ele = Function.update m.ele x v ∧ t.heap.Owns (x :: ys) ∧
      t.heap.freed = (m.ele x).pElement.toList ++ m.heap.freed := by
  have hx : x ∈ m.heap.live := ho.live x List.mem_cons_self
  cases he : (m.ele x).pElement with
  | none =>
    rw [he] at ho
    refine ⟨m, m.ele x, ?_, rfl, he, (Function.update_eq_self x m.ele).symm, ho, rfl⟩
    rw [zhListNodeFree, loadElement, Heap.touch_eq hx, he]
    rfl
  | some e =>
    rw [he] at ho
    obtain ⟨k, hk, hok, hf⟩ := (ho.perm (List.Perm.swap e x ys)).free
    refine ⟨{ m with heap := k, ele := Function.update m.ele x ⟨none, 0, 0⟩ }, ⟨none, 0, 0⟩, ?_,
      rfl, rfl, rfl, hok, hf⟩
    have hxk : x ∈ k.live := hok.live x List.mem_cons_self
    simp only [zhListNodeFree, loadElement, Heap.touch_eq hx, he, Option.bind_eq_bind,
      Option.bind_some, free_eq hk, storeElement, Heap.touch_eq hxk]

/-! ## One call -/

/-- Writing to a node outside leaves what the others own. -/
theorem owned_update {v : TzhElement α} (ht : t.ele = Function.update m.ele x v) (hx : x ∉ l) :
    t.owned l = m.owned l := by
  apply owned_congr
  intro p hp
  rw [ht, Function.update_of_ne (ne_of_mem_of_not_mem hp hx)]

/-- Every member is somewhere in the middle of the list. -/
theorem Keeps.free (h : Keeps m (a ++ x :: b)) :
    ∃ t v, m.zhListNodeFree x = some t ∧ t.Keeps (a ++ x :: b) ∧ t.pList = m.pList ∧
      v.pElement = none ∧ t.ele = Function.update m.ele x v ∧
      t.heap.freed = (m.ele x).pElement.toList ++ m.heap.freed := by
  obtain ⟨t, v, hrun, hp, hv, he, ho, hf⟩ := zhListNodeFree_spec (h.owns.perm owned_perm)
  refine ⟨t, v, hrun, ⟨hp ▸ h.represents, ho.perm ?_⟩, hp, hv, he, hf⟩
  have hnone : (t.ele x).pElement = none := by rw [he, Function.update_self, hv]
  rw [← owned_update he h.represents.notMem]
  have hperm := (owned_perm (m := t) (a := a) (b := b) (x := x)).symm
  rwa [hnone, Option.toList_none, List.nil_append] at hperm

/-- Unlinking a member and freeing it; its element, if any, is owned by nobody then. -/
theorem Keeps.remove (h : Keeps m (a ++ x :: b)) :
    ∃ u t, m.zhListDelete x = some u ∧ u.free x = some t ∧ t.Keeps (a ++ b) ∧ t.ele = m.ele ∧
      t.heap.freed = x :: m.heap.freed := by
  obtain ⟨k, hk, ho, hf⟩ := (h.owns.perm owned_perm).free
  refine ⟨_, { m with pList := Esp32Base.zhListDelete m.pList x, heap := k },
    zhListDelete_eq h.represents fun p hp => h.mem_live hp, free_eq hk, ⟨?_, ?_⟩, rfl, hf⟩
  · exact h.represents.delete
  · exact ho.sublist (List.sublist_append_right _ _)

theorem Keeps.loadNext (h : Keeps m (a ++ x :: b)) : m.loadNext x = some b.head? := by
  rw [ListHeap.loadNext, h.represents.links.2]
  exact Heap.touch_eq (h.mem_live (List.mem_append_right a List.mem_cons_self))

theorem Keeps.loadPrev (h : Keeps m (a ++ x :: b)) : m.loadPrev x = some a.getLast? := by
  rw [ListHeap.loadPrev, h.represents.links.1]
  exact Heap.touch_eq (h.mem_live (List.mem_append_right a List.mem_cons_self))

theorem Keeps.delete (h : Keeps m (a ++ x :: b)) :
    ∃ t, m.zhListNodeDelete (some x) = some (t, b.head?) ∧ t.Keeps (a ++ b) ∧ t.ele = m.ele ∧
      t.heap.freed = x :: m.heap.freed := by
  obtain ⟨u, t, hu, ht, hk⟩ := h.remove
  refine ⟨t, ?_, hk⟩
  simp only [zhListNodeDelete, h.loadNext, hu, ht, Option.bind_eq_bind, Option.bind_some]

theorem Keeps.freeAndDelete (h : Keeps m (a ++ x :: b)) :
    ∃ t, m.zhListNodeFreeAndDelete (some x) = some (t, b.head?) ∧ t.Keeps (a ++ b) ∧
      t.heap.freed = x :: ((m.ele x).pElement.toList ++ m.heap.freed) := by
  have hu := zhListDelete_eq h.represents fun p hp => h.mem_live hp
  -- the element goes between the unlinking and the node
  obtain ⟨u, v, hrun, hp, -, he, ho, hf⟩ :=
    zhListNodeFree_spec (m := { m with pList := Esp32Base.zhListDelete m.pList x })
      (h.owns.perm owned_perm)
  obtain ⟨k, hk, hok, hfk⟩ := ho.free
  refine ⟨{ u with heap := k }, ?_, ⟨hp ▸ h.represents.delete, ?_⟩, hfk.trans (by rw [hf])⟩
  · simp only [zhListNodeFreeAndDelete, h.loadNext, hu, hrun, free_eq hk, Option.bind_eq_bind,
      Option.bind_some]
  · exact (owned_update (m := m) he h.represents.notMem) ▸ hok

theorem Keeps.popFirst (h : Keeps m l) :
    ∃ t r, m.zhListNodePopFirst = some (t, r) ∧ t.Keeps l.tail := by
  have hh : zhListFirst m.pList = l.head? := h.represents.head
  cases l with
  | nil => exact ⟨m, none, by rw [zhListNodePopFirst, hh]; rfl, h⟩
  | cons x b =>
    obtain ⟨u, t, hu, ht, hk, -⟩ := h.remove (a := [])
    refine ⟨t, b.head?, ?_, hk⟩
    rw [zhListNodePopFirst, hh, List.head?_cons]
    simp only [h.loadNext (a := []), hu, ht, Option.bind_eq_bind, Option.bind_some]

theorem Keeps.popBack (h : Keeps m l) :
    ∃ t r, m.zhListNodePopBack = some (t, r) ∧ t.Keeps l.dropLast := by
  have hh : zhListLast m.pList = l.getLast? := h.represents.tail
  cases l using List.reverseRecOn with
  | nil => exact ⟨m, none, by rw [zhListNodePopBack, hh]; rfl, h⟩
  | append_singleton a x =>
    obtain ⟨u, t, hu, ht, hk, -⟩ := h.remove
    rw [List.append_nil] at hk
    refine ⟨t, a.getLast?, ?_, (List.dropLast_concat ..) ▸ hk⟩
    rw [zhListNodePopBack, hh, List.getLast?_concat]
    simp only [h.loadPrev, hu, ht, Option.bind_eq_bind, Option.bind_some]

/-! ## Building a list -/

theorem zhListInsert_eq {pPrev : Option α} (hp : ∀ q ∈ pPrev, q ∈ m.heap.live)
    (hn : ∀ n ∈ m.pList.nextOf pPrev, n ∈ m.heap.live) (hx : x ∈ m.heap.live) :
    m.zhListInsert pPrev x = some { m with pList := Esp32Base.zhListInsert m.pList pPrev x } := by
  cases pPrev with
  | none =>
    cases hh : m.pList.HEAD with
    | none => simp [ListHeap.zhListInsert, Esp32Base.zhListInsert, storeNext, storePrev, hx, hh]
    | some n =>
      have hl : n ∈ m.heap.live := hn n hh
      simp [ListHeap.zhListInsert, Esp32Base.zhListInsert, storeNext, storePrev, hx, hh, hl]
  | some q =>
    have hq : q ∈ m.heap.live := hp q rfl
    cases hh : m.pList.next q with
    | none =>
      simp [ListHeap.zhListInsert, Esp32Base.zhListInsert, storeNext, storePrev, ListHeap.loadNext,
        hx, hq, hh]
    | some n =>
      have hl : n ∈ m.heap.live := hn n hh
      simp [ListHeap.zhListInsert, Esp32Base.zhListInsert, storeNext, storePrev, ListHeap.loadNext,
        hx, hq, hh, hl]

/-- A new node is added and takes its element out of what the caller owns. -/
theorem zhListNodeAdd_spec {p : α} {e : Option α} {rest : List α} (hr : Represents m.pList l)
    (ho : m.heap.Owns (m.owned l ++ (e.toList ++ rest))) (hl : p ∉ m.heap.live)
    (hf : p ∉ m.heap.freed) (nElementSize elementType : ℤ) :
    ∃ t, m.zhListNodeAdd (some p) e nElementSize elementType = some (t, some p) ∧
      Represents t.pList (l ++ [p]) ∧ t.heap.Owns (t.owned (l ++ [p]) ++ rest) ∧
      t.heap = m.heap.calloc p := by
  have hmem : ∀ q ∈ l, q ∈ m.heap.live := fun q hq =>
    ho.live q (List.mem_append_left _ (List.mem_append_left _ hq))
  have hp : p ∉ l := fun h => hl (hmem p h)
  have hpk : p ∈ (m.heap.calloc p).live := List.mem_cons_self
  have hset : Represents ((m.pList.setNext p none).setPrev p none) l := hr.setLinks hp none none
  let u : ListHeap α :=
    { pList := (m.pList.setNext p none).setPrev p none
      ele := Function.update m.ele p ⟨e, nElementSize, elementType⟩
      heap := m.heap.calloc p }
  have hadd : u.zhListAdd p = some { u with pList := Esp32Base.zhListAdd u.pList p } := by
    refine zhListInsert_eq ?_ ?_ hpk
    · intro q hq
      rw [hset.tail] at hq
      exact List.mem_cons_of_mem p (hmem q (List.mem_of_getLast? hq))
    · intro n hn
      rw [hset.tail] at hn
      rw [Represents.nextOf (b := []) ((List.append_nil l).symm ▸ hset)] at hn
      cases hn
  refine ⟨{ u with pList := Esp32Base.zhListAdd u.pList p }, ?_, ?_, ?_, rfl⟩
  · simp only [zhListNodeAdd, zhListNodeInit, storeNext, storePrev, storeElement,
      Heap.touch_eq hpk, Option.bind_eq_bind, Option.bind_some, Function.update_idem]
    exact congrArg (Option.bind · fun t => some (t, some p)) hadd
  · have hins := Represents.insert (b := []) (x := p) ((List.append_nil l).symm ▸ hset)
      ((List.append_nil l).symm ▸ hp)
    rwa [← hset.tail] at hins
  · have hu : u.owned l = m.owned l := owned_update rfl hp
    have he : (u.ele p).pElement = e := by
      show (Function.update m.ele p _ p).pElement = e
      rw [Function.update_self]
    have hperm := owned_perm (m := u) (a := l) (b := []) (x := p)
    rw [List.append_nil, he, hu] at hperm
    refine (ho.calloc hl hf).perm (List.Perm.symm ((hperm.append_right rest).trans ?_))
    rw [List.cons_append, List.append_assoc]
    exact List.Perm.cons p (List.perm_append_comm_assoc _ _ _)

/-! ## The loops -/

/-- Releasing the elements of the nodes `b` behind `a`; the nodes stay linked as they are. -/
theorem zhListNodeFreeAllLoop_spec (h : Keeps m (a ++ b)) :
    ∃ t, (∀ fuel, b.length < fuel → zhListNodeFreeAllLoop fuel m b.head? = some t) ∧
      t.Keeps (a ++ b) ∧
      (∀ p, (t.ele p).pElement = if p ∈ b then none else (m.ele p).pElement) ∧
      t.heap.freed.Perm (m.elements b ++ m.heap.freed) := by
  induction b generalizing a m with
  | nil =>
    refine ⟨m, fun fuel hf => ?_, h, fun p => (if_neg List.not_mem_nil).symm, List.Perm.refl _⟩
    obtain ⟨fuel, rfl⟩ := Nat.exists_eq_add_one_of_ne_zero (Nat.ne_of_gt hf)
    rfl
  | cons x b ih =>
    obtain ⟨u, v, hrun, hu, -, hv, he, hfu⟩ := h.free
    have hxb : x ∉ b := fun hx => h.represents.notMem (List.mem_append_right a hx)
    have hua : Keeps u (a ++ [x] ++ b) := by rwa [List.append_assoc]
    obtain ⟨t, ht, hk, hel, hft⟩ := ih hua
    have hkeep : ∀ p, p ≠ x → u.ele p = m.ele p := fun p hp => by
      rw [he, Function.update_of_ne hp]
    refine ⟨t, fun fuel hf => ?_, by rwa [List.append_assoc] at hk, fun p => ?_, ?_⟩
    · obtain ⟨fuel, rfl⟩ := Nat.exists_eq_add_one_of_ne_zero (Nat.ne_of_gt (Nat.zero_lt_of_lt hf))
      rw [List.head?_cons]
      simp only [zhListNodeFreeAllLoop, hrun, hu.loadNext, Option.bind_eq_bind, Option.bind_some]
      exact ht fuel (Nat.lt_of_succ_lt_succ hf)
    · rw [hel p]
      by_cases hp : p = x
      · subst hp
        rw [if_neg hxb, if_pos List.mem_cons_self, he, Function.update_self, hv]
      · rw [hkeep p hp]
        simp only [List.mem_cons, hp, false_or]
    · have hb : u.elements b = m.elements b := by
        apply List.filterMap_congr
        intro p hp
        rw [hkeep p (ne_of_mem_of_not_mem hp hxb)]
      rw [hb, hfu] at hft
      rw [elements_cons, List.append_assoc]
      exact hft.trans (List.perm_append_comm_assoc _ _ _)

/-- All elements are released, and nothing else. -/
theorem zhListNodeFreeAll_frees (h : Keeps m l) :
    ∃ t, (∀ fuel, l.length < fuel → zhListNodeFreeAll fuel m = some t) ∧ t.Keeps l ∧
      (∀ p ∈ l, (t.ele p).pElement = none) ∧
      t.heap.freed.Perm (m.elements l ++ m.heap.freed) := by
  obtain ⟨t, ht, hk, hel, hf⟩ := zhListNodeFreeAllLoop_spec (a := []) h
  refine ⟨t, fun fuel hl => ?_, hk, fun p hp => by rw [hel, if_pos hp], hf⟩
  rw [zhListNodeFreeAll, zhListFirst, h.represents.head]
  exact ht fuel hl

/-- All nodes are freed, and no element. -/
theorem zhListNodeDeleteAll_frees (h : Keeps m l) :
    ∃ t, (∀ fuel, l.length < fuel → zhListNodeDeleteAll fuel m = some t) ∧ t.Keeps [] ∧
      t.heap.freed.Perm (l ++ m.heap.freed) := by
  have hloop : ∃ t, (∀ fuel, l.length < fuel → zhListNodeDeleteAllLoop fuel m l.head? = some t) ∧
      t.Keeps [] ∧ t.heap.freed.Perm (l ++ m.heap.freed) := by
    induction l generalizing m with
    | nil =>
      refine ⟨m, fun fuel hf => ?_, h, List.Perm.refl _⟩
      obtain ⟨fuel, rfl⟩ := Nat.exists_eq_add_one_of_ne_zero (Nat.ne_of_gt hf)
      rfl
    | cons x b ih =>
      obtain ⟨u, hrun, hu, -, hfu⟩ := Keeps.delete (a := []) h
      obtain ⟨t, ht, hk, hft⟩ := ih hu
      refine ⟨t, fun fuel hf => ?_, hk, ?_⟩
      · obtain ⟨fuel, rfl⟩ :=
          Nat.exists_eq_add_one_of_ne_zero (Nat.ne_of_gt (Nat.zero_lt_of_lt hf))
        rw [List.head?_cons]
        simp only [zhListNodeDeleteAllLoop, hrun, Option.bind_eq_bind, Option.bind_some]
        exact ht fuel (Nat.lt_of_succ_lt_succ hf)
      · rw [hfu] at hft
        exact hft.trans List.perm_middle
  obtain ⟨t, ht, hk⟩ := hloop
  refine ⟨t, fun fuel hl => ?_, hk⟩
  rw [zhListNodeDeleteAll, zhListFirst, h.represents.head]
  exact ht fuel hl

theorem zhListNodeFreeAndDeleteAllLoop_spec (h : Keeps m l) :
    ∃ t, (∀ fuel, l.length < fuel → zhListNodeFreeAndDeleteAllLoop fuel m l.head? = some t) ∧
      t.Keeps [] ∧ t.heap.freed.Perm (m.owned l ++ m.heap.freed) := by
  induction l generalizing m with
  | nil =>
    refine ⟨m, fun fuel hf => ?_, h, List.Perm.refl _⟩
    obtain ⟨fuel, rfl⟩ := Nat.exists_eq_add_one_of_ne_zero (Nat.ne_of_gt hf)
    rfl
  | cons x b ih =>
    obtain ⟨u, v, hfree, hu, -, -, he, hfu⟩ := Keeps.free (a := []) h
    -- the successor is read before the node it was read from is freed
    obtain ⟨w, hdel, hw, hew, hfw⟩ := hu.delete
    obtain ⟨t, ht, hk, hft⟩ := ih hw
    refine ⟨t, fun fuel hf => ?_, hk, ?_⟩
    · obtain ⟨fuel, rfl⟩ := Nat.exists_eq_add_one_of_ne_zero (Nat.ne_of_gt (Nat.zero_lt_of_lt hf))
      rw [List.head?_cons]
      simp only [zhListNodeFreeAndDeleteAllLoop, hfree, hdel, Option.bind_eq_bind, Option.bind_some]
      exact ht fuel (Nat.lt_of_succ_lt_succ hf)
    · have hb : w.owned b = m.owned b :=
        (owned_congr fun p _ => by rw [hew]).trans (owned_update he (h.represents.notMem (a := [])))
      rw [hb, hfw, hfu] at hft
      have hperm := owned_perm (m := m) (a := []) (b := b) (x := x)
      refine (hft.trans List.perm_middle).trans (List.Perm.trans ?_ (hperm.symm.append_right _))
      rw [List.cons_append, List.append_assoc]
      exact List.Perm.cons x (List.perm_append_comm_assoc _ _ _)

/-- The call frees exactly what the list owns, each block once. -/
theorem zhListNodeFreeAndDeleteAll_frees (h : Keeps m l) :
    ∃ t, (∀ fuel, l.length < fuel → zhListNodeFreeAndDeleteAll fuel m = some t) ∧ t.Keeps [] ∧
      t.heap.freed.Perm (m.owned l ++ m.heap.freed) := by
  obtain ⟨t, ht, hk⟩ := zhListNodeFreeAndDeleteAllLoop_spec h
  refine ⟨t, fun fuel hl => ?_, hk⟩
  rw [zhListNodeFreeAndDeleteAll, zhListFirst, h.represents.head]
  exact ht fuel hl

end ListHeap

/-! ## Whole runs -/

section Runs

variable {α : Type}

/-- One `zhListNodeAdd`: what `calloc` gives it and its arguments. -/
structure NodeAdd (α : Type) where
  pListNode : Option α
  pElement : Option α
  nElementSize : ℤ
  elementType : ℤ

/-- The nodes that were added; a call without memory adds none. -/
def addedNodes (adds : List (NodeAdd α)) : List α := adds.filterMap NodeAdd.pListNode

/-- The element pointers that were handed over. -/
def givenElements (adds : List (NodeAdd α)) : List α := adds.filterMap NodeAdd.pElement

/-- `calloc` gives memory nobody has, and the elements are different blocks of the caller. -/
structure CanBuild (live : List α) (adds : List (NodeAdd α)) : Prop where
  nodes : (addedNodes adds).Nodup
  fresh : ∀ p ∈ addedNodes adds, p ∉ live
  distinct : (givenElements adds).Nodup
  allocated : ∀ e ∈ givenElements adds, e ∈ live

/-- The calls on a list that is built. -/
inductive NodeCall (α : Type)
  | free (node : α)
  | freeAll
  | delete (node : Option α)
  | freeAndDelete (node : Option α)
  | popFirst
  | popBack

section Code

variable [DecidableEq α]

def NodeAdd.run (m : ListHeap α) (c : NodeAdd α) : Option (ListHeap α) :=
  (m.zhListNodeAdd c.pListNode c.pElement c.nElementSize c.elementType).map Prod.fst

def NodeCall.run (fuel : ℕ) (m : ListHeap α) : NodeCall α → Option (ListHeap α)
  | .free node => m.zhListNodeFree node
  | .freeAll => m.zhListNodeFreeAll fuel
  | .delete node => (m.zhListNodeDelete node).map Prod.fst
  | .freeAndDelete node => (m.zhListNodeFreeAndDelete node).map Prod.fst
  | .popFirst => m.zhListNodePopFirst.map Prod.fst
  | .popBack => m.zhListNodePopBack.map Prod.fst

/-- A list is built by `adds`, and `cs` are called on it. -/
def zhListNodeRun (fuel : ℕ) (m : ListHeap α) (adds : List (NodeAdd α)) (cs : List (NodeCall α)) :
    Option (ListHeap α) :=
  (adds.foldlM NodeAdd.run m).bind fun m => cs.foldlM (NodeCall.run fuel) m

/-- The call on the sequence of members. -/
def NodeCall.apply (l : List α) : NodeCall α → List α
  | .free _ => l
  | .freeAll => l
  | .delete node => node.elim l l.erase
  | .freeAndDelete node => node.elim l l.erase
  | .popFirst => l.tail
  | .popBack => l.dropLast

def membersAfter (l : List α) (cs : List (NodeCall α)) : List α := cs.foldl NodeCall.apply l

end Code

/-- The node of a call is a member, or `NULL` where the call checks for it. -/
def NodeCall.OnMember (l : List α) : NodeCall α → Prop
  | .free node => node ∈ l
  | .freeAll => True
  | .delete node => ∀ p ∈ node, p ∈ l
  | .freeAndDelete node => ∀ p ∈ node, p ∈ l
  | .popFirst => True
  | .popBack => True

/-- Every call of the run is on a current member. -/
def OnMembers [DecidableEq α] : List α → List (NodeCall α) → Prop
  | _, [] => True
  | l, c :: cs => c.OnMember l ∧ OnMembers (c.apply l) cs

instance [DecidableEq α] (l : List α) : (c : NodeCall α) → Decidable (c.OnMember l)
  | .free node => inferInstanceAs (Decidable (node ∈ l))
  | .freeAll => .isTrue trivial
  | .delete node => inferInstanceAs (Decidable (∀ p ∈ node, p ∈ l))
  | .freeAndDelete node => inferInstanceAs (Decidable (∀ p ∈ node, p ∈ l))
  | .popFirst => .isTrue trivial
  | .popBack => .isTrue trivial

instance decidableOnMembers [DecidableEq α] :
    (l : List α) → (cs : List (NodeCall α)) → Decidable (OnMembers l cs)
  | _, [] => .isTrue trivial
  | l, c :: cs => @instDecidableAnd _ _ _ (decidableOnMembers (c.apply l) cs)

variable [DecidableEq α] {m : ListHeap α} {l : List α}

open ListHeap

theorem zhListNodeAdds_keeps {adds : List (NodeAdd α)} (hr : Represents m.pList l)
    (ho : m.heap.Owns (m.owned l ++ givenElements adds)) (hd : (addedNodes adds).Nodup)
    (hl : ∀ p ∈ addedNodes adds, p ∉ m.heap.live) (hf : m.heap.freed = []) :
    ∃ t, adds.foldlM NodeAdd.run m = some t ∧ t.Keeps (l ++ addedNodes adds) ∧
      t.heap.freed = [] := by
  induction adds generalizing m l with
  | nil =>
    refine ⟨m, rfl, ?_, hf⟩
    rw [addedNodes, List.filterMap_nil, List.append_nil]
    exact ⟨hr, ho.sublist (List.sublist_append_left _ _)⟩
  | cons c adds ih =>
    obtain ⟨pListNode, e, nElementSize, elementType⟩ := c
    have hg : givenElements (⟨pListNode, e, nElementSize, elementType⟩ :: adds) =
        e.toList ++ givenElements adds := by
      cases e <;> rfl
    rw [hg] at ho
    cases pListNode with
    | none =>
      -- no memory: the list stays, and the element stays with the caller
      have hrest := ho.sublist (List.Sublist.append_left (List.sublist_append_right _ _) _)
      obtain ⟨t, ht, hk⟩ := ih hr hrest hd hl hf
      exact ⟨t, ht, hk⟩
    | some p =>
      have hcons : addedNodes (⟨some p, e, nElementSize, elementType⟩ :: adds) =
          p :: addedNodes adds := rfl
      rw [hcons] at hd hl ⊢
      obtain ⟨hp, hd⟩ := List.nodup_cons.mp hd
      obtain ⟨u, hrun, hru, hou, hu⟩ := zhListNodeAdd_spec hr ho (hl p List.mem_cons_self)
        (hf ▸ List.not_mem_nil) nElementSize elementType
      have hlu : ∀ q ∈ addedNodes adds, q ∉ u.heap.live := by
        intro q hq hm
        rw [hu] at hm
        rcases List.mem_cons.mp hm with rfl | hm
        · exact hp hq
        · exact hl q (List.mem_cons_of_mem p hq) hm
      obtain ⟨t, ht, hk, hft⟩ := ih hru hou hd hlu (hu ▸ hf)
      refine ⟨t, ?_, by rwa [List.append_assoc] at hk, hft⟩
      rw [List.foldlM_cons, NodeAdd.run, hrun]
      exact ht

theorem exists_split {p : α} (hp : p ∈ l) : ∃ a b, l = a ++ p :: b ∧ l.erase p = a ++ b := by
  obtain ⟨a, b, -, h1, h2⟩ := List.exists_erase_eq hp
  exact ⟨a, b, h1, h2⟩

/-- Every call on members has a result and keeps the list and what it owns. -/
theorem NodeCall.run_keeps (h : Keeps m l) {c : NodeCall α} (hc : c.OnMember l) :
    ∃ t, (∀ fuel, l.length < fuel → c.run fuel m = some t) ∧ t.Keeps (c.apply l) := by
  cases c with
  | free node =>
    obtain ⟨a, b, rfl⟩ := List.append_of_mem hc
    obtain ⟨t, -, ht, hk, -⟩ := h.free
    exact ⟨t, fun _ _ => ht, hk⟩
  | freeAll =>
    obtain ⟨t, ht, hk, -⟩ := zhListNodeFreeAll_frees h
    exact ⟨t, ht, hk⟩
  | delete node =>
    cases node with
    | none => exact ⟨m, fun _ _ => rfl, h⟩
    | some p =>
      obtain ⟨a, b, rfl, he⟩ := exists_split (hc p rfl)
      obtain ⟨t, ht, hk, -⟩ := h.delete
      exact ⟨t, fun _ _ => by rw [run, ht, Option.map_some], by rwa [apply, Option.elim_some, he]⟩
  | freeAndDelete node =>
    cases node with
    | none => exact ⟨m, fun _ _ => rfl, h⟩
    | some p =>
      obtain ⟨a, b, rfl, he⟩ := exists_split (hc p rfl)
      obtain ⟨t, ht, hk, -⟩ := h.freeAndDelete
      exact ⟨t, fun _ _ => by rw [run, ht, Option.map_some], by rwa [apply, Option.elim_some, he]⟩
  | popFirst =>
    obtain ⟨t, r, ht, hk⟩ := h.popFirst
    exact ⟨t, fun _ _ => by rw [run, ht, Option.map_some], hk⟩
  | popBack =>
    obtain ⟨t, r, ht, hk⟩ := h.popBack
    exact ⟨t, fun _ _ => by rw [run, ht, Option.map_some], hk⟩

theorem NodeCall.length_apply_le (c : NodeCall α) : (c.apply l).length ≤ l.length := by
  cases c with
  | free node => exact le_refl _
  | freeAll => exact le_refl _
  | delete node =>
    cases node with
    | none => exact le_refl _
    | some p => exact List.erase_sublist.length_le
  | freeAndDelete node =>
    cases node with
    | none => exact le_refl _
    | some p => exact List.erase_sublist.length_le
  | popFirst => exact (List.tail_sublist l).length_le
  | popBack => exact (List.dropLast_sublist l).length_le

theorem zhListNodeCalls_keeps {cs : List (NodeCall α)} (h : Keeps m l) (hc : OnMembers l cs) :
    ∃ t, (∀ fuel, l.length < fuel → cs.foldlM (NodeCall.run fuel) m = some t) ∧
      t.Keeps (membersAfter l cs) ∧ (membersAfter l cs).length ≤ l.length := by
  induction cs generalizing m l with
  | nil => exact ⟨m, fun _ _ => rfl, h, le_refl _⟩
  | cons c cs ih =>
    obtain ⟨u, hu, hk⟩ := NodeCall.run_keeps h hc.1
    obtain ⟨t, ht, hkt, hlt⟩ := ih hk hc.2
    have hle : (c.apply l).length ≤ l.length := c.length_apply_le
    refine ⟨t, fun fuel hf => ?_, hkt, hlt.trans hle⟩
    rw [List.foldlM_cons, hu fuel hf]
    exact ht fuel (hle.trans_lt hf)

/-- However a list was built and worked on, releasing everything ends with the empty list: every
access of the run was to allocated memory, nothing was freed twice, and what was still attached
to a member was freed once. -/
theorem zhListNodes_freed_once (s : TzhList α) (ele : α → TzhElement α) {live : List α}
    {adds : List (NodeAdd α)} {cs : List (NodeCall α)} (hb : CanBuild live adds)
    (hc : OnMembers (addedNodes adds) cs) :
    let l := membersAfter (addedNodes adds) cs
    ∃ m t : ListHeap α,
      (∀ fuel, adds.length < fuel →
        zhListNodeRun fuel ⟨zhListInit s, ele, ⟨live, []⟩⟩ adds cs = some m ∧
          m.zhListNodeFreeAndDeleteAll fuel = some t) ∧
      Follows m.pList.next m.pList.HEAD l ∧
      t.heap.freed.Nodup ∧ (∀ p ∈ t.heap.freed, p ∉ t.heap.live) ∧
      t.pList.HEAD = none ∧ t.pList.TAIL = none ∧ t.pList.count = 0 ∧
      (∀ p ∈ l, ∀ e ∈ (m.ele p).pElement, t.heap.freed.count e = 1) := by
  intro l
  have howns : (⟨live, []⟩ : Heap α).Owns (givenElements adds) :=
    ⟨hb.distinct, hb.allocated, List.nodup_nil, fun x hx => absurd hx List.not_mem_nil⟩
  obtain ⟨u, hu, hku, -⟩ := zhListNodeAdds_keeps (m := ⟨zhListInit s, ele, ⟨live, []⟩⟩)
    (zhListInit_represents s) howns hb.nodes hb.fresh rfl
  rw [List.nil_append] at hku
  obtain ⟨m, hm, hkm, hle⟩ := zhListNodeCalls_keeps hku hc
  obtain ⟨t, ht, hkt, hperm⟩ := zhListNodeFreeAndDeleteAll_frees hkm
  have hlen : (addedNodes adds).length ≤ adds.length := List.length_filterMap_le ..
  refine ⟨m, t, fun fuel hf => ⟨?_, ht fuel ?_⟩, ?_, hkt.owns.once, hkt.owns.gone,
    hkt.represents.head, hkt.represents.tail, hkt.represents.count, ?_⟩
  · rw [zhListNodeRun, hu, Option.bind_some]
    exact hm fuel (hlen.trans_lt hf)
  · exact hle.trans_lt (hlen.trans_lt hf)
  · rw [hkm.represents.head]
    exact hkm.represents.linked.follows_next
  · intro p hp e he
    apply List.count_eq_one_of_mem hkt.owns.once
    rw [hperm.mem_iff]
    refine List.mem_append_left _ (List.mem_append_right _ ?_)
    exact List.mem_filterMap.mpr ⟨p, hp, he⟩

/-- Three nodes, one without an element; the middle element is released before its node goes. -/
theorem zhListNodes_freed_three :
    let adds : List (NodeAdd ℕ) := [⟨some 10, some 1, 4, 0⟩, ⟨some 11, some 2, 4, 0⟩,
      ⟨none, some 4, 4, 0⟩, ⟨some 12, none, 0, 0⟩, ⟨some 13, some 3, 4, 0⟩]
    let cs := [NodeCall.free 11, .delete (some 10), .free 11, .popBack]
    ∃ m t : ListHeap ℕ,
      (∀ fuel, 5 < fuel →
        zhListNodeRun fuel ⟨zhListInit ⟨fun _ => none, fun _ => none, none, none, 0⟩,
          fun _ => ⟨none, 0, 0⟩, ⟨[1, 2, 3, 4], []⟩⟩ adds cs = some m ∧
          m.zhListNodeFreeAndDeleteAll fuel = some t) ∧
      t.pList.count = 0 ∧ t.heap.freed.Nodup := by
  intro adds cs
  have hb : CanBuild [1, 2, 3, 4] adds := ⟨by decide, by decide, by decide, by decide⟩
  have hc : OnMembers (addedNodes adds) cs := by decide
  obtain ⟨m, t, hrun, -, hd, -, -, -, hcount, -⟩ := zhListNodes_freed_once
    ⟨fun _ => none, fun _ => none, none, none, 0⟩ (fun _ => ⟨none, 0, 0⟩) hb hc
  exact ⟨m, t, hrun, hcount, hd⟩

end Runs

end Esp32Base
