import Mathlib.Data.List.Basic
import Mathlib.Data.List.Induction
import Mathlib.Logic.Function.Basic

/-!
# Lib.Links — doubly linked sequences over a pair of link functions

A heap of nodes is seen through its two links `next prev : α → Option α`, `none` being the null link.

* `Follows f p xs`: following `f` from `p` visits exactly `xs` and then ends.
* `Linked next prev back xs after`: the nodes `xs` are linked both ways between `back` and `after`.
* `Linked.insert`, `Linked.remove`: the four and the two link writes that put a node between two
  pieces or take it out.
-/

namespace Lib

variable {α : Type}

/-- Following `f` from `p` visits exactly `xs` and ends in the null link. -/
def Follows (f : α → Option α) : Option α → List α → Prop
  | p, [] => p = none
  | p, x :: xs => p = some x ∧ Follows f (f x) xs

@[simp] theorem follows_nil {f : α → Option α} {p : Option α} : Follows f p [] ↔ p = none := Iff.rfl

@[simp] theorem follows_cons {f : α → Option α} {p : Option α} {x : α} {xs : List α} :
    Follows f p (x :: xs) ↔ p = some x ∧ Follows f (f x) xs := Iff.rfl

/-- The nodes `xs` are linked both ways; `back` is in front of the first, `after` behind the last. -/
def Linked (next prev : α → Option α) : Option α → List α → Option α → Prop
  | _, [], _ => True
  | back, x :: xs, after =>
    prev x = back ∧ next x = xs.head?.or after ∧ Linked next prev (some x) xs after

variable {next prev next' prev' : α → Option α} {back after : Option α}

@[simp] theorem linked_nil : Linked next prev back [] after := trivial

@[simp] theorem linked_cons {x : α} {xs : List α} :
    Linked next prev back (x :: xs) after ↔
      prev x = back ∧ next x = xs.head?.or after ∧ Linked next prev (some x) xs after := Iff.rfl

theorem getLast?_cons_or (x : α) (xs : List α) (p : Option α) :
    (x :: xs).getLast?.or p = xs.getLast?.or (some x) := by
  rw [List.getLast?_cons]
  cases xs.getLast? with
  | none => rfl
  | some y => rfl

theorem linked_append {xs ys : List α} :
    Linked next prev back (xs ++ ys) after ↔
      Linked next prev back xs (ys.head?.or after) ∧
        Linked next prev (xs.getLast?.or back) ys after := by
  induction xs generalizing back with
  | nil => simp
  | cons x xs ih =>
    rw [List.cons_append, linked_cons, linked_cons, ih, getLast?_cons_or, List.head?_append,
      Option.or_assoc]
    tauto

/-- Only the links of the nodes themselves matter. -/
theorem Linked.congr {xs : List α} (h : Linked next prev back xs after)
    (hn : ∀ x ∈ xs, next' x = next x) (hp : ∀ x ∈ xs, prev' x = prev x) :
    Linked next' prev' back xs after := by
  induction xs generalizing back with
  | nil => exact trivial
  | cons x xs ih =>
    obtain ⟨h1, h2, h3⟩ := h
    refine ⟨?_, ?_, ih h3 (fun y hy => hn y (List.mem_cons_of_mem x hy))
      (fun y hy => hp y (List.mem_cons_of_mem x hy))⟩
    · rw [hp x List.mem_cons_self, h1]
    · rw [hn x List.mem_cons_self, h2]

/-! ## Reading a linked sequence off in both directions -/

theorem Linked.follows_next {xs : List α} (h : Linked next prev back xs none) :
    Follows next xs.head? xs := by
  induction xs generalizing back with
  | nil => rfl
  | cons x xs ih =>
    obtain ⟨-, h2, h3⟩ := h
    rw [Option.or_none] at h2
    exact ⟨rfl, h2 ▸ ih h3⟩

theorem Linked.follows_prev {xs : List α} (h : Linked next prev none xs after) :
    Follows prev xs.getLast? xs.reverse := by
  induction xs using List.reverseRecOn generalizing after with
  | nil => rfl
  | append_singleton xs x ih =>
    rw [linked_append] at h
    obtain ⟨h1, h2, -⟩ := h
    rw [Option.or_none] at h2
    rw [List.getLast?_append, List.reverse_append]
    exact ⟨rfl, h2 ▸ ih h1⟩

theorem getLast?_ne_of_notMem {xs : List α} {x : α} (h : x ∉ xs) : some x ≠ xs.getLast? :=
  fun e => h (List.mem_of_getLast? e.symm)

theorem head?_ne_of_notMem {xs : List α} {x : α} (h : x ∉ xs) : some x ≠ xs.head? :=
  fun e => h (List.mem_of_head? e.symm)

/-! ## Writing a link -/

variable [DecidableEq α]

/-- Set the link of the node `p` to `v`; nothing happens at the null link. -/
def link (f : α → Option α) : Option α → Option α → α → Option α
  | none, _ => f
  | some p, v => Function.update f p v

@[simp] theorem link_none {f : α → Option α} {v : Option α} : link f none v = f := rfl

@[simp] theorem link_some {f : α → Option α} {p : α} {v : Option α} :
    link f (some p) v = Function.update f p v := rfl

theorem link_of_ne {f : α → Option α} {p v : Option α} {x : α} (h : some x ≠ p) :
    link f p v x = f x := by
  cases p with
  | none => rfl
  | some q => exact Function.update_of_ne (fun e => h (congrArg some e)) v f

/-- The last node's forward link is what stands behind the sequence. -/
theorem Linked.set_last {xs : List α} (h : Linked next prev back xs after) (hd : xs.Nodup)
    (v : Option α) : Linked (link next xs.getLast? v) prev back xs v := by
  cases xs using List.reverseRecOn with
  | nil => exact trivial
  | append_singleton xs x =>
    rw [linked_append] at h
    obtain ⟨h1, h2, -⟩ := h
    have hx : ∀ y ∈ xs, y ≠ x := fun y hy =>
      (List.nodup_append.mp hd).2.2 y hy x (List.mem_singleton_self x)
    rw [linked_append, List.getLast?_concat, link_some]
    refine ⟨?_, h2, Function.update_self .., trivial⟩
    exact h1.congr (fun y hy => Function.update_of_ne (hx y hy) ..) (fun _ _ => rfl)

/-- The first node's backward link is what stands in front of the sequence. -/
theorem Linked.set_head {xs : List α} (h : Linked next prev back xs after) (hd : xs.Nodup)
    (v : Option α) : Linked next (link prev xs.head? v) v xs after := by
  cases xs with
  | nil => exact trivial
  | cons x xs =>
    obtain ⟨-, h2, h3⟩ := h
    have hx : ∀ y ∈ xs, y ≠ x := fun y hy => ne_of_mem_of_not_mem hy (List.nodup_cons.mp hd).1
    rw [List.head?_cons, link_some]
    refine ⟨Function.update_self .., h2, ?_⟩
    exact h3.congr (fun _ _ => rfl) (fun y hy => Function.update_of_ne (hx y hy) ..)

/-- Join two pieces: the last node of `a` and the first of `b` point at each other. -/
theorem Linked.join {a b : List α} {p q : Option α} (ha : Linked next prev none a p)
    (hb : Linked next prev q b none) (hd : (a ++ b).Nodup) :
    Linked (link next a.getLast? b.head?) (link prev b.head? a.getLast?) none (a ++ b) none := by
  obtain ⟨hda, hdb, hab⟩ := List.nodup_append.mp hd
  rw [linked_append, Option.or_none, Option.or_none]
  constructor
  · refine (ha.set_last hda b.head?).congr (fun _ _ => rfl) (fun y hy => ?_)
    exact link_of_ne (head?_ne_of_notMem fun hm => hab y hy y hm rfl)
  · refine (hb.set_head hdb a.getLast?).congr (fun y hy => ?_) (fun _ _ => rfl)
    exact link_of_ne (getLast?_ne_of_notMem fun hm => hab y hm y hy rfl)

/-- Take `x` out: what stands in front of it and what stands behind it are joined. -/
theorem Linked.remove {a b : List α} {x : α} (h : Linked next prev none (a ++ x :: b) none)
    (hd : (a ++ x :: b).Nodup) :
    Linked (link next a.getLast? b.head?) (link prev b.head? a.getLast?) none (a ++ b) none := by
  rw [linked_append, linked_cons] at h
  obtain ⟨h1, -, -, h2⟩ := h
  exact h1.join h2 (hd.sublist (List.Sublist.append_left (List.sublist_cons_self x b) a))

/-- Put `x` between `a` and `b`: both neighbours point at it and it points at both. -/
theorem Linked.insert {a b : List α} {x : α} (h : Linked next prev none (a ++ b) none)
    (hd : (a ++ b).Nodup) (hx : x ∉ a ++ b) :
    Linked (Function.update (link next a.getLast? (some x)) x b.head?)
      (Function.update (link prev b.head? (some x)) x a.getLast?) none (a ++ x :: b) none := by
  obtain ⟨hda, hdb, hab⟩ := List.nodup_append.mp hd
  have hxa : ∀ y ∈ a, y ≠ x := fun y hy =>
    ne_of_mem_of_not_mem (List.mem_append_left b hy) hx
  have hxb : ∀ y ∈ b, y ≠ x := fun y hy =>
    ne_of_mem_of_not_mem (List.mem_append_right a hy) hx
  rw [linked_append] at h
  obtain ⟨h1, h2⟩ := h
  simp only [linked_append, linked_cons, Option.or_none, List.head?_cons] at h1 h2 ⊢
  refine ⟨?_, Function.update_self .., Function.update_self .., ?_⟩
  · refine (h1.set_last hda (some x)).congr (fun y hy => ?_) (fun y hy => ?_)
    · exact Function.update_of_ne (hxa y hy) ..
    · rw [Function.update_of_ne (hxa y hy)]
      exact link_of_ne (head?_ne_of_notMem fun hm => hab y hy y hm rfl)
  · refine (h2.set_head hdb (some x)).congr (fun y hy => ?_) (fun y hy => ?_)
    · rw [Function.update_of_ne (hxb y hy)]
      exact link_of_ne (getLast?_ne_of_notMem fun hm => hab y hm y hy rfl)
    · exact Function.update_of_ne (hxb y hy) ..

end Lib
