import Mathlib.Algebra.Order.Ring.Nat
import Mathlib.Data.List.Basic
import Mathlib.Data.List.TakeWhile
import Esp32Base.Lib.Buf

/-!
# Mqtt.Outbox — the messages that wait for an acknowledgement (mqtt_outbox.c)

The list, in the order of its tail queue.

* `outbox_cleanup_least`: it drops the oldest items that are not pending, and no more of them than needed.
* `outbox_destroy_frees_iff`: when nothing is lost with the head.
-/

namespace Esp32Base

open Lib

/-- `len` is the length of the buffer. -/
structure OutboxItem where
  buffer : Bytes
  msg_id : ℕ
  msg_type : ℕ
  tick : ℤ
  pending : Bool
  deriving DecidableEq

def outbox_init : List OutboxItem := []

def outbox_enqueue (outbox : List OutboxItem) (data : Bytes) (msg_id msg_type : ℕ) (tick : ℤ) : List OutboxItem :=
  outbox ++ [⟨data, msg_id, msg_type, tick, false⟩]

def outbox_get (outbox : List OutboxItem) (msg_id : ℕ) : Option OutboxItem :=
  outbox.find? fun item => item.msg_id = msg_id

def outbox_dequeue (outbox : List OutboxItem) : Option OutboxItem := outbox.find? fun item => !item.pending

/-- `ESP_FAIL` is `none`. -/
def outbox_delete (outbox : List OutboxItem) (msg_id msg_type : ℕ) : Option (List OutboxItem) :=
  if outbox.any fun item => item.msg_id = msg_id ∧ item.msg_type = msg_type then
    some (outbox.eraseP fun item => item.msg_id = msg_id ∧ item.msg_type = msg_type)
  else none

def outbox_delete_msgid (outbox : List OutboxItem) (msg_id : ℕ) : List OutboxItem :=
  outbox.filter fun item => item.msg_id ≠ msg_id

/-- Only the first item with the identifier. -/
def outbox_set_pending : List OutboxItem → ℕ → Option (List OutboxItem)
  | [], _ => none
  | item :: outbox, msg_id =>
    if item.msg_id = msg_id then some ({ item with pending := true } :: outbox)
    else (outbox_set_pending outbox msg_id).map (item :: ·)

def outbox_delete_msgtype (outbox : List OutboxItem) (msg_type : ℕ) : List OutboxItem :=
  outbox.filter fun item => item.msg_type ≠ msg_type

def outbox_delete_expired (outbox : List OutboxItem) (current_tick timeout : ℤ) : List OutboxItem :=
  outbox.filter fun item => ¬ timeout < current_tick - item.tick

def outbox_get_size (outbox : List OutboxItem) : ℕ := (outbox.map fun item => item.buffer.length).sum

/-- `STAILQ_REMOVE` of the item that `outbox_dequeue` found. -/
def dropFirst (outbox : List OutboxItem) : List OutboxItem := outbox.eraseP fun item => !item.pending

theorem dropFirst_length {outbox : List OutboxItem} {item : OutboxItem} (h : outbox_dequeue outbox = some item) :
    (dropFirst outbox).length + 1 = outbox.length := by
  have hmem := List.mem_of_find?_eq_some h
  have hpend := List.find?_some h
  rw [dropFirst, List.length_eraseP_of_mem hmem hpend]
  exact Nat.sub_add_cancel (List.length_pos_of_mem hmem)

/-- `ESP_FAIL` is `false`. -/
def outbox_cleanup (outbox : List OutboxItem) (max_size : ℕ) : Bool × List OutboxItem :=
  if max_size < outbox_get_size outbox then
    match h : outbox_dequeue outbox with
    | none => (false, outbox)
    | some _ =>
      have := dropFirst_length h
      outbox_cleanup (dropFirst outbox) max_size
  else (true, outbox)
termination_by outbox.length

/-- What is left when the head is freed. -/
def outbox_destroy (outbox : List OutboxItem) : List OutboxItem := (outbox_cleanup outbox 0).2

/-! ## Dropping the oldest -/

/-- The items that may be dropped, and the others. -/
def droppable (outbox : List OutboxItem) : List OutboxItem := outbox.filter fun item => !item.pending
def kept (outbox : List OutboxItem) : List OutboxItem := outbox.filter fun item => item.pending

theorem dequeue_eq_head (outbox : List OutboxItem) : outbox_dequeue outbox = (droppable outbox).head? :=
  List.head?_filter.symm

/-- The first item that is dropped is the first that may be. -/
theorem dropFirst_parts (outbox : List OutboxItem) :
    droppable (dropFirst outbox) = (droppable outbox).tail ∧ kept (dropFirst outbox) = kept outbox := by
  induction outbox with
  | nil => exact ⟨rfl, rfl⟩
  | cons item outbox ih =>
    obtain ⟨ihd, ihk⟩ := ih
    unfold dropFirst droppable kept at *
    by_cases hp : item.pending
    · rw [List.eraseP_cons_of_neg (by rw [hp]; decide), List.filter_cons_of_neg (by rw [hp]; decide),
        List.filter_cons_of_neg (by rw [hp]; decide), List.filter_cons_of_pos (by exact hp),
        List.filter_cons_of_pos (by exact hp), ihd, ihk]
      exact ⟨rfl, rfl⟩
    · rw [Bool.not_eq_true] at hp
      rw [List.eraseP_cons_of_pos (by rw [hp]; rfl), List.filter_cons_of_pos (by rw [hp]; rfl), List.tail_cons,
        List.filter_cons_of_neg (by rw [hp]; decide)]
      exact ⟨rfl, rfl⟩

/-- What a cleanup that answers `ok` may leave: the pending items, all but the `k` oldest of the others, in their
order. -/
structure Cleaned (outbox : List OutboxItem) (max_size : ℕ) (ok : Bool) (left : List OutboxItem) (k : ℕ) : Prop where
  order : left.Sublist outbox
  kept : kept left = kept outbox
  droppable : droppable left = (droppable outbox).drop k
  bound : k ≤ (Esp32Base.droppable outbox).length
  /-- with one item less dropped it would be too large -/
  needed : ∀ j < k, max_size < outbox_get_size (dropFirst^[j] outbox)
  /-- it is small enough, or nothing more may be dropped -/
  done : if ok then outbox_get_size left ≤ max_size else max_size < outbox_get_size left ∧ Esp32Base.droppable left = []

theorem outbox_cleanup_least (outbox : List OutboxItem) (max_size : ℕ) :
    ∃ k, Cleaned outbox max_size (outbox_cleanup outbox max_size).1 (outbox_cleanup outbox max_size).2 k := by
  induction h : outbox.length using Nat.strongRecOn generalizing outbox with
  | _ n ih =>
    rw [outbox_cleanup]
    by_cases hlarge : max_size < outbox_get_size outbox
    · rw [if_pos hlarge]
      split
      · next hnone =>
        have hempty : droppable outbox = [] := by
          rw [dequeue_eq_head] at hnone
          exact List.head?_eq_none_iff.mp hnone
        exact ⟨0, List.Sublist.refl _, rfl, rfl, Nat.zero_le _, fun j hj => absurd hj (Nat.not_lt_zero j),
          ⟨hlarge, hempty⟩⟩
      · next item hsome =>
        have hlen := dropFirst_length hsome
        obtain ⟨hd, hk⟩ := dropFirst_parts outbox
        obtain ⟨k, hc⟩ := ih (dropFirst outbox).length (by omega) (dropFirst outbox) rfl
        have hpos : 0 < (droppable outbox).length := by
          rw [dequeue_eq_head] at hsome
          exact List.length_pos_of_mem (List.mem_of_mem_head? hsome)
        refine ⟨k + 1, hc.order.trans (List.eraseP_sublist ..), hc.kept.trans hk, ?_, ?_, ?_, hc.done⟩
        · rw [hc.droppable, hd, List.drop_tail]
        · have hle := hc.bound
          rw [hd, List.length_tail] at hle
          omega
        · intro j hj
          cases j with
          | zero => exact hlarge
          | succ j => exact hc.needed j (Nat.lt_of_succ_lt_succ hj)
    · rw [if_neg hlarge]
      exact ⟨0, List.Sublist.refl _, rfl, rfl, Nat.zero_le _, fun j hj => absurd hj (Nat.not_lt_zero j),
        Nat.le_of_not_lt hlarge⟩

/-- Without pending items it is the front that is dropped. -/
theorem dropFirst_iterate {outbox : List OutboxItem} (h : ∀ item ∈ outbox, item.pending = false) (j : ℕ) :
    dropFirst^[j] outbox = outbox.drop j := by
  induction j generalizing outbox with
  | zero => rfl
  | succ j ih =>
    cases outbox with
    | nil =>
      rw [Function.iterate_succ_apply, show dropFirst [] = [] from rfl, ih (by simp), List.drop_nil, List.drop_nil]
    | cons item outbox =>
      have hfirst : dropFirst (item :: outbox) = outbox := by
        rw [dropFirst, List.eraseP_cons_of_pos (by rw [h item List.mem_cons_self]; rfl)]
      rw [Function.iterate_succ_apply, hfirst, ih fun i hi => h i (List.mem_cons_of_mem _ hi), List.drop_succ_cons]

theorem size_pos_of_last {outbox : List OutboxItem} {item : OutboxItem} (h : outbox.getLast? = some item)
    (hlen : item.buffer ≠ []) : 0 < outbox_get_size outbox := by
  obtain ⟨front, rfl⟩ := List.getLast?_eq_some_iff.mp h
  have hpos := List.length_pos_iff.mpr hlen
  rw [outbox_get_size, List.map_append, List.sum_append, List.map_singleton, List.sum_singleton]
  omega

/-- **Nothing is lost** with the head iff no item is pending and the last one is not empty: the loop ends at a size of
zero. -/
theorem outbox_destroy_frees_iff (outbox : List OutboxItem) : outbox_destroy outbox = [] ↔
    (∀ item ∈ outbox, item.pending = false) ∧ ∀ item, outbox.getLast? = some item → item.buffer ≠ [] := by
  obtain ⟨k, hc⟩ := outbox_cleanup_least outbox 0
  have hall : (∀ item ∈ outbox, item.pending = false) → droppable outbox = outbox := fun h =>
    List.filter_eq_self.mpr fun item hi => by rw [h item hi]; rfl
  rw [outbox_destroy]
  constructor
  · intro hnil
    have hkept := hc.kept
    have hdrop := hc.droppable
    rw [hnil] at hkept hdrop
    have hpend : ∀ item ∈ outbox, item.pending = false := by
      intro item hi
      refine Bool.eq_false_iff.mpr fun hp => ?_
      have hmem : item ∈ kept outbox := List.mem_filter.mpr ⟨hi, hp⟩
      rw [← hkept] at hmem
      exact List.not_mem_nil hmem
    refine ⟨hpend, fun item hlast hempty => ?_⟩
    obtain ⟨front, rfl⟩ := List.getLast?_eq_some_iff.mp hlast
    have hk := List.drop_eq_nil_iff.mp hdrop.symm
    rw [hall hpend, List.length_append, List.length_singleton] at hk
    have hone := hc.needed front.length (by omega)
    rw [dropFirst_iterate hpend, List.drop_left, outbox_get_size, List.map_singleton, List.sum_singleton, hempty] at hone
    exact Nat.lt_irrefl 0 hone
  · rintro ⟨hpend, hlast⟩
    have hkept : kept (outbox_cleanup outbox 0).2 = [] := by
      rw [hc.kept]
      exact List.filter_eq_nil_iff.mpr fun item hi hp => by rw [hpend item hi] at hp; cases hp
    have hself : droppable (outbox_cleanup outbox 0).2 = (outbox_cleanup outbox 0).2 :=
      List.filter_eq_self.mpr fun item hi => by rw [hpend item (hc.order.subset hi)]; rfl
    have hdone := hc.done
    split_ifs at hdone with hok
    · by_contra hne
      have hsuffix := hc.droppable
      rw [hself, hall hpend] at hsuffix
      have hl : (outbox_cleanup outbox 0).2.getLast? = outbox.getLast? := by
        have hlt : k < outbox.length := by
          by_contra hle
          exact hne (hsuffix.trans (List.drop_eq_nil_iff.mpr (Nat.le_of_not_lt hle)))
        rw [hsuffix, List.getLast?_drop, if_neg (Nat.not_le_of_lt hlt)]
      obtain ⟨item, hitem⟩ := Option.ne_none_iff_exists'.mp fun hn => hne (List.getLast?_eq_none_iff.mp hn)
      exact absurd hdone (Nat.not_le_of_lt (size_pos_of_last hitem (hlast item (hl ▸ hitem))))
    · exact hself.symm.trans hdone.2

end Esp32Base
