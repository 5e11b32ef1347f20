import Mathlib.Data.List.Nodup
import Mathlib.Data.List.Perm.Basic

/-!
# Lib.Inflight — requests in flight with one slot and a queue

The request sent last has its identifier and type in a slot; the next one pushes it into a queue.  Whatever is sent
writes its type into the slot, also what is no request.  An acknowledgement is matched with the queue, then with the
slot.

* `Counts`: the count is that of the requests that no acknowledgement was accepted for.
* `ack_accepted_iff`: an acknowledgement is accepted iff its type is the one that was written last before the request
  left the slot.
-/

namespace Lib

/-- `count` requests are in flight. -/
structure Inflight (τ ι : Type) where
  count : ℕ
  type : τ
  id : ι
  queue : List (ι × τ)

namespace Inflight

/-- `track` sends a request, `write` something else. -/
inductive Ev (τ ι : Type)
  | track (t : τ) (i : ι)
  | write (t : τ)
  | ack (t : τ) (i : ι)

section Step

variable {τ ι : Type} [DecidableEq τ] [DecidableEq ι]

/-- The state, and whether an acknowledgement was accepted. -/
def step (s : Inflight τ ι) : Ev τ ι → Inflight τ ι × Bool
  | .track t i => (⟨s.count + 1, t, i, if 0 < s.count then s.queue ++ [(s.id, s.type)] else s.queue⟩, false)
  | .write t => ({ s with type := t }, false)
  | .ack t i =>
    if s.count = 0 then (s, false)
    else if (i, t) ∈ s.queue then ({ s with count := s.count - 1, queue := s.queue.erase (i, t) }, true)
    else if s.type = t ∧ s.id = i then ({ s with count := s.count - 1 }, true)
    else (s, false)

def run (s : Inflight τ ι) (es : List (Ev τ ι)) : Inflight τ ι := es.foldl (fun s e => (step s e).1) s

@[simp] theorem run_nil (s : Inflight τ ι) : run s [] = s := rfl

@[simp] theorem run_cons (s : Inflight τ ι) (e : Ev τ ι) (es : List (Ev τ ι)) : run s (e :: es) = run (step s e).1 es :=
  rfl

theorem run_append (s : Inflight τ ι) (es es' : List (Ev τ ι)) : run s (es ++ es') = run (run s es) es' :=
  List.foldl_append

/-- The identifiers of the requests, and of the acknowledgements. -/
def tracked (es : List (Ev τ ι)) : List ι := es.filterMap fun e => match e with | .track _ i => some i | _ => none
def acked (es : List (Ev τ ι)) : List ι := es.filterMap fun e => match e with | .ack _ i => some i | _ => none

/-- The type that is written last. -/
def lastType (t : τ) (es : List (Ev τ ι)) : τ :=
  es.foldl (fun t e => match e with | .track t' _ => t' | .write t' => t' | .ack _ _ => t) t

/-! ## The count -/

/-- The requests `T`, the acknowledgements `K`, and those of them `A` that were accepted. -/
structure Counts (s : Inflight τ ι) (T A K : List ι) : Prop where
  count : s.count + A.length = T.length
  tracked : T.Nodup
  accepted : A.Nodup
  mem : ∀ j ∈ A, j ∈ T ∧ j ∈ K
  queue : ∀ e ∈ s.queue, e.1 ∈ T
  slot : 0 < s.count → s.id ∈ T

variable {s : Inflight τ ι} {T A K : List ι}

theorem Counts.track (h : Counts s T A K) {i : ι} (hi : i ∉ T) (t : τ) :
    Counts (step s (.track t i)).1 (T ++ [i]) A K where
  count := by
    have hcount := h.count
    rw [step, List.length_append, List.length_singleton]
    dsimp only
    omega
  tracked := List.nodup_append.mpr ⟨h.tracked, List.nodup_singleton i, fun a ha b hb => by
    rw [List.mem_singleton.mp hb]
    exact fun hab => hi (hab ▸ ha)⟩
  accepted := h.accepted
  mem := fun j hj => ⟨List.mem_append_left _ (h.mem j hj).1, (h.mem j hj).2⟩
  queue := by
    intro e he
    rw [step] at he
    dsimp only at he
    split_ifs at he with hpos
    · rcases List.mem_append.mp he with he | he
      · exact List.mem_append_left _ (h.queue e he)
      · rw [List.mem_singleton.mp he]
        exact List.mem_append_left _ (h.slot hpos)
    · exact List.mem_append_left _ (h.queue e he)
  slot := fun _ => List.mem_append_right _ (List.mem_singleton_self i)

theorem Counts.write (h : Counts s T A K) (t : τ) : Counts (step s (.write t)).1 T A K :=
  ⟨h.count, h.tracked, h.accepted, h.mem, h.queue, h.slot⟩

theorem Counts.ack (h : Counts s T A K) {i : ι} (hi : i ∉ K) (t : τ) :
    ∃ A', Counts (step s (.ack t i)).1 T A' (K ++ [i]) := by
  have hcount := h.count
  have hnew : i ∉ A := fun hA => hi (h.mem i hA).2
  have hnodup : (A ++ [i]).Nodup := List.nodup_append.mpr ⟨h.accepted, List.nodup_singleton i, fun a ha b hb => by
    rw [List.mem_singleton.mp hb]
    exact fun hab => hnew (hab ▸ ha)⟩
  have hmem : i ∈ T → ∀ j ∈ A ++ [i], j ∈ T ∧ j ∈ K ++ [i] := by
    intro hT j hj
    rcases List.mem_append.mp hj with hj | hj
    · exact ⟨(h.mem j hj).1, List.mem_append_left _ (h.mem j hj).2⟩
    · rw [List.mem_singleton.mp hj]
      exact ⟨hT, List.mem_append_right _ (List.mem_singleton_self i)⟩
  have hkeep : Counts s T A (K ++ [i]) :=
    ⟨h.count, h.tracked, h.accepted, fun j hj => ⟨(h.mem j hj).1, List.mem_append_left _ (h.mem j hj).2⟩, h.queue, h.slot⟩
  rw [step]
  split_ifs with hzero hqueue hslot
  · exact ⟨A, hkeep⟩
  · refine ⟨A ++ [i], ?_, h.tracked, hnodup, hmem (h.queue _ hqueue), ?_, ?_⟩
    · rw [List.length_append, List.length_singleton]
      dsimp only
      omega
    · exact fun e he => h.queue e (List.mem_of_mem_erase he)
    · exact fun _ => h.slot (Nat.pos_of_ne_zero hzero)
  · refine ⟨A ++ [i], ?_, h.tracked, hnodup, hmem (hslot.2 ▸ h.slot (Nat.pos_of_ne_zero hzero)), h.queue, ?_⟩
    · rw [List.length_append, List.length_singleton]
      dsimp only
      omega
    · exact fun _ => h.slot (Nat.pos_of_ne_zero hzero)
  · exact ⟨A, hkeep⟩

/-- **Runs** keep the count. -/
theorem Counts.run (es : List (Ev τ ι)) : ∀ {s : Inflight τ ι} {T A K : List ι}, Counts s T A K →
    (T ++ Inflight.tracked es).Nodup → (K ++ acked es).Nodup →
      ∃ A', Counts (run s es) (T ++ Inflight.tracked es) A' (K ++ acked es) := by
  induction es with
  | nil =>
    intro s T A K h _ _
    simp only [Inflight.tracked, acked, List.filterMap_nil, List.append_nil, run_nil]
    exact ⟨A, h⟩
  | cons e es ih =>
    intro s T A K h hT hK
    cases e with
    | track t i =>
      have hcons : T ++ Inflight.tracked (.track t i :: es) = (T ++ [i]) ++ Inflight.tracked es := by
        rw [List.append_assoc]
        rfl
      rw [hcons] at hT ⊢
      have hi : i ∉ T := fun hm => (List.nodup_append.mp (List.nodup_append.mp hT).1).2.2 i hm i
        (List.mem_singleton_self i) rfl
      exact ih (h.track hi t) hT hK
    | write t => exact ih (h.write t) hT hK
    | ack t i =>
      have hcons : K ++ acked (.ack t i :: es) = (K ++ [i]) ++ acked es := by
        rw [List.append_assoc]
        rfl
      rw [hcons] at hK ⊢
      have hi : i ∉ K := fun hm => (List.nodup_append.mp (List.nodup_append.mp hK).1).2.2 i hm i
        (List.mem_singleton_self i) rfl
      obtain ⟨A', h'⟩ := h.ack hi t
      exact ih h' hT hK

omit [DecidableEq τ] [DecidableEq ι] in
/-- A request without an acknowledgement is in flight. -/
theorem Counts.pos (h : Counts s T A K) {i : ι} (hT : i ∈ T) (hK : i ∉ K) : 0 < s.count := by
  have hsub : (i :: A).Subperm T := by
    refine List.subperm_of_subset (List.nodup_cons.mpr ⟨fun hA => hK (h.mem i hA).2, h.accepted⟩) fun j hj => ?_
    rcases List.mem_cons.mp hj with rfl | hj
    · exact hT
    · exact (h.mem j hj).1
  have hlen := hsub.length_le
  have hcount := h.count
  rw [List.length_cons] at hlen
  omega

/-! ## One request -/

/-- In the slot, and nowhere else. -/
def InSlot (s : Inflight τ ι) (i : ι) (t : τ) : Prop := s.id = i ∧ s.type = t ∧ ∀ e ∈ s.queue, e.1 ≠ i

/-- In the queue, with one type. -/
def InQueue (s : Inflight τ ι) (i : ι) (t : τ) : Prop :=
  s.id ≠ i ∧ (i, t) ∈ s.queue ∧ ∀ e ∈ s.queue, e.1 = i → e.2 = t

/-- Until the next request the slot follows what is written. -/
theorem InSlot.run (es : List (Ev τ ι)) {i : ι} : ∀ {s : Inflight τ ι} {t : τ}, InSlot s i t →
    (∀ e ∈ es, ∀ t' j, e ≠ .track t' j) → InSlot (run s es) i (lastType t es) := by
  induction es with
  | nil => exact fun h _ => h
  | cons e es ih =>
    intro s t h hes
    have hrest : ∀ e ∈ es, ∀ t' j, e ≠ .track t' j := fun e he => hes e (List.mem_cons_of_mem _ he)
    cases e with
    | track t' j => exact absurd rfl (hes _ List.mem_cons_self t' j)
    | write t' => exact ih (s := (step s (.write t')).1) ⟨h.1, rfl, h.2.2⟩ hrest
    | ack t' j =>
      refine ih (s := (step s (.ack t' j)).1) (t := t) ?_ hrest
      rw [step]
      split_ifs
      · exact h
      · exact ⟨h.1, h.2.1, fun e he => h.2.2 e (List.mem_of_mem_erase he)⟩
      · exact ⟨h.1, h.2.1, h.2.2⟩
      · exact h

/-- The next request pushes it into the queue. -/
theorem InSlot.track {i j : ι} {t : τ} (h : InSlot s i t) (t' : τ) (hcount : 0 < s.count) (hj : j ≠ i) :
    InQueue (step s (.track t' j)).1 i t := by
  rw [step, if_pos hcount]
  refine ⟨hj, ?_, ?_⟩
  · dsimp only
    rw [h.1, h.2.1]
    exact List.mem_append_right _ (List.mem_singleton_self _)
  · intro e he hei
    rcases List.mem_append.mp he with he | he
    · exact absurd hei (h.2.2 e he)
    · rw [List.mem_singleton.mp he]
      exact h.2.1

/-- There it stays. -/
theorem InQueue.run (es : List (Ev τ ι)) {i : ι} {t : τ} : ∀ {s : Inflight τ ι}, InQueue s i t →
    i ∉ Inflight.tracked es → i ∉ acked es → InQueue (run s es) i t := by
  induction es with
  | nil => exact fun h _ _ => h
  | cons e es ih =>
    intro s h hT hK
    cases e with
    | track t' j =>
      have hcons : Inflight.tracked (.track t' j :: es) = j :: Inflight.tracked es := rfl
      rw [hcons, List.mem_cons, not_or] at hT
      refine ih (s := (step s (.track t' j)).1) ?_ hT.2 hK
      rw [step]
      split_ifs
      · refine ⟨fun hji => hT.1 hji.symm, List.mem_append_left _ h.2.1, fun e he hei => ?_⟩
        rcases List.mem_append.mp he with he | he
        · exact h.2.2 e he hei
        · rw [List.mem_singleton.mp he] at hei
          exact absurd hei h.1
      · exact ⟨fun hji => hT.1 hji.symm, h.2⟩
    | write t' => exact ih (s := (step s (.write t')).1) h hT hK
    | ack t' j =>
      have hcons : acked (.ack t' j :: es) = j :: acked es := rfl
      rw [hcons, List.mem_cons, not_or] at hK
      refine ih (s := (step s (.ack t' j)).1) ?_ hT hK.2
      rw [step]
      split_ifs
      · exact h
      · refine ⟨h.1, ?_, fun e he => h.2.2 e (List.mem_of_mem_erase he)⟩
        exact (List.mem_erase_of_ne fun heq => hK.1 (congrArg Prod.fst heq)).mpr h.2.1
      · exact h
      · exact h

/-- What an acknowledgement finds. -/
theorem ack_slot {i : ι} {t a : τ} (h : InSlot s i t) (hcount : 0 < s.count) :
    (step s (.ack a i)).2 = true ↔ t = a := by
  have hqueue : (i, a) ∉ s.queue := fun hm => h.2.2 _ hm rfl
  rw [step, if_neg (Nat.ne_of_gt hcount), if_neg hqueue, h.1, h.2.1]
  by_cases hta : t = a
  · rw [if_pos ⟨hta, rfl⟩]
    exact iff_of_true rfl hta
  · rw [if_neg fun hc => hta hc.1]
    exact iff_of_false Bool.false_ne_true hta

theorem ack_queue {i : ι} {t a : τ} (h : InQueue s i t) (hcount : 0 < s.count) :
    (step s (.ack a i)).2 = true ↔ t = a := by
  rw [step, if_neg (Nat.ne_of_gt hcount)]
  by_cases hta : t = a
  · rw [if_pos (hta ▸ h.2.1)]
    exact iff_of_true rfl hta
  · rw [if_neg fun hm => hta (h.2.2 _ hm rfl).symm, if_neg fun hc => h.1 hc.2]
    exact iff_of_false Bool.false_ne_true hta

/-- Nothing has been sent. -/
def Idle (s : Inflight τ ι) : Prop := s.count = 0 ∧ s.queue = []

omit [DecidableEq τ] [DecidableEq ι] in
theorem Idle.counts (h : Idle s) : Counts s [] [] [] where
  count := by
    rw [h.1]
    rfl
  tracked := List.nodup_nil
  accepted := List.nodup_nil
  mem := fun _ hj => (List.not_mem_nil hj).elim
  queue := fun e he => by
    rw [h.2] at he
    cases he
  slot := fun hpos => absurd h.1 (Nat.ne_of_gt hpos)

omit [DecidableEq τ] [DecidableEq ι] in
theorem tracked_append (es es' : List (Ev τ ι)) : tracked (es ++ es') = tracked es ++ tracked es' :=
  List.filterMap_append

omit [DecidableEq τ] [DecidableEq ι] in
theorem acked_append (es es' : List (Ev τ ι)) : acked (es ++ es') = acked es ++ acked es' := List.filterMap_append

/-- A request that was sent is in the slot alone. -/
theorem Counts.inSlot (h : Counts s T A K) {i : ι} (hi : i ∉ T) (t : τ) : InSlot (step s (.track t i)).1 i t := by
  refine ⟨rfl, rfl, fun e he hei => hi ?_⟩
  rw [step] at he
  dsimp only at he
  split_ifs at he with hpos
  · rcases List.mem_append.mp he with he | he
    · exact hei ▸ h.queue e he
    · rw [List.mem_singleton.mp he] at hei
      exact hei ▸ h.slot hpos
  · exact hei ▸ h.queue e he

/-- **An acknowledgement is accepted iff** its type is the one that was written last while the request was in the
slot, given that no identifier is used twice and none is acknowledged twice. -/
theorem ack_accepted_iff (hs : Idle s) {pre seg rest : List (Ev τ ι)} {t a : τ} {i : ι}
    (hseg : ∀ e ∈ seg, ∀ t' j, e ≠ .track t' j) (hrest : rest = [] ∨ ∃ t' j rest', rest = .track t' j :: rest')
    (hT : (tracked (pre ++ .track t i :: (seg ++ rest))).Nodup)
    (hK : (acked (pre ++ .track t i :: (seg ++ rest) ++ [.ack a i])).Nodup) :
    (step (run s (pre ++ .track t i :: (seg ++ rest))) (.ack a i)).2 = true ↔ lastType t seg = a := by
  -- the identifier is new in front, and not acknowledged behind
  have hcons : ∀ es : List (Ev τ ι), tracked (.track t i :: es) = i :: tracked es := fun _ => rfl
  have hcons' : ∀ es : List (Ev τ ι), acked (.track t i :: es) = acked es := fun _ => rfl
  have hlast : acked [(.ack a i : Ev τ ι)] = [i] := rfl
  rw [acked_append, hlast, List.nodup_append] at hK
  have hnoack : ∀ j ∈ acked (pre ++ .track t i :: (seg ++ rest)), j ≠ i :=
    fun j hj => hK.2.2 j hj i (List.mem_singleton_self i)
  have hfront : i ∉ tracked pre := by
    rw [tracked_append, hcons, List.nodup_append] at hT
    exact fun hm => hT.2.2 i hm i List.mem_cons_self rfl
  have hbehind : i ∉ tracked (seg ++ rest) := by
    rw [tracked_append, hcons, List.nodup_append] at hT
    exact (List.nodup_cons.mp hT.2.1).1
  -- the counts in front of the request, in front of what pushes it, and at the end
  obtain ⟨A₁, h₁⟩ := hs.counts.run pre (by
    rw [List.nil_append]
    rw [tracked_append] at hT
    exact (List.nodup_append.mp hT).1) (by
    rw [List.nil_append]
    rw [acked_append] at hK
    exact (List.nodup_append.mp hK.1).1)
  rw [List.nil_append, List.nil_append] at h₁
  have hpos : ∀ es es', seg ++ rest = es ++ es' → 0 < (run s (pre ++ .track t i :: es)).count := by
    intro es es' hes
    have hT' := hT
    have hK' := hK.1
    rw [hes, ← List.cons_append, ← List.append_assoc] at hT' hK'
    rw [tracked_append] at hT'
    rw [acked_append] at hK'
    obtain ⟨A₂, h₂⟩ := hs.counts.run (pre ++ .track t i :: es) (by
      rw [List.nil_append]
      exact (List.nodup_append.mp hT').1) (by
      rw [List.nil_append]
      exact (List.nodup_append.mp hK').1)
    rw [List.nil_append, List.nil_append] at h₂
    refine h₂.pos (i := i) ?_ fun hm => hnoack i ?_ rfl
    · rw [tracked_append, hcons]
      exact List.mem_append_right _ List.mem_cons_self
    · rw [hes, ← List.cons_append, ← List.append_assoc, acked_append]
      exact List.mem_append_left _ hm
  have hslot := (h₁.inSlot hfront t).run seg hseg
  have hend := hpos (seg ++ rest) [] (List.append_nil _).symm
  have hrun : run s (pre ++ .track t i :: (seg ++ rest)) =
      run (run (step (run s pre) (.track t i)).1 seg) rest := by
    rw [run_append, run_cons, run_append]
  rw [hrun] at hend ⊢
  rcases hrest with rfl | ⟨t', j, rest', rfl⟩
  · exact ack_slot hslot hend
  · have hmid := hpos seg (.track t' j :: rest') rfl
    rw [run_append, run_cons] at hmid
    have htrack : tracked (seg ++ .track t' j :: rest') = tracked seg ++ j :: tracked rest' := tracked_append _ _
    rw [htrack] at hbehind
    rw [List.mem_append, List.mem_cons, not_or, not_or] at hbehind
    have hqueue := (hslot.track t' hmid (Ne.symm hbehind.2.1)).run rest' hbehind.2.2 fun hm => hnoack i (by
      rw [acked_append, hcons', acked_append]
      exact List.mem_append_right _ (List.mem_append_right _ hm)) rfl
    exact ack_queue hqueue hend

end Step

end Inflight

end Lib
