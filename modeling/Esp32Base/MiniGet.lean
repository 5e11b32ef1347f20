import Esp32Base.YunRecv

/-!
# MiniGet — what `miniDataGet` accepts and what it drops (mini-data.c)

The frames here are all well-formed ones, also the long form with a short parameter, which `miniDataCreate` does not
write.

* `miniStep_frame_iff`: a step of the framer accepts exactly the frame in front of the buffer.
* `get_exact`, `nnc_drains`: one call is right on any live bytes; so is the loop of `dtrs_recv_data_callback` over it,
  which ends.
* `miniDataGet_exact`: both, for the cache as it is passed.
-/

namespace Esp32Base

open Lib Lib.Buf

/-- A well-formed frame with the parameter `p`, in one of the two length forms. -/
inductive IsFrame (p : Bytes) : Bytes → Prop
  | short {c : UInt8} (h1 : 1 ≤ p.length) (h254 : p.length ≤ 254) (hc : c.toNat = p.length) :
    IsFrame p (0xAF :: c :: (p ++ [0xFA]))
  | long {lo hi : UInt8} (h1 : 1 ≤ p.length) (hlen : lo.toNat + 256 * hi.toNat = p.length) :
    IsFrame p (0xAF :: 0xFF :: lo :: hi :: (p ++ [0xFA]))

/-- A complete frame stands in front of `x`. -/
def FrameFront (x : Bytes) : Prop := ∃ p f, IsFrame p f ∧ f <+: x

/-- A result of `miniDataGet` that is right for the live bytes `x`. -/
structure GetExact (x : Bytes) (r : ℕ × Option TzhMiniData) : Prop where
  success : r.2.isSome ↔ FrameFront x
  frame : ∀ cmd, r.2 = some cmd → ∃ f, IsFrame cmd.parameter f ∧ f <+: x ∧ r.1 = f.length ∧
    cmd.frame_len = f.length ∧ cmd.parameter_len = cmd.parameter.length ∧ cmd.frame_head = 0 ∧
    cmd.head = 0xAF ∧ cmd.end_ = 0xFA
  le : r.2 = none → r.1 ≤ x.length
  skipped : r.2 = none → ∀ i < r.1, ¬ FrameFront (x.drop i)

/-- What a drain loop may do: take the frame in front, drop bytes at none of which a complete frame starts, and stop
where none is in front. The parameters taken, and what is left. -/
inductive Drains : Bytes → List Bytes → Bytes → Prop
  | stop {x : Bytes} (h : ¬ FrameFront x) : Drains x [] x
  | frame {p f x x' : Bytes} {ms : List Bytes} (hf : IsFrame p f) (h : Drains x ms x') : Drains (f ++ x) (p :: ms) x'
  | skip {n : ℕ} {x x' : Bytes} {ms : List Bytes} (hn : n ≤ x.length) (hno : ∀ i < n, ¬ FrameFront (x.drop i))
    (h : Drains (x.drop n) ms x') : Drains x ms x'

/-! ## Frames and steps -/

theorem IsFrame.length {p f : Bytes} (h : IsFrame p f) : 4 ≤ f.length := by
  cases h with
  | short h1 => simp only [List.length_cons, List.length_append, List.length_nil]; omega
  | long h1 => simp only [List.length_cons, List.length_append, List.length_nil]; omega

theorem IsFrame.head {p f : Bytes} (h : IsFrame p f) : ∃ t, f = 0xAF :: t := by
  cases h with
  | short => exact ⟨_, rfl⟩
  | long => exact ⟨_, rfl⟩

/-- The end byte, in front of which the parameter stands. -/
theorem param_end {pre p y : Bytes} : (pre ++ (p ++ [0xFA]) ++ y)[pre.length + p.length]? = some 0xFA ∧
    ((pre ++ (p ++ [0xFA]) ++ y).drop pre.length).take p.length = p ∧
    (pre ++ (p ++ [0xFA]) ++ y).drop (pre.length + p.length + 1) = y := by
  refine ⟨?_, ?_, ?_⟩
  · rw [List.append_assoc, List.getElem?_append_right (by omega), Nat.add_sub_cancel_left, List.append_assoc,
      List.getElem?_append_right le_rfl, Nat.sub_self]
    rfl
  · rw [List.append_assoc, List.drop_left, List.append_assoc, List.take_left]
  · exact List.drop_left' (by simp only [List.length_append, List.length_singleton]; omega)

/-- The other way round: a `0xFA` behind `len` bytes. -/
theorem param_split {pre u : Bytes} {len : ℕ} (h : (pre ++ u)[pre.length + len]? = some 0xFA) :
    (((pre ++ u).drop pre.length).take len).length = len ∧
      pre ++ u = pre ++ (((pre ++ u).drop pre.length).take len ++ [0xFA]) ++ (pre ++ u).drop (pre.length + len + 1) := by
  rw [List.getElem?_append_right (by omega), Nat.add_sub_cancel_left] at h
  obtain ⟨hlt, hb⟩ := List.getElem?_eq_some_iff.mp h
  have hdrop : (pre ++ u).drop (pre.length + len + 1) = u.drop (len + 1) := by
    rw [Nat.add_assoc, ← List.drop_drop, List.drop_left]
  rw [hdrop, List.drop_left]
  refine ⟨List.length_take_of_le hlt.le, ?_⟩
  conv_lhs => rw [← List.take_append_drop len u, List.drop_eq_getElem_cons hlt, hb]
  simp only [List.append_assoc, List.singleton_append]

/-- A step that knows the length: the frame is accepted. -/
theorem miniStep_known (pre : Bytes) {t p y : Bytes} (h1 : 1 ≤ p.length) (ht : 0xAF :: t = pre ++ (p ++ [0xFA]) ++ y)
    (hl : miniLength (0xAF :: t) = some (p.length, pre.length, pre.length + 1)) :
    miniStep (0xAF :: t) = some (some p, y) := by
  obtain ⟨hend, htake, hdrop⟩ := @param_end pre p y
  have hlen := congrArg List.length ht
  simp only [List.length_append, List.length_singleton] at hlen
  rw [miniStep_head, hl, Option.bind_some]
  dsimp only
  rw [if_neg (by omega), if_neg (by omega), ht, if_pos hend, htake, hdrop]

theorem miniStep_of_frame {p f : Bytes} (h : IsFrame p f) (y : Bytes) : miniStep (f ++ y) = some (some p, y) := by
  cases h with
  | @short c h1 h254 hc =>
    have hne : c ≠ 0xFF := by
      rintro rfl
      rw [show (0xFF : UInt8).toNat = 255 from rfl] at hc
      omega
    refine miniStep_known [0xAF, c] h1 rfl ?_
    simp [miniLength, hne, hc]
  | @long lo hi h1 hlen =>
    refine miniStep_known [0xAF, 0xFF, lo, hi] h1 rfl ?_
    simp [miniLength, le16_eq, hlen]

/-- What the length field says of the bytes in front. -/
theorem miniLength_pre {t : Bytes} {len n base : ℕ} (h : miniLength (0xAF :: t) = some (len, n, base)) :
    ∃ pre u, 0xAF :: t = pre ++ u ∧ pre.length = n ∧ ∀ p : Bytes, 1 ≤ p.length → p.length = len →
      IsFrame p (pre ++ (p ++ [0xFA])) := by
  obtain ⟨c, hc, h⟩ := Option.bind_eq_some_iff.mp h
  obtain ⟨u, rfl⟩ : ∃ u, t = c :: u := by
    cases t with
    | nil => cases hc
    | cons a u => exact ⟨u, by rw [Option.some.inj hc]⟩
  split_ifs at h with hff
  · -- the long form
    obtain ⟨lo, hlo, h⟩ := Option.bind_eq_some_iff.mp h
    obtain ⟨hi, hhi, h⟩ := Option.map_eq_some_iff.mp h
    obtain ⟨rfl, rfl, rfl⟩ : le16 lo hi = len ∧ 4 = n ∧ 5 = base := by simpa only [Prod.mk.injEq] using h
    obtain ⟨v, rfl⟩ : ∃ v, u = lo :: hi :: v := by
      match u, hlo, hhi with
      | a :: b :: v, hlo, hhi =>
        obtain rfl := Option.some.inj hlo
        obtain rfl := Option.some.inj hhi
        exact ⟨v, rfl⟩
    subst hff
    refine ⟨[0xAF, 0xFF, lo, hi], v, rfl, rfl, fun p h1 hp => IsFrame.long h1 ?_⟩
    rw [hp, le16_eq]
  · obtain ⟨rfl, rfl, rfl⟩ : c.toNat = len ∧ 2 = n ∧ 3 = base := by
      simpa only [Option.some.injEq, Prod.mk.injEq] using h
    refine ⟨[0xAF, c], u, rfl, rfl, fun p h1 hp => IsFrame.short h1 ?_ hp.symm⟩
    have hlt := c.toNat_lt
    have hne : c.toNat ≠ 255 := fun h => hff (UInt8.toNat_inj.mp h)
    omega

theorem frame_of_miniStep {x p r : Bytes} (h : miniStep x = some (some p, r)) : ∃ f, IsFrame p f ∧ x = f ++ r := by
  cases x with
  | nil => cases h
  | cons b t =>
    by_cases hb : b ≠ 0xAF
    · rw [miniStep_noise hb] at h
      cases h
    obtain rfl := not_not.mp hb
    rw [miniStep_head] at h
    obtain ⟨⟨len, n, base⟩, hl, h⟩ := Option.bind_eq_some_iff.mp h
    obtain ⟨pre, u, hpre, rfl, hframe⟩ := miniLength_pre hl
    rw [hpre] at h ⊢
    dsimp only at h
    split_ifs at h with h0 hw hend
    · cases h
    · obtain ⟨hp, rfl⟩ := Prod.mk.inj (Option.some.inj h)
      obtain rfl := Option.some.inj hp
      obtain ⟨hlen, hsplit⟩ := param_split hend
      exact ⟨_, hframe _ (by omega) hlen, hsplit⟩
    · cases h

/-- **A step of the framer** accepts exactly the frame in front. -/
theorem miniStep_frame_iff {x p r : Bytes} : miniStep x = some (some p, r) ↔ ∃ f, IsFrame p f ∧ x = f ++ r := by
  constructor
  · exact frame_of_miniStep
  · rintro ⟨f, hf, rfl⟩
    exact miniStep_of_frame hf r

theorem not_frameFront {x : Bytes} (h : ∀ p r, miniStep x ≠ some (some p, r)) : ¬ FrameFront x := by
  rintro ⟨p, f, hf, r, rfl⟩
  exact h p r (miniStep_of_frame hf r)

theorem not_frameFront_head {x : Bytes} (h : x.head? ≠ some 0xAF) : ¬ FrameFront x := by
  rintro ⟨p, f, hf, r, rfl⟩
  obtain ⟨t, rfl⟩ := hf.head
  exact h rfl

/-! ## One call -/

/-- The fields of an accepted frame. -/
theorem miniDataGet_cmd {cache : Bytes} {cache_len r : ℕ} {cmd : TzhMiniData}
    (h : miniDataGet cache cache_len = some (r, some cmd)) :
    cmd.frame_len = r ∧ cmd.parameter_len = cmd.parameter.length ∧ cmd.frame_head = 0 ∧ cmd.head = 0xAF ∧
      cmd.end_ = 0xFA := by
  unfold miniDataGet at h
  split_ifs at h with h3
  · cases h
  obtain ⟨n, -, h⟩ := Option.bind_eq_some_iff.mp h
  split_ifs at h with hn
  · cases h
  obtain ⟨⟨len, n, base⟩, -, h⟩ := Option.bind_eq_some_iff.mp h
  dsimp only at h
  split_ifs at h with h0 hw
  · cases h
  · cases h
  obtain ⟨parameter, hload, h⟩ := Option.bind_eq_some_iff.mp h
  obtain ⟨e, -, h⟩ := Option.map_eq_some_iff.mp h
  split_ifs at h with he
  · cases h
  obtain ⟨rfl, hcmd⟩ := Prod.mk.inj h
  obtain rfl := Option.some.inj hcmd
  obtain ⟨hle, rfl⟩ := load_eq_some hload
  have hlen : ((cache.drop n).take len).length = len :=
    List.length_take_of_le (by rw [List.length_drop]; omega)
  exact ⟨rfl, hlen.symm, rfl, rfl, rfl⟩

/-- A call that reports nothing. -/
theorem GetExact.none {x : Bytes} {n : ℕ} (hno : ¬ FrameFront x) (hn : n ≤ x.length)
    (hskip : ∀ i < n, ¬ FrameFront (x.drop i)) : GetExact x (n, none) where
  success := by
    constructor
    · intro h
      cases h
    · exact fun h => absurd h hno
  frame := by
    intro cmd h
    cases h
  le _ := hn
  skipped _ := hskip

/-- **One call** is right, on any live bytes `x` in a cache of at least four readable bytes. -/
theorem get_exact (x rest : Bytes) (hr : 4 ≤ (x ++ rest).length) :
    ∃ r, miniDataGet (x ++ rest) x.length = some r ∧ GetExact x r := by
  obtain ⟨r, hget, hcase⟩ := miniDataGet_cases x rest hr
  refine ⟨r, hget, ?_⟩
  have hfirst : ¬ FrameFront x → ∀ i < 1, ¬ FrameFront (x.drop i) := by
    intro hno i hi
    obtain rfl := Nat.lt_one_iff.mp hi
    rwa [List.drop_zero]
  cases hcase with
  | wait h =>
    refine GetExact.none ?_ (Nat.zero_le _) fun i hi => absurd hi (Nat.not_lt_zero i)
    rcases h with h | h
    · rintro ⟨p, f, hf, hpre⟩
      have h4 := hf.length
      have hle := hpre.length_le
      omega
    · exact not_frameFront fun p r hs => by rw [h] at hs; cases hs
  | @noise n h0 hn h =>
    have hskip : ∀ i < n, ¬ FrameFront (x.drop i) := by
      intro i hi
      refine not_frameFront_head fun hhead => h ?_
      rw [List.head?_drop, ← List.getElem?_take_of_lt hi] at hhead
      exact List.mem_of_getElem? hhead
    refine GetExact.none ?_ hn hskip
    have hno := hskip 0 h0
    rwa [List.drop_zero] at hno
  | skip h h0 =>
    have hno : ¬ FrameFront x := not_frameFront fun p r hs => by rw [h] at hs; cases hs
    exact GetExact.none hno (List.length_pos_iff.mpr h0) (hfirst hno)
  | early hx hrest =>
    have hno : ¬ FrameFront x := by
      rintro ⟨p, f, hf, hpre⟩
      have h4 := hf.length
      have hle := hpre.length_le
      rw [hx, List.length_cons, List.length_cons, List.length_cons, List.length_nil] at hle
      omega
    exact GetExact.none hno (by rw [hx]; exact Nat.succ_pos _) (hfirst hno)
  | @frame n cmd h0 hn hp h =>
    obtain ⟨f, hf, hx⟩ := frame_of_miniStep h
    have hlen : n = f.length := by
      have hl := congrArg List.length hx
      rw [List.length_append, List.length_drop] at hl
      omega
    obtain ⟨hflen, hplen, hhead, h1, h2⟩ := miniDataGet_cmd hget
    have hpre : f <+: x := ⟨_, hx.symm⟩
    refine ⟨⟨fun _ => ⟨_, f, hf, hpre⟩, fun _ => rfl⟩, ?_, fun h => (nomatch h), fun h => (nomatch h)⟩
    intro cmd' hcmd
    obtain rfl := Option.some.inj hcmd
    exact ⟨f, hf, hpre, hlen, hflen.trans hlen, hplen, hhead, h1, h2⟩

/-! ## The loop -/

/-- **The loop** at `_nnc` ends; it takes complete frames, and drops none. -/
theorem nnc_drains : ∀ (fuel : ℕ) (x rest : Bytes), x.length < fuel → 4 ≤ (x ++ rest).length →
    ∃ x' rest' ms, nnc fuel (x ++ rest) x.length = some (⟨x' ++ rest', x'.length⟩, ms.map cmdParam) ∧
      Drains x ms x'
  | 0, _, _, h, _ => absurd h (Nat.not_lt_zero _)
  | fuel + 1, x, rest, hf, h4 => by
    obtain ⟨⟨tmp, cmd⟩, hget, hexact⟩ := get_exact x rest h4
    cases cmd with
    | none =>
      have hle := hexact.le rfl
      have hskip := hexact.skipped rfl
      dsimp only at hle hskip
      by_cases htmp : 0 < tmp
      · have hmove := moveDown_drop rest hle
        have hlen : (x.drop tmp).length = x.length - tmp := List.length_drop
        obtain ⟨x', rest', ms, hrun, hdrains⟩ := nnc_drains fuel (x.drop tmp) ((x ++ rest).drop (x.length - tmp))
          (by omega) (by rw [moveDown_length hmove]; exact h4)
        rw [hlen] at hrun
        refine ⟨x', rest', ms, ?_, Drains.skip hle hskip hdrains⟩
        rw [nnc, hget, Option.bind_some]
        dsimp only
        rw [if_pos htmp, hmove, Option.bind_some, hrun]
        rfl
      · have hstop : ¬ FrameFront x := fun h => by
          have := hexact.success.mpr h
          cases this
        refine ⟨x, rest, [], ?_, Drains.stop hstop⟩
        rw [nnc, hget, Option.bind_some]
        dsimp only
        rw [if_neg htmp]
        rfl
    | some cmd =>
      obtain ⟨f, hframe, ⟨y, rfl⟩, hr, -⟩ := hexact.frame cmd rfl
      dsimp only at hr
      subst hr
      have h4' := hframe.length
      have hle : f.length ≤ (f ++ y).length := by rw [List.length_append]; omega
      have hmove := moveDown_drop rest hle
      have hlen : (f ++ y).length - f.length = y.length := by rw [List.length_append, Nat.add_sub_cancel_left]
      rw [List.drop_left, hlen] at hmove
      obtain ⟨x', rest', ms, hrun, hdrains⟩ := nnc_drains fuel y ((f ++ y ++ rest).drop y.length)
        (by rw [List.length_append] at hf; omega) (by rw [moveDown_length hmove]; exact h4)
      refine ⟨x', rest', cmd.parameter :: ms, ?_, Drains.frame hframe hdrains⟩
      rw [nnc, hget, Option.bind_some]
      dsimp only
      rw [if_pos (by omega), hlen, hmove, Option.bind_some, hrun]
      rfl

/-- **Exactly the frames**: one call on any cache and any number of live bytes in it, and the loop over it. -/
theorem miniDataGet_exact {cache : Bytes} {cache_len : ℕ} (hread : max cache_len 4 < cache.length) :
    (∃ r, miniDataGet cache cache_len = some r ∧ GetExact (cache.take cache_len) r) ∧
      ∃ x' rest' ms, nnc (cache_len + 1) cache cache_len = some (⟨x' ++ rest', x'.length⟩, ms.map cmdParam) ∧
        Drains (cache.take cache_len) ms x' := by
  have hlen : (cache.take cache_len).length = cache_len := List.length_take_of_le (by omega)
  have h4 : 4 ≤ (cache.take cache_len ++ cache.drop cache_len).length := by
    rw [List.take_append_drop]
    omega
  obtain ⟨r, hget, hexact⟩ := get_exact _ _ h4
  obtain ⟨x', rest', ms, hrun, hdrains⟩ := nnc_drains (cache_len + 1) _ _ (by omega) h4
  rw [List.take_append_drop, hlen] at hget hrun
  exact ⟨⟨r, hget, hexact⟩, x', rest', ms, hrun, hdrains⟩

/-- A long frame with a short parameter, behind noise. -/
theorem miniDataGet_exact_noise :
    (∃ r, miniDataGet ([7, 0xAF, 0xFF, 1, 0, 9, 0xFA] ++ [0, 0]) 7 = some r ∧
        GetExact (([7, 0xAF, 0xFF, 1, 0, 9, 0xFA] ++ [0, 0] : Bytes).take 7) r) ∧
      ∃ x' rest' ms, nnc (7 + 1) ([7, 0xAF, 0xFF, 1, 0, 9, 0xFA] ++ [0, 0]) 7 =
          some (⟨x' ++ rest', x'.length⟩, ms.map cmdParam) ∧
        Drains (([7, 0xAF, 0xFF, 1, 0, 9, 0xFA] ++ [0, 0] : Bytes).take 7) ms x' :=
  miniDataGet_exact (by decide)

end Esp32Base
