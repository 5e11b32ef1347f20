import Mathlib.Algebra.Order.Ring.Int
import Esp32Base.Lib.Buf

/-!
# Http.Post — sending a POST body in pieces (zhHttp.c)

The loop of `_zhHttpThread_Data` that hands `p->body` to `zhSockSend`: pieces of 1024 bytes at
`send_pos` while more than 1024 bytes are left, then one last piece.

* `postLoop_run`: what the loop sends from any of its states.
* `post_in_order_iff`: the bytes accepted are the body, in order, exactly when the last piece equals the
  beginning of the body.
-/

namespace Esp32Base

open Lib Lib.Buf

/-- The loop from `send_len` and `send_pos` on, when `k` large pieces have been tried; `ret k` is the
result of the `k`-th. The bytes accepted by each send, and whether the end was reached without a
`ezhHttpOperatPostFail`. The last piece is accepted whole. -/
def postLoop (body : Bytes) (ret : ℕ → ℤ) : ℕ → ℕ → ℕ → ℕ → Option (List Bytes × Bool)
  | 0, _, _, _ => none
  | fuel + 1, k, send_len, send_pos =>
    if send_len ≤ 1024 then (load body 0 send_len).map fun piece => ([piece], true)
    else
      (load body send_pos 1024).bind fun piece =>
        if 0 < ret k then
          (postLoop body ret fuel (k + 1) (send_len - (ret k).toNat) (send_pos + (ret k).toNat)).map
            fun r => (piece.take (ret k).toNat :: r.1, r.2)
        else if ret k = -1 then some ([], false)
        else postLoop body ret fuel (k + 1) send_len send_pos

/-- The loop on the whole body; every turn but a last one sends at least one byte. -/
def postBody (body : Bytes) (ret : ℕ → ℤ) : Option (List Bytes × Bool) :=
  postLoop body ret (body.length + 1) 0 body.length 0

/-- The results a send of 1024 bytes can have. -/
def SendResults (ret : ℕ → ℤ) : Prop := ∀ k, ret k = -1 ∨ 1 ≤ ret k ∧ ret k ≤ 1024

/-- `send_pos` after `n` large pieces. -/
def sentBy (ret : ℕ → ℤ) : ℕ → ℕ
  | 0 => 0
  | n + 1 => sentBy ret n + (ret n).toNat

/-- The last piece of a body of `len` bytes is sent after `n` large pieces: none of them failed, each
was sent with more than 1024 bytes left, and no more than 1024 are left now. -/
def LastPiece (len : ℕ) (ret : ℕ → ℤ) (n : ℕ) : Prop :=
  (∀ k < n, ret k ≠ -1 ∧ 1024 < len - sentBy ret k) ∧ len - sentBy ret n ≤ 1024

/-- The last piece is sent after at most one number of large pieces. -/
theorem LastPiece.unique {len : ℕ} {ret : ℕ → ℤ} {n m : ℕ} (hn : LastPiece len ret n)
    (hm : LastPiece len ret m) : n = m := by
  rcases lt_trichotomy n m with h | h | h
  · have := (hm.1 n h).2
    have := hn.2
    omega
  · exact h
  · have := (hn.1 m h).2
    have := hm.2
    omega

/-- What a send accepts of its piece is the data between the two positions. -/
theorem take_sent (data rest : Bytes) {ret : ℕ → ℤ} {k n : ℕ} (h : (ret k).toNat ≤ n) :
    data.take (sentBy ret k) ++ (((data.drop (sentBy ret k)).take n).take (ret k).toNat ++ rest) =
      data.take (sentBy ret (k + 1)) ++ rest := by
  have hs : sentBy ret (k + 1) = sentBy ret k + (ret k).toNat := rfl
  rw [List.take_take, Nat.min_eq_left h, ← List.append_assoc, hs, List.take_add]

/-- **What the loop sends** from the state after `k` large pieces: the body from `send_pos` on up to the
last piece, which is taken from the beginning of the body; or a prefix of it, when a send fails first. -/
theorem postLoop_run (body : Bytes) {ret : ℕ → ℤ} (hret : SendResults ret) :
    ∀ (fuel k : ℕ), (∀ i < k, ret i ≠ -1 ∧ 1024 < body.length - sentBy ret i) →
      body.length - sentBy ret k < fuel → sentBy ret k ≤ body.length →
      ∃ sent ok, postLoop body ret fuel k (body.length - sentBy ret k) (sentBy ret k) = some (sent, ok) ∧
        (ok = true → ∃ n, LastPiece body.length ret n ∧ sentBy ret k ≤ sentBy ret n ∧
          sentBy ret n ≤ body.length ∧
          body.take (sentBy ret k) ++ sent.flatten =
            body.take (sentBy ret n) ++ body.take (body.length - sentBy ret n)) ∧
        (ok = false → (∀ n, ¬ LastPiece body.length ret n) ∧
          body.take (sentBy ret k) ++ sent.flatten <+: body)
  | 0, k, _, hf, _ => absurd hf (by omega)
  | fuel + 1, k, hk, hf, hle => by
    by_cases hlast : body.length - sentBy ret k ≤ 1024
    · refine ⟨[body.take (body.length - sentBy ret k)], true, ?_, fun _ => ?_, fun h => by cases h⟩
      · rw [postLoop, if_pos hlast, load_of_le (by omega)]
        rfl
      · exact ⟨k, ⟨hk, hlast⟩, le_rfl, hle, by simp⟩
    · have hload : load body (sentBy ret k) 1024 = some ((body.drop (sentBy ret k)).take 1024) :=
        load_of_le (by omega)
      rcases hret k with hfail | ⟨h1, h2⟩
      · refine ⟨[], false, ?_, (fun h => by cases h), fun _ => ⟨fun n hn => ?_, ?_⟩⟩
        · rw [postLoop, if_neg hlast, hload, Option.bind_some, if_neg (by omega), if_pos hfail]
        · -- a last piece after this one would have had to get past the failure
          rcases lt_or_ge k n with h | h
          · exact (hn.1 k h).1 hfail
          · rcases lt_or_eq_of_le h with h | rfl
            · have := (hk n h).2
              have := hn.2
              omega
            · exact hlast hn.2
        · rw [List.flatten_nil, List.append_nil]
          exact List.take_prefix _ _
      · have hs : sentBy ret (k + 1) = sentBy ret k + (ret k).toNat := rfl
        have hlen : body.length - sentBy ret k - (ret k).toNat = body.length - sentBy ret (k + 1) := by
          omega
        have hk' : ∀ i < k + 1, ret i ≠ -1 ∧ 1024 < body.length - sentBy ret i := by
          intro i hi
          rcases lt_or_eq_of_le (Nat.lt_succ_iff.mp hi) with h | rfl
          · exact hk i h
          · exact ⟨by omega, by omega⟩
        obtain ⟨sent, ok, hrun, hok, hno⟩ := postLoop_run body hret fuel (k + 1) hk' (by omega) (by omega)
        have hpiece := take_sent body sent.flatten (by omega : (ret k).toNat ≤ 1024)
        refine ⟨((body.drop (sentBy ret k)).take 1024).take (ret k).toNat :: sent, ok, ?_, fun h => ?_,
          fun h => ?_⟩
        · rw [postLoop, if_neg hlast, hload, Option.bind_some, if_pos (by omega), hlen, ← hs, hrun]
          rfl
        · obtain ⟨n, hn, hkn, hnle, heq⟩ := hok h
          refine ⟨n, hn, by omega, hnle, ?_⟩
          rw [List.flatten_cons, hpiece, heq]
        · obtain ⟨hnone, hpre⟩ := hno h
          refine ⟨hnone, ?_⟩
          rw [List.flatten_cons, hpiece]
          exact hpre

/-- The bytes accepted are the body when no send fails and a prefix of it when one does. -/
def PostedInOrder (body : Bytes) (ret : ℕ → ℤ) : Prop :=
  ∃ sent ok, postBody body ret = some (sent, ok) ∧ (ok = true → sent.flatten = body) ∧
    (ok = false → sent.flatten <+: body)

/-- **The body goes out in order** exactly when a large send fails before the last piece, or the last
piece, taken from the beginning of the body, is what is left of the body. -/
theorem post_in_order_iff (body : Bytes) {ret : ℕ → ℤ} (hret : SendResults ret) :
    PostedInOrder body ret ↔
      ∀ n, LastPiece body.length ret n →
        body.take (body.length - sentBy ret n) = body.drop (sentBy ret n) := by
  obtain ⟨sent, ok, hrun, hok, hno⟩ := postLoop_run body hret (body.length + 1) 0 (by simp)
    (by rw [sentBy]; omega) (Nat.zero_le _)
  rw [sentBy, Nat.sub_zero] at hrun
  rw [sentBy, List.take_zero, List.nil_append] at hok hno
  constructor
  · rintro ⟨sent', ok', hrun', hok', -⟩ n hn
    rw [postBody, hrun] at hrun'
    simp only [Option.some.injEq, Prod.mk.injEq] at hrun'
    obtain ⟨rfl, rfl⟩ := hrun'
    cases ok with
    | false => exact absurd hn ((hno rfl).1 n)
    | true =>
      obtain ⟨m, hm, -, -, heq⟩ := hok rfl
      obtain rfl := hn.unique hm
      rw [hok' rfl] at heq
      have hwhole : body.take (sentBy ret n) ++ body.take (body.length - sentBy ret n) =
          body.take (sentBy ret n) ++ body.drop (sentBy ret n) := by
        rw [← heq, List.take_append_drop]
      exact List.append_cancel_left hwhole
  · intro h
    refine ⟨sent, ok, hrun, fun hok' => ?_, fun hok' => (hno hok').2⟩
    obtain ⟨n, hn, -, -, heq⟩ := hok hok'
    rw [heq, h n hn, List.take_append_drop]

theorem post_in_order_short :
    PostedInOrder (ascii "a=1&b=2") (fun _ => 1024) ↔
      ∀ n, LastPiece (ascii "a=1&b=2").length (fun _ => 1024) n →
        (ascii "a=1&b=2").take ((ascii "a=1&b=2").length - sentBy (fun _ => 1024) n) =
          (ascii "a=1&b=2").drop (sentBy (fun _ => 1024) n) :=
  post_in_order_iff _ (fun _ => Or.inr (show (1 : ℤ) ≤ 1024 ∧ (1024 : ℤ) ≤ 1024 by decide))

/-- 1024 bytes `a` and one `b`, all sends whole: the `b` is never sent, an `a` goes out in its place. -/
theorem post_repeats_beginning :
    ¬ ∀ (body : Bytes) (ret : ℕ → ℤ), SendResults ret → PostedInOrder body ret := by
  intro h
  obtain ⟨sent, ok, hrun, hok, -⟩ := h (List.replicate 1024 97 ++ [98]) (fun _ => 1024)
    (fun _ => Or.inr (show (1 : ℤ) ≤ 1024 ∧ (1024 : ℤ) ≤ 1024 by decide))
  have hsent : (postBody (List.replicate 1024 97 ++ [98]) (fun _ => 1024)).map
      (fun r => (r.1.flatten.contains 98, r.2)) = some (false, true) := by decide +kernel
  rw [hrun] at hsent
  simp only [Option.map_some, Option.some.injEq, Prod.mk.injEq] at hsent
  have hmem : (98 : UInt8) ∈ sent.flatten := by
    rw [hok hsent.2]
    exact List.mem_append_right _ (List.mem_singleton_self 98)
  have hno := hsent.1
  rw [List.contains_iff_mem.mpr hmem] at hno
  cases hno

end Esp32Base
