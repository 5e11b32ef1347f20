import Esp32Base.Http.Post

/-!
# Http.Send — the sender of the web server (webserver.c)

`webSendClient` hands its data to `write` in pieces of at most 500 bytes and goes on behind what was accepted.

* `webSendLoop_step`, `webSendLoop_run`: one turn of the loop, and what it sends from any of its states.
* `webSendClient_sends`: the bytes accepted are the data, or a prefix of it when a `write` fails.
-/

namespace Esp32Base

open Lib Lib.Buf

/-- One call of `write`: where its piece lies in the data, the piece and the result. -/
structure WriteCall where
  off : ℕ
  piece : Bytes
  ret : ℤ
  deriving DecidableEq

/-- The bytes that the calls took. -/
def accepted (calls : List WriteCall) : Bytes := (calls.map fun c => c.piece.take c.ret.toNat).flatten

/-- The loop from `bblen` on, when `write` has been called `k` times; `ret k` is the result of the next call, -1 or
a count. -/
def webSendLoop (data : Bytes) (len : ℕ) (ret : ℕ → ℤ) : ℕ → ℕ → ℕ → Option (List WriteCall)
  | 0, _, _ => none
  | fuel + 1, k, bblen =>
    if bblen ≤ len then
      if len - bblen = 0 then some []
      else
        (load data bblen (if 500 < len - bblen then 500 else len - bblen)).bind fun piece =>
          if ret k = -1 then some [⟨bblen, piece, ret k⟩]
          else (webSendLoop data len ret fuel (k + 1) (bblen + (ret k).toNat)).map (⟨bblen, piece, ret k⟩ :: ·)
    else some []

/-- The calls on `len` bytes; every one but a failed one takes at least one byte. -/
def webSendClient (data : Bytes) (len : ℕ) (ret : ℕ → ℤ) : Option (List WriteCall) :=
  webSendLoop data len ret (len + 1) 0 0

/-- As long as no call has failed and something is left, `write` fails or takes at least one and at most all of the
bytes it was given. -/
def WriteResults (len : ℕ) (ret : ℕ → ℤ) : Prop :=
  ∀ k, (∀ i < k, ret i ≠ -1) → sentBy ret k < len →
    ret k = -1 ∨ 1 ≤ ret k ∧ ret k ≤ (min 500 (len - sentBy ret k) : ℕ)

/-- The piece of a call has at most 500 bytes and ends inside the data. -/
def WriteCall.Inside (len : ℕ) (c : WriteCall) : Prop := c.piece.length ≤ 500 ∧ c.off + c.piece.length ≤ len

/-- A call hands over the data from behind what was accepted before it, and has the result of that `write`. -/
structure WriteCall.Made (data : Bytes) (len : ℕ) (ret : ℕ → ℤ) (k : ℕ) (c : WriteCall) : Prop where
  off : c.off = sentBy ret k
  piece : c.piece = (data.drop c.off).take (min 500 (len - c.off))
  ret : c.ret = ret k

theorem accepted_cons (c : WriteCall) (calls : List WriteCall) :
    accepted (c :: calls) = c.piece.take c.ret.toNat ++ accepted calls := rfl

section Run

variable {data : Bytes} {len : ℕ} {ret : ℕ → ℤ} (hlen : len ≤ data.length) (hret : WriteResults len ret)

include hlen

/-- One turn: a call with a piece inside the data, and what is done with its result. -/
theorem webSendLoop_step {fuel k : ℕ} (hmore : sentBy ret k < len) :
    ∃ c : WriteCall, c.Inside len ∧ c.Made data len ret k ∧
      webSendLoop data len ret (fuel + 1) k (sentBy ret k) =
        if ret k = -1 then some [c] else (webSendLoop data len ret fuel (k + 1) (sentBy ret (k + 1))).map (c :: ·) := by
  have hmin : (if 500 < len - sentBy ret k then 500 else len - sentBy ret k) = min 500 (len - sentBy ret k) := by
    split_ifs <;> omega
  have hpiece : ((data.drop (sentBy ret k)).take (min 500 (len - sentBy ret k))).length =
      min 500 (len - sentBy ret k) := by
    rw [List.length_take, List.length_drop]
    omega
  refine ⟨⟨sentBy ret k, (data.drop (sentBy ret k)).take (min 500 (len - sentBy ret k)), ret k⟩, ?_,
    ⟨rfl, rfl, rfl⟩, ?_⟩
  · unfold WriteCall.Inside
    dsimp only
    rw [hpiece]
    omega
  · rw [webSendLoop, if_pos hmore.le, if_neg (by omega), hmin, load_of_le (by omega), Option.bind_some]
    rfl

include hret

/-- **What the loop sends** from the state after `k` calls: the data from `sentBy ret k` on, up to its end or up to
the call that failed. -/
theorem webSendLoop_run : ∀ (fuel k : ℕ), (∀ i < k, ret i ≠ -1) → len - sentBy ret k < fuel → sentBy ret k ≤ len →
    ∃ calls, webSendLoop data len ret fuel k (sentBy ret k) = some calls ∧ (∀ c ∈ calls, c.Inside len) ∧
      (∀ (i : ℕ) (c : WriteCall), calls[i]? = some c → c.Made data len ret (k + i)) ∧
      ((∀ c ∈ calls, c.ret ≠ -1) → data.take (sentBy ret k) ++ accepted calls = data.take len) ∧
      data.take (sentBy ret k) ++ accepted calls <+: data.take len
  | 0, k, _, hf, _ => absurd hf (Nat.not_lt_zero _)
  | fuel + 1, k, hk, hf, hle => by
    rcases Nat.eq_or_lt_of_le hle with hdone | hmore
    · have hnil : data.take (sentBy ret k) ++ accepted [] = data.take len := by
        rw [hdone]
        exact List.append_nil _
      refine ⟨[], ?_, by simp, by simp, fun _ => hnil, hnil ▸ List.prefix_refl _⟩
      rw [webSendLoop, if_pos hle, if_pos (by omega)]
    · obtain ⟨c, hinside, hmade, hstep⟩ := @webSendLoop_step data len ret hlen fuel k hmore
      have hcret := hmade.ret
      have hpiece := hmade.piece
      rw [hmade.off] at hpiece
      rw [hstep]
      rcases hret k hk hmore with hfail | ⟨h1, h2⟩
      · rw [if_pos hfail]
        refine ⟨[c], rfl, ?_, ?_, fun h => absurd (hcret.trans hfail) (h c (List.mem_singleton_self _)), ?_⟩
        · intro c' hc
          obtain rfl := List.mem_singleton.mp hc
          exact hinside
        · intro i c' hc
          cases i with
          | zero =>
            obtain rfl := Option.some.inj hc
            exact hmade
          | succ i => cases hc
        · -- a failed call takes nothing
          rw [accepted_cons, hcret, hfail, show ((-1 : ℤ)).toNat = 0 from rfl, List.take_zero]
          simpa [accepted] using List.take_prefix_take_left hle
      · have hs : sentBy ret (k + 1) = sentBy ret k + (ret k).toNat := rfl
        have hk' : ∀ i < k + 1, ret i ≠ -1 := by
          intro i hi
          rcases lt_or_eq_of_le (Nat.lt_succ_iff.mp hi) with h | rfl
          · exact hk i h
          · omega
        obtain ⟨calls, hrun, hin, heach, hall, hpre⟩ := webSendLoop_run fuel (k + 1) hk' (by omega) (by omega)
        have htake : data.take (sentBy ret k) ++ accepted (c :: calls) =
            data.take (sentBy ret (k + 1)) ++ accepted calls := by
          rw [accepted_cons, hpiece, hcret]
          exact take_sent data (accepted calls) (by omega)
        rw [if_neg (by omega), hrun, Option.map_some]
        refine ⟨c :: calls, rfl, ?_, ?_, fun h => ?_, ?_⟩
        · intro c' hc
          rcases List.mem_cons.mp hc with rfl | hc
          · exact hinside
          · exact hin c' hc
        · intro i c' hc
          cases i with
          | zero =>
            obtain rfl := Option.some.inj hc
            exact hmade
          | succ i =>
            rw [Nat.add_succ, ← Nat.succ_add]
            exact heach i c' hc
        · rw [htake]
          exact hall fun c' hc => h c' (List.mem_cons_of_mem _ hc)
        · rw [htake]
          exact hpre

end Run

/-- **Sending terminates** and loses, repeats and adds nothing: every piece is at most 500 bytes of the data from behind
what was accepted before, the bytes accepted are the data when no `write` that is made fails and a prefix of it when one
does. -/
theorem webSendClient_sends {data : Bytes} {len : ℕ} {ret : ℕ → ℤ} (hlen : len ≤ data.length)
    (hret : WriteResults len ret) :
    ∃ calls, webSendClient data len ret = some calls ∧
      (∀ c ∈ calls, c.piece.length ≤ 500 ∧ c.off + c.piece.length ≤ len) ∧
      (∀ (k : ℕ) (c : WriteCall), calls[k]? = some c → c.Made data len ret k) ∧
      ((∀ c ∈ calls, c.ret ≠ -1) → accepted calls = data.take len) ∧
      ((∃ c ∈ calls, c.ret = -1) → accepted calls <+: data.take len) := by
  obtain ⟨calls, hrun, hin, heach, hall, hpre⟩ := webSendLoop_run hlen hret (len + 1) 0 (by simp)
    (Nat.lt_succ_of_le (Nat.sub_le _ _)) (Nat.zero_le _)
  rw [sentBy, List.take_zero, List.nil_append] at hall hpre
  refine ⟨calls, hrun, hin, fun k c hc => ?_, hall, fun _ => hpre⟩
  have hmade := heach k c hc
  rwa [Nat.zero_add] at hmade

theorem webSendClient_sends_bytewise :
    ∃ calls, webSendClient (ascii "HTTP/1.1 200 OK") 15 (fun _ => 1) = some calls ∧
      (∀ c ∈ calls, c.piece.length ≤ 500 ∧ c.off + c.piece.length ≤ 15) ∧
      (∀ (k : ℕ) (c : WriteCall), calls[k]? = some c → c.Made (ascii "HTTP/1.1 200 OK") 15 (fun _ => 1) k) ∧
      ((∀ c ∈ calls, c.ret ≠ -1) → accepted calls = (ascii "HTTP/1.1 200 OK").take 15) ∧
      ((∃ c ∈ calls, c.ret = -1) → accepted calls <+: (ascii "HTTP/1.1 200 OK").take 15) :=
  webSendClient_sends (by decide) fun k _ hk => Or.inr ⟨le_rfl, by
    show (1 : ℤ) ≤ _
    omega⟩

example : (webSendClient (List.replicate 1200 97) 1200 (fun k => if k = 0 then 300 else 400)).map
    (List.map fun c => (c.off, c.piece.length)) = some [(0, 500), (300, 500), (700, 500), (1100, 100)] := by
  decide +kernel

end Esp32Base
