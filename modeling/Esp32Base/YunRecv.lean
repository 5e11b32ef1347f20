import Esp32Base.MiniData

/-!
# YunRecv — the receive buffer of the DTRS connection (hxkong_yun.c)

`dtrs_recv_data_callback` appends what TCP delivers to `g_YunCache` and drains complete frames from
it.  The run of callbacks refines `miniFramer` as long as the capacity guard and the early drop of
`miniDataGet` stay out of the way.

* `callback_spec`: one callback eats the buffered bytes and the chunk, message by message.
* `dtrs_split_independent`: two splits of one stream dispatch the same sequence.
* `dtrs_frames`: a stream of created frames and noise is dispatched frame by frame.
-/

namespace Esp32Base

open Lib Lib.Buf

/-- `g_YunCache` and `g_YunLen`. -/
structure YunBuf where
  g_YunCache : Bytes
  g_YunLen : ℕ

/-- The buffer as the program loads it. -/
def YunBuf.zeroed : YunBuf := ⟨List.replicate 1400 0, 0⟩

/-- The arguments of `actionTransServDataFunc` for one parameter: `cmd` and the bytes behind it. -/
def cmdParam (parameter : Bytes) : UInt8 × Bytes := (parameter.headD 0, parameter.tail)

/-- The drain loop at `_nnc`; one unit of fuel an iteration. -/
def nnc : ℕ → Bytes → ℕ → Option (YunBuf × List (UInt8 × Bytes))
  | 0, _, _ => none
  | fuel + 1, g_YunCache, g_YunLen =>
    (miniDataGet g_YunCache g_YunLen).bind fun (tmp, cmd) =>
      let out := (cmd.map fun c => cmdParam c.parameter).toList
      if 0 < tmp then
        (moveDown g_YunCache 0 tmp (g_YunLen - tmp)).bind fun cache =>
          (nnc fuel cache (g_YunLen - tmp)).map fun r => (r.1, out ++ r.2)
      else some (⟨g_YunCache, g_YunLen⟩, out)

/-- The length at which a chunk of `paramLen` bytes is stored: the capacity guard empties the buffer. -/
def YunBuf.storeAt (b : YunBuf) (paramLen : ℕ) : ℕ :=
  if 1399 < b.g_YunLen + paramLen then 0 else b.g_YunLen

/-- The chunk behind what is in the buffer. -/
def YunBuf.stored (b : YunBuf) (yunParam : Bytes) : Option YunBuf :=
  (store b.g_YunCache (b.storeAt yunParam.length) yunParam).map fun cache =>
    ⟨cache, b.storeAt yunParam.length + yunParam.length⟩

/-- One callback: the new buffer and the calls of `actionTransServDataFunc`. -/
def dtrs_recv_data_callback (b : YunBuf) (yunParam : Bytes) :
    Option (YunBuf × List (UInt8 × Bytes)) :=
  (b.stored yunParam).bind fun b => nnc (b.g_YunLen + 1) b.g_YunCache b.g_YunLen

theorem stored_some {b : YunBuf} {c cache : Bytes} (h : store b.g_YunCache (b.storeAt c.length) c = some cache) :
    b.stored c = some ⟨cache, b.storeAt c.length + c.length⟩ := by
  rw [YunBuf.stored, h, Option.map_some]

/-! ## The drain loop -/

/-- Some iteration of the loop at `_nnc` drops a header on a length byte that is not there yet. -/
def nncEarly : ℕ → Bytes → ℕ → Bool
  | 0, _, _ => false
  | fuel + 1, cache, len =>
    decide (EarlyDrop (cache.take len) (cache.drop len)) ||
      (miniDataGet cache len).any fun (tmp, _) =>
        decide (0 < tmp) && (moveDown cache 0 tmp (len - tmp)).any fun cache' =>
          nncEarly fuel cache' (len - tmp)

/-- The callback makes an early drop on this chunk. -/
def readsAhead (b : YunBuf) (yunParam : Bytes) : Bool :=
  (b.stored yunParam).any fun b => nncEarly (b.g_YunLen + 1) b.g_YunCache b.g_YunLen

theorem nncEarly_succ {fuel : ℕ} {cache : Bytes} {len : ℕ} :
    nncEarly (fuel + 1) cache len = true ↔
      EarlyDrop (cache.take len) (cache.drop len) ∨
        ∃ tmp cmd cache', miniDataGet cache len = some (tmp, cmd) ∧ 0 < tmp ∧
          moveDown cache 0 tmp (len - tmp) = some cache' ∧ nncEarly fuel cache' (len - tmp) = true := by
  simp only [nncEarly, Bool.or_eq_true, decide_eq_true_eq, Option.any_eq_true, Bool.and_eq_true,
    Prod.exists]
  refine or_congr_right ⟨?_, ?_⟩
  · rintro ⟨tmp, cmd, hget, h0, cache', hm, hn⟩
    exact ⟨tmp, cmd, cache', hget, h0, hm, hn⟩
  · rintro ⟨tmp, cmd, cache', hget, h0, hm, hn⟩
    exact ⟨tmp, cmd, hget, h0, cache', hm, hn⟩

/-- The bytes that wait in the buffer. -/
def YunBuf.live (b : YunBuf) : Bytes := b.g_YunCache.take b.g_YunLen

/-- The buffer is the 1400-byte array and the waiting bytes lie inside it. -/
structure YunBuf.Wf (b : YunBuf) : Prop where
  cache : b.g_YunCache.length = 1400
  len : b.g_YunLen ≤ 1400

/-- Fewer than four bytes hold no frame. -/
theorem miniStep_short {x r : Bytes} {o : Option Bytes} (hx : x.length < 4)
    (h : miniStep x = some (o, r)) : o = none := by
  cases x with
  | nil => simp [miniStep] at h
  | cons b t =>
    simp only [miniStep] at h
    split_ifs at h with hb
    · simp only [Option.some.injEq, Prod.mk.injEq] at h
      exact h.1.symm
    · obtain ⟨⟨len, n, base⟩, hl, h⟩ := Option.bind_eq_some_iff.mp h
      obtain ⟨hbase, hn2, -⟩ := miniLength_base hl
      dsimp only at h
      split_ifs at h <;> simp only [Option.some.injEq, Prod.mk.injEq] at h
      · exact h.1.symm
      · omega
      · exact h.1.symm

/-- What the loop leaves behind holds no message. -/
theorem drain_idle {x : Bytes} (h : x.length < 3 ∨ miniStep x = none) :
    (miniFramer.drain x).1 = [] := by
  rcases h with h | h
  · refine Framer.drain_silent (P := fun x : Bytes => x.length < 4) ?_ (x := x) (by omega)
    intro x r o hx hs
    exact ⟨miniStep_short hx hs, (miniStep_shrink hs).trans hx⟩
  · rw [Framer.drain_of_wait (F := miniFramer) h]

/-- **The loop**, without an early drop: it ends, lets the framer eat and leaves an idle buffer. -/
theorem nnc_spec : ∀ (fuel : ℕ) (x rest : Bytes), x.length < fuel → 4 ≤ (x ++ rest).length →
    nncEarly fuel (x ++ rest) x.length ≠ true →
    ∃ x' rest' ms, nnc fuel (x ++ rest) x.length = some (⟨x' ++ rest', x'.length⟩, ms.map cmdParam) ∧
      (x' ++ rest').length = (x ++ rest).length ∧ miniFramer.Eats x ms x' ∧
      (x'.length < 3 ∨ miniStep x' = none)
  | 0, _, _, h, _, _ => absurd h (by omega)
  | fuel + 1, x, rest, hf, h4, hE => by
    obtain ⟨⟨tmp, cmd⟩, hget, hcase⟩ := miniDataGet_cases x rest h4
    have hnow : ¬ EarlyDrop x rest := fun h =>
      hE (nncEarly_succ.mpr (Or.inl (by rwa [List.take_left, List.drop_left])))
    have heat := hcase.eats hnow
    have hle := hcase.le
    dsimp only at heat hle
    by_cases htmp : 0 < tmp
    · have hmove := moveDown_drop rest hle
      have hlen : (x.drop tmp).length = x.length - tmp := List.length_drop
      set rest₁ := (x ++ rest).drop (x.length - tmp) with hrest₁
      have hlen₁ : (x.drop tmp ++ rest₁).length = (x ++ rest).length := moveDown_length hmove
      have hE₁ : nncEarly fuel (x.drop tmp ++ rest₁) (x.drop tmp).length ≠ true := fun h =>
        hE (nncEarly_succ.mpr (Or.inr ⟨tmp, cmd, _, hget, htmp, hmove, by rwa [hlen] at h⟩))
      obtain ⟨x', rest', ms, hrun, hl', heat', hidle⟩ :=
        nnc_spec fuel (x.drop tmp) rest₁ (by omega) (by rw [hlen₁]; exact h4) hE₁
      refine ⟨x', rest', (cmd.map TzhMiniData.parameter).toList ++ ms, ?_, by rw [hl', hlen₁],
        heat.trans heat', hidle⟩
      rw [hlen] at hrun
      simp only [nnc, hget, Option.bind_some, if_pos htmp, hmove, hrun, Option.map_some,
        List.map_append]
      cases cmd <;> rfl
    · obtain rfl : tmp = 0 := by omega
      refine ⟨x, rest, [], ?_, rfl, Framer.Eats.refl x, ?_⟩
      · cases hcase with
        | wait h => simp [nnc, hget]
        | noise h0 _ _ => exact absurd h0 (by omega)
        | frame h0 _ _ _ => exact absurd h0 (by omega)
      · cases hcase with
        | wait h => exact h
        | noise h0 _ _ => exact absurd h0 (by omega)
        | frame h0 _ _ _ => exact absurd h0 (by omega)

/-! ## The callback -/

/-- The capacity guard stays out of the way. -/
def GuardQuiet (b : YunBuf) (yunParam : Bytes) : Prop := b.g_YunLen + yunParam.length ≤ 1399

instance (b : YunBuf) (c : Bytes) : Decidable (GuardQuiet b c) :=
  inferInstanceAs (Decidable (_ ≤ _))

theorem storeAt_of_quiet {b : YunBuf} {c : Bytes} (h : GuardQuiet b c) :
    b.storeAt c.length = b.g_YunLen := if_neg (by unfold GuardQuiet at h; omega)

/-- A chunk behind the waiting bytes. -/
theorem stored_live {b : YunBuf} (hb : b.Wf) {c : Bytes} (h : GuardQuiet b c) :
    ∃ rest, b.stored c = some ⟨b.live ++ c ++ rest, (b.live ++ c).length⟩ ∧ (b.live ++ c ++ rest).length = 1400 := by
  have hlen : b.live.length = b.g_YunLen := by
    rw [YunBuf.live, List.length_take, hb.cache]
    exact Nat.min_eq_left hb.len
  have hroom : c.length ≤ (b.g_YunCache.drop b.g_YunLen).length := by
    rw [List.length_drop, hb.cache]
    unfold GuardQuiet at h
    omega
  have hst := store_append (p := b.live) hroom
  have hsplit : b.live ++ b.g_YunCache.drop b.g_YunLen = b.g_YunCache := List.take_append_drop _ _
  rw [hsplit] at hst
  have hat : b.storeAt c.length = b.live.length := (storeAt_of_quiet h).trans hlen.symm
  have hstored := stored_some (hat ▸ hst)
  rw [hat, ← List.length_append] at hstored
  exact ⟨_, hstored, by rw [store_length hst, hb.cache]⟩

/-- **One callback** with the guard quiet and no early drop. -/
theorem callback_spec {b : YunBuf} (hb : b.Wf) {c : Bytes} (hg : GuardQuiet b c)
    (hE : readsAhead b c ≠ true) :
    ∃ b' ms, dtrs_recv_data_callback b c = some (b', ms.map cmdParam) ∧ b'.Wf ∧
      miniFramer.Eats (b.live ++ c) ms b'.live ∧ (b'.live.length < 3 ∨ miniStep b'.live = none) := by
  obtain ⟨rest, hst, h1400⟩ := stored_live hb hg
  have hE' : nncEarly ((b.live ++ c).length + 1) (b.live ++ c ++ rest) (b.live ++ c).length ≠ true := by
    unfold readsAhead at hE
    rwa [hst, Option.any_some] at hE
  obtain ⟨x', rest', ms, hrun, hl', heat, hidle⟩ :=
    nnc_spec _ (b.live ++ c) rest (Nat.lt_succ_self _) (by omega) hE'
  have hlive : YunBuf.live ⟨x' ++ rest', x'.length⟩ = x' := List.take_left
  refine ⟨⟨x' ++ rest', x'.length⟩, ms, ?_, ⟨by rw [hl', h1400], ?_⟩, by rwa [hlive], by rwa [hlive]⟩
  · unfold dtrs_recv_data_callback
    rw [hst, Option.bind_some]
    exact hrun
  · rw [h1400, List.length_append] at hl'
    show x'.length ≤ 1400
    omega

/-- **A run of callbacks** dispatches the frames of the stream it was given. -/
theorem run_spec {b : YunBuf} (hb : b.Wf) (h0 : b.g_YunLen = 0) {cs : List Bytes}
    (hg : AlongRun dtrs_recv_data_callback GuardQuiet b cs)
    (hE : AlongRun dtrs_recv_data_callback (fun b c => readsAhead b c ≠ true) b cs) :
    ∃ b', runChunks dtrs_recv_data_callback b cs =
      some (b', (miniFramer.drain cs.flatten).1.map cmdParam) := by
  have hlive : b.live = [] := by rw [YunBuf.live, h0, List.take_zero]
  have hnil : (miniFramer.drain ([] : Bytes)).1 = [] := drain_idle (Or.inl (by simp))
  obtain ⟨b', ms, hrun, -, heat, hidle⟩ := runChunks_eats miniFramer cmdParam YunBuf.live
    YunBuf.Wf (fun b c => GuardQuiet b c ∧ readsAhead b c ≠ true) cs.flatten
    (fun b c _ _ hb hP _ _ => by
      obtain ⟨b', ms, hcb, hb', heat, hidle⟩ := callback_spec hb hP.1 hP.2
      exact ⟨b', ms, hcb, hb', heat, drain_idle hidle⟩)
    cs b [] [] hb (by rw [hlive]; exact Framer.Eats.refl _) (by rw [hlive]; exact hnil)
    (List.prefix_refl _) (hg.and hE)
  refine ⟨b', ?_⟩
  rw [hrun]
  have := heat.drain
  simp only [List.nil_append, hidle, List.append_nil] at this
  rw [this]

theorem zeroed_wf : YunBuf.zeroed.Wf := ⟨List.length_replicate, Nat.zero_le _⟩

/-- **Split independence**: two splits of one stream, neither of which fires the guard or makes
`miniDataGet` look at a length byte that has not arrived, dispatch the same sequence. -/
theorem dtrs_split_independent {cs cs' : List Bytes} (hS : cs.flatten = cs'.flatten)
    (hg : AlongRun dtrs_recv_data_callback GuardQuiet .zeroed cs)
    (hg' : AlongRun dtrs_recv_data_callback GuardQuiet .zeroed cs')
    (hE : AlongRun dtrs_recv_data_callback (fun b c => readsAhead b c ≠ true) .zeroed cs)
    (hE' : AlongRun dtrs_recv_data_callback (fun b c => readsAhead b c ≠ true) .zeroed cs') :
    ∃ b b' ms, runChunks dtrs_recv_data_callback .zeroed cs = some (b, ms) ∧
      runChunks dtrs_recv_data_callback .zeroed cs' = some (b', ms) := by
  obtain ⟨b, hrun⟩ := run_spec zeroed_wf rfl hg hE
  obtain ⟨b', hrun'⟩ := run_spec zeroed_wf rfl hg' hE'
  rw [← hS] at hrun'
  exact ⟨b, b', _, hrun, hrun'⟩

theorem dtrs_split_independent_short :
    ∃ b b' ms, runChunks dtrs_recv_data_callback .zeroed [[0xAF, 1], [7, 0xFA]] = some (b, ms) ∧
      runChunks dtrs_recv_data_callback .zeroed [[0xAF, 1, 7, 0xFA]] = some (b', ms) :=
  dtrs_split_independent (by decide) (by decide +kernel) (by decide +kernel) (by decide +kernel)
    (by decide +kernel)

/-- A stream cut behind `AF FF 00`: the second half of the announced 256-byte frame is searched for
frames of its own. -/
theorem dtrs_split_dependent :
    ¬ ∀ cs cs' : List Bytes, cs.flatten = cs'.flatten → (∀ c ∈ cs, c ≠ []) → (∀ c ∈ cs', c ≠ []) →
      AlongRun dtrs_recv_data_callback GuardQuiet .zeroed cs →
      AlongRun dtrs_recv_data_callback GuardQuiet .zeroed cs' →
      ∃ b b' ms, runChunks dtrs_recv_data_callback .zeroed cs = some (b, ms) ∧
        runChunks dtrs_recv_data_callback .zeroed cs' = some (b', ms) := by
  intro h
  have hg : AlongRun dtrs_recv_data_callback GuardQuiet .zeroed
      [[0xAF, 0xFF, 0], [1, 0xAF, 1, 7, 0xFA]] := by
    refine ⟨by decide, fun b₁ ms₁ h₁ => ⟨?_, fun _ _ _ => trivial⟩⟩
    have e : (dtrs_recv_data_callback .zeroed [0xAF, 0xFF, 0]).map (fun p => p.1.g_YunLen) = some 2 := by
      decide +kernel
    rw [h₁] at e
    have : b₁.g_YunLen = 2 := by simpa using e
    simp [GuardQuiet, this]
  have e1 : (runChunks dtrs_recv_data_callback .zeroed
      [[0xAF, 0xFF, 0, 1, 0xAF, 1, 7, 0xFA]]).map Prod.snd = some [] := by decide +kernel
  have e2 : (runChunks dtrs_recv_data_callback .zeroed
      [[0xAF, 0xFF, 0], [1, 0xAF, 1, 7, 0xFA]]).map Prod.snd = some [(7, [])] := by decide +kernel
  obtain ⟨b, b', ms, h1, h2⟩ := h [[0xAF, 0xFF, 0, 1, 0xAF, 1, 7, 0xFA]]
    [[0xAF, 0xFF, 0], [1, 0xAF, 1, 7, 0xFA]] (by decide) (by decide) (by decide)
    ⟨by decide, fun _ _ _ => trivial⟩ hg
  rw [h1] at e1
  rw [h2] at e2
  simp only [Option.map_some, Option.some.injEq] at e1 e2
  rw [e1] at e2
  cases e2

/-! ## Streams of created frames -/

/-- Frames built by `miniDataCreate`, each behind its noise, and noise at the end. -/
def noisyStream : List (Bytes × Bytes) → Bytes → Option Bytes
  | [], tail => some tail
  | (noise, p) :: items, tail =>
    (miniDataCreate (UInt8.ofNat p.length) p).bind fun f =>
      (noisyStream items tail).map fun s => noise ++ f ++ s

/-- What the sender promises of an item: noise without a frame head, and 1..255 parameter bytes. -/
structure NoisyItem (it : Bytes × Bytes) : Prop where
  noise : 0xAF ∉ it.1
  pos : 1 ≤ it.2.length
  le : it.2.length ≤ 255

theorem noisyStream_cons {it : Bytes × Bytes} {items : List (Bytes × Bytes)} {tail S : Bytes}
    (hit : NoisyItem it) (h : noisyStream (it :: items) tail = some S) :
    ∃ S', noisyStream items tail = some S' ∧ S = it.1 ++ (miniFrame it.2 ++ S') := by
  obtain ⟨noise, p⟩ := it
  obtain ⟨f, hf, h⟩ := Option.bind_eq_some_iff.mp h
  obtain ⟨S', hS', rfl⟩ := Option.map_eq_some_iff.mp h
  rw [miniDataCreate_eq hit.pos hit.le] at hf
  obtain rfl := Option.some.inj hf
  exact ⟨S', hS', by rw [List.append_assoc]⟩

/-- A frame behind noise is one message. -/
theorem eats_item {it : Bytes × Bytes} (hit : NoisyItem it) (y : Bytes) :
    miniFramer.Eats (it.1 ++ (miniFrame it.2 ++ y)) [it.2] y :=
  (eats_noise _ hit.noise).trans
    (eats_of_miniStep (miniStep_miniFrame hit.pos (by have := hit.le; omega) y))

theorem drain_noise {p : Bytes} (hp : 0xAF ∉ p) : miniFramer.drain p = ([], []) := by
  have h := (eats_noise [] hp).drain
  have hnil : miniFramer.drain ([] : Bytes) = ([], []) := Framer.drain_of_wait (F := miniFramer) rfl
  rw [List.append_nil, hnil] at h
  exact h

/-- The whole stream is its parameters. -/
theorem drain_noisyStream : ∀ {items : List (Bytes × Bytes)} {tail S : Bytes},
    (∀ it ∈ items, NoisyItem it) → 0xAF ∉ tail → noisyStream items tail = some S →
    miniFramer.drain S = (items.map Prod.snd, [])
  | [], tail, S, _, ht, h => by
    obtain rfl := Option.some.inj h
    exact drain_noise ht
  | it :: items, tail, S, hi, ht, h => by
    have hit := hi it (List.mem_cons_self ..)
    obtain ⟨S', hS', rfl⟩ := noisyStream_cons hit h
    rw [(eats_item hit S').drain,
      drain_noisyStream (fun it' h' => hi it' (List.mem_cons_of_mem _ h')) ht hS']
    rfl

/-- A frame cut short makes the framer wait. -/
theorem miniStep_cut {p x : Bytes} (h1 : 1 ≤ p.length) (h2 : p.length < 65536) (hx : x <+: miniFrame p)
    (hne : x ≠ miniFrame p) : miniStep x = none := by
  obtain ⟨t, ht⟩ := hx
  cases hs : miniStep x with
  | none => rfl
  | some q =>
    obtain ⟨o, r⟩ := q
    have hst := miniStep_stable t hs
    have hfull := miniStep_miniFrame h1 h2 []
    rw [List.append_nil, ← ht, hst] at hfull
    simp only [Option.some.injEq, Prod.mk.injEq, List.append_eq_nil_iff] at hfull
    rw [hfull.2.2, List.append_nil] at ht
    exact absurd ht hne

/-- What is left when the stream is cut anywhere: nothing, or a frame cut short. -/
theorem drain_cut : ∀ {items : List (Bytes × Bytes)} {tail S P : Bytes},
    (∀ it ∈ items, NoisyItem it) → 0xAF ∉ tail → noisyStream items tail = some S → P <+: S →
    (miniFramer.drain P).2 = [] ∨ ∃ it ∈ items, (miniFramer.drain P).2 <+: miniFrame it.2 ∧
      (miniFramer.drain P).2 ≠ miniFrame it.2
  | [], tail, S, P, _, ht, h, hP => by
    obtain rfl := Option.some.inj h
    left
    rw [drain_noise (fun hm => ht (hP.subset hm))]
  | it :: items, tail, S, P, hi, ht, h, hP => by
    have hit := hi it (List.mem_cons_self ..)
    obtain ⟨S', hS', rfl⟩ := noisyStream_cons hit h
    rcases prefix_append_cases hP with hn | ⟨P', rfl, hP'⟩
    · left
      rw [drain_noise (fun hm => hit.noise (hn.subset hm))]
    rcases prefix_append_cases hP' with hf | ⟨P'', rfl, hP''⟩
    · by_cases hfe : P' = miniFrame it.2
      · subst hfe
        left
        have := (eats_item hit []).drain
        rw [List.append_nil] at this
        rw [this, Framer.drain_of_wait (F := miniFramer) rfl]
      · right
        have hwait := miniStep_cut hit.pos (by have := hit.le; omega) hf hfe
        have hd := (eats_noise P' hit.noise).drain
        rw [Framer.drain_of_wait (F := miniFramer) hwait] at hd
        exact ⟨it, List.mem_cons_self .., by rw [hd]; exact hf, by rw [hd]; exact hfe⟩
    · rw [(eats_item hit P'').drain]
      rcases drain_cut (fun it' h' => hi it' (List.mem_cons_of_mem _ h')) ht hS' hP'' with h | ⟨it', h', hr⟩
      · exact Or.inl h
      · exact Or.inr ⟨it', List.mem_cons_of_mem _ h', hr⟩

/-- No created frame starts with `AF FF 00`. -/
theorem miniFrame_not_early {p : Bytes} (h2 : p.length ≤ 255) : ¬ [0xAF, 0xFF, 0] <+: miniFrame p := by
  rintro ⟨t, ht⟩
  unfold miniFrame miniHead at ht
  split_ifs at ht with hlt
  · simp only [List.cons_append, List.nil_append, List.cons.injEq, true_and] at ht
    have := congrArg UInt8.toNat ht.1
    rw [UInt8.toNat_ofNat'] at this
    simp at this
    omega
  · have h255 : p.length = 255 := by omega
    rw [h255] at ht
    simp at ht

/-- An early drop in the loop happens at a buffer the framer can reach. -/
theorem nncEarly_eats : ∀ (fuel : ℕ) (x rest : Bytes), 4 ≤ (x ++ rest).length →
    nncEarly fuel (x ++ rest) x.length = true → ∃ ms, miniFramer.Eats x ms [0xAF, 0xFF, 0]
  | 0, _, _, _, h => absurd h (by simp [nncEarly])
  | fuel + 1, x, rest, h4, h => by
    by_cases hnow : EarlyDrop x rest
    · exact ⟨[], by rw [hnow.1]; exact Framer.Eats.refl _⟩
    rcases nncEarly_succ.mp h with h | ⟨tmp, cmd, cache', hget, htmp, hmove, h⟩
    · rw [List.take_left, List.drop_left] at h
      exact absurd h hnow
    · obtain ⟨r, hr, hcase⟩ := miniDataGet_cases x rest h4
      rw [hget] at hr
      obtain rfl := Option.some.inj hr
      have hle := hcase.le
      dsimp only at hle
      have hlen : (x.drop tmp).length = x.length - tmp := List.length_drop
      have hdrop := moveDown_drop rest hle
      have hl := moveDown_length hdrop
      rw [hdrop] at hmove
      obtain rfl := Option.some.inj hmove
      rw [← hlen] at h hl
      obtain ⟨ms, hms⟩ := nncEarly_eats fuel (x.drop tmp) _ (by rw [hl]; exact h4) h
      exact ⟨_, (hcase.eats hnow).trans hms⟩

theorem live_length {b : YunBuf} (hb : b.Wf) : b.live.length = b.g_YunLen := by
  rw [YunBuf.live, List.length_take, hb.cache]
  exact Nat.min_eq_left hb.len

/-- On a stream of created frames no callback reads ahead. -/
theorem not_readsAhead {items : List (Bytes × Bytes)} {tail S hist c : Bytes} {out : List Bytes}
    (hi : ∀ it ∈ items, NoisyItem it) (ht : 0xAF ∉ tail) (hS : noisyStream items tail = some S)
    {b : YunBuf} (hb : b.Wf) (hg : GuardQuiet b c) (heat : miniFramer.Eats hist out b.live)
    (hP : hist ++ c <+: S) : readsAhead b c ≠ true := by
  intro hE
  obtain ⟨rest, hst, h1400⟩ := stored_live hb hg
  unfold readsAhead at hE
  rw [hst, Option.any_some] at hE
  obtain ⟨ms, hms⟩ := nncEarly_eats _ (b.live ++ c) rest (by omega) hE
  have hd := ((heat.append c).trans hms).drain
  rw [Framer.drain_of_wait (F := miniFramer) (x := [0xAF, 0xFF, 0]) (by decide)] at hd
  rcases drain_cut hi ht hS hP with h | ⟨it, hit, h, -⟩
  · rw [hd] at h
    cases h
  · rw [hd] at h
    exact miniFrame_not_early (hi it hit).le h

/-- What waits behind a part of the stream is shorter than the longest frame. -/
theorem waiting_lt {items : List (Bytes × Bytes)} {tail S P l : Bytes} (hi : ∀ it ∈ items, NoisyItem it)
    (ht : 0xAF ∉ tail) (hS : noisyStream items tail = some S) (hP : P <+: S) {ms : List Bytes}
    (heat : miniFramer.Eats P ms l) (hidle : l.length < 3 ∨ miniStep l = none) : l.length < 260 := by
  rcases hidle with hlt | hwait
  · omega
  have hd := heat.drain
  rw [Framer.drain_of_wait (F := miniFramer) hwait] at hd
  rcases drain_cut hi ht hS hP with hnil | ⟨it, hit, hcut, hne⟩
  · rw [hd] at hnil
    dsimp only at hnil
    rw [hnil]
    simp
  · rw [hd] at hcut hne
    have h1 := miniFrame_length it.2
    have h2 := (hi it hit).le
    have h3 : l.length ≠ (miniFrame it.2).length := fun he => hne (hcut.eq_of_length he)
    have h4 := hcut.length_le
    dsimp only at h4
    omega

/-- **Delivery**: on any split of a stream of created frames and noise that leaves the guard quiet,
every frame is dispatched once, in order, and nothing else is; fewer than 260 bytes wait after every
callback. -/
theorem dtrs_frames (items : List (Bytes × Bytes)) (tail : Bytes) {S : Bytes} (hi : ∀ it ∈ items, NoisyItem it)
    (ht : 0xAF ∉ tail) (hS : noisyStream items tail = some S) {b : YunBuf} (hb : b.Wf)
    (h0 : b.g_YunLen = 0) {cs : List Bytes} (hcs : cs.flatten = S)
    (hg : AlongRun dtrs_recv_data_callback GuardQuiet b cs) :
    (∃ b', runChunks dtrs_recv_data_callback b cs =
      some (b', items.map fun it => cmdParam it.2)) ∧
    ∀ k b' ms, runChunks dtrs_recv_data_callback b (cs.take k) = some (b', ms) → b'.g_YunLen < 260 := by
  have hlive : b.live = [] := by rw [YunBuf.live, h0, List.take_zero]
  have hpre : ∀ k, (cs.take k).flatten <+: S := by
    intro k
    rw [← hcs]
    exact ⟨(cs.drop k).flatten, by rw [← List.flatten_append, List.take_append_drop]⟩
  have hrun : ∀ k, ∃ b' ms, runChunks dtrs_recv_data_callback b (cs.take k) =
      some (b', ms.map cmdParam) ∧ (b'.Wf ∧ (b'.live.length < 3 ∨ miniStep b'.live = none)) ∧
        miniFramer.Eats (cs.take k).flatten ms b'.live ∧ (miniFramer.drain b'.live).1 = [] := by
    intro k
    simpa using runChunks_eats miniFramer cmdParam YunBuf.live
      (fun b => b.Wf ∧ (b.live.length < 3 ∨ miniStep b.live = none)) GuardQuiet S
      (fun b c hist out hI hg heat hP => by
        obtain ⟨b', ms, hcb, hb', heat', hidle⟩ :=
          callback_spec hI.1 hg (not_readsAhead hi ht hS hI.1 hg heat hP)
        exact ⟨b', ms, hcb, ⟨hb', hidle⟩, heat', drain_idle hidle⟩)
      (cs.take k) b [] [] ⟨hb, Or.inl (by rw [hlive]; simp)⟩ (by rw [hlive]; exact Framer.Eats.refl _)
      (by rw [hlive]; exact drain_idle (Or.inl (by simp))) (by simpa using hpre k) (hg.take k)
  refine ⟨?_, fun k b' ms h => ?_⟩
  · obtain ⟨b', ms, hr, -, heat, hsilent⟩ := hrun cs.length
    rw [List.take_length] at hr heat
    have hd := heat.drain
    rw [hcs, drain_noisyStream hi ht hS, hsilent, List.append_nil] at hd
    simp only [Prod.mk.injEq] at hd
    refine ⟨b', ?_⟩
    rw [hr, ← hd.1, List.map_map]
    rfl
  · obtain ⟨b₁, ms₁, hr, ⟨hwf, hidle⟩, heat, -⟩ := hrun k
    rw [hr] at h
    simp only [Option.some.injEq, Prod.mk.injEq] at h
    obtain rfl := h.1
    rw [← live_length hwf]
    exact waiting_lt hi ht hS (hpre k) heat hidle

theorem dtrs_frames_pair :
    (∃ b', runChunks dtrs_recv_data_callback .zeroed [[1, 0xAF, 2], [3, 0xAF, 0xFA, 9]] =
      some (b', [([1], [3, 0xAF])].map fun it => cmdParam it.2)) ∧
    ∀ k b' ms, runChunks dtrs_recv_data_callback .zeroed
      ([[1, 0xAF, 2], [3, 0xAF, 0xFA, 9]].take k) = some (b', ms) → b'.g_YunLen < 260 :=
  dtrs_frames [([1], [3, 0xAF])] [9]
    (by rintro it hit; obtain rfl := List.mem_singleton.mp hit; exact ⟨by decide, by decide, by decide⟩)
    (by decide) (by decide +kernel) zeroed_wf rfl rfl (by decide +kernel)

end Esp32Base
