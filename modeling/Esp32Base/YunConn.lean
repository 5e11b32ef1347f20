import Esp32Base.Lib.CText
import Esp32Base.YunRecv

/-!
# YunConn — the DTRS connection (hxkong_tcp.c, hxkong_yun.c)

The inner loop of `hxtcp_conn` logs in and hands what it receives to `dtrs_recv_data_callback`, whose
capacity guard empties `g_YunCache` and then copies the chunk all the same.

* `nnc_takes`: the loop at `_nnc` ends, keeps the cache at its size and never takes more than is there.
* `callback_inside_iff`: one callback stays inside `g_YunCache` iff its chunk fits an empty cache.
* `dtrs_inside_iff`: so does every callback of a run, across logins and reconnects, iff every chunk does.
-/

namespace Esp32Base

open Lib Lib.Buf

/-- What the receiving task keeps: the login flag of the connection, and the globals of `hxkong_yun.c`. -/
structure DtrsConn where
  isloginDTRS : Bool
  yun : YunBuf

/-- Before the first connection. -/
def DtrsConn.boot : DtrsConn := ⟨false, .zeroed⟩

/-- What is done with a chunk. -/
inductive DtrsOut
  | hxtcp_send (databuff : Bytes)
  | actionTransServDataFunc (cmd : UInt8) (param : Bytes)
  deriving DecidableEq

/-- The size of `databuff`. -/
def databuffSize : ℕ := 2048

/-- The flag behind the login stage, what is left in `databuff`, and what is sent. -/
structure Login where
  isloginDTRS : Bool
  databuff : Bytes
  sent : List DtrsOut

def login (isloginDTRS : Bool) (databuff : Bytes) : Login :=
  if isloginDTRS then ⟨true, databuff, []⟩
  else if databuff[0]? = some 0x00 then ⟨false, databuff, [.hxtcp_send (ascii "iot-dev" ++ [0])]⟩
  else if databuff[0]? = some 0x01 then ⟨true, databuff.drop 1, []⟩
  else ⟨false, databuff, []⟩

/-- One `recv` on the DTRS connection; an empty chunk is a result of 0 or -1, behind which the next connection
starts without login. -/
def dtrsRecv (s : DtrsConn) (databuff : Bytes) : Option (DtrsConn × List DtrsOut) :=
  if databuff = [] then some (⟨false, s.yun⟩, [])
  else
    let l := login s.isloginDTRS databuff
    if l.isloginDTRS then
      (dtrs_recv_data_callback s.yun l.databuff).map fun p =>
        (⟨true, p.1⟩, l.sent ++ p.2.map fun c => .actionTransServDataFunc c.1 c.2)
    else some (⟨false, s.yun⟩, l.sent)

/-- The argument of `g_dtrs_sys_recv`, when it is called for this chunk. -/
def handed (s : DtrsConn) (databuff : Bytes) : Option Bytes :=
  if databuff = [] then none
  else if (login s.isloginDTRS databuff).isloginDTRS then some (login s.isloginDTRS databuff).databuff else none

/-! ## One callback -/

/-- In no iteration of the loop at `_nnc` does `g_YunLen-=tmp` go below zero. -/
def NncTakes : ℕ → Bytes → ℕ → Prop
  | 0, _, _ => True
  | fuel + 1, cache, len =>
    ∀ tmp cmd, miniDataGet cache len = some (tmp, cmd) →
      tmp ≤ len ∧ (0 < tmp → ∀ cache', moveDown cache 0 tmp (len - tmp) = some cache' →
        NncTakes fuel cache' (len - tmp))

/-- **The loop**, whatever is in the cache: it ends and takes what is there. -/
theorem nnc_takes : ∀ (fuel : ℕ) (x rest : Bytes), x.length < fuel → 4 ≤ (x ++ rest).length →
    NncTakes fuel (x ++ rest) x.length ∧
    ∃ x' rest' out, nnc fuel (x ++ rest) x.length = some (⟨x' ++ rest', x'.length⟩, out) ∧
      (x' ++ rest').length = (x ++ rest).length
  | 0, _, _, h, _ => absurd h (by omega)
  | fuel + 1, x, rest, hf, h4 => by
    obtain ⟨⟨tmp, cmd⟩, hget, hcase⟩ := miniDataGet_cases x rest h4
    have hle := hcase.le
    dsimp only at hle
    have hmove := moveDown_drop rest hle
    have hlen : (x.drop tmp).length = x.length - tmp := List.length_drop
    have hsize := moveDown_length hmove
    have hrec := nnc_takes fuel (x.drop tmp) ((x ++ rest).drop (x.length - tmp))
    rw [hlen, hsize] at hrec
    constructor
    · intro tmp' cmd' hget'
      obtain ⟨rfl, -⟩ := Prod.mk.inj (Option.some.inj (hget.symm.trans hget'))
      refine ⟨hle, fun h0 cache' hcache' => ?_⟩
      obtain rfl := Option.some.inj (hmove.symm.trans hcache')
      exact (hrec (by omega) h4).1
    · by_cases h0 : 0 < tmp
      · obtain ⟨x', rest', out, hrun, hl⟩ := (hrec (by omega) h4).2
        refine ⟨x', rest', (cmd.map fun c => cmdParam c.parameter).toList ++ out, ?_, hl⟩
        simp only [nnc, hget, Option.bind_some, if_pos h0, hmove, hrun, Option.map_some]
      · refine ⟨x, rest, (cmd.map fun c => cmdParam c.parameter).toList, ?_, rfl⟩
        simp only [nnc, hget, Option.bind_some, if_neg h0]

/-- What a callback keeps to: the chunk is copied into the cache, no subtraction goes below zero, and afterwards at most
1400 bytes wait in a cache of 1400. -/
structure CallbackInside (b : YunBuf) (yunParam : Bytes) : Prop where
  stored : (b.stored yunParam).isSome
  takes : ∀ b₁, b.stored yunParam = some b₁ → NncTakes (b₁.g_YunLen + 1) b₁.g_YunCache b₁.g_YunLen
  kept : ∃ b' out, dtrs_recv_data_callback b yunParam = some (b', out) ∧ b'.Wf

theorem storeAt_le {b : YunBuf} {n : ℕ} : b.storeAt n + n ≤ 1400 ↔ n ≤ 1400 := by
  unfold YunBuf.storeAt
  split_ifs <;> omega

/-- The chunk is copied to indices below 1400 iff it is no longer than an empty cache. -/
theorem stored_isSome {b : YunBuf} (hb : b.Wf) {c : Bytes} : (b.stored c).isSome ↔ c.length ≤ 1400 := by
  rw [YunBuf.stored, Option.isSome_map, ← storeAt_le (b := b), ← hb.cache]
  constructor
  · intro h
    obtain ⟨cache, hst⟩ := Option.isSome_iff_exists.mp h
    exact (store_eq_some hst).1
  · intro h
    rw [store_of_le h]
    rfl

/-- **One callback** stays inside the cache iff the chunk is no longer than an empty one. -/
theorem callback_inside_iff {b : YunBuf} (hb : b.Wf) (c : Bytes) : CallbackInside b c ↔ c.length ≤ 1400 := by
  refine ⟨fun h => (stored_isSome hb).mp h.stored, fun hc => ?_⟩
  have hfit := storeAt_le (b := b).mpr hc
  have hst : store b.g_YunCache (b.storeAt c.length) c = some _ := store_of_le (by rw [hb.cache]; exact hfit)
  -- the cache is the waiting bytes with the chunk behind them, and old bytes
  obtain ⟨x, rest, hx, hxl⟩ : ∃ x rest, store b.g_YunCache (b.storeAt c.length) c = some (x ++ rest) ∧
      x.length = b.storeAt c.length + c.length := by
    refine ⟨b.g_YunCache.take (b.storeAt c.length) ++ c, _, hst, ?_⟩
    rw [List.length_append, List.length_take, hb.cache]
    omega
  have hsize := (store_length hx).trans hb.cache
  have hstored := stored_some hx
  obtain ⟨htakes, x', rest', out, hrun, hl⟩ := nnc_takes _ x rest (Nat.lt_succ_self _) (by omega)
  rw [hxl] at htakes hrun
  refine ⟨(stored_isSome hb).mpr hc, fun b₁ hb₁ => ?_, ⟨x' ++ rest', x'.length⟩, out, ?_, by rw [hl, hsize], ?_⟩
  · obtain rfl := Option.some.inj (hstored.symm.trans hb₁)
    exact htakes
  · rw [dtrs_recv_data_callback, hstored, Option.bind_some]
    exact hrun
  · rw [hsize, List.length_append] at hl
    show x'.length ≤ 1400
    omega

/-! ## Runs -/

theorem dtrsRecv_handed {s : DtrsConn} {c d : Bytes} (h : handed s c = some d) :
    dtrsRecv s c = (dtrs_recv_data_callback s.yun d).map fun p =>
      (⟨true, p.1⟩, (login s.isloginDTRS c).sent ++ p.2.map fun c => .actionTransServDataFunc c.1 c.2) := by
  unfold handed at h
  unfold dtrsRecv
  split_ifs at h with hc hl
  obtain rfl := Option.some.inj h
  rw [if_neg hc]
  exact if_pos hl

theorem dtrsRecv_kept {s : DtrsConn} {c : Bytes} (h : handed s c = none) :
    ∃ out, dtrsRecv s c = some (⟨false, s.yun⟩, out) := by
  unfold handed at h
  unfold dtrsRecv
  split_ifs at h with hc hl
  · rw [if_pos hc]
    exact ⟨_, rfl⟩
  · rw [if_neg hc]
    exact ⟨_, if_neg hl⟩

/-- **Every callback of a run stays inside `g_YunCache`** iff no chunk that is passed on is longer than 1400
bytes. -/
theorem dtrs_inside_iff (cs : List Bytes) :
    AlongRun dtrsRecv (fun s c => ∀ d, handed s c = some d → CallbackInside s.yun d) .boot cs ↔
      AlongRun dtrsRecv (fun s c => ∀ d, handed s c = some d → d.length ≤ 1400) .boot cs := by
  refine AlongRun.congr (fun s => s.yun.Wf) (fun s c hs => ?_) (fun s c s₁ out hs hP h₁ => ?_) zeroed_wf
  · exact forall_congr' fun d => imp_congr_right fun _ => callback_inside_iff hs d
  · cases hd : handed s c with
    | none =>
      obtain ⟨o, ho⟩ := dtrsRecv_kept hd
      obtain ⟨rfl, -⟩ := Prod.mk.inj (Option.some.inj (ho.symm.trans h₁))
      exact hs
    | some d =>
      obtain ⟨b', o, hcb, hb'⟩ := (hP d hd).kept
      rw [dtrsRecv_handed hd, hcb, Option.map_some] at h₁
      obtain ⟨rfl, -⟩ := Prod.mk.inj (Option.some.inj h₁)
      exact hb'

/-- A full `databuff` behind the login. -/
theorem dtrs_overruns :
    ¬ ∀ cs : List Bytes, (∀ c ∈ cs, 1 ≤ c.length ∧ c.length ≤ databuffSize) →
      AlongRun dtrsRecv (fun s c => ∀ d, handed s c = some d → CallbackInside s.yun d) .boot cs := by
  intro h
  obtain ⟨hfirst, hrest⟩ := h [[0x01], List.replicate databuffSize 0] (by
    intro c hc
    rcases List.mem_pair.mp hc with rfl | rfl
    · exact ⟨le_rfl, by decide⟩
    · rw [List.length_replicate]
      exact ⟨by decide, le_rfl⟩)
  -- the login byte is taken off, and an empty chunk is passed on
  have hlogin : handed .boot [0x01] = some [] := rfl
  obtain ⟨b, out, hcb, hwf⟩ := (hfirst [] hlogin).kept
  have hstep := dtrsRecv_handed hlogin
  rw [hcb, Option.map_some] at hstep
  obtain ⟨hcall, -⟩ := hrest _ _ hstep
  have hlong := (hcall (List.replicate databuffSize 0) (by
    unfold handed
    rw [if_neg (List.ne_nil_of_length_pos (by rw [List.length_replicate]; decide))]
    rfl)).stored
  rw [stored_isSome hwf, List.length_replicate] at hlong
  exact absurd hlong (by decide)

end Esp32Base
