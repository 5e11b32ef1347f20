import Esp32Base.Lib.CText
import Esp32Base.Lib.Tok
import Esp32Base.Lib.Greedy

/-!
# SceneProc — hexadecimal text and patterns of scenes (scene_proc.c)

`strToHex` scans the tokens of a text with `%x`. One variable holds the size of its block first and then every number
read, and keeps what it had when a token gives none. `scmpBuf` looks for a pattern and moves the index of its outer
loop in the inner one.

* `strToHex_eq`: the result, token by token.
* `strToHex_iff`: when every byte comes from its own token.
* `scmpBuf_iff`: when a pattern is found exactly where it occurs, inside the buffer.
-/

namespace Esp32Base

open Lib Lib.Buf Lib.CText Lib.Tok Lib.Greedy

/-- The loop on the tokens: `dstBuf` holds the `nTmp` bytes stored so far. -/
def strToHexLoop (dstbufLen : ℕ) (tpsz : Bytes) (tpszsk : Option Bytes) (nHex : ℕ) (dstBuf : Bytes) : ℤ × Bytes :=
  if dstBuf.length < dstbufLen then
    let nHex := (scanHex tpsz).getD nHex
    let dstBuf := dstBuf ++ [UInt8.ofNat nHex]
    match _h : strtok_r 32 none tpszsk with
    | (some tpsz, tpszsk) => strToHexLoop dstbufLen tpsz tpszsk nHex dstBuf
    | (none, _) => (dstBuf.length, dstBuf)
  else (-1, dstBuf)
termination_by ahead tpszsk
decreasing_by exact strtok_r_ahead _h

/-- The result, and the bytes stored. -/
def strToHex (str : Bytes) (dstbufLen : ℕ) : ℤ × Bytes :=
  match strtok_r 32 (some str) none with
  | (some tpsz, tpszsk) => strToHexLoop dstbufLen tpsz tpszsk (str.length + 1) []
  | (none, _) => (0, [])

/-- The bytes of tokens, with what `nHex` holds in front of them. -/
def storedBytes : ℕ → List Bytes → Bytes
  | _, [] => []
  | nHex, w :: ws => UInt8.ofNat ((scanHex w).getD nHex) :: storedBytes ((scanHex w).getD nHex) ws

@[simp] theorem storedBytes_length (nHex : ℕ) (ws : List Bytes) : (storedBytes nHex ws).length = ws.length := by
  induction ws generalizing nHex with
  | nil => rfl
  | cons w ws ih => rw [storedBytes, List.length_cons, ih, List.length_cons]

/-- **The loop**, for the tokens that are left. -/
theorem strToHexLoop_eq (cap : ℕ) (tpsz : Bytes) (save : Option Bytes) (nHex : ℕ) (dst : Bytes) :
    strToHexLoop cap tpsz save nHex dst =
      (if cap < dst.length + (saved 32 save).length + 1 then -1 else ((dst.length + (saved 32 save).length + 1 : ℕ) : ℤ),
        dst ++ storedBytes nHex ((tpsz :: saved 32 save).take (cap - dst.length))) := by
  rw [strToHexLoop]
  by_cases hlt : dst.length < cap
  · obtain ⟨k, hk⟩ : ∃ k, cap - dst.length = k + 1 := ⟨cap - dst.length - 1, by omega⟩
    have hlen : (dst ++ [UInt8.ofNat ((scanHex tpsz).getD nHex)]).length = dst.length + 1 := by
      rw [List.length_append, List.length_singleton]
    rw [if_pos hlt, hk, List.take_succ_cons, storedBytes]
    dsimp only
    rcases strtok_r_none (d := (32 : UInt8)) save with ⟨hnone, hsaved⟩ | ⟨w, save', hsome, hsaved, hahead⟩
    · rw [hsaved, List.take_nil, storedBytes, List.length_nil, if_neg (by omega)]
      split
      · next heq => exact nomatch hnone.symm.trans heq
      · rw [hlen]
    · rw [hsaved]
      split
      · next w' save'' heq =>
        obtain ⟨hw, hsave⟩ := Prod.mk.inj (hsome.symm.trans heq)
        obtain rfl := Option.some.inj hw
        subst hsave
        rw [strToHexLoop_eq cap w save' _ _, hlen, List.append_assoc, List.singleton_append, List.length_cons,
          show cap - (dst.length + 1) = k by omega]
        congr 1
        simp only [Nat.add_assoc, Nat.add_comm 1]
      · next heq => exact nomatch hsome.symm.trans heq
  · rw [if_neg hlt, if_pos (by omega), show cap - dst.length = 0 by omega, List.take_zero, storedBytes, List.append_nil]
termination_by ahead save
decreasing_by exact hahead

/-- **The result**, token by token. -/
theorem strToHex_eq (str : Bytes) (cap : ℕ) : strToHex str cap =
    (if cap < (tokens 32 str).length then -1 else ((tokens 32 str).length : ℤ),
      storedBytes (str.length + 1) ((tokens 32 str).take cap)) := by
  unfold strToHex
  rw [strtok_r_some]
  rcases next_cases (d := (32 : UInt8)) str with ⟨hnext, htok⟩ | ⟨w, save, hnext, htok, -⟩
  · rw [hnext, htok]
    simp [storedBytes]
  · rw [hnext, htok]
    simp [strToHexLoop_eq]

/-! ## A byte and its token -/

/-- What is promised of a text and a capacity. -/
structure TokenBytes (str : Bytes) (dstbufLen : ℕ) : Prop where
  result : (strToHex str dstbufLen).1 =
    if dstbufLen < (tokens 32 str).length then -1 else ((strToHex str dstbufLen).2.length : ℤ)
  stored : (strToHex str dstbufLen).2.length = min dstbufLen (tokens 32 str).length
  /-- The same token in any other text, for any other capacity, gives the same byte. -/
  alone : ∀ (i : ℕ) (w : Bytes) (b : UInt8), (tokens 32 str)[i]? = some w → (strToHex str dstbufLen).2[i]? = some b →
    ∀ (str' : Bytes) (dstbufLen' i' : ℕ) (b' : UInt8), 0 ∉ str' → (tokens 32 str')[i']? = some w →
      (strToHex str' dstbufLen').2[i']? = some b' → b' = b
  value : ∀ (i : ℕ) (w : Bytes) (b : UInt8) (v : ℕ), (tokens 32 str)[i]? = some w → (strToHex str dstbufLen).2[i]? = some b → HexNumeral w v →
    b.toNat = v % 256

/-- A token that `%x` reads, and whose number is not cut by the clamping when it is a numeral. -/
def GoodToken (w : Bytes) : Prop := StartsHex w ∧ ∀ v, HexNumeral w v → v < 2 ^ 32 ∨ v % 256 = 255

/-- The byte of a token that is read. -/
theorem storedBytes_at {ws : List Bytes} {i : ℕ} {w : Bytes} {v : ℕ} (hw : ws[i]? = some w)
    (hv : scanHex w = some v) : ∀ nHex : ℕ, (storedBytes nHex ws)[i]? = some (UInt8.ofNat v) := by
  induction ws generalizing i with
  | nil => exact nomatch hw
  | cons w' ws ih =>
    intro nHex
    cases i with
    | zero =>
      obtain rfl := Option.some.inj hw
      rw [storedBytes, hv]
      rfl
    | succ i => exact ih hw _

/-- The bytes stored are those of the first tokens. -/
theorem stored_at {str w : Bytes} {cap i : ℕ} {b : UInt8} (hw : (tokens 32 str)[i]? = some w)
    (hb : (strToHex str cap).2[i]? = some b) :
    i < cap ∧ (storedBytes (str.length + 1) ((tokens 32 str).take cap))[i]? = some b ∧
      ((tokens 32 str).take cap)[i]? = some w := by
  rw [strToHex_eq] at hb
  have hlt := (List.getElem?_eq_some_iff.mp hb).1
  rw [storedBytes_length, List.length_take] at hlt
  exact ⟨by omega, hb, by rw [List.getElem?_take, if_pos (by omega), hw]⟩

/-- A token that is read gives the byte of its own number, wherever it stands. -/
theorem stored_of_scan {str w : Bytes} {cap i v : ℕ} {b : UInt8} (hw : (tokens 32 str)[i]? = some w)
    (hb : (strToHex str cap).2[i]? = some b) (hv : scanHex w = some v) : b = UInt8.ofNat v := by
  obtain ⟨-, hbyte, htake⟩ := stored_at hw hb
  exact Option.some.inj (hbyte.symm.trans (storedBytes_at htake hv _))

/-- A token behind a numeral, in a text of its own. -/
theorem strToHex_behind {w : Bytes} (hne : w ≠ []) (hsp : 32 ∉ w) (c : UInt8) (hc : c ≠ 32) :
    tokens 32 ([c, 32] ++ w) = [[c], w] ∧
      (strToHex ([c, 32] ++ w) 2).2 =
        storedBytes (([c, 32] ++ w).length + 1) [[c], w] := by
  have htok : tokens 32 ([c, 32] ++ w) = [[c], w] := by
    rw [show [c, 32] ++ w = [c] ++ 32 :: w from rfl, tokens_append_cons, tokens_of_notMem hsp hne,
      tokens_of_notMem (by simpa using hc.symm) (by simp)]
    rfl
  rw [strToHex_eq, htok]
  exact ⟨rfl, rfl⟩

/-- A token that is not read gives the byte of the numeral in front of it. -/
theorem startsHex_of_alone {w : Bytes} {b : UInt8} (hne : w ≠ []) (hsp : 32 ∉ w) (h0 : 0 ∉ w)
    (halone : ∀ (str' : Bytes) (dstbufLen' i' : ℕ) (b' : UInt8), 0 ∉ str' → (tokens 32 str')[i']? = some w →
      (strToHex str' dstbufLen').2[i']? = some b' → b' = b) : StartsHex w := by
  by_contra hno
  have hnone : scanHex w = none := if_neg hno
  have hbyte : ∀ c v, c ≠ 32 → c ≠ 0 → scanHex [c] = some v → UInt8.ofNat v = b := by
    intro c v hc hc0 hv
    obtain ⟨htok, hstr⟩ := strToHex_behind hne hsp c hc
    refine halone ([c, 32] ++ w) 2 1 _ ?_ (by rw [htok]; rfl) ?_
    · simp only [List.mem_append, List.mem_cons, List.not_mem_nil, or_false, not_or]
      exact ⟨⟨hc0.symm, by decide⟩, h0⟩
    · rw [hstr]
      simp [storedBytes, hv, hnone]
  have h1 := hbyte 49 1 (by decide) (by decide) (by decide)
  have h2 := hbyte 50 2 (by decide) (by decide) (by decide)
  exact absurd (h1.trans h2.symm) (by decide)

/-- **Every byte comes from its own token** exactly when every token up to the capacity is read and no numeral among
them is clamped to another byte. -/
theorem strToHex_iff (str : Bytes) (dstbufLen : ℕ) (hstr : 0 ∉ str) :
    TokenBytes str dstbufLen ↔ ∀ w ∈ (tokens 32 str).take dstbufLen, GoodToken w := by
  have hbytes : (strToHex str dstbufLen).2.length = min dstbufLen (tokens 32 str).length := by
    rw [strToHex_eq, storedBytes_length, List.length_take]
  constructor
  · intro h w hw
    obtain ⟨i, hi⟩ := List.mem_iff_getElem?.mp hw
    have hlt := (List.getElem?_eq_some_iff.mp hi).1
    rw [List.length_take] at hlt
    rw [List.getElem?_take, if_pos (by omega)] at hi
    obtain ⟨b, hb⟩ : ∃ b, (strToHex str dstbufLen).2[i]? = some b :=
      ⟨_, List.getElem?_eq_getElem (by omega)⟩
    obtain ⟨hne, hsp, hin⟩ := mem_tokens (List.mem_of_getElem? hi)
    have hstart : StartsHex w := startsHex_of_alone hne hsp (fun h0 => hstr (hin.subset h0)) (h.alone i w b hi hb)
    refine ⟨hstart, ?_⟩
    intro v hv
    have hbv := h.value i w b v hi hb hv
    rw [stored_of_scan hi hb (scanHex_numeral hv), UInt8.toNat_ofNat'] at hbv
    omega
  · intro h
    refine ⟨?_, hbytes, ?_, ?_⟩
    · rw [hbytes, strToHex_eq]
      split_ifs with hlt
      · rfl
      · rw [Nat.min_eq_right (by omega)]
    · intro i w b hw hb str' cap' i' b' _ hw' hb'
      have hgood := h w (List.mem_of_getElem? (stored_at hw hb).2.2)
      obtain ⟨v, hv⟩ := Option.isSome_iff_exists.mp (scanHex_isSome.mpr hgood.1)
      rw [stored_of_scan hw hb hv, stored_of_scan hw' hb' hv]
    · intro i w b v hw hb hv
      have hgood := h w (List.mem_of_getElem? (stored_at hw hb).2.2)
      have hv' := hgood.2 v hv
      rw [stored_of_scan hw hb (scanHex_numeral hv), UInt8.toNat_ofNat']
      omega

theorem strToHex_bytes : TokenBytes (ascii " 1F  0xa0") 3 := by
  refine (strToHex_iff (ascii " 1F  0xa0") 3 (by decide +kernel)).mpr ?_
  have htok : (tokens 32 (ascii " 1F  0xa0")).take 3 = [ascii "1F", ascii "0xa0"] := by decide +kernel
  rw [htok]
  intro w hw
  simp only [List.mem_cons, List.not_mem_nil, or_false] at hw
  rcases hw with rfl | rfl
  · exact ⟨by decide +kernel, fun v hv => Or.inl (hv.lt (by decide +kernel))⟩
  · exact ⟨by decide +kernel, fun v hv => Or.inl (hv.lt (by decide +kernel))⟩

/-- The token `zz` gives the size of the block of its text. -/
theorem strToHex_leaks : ¬ TokenBytes (ascii "zz") 1 := by
  intro h
  have hzz : (strToHex (ascii "zz") 1).2[0]? = some 3 := by
    rw [strToHex_eq]
    decide +kernel
  have hspace : (strToHex (ascii " zz") 1).2[0]? = some 4 := by
    rw [strToHex_eq]
    decide +kernel
  have heq := h.alone 0 (ascii "zz") 3 (by decide +kernel) hzz (ascii " zz") 1 0 4 (by decide +kernel)
    (by decide +kernel) hspace
  exact absurd heq (by decide)

/-! ## Patterns -/

/-- The inner loop from `src[i]` and the rest of the pattern on: the index behind it, and whether it came to the end of
the pattern. -/
def scmpInner (src : Bytes) (i : ℕ) : Bytes → Option (ℕ × Bool)
  | [] => some (i, true)
  | q :: scmpBuf =>
    match src[i]? with
    | none => none
    | some c => if c = q then scmpInner src (i + 1) scmpBuf else some (i, false)

theorem scmpInner_le {src scmpBuf : Bytes} {i j : ℕ} {b : Bool} (h : scmpInner src i scmpBuf = some (j, b)) :
    i ≤ j := by
  induction scmpBuf generalizing i with
  | nil =>
    obtain ⟨rfl, -⟩ := Prod.mk.inj (Option.some.inj h)
    exact le_refl i
  | cons q scmpBuf ih =>
    rw [scmpInner] at h
    split at h
    · cases h
    · split_ifs at h
      · exact Nat.le_of_succ_le (ih h)
      · obtain ⟨rfl, -⟩ := Prod.mk.inj (Option.some.inj h)
        exact le_refl i

/-- The outer loop from index `i` on; `none` when a byte behind the object is read. -/
def scmpLoop (src : Bytes) (srclen : ℕ) (scmpBuf : Bytes) (i : ℕ) : Option ℤ :=
  if i < srclen then
    match _h : scmpInner src i scmpBuf with
    | none => none
    | some (_, true) => some 0
    | some (j, false) => scmpLoop src srclen scmpBuf (j + 1)
  else some (-1)
termination_by srclen - i
decreasing_by
  have hle := scmpInner_le _h
  omega

def scmpBuf (src : Bytes) (srclen : ℕ) (scmpBuf : Bytes) : Option ℤ :=
  if scmpBuf = [] then some (-1) else scmpLoop src srclen scmpBuf 0

/-- What is promised of a buffer and a pattern: only the buffer is read, and the result says whether the pattern is in
it. -/
def ScmpExact (src pat : Bytes) : Prop := ∃ r, scmpBuf src src.length pat = some r ∧ (r = 0 ↔ pat <:+: src)

/-- The attempt that finds the pattern comes before the end of the buffer is reached inside another one. -/
def ScanSees (src pat : Bytes) : Prop :=
  (∃ pre post, Reached pat pre ∧ src = pre ++ (pat ++ post)) ∨ (Reached pat src ∧ ¬ pat <:+: src)

section Scan

variable {src pat : Bytes}

/-- The inner loop over what agrees with the pattern. -/
theorem scmpInner_append (q rest pat : Bytes) : ∀ pre : Bytes, scmpInner (pre ++ (q ++ rest)) pre.length (q ++ pat) =
    scmpInner (pre ++ (q ++ rest)) (pre.length + q.length) pat := by
  induction q with
  | nil => exact fun _ => rfl
  | cons c q ih =>
    intro pre
    have hget : (pre ++ (c :: q ++ rest))[pre.length]? = some c := by
      rw [List.getElem?_append_right (le_refl _), Nat.sub_self]
      rfl
    have hrec := ih (pre ++ [c])
    rw [List.append_assoc, List.length_append, List.length_singleton] at hrec
    rw [show c :: q ++ pat = c :: (q ++ pat) from rfl, scmpInner, hget]
    simp only [if_true]
    rw [List.length_cons, Nat.add_comm q.length 1, ← Nat.add_assoc]
    exact hrec

/-- An attempt that finds the pattern. -/
theorem scmpLoop_found (pre post : Bytes) {n : ℕ} (hn : pre.length < n) :
    scmpLoop (pre ++ (pat ++ post)) n pat pre.length = some 0 := by
  have hinner : scmpInner (pre ++ (pat ++ post)) pre.length pat = some (pre.length + pat.length, true) := by
    have happ := scmpInner_append pat post [] pre
    rwa [List.append_nil] at happ
  rw [scmpLoop, if_pos hn]
  split
  · next heq => exact nomatch hinner.symm.trans heq
  · rfl
  · next heq => exact nomatch hinner.symm.trans heq

/-- A failed attempt. -/
theorem scmpLoop_block {b : Bytes} (hb : Block pat b) (pre rest : Bytes) {n : ℕ} (hn : pre.length < n) :
    scmpLoop (pre ++ (b ++ rest)) n pat pre.length = scmpLoop (pre ++ (b ++ rest)) n pat (pre ++ b).length := by
  obtain ⟨k, c, hk, hc, rfl⟩ := hb
  have hlen : (pat.take k).length = k := by
    rw [List.length_take]
    omega
  have hsplit : pat.take k ++ [c] ++ rest = pat.take k ++ ([c] ++ rest) := List.append_assoc _ _ _
  have hget : (pre ++ (pat.take k ++ ([c] ++ rest)))[pre.length + k]? = some c := by
    rw [← List.append_assoc, List.getElem?_append_right (by simp [hlen]), List.length_append, hlen, Nat.sub_self]
    rfl
  have hinner : scmpInner (pre ++ (pat.take k ++ ([c] ++ rest))) pre.length pat = some (pre.length + k, false) := by
    have happ := scmpInner_append (pat.take k) ([c] ++ rest) (pat.drop k) pre
    rw [List.take_append_drop, hlen] at happ
    rw [happ, List.drop_eq_getElem_cons hk, scmpInner, hget]
    refine if_neg ?_
    rintro rfl
    exact hc (List.getElem?_eq_getElem hk)
  rw [hsplit, scmpLoop, if_pos hn]
  split
  · next heq => exact nomatch hinner.symm.trans heq
  · next heq => exact nomatch hinner.symm.trans heq
  · next j heq =>
    obtain ⟨rfl, -⟩ := Prod.mk.inj (Option.some.inj (hinner.symm.trans heq))
    congr 1
    simp only [List.length_append, hlen, List.length_singleton]
    omega

/-- The loop behind a text that is reached. -/
theorem scmpLoop_reached {t : Bytes} (ht : Reached pat t) : ∀ (pre rest : Bytes),
    scmpLoop (pre ++ (t ++ rest)) (pre ++ (t ++ rest)).length pat pre.length =
      scmpLoop (pre ++ (t ++ rest)) (pre ++ (t ++ rest)).length pat (pre ++ t).length := by
  induction ht using Reached.induction with
  | nil =>
    intro pre rest
    rw [List.append_nil]
  | cons b t hb _ ih =>
    intro pre rest
    have hpos := List.length_pos_iff.mpr hb.ne_nil
    have hrec := ih (pre ++ b) rest
    simp only [List.append_assoc] at hrec ⊢
    rw [scmpLoop_block hb pre (t ++ rest) (by simp only [List.length_append]; omega), hrec]

/-- **The result**, by how the scan ends. -/
theorem scmpBuf_found (hpat : pat ≠ []) {pre : Bytes} (hpre : Reached pat pre) (post : Bytes) :
    scmpBuf (pre ++ (pat ++ post)) (pre ++ (pat ++ post)).length pat = some 0 := by
  have hpos := List.length_pos_iff.mpr hpat
  have hloop := scmpLoop_reached hpre [] (pat ++ post)
  simp only [List.nil_append, List.length_nil] at hloop
  rw [scmpBuf, if_neg hpat, hloop, scmpLoop_found pre post (by simp only [List.length_append]; omega)]

theorem scmpBuf_ends (hpat : pat ≠ []) {pre : Bytes} (hpre : Reached pat pre) {k : ℕ} (hk : k < pat.length) :
    scmpBuf (pre ++ pat.take k) (pre ++ pat.take k).length pat = if k = 0 then some (-1) else none := by
  have hlen : (pat.take k).length = k := by
    rw [List.length_take]
    omega
  have hloop := scmpLoop_reached hpre [] (pat.take k)
  simp only [List.nil_append, List.length_nil] at hloop
  rw [scmpBuf, if_neg hpat, hloop]
  by_cases h0 : k = 0
  · rw [if_pos h0, h0, List.take_zero, List.append_nil, scmpLoop, if_neg (by omega)]
  · have hinner := scmpInner_append (pat.take k) [] (pat.drop k) pre
    rw [List.take_append_drop, List.append_nil, hlen, List.drop_eq_getElem_cons hk, scmpInner,
      List.getElem?_eq_none (by rw [List.length_append, hlen])] at hinner
    rw [if_neg h0, scmpLoop, if_pos (by rw [List.length_append, hlen]; omega)]
    split
    · rfl
    · next heq => exact nomatch hinner.symm.trans heq
    · next heq => exact nomatch hinner.symm.trans heq

/-- **A pattern is found exactly where it occurs, inside the buffer**, when the scan arrives at an occurrence, or the
buffer ends with a failed attempt and has none. -/
theorem scmpBuf_iff (src pat : Bytes) (hpat : pat ≠ []) : ScmpExact src pat ↔ ScanSees src pat := by
  constructor
  · rintro ⟨r, hr, hexact⟩
    rcases scan_cases pat src with hfound | ⟨pre, k, hpre, hk, rfl⟩
    · exact Or.inl hfound
    · rw [scmpBuf_ends hpat hpre hk] at hr
      split_ifs at hr with h0
      subst h0
      obtain rfl := Option.some.inj hr
      rw [List.take_zero, List.append_nil] at hexact ⊢
      exact Or.inr ⟨hpre, fun hin => absurd (hexact.mpr hin) (by decide)⟩
  · rintro (⟨pre, post, hpre, rfl⟩ | ⟨hpre, hno⟩)
    · exact ⟨0, scmpBuf_found hpat hpre post, iff_of_true rfl ⟨pre, post, by rw [List.append_assoc]⟩⟩
    · have hends := scmpBuf_ends hpat hpre (List.length_pos_iff.mpr hpat)
      rw [List.take_zero, List.append_nil, if_pos rfl] at hends
      exact ⟨-1, hends, iff_of_false (by decide) hno⟩

end Scan

theorem scmpBuf_sees : ScmpExact (ascii "xabc") (ascii "ab") :=
  (scmpBuf_iff (ascii "xabc") (ascii "ab") (by decide)).mpr
    (Or.inl ⟨ascii "x", ascii "c", ⟨[ascii "x"], by simpa using ⟨0, 120, by decide, by decide, rfl⟩, rfl⟩, rfl⟩)

/-- In `aab` the second `a` ends the first attempt at `ab`; at the end of `a` the attempt reads on. -/
theorem scmpBuf_misses : ¬ ScmpExact (ascii "aab") (ascii "ab") ∧ ¬ ScmpExact (ascii "a") (ascii "ab") := by
  constructor
  · rintro ⟨r, hr, hexact⟩
    have hreached : Reached (ascii "ab") (ascii "aab") := by
      refine ⟨[ascii "aa", ascii "b"], ?_, rfl⟩
      simp only [List.forall_mem_cons]
      exact ⟨⟨1, 97, by decide, by decide, rfl⟩, ⟨0, 98, by decide, by decide, rfl⟩, by simp⟩
    have hends := @scmpBuf_ends (ascii "ab") (by decide) (ascii "aab") hreached 0 (by decide)
    rw [List.take_zero, List.append_nil, hr, if_pos rfl, Option.some.injEq] at hends
    exact absurd (hexact.mpr ⟨ascii "a", [], rfl⟩) (by omega)
  · rintro ⟨r, hr, -⟩
    have hends := @scmpBuf_ends (ascii "ab") (by decide) [] reached_nil 1 (by decide)
    rw [show [] ++ (ascii "ab").take 1 = ascii "a" from rfl, hr, if_neg (by decide)] at hends
    cases hends

end Esp32Base
