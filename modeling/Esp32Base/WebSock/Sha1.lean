import Mathlib.Data.List.Range
import Esp32Base.Lib.Blocks
import Esp32Base.WebSock.Handshake

/-!
# WebSock.Sha1 — the digest of the new protocol (sha1.c)

A context takes the message in pieces, one octet after the other, and is asked for the digest at the end.

* `sha1`: the digest of FIPS PUB 180-1, over a message padded as a whole and rounds numbered from 0 to 79.
* `processBlock_eq`: the four loops over the word sequence are its rounds.
* `sha1_calls`: whatever the calls, the context answers as an object that is given the message and its `sha1`.
-/

namespace Esp32Base

open Lib Lib.Buf Lib.Blocks

/-! ## sha1.c -/

structure SHA1Context where
  Message_Digest : Vector UInt32 5
  Length_Low : UInt32
  Length_High : UInt32
  Message_Block : Bytes
  Message_Block_Index : ℕ
  Computed : Bool
  Corrupted : Bool
  deriving DecidableEq

def SHA1CircularShift (bits word : UInt32) : UInt32 := (word <<< bits) ||| (word >>> (32 - bits))

/-- The block is not cleared. -/
def SHA1Reset (context : SHA1Context) : SHA1Context where
  Message_Digest := #v[0x67452301, 0xEFCDAB89, 0x98BADCFE, 0x10325476, 0xC3D2E1F0]
  Length_Low := 0
  Length_High := 0
  Message_Block := context.Message_Block
  Message_Block_Index := 0
  Computed := false
  Corrupted := false

/-- The word buffers `A` to `E`. -/
structure ShaWords where
  A : UInt32
  B : UInt32
  C : UInt32
  D : UInt32
  E : UInt32

/-- The word at `W[t]` of the first 16. -/
def blockWord (Message_Block : Bytes) (t : ℕ) : UInt32 :=
  ((Message_Block.getD (t * 4) 0).toUInt32 <<< 24) ||| ((Message_Block.getD (t * 4 + 1) 0).toUInt32 <<< 16) |||
    ((Message_Block.getD (t * 4 + 2) 0).toUInt32 <<< 8) ||| (Message_Block.getD (t * 4 + 3) 0).toUInt32

/-- The loop that fills `W` from the words in front, `t` being the length of what is filled. -/
def extendWords : ℕ → List UInt32 → List UInt32
  | 0, W => W
  | n + 1, W =>
    extendWords n (W ++ [SHA1CircularShift 1 (W.getD (W.length - 3) 0 ^^^ W.getD (W.length - 8) 0 ^^^
      W.getD (W.length - 14) 0 ^^^ W.getD (W.length - 16) 0)])

/-- The body of the four loops, which differ in `f` and `K`. -/
def shaRound (f : UInt32 → UInt32 → UInt32 → UInt32) (K : UInt32) (s : ShaWords) (w : UInt32) : ShaWords :=
  ⟨SHA1CircularShift 5 s.A + f s.B s.C s.D + s.E + w + K, s.A, SHA1CircularShift 30 s.B, s.C, s.D⟩

def shaLoop1 := shaRound (fun B C D => (B &&& C) ||| (~~~B &&& D)) 0x5A827999
def shaLoop2 := shaRound (fun B C D => B ^^^ C ^^^ D) 0x6ED9EBA1
def shaLoop3 := shaRound (fun B C D => (B &&& C) ||| (B &&& D) ||| (C &&& D)) 0x8F1BBCDC
def shaLoop4 := shaRound (fun B C D => B ^^^ C ^^^ D) 0xCA62C1D6

/-- What the rounds leave is added to the digest. -/
def addWords (H : Vector UInt32 5) (s : ShaWords) : Vector UInt32 5 :=
  #v[H[0] + s.A, H[1] + s.B, H[2] + s.C, H[3] + s.D, H[4] + s.E]

def startWords (H : Vector UInt32 5) : ShaWords := ⟨H[0], H[1], H[2], H[3], H[4]⟩

/-- The digest behind a block. -/
def processBlock (H : Vector UInt32 5) (Message_Block : Bytes) : Vector UInt32 5 :=
  let W := extendWords 64 ((List.range 16).map (blockWord Message_Block))
  let s := (W.take 20).foldl shaLoop1 (startWords H)
  let s := ((W.drop 20).take 20).foldl shaLoop2 s
  let s := ((W.drop 40).take 20).foldl shaLoop3 s
  addWords H (((W.drop 60).take 20).foldl shaLoop4 s)

def SHA1ProcessMessageBlock (context : SHA1Context) : Option SHA1Context :=
  (load context.Message_Block 0 64).map fun block =>
    { context with Message_Digest := processBlock context.Message_Digest block, Message_Block_Index := 0 }

/-- One octet of the loop of `SHA1Input`: only a low word that wraps looks at the high one. -/
def inputOctet (context : SHA1Context) (c : UInt8) : Option SHA1Context :=
  (store context.Message_Block context.Message_Block_Index [c]).bind fun Message_Block =>
    let Length_Low := context.Length_Low + 8
    let Length_High := if Length_Low = 0 then context.Length_High + 1 else context.Length_High
    let Corrupted := if Length_Low = 0 ∧ Length_High = 0 then true else context.Corrupted
    let context := { context with
      Message_Block := Message_Block, Message_Block_Index := context.Message_Block_Index + 1,
      Length_Low := Length_Low, Length_High := Length_High, Corrupted := Corrupted }
    if context.Message_Block_Index = 64 then SHA1ProcessMessageBlock context else some context

def inputLoop : SHA1Context → Bytes → Option SHA1Context
  | context, [] => some context
  | context, c :: message_array =>
    if context.Corrupted then some context
    else (inputOctet context c).bind fun context => inputLoop context message_array

def SHA1Input (context : SHA1Context) (message_array : Bytes) : Option SHA1Context :=
  if message_array = [] then some context
  else if context.Computed || context.Corrupted then some { context with Corrupted := true }
  else inputLoop context message_array

/-- The loops `while (Message_Block_Index < n)` store zeros. -/
def zerosUpTo (n : ℕ) (context : SHA1Context) : Option SHA1Context :=
  (store context.Message_Block context.Message_Block_Index
    (List.replicate (n - context.Message_Block_Index) 0)).map fun Message_Block =>
      { context with
        Message_Block := Message_Block, Message_Block_Index := max context.Message_Block_Index n }

/-- The store of the mark. -/
def storeMark (context : SHA1Context) : Option SHA1Context :=
  (store context.Message_Block context.Message_Block_Index [0x80]).map fun Message_Block =>
    { context with Message_Block := Message_Block, Message_Block_Index := context.Message_Block_Index + 1 }

def SHA1PadMessage (context : SHA1Context) : Option SHA1Context := do
  let context ←
    if 55 < context.Message_Block_Index then
      (((storeMark context).bind (zerosUpTo 64)).bind SHA1ProcessMessageBlock).bind (zerosUpTo 56)
    else (storeMark context).bind (zerosUpTo 56)
  let Message_Block ← store context.Message_Block 56
    (be32 context.Length_High.toNat ++ be32 context.Length_Low.toNat)
  SHA1ProcessMessageBlock { context with Message_Block := Message_Block }

def SHA1Result (context : SHA1Context) : Option (ℕ × SHA1Context) :=
  if context.Corrupted then some (0, context)
  else if ¬ context.Computed then
    (SHA1PadMessage context).map fun context => (1, { context with Computed := true })
  else some (1, context)

/-! ## FIPS PUB 180-1 -/

/-- The words `W(t)`. -/
def fipsWord (block : Bytes) (t : ℕ) : UInt32 :=
  if t < 16 then blockWord block t
  else SHA1CircularShift 1
    (fipsWord block (t - 3) ^^^ fipsWord block (t - 8) ^^^ fipsWord block (t - 14) ^^^ fipsWord block (t - 16))

/-- The functions `f(t;B,C,D)`. -/
def fipsF (t : ℕ) (B C D : UInt32) : UInt32 :=
  if t < 20 then (B &&& C) ||| (~~~B &&& D)
  else if t < 40 then B ^^^ C ^^^ D
  else if t < 60 then (B &&& C) ||| (B &&& D) ||| (C &&& D)
  else B ^^^ C ^^^ D

/-- The constants `K(t)`. -/
def fipsK (t : ℕ) : UInt32 :=
  if t < 20 then 0x5A827999 else if t < 40 then 0x6ED9EBA1 else if t < 60 then 0x8F1BBCDC else 0xCA62C1D6

/-- Step `t` of the method. -/
def fipsStep (block : Bytes) (s : ShaWords) (t : ℕ) : ShaWords :=
  ⟨SHA1CircularShift 5 s.A + fipsF t s.B s.C s.D + s.E + fipsWord block t + fipsK t,
    s.A, SHA1CircularShift 30 s.B, s.C, s.D⟩

def fipsBlock (H : Vector UInt32 5) (block : Bytes) : Vector UInt32 5 :=
  addWords H ((List.range 80).foldl (fipsStep block) (startWords H))

def fipsStart : Vector UInt32 5 := #v[0x67452301, 0xEFCDAB89, 0x98BADCFE, 0x10325476, 0xC3D2E1F0]

/-- The length of the message in bits, in two words. -/
def lengthWords (n : ℕ) : Bytes := be32 (8 * n / 2 ^ 32) ++ be32 (8 * n)

/-- The digest of a message. -/
def sha1 (message : Bytes) : Vector UInt32 5 :=
  (absorb 64 fipsBlock fipsStart (blockPadded 64 0x80 0 (lengthWords message.length) message)).1

/-! ## The rounds -/

theorem extendWords_eq (block : Bytes) (n : ℕ) : ∀ t, 16 ≤ t →
    extendWords n ((List.range t).map (fipsWord block)) = (List.range (t + n)).map (fipsWord block) := by
  induction n with
  | zero => exact fun _ _ => rfl
  | succ n ih =>
    intro t ht
    have hword : ∀ k, 1 ≤ k → k ≤ 16 → ((List.range t).map (fipsWord block)).getD (t - k) 0 = fipsWord block (t - k) := by
      intro k h1 h2
      rw [List.getD_eq_getElem _ _ (by rw [List.length_map, List.length_range]; omega), List.getElem_map,
        List.getElem_range]
    have hnext : (List.range t).map (fipsWord block) ++ [fipsWord block t] =
        (List.range (t + 1)).map (fipsWord block) := by
      rw [List.range_succ, List.map_append, List.map_singleton]
    have hrec : fipsWord block t = SHA1CircularShift 1 (fipsWord block (t - 3) ^^^ fipsWord block (t - 8) ^^^
        fipsWord block (t - 14) ^^^ fipsWord block (t - 16)) := by
      rw [fipsWord, if_neg (by omega)]
    rw [extendWords, List.length_map, List.length_range, hword 3 (by omega) (by omega), hword 8 (by omega) (by omega),
      hword 14 (by omega) (by omega), hword 16 (by omega) (by omega), ← hrec, hnext, ih (t + 1) (by omega),
      show t + 1 + n = t + (n + 1) by omega]

/-- The word sequence. -/
theorem words_eq (block : Bytes) :
    extendWords 64 ((List.range 16).map (blockWord block)) = (List.range 80).map (fipsWord block) := by
  have hfirst : (List.range 16).map (blockWord block) = (List.range 16).map (fipsWord block) := by
    apply List.map_congr_left
    intro t ht
    rw [fipsWord, if_pos (List.mem_range.mp ht)]
  rw [hfirst, extendWords_eq block 64 16 le_rfl]

/-- Twenty rounds with one function and one constant. -/
theorem fold_loop {loop : ShaWords → UInt32 → ShaWords} (block : Bytes) (a : ℕ)
    (hloop : ∀ s t, a ≤ t → t < a + 20 → loop s (fipsWord block t) = fipsStep block s t) (s : ShaWords) :
    ((List.range' a 20).map (fipsWord block)).foldl loop s = (List.range' a 20).foldl (fipsStep block) s := by
  rw [List.foldl_map]
  apply List.foldl_ext
  intro s t ht
  have hmem := List.mem_range'_1.mp ht
  exact hloop s t hmem.1 hmem.2

/-- **A block** is compressed by the eighty steps of the standard. -/
theorem processBlock_eq (H : Vector UInt32 5) (block : Bytes) : processBlock H block = fipsBlock H block := by
  have hparts : List.range 80 = List.range' 0 20 ++ (List.range' 20 20 ++ (List.range' 40 20 ++ List.range' 60 20)) := by
    decide
  have h1 : ∀ s t, 0 ≤ t → t < 0 + 20 → shaLoop1 s (fipsWord block t) = fipsStep block s t := by
    intro s t _ ht
    rw [shaLoop1, shaRound, fipsStep, fipsF, fipsK, if_pos (by omega), if_pos (by omega)]
  have h2 : ∀ s t, 20 ≤ t → t < 20 + 20 → shaLoop2 s (fipsWord block t) = fipsStep block s t := by
    intro s t hle ht
    rw [shaLoop2, shaRound, fipsStep, fipsF, fipsK, if_neg (by omega), if_pos (by omega), if_neg (by omega),
      if_pos (by omega)]
  have h3 : ∀ s t, 40 ≤ t → t < 40 + 20 → shaLoop3 s (fipsWord block t) = fipsStep block s t := by
    intro s t hle ht
    rw [shaLoop3, shaRound, fipsStep, fipsF, fipsK, if_neg (by omega), if_neg (by omega), if_pos (by omega),
      if_neg (by omega), if_neg (by omega), if_pos (by omega)]
  have h4 : ∀ s t, 60 ≤ t → t < 60 + 20 → shaLoop4 s (fipsWord block t) = fipsStep block s t := by
    intro s t hle ht
    rw [shaLoop4, shaRound, fipsStep, fipsF, fipsK, if_neg (by omega), if_neg (by omega), if_neg (by omega),
      if_neg (by omega), if_neg (by omega), if_neg (by omega)]
  have hdrop : ∀ a, (((List.range 80).map (fipsWord block)).drop a).take 20 =
      (((List.range 80).drop a).take 20).map (fipsWord block) := by
    intro a
    rw [← List.map_drop, ← List.map_take]
  rw [processBlock, fipsBlock, words_eq, hdrop 20, hdrop 40, hdrop 60, ← List.map_take,
    show (List.range 80).take 20 = List.range' 0 20 by decide,
    show ((List.range 80).drop 20).take 20 = List.range' 20 20 by decide,
    show ((List.range 80).drop 40).take 20 = List.range' 40 20 by decide,
    show ((List.range 80).drop 60).take 20 = List.range' 60 20 by decide, hparts]
  simp only [List.foldl_append, fold_loop block 0 h1, fold_loop block 20 h2, fold_loop block 40 h3, fold_loop block 60 h4]

/-! ## The context -/

/-- An open context that has been given the message `x`. -/
structure Absorbs (context : SHA1Context) (x : Bytes) : Prop where
  state : absorb 64 fipsBlock fipsStart x =
    (context.Message_Digest, context.Message_Block.take context.Message_Block_Index)
  size : context.Message_Block.length = 64
  index : context.Message_Block_Index < 64
  bits : 8 * x.length = context.Length_High.toNat * 2 ^ 32 + context.Length_Low.toNat
  Computed : context.Computed = false
  Corrupted : context.Corrupted = false

/-- What a context stands for. -/
def Stands (context : SHA1Context) : DigestObject UInt8 → Prop
  | .open x => Absorbs context x ∧ x.length < 2 ^ 61
  | .closed x => context.Message_Digest = sha1 x ∧ context.Computed = true ∧ context.Corrupted = false ∧
      context.Message_Block.length = 64
  | .spoiled => context.Corrupted = true ∧ context.Message_Block.length = 64

theorem Stands.size {context : SHA1Context} {t : DigestObject UInt8} (h : Stands context t) :
    context.Message_Block.length = 64 := by
  cases t with
  | «open» x => exact h.1.size
  | closed x => exact h.2.2.2
  | spoiled => exact h.2

section Context

variable {context : SHA1Context} {x : Bytes}

theorem absorbs_reset (hsize : context.Message_Block.length = 64) : Absorbs (SHA1Reset context) [] where
  state := by
    rw [absorb_short fipsStart (by decide)]
    rfl
  size := hsize
  index := Nat.succ_pos 63
  bits := by rw [SHA1Reset, UInt32.toNat_zero, Nat.zero_mul, List.length_nil]
  Computed := rfl
  Corrupted := rfl

theorem processMessageBlock_eq (hsize : context.Message_Block.length = 64) :
    SHA1ProcessMessageBlock context = some { context with
      Message_Digest := fipsBlock context.Message_Digest context.Message_Block, Message_Block_Index := 0 } := by
  rw [SHA1ProcessMessageBlock, load_of_le (by omega), List.drop_zero, ← hsize, List.take_length, Option.map_some,
    processBlock_eq]

/-- The bits are counted in two words, up to the octet with which the message is too long. -/
theorem count_bits {low high : UInt32} {n : ℕ} (h : 8 * n = high.toNat * 2 ^ 32 + low.toNat) (hn : n < 2 ^ 61) :
    (if low + 8 = 0 then high + 1 else high).toNat * 2 ^ 32 + (low + 8).toNat = 8 * (n + 1) % 2 ^ 64 ∧
      ((low + 8 = 0 ∧ (if low + 8 = 0 then high + 1 else high) = 0) ↔ n + 1 = 2 ^ 61) := by
  have hl := low.toNat_lt
  have hh := high.toNat_lt
  have hlow : (low + 8).toNat = (low.toNat + 8) % 2 ^ 32 := UInt32.toNat_add low 8
  have hhigh : (high + 1).toNat = (high.toNat + 1) % 2 ^ 32 := UInt32.toNat_add high 1
  have hzero : ∀ w : UInt32, w = 0 ↔ w.toNat = 0 := fun w => (UInt32.toNat_inj (a := w) (b := 0)).symm
  by_cases hwrap : low + 8 = 0
  · have hw := (hzero _).mp hwrap
    rw [if_pos hwrap, hzero (high + 1), hw, hhigh]
    refine ⟨by omega, ?_⟩
    constructor
    · rintro ⟨-, h0⟩
      omega
    · exact fun hn' => ⟨hwrap, by omega⟩
  · have hw := (hzero _).not.mp hwrap
    rw [if_neg hwrap]
    exact ⟨by omega, fun h0 => absurd h0.1 hwrap, fun hn' => by omega⟩

/-- **One octet** more. -/
theorem inputOctet_absorbs (h : Absorbs context x) (hx : x.length < 2 ^ 61) (c : UInt8) :
    ∃ context', inputOctet context c = some context' ∧ context'.Message_Block.length = 64 ∧
      (x.length + 1 < 2 ^ 61 → Absorbs context' (x ++ [c])) ∧
      (¬ x.length + 1 < 2 ^ 61 → context'.Corrupted = true) := by
  obtain ⟨hbits, hlong⟩ := count_bits h.bits hx
  obtain ⟨block, hst⟩ : ∃ block, store context.Message_Block context.Message_Block_Index [c] = some block :=
    ⟨_, store_of_le (by rw [List.length_singleton, h.size]; exact h.index)⟩
  have hlen := (store_length hst).trans h.size
  have htake := store_take hst
  rw [List.length_singleton] at htake
  have hrest : (absorb 64 fipsBlock fipsStart x).2.length = context.Message_Block_Index := by
    rw [h.state, List.length_take, h.size]
    exact Nat.min_eq_left h.index.le
  have hnext := @absorb_concat _ _ 64 fipsBlock (by decide) fipsStart x c
  rw [hrest, h.state] at hnext
  have hbits' : x.length + 1 < 2 ^ 61 → 8 * (x ++ [c]).length = (if context.Length_Low + 8 = 0 then
      context.Length_High + 1 else context.Length_High).toNat * 2 ^ 32 + (context.Length_Low + 8).toNat := by
    intro hlt
    rw [hbits, List.length_append, List.length_singleton, Nat.mod_eq_of_lt (by omega)]
  have hcorrupt : x.length + 1 < 2 ^ 61 → (if context.Length_Low + 8 = 0 ∧ (if context.Length_Low + 8 = 0 then
      context.Length_High + 1 else context.Length_High) = 0 then true else context.Corrupted) = false := by
    intro hlt
    rw [if_neg (fun h0 => by have := hlong.mp h0; omega), h.Corrupted]
  have hcorrupt' : ¬ x.length + 1 < 2 ^ 61 → (if context.Length_Low + 8 = 0 ∧ (if context.Length_Low + 8 = 0 then
      context.Length_High + 1 else context.Length_High) = 0 then true else context.Corrupted) = true :=
    fun hge => if_pos (hlong.mpr (by omega))
  rw [inputOctet, hst, Option.bind_some]
  dsimp only
  by_cases hfull : context.Message_Block_Index + 1 = 64
  · rw [if_pos hfull, processMessageBlock_eq hlen]
    refine ⟨_, rfl, hlen, fun hlt => ⟨?_, hlen, Nat.succ_pos 63, hbits' hlt, h.Computed, hcorrupt hlt⟩, hcorrupt'⟩
    rw [if_pos hfull, ← htake, hfull, List.take_of_length_le hlen.le] at hnext
    rw [hnext, List.take_zero]
  · rw [if_neg hfull]
    have hindex : context.Message_Block_Index + 1 < 64 := by
      have := h.index
      omega
    refine ⟨_, rfl, hlen, fun hlt => ⟨?_, hlen, hindex, hbits' hlt, h.Computed, hcorrupt hlt⟩, hcorrupt'⟩
    rw [if_neg hfull] at hnext
    rw [hnext, ← htake]

/-- **A piece**, which spoils the context when the message gets too long. -/
theorem inputLoop_absorbs (p : Bytes) : ∀ {context : SHA1Context} {x : Bytes}, Absorbs context x → x.length < 2 ^ 61 →
    ∃ context', inputLoop context p = some context' ∧
      Stands context' (if (x ++ p).length < 2 ^ 61 then .open (x ++ p) else .spoiled) := by
  induction p with
  | nil =>
    intro context x h hx
    rw [List.append_nil, if_pos hx]
    exact ⟨context, rfl, h, hx⟩
  | cons c p ih =>
    intro context x h hx
    obtain ⟨context', hoctet, hlen, hfits, hlong⟩ := inputOctet_absorbs h hx c
    rw [inputLoop, if_neg (by rw [h.Corrupted]; decide), hoctet, Option.bind_some]
    by_cases hlt : x.length + 1 < 2 ^ 61
    · obtain ⟨context'', hloop, hstands⟩ := ih (hfits hlt) (by rw [List.length_append]; exact hlt)
      rw [List.append_assoc] at hstands
      exact ⟨context'', hloop, hstands⟩
    · -- the loop ends behind the octet that was one too many
      have hcorrupted := hlong hlt
      have hall : ¬ (x ++ c :: p).length < 2 ^ 61 := by
        rw [List.length_append, List.length_cons]
        omega
      rw [if_neg hall]
      refine ⟨context', ?_, hcorrupted, hlen⟩
      cases p with
      | nil => rfl
      | cons d p => rw [inputLoop, if_pos hcorrupted]

end Context

/-! ## Padding -/

/-- The part of the block that has been filled. -/
def Filled (block b : Bytes) : Prop := block.length = 64 ∧ block.take b.length = b

section Pad

variable (context : SHA1Context) {b : Bytes}

theorem storeMark_filled (h : Filled context.Message_Block b) (hi : context.Message_Block_Index = b.length)
    (hb : b.length < 64) : ∃ block, storeMark context = some { context with
      Message_Block := block, Message_Block_Index := (b ++ [0x80]).length } ∧ Filled block (b ++ [0x80]) := by
  obtain ⟨block, hst⟩ : ∃ block, store context.Message_Block context.Message_Block_Index [0x80] = some block :=
    ⟨_, store_of_le (by rw [List.length_singleton, h.1, hi]; exact hb)⟩
  have htake := store_take hst
  rw [hi, h.2, List.length_singleton] at htake
  refine ⟨block, ?_, (store_length hst).trans h.1, ?_⟩
  · rw [storeMark, hst, Option.map_some, hi, List.length_append, List.length_singleton]
  · rw [List.length_append, List.length_singleton, htake]

theorem zerosUpTo_filled (h : Filled context.Message_Block b) (hi : context.Message_Block_Index = b.length) {n : ℕ}
    (hb : b.length ≤ n) (hn : n ≤ 64) : ∃ block, zerosUpTo n context = some { context with
      Message_Block := block, Message_Block_Index := n } ∧ Filled block (b ++ List.replicate (n - b.length) 0) := by
  obtain ⟨block, hst⟩ : ∃ block, store context.Message_Block context.Message_Block_Index
      (List.replicate (n - context.Message_Block_Index) 0) = some block :=
    ⟨_, store_of_le (by rw [List.length_replicate, h.1, hi]; omega)⟩
  have htake := store_take hst
  rw [hi, h.2, List.length_replicate] at htake
  refine ⟨block, ?_, (store_length hst).trans h.1, ?_⟩
  · rw [zerosUpTo, hst, Option.map_some, hi, Nat.max_eq_right hb]
  · rw [List.length_append, List.length_replicate, htake]

theorem process_filled (h : Filled context.Message_Block b) (hb : b.length = 64) :
    SHA1ProcessMessageBlock context = some { context with
      Message_Digest := fipsBlock context.Message_Digest b, Message_Block_Index := 0 } := by
  have hblock : context.Message_Block = b := by
    have htake := h.2
    rwa [List.take_of_length_le (h.1.trans hb.symm).le] at htake
  rw [processMessageBlock_eq h.1, hblock]

theorem be32_add (h l : ℕ) : be32 (h * 2 ^ 32 + l) = be32 l := by
  have hbyte : ∀ k, k ≤ 24 → UInt8.ofNat ((h * 2 ^ 32 + l) / 2 ^ k) = UInt8.ofNat (l / 2 ^ k) := by
    intro k hk
    have hsplit : h * 2 ^ 32 = 2 ^ k * (h * 2 ^ (24 - k) * 256) := by
      have hpow : 2 ^ 32 = 2 ^ k * 2 ^ (24 - k) * 256 := by
        rw [← pow_add, show k + (24 - k) = 24 by omega]
        rfl
      rw [hpow]
      ac_rfl
    apply UInt8.toNat.inj
    rw [hsplit, Nat.mul_add_div (Nat.two_pow_pos k), UInt8.toNat_ofNat', UInt8.toNat_ofNat', Nat.add_comm,
      Nat.mul_comm, Nat.add_mul_mod_self_left]
  have hlast := hbyte 0 (Nat.zero_le _)
  rw [pow_zero, Nat.div_one, Nat.div_one] at hlast
  rw [be32, be32, hbyte 24 le_rfl, hbyte 16 (by decide), hbyte 8 (by decide), hlast]

/-- The length as it is stored. -/
theorem lengthWords_eq {low high : UInt32} {n : ℕ} (h : 8 * n = high.toNat * 2 ^ 32 + low.toNat) :
    be32 high.toNat ++ be32 low.toNat = lengthWords n := by
  have hl := low.toNat_lt
  rw [lengthWords, h, be32_add, show (high.toNat * 2 ^ 32 + low.toNat) / 2 ^ 32 = high.toNat by omega]

/-- The length and the last block. -/
theorem finish_filled {x : Bytes} (h : Filled context.Message_Block b) (hb : b.length = 56)
    (hbits : 8 * x.length = context.Length_High.toNat * 2 ^ 32 + context.Length_Low.toNat) :
    ∃ block, block.length = 64 ∧ ((store context.Message_Block 56
      (be32 context.Length_High.toNat ++ be32 context.Length_Low.toNat)).bind fun Message_Block =>
        SHA1ProcessMessageBlock { context with Message_Block := Message_Block }) =
      some { context with
        Message_Digest := fipsBlock context.Message_Digest (b ++ lengthWords x.length), Message_Block := block,
        Message_Block_Index := 0 } := by
  rw [lengthWords_eq hbits]
  have hwords : (lengthWords x.length).length = 8 := rfl
  obtain ⟨block, hst⟩ : ∃ block, store context.Message_Block 56 (lengthWords x.length) = some block :=
    ⟨_, store_of_le (by rw [hwords, h.1])⟩
  have htake := store_take hst
  rw [← hb, h.2, ← List.length_append] at htake
  have hlen := (store_length hst).trans h.1
  refine ⟨block, hlen, ?_⟩
  rw [hst, Option.bind_some, process_filled _ (b := b ++ lengthWords x.length) ⟨hlen, htake⟩]
  rw [List.length_append, hb, hwords]

end Pad

/-- **`SHA1PadMessage`** leaves the digest of the message. -/
theorem padMessage_absorbs {context : SHA1Context} {x : Bytes} (h : Absorbs context x) :
    ∃ context', SHA1PadMessage context = some context' ∧ context'.Message_Digest = sha1 x ∧
      context'.Corrupted = false ∧ context'.Message_Block.length = 64 := by
  have hwords : (lengthWords x.length).length = 8 := rfl
  have hindex : (context.Message_Block.take context.Message_Block_Index).length = context.Message_Block_Index := by
    rw [List.length_take, h.size]
    exact Nat.min_eq_left h.index.le
  have hrest : (absorb 64 fipsBlock fipsStart x).2 = context.Message_Block.take context.Message_Block_Index := by
    rw [h.state]
  have hstate : (absorb 64 fipsBlock fipsStart x).1 = context.Message_Digest := by rw [h.state]
  generalize hb : context.Message_Block.take context.Message_Block_Index = b at hindex hrest
  have hfilled : Filled context.Message_Block b := ⟨h.size, by rw [hindex, hb]⟩
  have hi := h.index
  rw [SHA1PadMessage]
  by_cases hshort : 55 < context.Message_Block_Index
  · have hsum := @absorb_padded_long _ _ 64 fipsBlock (0x80 : UInt8) 0 (lengthWords x.length)
      (by rw [hwords]; decide) fipsStart x (by rw [hrest, hindex, hwords]; omega)
    rw [hrest, hstate, hwords, hindex] at hsum
    obtain ⟨m₁, hmark, hm₁⟩ := storeMark_filled context hfilled hindex.symm (by omega)
    obtain ⟨m₂, hzero, hm₂⟩ := zerosUpTo_filled { context with
      Message_Block := m₁, Message_Block_Index := (b ++ [0x80]).length } hm₁ rfl (n := 64)
      (by rw [List.length_append, List.length_singleton]; omega) le_rfl
    have hfull : (b ++ [(0x80 : UInt8)] ++ List.replicate (64 - (b ++ [(0x80 : UInt8)]).length) 0).length = 64 := by
      simp only [List.length_append, List.length_replicate, List.length_singleton]
      omega
    have hproc := process_filled { context with
      Message_Block := m₂, Message_Block_Index := 64 } hm₂ hfull
    obtain ⟨m₃, hzero', hm₃⟩ := zerosUpTo_filled { context with
      Message_Digest := fipsBlock context.Message_Digest (b ++ [0x80] ++ List.replicate (64 - (b ++ [0x80]).length) 0)
      Message_Block := m₂, Message_Block_Index := 0 } (b := []) ⟨hm₂.1, List.take_zero⟩ rfl (n := 56)
      (by decide) (by decide)
    obtain ⟨m₄, hm₄, hfin⟩ := finish_filled { context with
      Message_Digest := fipsBlock context.Message_Digest (b ++ [0x80] ++ List.replicate (64 - (b ++ [0x80]).length) 0)
      Message_Block := m₃, Message_Block_Index := 56 } (x := x) hm₃ (by simp) h.bits
    rw [if_pos hshort, hmark, Option.bind_some, hzero, Option.bind_some, hproc, Option.bind_some, hzero']
    refine ⟨_, hfin, ?_, h.Corrupted, hm₄⟩
    rw [sha1, hsum]
    simp [hindex, List.append_assoc]
  · have hsum := @absorb_padded_short _ _ 64 fipsBlock (0x80 : UInt8) 0 (lengthWords x.length)
      (by rw [hwords]; decide) fipsStart x (by rw [hrest, hindex, hwords]; omega)
    rw [hrest, hstate, hwords, hindex] at hsum
    obtain ⟨m₁, hmark, hm₁⟩ := storeMark_filled context hfilled hindex.symm (by omega)
    obtain ⟨m₂, hzero, hm₂⟩ := zerosUpTo_filled { context with
      Message_Block := m₁, Message_Block_Index := (b ++ [0x80]).length } hm₁ rfl (n := 56)
      (by rw [List.length_append, List.length_singleton]; omega) (by decide)
    obtain ⟨m₃, hm₃, hfin⟩ := finish_filled { context with
      Message_Block := m₂, Message_Block_Index := 56 } (x := x) hm₂
      (by simp only [List.length_append, List.length_replicate, List.length_singleton]; omega) h.bits
    rw [if_neg hshort, hmark, Option.bind_some, hzero]
    refine ⟨_, hfin, ?_, h.Corrupted, hm₃⟩
    rw [sha1, hsum]
    simp [hindex, List.append_assoc]

/-! ## Runs -/

/-- A call on a context; the digest is taken from a result of 1. -/
def shaCall (context : SHA1Context) : DigestCall UInt8 → Option (SHA1Context × List (Option (Vector UInt32 5)))
  | .reset => some (SHA1Reset context, [])
  | .input message_array => (SHA1Input context message_array).map fun context => (context, [])
  | .result => (SHA1Result context).map fun r => (r.2, [if r.1 = 1 then some r.2.Message_Digest else none])

/-- **A call** answers as the object does. -/
theorem shaCall_stands {context : SHA1Context} {t : DigestObject UInt8} (h : Stands context t)
    (call : DigestCall UInt8) :
    ∃ context', shaCall context call = some (context', (digestStep sha1 (2 ^ 61) t call).2) ∧
      Stands context' (digestStep sha1 (2 ^ 61) t call).1 := by
  cases call with
  | reset =>
    have hreset : Stands (SHA1Reset context) (.open []) := ⟨absorbs_reset h.size, by decide⟩
    exact ⟨SHA1Reset context, by cases t <;> rfl, by cases t <;> exact hreset⟩
  | input p =>
    by_cases hp : p = []
    · -- nothing happens
      have hsame : (digestStep sha1 (2 ^ 61) t (.input p)) = (t, []) := by
        cases t with
        | «open» x => rw [hp, digestStep, List.append_nil, if_pos h.2]
        | closed x => rw [digestStep, if_pos hp]
        | spoiled => rfl
      rw [hsame]
      refine ⟨context, ?_, h⟩
      rw [shaCall, SHA1Input, if_pos hp, Option.map_some]
    · rw [shaCall, SHA1Input, if_neg hp]
      cases t with
      | «open» x =>
        obtain ⟨context', hloop, hstands⟩ := inputLoop_absorbs p h.1 h.2
        refine ⟨context', ?_, hstands⟩
        rw [h.1.Computed, h.1.Corrupted, if_neg (by decide), hloop]
        rfl
      | closed x =>
        refine ⟨{ context with Corrupted := true }, ?_, ?_⟩
        · rw [h.2.1, Bool.true_or, if_pos rfl]
          rfl
        · rw [digestStep, if_neg hp]
          exact ⟨rfl, h.2.2.2⟩
      | spoiled =>
        refine ⟨{ context with Corrupted := true }, ?_, rfl, h.2⟩
        rw [h.1, Bool.or_true, if_pos rfl]
        rfl
  | result =>
    rw [shaCall, SHA1Result]
    cases t with
    | «open» x =>
      obtain ⟨context', hpad, hdigest, hcorrupted, hlen⟩ := padMessage_absorbs h.1
      refine ⟨{ context' with Computed := true }, ?_, hdigest, rfl, hcorrupted, hlen⟩
      rw [h.1.Corrupted, h.1.Computed, if_neg (by decide), if_pos (by decide), hpad]
      simp only [Option.map_some, digestStep, hdigest, if_true]
    | closed x =>
      refine ⟨context, ?_, h⟩
      rw [h.2.2.1, h.2.1, if_neg (by decide), if_neg (by decide)]
      simp only [Option.map_some, digestStep, h.1, if_true]
    | spoiled =>
      refine ⟨context, ?_, h⟩
      rw [h.1, if_pos rfl]
      rfl

/-- **Whatever the calls** behind a reset, the digests given are those of the pieces put together. -/
theorem sha1_calls (context : SHA1Context) (hsize : context.Message_Block.length = 64)
    (calls : List (DigestCall UInt8)) :
    ∃ context', runCalls shaCall (SHA1Reset context) calls =
      some (context', (mealyRun (digestStep sha1 (2 ^ 61)) (.open []) calls).2) := by
  have hreset : Stands (SHA1Reset context) (.open []) := ⟨absorbs_reset hsize, by decide⟩
  obtain ⟨context', hrun, -⟩ := runCalls_simulates Stands (fun _ _ => True)
    (fun _ _ call hstands _ => shaCall_stands hstands call) calls hreset fun _ _ _ _ => trivial
  exact ⟨context', hrun⟩

/-- A context before its first reset. -/
def freshContext : SHA1Context := ⟨fipsStart, 0, 0, List.replicate 64 0xAA, 0, false, false⟩

/-- Two pieces, the digest twice, and a piece that comes too late. -/
theorem sha1_calls_late : ∃ context', runCalls shaCall (SHA1Reset freshContext)
    [.input (ascii "ab"), .input (ascii "c"), .result, .result, .input (ascii "d"), .result] =
      some (context', [some (sha1 (ascii "abc")), some (sha1 (ascii "abc")), none]) :=
  sha1_calls freshContext rfl _

example : (runCalls shaCall (SHA1Reset freshContext) [.input (ascii "ab"), .input (ascii "c"), .result]).map (·.2) =
    some [some #v[0xA9993E36, 0x4706816A, 0xBA3E2571, 0x7850C26C, 0x9CD0D89D]] := by decide +kernel

end Esp32Base
