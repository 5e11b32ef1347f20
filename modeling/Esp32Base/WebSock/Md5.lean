import Mathlib.Data.List.Range
import Esp32Base.Lib.Blocks
import Esp32Base.WebSock.Handshake

/-!
# WebSock.Md5 — the digest of the old protocol (wsock_md5.c)

A context takes the message in pieces; whole blocks are transformed where they lie in the input, the rest is kept.

* `md5`: the digest of RFC 1321, over a message padded as a whole and steps numbered from 0 to 63.
* `update_takes`: a piece of any length, in any state of the buffer.
* `md5_pieces`, `wsockMDData_eq`: the digest of the pieces, and of the text that the handshake hands over.
-/

namespace Esp32Base

open Lib Lib.Buf Lib.Blocks

/-! ## wsock_md5.c -/

/-- `UINT4` is the target's 32-bit `unsigned long`. -/
structure MD5_CTX where
  state : Vector UInt32 4
  count0 : UInt32
  count1 : UInt32
  buffer : Bytes
  deriving DecidableEq

def PADDING : Bytes := 0x80 :: List.replicate 63 0

def md5F (x y z : UInt32) : UInt32 := (x &&& y) ||| (~~~x &&& z)
def md5G (x y z : UInt32) : UInt32 := (x &&& z) ||| (y &&& ~~~z)
def md5H (x y z : UInt32) : UInt32 := x ^^^ y ^^^ z
def md5I (x y z : UInt32) : UInt32 := y ^^^ (x ||| ~~~z)

def ROTATE_LEFT (x n : UInt32) : UInt32 := (x <<< n) ||| (x >>> (32 - n))

structure Md5Words where
  a : UInt32
  b : UInt32
  c : UInt32
  d : UInt32

/-- The macros `FF`, `GG`, `HH` and `II` by their function, on a line of the table: the index into `x`, the rotation
and the constant. The next line names the registers `d, a, b, c`. -/
def md5Line (f : UInt32 → UInt32 → UInt32 → UInt32) (x : List UInt32) (w : Md5Words) (line : ℕ × UInt32 × UInt32) :
    Md5Words :=
  ⟨w.d, ROTATE_LEFT (w.a + (f w.b w.c w.d + x.getD line.1 0 + line.2.2)) line.2.1 + w.b, w.b, w.c⟩

def round1 : List (ℕ × UInt32 × UInt32) :=
  [(0, 7, 0xd76aa478), (1, 12, 0xe8c7b756), (2, 17, 0x242070db), (3, 22, 0xc1bdceee),
    (4, 7, 0xf57c0faf), (5, 12, 0x4787c62a), (6, 17, 0xa8304613), (7, 22, 0xfd469501),
    (8, 7, 0x698098d8), (9, 12, 0x8b44f7af), (10, 17, 0xffff5bb1), (11, 22, 0x895cd7be),
    (12, 7, 0x6b901122), (13, 12, 0xfd987193), (14, 17, 0xa679438e), (15, 22, 0x49b40821)]

def round2 : List (ℕ × UInt32 × UInt32) :=
  [(1, 5, 0xf61e2562), (6, 9, 0xc040b340), (11, 14, 0x265e5a51), (0, 20, 0xe9b6c7aa),
    (5, 5, 0xd62f105d), (10, 9, 0x02441453), (15, 14, 0xd8a1e681), (4, 20, 0xe7d3fbc8),
    (9, 5, 0x21e1cde6), (14, 9, 0xc33707d6), (3, 14, 0xf4d50d87), (8, 20, 0x455a14ed),
    (13, 5, 0xa9e3e905), (2, 9, 0xfcefa3f8), (7, 14, 0x676f02d9), (12, 20, 0x8d2a4c8a)]

def round3 : List (ℕ × UInt32 × UInt32) :=
  [(5, 4, 0xfffa3942), (8, 11, 0x8771f681), (11, 16, 0x6d9d6122), (14, 23, 0xfde5380c),
    (1, 4, 0xa4beea44), (4, 11, 0x4bdecfa9), (7, 16, 0xf6bb4b60), (10, 23, 0xbebfbc70),
    (13, 4, 0x289b7ec6), (0, 11, 0xeaa127fa), (3, 16, 0xd4ef3085), (6, 23, 0x04881d05),
    (9, 4, 0xd9d4d039), (12, 11, 0xe6db99e5), (15, 16, 0x1fa27cf8), (2, 23, 0xc4ac5665)]

def round4 : List (ℕ × UInt32 × UInt32) :=
  [(0, 6, 0xf4292244), (7, 10, 0x432aff97), (14, 15, 0xab9423a7), (5, 21, 0xfc93a039),
    (12, 6, 0x655b59c3), (3, 10, 0x8f0ccc92), (10, 15, 0xffeff47d), (1, 21, 0x85845dd1),
    (8, 6, 0x6fa87e4f), (15, 10, 0xfe2ce6e0), (6, 15, 0xa3014314), (13, 21, 0x4e0811a1),
    (4, 6, 0xf7537e82), (11, 10, 0xbd3af235), (2, 15, 0x2ad7d2bb), (9, 21, 0xeb86d391)]

/-- `Decode` of a block. -/
def Decode (block : Bytes) : List UInt32 :=
  (List.range 16).map fun i => (block.getD (4 * i) 0).toUInt32 ||| ((block.getD (4 * i + 1) 0).toUInt32 <<< 8) |||
    ((block.getD (4 * i + 2) 0).toUInt32 <<< 16) ||| ((block.getD (4 * i + 3) 0).toUInt32 <<< 24)

def startWords5 (state : Vector UInt32 4) : Md5Words := ⟨state[0], state[1], state[2], state[3]⟩

def addWords5 (state : Vector UInt32 4) (w : Md5Words) : Vector UInt32 4 :=
  #v[state[0] + w.a, state[1] + w.b, state[2] + w.c, state[3] + w.d]

def MD5Transform (state : Vector UInt32 4) (block : Bytes) : Vector UInt32 4 :=
  let x := Decode block
  let w := round1.foldl (md5Line md5F x) (startWords5 state)
  let w := round2.foldl (md5Line md5G x) w
  let w := round3.foldl (md5Line md5H x) w
  addWords5 state (round4.foldl (md5Line md5I x) w)

/-- The bytes that `Encode` writes for a word. -/
def encodeWord (w : UInt32) : Bytes := [w.toUInt8, (w >>> 8).toUInt8, (w >>> 16).toUInt8, (w >>> 24).toUInt8]

/-- `Encode` of the state. -/
def encodeState (s : Vector UInt32 4) : Vector UInt8 16 :=
  #v[s[0].toUInt8, (s[0] >>> 8).toUInt8, (s[0] >>> 16).toUInt8, (s[0] >>> 24).toUInt8,
    s[1].toUInt8, (s[1] >>> 8).toUInt8, (s[1] >>> 16).toUInt8, (s[1] >>> 24).toUInt8,
    s[2].toUInt8, (s[2] >>> 8).toUInt8, (s[2] >>> 16).toUInt8, (s[2] >>> 24).toUInt8,
    s[3].toUInt8, (s[3] >>> 8).toUInt8, (s[3] >>> 16).toUInt8, (s[3] >>> 24).toUInt8]

def WsockMD5Init (context : MD5_CTX) : MD5_CTX :=
  { context with state := #v[0x67452301, 0xefcdab89, 0x98badcfe, 0x10325476], count0 := 0, count1 := 0 }

/-- `for (i = partLen; i + 63 < inputLen; i += 64)`; the sum is one of 32-bit numbers. -/
def transformLoop (input : Bytes) (i : ℕ) (state : Vector UInt32 4) : Option (ℕ × Vector UInt32 4) :=
  if (i + 63) % 2 ^ 32 < input.length then
    if i + 64 ≤ input.length then transformLoop input (i + 64) (MD5Transform state ((input.drop i).take 64))
    else none
  else some (i, state)
termination_by input.length - i

/-- `inputLen` is the length of `input`. -/
def WsockMD5Update (context : MD5_CTX) (input : Bytes) : Option MD5_CTX :=
  let bits := UInt32.ofNat input.length <<< 3
  let index := ((context.count0 >>> 3) &&& 0x3F).toNat
  let count0 := context.count0 + bits
  let count1 := if count0 < bits then context.count1 + 1 else context.count1
  let count1 := count1 + (UInt32.ofNat input.length >>> 29)
  let partLen := 64 - index
  if partLen ≤ input.length then
    (store context.buffer index (input.take partLen)).bind fun buffer =>
      (transformLoop input partLen (MD5Transform context.state buffer)).bind fun r =>
        (store buffer 0 (input.drop r.1)).map fun buffer => ⟨r.2, count0, count1, buffer⟩
  else (store context.buffer index input).map fun buffer => ⟨context.state, count0, count1, buffer⟩

/-- The digest, and the context, which is cleared. -/
def WsockMD5Final (context : MD5_CTX) : Option (Vector UInt8 16 × MD5_CTX) := do
  let bits := encodeWord context.count0 ++ encodeWord context.count1
  let index := ((context.count0 >>> 3) &&& 0x3F).toNat
  let padLen := if index < 56 then 56 - index else 120 - index
  let context ← WsockMD5Update context (PADDING.take padLen)
  let context ← WsockMD5Update context bits
  return (encodeState context.state, ⟨Vector.replicate 4 0, 0, 0, List.replicate 64 0⟩)

/-- `context` is what the stack holds. -/
def WsockMDData (context : MD5_CTX) (data : Bytes) : Option (Vector UInt8 16) := do
  let context ← WsockMD5Update (WsockMD5Init context) data
  let r ← WsockMD5Final context
  return r.1

/-! ## RFC 1321 -/

/-- The constants `T[1]` to `T[64]`. -/
def rfcT : List UInt32 :=
  [0xd76aa478, 0xe8c7b756, 0x242070db, 0xc1bdceee, 0xf57c0faf, 0x4787c62a, 0xa8304613, 0xfd469501,
    0x698098d8, 0x8b44f7af, 0xffff5bb1, 0x895cd7be, 0x6b901122, 0xfd987193, 0xa679438e, 0x49b40821,
    0xf61e2562, 0xc040b340, 0x265e5a51, 0xe9b6c7aa, 0xd62f105d, 0x02441453, 0xd8a1e681, 0xe7d3fbc8,
    0x21e1cde6, 0xc33707d6, 0xf4d50d87, 0x455a14ed, 0xa9e3e905, 0xfcefa3f8, 0x676f02d9, 0x8d2a4c8a,
    0xfffa3942, 0x8771f681, 0x6d9d6122, 0xfde5380c, 0xa4beea44, 0x4bdecfa9, 0xf6bb4b60, 0xbebfbc70,
    0x289b7ec6, 0xeaa127fa, 0xd4ef3085, 0x04881d05, 0xd9d4d039, 0xe6db99e5, 0x1fa27cf8, 0xc4ac5665,
    0xf4292244, 0x432aff97, 0xab9423a7, 0xfc93a039, 0x655b59c3, 0x8f0ccc92, 0xffeff47d, 0x85845dd1,
    0x6fa87e4f, 0xfe2ce6e0, 0xa3014314, 0x4e0811a1, 0xf7537e82, 0xbd3af235, 0x2ad7d2bb, 0xeb86d391]

/-- The index into the block, the rotation and the constant of step `i`. -/
def rfcLine (i : ℕ) : ℕ × UInt32 × UInt32 :=
  (match i / 16 with
    | 0 => i % 16
    | 1 => (5 * i + 1) % 16
    | 2 => (3 * i + 5) % 16
    | _ => 7 * i % 16,
  match i / 16, i % 4 with
    | 0, 0 => 7 | 0, 1 => 12 | 0, 2 => 17 | 0, _ => 22
    | 1, 0 => 5 | 1, 1 => 9 | 1, 2 => 14 | 1, _ => 20
    | 2, 0 => 4 | 2, 1 => 11 | 2, 2 => 16 | 2, _ => 23
    | _, 0 => 6 | _, 1 => 10 | _, 2 => 15 | _, _ => 21,
  rfcT.getD i 0)

/-- The function of step `i`. -/
def rfcF (i : ℕ) : UInt32 → UInt32 → UInt32 → UInt32 :=
  match i / 16 with
  | 0 => md5F
  | 1 => md5G
  | 2 => md5H
  | _ => md5I

def rfcBlock (state : Vector UInt32 4) (block : Bytes) : Vector UInt32 4 :=
  addWords5 state ((List.range 64).foldl (fun w i => md5Line (rfcF i) (Decode block) w (rfcLine i))
    (startWords5 state))

def rfcStart : Vector UInt32 4 := #v[0x67452301, 0xefcdab89, 0x98badcfe, 0x10325476]

/-- The length in bits modulo 2 ^ 64, the low word first. -/
def lengthField (n : ℕ) : Bytes :=
  encodeWord (UInt32.ofNat (8 * n)) ++ encodeWord (UInt32.ofNat (8 * n / 2 ^ 32))

/-- The digest of a message. -/
def md5 (message : Bytes) : Vector UInt8 16 :=
  encodeState (absorb 64 rfcBlock rfcStart (blockPadded 64 0x80 0 (lengthField message.length) message)).1

example : (WsockMDData ⟨Vector.replicate 4 1, 2, 3, List.replicate 64 4⟩ (ascii "abc")).map (·.toList) =
    some [0x90, 0x01, 0x50, 0x98, 0x3c, 0xd2, 0x4f, 0xb0, 0xd6, 0x96, 0x3f, 0x7d, 0x28, 0xe1, 0x7f, 0x72] := by
  decide +kernel

/-! ## The transformation -/

/-- The lines of the four tables are the steps of the standard. -/
theorem rounds_eq : round1 = (List.range' 0 16).map rfcLine ∧ round2 = (List.range' 16 16).map rfcLine ∧
    round3 = (List.range' 32 16).map rfcLine ∧ round4 = (List.range' 48 16).map rfcLine := by decide

/-- A table with its function. -/
theorem fold_round {f : UInt32 → UInt32 → UInt32 → UInt32} (x : List UInt32) (a : ℕ)
    (hf : ∀ i, a ≤ i → i < a + 16 → rfcF i = f) (w : Md5Words) :
    ((List.range' a 16).map rfcLine).foldl (md5Line f x) w =
      (List.range' a 16).foldl (fun w i => md5Line (rfcF i) x w (rfcLine i)) w := by
  rw [List.foldl_map]
  apply List.foldl_ext
  intro w i hi
  have hmem := List.mem_range'_1.mp hi
  rw [hf i hmem.1 hmem.2]

/-- **A block** is transformed by the sixty-four steps of the standard. -/
theorem transform_eq (state : Vector UInt32 4) (block : Bytes) : MD5Transform state block = rfcBlock state block := by
  have hparts : List.range 64 = List.range' 0 16 ++ (List.range' 16 16 ++ (List.range' 32 16 ++ List.range' 48 16)) := by
    decide
  have h1 : ∀ i, 0 ≤ i → i < 0 + 16 → rfcF i = md5F := fun i _ _ => by
    rw [rfcF, show i / 16 = 0 by omega]
    rfl
  have h2 : ∀ i, 16 ≤ i → i < 16 + 16 → rfcF i = md5G := fun i _ _ => by
    rw [rfcF, show i / 16 = 1 by omega]
    rfl
  have h3 : ∀ i, 32 ≤ i → i < 32 + 16 → rfcF i = md5H := fun i _ _ => by
    rw [rfcF, show i / 16 = 2 by omega]
    rfl
  have h4 : ∀ i, 48 ≤ i → i < 48 + 16 → rfcF i = md5I := fun i _ _ => by
    rw [rfcF, show i / 16 = 3 by omega]
    rfl
  obtain ⟨hr1, hr2, hr3, hr4⟩ := rounds_eq
  rw [MD5Transform, rfcBlock, hr1, hr2, hr3, hr4, hparts]
  simp only [List.foldl_append, fold_round _ 0 h1, fold_round _ 16 h2, fold_round _ 32 h3, fold_round _ 48 h4]

/-! ## The context -/

/-- A context that has been given the message `x`. -/
structure Takes (context : MD5_CTX) (x : Bytes) : Prop where
  state : absorb 64 rfcBlock rfcStart x = (context.state, context.buffer.take (x.length % 64))
  size : context.buffer.length = 64
  bits : context.count1.toNat * 2 ^ 32 + context.count0.toNat = 8 * x.length % 2 ^ 64

section Context

variable {context : MD5_CTX} {x : Bytes}

theorem takes_init (hsize : context.buffer.length = 64) : Takes (WsockMD5Init context) [] where
  state := by
    rw [absorb_short rfcStart (by decide), List.length_nil, Nat.zero_mod, List.take_zero]
    rfl
  size := hsize
  bits := by rw [WsockMD5Init, UInt32.toNat_zero, Nat.zero_mul, List.length_nil, Nat.mul_zero, Nat.zero_mod]

/-- The bytes in the buffer are counted by the bits. -/
theorem Takes.index (h : Takes context x) : ((context.count0 >>> 3) &&& 0x3F).toNat = x.length % 64 := by
  have hbits := h.bits
  have hlow := context.count0.toNat_lt
  have hand : ((context.count0 >>> 3) &&& 0x3F).toNat = context.count0.toNat / 8 % 64 := by
    rw [UInt32.toNat_and, UInt32.toNat_shiftRight, show (0x3F : UInt32).toNat = 2 ^ 6 - 1 by decide,
      Nat.and_two_pow_sub_one_eq_mod, Nat.shiftRight_eq_div_pow]
    rfl
  omega

theorem two_words (a : ℕ) {b : ℕ} (hb : b < 2 ^ 32) : (a * 2 ^ 32 + b) % 2 ^ 64 = a % 2 ^ 32 * 2 ^ 32 + b := by
  omega

theorem carry_words {l h n k : ℕ} (hn : h * 2 ^ 32 + l = 8 * n % 2 ^ 64) :
    8 * (n + k) % 2 ^ 64 = (h + k / 2 ^ 29 + (l + 8 * k % 2 ^ 32) / 2 ^ 32) % 2 ^ 32 * 2 ^ 32 +
      (l + 8 * k % 2 ^ 32) % 2 ^ 32 := by
  have hk : 2 ^ 32 * (k / 2 ^ 29) + 8 * k % 2 ^ 32 = 8 * k := by
    rw [show k / 2 ^ 29 = 8 * k / 2 ^ 32 from (Nat.mul_div_mul_left k (2 ^ 29) (show 0 < 8 by decide)).symm,
      Nat.div_add_mod]
  have hdiv := Nat.div_add_mod (l + 8 * k % 2 ^ 32) (2 ^ 32)
  have hmod := Nat.mod_lt (l + 8 * k % 2 ^ 32) (show 0 < 2 ^ 32 by decide)
  rw [Nat.mul_add, ← Nat.mod_add_mod, ← hn]
  generalize (l + 8 * k % 2 ^ 32) / 2 ^ 32 = carry at hdiv ⊢
  generalize (l + 8 * k % 2 ^ 32) % 2 ^ 32 = low at hdiv hmod ⊢
  generalize 8 * k % 2 ^ 32 = r at hk hdiv
  have hsum : h * 2 ^ 32 + l + 8 * k = (h + k / 2 ^ 29 + carry) * 2 ^ 32 + low := by
    generalize k / 2 ^ 29 = q at hk ⊢
    clear hn hmod
    omega
  rw [hsum, two_words _ hmod]

/-- The two words of the count, with the carry. -/
theorem count_update {low high : UInt32} {n k : ℕ} (h : high.toNat * 2 ^ 32 + low.toNat = 8 * n % 2 ^ 64)
    (hk : k < 2 ^ 32) : ((if low + (UInt32.ofNat k <<< 3) < UInt32.ofNat k <<< 3 then high + 1 else high) +
      (UInt32.ofNat k >>> 29)).toNat * 2 ^ 32 + (low + (UInt32.ofNat k <<< 3)).toNat = 8 * (n + k) % 2 ^ 64 := by
  have hl := low.toNat_lt
  have hnat : (UInt32.ofNat k).toNat = k := by rw [UInt32.toNat_ofNat', Nat.mod_eq_of_lt hk]
  have hshl : (UInt32.ofNat k <<< 3).toNat = 8 * k % 2 ^ 32 := by
    rw [UInt32.toNat_shiftLeft, hnat, show (3 : UInt32).toNat % 32 = 3 by decide, Nat.shiftLeft_eq, Nat.mul_comm]
  have hshr : (UInt32.ofNat k >>> 29).toNat = k / 2 ^ 29 := by
    rw [UInt32.toNat_shiftRight, hnat, show (29 : UInt32).toNat % 32 = 29 by decide, Nat.shiftRight_eq_div_pow]
  have hlow : (low + (UInt32.ofNat k <<< 3)).toNat = (low.toNat + 8 * k % 2 ^ 32) % 2 ^ 32 := by
    rw [UInt32.toNat_add, hshl]
  have hone : (high + 1).toNat = (high.toNat + 1) % 2 ^ 32 := UInt32.toNat_add high 1
  have hr := Nat.mod_lt (8 * k) (show 0 < 2 ^ 32 by decide)
  rw [UInt32.toNat_add, hshr, hlow, carry_words h]
  -- the sum wraps iff it is less than what was added
  by_cases hcarry : low + (UInt32.ofNat k <<< 3) < UInt32.ofNat k <<< 3
  · rw [if_pos hcarry, hone, Nat.mod_add_mod]
    rw [UInt32.lt_iff_toNat_lt, hlow, hshl] at hcarry
    have hover : (low.toNat + 8 * k % 2 ^ 32) / 2 ^ 32 = 1 := by omega
    rw [hover, Nat.add_right_comm]
  · rw [if_neg hcarry]
    rw [UInt32.lt_iff_toNat_lt, hlow, hshl] at hcarry
    have hover : (low.toNat + 8 * k % 2 ^ 32) / 2 ^ 32 = 0 := by omega
    rw [hover, Nat.add_zero]

/-- The whole blocks of the input. -/
theorem transformLoop_eq {input : Bytes} (hlen : input.length + 64 ≤ 2 ^ 32) (i : ℕ) : ∀ (s : Vector UInt32 4),
    i ≤ input.length → ∃ j, transformLoop input i s = some (j, (absorb 64 rfcBlock s (input.drop i)).1) ∧
      j ≤ input.length ∧ (absorb 64 rfcBlock s (input.drop i)).2 = input.drop j := by
  induction h : input.length - i using Nat.strongRecOn generalizing i with
  | _ n ih =>
    intro s hi
    by_cases hblock : i + 64 ≤ input.length
    · have hb : ((input.drop i).take 64).length = 64 := by
        rw [List.length_take, List.length_drop]
        omega
      have hsplit : input.drop i = (input.drop i).take 64 ++ input.drop (i + 64) := by
        rw [← List.drop_drop, List.take_append_drop]
      obtain ⟨j, hj, hle, hrest⟩ := ih _ (by omega) (i + 64) rfl (rfcBlock s ((input.drop i).take 64)) hblock
      rw [transformLoop, if_pos (by omega), if_pos hblock, transform_eq, hj, hsplit,
        absorb_block (by decide) s hb]
      rw [← hsplit]
      exact ⟨j, rfl, hle, hrest⟩
    · have hshort : (input.drop i).length < 64 := by
        rw [List.length_drop]
        omega
      rw [transformLoop, if_neg (by omega), absorb_short s hshort]
      exact ⟨i, rfl, hi, rfl⟩

/-- **A piece**, whatever its length and the state of the buffer. -/
theorem update_takes (h : Takes context x) {p : Bytes} (hp : p.length + 64 ≤ 2 ^ 32) :
    ∃ context', WsockMD5Update context p = some context' ∧ Takes context' (x ++ p) := by
  have hmod := Nat.mod_lt x.length (show 0 < 64 by decide)
  have hbits := count_update h.bits (show p.length < 2 ^ 32 by omega)
  rw [← List.length_append] at hbits
  have happend := @absorb_append _ _ 64 rfcBlock (by decide) x p rfcStart
  rw [h.state] at happend
  have hrest : (context.buffer.take (x.length % 64)).length = x.length % 64 := by
    rw [List.length_take, h.size]
    omega
  simp only [WsockMD5Update, h.index]
  by_cases hfull : 64 - x.length % 64 ≤ p.length
  · -- the buffer is filled, then the blocks of the input
    have hpart : (p.take (64 - x.length % 64)).length = 64 - x.length % 64 := List.length_take_of_le hfull
    obtain ⟨buffer, hst⟩ : ∃ buffer, store context.buffer (x.length % 64) (p.take (64 - x.length % 64)) = some buffer :=
      ⟨_, store_of_le (by rw [hpart, h.size]; omega)⟩
    have hbuffer : buffer = context.buffer.take (x.length % 64) ++ p.take (64 - x.length % 64) := by
      have htake := store_take hst
      rw [hpart, show x.length % 64 + (64 - x.length % 64) = 64 by omega] at htake
      rwa [List.take_of_length_le ((store_length hst).trans h.size).le] at htake
    have hwhole : buffer.length = 64 := (store_length hst).trans h.size
    obtain ⟨j, hloop, hj, hdrop⟩ := transformLoop_eq hp (64 - x.length % 64) (rfcBlock context.state buffer) hfull
    have hsplit : context.buffer.take (x.length % 64) ++ p = buffer ++ p.drop (64 - x.length % 64) := by
      rw [hbuffer, List.append_assoc, List.take_append_drop]
    dsimp only at happend
    rw [hsplit, absorb_block (by decide) _ hwhole] at happend
    have hleft : (p.drop j).length = (x ++ p).length % 64 := by
      rw [← hdrop, ← congrArg Prod.snd happend, absorb_rest_length (by decide)]
    obtain ⟨buffer', hst'⟩ : ∃ buffer', store buffer 0 (p.drop j) = some buffer' :=
      ⟨_, store_of_le (by rw [hleft, hwhole]; omega)⟩
    have htake' := store_take hst'
    rw [hleft, Nat.zero_add, List.take_zero, List.nil_append] at htake'
    rw [if_pos hfull, hst, Option.bind_some, transform_eq, hloop, Option.bind_some, hst', Option.map_some]
    refine ⟨_, rfl, ?_, (store_length hst').trans hwhole, hbits⟩
    rw [happend, htake', ← hdrop]
  · -- all of it waits
    obtain ⟨buffer, hst⟩ : ∃ buffer, store context.buffer (x.length % 64) p = some buffer :=
      ⟨_, store_of_le (by rw [h.size]; omega)⟩
    have htake := store_take hst
    have hshort : (context.buffer.take (x.length % 64) ++ p).length < 64 := by
      rw [List.length_append, hrest]
      omega
    dsimp only at happend
    rw [absorb_short _ hshort] at happend
    have hleft : (x ++ p).length % 64 = x.length % 64 + p.length := by
      rw [List.length_append, Nat.add_mod, Nat.mod_eq_of_lt (a := p.length) (by omega), Nat.mod_eq_of_lt (by omega)]
    rw [if_neg hfull, hst, Option.map_some]
    refine ⟨_, rfl, ?_, (store_length hst).trans h.size, hbits⟩
    rw [happend, hleft, htake]

end Context

/-! ## The digest -/

theorem lengthField_length (n : ℕ) : (lengthField n).length = 8 := rfl

/-- The length as it is stored. -/
theorem lengthField_eq {low high : UInt32} {n : ℕ} (h : high.toNat * 2 ^ 32 + low.toNat = 8 * n % 2 ^ 64) :
    encodeWord low ++ encodeWord high = lengthField n := by
  have hl := low.toNat_lt
  have hh := high.toNat_lt
  have hlow : UInt32.ofNat (8 * n) = low := by
    apply UInt32.toNat.inj
    rw [UInt32.toNat_ofNat']
    omega
  have hhigh : UInt32.ofNat (8 * n / 2 ^ 32) = high := by
    apply UInt32.toNat.inj
    rw [UInt32.toNat_ofNat']
    omega
  rw [lengthField, hlow, hhigh]

/-- The padding and the length, put behind the message. -/
theorem padded_eq (x : Bytes) : x ++ PADDING.take (if x.length % 64 < 56 then 56 - x.length % 64 else
    120 - x.length % 64) ++ lengthField x.length = blockPadded 64 0x80 0 (lengthField x.length) x := by
  have hmod := Nat.mod_lt x.length (show 0 < 64 by decide)
  have hpad : ∀ n, n < 64 → PADDING.take (n + 1) = 0x80 :: List.replicate n 0 := by
    intro n hn
    rw [PADDING, List.take_succ_cons, List.take_replicate, Nat.min_eq_left (by omega)]
  rw [blockPadded, fill_eq (by rw [lengthField_length]; decide), lengthField_length]
  by_cases hshort : x.length % 64 < 56
  · rw [if_pos hshort, if_pos (by omega), show 56 - x.length % 64 = (64 - 1 - 8 - x.length % 64) + 1 by omega,
      hpad _ (by omega), List.append_assoc, List.cons_append]
  · rw [if_neg hshort, if_neg (by omega), show 120 - x.length % 64 = (2 * 64 - 1 - 8 - x.length % 64) + 1 by omega,
      hpad _ (by omega), List.append_assoc, List.cons_append]

/-- **`WsockMD5Final`** gives the digest of the message. -/
theorem final_takes {context : MD5_CTX} {x : Bytes} (h : Takes context x) :
    ∃ context', WsockMD5Final context = some (md5 x, context') := by
  have hmod := Nat.mod_lt x.length (show 0 < 64 by decide)
  have hfield := lengthField_eq h.bits
  obtain ⟨context₁, hpad, h₁⟩ := update_takes h (p := PADDING.take (if x.length % 64 < 56 then 56 - x.length % 64 else
    120 - x.length % 64)) ((Nat.add_le_add_right (List.length_take_le' _ _) 64).trans (by decide))
  obtain ⟨context₂, hlen, h₂⟩ := update_takes h₁ (p := lengthField x.length) (by rw [lengthField_length]; decide)
  rw [padded_eq] at h₂
  refine ⟨⟨Vector.replicate 4 0, 0, 0, List.replicate 64 0⟩, ?_⟩
  simp only [WsockMD5Final, h.index, hpad, hfield, Option.bind_eq_bind, Option.bind_some, hlen, Option.pure_def, md5,
    h₂.state]

/-- The pieces one after the other. -/
def updateAll : MD5_CTX → List Bytes → Option MD5_CTX
  | context, [] => some context
  | context, p :: pieces => (WsockMD5Update context p).bind fun context => updateAll context pieces

theorem updateAll_takes (pieces : List Bytes) (hp : ∀ p ∈ pieces, p.length + 64 ≤ 2 ^ 32) :
    ∀ {context : MD5_CTX} {x : Bytes}, Takes context x →
      ∃ context', updateAll context pieces = some context' ∧ Takes context' (x ++ pieces.flatten) := by
  induction pieces with
  | nil => exact fun h => ⟨_, rfl, by rwa [List.flatten_nil, List.append_nil]⟩
  | cons p pieces ih =>
    intro context x h
    obtain ⟨context₁, hup, h₁⟩ := update_takes h (hp p List.mem_cons_self)
    obtain ⟨context', hall, h'⟩ := ih (fun q hq => hp q (List.mem_cons_of_mem p hq)) h₁
    rw [updateAll, hup, Option.bind_some]
    rw [List.append_assoc, ← List.flatten_cons] at h'
    exact ⟨context', hall, h'⟩

/-- **However the message is cut**, its digest is that of the message as a whole. -/
theorem md5_pieces (context : MD5_CTX) (hsize : context.buffer.length = 64) (pieces : List Bytes)
    (hp : ∀ p ∈ pieces, p.length + 64 ≤ 2 ^ 32) :
    ∃ context', (updateAll (WsockMD5Init context) pieces).bind WsockMD5Final =
      some (md5 pieces.flatten, context') := by
  obtain ⟨context₁, hall, h₁⟩ := updateAll_takes pieces hp (takes_init hsize)
  rw [List.nil_append] at h₁
  rw [hall, Option.bind_some]
  exact final_takes h₁

/-- What is on the stack of `WsockMDData`. -/
def stackContext : MD5_CTX := ⟨Vector.replicate 4 0xAA, 0xAA, 0xAA, List.replicate 64 0xAA⟩

/-- Pieces that end inside a block, fill it, and go over two of them. -/
theorem md5_pieces_three : ∃ context', (updateAll (WsockMD5Init stackContext)
    [ascii "abc", List.replicate 61 7, List.replicate 130 9]).bind WsockMD5Final =
      some (md5 [ascii "abc", List.replicate 61 7, List.replicate 130 9].flatten, context') :=
  md5_pieces stackContext rfl _ (by decide +kernel)

/-- In one piece. -/
theorem wsockMDData_eq {context : MD5_CTX} (hsize : context.buffer.length = 64) {data : Bytes}
    (hdata : data.length + 64 ≤ 2 ^ 32) : WsockMDData context data = some (md5 data) := by
  obtain ⟨context₁, hup, h₁⟩ := update_takes (takes_init hsize) hdata
  obtain ⟨context', hfinal⟩ := final_takes h₁
  rw [List.nil_append] at hfinal
  rw [WsockMDData, hup]
  simp only [Option.bind_eq_bind, Option.bind_some, hfinal, Option.pure_def]

end Esp32Base
