import Mathlib.Data.List.Basic
import Mathlib.Data.List.TakeWhile
import Mathlib.Data.List.TakeDrop

/-!
# Lib.Buf — C byte objects as lists

An object of the C program (an array, a `malloc`ed block) is the list of its bytes.  A read or a
write that leaves the object is undefined behaviour and shows as `none`, so a run that ends in
`some _` has stayed inside its objects.  A C string is the text in front of the first NUL.
-/

namespace Lib

abbrev Bytes := List UInt8

/-- The bytes of an ASCII literal. -/
def ascii (s : String) : Bytes := s.toList.map fun c => UInt8.ofNat c.toNat

/-- What holds of all numbers below 256 holds of all bytes. -/
theorem forall_byte {p : UInt8 → Prop} (h : ∀ n < 256, p (UInt8.ofNat n)) (c : UInt8) : p c := by
  have hc := h c.toNat c.toNat_lt
  rwa [UInt8.ofNat_toNat] at hc

namespace Buf

/-! ## Blocks -/

/-- `malloc`: `n` bytes that hold whatever they held before. -/
def alloc (garbage : ℕ → UInt8) (n : ℕ) : Bytes := (List.range n).map garbage

@[simp] theorem alloc_length (garbage : ℕ → UInt8) (n : ℕ) : (alloc garbage n).length = n := by
  rw [alloc, List.length_map, List.length_range]

/-- Read the `n` bytes from index `off` on. -/
def load (m : Bytes) (off n : ℕ) : Option Bytes :=
  if off + n ≤ m.length then some ((m.drop off).take n) else none

/-- `memcpy` of `src` to index `off`. -/
def store (m : Bytes) (off : ℕ) (src : Bytes) : Option Bytes :=
  if off + src.length ≤ m.length then some (m.take off ++ src ++ m.drop (off + src.length)) else none

/-- The ascending copy of `n` bytes inside one object, from `src` to `dst ≤ src`. -/
def moveDown (m : Bytes) (dst src n : ℕ) : Option Bytes := (load m src n).bind (store m dst)

theorem load_of_le {m : Bytes} {off n : ℕ} (h : off + n ≤ m.length) :
    load m off n = some ((m.drop off).take n) := if_pos h

theorem load_eq_some {m b : Bytes} {off n : ℕ} (h : load m off n = some b) :
    off + n ≤ m.length ∧ b = (m.drop off).take n := by
  unfold load at h
  split_ifs at h with hle
  exact ⟨hle, (Option.some.inj h).symm⟩

/-- A read that ends inside the first part of an object does not see what follows. -/
theorem load_append {x : Bytes} (y : Bytes) {off n : ℕ} (h : off + n ≤ x.length) :
    load (x ++ y) off n = load x off n := by
  rw [load_of_le h, load_of_le (by rw [List.length_append]; omega),
    List.drop_append_of_le_length (by omega),
    List.take_append_of_le_length (by rw [List.length_drop]; omega)]

/-- What lies at an index, read off the rest of the object from there on. -/
theorem getElem?_of_drop {m l : Bytes} {k : ℕ} {c : UInt8} (h : m.drop k = c :: l) : m[k]? = some c := by
  have hk : (m.drop k)[0]? = some c := by
    rw [h]
    rfl
  rwa [List.getElem?_drop, Nat.add_zero] at hk

theorem load_of_drop {m b r : Bytes} {off : ℕ} (h : m.drop off = b ++ r) (hb : b ≠ []) :
    load m off b.length = some b := by
  have hl := congrArg List.length h
  have h0 := List.length_pos_iff.mpr hb
  rw [List.length_drop, List.length_append] at hl
  rw [load_of_le (by omega), h, List.take_left]

theorem load_mid (p q r : Bytes) : load (p ++ q ++ r) p.length q.length = some q := by
  rw [load_of_le (by simp)]
  simp [List.append_assoc]

theorem store_of_le {m src : Bytes} {off : ℕ} (h : off + src.length ≤ m.length) :
    store m off src = some (m.take off ++ src ++ m.drop (off + src.length)) := if_pos h

theorem store_eq_some {m src m' : Bytes} {off : ℕ} (h : store m off src = some m') :
    off + src.length ≤ m.length ∧ m' = m.take off ++ src ++ m.drop (off + src.length) := by
  unfold store at h
  split_ifs at h with hle
  exact ⟨hle, (Option.some.inj h).symm⟩

theorem store_length {m src m' : Bytes} {off : ℕ} (h : store m off src = some m') :
    m'.length = m.length := by
  obtain ⟨hle, rfl⟩ := store_eq_some h
  simp only [List.length_append, List.length_take, List.length_drop]
  omega

/-- The write of one byte. -/
theorem store_byte {m : Bytes} {off : ℕ} {v : UInt8} (h : off < m.length) : store m off [v] = some (m.set off v) := by
  rw [store_of_le h, List.set_eq_take_append_cons_drop, if_pos h, List.append_assoc]
  rfl

/-- A write right behind a known prefix extends the prefix and eats into the rest. -/
theorem store_append {p rest src : Bytes} (h : src.length ≤ rest.length) :
    store (p ++ rest) p.length src = some (p ++ src ++ rest.drop src.length) := by
  rw [store_of_le (by rw [List.length_append]; omega), List.take_left, List.drop_append]
  simp

/-- A write changes nothing behind it. -/
theorem store_drop {m src m' : Bytes} {off k : ℕ} (h : store m off src = some m')
    (hk : off + src.length ≤ k) : m'.drop k = m.drop k := by
  obtain ⟨hle, rfl⟩ := store_eq_some h
  have hl : (m.take off ++ src).length = off + src.length := by
    rw [List.length_append, List.length_take]
    omega
  rw [List.drop_append, List.drop_eq_nil_of_le (by omega), hl, List.nil_append, List.drop_drop]
  congr 1
  omega

/-- A read behind a write. -/
theorem load_store_behind {m src m' : Bytes} {off k : ℕ} (h : store m off src = some m')
    (hk : off + src.length ≤ k) (n : ℕ) : load m' k n = load m k n := by
  unfold load
  rw [store_length h, store_drop h hk]

/-- A write extends what lies in front of it. -/
theorem store_take {m src m' : Bytes} {off : ℕ} (h : store m off src = some m') :
    m'.take (off + src.length) = m.take off ++ src := by
  obtain ⟨hle, rfl⟩ := store_eq_some h
  refine List.take_left' ?_
  rw [List.length_append, List.length_take]
  omega

/-- A write changes nothing in front of it. -/
theorem store_take_le {m src m' : Bytes} {off k : ℕ} (h : store m off src = some m') (hk : k ≤ off) :
    m'.take k = m.take k := by
  obtain ⟨hle, rfl⟩ := store_eq_some h
  rw [List.append_assoc, List.take_append_of_le_length (by rw [List.length_take]; omega),
    List.take_take, Nat.min_eq_left hk]

theorem moveDown_length {m m' : Bytes} {dst src n : ℕ} (h : moveDown m dst src n = some m') :
    m'.length = m.length := by
  obtain ⟨b, -, hb⟩ := Option.bind_eq_some_iff.mp h
  exact store_length hb

/-- Dropping the first `k` of `x.length` live bytes: the live part moves to the front and the bytes
behind it stay what they were. -/
theorem moveDown_drop {x : Bytes} (rest : Bytes) {k : ℕ} (hk : k ≤ x.length) :
    moveDown (x ++ rest) 0 k (x.length - k) =
      some (x.drop k ++ (x ++ rest).drop (x.length - k)) := by
  have hl : (x.drop k).length = x.length - k := List.length_drop
  have hload : load (x ++ rest) k (x.length - k) = some (x.drop k) := by
    rw [load_append rest (by omega), load_of_le (by omega), ← hl, List.take_length]
  unfold moveDown
  rw [hload, Option.bind_some, store_of_le (by simp; omega), hl]
  simp

/-! ## Scanning for a byte -/

/-- `for (i = 0; i < n; i++) if (m[i] == b) break;` — the index at which the loop stops. -/
def findByte (b : UInt8) : Bytes → ℕ → Option ℕ
  | _, 0 => some 0
  | [], _ + 1 => none
  | c :: m, n + 1 => if c = b then some 0 else (findByte b m n).map (· + 1)

theorem findByte_of_notMem {b : UInt8} : ∀ {m : Bytes} {n : ℕ}, n ≤ m.length → b ∉ m.take n →
    findByte b m n = some n
  | _, 0, _, _ => by simp [findByte]
  | [], _ + 1, h, _ => absurd h (by simp)
  | c :: m, n + 1, h, hb => by
    rw [List.take_succ_cons, List.mem_cons, not_or] at hb
    rw [findByte, if_neg (fun hc => hb.1 hc.symm),
      findByte_of_notMem (by simpa using h) hb.2]
    rfl

theorem findByte_of_append {b : UInt8} : ∀ {p : Bytes} (q : Bytes) {n : ℕ}, b ∉ p → p.length < n →
    findByte b (p ++ b :: q) n = some p.length
  | _, _, 0, _, h => absurd h (by omega)
  | [], _, _ + 1, _, _ => by simp [findByte]
  | c :: p, q, n + 1, hb, h => by
    rw [List.mem_cons, not_or] at hb
    rw [List.cons_append, findByte, if_neg (fun hc => hb.1 hc.symm),
      findByte_of_append q hb.2 (by simpa using h)]
    rfl

/-- The first `n` bytes either miss `b` or have a first one. -/
theorem exists_first {b : UInt8} (m : Bytes) (n : ℕ) :
    b ∉ m.take n ∨ ∃ p q, m = p ++ b :: q ∧ b ∉ p ∧ p.length < n := by
  by_cases hb : b ∈ m.take n
  · obtain ⟨p, q, hpq, hp⟩ := List.eq_append_cons_of_mem hb
    refine Or.inr ⟨p, q ++ m.drop n, ?_, hp, ?_⟩
    · rw [← List.cons_append, ← List.append_assoc, ← hpq, List.take_append_drop]
    · have h1 := congrArg List.length hpq
      have h2 := List.length_take_le n m
      rw [List.length_append, List.length_cons] at h1
      omega
  · exact Or.inl hb

/-- The loop stops at the first `b` or at the end of what it looks at. -/
theorem findByte_cases {b : UInt8} {m : Bytes} {n : ℕ} (h : n ≤ m.length) :
    findByte b m n = some n ∧ b ∉ m.take n ∨
      ∃ p q, m = p ++ b :: q ∧ b ∉ p ∧ p.length < n ∧ findByte b m n = some p.length := by
  rcases exists_first (b := b) m n with hno | ⟨p, q, rfl, hp, hlt⟩
  · exact Or.inl ⟨findByte_of_notMem h hno, hno⟩
  · exact Or.inr ⟨p, q, rfl, hp, hlt, findByte_of_append q hp hlt⟩

/-! ## C strings -/

/-- The C string that starts at the first byte of an object; `none` when the object has no NUL. -/
def cstr (m : Bytes) : Option Bytes :=
  if (0 : UInt8) ∈ m then some (m.takeWhile (· ≠ 0)) else none

/-- `strcpy` of the string `t` to index `off`: the text and its NUL. -/
def strcpy (m : Bytes) (off : ℕ) (t : Bytes) : Option Bytes := store m off (t ++ [0])

/-- `strncpy` of `t` to the start of an object: `n` bytes, zeros behind a shorter text, no NUL behind a
longer one. -/
def strncpy (m t : Bytes) (n : ℕ) : Option Bytes := store m 0 (t.take n ++ List.replicate (n - t.length) 0)

/-- A text without NUL is all in front of the first NUL. -/
theorem takeWhile_self {c : UInt8} {t : Bytes} (ht : c ∉ t) : t.takeWhile (· ≠ c) = t :=
  List.takeWhile_eq_self_iff.mpr fun _ hb => decide_eq_true (ne_of_mem_of_not_mem hb ht)

theorem takeWhile_before {p : UInt8 → Bool} {c : UInt8} {t : Bytes} (ht : ∀ b ∈ t, p b = true) (hc : ¬ p c = true)
    (rest : Bytes) : (t ++ c :: rest).takeWhile p = t := by
  rw [List.takeWhile_append_of_pos ht, List.takeWhile_cons_of_neg hc, List.append_nil]

theorem takeWhile_ne {c : UInt8} {t : Bytes} (ht : c ∉ t) (rest : Bytes) :
    (t ++ c :: rest).takeWhile (· ≠ c) = t :=
  takeWhile_before (fun _ hb => decide_eq_true (ne_of_mem_of_not_mem hb ht)) (by simp) rest

theorem cstr_of_append {t : Bytes} (ht : (0 : UInt8) ∉ t) (rest : Bytes) :
    cstr (t ++ 0 :: rest) = some t := by
  unfold cstr
  rw [if_pos (by simp), takeWhile_ne ht]

/-- A text in a buffer that is cleared behind it. -/
theorem cstr_append_zeros {t : Bytes} (ht : (0 : UInt8) ∉ t) {n : ℕ} (hn : 0 < n) :
    cstr (t ++ List.replicate n 0) = some t := by
  obtain ⟨k, rfl⟩ := Nat.exists_eq_add_one_of_ne_zero (Nat.ne_of_gt hn)
  exact cstr_of_append ht (List.replicate k 0)

theorem cstr_eq_some {m t : Bytes} :
    cstr m = some t ↔ ∃ rest, m = t ++ 0 :: rest ∧ (0 : UInt8) ∉ t := by
  constructor
  · intro h
    unfold cstr at h
    split_ifs at h with h0
    obtain ⟨p, rest, rfl, hp⟩ := List.eq_append_cons_of_mem h0
    rw [takeWhile_ne hp] at h
    obtain rfl := Option.some.inj h
    exact ⟨rest, rfl, hp⟩
  · rintro ⟨rest, rfl, ht⟩
    exact cstr_of_append ht rest

/-- A string has its end in the buffer. -/
theorem cstr_length_lt {m t : Bytes} (h : cstr m = some t) : t.length < m.length := by
  obtain ⟨rest, rfl, -⟩ := cstr_eq_some.mp h
  rw [List.length_append, List.length_cons]
  omega

/-- The string that `strcpy` leaves. -/
theorem cstr_strcpy {m t m' : Bytes} (ht : 0 ∉ t) (h : strcpy m 0 t = some m') : cstr m' = some t := by
  obtain ⟨-, rfl⟩ := store_eq_some h
  rw [List.take_zero, List.nil_append, List.append_assoc]
  exact cstr_of_append ht _

/-- A text that fits is copied. -/
theorem strcpy_of_lt {m t : Bytes} (h : t.length < m.length) :
    strcpy m 0 t = some (t ++ 0 :: m.drop (t.length + 1)) := by
  have hlen : (t ++ [0]).length = t.length + 1 := by rw [List.length_append, List.length_singleton]
  rw [strcpy, store_of_le (by omega), hlen, List.take_zero, List.nil_append, Nat.zero_add, List.append_assoc]
  rfl

theorem exists_strcpy {m t : Bytes} (ht : 0 ∉ t) (h : t.length < m.length) :
    ∃ m', strcpy m 0 t = some m' ∧ cstr m' = some t :=
  ⟨_, strcpy_of_lt h, cstr_of_append ht _⟩

/-- A text that does not fit is not. -/
theorem strcpy_eq_none {m t : Bytes} (h : m.length ≤ t.length) : strcpy m 0 t = none :=
  if_neg (by rw [List.length_append, List.length_singleton]; omega)

/-- What was copied fits. -/
theorem strcpy_lt {m t m' : Bytes} (h : strcpy m 0 t = some m') : t.length < m.length := by
  have hle := (store_eq_some h).1
  rw [List.length_append, List.length_singleton] at hle
  omega

theorem strncpy_eq (m t : Bytes) {n : ℕ} (h : n ≤ m.length) :
    strncpy m t n = some (t.take n ++ List.replicate (n - t.length) 0 ++ m.drop n) := by
  have hlen : (t.take n ++ List.replicate (n - t.length) (0 : UInt8)).length = n := by
    rw [List.length_append, List.length_take, List.length_replicate]
    omega
  rw [strncpy, store_of_le (by omega), hlen, List.take_zero, List.nil_append, Nat.zero_add]

/-- What an object holds as a string after a `strncpy`: the text when it is shorter than `n`, and
otherwise its first `n` bytes and whatever string stood behind them. -/
theorem cstr_strncpy {t rest : Bytes} (ht : (0 : UInt8) ∉ t) (n : ℕ) :
    cstr (t.take n ++ List.replicate (n - t.length) 0 ++ rest) =
      if t.length < n then some t else (cstr rest).map (t.take n ++ ·) := by
  by_cases hlt : t.length < n
  · obtain ⟨k, hk⟩ : ∃ k, n - t.length = k + 1 := ⟨n - t.length - 1, by omega⟩
    rw [if_pos hlt, List.take_of_length_le (by omega), hk, List.replicate_succ, List.append_assoc]
    exact cstr_of_append ht _
  · have hzero : n - t.length = 0 := by omega
    rw [if_neg hlt, hzero, List.replicate_zero, List.append_nil]
    have htake : (0 : UInt8) ∉ t.take n := fun h => ht (List.mem_of_mem_take h)
    cases hr : cstr rest with
    | none =>
      have h0 : (0 : UInt8) ∉ rest := by
        intro hm
        rw [cstr, if_pos hm] at hr
        cases hr
      exact if_neg fun hm => (List.mem_append.mp hm).elim htake h0
    | some u =>
      obtain ⟨v, rfl, hu⟩ := cstr_eq_some.mp hr
      rw [Option.map_some, ← List.append_assoc]
      exact cstr_of_append (fun hm => (List.mem_append.mp hm).elim htake hu) v

/-- The string at the start of a field of `n` bytes, where the text `t` and its NUL were written: none
when the NUL lies behind the field. -/
theorem cstr_take_append {t : Bytes} (ht : (0 : UInt8) ∉ t) (rest : Bytes) (n : ℕ) :
    cstr ((t ++ 0 :: rest).take n) = if t.length < n then some t else none := by
  rw [List.take_append]
  by_cases hlt : t.length < n
  · obtain ⟨k, hk⟩ : ∃ k, n - t.length = k + 1 := ⟨n - t.length - 1, by omega⟩
    rw [if_pos hlt, List.take_of_length_le (by omega), hk, List.take_succ_cons]
    exact cstr_of_append ht _
  · have hzero : n - t.length = 0 := by omega
    rw [if_neg hlt, hzero, List.take_zero, List.append_nil]
    exact if_neg fun hm => ht (List.mem_of_mem_take hm)

/-- A string that ends inside a field is the string at the address of the field. -/
theorem cstr_of_take {m t : Bytes} {n : ℕ} (h : cstr (m.take n) = some t) : cstr m = some t := by
  obtain ⟨rest, hm, ht⟩ := cstr_eq_some.mp h
  refine cstr_eq_some.mpr ⟨rest ++ m.drop n, ?_, ht⟩
  rw [← List.cons_append, ← List.append_assoc, ← hm, List.take_append_drop]

end Buf
end Lib
