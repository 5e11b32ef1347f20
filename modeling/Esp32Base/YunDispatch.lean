import Esp32Base.Lib.CText

/-!
# YunDispatch — the dispatch connection (hxkong_tcp.c)

The first inner loop of `hxtcp_conn` collects the reply of the dispatch server in `rvcahce[32]` until six bytes are
there, and takes the address of the transfer server from them.

* `dispatchLoop_eq`: the loop, however the reply is split.
* `dispatched_iff`: when it stays inside `rvcahce` and takes the address of the reply.
* `dispatchRun_eq`: what is known of the transfer server after any number of connections.
-/

namespace Esp32Base

open Lib Lib.Buf Lib.CText

/-- `transServIP[20]` and `transServPort`. -/
structure TransServ where
  transServIP : Bytes
  transServPort : ℤ
  size : transServIP.length = 20

/-- Before the first connection. -/
def TransServ.boot : TransServ := ⟨List.replicate 20 0, 0, by rw [List.length_replicate]⟩

/-- `%d.%d.%d.%d` -/
def printDotted (a b c d : ℤ) : Bytes :=
  printInt a ++ [46] ++ printInt b ++ [46] ++ printInt c ++ [46] ++ printInt d

def TransServ.put (t : TransServ) (text : Bytes) (port : ℤ) : Option TransServ :=
  match h : strcpy t.transServIP 0 text with
  | none => none
  | some ip => some ⟨ip, port, (store_length h).trans t.size⟩

section Loop

variable (signed : Bool)

/-- The two assignments behind the sixth byte; `rvcahce` holds plain `char`s. -/
def takeAddress (t : TransServ) (rvcahce : Bytes) : Option TransServ :=
  match rvcahce with
  | a :: b :: c :: d :: e :: f :: _ =>
    t.put (printDotted (plainChar signed a).toInt (plainChar signed b).toInt (plainChar signed c).toInt
      (plainChar signed d).toInt) (plainChar signed e ||| (plainChar signed f <<< 8)).toInt
  | _ => none

/-- The loop over the results of `recv`; an empty one is a result of 0 or -1. -/
def dispatchLoop (t : TransServ) : Bytes → ℕ → List Bytes → Option TransServ
  | _, _, [] => some t
  | rvcahce, rvlen, databuff :: recvs =>
    if databuff = [] then some t
    else
      (store rvcahce rvlen databuff).bind fun rvcahce =>
        if 6 ≤ rvlen + databuff.length then takeAddress signed t rvcahce
        else dispatchLoop t rvcahce (rvlen + databuff.length) recvs

/-- One connection: the reply in pieces, and the end of the connection. `rvcahce` is not cleared. -/
def dispatchConn (garbage : ℕ → UInt8) (t : TransServ) (chunks : List Bytes) : Option TransServ :=
  dispatchLoop signed t (alloc garbage 32) 0 (chunks ++ [[]])

/-- Connection after connection. -/
def dispatchRun (t : TransServ) : List ((ℕ → UInt8) × List Bytes) → Option TransServ
  | [] => some t
  | (garbage, chunks) :: conns => (dispatchConn signed garbage t chunks).bind fun t => dispatchRun t conns

/-- The address that a reply gives. -/
structure TransServ.Holds (t : TransServ) (a b c d e f : UInt8) : Prop where
  ip : cstr t.transServIP = some (printDotted a.toNat b.toNat c.toNat d.toNat)
  port : t.transServPort = e.toNat + 256 * f.toNat

/-- What is promised of a connection: every store is inside, the reply's first six bytes are the address, and a shorter
reply changes nothing. -/
def Dispatched (garbage : ℕ → UInt8) (t : TransServ) (chunks : List Bytes) : Prop :=
  ∃ t', dispatchConn signed garbage t chunks = some t' ∧
    (∀ a b c d e f rest, chunks.flatten = a :: b :: c :: d :: e :: f :: rest → t'.Holds a b c d e f) ∧
    (chunks.flatten.length < 6 → t' = t)

/-- Behind `n` bytes, no piece that is received while less than six are there goes over the 32 bytes. -/
def PiecesFit (n : ℕ) (chunks : List Bytes) : Prop :=
  ∀ pre c post, chunks = pre ++ c :: post → n + pre.flatten.length < 6 → n + pre.flatten.length + c.length ≤ 32

/-- The first six bytes are the same with and without sign. -/
def PlainBytes (reply : Bytes) : Prop :=
  signed = false ∨ reply.length < 6 ∨ ∀ x ∈ reply.take 6, x.toNat < 128

end Loop

/-! ## Plain chars -/

/-- A `char` below 128 is the byte, and one with its sign is negative from there on. -/
theorem plainChar_toInt (c : UInt8) : (plainChar false c).toInt = c.toNat ∧
    (plainChar true c).toInt = if c.toNat < 128 then (c.toNat : ℤ) else c.toNat - 256 :=
  forall_byte (p := fun c => (plainChar false c).toInt = c.toNat ∧
    (plainChar true c).toInt = if c.toNat < 128 then (c.toNat : ℤ) else c.toNat - 256) (by decide +kernel) c

theorem plainChar_small {c : UInt8} (h : c.toNat < 128) : plainChar true c = plainChar false c := by
  apply BitVec.eq_of_toInt_eq
  rw [(plainChar_toInt c).1, (plainChar_toInt c).2, if_pos h]

theorem plainChar_msb (c : UInt8) : (plainChar true c).msb = decide (128 ≤ c.toNat) ∧
    (plainChar true c <<< 8).msb = decide (128 ≤ c.toNat) :=
  forall_byte (p := fun c => (plainChar true c).msb = decide (128 ≤ c.toNat) ∧
    (plainChar true c <<< 8).msb = decide (128 ≤ c.toNat)) (by decide +kernel) c

/-- The port without signs. -/
theorem port_unsigned (e f : UInt8) :
    (plainChar false e ||| (plainChar false f <<< 8)).toInt = e.toNat + 256 * f.toNat := by
  have he := e.toNat_lt
  have hf := f.toNat_lt
  have hnat : ∀ c : UInt8, (plainChar false c).toNat = c.toNat :=
    forall_byte (p := fun c => (plainChar false c).toNat = c.toNat) (by decide +kernel)
  have hor : (plainChar false e ||| (plainChar false f <<< 8)).toNat = e.toNat + 256 * f.toNat := by
    rw [BitVec.toNat_or, BitVec.toNat_shiftLeft, hnat, hnat, Nat.shiftLeft_eq, Nat.mod_eq_of_lt (by omega),
      Nat.or_comm, ← Nat.shiftLeft_eq, ← Nat.shiftLeft_add_eq_or_of_lt (by omega), Nat.shiftLeft_eq]
    omega
  rw [BitVec.toInt_eq_toNat_of_lt (by omega), hor]
  omega

/-- A sign bit in either byte makes the port negative. -/
theorem port_signed {e f : UInt8} (h : 128 ≤ e.toNat ∨ 128 ≤ f.toNat) :
    (plainChar true e ||| (plainChar true f <<< 8)).toInt < 0 := by
  have hmsb : (plainChar true e ||| (plainChar true f <<< 8)).msb = true := by
    rw [BitVec.msb_or, (plainChar_msb e).1, (plainChar_msb f).2]
    rcases h with h | h <;> simp [h]
  exact BitVec.toInt_neg_iff.mpr (BitVec.msb_eq_true_iff_two_mul_ge.mp hmsb)

/-- A number printed for a `char` has at most four characters. -/
theorem printInt_plainChar_length (signed : Bool) (c : UInt8) :
    (printInt (plainChar signed c).toInt).length ≤ 4 := by
  revert c
  apply forall_byte
  cases signed with
  | false => decide +kernel
  | true => decide +kernel

theorem zero_notMem_printDotted (a b c d : ℤ) : 0 ∉ printDotted a b c d := by
  simp [printDotted, zero_notMem_printInt]

theorem minus_mem_printDotted (a b c d : ℤ) :
    45 ∈ printDotted a b c d ↔ a < 0 ∨ b < 0 ∨ c < 0 ∨ d < 0 := by
  simp [printDotted, minus_mem_printInt]

/-- A `char` that is not negative is small. -/
theorem small_of_nonneg {x : UInt8} (hx : ¬ (plainChar true x).toInt < 0) : x.toNat < 128 := by
  have hlt := x.toNat_lt
  rw [(plainChar_toInt x).2] at hx
  split_ifs at hx with h
  · exact h
  · omega

/-! ## The address -/

theorem put_spec (t : TransServ) {text : Bytes} (port : ℤ) (h0 : 0 ∉ text) (hlen : text.length < 20) :
    ∃ t', t.put text port = some t' ∧ cstr t'.transServIP = some text ∧ t'.transServPort = port := by
  obtain ⟨ip, hcopy, hip⟩ := exists_strcpy h0 (show text.length < t.transServIP.length by rw [t.size]; exact hlen)
  refine ⟨⟨ip, port, (store_length hcopy).trans t.size⟩, ?_, hip, rfl⟩
  unfold TransServ.put
  split
  · next hnone => exact nomatch hcopy.symm.trans hnone
  · next ip' hsome =>
    obtain rfl := Option.some.inj (hcopy.symm.trans hsome)
    rfl

section Address

variable (signed : Bool)

/-- The address fits, whatever the sign of a `char`. -/
theorem takeAddress_spec (t : TransServ) (a b c d e f : UInt8) (rest : Bytes) :
    ∃ t', takeAddress signed t (a :: b :: c :: d :: e :: f :: rest) = some t' ∧
      cstr t'.transServIP = some (printDotted (plainChar signed a).toInt (plainChar signed b).toInt
        (plainChar signed c).toInt (plainChar signed d).toInt) ∧
      t'.transServPort = (plainChar signed e ||| (plainChar signed f <<< 8)).toInt := by
  apply put_spec t _ (zero_notMem_printDotted _ _ _ _)
  have ha := printInt_plainChar_length signed a
  have hb := printInt_plainChar_length signed b
  have hc := printInt_plainChar_length signed c
  have hd := printInt_plainChar_length signed d
  simp only [printDotted, List.length_append, List.length_singleton]
  omega

/-- Only six bytes are looked at. -/
theorem takeAddress_append (t : TransServ) {got : Bytes} (h : 6 ≤ got.length) (x y : Bytes) :
    takeAddress signed t (got ++ x) = takeAddress signed t (got ++ y) := by
  match got, h with
  | _ :: _ :: _ :: _ :: _ :: _ :: _, _ => rfl

/-- With signs, the address of the reply has come from small bytes only. -/
theorem small_of_holds {t : TransServ} {a b c d e f : UInt8}
    (hip : cstr t.transServIP = some (printDotted (plainChar true a).toInt (plainChar true b).toInt
      (plainChar true c).toInt (plainChar true d).toInt))
    (hport : t.transServPort = (plainChar true e ||| (plainChar true f <<< 8)).toInt) (h : t.Holds a b c d e f) :
    ∀ x ∈ [a, b, c, d, e, f], x.toNat < 128 := by
  have htext := Option.some.inj (hip.symm.trans h.ip)
  have hminus : ¬ 45 ∈ printDotted (a.toNat : ℤ) b.toNat c.toNat d.toNat := by
    rw [minus_mem_printDotted]
    omega
  rw [← htext, minus_mem_printDotted] at hminus
  have hef : ¬ (128 ≤ e.toNat ∨ 128 ≤ f.toNat) := by
    intro hbig
    have hneg := port_signed hbig
    rw [← hport, h.port] at hneg
    omega
  simp only [not_or] at hminus hef
  obtain ⟨ha, hb, hc, hd⟩ := hminus
  simp only [List.forall_mem_cons]
  exact ⟨small_of_nonneg ha, small_of_nonneg hb, small_of_nonneg hc, small_of_nonneg hd, by omega, by omega,
    fun x hx => absurd hx List.not_mem_nil⟩

/-- **The address taken** is that of the reply exactly when no sign comes in. -/
theorem takeAddress_holds_iff (t : TransServ) (a b c d e f : UInt8) (rest : Bytes) :
    (∃ t', takeAddress signed t (a :: b :: c :: d :: e :: f :: rest) = some t' ∧ t'.Holds a b c d e f) ↔
      signed = false ∨ ∀ x ∈ [a, b, c, d, e, f], x.toNat < 128 := by
  obtain ⟨t', htake, hip, hport⟩ := takeAddress_spec signed t a b c d e f rest
  constructor
  · rintro ⟨t'', htake', hholds⟩
    obtain rfl := Option.some.inj (htake.symm.trans htake')
    cases signed with
    | false => exact Or.inl rfl
    | true => exact Or.inr (small_of_holds hip hport hholds)
  · intro h
    have hplain : ∀ x ∈ [a, b, c, d, e, f], plainChar signed x = plainChar false x := by
      intro x hx
      cases signed with
      | false => rfl
      | true => exact plainChar_small (h.resolve_left (by decide) x hx)
    simp only [List.forall_mem_cons] at hplain
    obtain ⟨ha, hb, hc, hd, he, hf, -⟩ := hplain
    refine ⟨t', htake, ?_, ?_⟩
    · rw [hip, ha, hb, hc, hd, (plainChar_toInt a).1, (plainChar_toInt b).1, (plainChar_toInt c).1,
        (plainChar_toInt d).1]
    · rw [hport, he, hf, port_unsigned]

/-! ## The loop -/

theorem piecesFit_cons {n : ℕ} (hn : n < 6) (c : Bytes) (cs : List Bytes) :
    PiecesFit n (c :: cs) ↔ n + c.length ≤ 32 ∧ PiecesFit (n + c.length) cs := by
  constructor
  · intro h
    refine ⟨h [] c cs rfl hn, ?_⟩
    intro pre d post hcs hlt
    have hd := h (c :: pre) d post (by rw [hcs]; rfl)
    rw [List.flatten_cons, List.length_append] at hd
    have := hd (by omega)
    omega
  · rintro ⟨hc, hcs⟩ pre d post hsplit hlt
    cases pre with
    | nil =>
      obtain ⟨rfl, -⟩ := List.cons.inj hsplit
      exact hc
    | cons c' pre =>
      obtain ⟨rfl, rfl⟩ := List.cons.inj hsplit
      rw [List.flatten_cons, List.length_append] at hlt ⊢
      have := hcs pre d post rfl (by omega)
      omega

theorem piecesFit_done {n : ℕ} (hn : 6 ≤ n) (cs : List Bytes) : PiecesFit n cs := by
  intro pre c post _ hlt
  omega

/-- **The loop**, with `got` in `rvcahce`: it goes out of its buffer exactly when a piece does not fit, and otherwise
the split of the reply does not matter. -/
theorem dispatchLoop_eq (t : TransServ) : ∀ (chunks : List Bytes) (got rest : Bytes), got.length < 6 →
    (got ++ rest).length = 32 → (∀ c ∈ chunks, c ≠ []) →
      (PiecesFit got.length chunks → dispatchLoop signed t (got ++ rest) got.length (chunks ++ [[]]) =
        if 6 ≤ (got ++ chunks.flatten).length then takeAddress signed t (got ++ chunks.flatten) else some t) ∧
      (¬ PiecesFit got.length chunks → dispatchLoop signed t (got ++ rest) got.length (chunks ++ [[]]) = none)
  | [], got, rest, hgot, _, _ => by
    have hfit : PiecesFit got.length [] := by
      intro pre c post h
      exact absurd h (by simp)
    refine ⟨fun _ => ?_, fun h => absurd hfit h⟩
    rw [List.flatten_nil, List.append_nil, if_neg (by omega), List.nil_append, dispatchLoop, if_pos rfl]
  | c :: cs, got, rest, hgot, hsize, hne => by
    have hc : c ≠ [] := hne c (List.mem_cons_self ..)
    rw [List.length_append] at hsize
    rw [piecesFit_cons hgot, List.cons_append, dispatchLoop, if_neg hc]
    by_cases hle : got.length + c.length ≤ 32
    · have hlen : (got ++ c).length = got.length + c.length := List.length_append
      rw [store_append (by omega), Option.bind_some]
      by_cases h6 : 6 ≤ got.length + c.length
      · rw [if_pos h6]
        refine ⟨fun _ => ?_, fun h => absurd ⟨hle, piecesFit_done h6 cs⟩ h⟩
        rw [List.flatten_cons, ← List.append_assoc, if_pos (by rw [List.length_append]; omega)]
        exact takeAddress_append signed t (by omega) _ _
      · rw [if_neg h6, ← hlen]
        have ih := dispatchLoop_eq t cs (got ++ c) (rest.drop c.length) (by omega)
          (by rw [List.length_append, List.length_drop]; omega) (fun d hd => hne d (List.mem_cons_of_mem _ hd))
        rw [List.flatten_cons, ← List.append_assoc]
        exact ⟨fun h => ih.1 h.2, fun h => ih.2 fun hcs => h ⟨by omega, hcs⟩⟩
    · have hnone : store (got ++ rest) got.length c = none := if_neg (by rw [List.length_append]; omega)
      rw [hnone]
      exact ⟨fun h => absurd h.1 hle, fun _ => rfl⟩

/-- One connection. -/
theorem dispatchConn_eq (garbage : ℕ → UInt8) (t : TransServ) {chunks : List Bytes} (hne : ∀ c ∈ chunks, c ≠ []) :
    (PiecesFit 0 chunks → dispatchConn signed garbage t chunks =
      if 6 ≤ chunks.flatten.length then takeAddress signed t chunks.flatten else some t) ∧
    (¬ PiecesFit 0 chunks → dispatchConn signed garbage t chunks = none) :=
  dispatchLoop_eq signed t chunks [] (alloc garbage 32) (by decide) (by rw [List.nil_append, alloc_length]) hne

theorem exists_six {reply : Bytes} (h : 6 ≤ reply.length) :
    ∃ a b c d e f rest, reply = a :: b :: c :: d :: e :: f :: rest :=
  match reply, h with
  | a :: b :: c :: d :: e :: f :: rest, _ => ⟨a, b, c, d, e, f, rest, rfl⟩

/-- A connection whose pieces fit, with no sign coming in. -/
theorem dispatched_of_fit (garbage : ℕ → UInt8) (t : TransServ) {chunks : List Bytes} (hne : ∀ c ∈ chunks, c ≠ [])
    (hfit : PiecesFit 0 chunks) (hplain : PlainBytes signed chunks.flatten) : Dispatched signed garbage t chunks := by
  have hconn := (dispatchConn_eq signed garbage t hne).1 hfit
  by_cases h6 : 6 ≤ chunks.flatten.length
  · obtain ⟨a, b, c, d, e, f, rest, hreply⟩ := exists_six h6
    have hsmall : signed = false ∨ ∀ x ∈ [a, b, c, d, e, f], x.toNat < 128 := by
      rcases hplain with h | h | h
      · exact Or.inl h
      · omega
      · rw [hreply] at h
        exact Or.inr h
    obtain ⟨t', htake, hholds⟩ := (takeAddress_holds_iff signed t a b c d e f rest).mpr hsmall
    rw [if_pos h6, hreply, htake] at hconn
    refine ⟨t', hconn, ?_, fun hlt => absurd hlt (by omega)⟩
    intro a' b' c' d' e' f' rest' heq
    rw [hreply] at heq
    simp only [List.cons.injEq] at heq
    obtain ⟨rfl, rfl, rfl, rfl, rfl, rfl, -⟩ := heq
    exact hholds
  · rw [if_neg h6] at hconn
    refine ⟨t, hconn, ?_, fun _ => rfl⟩
    intro a b c d e f rest hreply
    rw [hreply] at h6
    simp at h6

theorem fit_of_dispatched {garbage : ℕ → UInt8} {t : TransServ} {chunks : List Bytes} (hne : ∀ c ∈ chunks, c ≠ [])
    (h : Dispatched signed garbage t chunks) : PiecesFit 0 chunks ∧ PlainBytes signed chunks.flatten := by
  obtain ⟨t', hconn, hfull, -⟩ := h
  obtain ⟨hinside, hover⟩ := dispatchConn_eq signed garbage t hne
  have hfit : PiecesFit 0 chunks := by
    by_contra hno
    rw [hover hno] at hconn
    cases hconn
  refine ⟨hfit, ?_⟩
  rw [hinside hfit] at hconn
  by_cases h6 : 6 ≤ chunks.flatten.length
  · obtain ⟨a, b, c, d, e, f, rest, hreply⟩ := exists_six h6
    have hholds := hfull a b c d e f rest hreply
    rw [if_pos h6, hreply] at hconn
    rcases (takeAddress_holds_iff signed t a b c d e f rest).mp ⟨t', hconn, hholds⟩ with h | h
    · exact Or.inl h
    · right; right
      rw [hreply]
      exact h
  · exact Or.inr (Or.inl (by omega))

/-- **One connection does what is promised** exactly when the pieces fit and no sign comes in. -/
theorem dispatched_iff (garbage : ℕ → UInt8) (t : TransServ) (chunks : List Bytes)
    (hrecv : ∀ c ∈ chunks, c ≠ [] ∧ c.length ≤ 2048) :
    Dispatched signed garbage t chunks ↔ PiecesFit 0 chunks ∧ PlainBytes signed chunks.flatten := by
  have hne : ∀ c ∈ chunks, c ≠ [] := fun c hc => (hrecv c hc).1
  constructor
  · exact fit_of_dispatched signed hne
  · rintro ⟨hfit, hplain⟩
    exact dispatched_of_fit signed garbage t hne hfit hplain

theorem dispatched_split : Dispatched false (fun _ => 0xAA) .boot [[192, 168], [1, 10, 0x90], [0x1F, 7, 7]] :=
  (dispatched_iff false (fun _ => 0xAA) .boot [[192, 168], [1, 10, 0x90], [0x1F, 7, 7]] (by decide)).mpr
    ⟨by simp [piecesFit_cons, piecesFit_done], Or.inl rfl⟩

/-- A reply of 33 bytes in one piece, to an unsigned `char`. -/
theorem dispatch_overflows : ∃ chunks : List Bytes, (∀ c ∈ chunks, c ≠ [] ∧ c.length ≤ 2048) ∧
    ¬ Dispatched false (fun _ => 0) .boot chunks := by
  refine ⟨[List.replicate 33 1], by decide, ?_⟩
  rintro ⟨t', hconn, -⟩
  have hnone : dispatchConn false (fun _ => 0) .boot [List.replicate 33 1] = none := by decide +kernel
  rw [hnone] at hconn
  cases hconn

/-! ## Connection after connection -/

/-- The replies that were long enough. -/
def fullReplies (conns : List ((ℕ → UInt8) × List Bytes)) : List Bytes :=
  (conns.map fun conn => conn.2.flatten).filter fun reply => 6 ≤ reply.length

/-- **Every run** of connections that meet the condition ends with the address of the last full reply, and without one
with what was known before. -/
theorem dispatchRun_eq (conns : List ((ℕ → UInt8) × List Bytes)) : ∀ t : TransServ,
    (∀ conn ∈ conns, (∀ c ∈ conn.2, c ≠ []) ∧ PiecesFit 0 conn.2 ∧ PlainBytes signed conn.2.flatten) →
    ∃ t', dispatchRun signed t conns = some t' ∧ (fullReplies conns = [] → t' = t) ∧
      ∀ a b c d e f rest, (fullReplies conns).getLast? = some (a :: b :: c :: d :: e :: f :: rest) →
        t'.Holds a b c d e f := by
  induction conns with
  | nil => exact fun t _ => ⟨t, rfl, fun _ => rfl, fun _ _ _ _ _ _ _ h => nomatch h⟩
  | cons conn conns ih =>
    intro t hconns
    obtain ⟨hne, hfit, hplain⟩ := hconns conn (List.mem_cons_self ..)
    obtain ⟨t₁, hconn, hfull, hshort⟩ := dispatched_of_fit signed conn.1 t hne hfit hplain
    obtain ⟨t', hrun, hsame, hlast⟩ := ih t₁ (fun c hc => hconns c (List.mem_cons_of_mem _ hc))
    refine ⟨t', by rw [dispatchRun, hconn, Option.bind_some, hrun], ?_⟩
    by_cases h6 : 6 ≤ conn.2.flatten.length
    · have hcons : fullReplies (conn :: conns) = conn.2.flatten :: fullReplies conns := by
        rw [fullReplies, List.map_cons, List.filter_cons_of_pos (by simpa using h6)]
        rfl
      rw [hcons]
      refine ⟨fun h => absurd h (List.cons_ne_nil _ _), ?_⟩
      intro a b c d e f rest hget
      rw [List.getLast?_cons, Option.some.injEq] at hget
      cases hl : (fullReplies conns).getLast? with
      | none =>
        rw [hl, Option.getD_none] at hget
        rw [hsame (List.getLast?_eq_none_iff.mp hl)]
        exact hfull a b c d e f rest hget
      | some reply =>
        rw [hl, Option.getD_some] at hget
        exact hlast a b c d e f rest (by rw [hl, hget])
    · have hcons : fullReplies (conn :: conns) = fullReplies conns := by
        rw [fullReplies, List.map_cons, List.filter_cons_of_neg (by simpa using h6)]
        rfl
      rw [hcons]
      exact ⟨fun h => (hsame h).trans (hshort (by omega)), hlast⟩

end Address

end Esp32Base
