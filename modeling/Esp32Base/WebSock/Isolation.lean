import Esp32Base.WebSock.Conn
import Esp32Base.WebSock.Handshake

/-!
# WebSock.Isolation — what a handshake sees of earlier connections (websocket_serv.c)

`app_websocket_task_accept` starts over with `recvLen = 0`, but never clears `recvCache`, and the handshake
reads it as a C string: behind the bytes received it may meet those of an earlier connection.

* `handshake_padded`: a call whose stale bytes are harmless sees what it would see on a cleared cache.
* `handshakes_isolated`: with harmless stale bytes at every call, the handshakes of a connection are the same
  after any two histories.
* `handshakes_as_first`: they are those of the first connection, which meets no stale bytes at all.
* `handshakes_leak`: a request completed by the end of an old one.
-/

namespace Esp32Base

open Lib Lib.Buf Lib.CText

/-! ## Stale bytes -/

/-- The text received: the bytes up to `recvLen`, or to a NUL among them. -/
def ownText (recvCache : Bytes) (recvLen : ℕ) : Bytes := (recvCache.take recvLen).takeWhile (· ≠ 0)

/-- What `zhWebSockIdentify` finds in a text. -/
def identifyText (text : Bytes) : EzhWebSocketMethod :=
  if (strstr (ascii "Sec-WebSocket-Key1:") text).isSome then .method_1
  else if (strstr (ascii "Sec-WebSocket-Key:") text).isSome then .method_2
  else .unknow

/-- The stale bytes behind the text received, up to the NUL that ends the C string `src`, make no
difference: they do not complete a request, they bring no key header to a complete one, and what is missing
of the eight bytes behind a request of the old protocol is 0. -/
structure Harmless (recvCache : Bytes) (recvLen : ℕ) (src : Bytes) : Prop where
  incomplete : requestText (ownText recvCache recvLen) = none → requestText src = none ∨ identifyText src = .unknow
  complete : ∀ t, requestText (ownText recvCache recvLen) = some t →
    identifyText src = identifyText (ownText recvCache recvLen)
  key3 : ∀ t, requestText (ownText recvCache recvLen) = some t →
    identifyText (ownText recvCache recvLen) = .method_1 →
    ∀ i, recvLen ≤ i → i < t.length + 12 → recvCache.getD i 0 = 0

/-- The stale bytes are harmless to a handshake on the cache, and end with a NUL. -/
structure CleanCache (recvCache : Bytes) (recvLen : ℕ) : Prop where
  terminated : 0 ∈ recvCache ∨ recvCache.length ≤ recvLen
  harmless : ∀ src, cstr recvCache = some src → Harmless recvCache recvLen src

/-- The condition on a call: nothing is asked of a client past its handshake, nor of the first four bytes,
which are not looked at. -/
def CleanCall (g : WSockServ) (pusrdata : Bytes) : Prop :=
  g.wsclient.hs.method = .unknow → 4 < g.wsclient.recvLen + pusrdata.length →
    ∀ recvCache, store g.wsclient.recvCache g.wsclient.recvLen pusrdata = some recvCache →
      CleanCache recvCache (g.wsclient.recvLen + pusrdata.length)

/-! ## Runs of chunks -/

section Runs

variable (d : Digests)

/-- What is seen of the handshake of a call; `none` when its chunk does not fit the cache. -/
def handshakeSeen (g : WSockServ) (pusrdata : Bytes) : Option (Option (ℤ × TzhWebSocket × Option Bytes)) :=
  (store g.wsclient.recvCache g.wsclient.recvLen pusrdata).map fun recvCache =>
    (zhWebSockHandshake (zhWebSockHandshake_1 d) (zhWebSockHandshake_2 d) (g.wsclient.recvLen + pusrdata.length)
      ⟨recvCache, g.wsclient.hs, g.wssocket_acceptBuf⟩).map seen

/-- The handshakes of the calls for the chunks, up to one that is undefined. -/
def handshakes (sock_fd : ℕ) : WSockServ → List Bytes → List (Option (ℤ × TzhWebSocket × Option Bytes))
  | _, [] => []
  | g, c :: cs =>
    match handshakeSeen d g c with
    | none => []
    | some r =>
      r :: match websock_recv_cb (zhWebSockHandshake_1 d) (zhWebSockHandshake_2 d) sock_fd g c with
        | none => []
        | some p => handshakes sock_fd p.1 cs

/-- The condition holds at every call. -/
def AllClean (sock_fd : ℕ) : WSockServ → List Bytes → Prop
  | _, [] => True
  | g, c :: cs =>
    CleanCall g c ∧
      ∀ p, websock_recv_cb (zhWebSockHandshake_1 d) (zhWebSockHandshake_2 d) sock_fd g c = some p →
        AllClean sock_fd p.1 cs

end Runs

/-! ## One handshake -/

/-- The cache with everything behind the bytes received cleared. -/
def padded (recvCache : Bytes) (recvLen : ℕ) : Bytes :=
  recvCache.take recvLen ++ List.replicate (recvCache.length - recvLen) 0

theorem padded_length {recvCache : Bytes} {n : ℕ} (h : n ≤ recvCache.length) :
    (padded recvCache n).length = recvCache.length := by
  rw [padded, List.length_append, List.length_take, List.length_replicate]
  omega

theorem padded_of_le {recvCache : Bytes} {n : ℕ} (h : recvCache.length ≤ n) : padded recvCache n = recvCache := by
  rw [padded, List.take_of_length_le h, Nat.sub_eq_zero_of_le h, List.replicate_zero, List.append_nil]

/-- The text received either ends with a NUL of its own or is all there is. -/
theorem ownText_cases (recvCache : Bytes) (n : ℕ) :
    (∃ z, recvCache.take n = ownText recvCache n ++ 0 :: z) ∧ 0 ∉ ownText recvCache n ∨
      recvCache.take n = ownText recvCache n ∧ 0 ∉ ownText recvCache n := by
  by_cases h0 : 0 ∈ recvCache.take n
  · obtain ⟨p, z, hp, hno⟩ := List.eq_append_cons_of_mem h0
    have hown : ownText recvCache n = p := by rw [ownText, hp, takeWhile_ne hno]
    rw [hown]
    exact Or.inl ⟨⟨z, hp⟩, hno⟩
  · have hown : ownText recvCache n = recvCache.take n := takeWhile_self h0
    rw [hown]
    exact Or.inr ⟨rfl, h0⟩

/-- On the cleared cache the C string is the text received. -/
theorem cstr_padded {recvCache : Bytes} {n : ℕ} (h : n < recvCache.length) :
    cstr (padded recvCache n) = some (ownText recvCache n) := by
  rw [padded]
  rcases ownText_cases recvCache n with ⟨⟨z, hz⟩, h0⟩ | ⟨hall, h0⟩
  · rw [hz, List.append_assoc]
    exact cstr_of_append h0 _
  · rw [hall]
    exact cstr_append_zeros h0 (by omega)

/-- The C string in the cache starts with the text received. -/
theorem ownText_prefix {recvCache src : Bytes} (n : ℕ) (h : cstr recvCache = some src) :
    ownText recvCache n <+: src := by
  obtain ⟨rest, hrest, h0⟩ := cstr_eq_some.mp h
  rcases ownText_cases recvCache n with ⟨⟨z, hz⟩, hown⟩ | ⟨hall, hown⟩
  · have hcache : cstr recvCache = some (ownText recvCache n) := by
      refine cstr_eq_some.mpr ⟨z ++ recvCache.drop n, ?_, hown⟩
      rw [← List.cons_append, ← List.append_assoc, ← hz, List.take_append_drop]
    obtain rfl := Option.some.inj (hcache.symm.trans h)
    exact List.prefix_refl _
  · have hpre : ownText recvCache n <+: src ++ 0 :: rest := by
      rw [← hrest, ← hall]
      exact List.take_prefix n recvCache
    exact prefix_before_nul hown hpre

/-- A request that is complete stays the same when more text follows. -/
theorem requestText_append {own t : Bytes} (h : requestText own = some t) (y : Bytes) :
    requestText (own ++ y) = some t := by
  obtain ⟨pstr, hp, rfl⟩ := Option.map_eq_some_iff.mp h
  have hlen := (strstr_eq_some hp).2.length_le
  rw [requestText, strstr_append y hp, Option.map_some, List.length_append, List.length_append,
    Nat.add_sub_add_right, List.take_append_of_le_length (by omega)]

theorem load_ext {m m' : Bytes} {off n : ℕ} (hl : m.length = m'.length)
    (h : ∀ i, off ≤ i → i < off + n → m[i]? = m'[i]?) : load m off n = load m' off n := by
  have htake : (m.drop off).take n = (m'.drop off).take n := by
    ext i : 1
    rw [List.getElem?_take, List.getElem?_take, List.getElem?_drop, List.getElem?_drop]
    split_ifs with hi
    · exact h _ (by omega) (by omega)
    · rfl
  unfold load
  rw [hl, htake]

section Call

variable {d : Digests} {h h' : Handshake} {n : ℕ}

/-- The call of a client that has not done its handshake and has sent more than four bytes. -/
theorem handshake_eq (hm : h.hs.method = .unknow) (hn : 4 < n) :
    zhWebSockHandshake (zhWebSockHandshake_1 d) (zhWebSockHandshake_2 d) n h =
      (cstr h.recvbuf).bind fun src =>
        match identifyText src with
        | .unknow => some (-1, h)
        | .method_1 => (zhWebSockHandshake_1 d h).map fun (r, h) => (if r = 0 then 0 else -1, h)
        | .method_2 => (zhWebSockHandshake_2 d h).map fun (r, h) => (if r = 0 then 0 else -1, h) := by
  unfold zhWebSockHandshake zhWebSockIdentify
  rw [if_neg (by rw [hm]; decide), if_neg (by omega)]
  cases cstr h.recvbuf <;> rfl

/-- The first four bytes are not looked at. -/
theorem handshake_short (hm : h.hs.method = .unknow) (hn : n ≤ 4) :
    zhWebSockHandshake (zhWebSockHandshake_1 d) (zhWebSockHandshake_2 d) n h = some (-1, h) := by
  unfold zhWebSockHandshake zhWebSockIdentify
  rw [if_neg (by rw [hm]; decide), if_pos hn]
  rfl

/-- A text without a complete request, or without a key header, changes nothing. -/
theorem handshake_waits {src : Bytes} (hm : h.hs.method = .unknow) (hn : 4 < n) (hsrc : cstr h.recvbuf = some src)
    (hno : requestText src = none ∨ identifyText src = .unknow) :
    zhWebSockHandshake (zhWebSockHandshake_1 d) (zhWebSockHandshake_2 d) n h = some (-1, h) := by
  rw [handshake_eq hm hn, hsrc, Option.bind_some]
  cases hid : identifyText src with
  | unknow => rfl
  | method_1 =>
    rw [hid, or_iff_left (by decide)] at hno
    simp only [zhWebSockHandshake_1, hsrc, Option.bind_some, hno]
    rfl
  | method_2 =>
    rw [hid, or_iff_left (by decide)] at hno
    simp only [zhWebSockHandshake_2, hsrc, Option.bind_some, hno]
    rfl

/-- The return value of `zhWebSockHandshake` hides which failure it was. -/
theorem seen_fold (o : Option (ℤ × Handshake)) :
    (o.map fun (r, h) => ((if r = 0 then 0 else -1 : ℤ), h)).map seen =
      (o.map seen).map fun s => (if s.1 = 0 then 0 else -1, s.2.1, s.2.2) := by
  cases o with
  | none => rfl
  | some p =>
    simp only [Option.map_some, seen]
    by_cases h0 : p.1 = 0
    · simp [h0]
    · simp [h0]

/-- Two calls on texts with the same request, the same key header and the same bytes behind the request. -/
theorem handshake_congr (hsha : ∀ msg, msg.length < 256 → (d.SHA1Result msg).isSome) (hm : h.hs.method = .unknow) (hn : 4 < n)
    {src src' : Bytes} (hsrc : cstr h.recvbuf = some src) (hsrc' : cstr h'.recvbuf = some src')
    (hid : identifyText src = identifyText src') (hreq : requestText src = requestText src') (hhs : h.hs = h'.hs)
    (hlen : h.recvbuf.length = h'.recvbuf.length) (hacc : h.acceptBuf.length = h'.acceptBuf.length)
    (hkey : identifyText src = .method_1 → ∀ t, requestText src = some t →
      load h.recvbuf (t.length + 4) 8 = load h'.recvbuf (t.length + 4) 8) :
    (zhWebSockHandshake (zhWebSockHandshake_1 d) (zhWebSockHandshake_2 d) n h).map seen =
      (zhWebSockHandshake (zhWebSockHandshake_1 d) (zhWebSockHandshake_2 d) n h').map seen := by
  rw [handshake_eq hm hn, handshake_eq (hhs ▸ hm) hn, hsrc, hsrc', Option.bind_some, Option.bind_some, ← hid]
  cases hi : identifyText src with
  | unknow =>
    simp only [Option.map_some, seen, hhs]
    rfl
  | method_1 =>
    simp only [seen_fold, handshake_1_congr hsrc hsrc' hreq hhs hlen hacc (hkey hi)]
  | method_2 =>
    simp only [seen_fold, handshake_2_congr hsrc hsrc' hreq hhs hlen hacc hsha]

/-- Clearing what is behind the bytes received changes nothing where they end, and nothing where a 0 is. -/
theorem getElem?_padded {recvCache : Bytes} {i : ℕ} (hn : n ≤ recvCache.length) (hzero : n ≤ i → recvCache.getD i 0 = 0) :
    (padded recvCache n)[i]? = recvCache[i]? := by
  have htl : (recvCache.take n).length = n := by
    rw [List.length_take]
    omega
  by_cases hlive : i < n
  · rw [padded, List.getElem?_append_left (by omega), List.getElem?_take_of_lt hlive]
  · replace hzero := hzero (not_lt.mp hlive)
    rw [padded, List.getElem?_append_right (by omega), htl, List.getElem?_replicate]
    by_cases hend : i < recvCache.length
    · rw [List.getD_eq_getElem _ _ hend] at hzero
      rw [if_pos (by omega), List.getElem?_eq_getElem hend, hzero]
    · rw [if_neg (by omega), List.getElem?_eq_none (not_lt.mp hend)]

/-- **A call with harmless stale bytes** sees what it would see on a cleared cache. -/
theorem handshake_padded (hsha : ∀ msg, msg.length < 256 → (d.SHA1Result msg).isSome) {recvCache a a' : Bytes} {hs : TzhWebSocket}
    (hm : hs.method = .unknow) (hn : n ≤ recvCache.length) (hclean : 4 < n → CleanCache recvCache n)
    (ha : a.length = a'.length) :
    (zhWebSockHandshake (zhWebSockHandshake_1 d) (zhWebSockHandshake_2 d) n ⟨recvCache, hs, a⟩).map seen =
      (zhWebSockHandshake (zhWebSockHandshake_1 d) (zhWebSockHandshake_2 d) n
        ⟨padded recvCache n, hs, a'⟩).map seen := by
  have hwait : ∀ b b' : Bytes, (some ((-1 : ℤ), Handshake.mk b hs a)).map seen =
      (some ((-1 : ℤ), Handshake.mk b' hs a')).map seen := by
    intro b b'
    rfl
  by_cases h4 : 4 < n
  swap
  · rw [handshake_short hm (by omega), handshake_short hm (by omega)]
    exact hwait _ _
  obtain ⟨hterm, hharm⟩ := hclean h4
  by_cases hfull : recvCache.length ≤ n
  · -- a full cache has no stale bytes
    rw [padded_of_le hfull]
    cases hsrc : cstr recvCache with
    | none => rw [handshake_eq hm h4, handshake_eq hm h4, hsrc]; rfl
    | some src => exact handshake_congr hsha hm h4 hsrc hsrc rfl rfl rfl rfl ha fun _ _ _ => rfl
  rw [not_le] at hfull
  obtain ⟨src, hsrc⟩ : ∃ src, cstr recvCache = some src :=
    ⟨_, if_pos (hterm.resolve_right (not_le.mpr hfull))⟩
  obtain ⟨y, rfl⟩ := ownText_prefix n hsrc
  have hharmless := hharm _ hsrc
  cases hreq : requestText (ownText recvCache n) with
  | none =>
    rw [handshake_waits hm h4 hsrc (hharmless.incomplete hreq),
      handshake_waits hm h4 (cstr_padded hfull) (Or.inl hreq)]
    exact hwait _ _
  | some t =>
    have hid := hharmless.complete t hreq
    have hsame := requestText_append hreq y
    refine handshake_congr hsha hm h4 hsrc (cstr_padded hfull) hid (hsame.trans hreq.symm) rfl
      (padded_length hn).symm ha fun hone t' ht' => ?_
    obtain rfl := Option.some.inj (hsame.symm.trans ht')
    refine load_ext (padded_length hn).symm fun i _ hi => ?_
    exact (getElem?_padded hn fun hin => hharmless.key3 t hreq (hid ▸ hone) i (by omega) (by omega)).symm

/-- The method afterwards tells which texts were taken for a request. -/
theorem handshake_tells {src : Bytes} {r : ℤ × Handshake} (hm : h.hs.method = .unknow) (hn : 4 < n)
    (hsrc : cstr h.recvbuf = some src)
    (hrun : zhWebSockHandshake (zhWebSockHandshake_1 d) (zhWebSockHandshake_2 d) n h = some r) :
    r.2.hs.method = if requestText src = none then .unknow else identifyText src := by
  by_cases hno : requestText src = none ∨ identifyText src = .unknow
  · rw [handshake_waits hm hn hsrc hno] at hrun
    obtain rfl := Option.some.inj hrun
    rcases hno with hno | hno
    · rw [if_pos hno, hm]
    · rw [hno, ite_self, hm]
  · rw [not_or] at hno
    rw [handshake_eq hm hn, hsrc, Option.bind_some] at hrun
    rw [if_neg hno.1]
    cases hid : identifyText src with
    | unknow => exact absurd hid hno.2
    | method_1 =>
      rw [hid] at hrun
      obtain ⟨q, hq, rfl⟩ := Option.map_eq_some_iff.mp hrun
      rcases handshake_1_case hq with ⟨-, hnone⟩ | ⟨-, hmethod, -⟩
      · exact absurd (hnone src hsrc) hno.1
      · exact hmethod
    | method_2 =>
      rw [hid] at hrun
      obtain ⟨q, hq, rfl⟩ := Option.map_eq_some_iff.mp hrun
      rcases handshake_2_case hq with ⟨-, hnone⟩ | ⟨-, hmethod, -⟩
      · exact absurd (hnone src hsrc) hno.1
      · exact hmethod

/-- The other direction for the text: where the same is seen as on a cleared cache, the stale bytes neither
complete a request nor bring a key header to a complete one. -/
theorem harmless_of_seen {recvCache a a' src : Bytes} {hs : TzhWebSocket} {r r' : ℤ × Handshake}
    (hm : hs.method = .unknow) (h4 : 4 < n) (hn : n < recvCache.length) (hsrc : cstr recvCache = some src)
    (hrun : zhWebSockHandshake (zhWebSockHandshake_1 d) (zhWebSockHandshake_2 d) n ⟨recvCache, hs, a⟩ = some r)
    (hrun' : zhWebSockHandshake (zhWebSockHandshake_1 d) (zhWebSockHandshake_2 d) n
      ⟨padded recvCache n, hs, a'⟩ = some r') (hseen : seen r = seen r') :
    (requestText (ownText recvCache n) = none → requestText src = none ∨ identifyText src = .unknow) ∧
      ∀ t, requestText (ownText recvCache n) = some t →
        identifyText src = identifyText (ownText recvCache n) := by
  have hmethod : r.2.hs.method = r'.2.hs.method := by rw [(Prod.mk.inj (Prod.mk.inj hseen).2).1]
  rw [handshake_tells hm h4 hsrc hrun, handshake_tells hm h4 (cstr_padded hn) hrun'] at hmethod
  constructor
  · intro hreq
    rw [if_pos hreq] at hmethod
    split_ifs at hmethod with hno
    · exact Or.inl hno
    · exact Or.inr hmethod
  · intro t hreq
    obtain ⟨y, rfl⟩ := ownText_prefix n hsrc
    rwa [requestText_append hreq y, hreq, if_neg (Option.some_ne_none t), if_neg (Option.some_ne_none t)]
      at hmethod

end Call

/-! ## One callback -/

/-- The texts written. -/
def written (out : List WSockOut) : List Bytes :=
  out.filterMap fun o => match o with
    | .write _ buf => some buf
    | _ => none

/-- Taking a frame out of the cache leaves the fields alone and writes nothing. -/
theorem extract_keeps {w w' : TzhWSockClient} {out : List WSockOut} (h : extract w = some (w', out)) :
    w'.hs = w.hs ∧ w'.recvCache.length = w.recvCache.length ∧ written out = [] := by
  obtain ⟨⟨totle, p⟩, -, h⟩ := Option.bind_eq_some_iff.mp h
  obtain ⟨out', hrec, h⟩ := Option.bind_eq_some_iff.mp h
  split_ifs at h
  obtain ⟨recvCache, hmove, h⟩ := Option.map_eq_some_iff.mp h
  obtain ⟨rfl, rfl⟩ := Prod.mk.inj h
  refine ⟨rfl, moveDown_length hmove, ?_⟩
  obtain ⟨str, -, hrec⟩ := Option.bind_eq_some_iff.mp hrec
  split_ifs at hrec
  · obtain ⟨r, -, rfl⟩ := Option.map_eq_some_iff.mp hrec
    rfl
  · obtain rfl := Option.some.inj hrec
    rfl

/-- The outcomes of a handshake: there was one before, nothing has happened yet, or this is it. -/
inductive CallCase (h : Handshake) : ℤ × Handshake → Prop
  | before (hm : h.hs.method ≠ .unknow) : CallCase h (1, h)
  | waits (hm : h.hs.method = .unknow) : CallCase h (-1, h)
  | done (h' : Handshake) (hm : h'.hs.method ≠ .unknow) (hr : h'.recvbuf.length = h.recvbuf.length)
      (ha : h'.acceptBuf.length = h.acceptBuf.length) : CallCase h (0, h')

section Callback

variable {d : Digests}

theorem callCase_of_handshake {m : EzhWebSocketMethod} (hne : m ≠ .unknow) {h : Handshake} {r : ℤ × Handshake}
    (hm : h.hs.method = .unknow) (hc : HandshakeCase m h r) : CallCase h (if r.1 = 0 then 0 else -1, r.2) := by
  rcases hc with ⟨rfl, -⟩ | ⟨h0, hmethod, hr, ha⟩
  · exact .waits hm
  · rw [if_pos h0]
    exact .done r.2 (hmethod ▸ hne) hr ha

theorem handshake_case {h : Handshake} {n : ℕ} {r : ℤ × Handshake}
    (hrun : zhWebSockHandshake (zhWebSockHandshake_1 d) (zhWebSockHandshake_2 d) n h = some r) : CallCase h r := by
  by_cases hm : h.hs.method = .unknow
  · by_cases hn : 4 < n
    · rw [handshake_eq hm hn] at hrun
      obtain ⟨src, -, hrun⟩ := Option.bind_eq_some_iff.mp hrun
      cases hid : identifyText src with
      | unknow =>
        rw [hid] at hrun
        obtain rfl := Option.some.inj hrun
        exact .waits hm
      | method_1 =>
        rw [hid] at hrun
        obtain ⟨q, hq, rfl⟩ := Option.map_eq_some_iff.mp hrun
        exact callCase_of_handshake (by decide) hm (handshake_1_case hq)
      | method_2 =>
        rw [hid] at hrun
        obtain ⟨q, hq, rfl⟩ := Option.map_eq_some_iff.mp hrun
        exact callCase_of_handshake (by decide) hm (handshake_2_case hq)
    · rw [handshake_short hm (by omega)] at hrun
      obtain rfl := Option.some.inj hrun
      exact .waits hm
  · rw [zhWebSockHandshake, if_pos hm] at hrun
    obtain rfl := Option.some.inj hrun
    exact .before hm

/-- **One callback**: the fields and the text written are those of the handshake; while nothing has happened
the cache is kept as it is. -/
theorem recv_cb_case {sock_fd : ℕ} {g g₁ : WSockServ} {c : Bytes} {out : List WSockOut}
    (h : websock_recv_cb (zhWebSockHandshake_1 d) (zhWebSockHandshake_2 d) sock_fd g c = some (g₁, out)) :
    ∃ recvCache r, store g.wsclient.recvCache g.wsclient.recvLen c = some recvCache ∧
      zhWebSockHandshake (zhWebSockHandshake_1 d) (zhWebSockHandshake_2 d) (g.wsclient.recvLen + c.length)
        ⟨recvCache, g.wsclient.hs, g.wssocket_acceptBuf⟩ = some r ∧
      g₁.wsclient.hs = r.2.hs ∧ g₁.wsclient.recvCache.length = r.2.recvbuf.length ∧
      g₁.wssocket_acceptBuf = r.2.acceptBuf ∧ written out = (seen r).2.2.toList ∧
      (r.1 = -1 → g₁.wsclient.recvCache = r.2.recvbuf ∧ g₁.wsclient.recvLen = g.wsclient.recvLen + c.length) := by
  rw [recv_cb_unfold] at h
  obtain ⟨recvCache, hst, h⟩ := Option.bind_eq_some_iff.mp h
  obtain ⟨r, hrun, h⟩ := Option.bind_eq_some_iff.mp h
  refine ⟨recvCache, r, hst, hrun, ?_⟩
  have hclosed : written (if recvCacheSize < g.wsclient.recvLen + c.length then [.close g.wsclient.pespconn] else []) =
      [] := by
    split_ifs <;> rfl
  dsimp only at h
  by_cases h0 : r.1 = 0
  · rw [if_pos h0] at h
    obtain ⟨text, htext, h⟩ := Option.map_eq_some_iff.mp h
    obtain ⟨rfl, rfl⟩ := Prod.mk.inj h
    refine ⟨rfl, rfl, rfl, ?_, fun hneg => by omega⟩
    rw [written, List.filterMap_append]
    show written _ ++ [text] = _
    rw [hclosed, seen, if_pos h0, htext]
    rfl
  rw [if_neg h0] at h
  by_cases h1 : r.1 = 1
  · rw [if_pos h1] at h
    obtain ⟨q, hext, h⟩ := Option.map_eq_some_iff.mp h
    obtain ⟨rfl, rfl⟩ := Prod.mk.inj h
    obtain ⟨hhs, hlen, hout⟩ := extract_keeps hext
    refine ⟨hhs, hlen, rfl, ?_, fun hneg => by omega⟩
    rw [written, List.filterMap_append]
    show written _ ++ written q.2 = _
    rw [hclosed, hout, seen, if_neg h0]
    rfl
  · rw [if_neg h1] at h
    obtain ⟨rfl, rfl⟩ := Prod.mk.inj (Option.some.inj h)
    refine ⟨rfl, rfl, rfl, ?_, fun _ => ⟨rfl, rfl⟩⟩
    rw [hclosed, seen, if_neg h0]
    rfl

/-! ## Histories -/

/-- The sizes of the two buffers. -/
structure Sized (g : WSockServ) : Prop where
  recvCache : g.wsclient.recvCache.length = recvCacheSize
  acceptBuf : g.wssocket_acceptBuf.length = 512

theorem recv_cb_sized {sock_fd : ℕ} {g g₁ : WSockServ} {c : Bytes} {out : List WSockOut} (hg : Sized g)
    (h : websock_recv_cb (zhWebSockHandshake_1 d) (zhWebSockHandshake_2 d) sock_fd g c = some (g₁, out)) :
    Sized g₁ := by
  obtain ⟨recvCache, r, hst, hrun, -, hlen, hacc, -, -⟩ := recv_cb_case h
  have hcache := (store_length hst).trans hg.recvCache
  cases handshake_case hrun with
  | before hm => exact ⟨hlen.trans hcache, by rw [hacc]; exact hg.acceptBuf⟩
  | waits hm => exact ⟨hlen.trans hcache, by rw [hacc]; exact hg.acceptBuf⟩
  | done h' hm hr ha => exact ⟨hlen.trans (hr.trans hcache), by rw [hacc]; exact ha.trans hg.acceptBuf⟩

theorem wsockStep_sized {g g₁ : WSockTasks} {e : WSockEvent} {out : List WSockOut} (hg : Sized g.serv)
    (h : wsockStep (zhWebSockHandshake_1 d) (zhWebSockHandshake_2 d) g e = some (g₁, out)) : Sized g₁.serv := by
  cases e with
  | accept fd =>
    obtain ⟨rfl, -⟩ := Prod.mk.inj (Option.some.inj h)
    exact ⟨hg.recvCache, hg.acceptBuf⟩
  | recv recv_buf =>
    unfold wsockStep at h
    split_ifs at h
    · obtain ⟨⟨serv, o⟩, hcb, h⟩ := Option.map_eq_some_iff.mp h
      obtain ⟨rfl, -⟩ := Prod.mk.inj h
      exact recv_cb_sized hg hcb
    · obtain ⟨rfl, -⟩ := Prod.mk.inj (Option.some.inj h)
      exact hg
  | gone =>
    unfold wsockStep at h
    split_ifs at h
    · obtain ⟨rfl, -⟩ := Prod.mk.inj (Option.some.inj h)
      exact ⟨hg.recvCache, hg.acceptBuf⟩
    · obtain ⟨rfl, -⟩ := Prod.mk.inj (Option.some.inj h)
      exact hg

/-- No history changes the sizes. -/
theorem wsockRun_sized : ∀ {es : List WSockEvent} {g g' : WSockTasks}, Sized g.serv →
    wsockRun (zhWebSockHandshake_1 d) (zhWebSockHandshake_2 d) g es = some g' → Sized g'.serv
  | [], g, g', hg, h => Option.some.inj h ▸ hg
  | e :: es, g, g', hg, h => by
    obtain ⟨p, hstep, h⟩ := Option.bind_eq_some_iff.mp h
    exact wsockRun_sized (wsockStep_sized hg hstep) h

theorem wsockBoot_sized : Sized wsockBoot.serv := ⟨List.length_replicate, List.length_replicate⟩

/-! ## Two connections -/

/-- What two connections that received the same chunks have in common: the fields, and before the handshake
the bytes received. -/
structure Alike (g g' : WSockServ) : Prop where
  sized : Sized g
  sized' : Sized g'
  hs : g.wsclient.hs = g'.wsclient.hs
  recvLen : g.wsclient.hs.method = .unknow → g.wsclient.recvLen = g'.wsclient.recvLen
  live : g.wsclient.hs.method = .unknow → g.live = g'.live

/-- Right after the accept. -/
theorem Alike.accept {g g' : WSockTasks} (hg : Sized g.serv) (hg' : Sized g'.serv) (fd fd' : ℕ) :
    Alike (app_websocket_task_accept g fd).1.serv (app_websocket_task_accept g' fd').1.serv where
  sized := ⟨hg.recvCache, hg.acceptBuf⟩
  sized' := ⟨hg'.recvCache, hg'.acceptBuf⟩
  hs := rfl
  recvLen _ := rfl
  live _ := rfl

variable {g g' : WSockServ} {c : Bytes}

/-- The next chunk leaves the received bytes the same. -/
theorem Alike.stored (h : Alike g g') (hm : g.wsclient.hs.method = .unknow) {b b' : Bytes}
    (hb : store g.wsclient.recvCache g.wsclient.recvLen c = some b)
    (hb' : store g'.wsclient.recvCache g'.wsclient.recvLen c = some b') :
    b.take (g.wsclient.recvLen + c.length) = b'.take (g'.wsclient.recvLen + c.length) := by
  have hlive : g.wsclient.recvCache.take g.wsclient.recvLen = g'.wsclient.recvCache.take g'.wsclient.recvLen :=
    h.live hm
  rw [store_take hb, store_take hb', hlive]

/-- **One call of each**: with harmless stale bytes in both, the same is seen. -/
theorem Alike.seen_eq (hsha : ∀ msg, msg.length < 256 → (d.SHA1Result msg).isSome) (h : Alike g g') (hc : CleanCall g c)
    (hc' : CleanCall g' c) {s s' : Option (ℤ × TzhWebSocket × Option Bytes)}
    (hs : handshakeSeen d g c = some s) (hs' : handshakeSeen d g' c = some s') : s = s' := by
  obtain ⟨b, hb, rfl⟩ := Option.map_eq_some_iff.mp hs
  obtain ⟨b', hb', rfl⟩ := Option.map_eq_some_iff.mp hs'
  have hbl := (store_length hb).trans h.sized.recvCache
  have hbl' := (store_length hb').trans h.sized'.recvCache
  have hacc : g.wssocket_acceptBuf.length = g'.wssocket_acceptBuf.length :=
    h.sized.acceptBuf.trans h.sized'.acceptBuf.symm
  by_cases hm : g.wsclient.hs.method = .unknow
  · have hm' : g'.wsclient.hs.method = .unknow := h.hs ▸ hm
    have hfit := (store_eq_some hb).1
    have hfit' := (store_eq_some hb').1
    have hpad := handshake_padded hsha hm (n := g.wsclient.recvLen + c.length) (by rw [store_length hb]; exact hfit)
      (fun h4 => hc hm h4 b hb) hacc
    have hpad' := handshake_padded hsha hm' (n := g'.wsclient.recvLen + c.length)
      (by rw [store_length hb']; exact hfit') (fun h4 => hc' hm' h4 b' hb') (a := g'.wssocket_acceptBuf) rfl
    have hsame : padded b (g.wsclient.recvLen + c.length) = padded b' (g'.wsclient.recvLen + c.length) := by
      rw [padded, padded, h.stored hm hb hb', hbl, hbl', h.recvLen hm]
    rw [hpad, hpad', hsame, h.recvLen hm, h.hs]
  · rw [zhWebSockHandshake, zhWebSockHandshake, if_pos hm, if_pos (h.hs ▸ hm)]
    simp only [Option.map_some, seen, h.hs]
    rfl

/-- **One callback of each**: the connections stay alike. -/
theorem Alike.step (h : Alike g g') {fd fd' : ℕ} {g₁ g₁' : WSockServ} {out out' : List WSockOut}
    (hseen : handshakeSeen d g c = handshakeSeen d g' c)
    (hcb : websock_recv_cb (zhWebSockHandshake_1 d) (zhWebSockHandshake_2 d) fd g c = some (g₁, out))
    (hcb' : websock_recv_cb (zhWebSockHandshake_1 d) (zhWebSockHandshake_2 d) fd' g' c = some (g₁', out')) :
    Alike g₁ g₁' := by
  obtain ⟨b, r, hb, hrun, hhs, -, -, -, hkept⟩ := recv_cb_case hcb
  obtain ⟨b', r', hb', hrun', hhs', -, -, -, hkept'⟩ := recv_cb_case hcb'
  rw [handshakeSeen, handshakeSeen, hb, hb', Option.map_some, Option.map_some, hrun, hrun'] at hseen
  obtain ⟨hret, hfields⟩ := Prod.mk.inj (Option.some.inj (Option.some.inj hseen))
  have hsame : r.2.hs = r'.2.hs := (Prod.mk.inj hfields).1
  -- a client that has no method yet is one for which nothing has happened
  have hwait : r.2.hs.method = .unknow → g.wsclient.hs.method = .unknow ∧ r.1 = -1 ∧ r.2.recvbuf = b := by
    cases handshake_case hrun with
    | before hm => exact fun hu => absurd hu hm
    | waits hm => exact fun _ => ⟨hm, rfl, rfl⟩
    | done h' hm _ _ => exact fun hu => absurd hu hm
  have hwait' : r'.2.hs.method = .unknow → r'.2.recvbuf = b' := by
    cases handshake_case hrun' with
    | before hm => exact fun hu => absurd hu hm
    | waits hm => exact fun _ => rfl
    | done h' hm _ _ => exact fun hu => absurd hu hm
  refine ⟨recv_cb_sized h.sized hcb, recv_cb_sized h.sized' hcb', by rw [hhs, hhs', hsame], ?_, ?_⟩
  · intro hu
    rw [hhs] at hu
    obtain ⟨hm, hneg, -⟩ := hwait hu
    rw [(hkept hneg).2, (hkept' (hret ▸ hneg)).2, h.recvLen hm]
  · intro hu
    rw [hhs] at hu
    obtain ⟨hm, hneg, hbuf⟩ := hwait hu
    obtain ⟨hcache, hlen⟩ := hkept hneg
    obtain ⟨hcache', hlen'⟩ := hkept' (hret ▸ hneg)
    rw [WSockServ.live, WSockServ.live, hcache, hlen, hcache', hlen', hbuf, hwait' (hsame ▸ hu)]
    exact h.stored hm hb hb'

/-- **A run of each**, as far as both are defined. -/
theorem Alike.run (hsha : ∀ msg, msg.length < 256 → (d.SHA1Result msg).isSome) {fd fd' : ℕ} (cs : List Bytes) :
    ∀ {g g' : WSockServ}, Alike g g' → AllClean d fd g cs → AllClean d fd' g' cs →
      handshakes d fd g cs <+: handshakes d fd' g' cs ∨ handshakes d fd' g' cs <+: handshakes d fd g cs := by
  induction cs with
  | nil => exact fun _ _ _ => Or.inl List.nil_prefix
  | cons c cs ih =>
    intro g g' h hclean hclean'
    rw [handshakes, handshakes]
    cases hs : handshakeSeen d g c with
    | none => exact Or.inl List.nil_prefix
    | some s =>
      cases hs' : handshakeSeen d g' c with
      | none => exact Or.inr List.nil_prefix
      | some s' =>
        obtain rfl := h.seen_eq hsha hclean.1 hclean'.1 hs hs'
        simp only [List.cons_prefix_cons, true_and]
        cases hcb : websock_recv_cb (zhWebSockHandshake_1 d) (zhWebSockHandshake_2 d) fd g c with
        | none => exact Or.inl List.nil_prefix
        | some p =>
          cases hcb' : websock_recv_cb (zhWebSockHandshake_1 d) (zhWebSockHandshake_2 d) fd' g' c with
          | none => exact Or.inr List.nil_prefix
          | some p' => exact ih (h.step (hs.trans hs'.symm) hcb hcb') (hclean.2 p hcb) (hclean'.2 p' hcb')

/-- **Isolation**: after any two histories the handshakes of a fresh connection that receives the same chunks
return the same values, set the same fields and write the same text, when no call meets harmful stale bytes. -/
theorem handshakes_isolated (hsha : ∀ msg, msg.length < 256 → (d.SHA1Result msg).isSome) {es es' : List WSockEvent}
    {g g' : WSockTasks}
    (hrun : wsockRun (zhWebSockHandshake_1 d) (zhWebSockHandshake_2 d) wsockBoot es = some g)
    (hrun' : wsockRun (zhWebSockHandshake_1 d) (zhWebSockHandshake_2 d) wsockBoot es' = some g') {fd fd' : ℕ}
    {cs : List Bytes} (hclean : AllClean d fd (app_websocket_task_accept g fd).1.serv cs)
    (hclean' : AllClean d fd' (app_websocket_task_accept g' fd').1.serv cs) :
    handshakes d fd (app_websocket_task_accept g fd).1.serv cs <+:
        handshakes d fd' (app_websocket_task_accept g' fd').1.serv cs ∨
      handshakes d fd' (app_websocket_task_accept g' fd').1.serv cs <+:
        handshakes d fd (app_websocket_task_accept g fd).1.serv cs :=
  (Alike.accept (wsockRun_sized wsockBoot_sized hrun) (wsockRun_sized wsockBoot_sized hrun') fd fd').run hsha cs
    hclean hclean'

/-! ## The first connection -/

/-- A cache that is cleared behind the bytes received is harmless. -/
theorem cleanCache_padded {b : Bytes} {n : ℕ} (hn : n ≤ b.length) (hb : padded b n = b) : CleanCache b n := by
  have hsrc : ∀ src, cstr b = some src → src = ownText b n := by
    intro src h
    by_cases hlt : n < b.length
    · have hown := cstr_padded hlt
      rw [hb] at hown
      exact Option.some.inj (h.symm.trans hown)
    · obtain ⟨rest, hrest, h0⟩ := cstr_eq_some.mp h
      rw [ownText, List.take_of_length_le (not_lt.mp hlt), hrest, takeWhile_ne h0]
  have hzero : ∀ i, n ≤ i → b.getD i 0 = 0 := by
    intro i hi
    have htl : (b.take n).length = n := by
      rw [List.length_take]
      omega
    rw [← hb, padded, List.getD_append_right _ _ _ _ (by omega), htl]
    by_cases hend : i - n < b.length - n
    · exact List.getD_replicate 0 hend
    · rw [List.getD_eq_default _ _ (by rw [List.length_replicate]; omega)]
  refine ⟨?_, fun src h => ?_⟩
  · by_cases hlt : n < b.length
    · left
      rw [← hb, padded]
      exact List.mem_append_right _ (List.mem_replicate.mpr ⟨by omega, rfl⟩)
    · exact Or.inr (not_lt.mp hlt)
  · obtain rfl := hsrc src h
    exact ⟨Or.inl, fun _ _ => rfl, fun _ _ _ i hi _ => hzero i hi⟩

/-- A chunk behind the bytes received leaves the rest cleared. -/
theorem padded_store {m b : Bytes} {n : ℕ} (hm : padded m n = m) (h : store m n c = some b) :
    padded b (n + c.length) = b := by
  have hfit := (store_eq_some h).1
  have htl : (m.take n).length = n := by
    rw [List.length_take]
    omega
  have hrest : m.drop n = List.replicate (m.length - n) 0 := by
    have hcut := congrArg (List.drop n) hm
    rw [padded, List.drop_left' htl] at hcut
    exact hcut.symm
  have hdrop : b.drop (n + c.length) = List.replicate (b.length - (n + c.length)) 0 := by
    rw [store_drop h le_rfl, store_length h, ← List.drop_drop, hrest, List.drop_replicate, Nat.sub_sub]
  rw [padded, ← hdrop, List.take_append_drop]

/-- A connection that has found a cleared cache. -/
structure FirstClient (g : WSockServ) : Prop where
  sized : Sized g
  cleared : g.wsclient.hs.method = .unknow → padded g.wsclient.recvCache g.wsclient.recvLen = g.wsclient.recvCache

theorem FirstClient.step {fd : ℕ} {g₁ : WSockServ} {out : List WSockOut} (h : FirstClient g)
    (hcb : websock_recv_cb (zhWebSockHandshake_1 d) (zhWebSockHandshake_2 d) fd g c = some (g₁, out)) :
    FirstClient g₁ := by
  obtain ⟨b, r, hb, hrun, hhs, -, -, -, hkept⟩ := recv_cb_case hcb
  refine ⟨recv_cb_sized h.sized hcb, fun hu => ?_⟩
  rw [hhs] at hu
  cases handshake_case hrun with
  | before hm => exact absurd hu hm
  | waits hm =>
    obtain ⟨hcache, hlen⟩ := hkept rfl
    rw [hcache, hlen]
    exact padded_store (h.cleared hm) hb
  | done h' hm _ _ => exact absurd hu hm

theorem FirstClient.allClean {fd : ℕ} (cs : List Bytes) : ∀ {g : WSockServ}, FirstClient g → AllClean d fd g cs := by
  induction cs with
  | nil => exact fun _ => trivial
  | cons c cs ih =>
    intro g h
    refine ⟨fun hm _ b hb => ?_, fun p hcb => ih (h.step hcb)⟩
    have hfit := (store_eq_some hb).1
    exact cleanCache_padded (by rw [store_length hb]; exact hfit) (padded_store (h.cleared hm) hb)

theorem firstClient_boot (fd : ℕ) : FirstClient (app_websocket_task_accept wsockBoot fd).1.serv where
  sized := ⟨List.length_replicate, List.length_replicate⟩
  cleared _ := by
    show padded (List.replicate recvCacheSize 0) 0 = List.replicate recvCacheSize 0
    rw [padded, List.take_zero, List.nil_append, List.length_replicate, Nat.sub_zero]

/-- **As on the first connection**: when no call meets harmful stale bytes, the handshakes after a history are
those of the first connection after boot. -/
theorem handshakes_as_first (hsha : ∀ msg, msg.length < 256 → (d.SHA1Result msg).isSome) {es : List WSockEvent}
    {g : WSockTasks} (hrun : wsockRun (zhWebSockHandshake_1 d) (zhWebSockHandshake_2 d) wsockBoot es = some g)
    (fd fd' : ℕ) {cs : List Bytes} (hclean : AllClean d fd (app_websocket_task_accept g fd).1.serv cs) :
    handshakes d fd (app_websocket_task_accept g fd).1.serv cs <+:
        handshakes d fd' (app_websocket_task_accept wsockBoot fd').1.serv cs ∨
      handshakes d fd' (app_websocket_task_accept wsockBoot fd').1.serv cs <+:
        handshakes d fd (app_websocket_task_accept g fd).1.serv cs :=
  (Alike.accept (wsockRun_sized wsockBoot_sized hrun) wsockBoot_sized fd fd').run hsha cs hclean
    ((firstClient_boot fd').allClean cs)

end Callback

/-! ## Plain requests -/

section Samples

/-- The digest that belongs to the key of a request; the others are not asked for. -/
def sampleDigests (words : Vector UInt32 5) : Digests := ⟨fun _ => Vector.replicate 16 0, fun _ => some words⟩

/-- A text without a key header stays in the cache when its client is gone. -/
theorem wsockRun_plain (d : Digests) {x : Bytes} {fd : ℕ} (hfd : 0 < fd) (hx : identifyText x = .unknow)
    (h0 : 0 ∉ x) (h4 : 4 < x.length) (hlen : x.length < recvCacheSize) :
    wsockRun (zhWebSockHandshake_1 d) (zhWebSockHandshake_2 d) wsockBoot [.accept fd, .recv x, .gone] =
      some ⟨0, ⟨⟨0, zhWebSockInit, x ++ List.replicate (recvCacheSize - x.length) 0, 0⟩, List.replicate 512 0⟩⟩ := by
  have hst : store (List.replicate recvCacheSize 0) 0 x =
      some (x ++ List.replicate (recvCacheSize - x.length) 0) := by
    rw [store_of_le (by rw [List.length_replicate]; omega), List.take_zero, List.nil_append, Nat.zero_add,
      List.drop_replicate]
  have hsrc : cstr (x ++ List.replicate (recvCacheSize - x.length) 0) = some x :=
    cstr_append_zeros h0 (by omega)
  have hwait : zhWebSockHandshake (zhWebSockHandshake_1 d) (zhWebSockHandshake_2 d) (0 + x.length)
      ⟨x ++ List.replicate (recvCacheSize - x.length) 0, zhWebSockInit, List.replicate 512 0⟩ =
        some (-1, ⟨x ++ List.replicate (recvCacheSize - x.length) 0, zhWebSockInit, List.replicate 512 0⟩) :=
    handshake_waits rfl (by omega) hsrc (Or.inr hx)
  have hcb : websock_recv_cb (zhWebSockHandshake_1 d) (zhWebSockHandshake_2 d) fd
      ⟨⟨fd, zhWebSockInit, List.replicate recvCacheSize 0, 0⟩, List.replicate 512 0⟩ x =
        some (⟨⟨fd, zhWebSockInit, x ++ List.replicate (recvCacheSize - x.length) 0, 0 + x.length⟩,
          List.replicate 512 0⟩, []) := by
    rw [recv_cb_unfold, hst, Option.bind_some]
    simp only [hwait, Option.bind_some]
    rw [if_neg (by decide), if_neg (by decide), if_neg (by omega)]
  have hrecv : wsockStep (zhWebSockHandshake_1 d) (zhWebSockHandshake_2 d)
      (app_websocket_task_accept wsockBoot fd).1 (.recv x) =
        some (⟨fd, ⟨⟨fd, zhWebSockInit, x ++ List.replicate (recvCacheSize - x.length) 0, 0 + x.length⟩,
          List.replicate 512 0⟩⟩, []) := by
    rw [wsockStep, if_pos (show 0 < (app_websocket_task_accept wsockBoot fd).1.g_wsk_client_fd from hfd)]
    exact congrArg _ hcb
  rw [wsockRun, wsockStep, Option.bind_some, wsockRun, hrecv, Option.bind_some, wsockRun, wsockStep, if_pos hfd]
  rfl

/-- A complete request with the new key is safe from plain text behind it. -/
theorem cleanCache_complete {own stale t : Bytes} (z : Bytes) (h0 : 0 ∉ own ++ stale)
    (hreq : requestText own = some t) (hid : identifyText (own ++ stale) = identifyText own)
    (hne : identifyText own ≠ .method_1) : CleanCache (own ++ stale ++ 0 :: z) own.length := by
  rw [List.mem_append, not_or] at h0
  have hown : ownText (own ++ stale ++ 0 :: z) own.length = own := by
    rw [ownText, List.append_assoc, List.take_left]
    exact takeWhile_self h0.1
  refine ⟨Or.inl (by simp), fun src hsrc => ?_⟩
  have hboth : 0 ∉ own ++ stale := fun h => (List.mem_append.mp h).elim h0.1 h0.2
  obtain rfl := Option.some.inj ((cstr_of_append hboth z).symm.trans hsrc)
  refine ⟨fun h => ?_, fun t' _ => ?_, fun t' _ h => ?_⟩
  · rw [hown, hreq] at h
    cases h
  · rw [hown, hid]
  · rw [hown] at h
    exact absurd h hne

/-- The first chunk of a connection, when it is such a request. -/
theorem cleanCall_complete {g : WSockServ} {c : Bytes} (stale t z : Bytes) (hlen : g.wsclient.recvLen = 0)
    (hcache : g.wsclient.recvCache.drop c.length = stale ++ 0 :: z) (h0 : 0 ∉ c ++ stale)
    (hreq : requestText c = some t) (hid : identifyText (c ++ stale) = identifyText c)
    (hne : identifyText c ≠ .method_1) : CleanCall g c := by
  intro _ _ recvCache hst
  rw [hlen] at hst ⊢
  obtain ⟨-, rfl⟩ := store_eq_some hst
  rw [Nat.zero_add, List.take_zero, List.nil_append, hcache, ← List.append_assoc]
  exact cleanCache_complete z h0 hreq hid hne

def plainText : Bytes := ascii "GET / HTTP/1.1\r\nHost: 192.168.4.1\r\nUser-Agent: b\r\n\r\n"

/-- The globals when the client of `plainText` is gone. -/
def plainTasks : WSockTasks :=
  ⟨0, ⟨⟨0, zhWebSockInit, plainText ++ List.replicate (recvCacheSize - plainText.length) 0, 0⟩,
    List.replicate 512 0⟩⟩

/-- **A request completed by the end of an old one**: the chunk stops inside its key, and the bytes behind it
in the cache end in a blank line. After boot the server waits for more; here it answers. -/
theorem handshakes_leak :
    ¬ ∀ (d : Digests) (es es' : List WSockEvent) (g g' : WSockTasks) (fd fd' : ℕ) (cs : List Bytes),
      (∀ msg, msg.length < 256 → (d.SHA1Result msg).isSome) →
      wsockRun (zhWebSockHandshake_1 d) (zhWebSockHandshake_2 d) wsockBoot es = some g →
      wsockRun (zhWebSockHandshake_1 d) (zhWebSockHandshake_2 d) wsockBoot es' = some g' →
      handshakes d fd (app_websocket_task_accept g fd).1.serv cs <+:
          handshakes d fd' (app_websocket_task_accept g' fd').1.serv cs ∨
        handshakes d fd' (app_websocket_task_accept g' fd').1.serv cs <+:
          handshakes d fd (app_websocket_task_accept g fd).1.serv cs := by
  intro h
  let d := sampleDigests ⟨[0xB44DDB6B, 0xF674D829, 0x91E5ED6C, 0xC8EFB2BE, 0x8030A2EC].toArray, rfl⟩
  have hplain : wsockRun (zhWebSockHandshake_1 d) (zhWebSockHandshake_2 d) wsockBoot
      [.accept 3, .recv plainText, .gone] = some plainTasks :=
    wsockRun_plain d (by decide) (by decide +kernel) (by decide +kernel) (by decide +kernel) (by decide +kernel)
  have hpre := h d [] [.accept 3, .recv plainText, .gone] wsockBoot plainTasks 4 4
    [ascii "GET / HTTP/1.1\r\nSec-WebSocket-Key: a"] (fun _ _ => rfl) rfl hplain
  -- the return values alone tell the runs apart
  have hboot : (handshakes d 4 (app_websocket_task_accept wsockBoot 4).1.serv
      [ascii "GET / HTTP/1.1\r\nSec-WebSocket-Key: a"]).map (Option.map Prod.fst) = [some (-1)] := by
    decide +kernel
  have hstale : (handshakes d 4 (app_websocket_task_accept plainTasks 4).1.serv
      [ascii "GET / HTTP/1.1\r\nSec-WebSocket-Key: a"]).map (Option.map Prod.fst) = [some 0] := by
    decide +kernel
  rcases hpre with hp | hp
  · have := hp.map (Option.map Prod.fst)
    rw [hboot, hstale] at this
    revert this
    decide
  · have := hp.map (Option.map Prod.fst)
    rw [hboot, hstale] at this
    revert this
    decide

def wholeRequest : Bytes := ascii "GET / HTTP/1.1\r\nSec-WebSocket-Key: a\r\n\r\n"

/-- The digest of its key. -/
def wholeDigests : Digests :=
  sampleDigests ⟨[0x16D807F2, 0xAA9F10A1, 0xEF64A119, 0x6045A460, 0x38655CD6].toArray, rfl⟩

/-- A request that brings its own blank line is answered the same behind the same old text. -/
theorem handshakes_isolated_whole :
    handshakes wholeDigests 4 (app_websocket_task_accept wsockBoot 4).1.serv [wholeRequest] <+:
        handshakes wholeDigests 5 (app_websocket_task_accept plainTasks 5).1.serv [wholeRequest] ∨
      handshakes wholeDigests 5 (app_websocket_task_accept plainTasks 5).1.serv [wholeRequest] <+:
        handshakes wholeDigests 4 (app_websocket_task_accept wsockBoot 4).1.serv [wholeRequest] := by
  have hboot : wsockRun (zhWebSockHandshake_1 wholeDigests) (zhWebSockHandshake_2 wholeDigests) wsockBoot [] =
      some wsockBoot := rfl
  have hplain : wsockRun (zhWebSockHandshake_1 wholeDigests) (zhWebSockHandshake_2 wholeDigests) wsockBoot
      [.accept 3, .recv plainText, .gone] = some plainTasks :=
    wsockRun_plain _ (by decide) (by decide +kernel) (by decide +kernel) (by decide +kernel) (by decide +kernel)
  refine handshakes_isolated (fun _ _ => rfl) hboot hplain ⟨?_, fun _ _ => trivial⟩ ⟨?_, fun _ _ => trivial⟩
  · exact cleanCall_complete [] (wholeRequest.take 36) (List.replicate 1959 0) rfl (by decide +kernel)
      (by decide +kernel) (by decide +kernel) (by decide +kernel) (by decide +kernel)
  · exact cleanCall_complete (plainText.drop 40) (wholeRequest.take 36) (List.replicate 1947 0) rfl
      (by decide +kernel) (by decide +kernel) (by decide +kernel) (by decide +kernel) (by decide +kernel)

end Samples

end Esp32Base
