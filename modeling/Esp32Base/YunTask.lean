import Mathlib.Data.List.Perm.Subperm
import Esp32Base.Lib.Calls
import Esp32Base.SysEvent
import Esp32Base.YunConn
import Esp32Base.YunDispatch

/-!
# YunTask — the task of the cloud connection (hxkong_tcp.c)

Round by round `hxtcp_conn` asks the dispatch server for the transfer server, and stays with that until the connection
ends. A socket that is refused is never closed.

* `yun_refines`: which servers are tried over a run, and when the run is defined.
* `yun_runs_out`: what becomes of the descriptors.
-/

namespace Esp32Base

open Lib Lib.Buf Lib.CText

/-- What `gethostbyname`, `socket` and `connect` answer `create_tcp_client`. -/
inductive ClientAnswer
  | unresolved
  | noSocket
  | refused (fd : ℕ)
  | connected (fd : ℕ)
  deriving DecidableEq

def ClientAnswer.connects : ClientAnswer → Bool
  | .connected _ => true
  | _ => false

/-- The log of the task. -/
inductive YunOut
  | attempt (SERVER_HOST : Bytes) (SERVER_PORT : ℤ)
  | opened (fd : ℕ)
  | refused (fd : ℕ)
  | closed (fd : ℕ)
  | dtrs (out : DtrsOut)

/-- `connect_socket`, none for -1, and whether it is connected; a host that is not found is read through NULL. -/
def create_tcp_client (SERVER_HOST : Bytes) (SERVER_PORT : ℤ) (connect_socket : Option ℕ) (answer : ClientAnswer) :
    Option (Option ℕ × Bool × List YunOut) :=
  if SERVER_HOST = [] then some (connect_socket, false, [])
  else if SERVER_PORT = 0 then some (connect_socket, false, [])
  else
    match answer with
    | .unresolved => none
    | .noSocket => some (none, false, [.attempt SERVER_HOST SERVER_PORT])
    | .refused fd => some (some fd, false, [.attempt SERVER_HOST SERVER_PORT, .opened fd, .refused fd])
    | .connected fd => some (some fd, true, [.attempt SERVER_HOST SERVER_PORT, .opened fd])

def hxtcp_close_socket (connect_socket : Option ℕ) : List YunOut := (connect_socket.map .closed).toList

/-- The static socket, what is known of the transfer server, and the globals of `hxkong_yun.c`. -/
structure YunTask where
  connect_socket : Option ℕ
  transServ : TransServ
  yun : YunBuf

/-- Before the first round. -/
def YunTask.boot : YunTask := ⟨some 0, .boot, .zeroed⟩

/-- What the network answers in a round: the two connections, and the results of `recv` on each. -/
structure YunRound where
  dispatch : ClientAnswer
  rvcahce : ℕ → UInt8
  reply : List Bytes
  transfer : ClientAnswer
  chunks : List Bytes
  received : ∀ c ∈ reply ++ chunks, 1 ≤ c.length ∧ c.length ≤ databuffSize

/-- Connect, talk and close. -/
def YunTask.stage (s : YunTask) (host : Bytes) (port : ℤ) (answer : ClientAnswer)
    (talk : YunTask → Option (YunTask × List DtrsOut)) : Option (YunTask × List YunOut) :=
  (create_tcp_client host port s.connect_socket answer).bind fun (connect_socket, ok, out) =>
    if ok then
      (talk ⟨connect_socket, s.transServ, s.yun⟩).map fun (s, sent) =>
        (s, out ++ sent.map .dtrs ++ hxtcp_close_socket connect_socket)
    else some (⟨connect_socket, s.transServ, s.yun⟩, out)

section Round

variable (signed : Bool)

/-- The first inner loop. -/
def YunRound.dispatchTalk (r : YunRound) (s : YunTask) : Option (YunTask × List DtrsOut) :=
  (dispatchConn signed r.rvcahce s.transServ r.reply).map fun transServ => (⟨s.connect_socket, transServ, s.yun⟩, [])

/-- The second one. -/
def YunRound.transferTalk (r : YunRound) (s : YunTask) : Option (YunTask × List DtrsOut) :=
  (runChunks dtrsRecv ⟨false, s.yun⟩ r.chunks).map fun (conn, sent) => (⟨s.connect_socket, s.transServ, conn.yun⟩, sent)

/-- One round of the outer loop of `hxtcp_conn`. -/
def hxtcp_conn (g_thxlinkinfo : ThxtLinkInfo) (s : YunTask) (r : YunRound) : Option (YunTask × List YunOut) :=
  (cstr g_thxlinkinfo.host).bind fun host =>
    (s.stage host g_thxlinkinfo.port r.dispatch (r.dispatchTalk signed)).bind fun (s, out) =>
      (cstr s.transServ.transServIP).bind fun transServIP =>
        (s.stage transServIP s.transServ.transServPort r.transfer r.transferTalk).map fun (s, out') => (s, out ++ out')

end Round

/-! ## The plan -/

/-- A server by its name and port. -/
abbrev Target := Bytes × ℤ

/-- What `create_tcp_client` looks for at all. -/
def Usable (t : Target) : Prop := t.1 ≠ [] ∧ t.2 ≠ 0

instance (t : Target) : Decidable (Usable t) := inferInstanceAs (Decidable (t.1 ≠ [] ∧ t.2 ≠ 0))

/-- The arguments of `g_dtrs_sys_recv` on a connection. -/
def passedOn : Bool → List Bytes → List Bytes
  | _, [] => []
  | isloginDTRS, c :: cs =>
    let l := login isloginDTRS c
    if l.isloginDTRS then l.databuff :: passedOn true cs else passedOn false cs

section Plan

variable (signed : Bool) (link known : Target) (r : YunRound)

/-- The transfer server in a reply. -/
def targetOf : Bytes → Option Target
  | a :: b :: c :: d :: e :: f :: _ =>
    some (printDotted (plainChar signed a).toInt (plainChar signed b).toInt (plainChar signed c).toInt
      (plainChar signed d).toInt, (plainChar signed e ||| (plainChar signed f <<< 8)).toInt)
  | _ => none

/-- What is known of the transfer server behind the dispatch server. -/
def YunRound.learnt : Target :=
  if Usable link ∧ r.dispatch.connects then (targetOf signed r.reply.flatten).getD known else known

/-- The dispatch server and the transfer server that is known by then, as far as they can be looked for. -/
def planStep : Target × List Target :=
  (r.learnt signed link known, [link, r.learnt signed link known].filter fun t => Usable t)

/-- Every host that is looked for is found, and what its server sends fits. -/
structure RoundFits : Prop where
  dispatch : Usable link → r.dispatch ≠ .unresolved ∧ (r.dispatch.connects → PiecesFit 0 r.reply)
  transfer : Usable (r.learnt signed link known) → r.transfer ≠ .unresolved ∧
    (r.transfer.connects → ∀ d ∈ passedOn false r.chunks, d.length ≤ 1400)

end Plan

/-- The servers that were looked for. -/
def YunOut.target : YunOut → Option Target
  | .attempt host port => some (host, port)
  | _ => none

/-- What the task holds of the plan. -/
structure Knows (s : YunTask) (known : Target) : Prop where
  ip : cstr s.transServ.transServIP = some known.1
  port : s.transServ.transServPort = known.2
  yun : s.yun.Wf

theorem knows_boot : Knows .boot ([], 0) := ⟨rfl, rfl, zeroed_wf⟩

/-! ## One stage -/

/-- What a stage can do. -/
inductive Staged (s : YunTask) (host : Bytes) (port : ℤ) (answer : ClientAnswer)
    (talk : YunTask → Option (YunTask × List DtrsOut)) : YunTask → List YunOut → Prop
  | idle (unusable : ¬ Usable (host, port)) : Staged s host port answer talk s []
  | noSocket (usable : Usable (host, port)) (asked : answer = .noSocket) :
    Staged s host port answer talk ⟨none, s.transServ, s.yun⟩ [.attempt host port]
  | refused (usable : Usable (host, port)) (fd : ℕ) (asked : answer = .refused fd) :
    Staged s host port answer talk ⟨some fd, s.transServ, s.yun⟩ [.attempt host port, .opened fd, .refused fd]
  | talked (usable : Usable (host, port)) (fd : ℕ) (asked : answer = .connected fd) (s' : YunTask) (sent : List DtrsOut)
    (talks : talk ⟨some fd, s.transServ, s.yun⟩ = some (s', sent)) :
    Staged s host port answer talk s' (.attempt host port :: .opened fd :: (sent.map .dtrs ++ [.closed fd]))

section Stage

variable {s s' : YunTask} {host : Bytes} {port : ℤ} {answer : ClientAnswer}
  {talk : YunTask → Option (YunTask × List DtrsOut)} {out : List YunOut}

theorem create_usable (h : Usable (host, port)) (sock : Option ℕ) : create_tcp_client host port sock answer =
    match answer with
    | .unresolved => none
    | .noSocket => some (none, false, [.attempt host port])
    | .refused fd => some (some fd, false, [.attempt host port, .opened fd, .refused fd])
    | .connected fd => some (some fd, true, [.attempt host port, .opened fd]) := by
  unfold create_tcp_client
  rw [if_neg h.1, if_neg h.2]

theorem stage_idle (h : ¬ Usable (host, port)) : s.stage host port answer talk = some (s, []) := by
  have hclient : create_tcp_client host port s.connect_socket answer = some (s.connect_socket, false, []) := by
    unfold create_tcp_client
    by_cases hhost : host = []
    · rw [if_pos hhost]
    · rw [if_neg hhost, if_pos (not_not.mp fun hport => h ⟨hhost, hport⟩)]
  rw [YunTask.stage, hclient]
  rfl

theorem stage_staged (h : s.stage host port answer talk = some (s', out)) : Staged s host port answer talk s' out := by
  by_cases husable : Usable (host, port)
  · rw [YunTask.stage, create_usable husable] at h
    cases answer with
    | unresolved => cases h
    | noSocket =>
      obtain ⟨rfl, rfl⟩ := Prod.mk.inj (Option.some.inj h)
      exact .noSocket husable rfl
    | refused fd =>
      obtain ⟨rfl, rfl⟩ := Prod.mk.inj (Option.some.inj h)
      exact .refused husable fd rfl
    | connected fd =>
      obtain ⟨⟨s₁, sent⟩, htalk, heq⟩ := Option.map_eq_some_iff.mp h
      obtain ⟨rfl, rfl⟩ := Prod.mk.inj heq
      exact .talked husable fd rfl s₁ sent htalk
  · rw [stage_idle husable] at h
    obtain ⟨rfl, rfl⟩ := Prod.mk.inj (Option.some.inj h)
    exact .idle husable

/-- A stage is defined iff its host is found and what is said fits. -/
theorem stage_defined_iff {P : Prop} (htalk : ∀ sock, (∃ q, talk ⟨sock, s.transServ, s.yun⟩ = some q) ↔ P) :
    (∃ q, s.stage host port answer talk = some q) ↔
      (Usable (host, port) → answer ≠ .unresolved ∧ (answer.connects → P)) := by
  by_cases husable : Usable (host, port)
  · rw [YunTask.stage, create_usable husable]
    cases answer with
    | unresolved => exact iff_of_false (fun ⟨_, h⟩ => by cases h) fun h => (h husable).1 rfl
    | noSocket | refused fd =>
      exact iff_of_true ⟨_, rfl⟩ fun _ => ⟨ClientAnswer.noConfusion, fun h => absurd h Bool.false_ne_true⟩
    | connected fd =>
      rw [← htalk (some fd)]
      constructor
      · rintro ⟨q, h⟩
        obtain ⟨p, htalks, -⟩ := Option.map_eq_some_iff.mp h
        exact fun _ => ⟨ClientAnswer.noConfusion, fun _ => ⟨p, htalks⟩⟩
      · intro h
        obtain ⟨p, htalks⟩ := (h husable).2 rfl
        exact ⟨_, Option.map_eq_some_iff.mpr ⟨p, htalks, rfl⟩⟩
  · exact iff_of_true ⟨_, stage_idle husable⟩ fun h => absurd h husable

/-- A stage looks for its server at most. -/
theorem Staged.targets (h : Staged s host port answer talk s' out) :
    out.filterMap YunOut.target = [(host, port)].filter fun t => Usable t := by
  have hsent : ∀ sent : List DtrsOut, (sent.map YunOut.dtrs).filterMap YunOut.target = [] := by
    intro sent
    rw [List.filterMap_map]
    exact List.filterMap_eq_nil_iff.mpr fun _ _ => rfl
  cases h with
  | idle unusable => rw [List.filter_cons_of_neg (by simpa using unusable)]; rfl
  | noSocket usable | refused usable fd => rw [List.filter_cons_of_pos (by simpa using usable)]; rfl
  | talked usable fd asked s' sent =>
    have hhead : (YunOut.attempt host port :: .opened fd :: (sent.map .dtrs ++ [.closed fd])).filterMap YunOut.target =
        (host, port) :: (sent.map YunOut.dtrs ++ [YunOut.closed fd]).filterMap YunOut.target := rfl
    rw [List.filter_cons_of_pos (by simpa using usable), hhead, List.filterMap_append, hsent]
    rfl

end Stage

/-! ## What the servers send -/

section Talks

/-- A callback is defined iff its bytes fit. -/
theorem callback_defined_iff {b : YunBuf} (hb : b.Wf) (d : Bytes) :
    (∃ q, dtrs_recv_data_callback b d = some q) ↔ d.length ≤ 1400 := by
  constructor
  · rintro ⟨q, h⟩
    obtain ⟨b₁, hst, -⟩ := Option.bind_eq_some_iff.mp h
    exact (stored_isSome hb).mp (by rw [hst, Option.isSome_some])
  · intro hd
    obtain ⟨b', out, h, -⟩ := ((callback_inside_iff hb d).mpr hd).kept
    exact ⟨_, h⟩

theorem callback_wf {b b' : YunBuf} (hb : b.Wf) {d : Bytes} {out : List (UInt8 × Bytes)}
    (h : dtrs_recv_data_callback b d = some (b', out)) : b'.Wf := by
  obtain ⟨b'', out', hkept, hwf⟩ := ((callback_inside_iff hb d).mpr ((callback_defined_iff hb d).mp ⟨_, h⟩)).kept
  obtain ⟨rfl, -⟩ := Prod.mk.inj (Option.some.inj (h.symm.trans hkept))
  exact hwf

/-- **A connection** to the transfer server. -/
theorem dtrs_run : ∀ (cs : List Bytes) {s : DtrsConn}, s.yun.Wf → (∀ c ∈ cs, c ≠ []) →
    ((∃ q, runChunks dtrsRecv s cs = some q) ↔ ∀ d ∈ passedOn s.isloginDTRS cs, d.length ≤ 1400) ∧
    ∀ s' out, runChunks dtrsRecv s cs = some (s', out) → s'.yun.Wf
  | [], s, hs, _ => by
    refine ⟨iff_of_true ⟨_, rfl⟩ fun d hd => absurd hd List.not_mem_nil, fun s' out h => ?_⟩
    obtain ⟨rfl, -⟩ := Prod.mk.inj (Option.some.inj h)
    exact hs
  | c :: cs, s, hs, hne => by
    have hc := hne c List.mem_cons_self
    have hcs : ∀ c ∈ cs, c ≠ [] := fun d hd => hne d (List.mem_cons_of_mem _ hd)
    by_cases hl : (login s.isloginDTRS c).isloginDTRS = true
    · have hhanded : handed s c = some (login s.isloginDTRS c).databuff := by rw [handed, if_neg hc, if_pos hl]
      have hrecv := dtrsRecv_handed hhanded
      have hpassed : passedOn s.isloginDTRS (c :: cs) = (login s.isloginDTRS c).databuff :: passedOn true cs := if_pos hl
      rw [hpassed, List.forall_mem_cons, ← callback_defined_iff hs]
      refine ⟨⟨?_, ?_⟩, fun s' out h => ?_⟩
      · rintro ⟨⟨s', out⟩, h⟩
        obtain ⟨s₁, o, o', h₁, hrest, -⟩ := runChunks_cons_eq_some.mp h
        obtain ⟨⟨b', calls⟩, hcb, heq⟩ := Option.map_eq_some_iff.mp (hrecv.symm.trans h₁)
        obtain ⟨rfl, -⟩ := Prod.mk.inj heq
        exact ⟨⟨_, hcb⟩, (dtrs_run cs (s := ⟨true, b'⟩) (callback_wf hs hcb) hcs).1.mp ⟨_, hrest⟩⟩
      · rintro ⟨⟨⟨b', calls⟩, hcb⟩, hfit⟩
        obtain ⟨⟨s', o'⟩, hrest⟩ := (dtrs_run cs (s := ⟨true, b'⟩) (callback_wf hs hcb) hcs).1.mpr hfit
        rw [hcb] at hrecv
        exact ⟨_, runChunks_cons_eq_some.mpr ⟨_, _, _, hrecv, hrest, rfl⟩⟩
      · obtain ⟨s₁, o, o', h₁, hrest, -⟩ := runChunks_cons_eq_some.mp h
        obtain ⟨⟨b', calls⟩, hcb, heq⟩ := Option.map_eq_some_iff.mp (hrecv.symm.trans h₁)
        obtain ⟨rfl, -⟩ := Prod.mk.inj heq
        exact (dtrs_run cs (s := ⟨true, b'⟩) (callback_wf hs hcb) hcs).2 s' o' hrest
    · have hhanded : handed s c = none := by rw [handed, if_neg hc, if_neg hl]
      obtain ⟨o, hrecv⟩ := dtrsRecv_kept hhanded
      have hpassed : passedOn s.isloginDTRS (c :: cs) = passedOn false cs := if_neg hl
      obtain ⟨hiff, hwf⟩ := dtrs_run cs (s := ⟨false, s.yun⟩) hs hcs
      rw [hpassed, ← hiff]
      refine ⟨⟨?_, ?_⟩, fun s' out h => ?_⟩
      · rintro ⟨⟨s', out⟩, h⟩
        obtain ⟨s₁, o₁, o', h₁, hrest, -⟩ := runChunks_cons_eq_some.mp h
        obtain ⟨rfl, -⟩ := Prod.mk.inj (Option.some.inj (hrecv.symm.trans h₁))
        exact ⟨_, hrest⟩
      · rintro ⟨⟨s', o'⟩, hrest⟩
        exact ⟨_, runChunks_cons_eq_some.mpr ⟨_, _, _, hrecv, hrest, rfl⟩⟩
      · obtain ⟨s₁, o₁, o', h₁, hrest, -⟩ := runChunks_cons_eq_some.mp h
        obtain ⟨rfl, -⟩ := Prod.mk.inj (Option.some.inj (hrecv.symm.trans h₁))
        exact hwf s' o' hrest

theorem received_ne_nil (r : YunRound) : (∀ c ∈ r.reply, c ≠ []) ∧ ∀ c ∈ r.chunks, c ≠ [] := by
  constructor <;> intro c hc
  · exact List.ne_nil_of_length_pos (r.received c (List.mem_append_left _ hc)).1
  · exact List.ne_nil_of_length_pos (r.received c (List.mem_append_right _ hc)).1

variable {signed : Bool}

theorem targetOf_short : ∀ {reply : Bytes}, reply.length < 6 → targetOf signed reply = none
  | [], _ | [_], _ | [_, _], _ | [_, _, _], _ | [_, _, _, _], _ | [_, _, _, _, _], _ => rfl
  | _ :: _ :: _ :: _ :: _ :: _ :: l, h => absurd h (by simp only [List.length_cons]; omega)

/-- **A connection** to the dispatch server. -/
theorem dispatch_learns (garbage : ℕ → UInt8) {t : TransServ} {known : Target} (hip : cstr t.transServIP = some known.1)
    (hport : t.transServPort = known.2) {reply : Bytes} {chunks : List Bytes} (hne : ∀ c ∈ chunks, c ≠ [])
    (hreply : chunks.flatten = reply) :
    ((∃ t', dispatchConn signed garbage t chunks = some t') ↔ PiecesFit 0 chunks) ∧
    ∀ t', dispatchConn signed garbage t chunks = some t' →
      cstr t'.transServIP = some ((targetOf signed reply).getD known).1 ∧
      t'.transServPort = ((targetOf signed reply).getD known).2 := by
  obtain ⟨hfits, hover⟩ := dispatchConn_eq signed garbage t hne
  by_cases hfit : PiecesFit 0 chunks
  · rw [hfits hfit, hreply]
    by_cases h6 : 6 ≤ reply.length
    · obtain ⟨a, b, c, d, e, f, rest, rfl⟩ := exists_six h6
      obtain ⟨t₁, htake, hip₁, hport₁⟩ := takeAddress_spec signed t a b c d e f rest
      rw [if_pos h6, htake]
      refine ⟨iff_of_true ⟨t₁, rfl⟩ hfit, fun t' ht => ?_⟩
      obtain rfl := Option.some.inj ht
      exact ⟨hip₁, hport₁⟩
    · rw [if_neg h6, targetOf_short (Nat.lt_of_not_le h6)]
      refine ⟨iff_of_true ⟨t, rfl⟩ hfit, fun t' ht => ?_⟩
      obtain rfl := Option.some.inj ht
      exact ⟨hip, hport⟩
  · rw [hover hfit]
    exact ⟨iff_of_false (fun ⟨_, h⟩ => by cases h) hfit, fun _ h => by cases h⟩

end Talks

/-! ## One round -/

section Round

variable {signed : Bool} {g_thxlinkinfo : ThxtLinkInfo} {host : Bytes} {port : ℤ} {s s' : YunTask} {known : Target}
  {r : YunRound} {out : List YunOut}

theorem exists_map_iff {α β : Type} {o : Option α} {f : α → β} : (∃ q, o.map f = some q) ↔ ∃ p, o = some p := by
  cases o with
  | none => exact iff_of_false (fun ⟨_, h⟩ => by cases h) fun ⟨_, h⟩ => by cases h
  | some p => exact iff_of_true ⟨_, rfl⟩ ⟨_, rfl⟩

theorem dispatchTalk_defined_iff (hs : Knows s known) (sock : Option ℕ) :
    (∃ q, r.dispatchTalk signed ⟨sock, s.transServ, s.yun⟩ = some q) ↔ PiecesFit 0 r.reply :=
  exists_map_iff.trans (dispatch_learns r.rvcahce hs.ip hs.port (received_ne_nil r).1 rfl).1

theorem transferTalk_defined_iff (hs : Knows s known) (sock : Option ℕ) :
    (∃ q, r.transferTalk ⟨sock, s.transServ, s.yun⟩ = some q) ↔ ∀ d ∈ passedOn false r.chunks, d.length ≤ 1400 :=
  exists_map_iff.trans (dtrs_run r.chunks (s := ⟨false, s.yun⟩) hs.yun (received_ne_nil r).2).1

/-- What is known behind the dispatch server. -/
theorem Staged.learns (hs : Knows s known) (h : Staged s host port r.dispatch (r.dispatchTalk signed) s' out) :
    Knows s' (r.learnt signed (host, port) known) := by
  cases h with
  | idle unusable =>
    rw [YunRound.learnt, if_neg fun h => unusable h.1]
    exact hs
  | noSocket usable asked | refused usable fd asked =>
    rw [YunRound.learnt, if_neg (by rw [asked]; exact fun h => absurd h.2 Bool.false_ne_true)]
    exact ⟨hs.ip, hs.port, hs.yun⟩
  | talked usable fd asked s' sent talks =>
    rw [YunRound.learnt, if_pos ⟨usable, by rw [asked]; rfl⟩]
    obtain ⟨t, hconn, heq⟩ := Option.map_eq_some_iff.mp talks
    obtain ⟨rfl, -⟩ := Prod.mk.inj heq
    obtain ⟨hip, hport⟩ := (dispatch_learns r.rvcahce hs.ip hs.port (received_ne_nil r).1 rfl).2 t hconn
    exact ⟨hip, hport, hs.yun⟩

/-- Nothing is learnt from the transfer server. -/
theorem Staged.keeps (hs : Knows s known) (h : Staged s host port r.transfer r.transferTalk s' out) :
    Knows s' known := by
  cases h with
  | idle => exact hs
  | noSocket | refused => exact ⟨hs.ip, hs.port, hs.yun⟩
  | talked usable fd asked s' sent talks =>
    obtain ⟨⟨conn, o⟩, hrun, heq⟩ := Option.map_eq_some_iff.mp talks
    obtain ⟨rfl, -⟩ := Prod.mk.inj heq
    exact ⟨hs.ip, hs.port, (dtrs_run r.chunks hs.yun (received_ne_nil r).2).2 conn o hrun⟩

/-- **A round** is its two stages. -/
theorem round_staged (hhost : cstr g_thxlinkinfo.host = some host)
    (h : hxtcp_conn signed g_thxlinkinfo s r = some (s', out)) : ∃ s₁ out₁ ip out₂,
      Staged s host g_thxlinkinfo.port r.dispatch (r.dispatchTalk signed) s₁ out₁ ∧
      cstr s₁.transServ.transServIP = some ip ∧
      Staged s₁ ip s₁.transServ.transServPort r.transfer r.transferTalk s' out₂ ∧ out = out₁ ++ out₂ := by
  rw [hxtcp_conn, hhost, Option.bind_some] at h
  obtain ⟨⟨s₁, out₁⟩, h₁, h⟩ := Option.bind_eq_some_iff.mp h
  obtain ⟨ip, hip, h⟩ := Option.bind_eq_some_iff.mp h
  obtain ⟨⟨s₂, out₂⟩, h₂, heq⟩ := Option.map_eq_some_iff.mp h
  obtain ⟨rfl, rfl⟩ := Prod.mk.inj heq
  exact ⟨s₁, out₁, ip, out₂, stage_staged h₁, hip, stage_staged h₂, rfl⟩

theorem round_defined_iff (hhost : cstr g_thxlinkinfo.host = some host) (hs : Knows s known) :
    (∃ q, hxtcp_conn signed g_thxlinkinfo s r = some q) ↔ RoundFits signed (host, g_thxlinkinfo.port) known r := by
  have hdispatch : (∃ q, s.stage host g_thxlinkinfo.port r.dispatch (r.dispatchTalk signed) = some q) ↔
      (Usable (host, g_thxlinkinfo.port) → r.dispatch ≠ .unresolved ∧ (r.dispatch.connects → PiecesFit 0 r.reply)) :=
    stage_defined_iff (dispatchTalk_defined_iff hs)
  -- behind a first stage that is defined
  have htransfer : ∀ s₁ out₁, Staged s host g_thxlinkinfo.port r.dispatch (r.dispatchTalk signed) s₁ out₁ →
      ((∃ q, s₁.stage (r.learnt signed (host, g_thxlinkinfo.port) known).1 s₁.transServ.transServPort r.transfer
        r.transferTalk = some q) ↔ (Usable (r.learnt signed (host, g_thxlinkinfo.port) known) →
          r.transfer ≠ .unresolved ∧ (r.transfer.connects → ∀ d ∈ passedOn false r.chunks, d.length ≤ 1400))) := by
    intro s₁ out₁ h₁
    have hs₁ := h₁.learns hs
    rw [hs₁.port]
    exact stage_defined_iff (transferTalk_defined_iff hs₁)
  constructor
  · rintro ⟨q, h⟩
    rw [hxtcp_conn, hhost, Option.bind_some] at h
    obtain ⟨⟨s₁, out₁⟩, h₁, h⟩ := Option.bind_eq_some_iff.mp h
    obtain ⟨ip, hip, h⟩ := Option.bind_eq_some_iff.mp h
    obtain ⟨q₂, h₂, -⟩ := Option.map_eq_some_iff.mp h
    have hstaged := stage_staged h₁
    obtain rfl := Option.some.inj (hip.symm.trans (hstaged.learns hs).ip)
    exact ⟨hdispatch.mp ⟨_, h₁⟩, (htransfer s₁ out₁ hstaged).mp ⟨_, h₂⟩⟩
  · intro hfits
    obtain ⟨⟨s₁, out₁⟩, h₁⟩ := hdispatch.mpr hfits.dispatch
    have hstaged := stage_staged h₁
    obtain ⟨⟨s₂, out₂⟩, h₂⟩ := (htransfer s₁ out₁ hstaged).mpr hfits.transfer
    refine ⟨(s₂, out₁ ++ out₂), ?_⟩
    rw [hxtcp_conn, hhost, Option.bind_some, h₁, Option.bind_some]
    dsimp only
    rw [(hstaged.learns hs).ip, Option.bind_some, h₂]
    rfl

/-- **A round** does what is planned. -/
theorem round_plan (hhost : cstr g_thxlinkinfo.host = some host) (hs : Knows s known)
    (h : hxtcp_conn signed g_thxlinkinfo s r = some (s', out)) :
    out.filterMap YunOut.target = (planStep signed (host, g_thxlinkinfo.port) known r).2 ∧
      Knows s' (planStep signed (host, g_thxlinkinfo.port) known r).1 := by
  obtain ⟨s₁, out₁, ip, out₂, h₁, hip, h₂, rfl⟩ := round_staged hhost h
  have hs₁ := h₁.learns hs
  obtain rfl := Option.some.inj (hip.symm.trans hs₁.ip)
  rw [hs₁.port] at h₂
  refine ⟨?_, h₂.keeps hs₁⟩
  rw [List.filterMap_append, h₁.targets, h₂.targets, ← List.filter_append]
  rfl

end Round

/-- **Every run** looks for the servers that are planned, and is defined iff every host is found and what is sent
fits. -/
theorem yun_refines {signed : Bool} {g_thxlinkinfo : ThxtLinkInfo} {host : Bytes}
    (hhost : cstr g_thxlinkinfo.host = some host) (rounds : List YunRound) :
    ((∃ q, runCalls (hxtcp_conn signed g_thxlinkinfo) .boot rounds = some q) ↔
      ∀ pre r post, rounds = pre ++ r :: post → RoundFits signed (host, g_thxlinkinfo.port)
        (mealyRun (planStep signed (host, g_thxlinkinfo.port)) ([], 0) pre).1 r) ∧
    ∀ s out, runCalls (hxtcp_conn signed g_thxlinkinfo) .boot rounds = some (s, out) →
      out.filterMap YunOut.target = (mealyRun (planStep signed (host, g_thxlinkinfo.port)) ([], 0) rounds).2 := by
  obtain ⟨hiff, hout⟩ := runCalls_refines YunOut.target Knows (RoundFits signed (host, g_thxlinkinfo.port))
    (fun s t r hs => round_defined_iff hhost hs) (fun s t r s' out hs h => round_plan hhost hs h) rounds knows_boot
  exact ⟨hiff, fun s out h => (hout s out h).1⟩

/-- A dispatch server in `g_thxlinkinfo`. -/
def sampleLink : ThxtLinkInfo := ⟨ascii "yun" ++ List.replicate 252 0, 8000⟩

/-- The dispatch server is reached, and the transfer server is not. -/
def sampleFirst : YunRound := ⟨.connected 1, fun _ => 0xAA, [[1, 2], [3, 4, 0x40, 0x1F, 7]], .refused 1, [], by decide⟩

/-- The dispatch server is not reached any more. -/
def sampleSecond : YunRound := ⟨.noSocket, fun _ => 0xAA, [], .connected 2, [[0x00], [0x01, 7]], by decide⟩

theorem sampleLink_host : cstr sampleLink.host = some (ascii "yun") := by decide

theorem yun_refines_sample : ∃ s out,
    runCalls (hxtcp_conn false sampleLink) .boot [sampleFirst, sampleSecond] = some (s, out) ∧
      out.filterMap YunOut.target =
        [(ascii "yun", 8000), (ascii "1.2.3.4", 8000), (ascii "yun", 8000), (ascii "1.2.3.4", 8000)] := by
  obtain ⟨hiff, hout⟩ := @yun_refines false _ _ sampleLink_host [sampleFirst, sampleSecond]
  have hfirst : PiecesFit 0 sampleFirst.reply :=
    (piecesFit_cons (by decide) _ _).mpr ⟨by decide, (piecesFit_cons (by decide) _ _).mpr ⟨by decide,
      piecesFit_done (by decide) _⟩⟩
  obtain ⟨⟨s, out⟩, h⟩ := hiff.mpr fun pre r post hrounds => by
    match pre with
    | [] =>
      obtain ⟨rfl, -⟩ := List.cons.inj hrounds
      exact ⟨fun _ => ⟨ClientAnswer.noConfusion, fun _ => hfirst⟩, fun _ => ⟨ClientAnswer.noConfusion, fun h => by cases h⟩⟩
    | [_] =>
      obtain ⟨rfl, -⟩ := List.cons.inj (List.cons.inj hrounds).2
      exact ⟨fun _ => ⟨ClientAnswer.noConfusion, fun h => by cases h⟩, fun _ => ⟨ClientAnswer.noConfusion, fun _ => by decide⟩⟩
    | _ :: _ :: pre => exact absurd (List.cons.inj (List.cons.inj hrounds).2).2 (by simp)
  exact ⟨s, out, h, (hout s out h).trans (by decide +kernel)⟩

/-! ## Descriptors -/

/-- The socket in hand, as long as the log is in order: one at a time, from its opening until it is refused or closed. -/
def YunOut.next : Option ℕ → YunOut → Option (Option ℕ)
  | none, .attempt .. => some none
  | none, .opened fd => some (some fd)
  | some fd, .refused fd' | some fd, .closed fd' => if fd = fd' then some none else none
  | some fd, .dtrs _ => some (some fd)
  | _, _ => none

def YunOut.opens (fds : List ℕ) : YunOut → List ℕ
  | .opened fd => fd :: fds
  | .closed fd => fds.erase fd
  | _ => fds

def YunOut.refusedFd : YunOut → Option ℕ
  | .refused fd => some fd
  | _ => none

/-- The descriptors that are open behind a log. -/
def leftOpen (log : List YunOut) : List ℕ := log.foldl YunOut.opens []

/-- Those of the connections that were refused. -/
def refusedFds (log : List YunOut) : List ℕ := log.filterMap YunOut.refusedFd

section Descriptors

variable {s s' : YunTask} {host : Bytes} {port : ℤ} {answer : ClientAnswer}
  {talk : YunTask → Option (YunTask × List DtrsOut)} {log log' out : List YunOut}

theorem next_dtrs (fd : ℕ) (sent : List DtrsOut) : (sent.map YunOut.dtrs).foldlM YunOut.next (some fd) = some (some fd) := by
  induction sent with
  | nil => rfl
  | cons o sent ih => exact ih

/-- A stage begins and ends with no socket in hand. -/
theorem Staged.next (h : Staged s host port answer talk s' out) : out.foldlM YunOut.next none = some none := by
  cases h with
  | idle | noSocket => rfl
  | refused usable fd =>
    show (if fd = fd then some none else none) >>= _ = _
    rw [if_pos rfl]
    rfl
  | talked usable fd asked s' sent =>
    show (sent.map YunOut.dtrs ++ [YunOut.closed fd]).foldlM YunOut.next (some fd) = some none
    rw [List.foldlM_append, next_dtrs]
    show (if fd = fd then some none else none) >>= _ = _
    rw [if_pos rfl]
    rfl

/-- **The log** of a run is in order. -/
theorem run_next {signed : Bool} {g_thxlinkinfo : ThxtLinkInfo} {hostname : Bytes}
    (hhost : cstr g_thxlinkinfo.host = some hostname) {rounds : List YunRound}
    (h : runCalls (hxtcp_conn signed g_thxlinkinfo) s rounds = some (s', out)) :
    out.foldlM YunOut.next none = some none := by
  have hnil : ([] : List YunOut).foldlM YunOut.next none = some none := rfl
  refine runCalls_history (fun _ past => past.foldlM YunOut.next none = some none) (fun s past r s' o hpast hcall => ?_)
    hnil h
  obtain ⟨s₁, out₁, ip, out₂, h₁, -, h₂, rfl⟩ := round_staged hhost hcall
  rw [List.foldlM_append, hpast, Option.bind_eq_bind, Option.bind_some, List.foldlM_append, h₁.next, Option.bind_eq_bind,
    Option.bind_some, h₂.next]

/-- In a log in order, what is open is the socket in hand and the refused ones. -/
theorem leftOpen_eq {hand : Option ℕ} (h : log.foldlM YunOut.next none = some hand) :
    leftOpen log = hand.toList ++ (refusedFds log).reverse := by
  induction log using List.reverseRecOn generalizing hand with
  | nil =>
    obtain rfl := Option.some.inj h
    rfl
  | append_singleton log o ih =>
    rw [List.foldlM_append] at h
    obtain ⟨hand₁, hlog, hlast⟩ := Option.bind_eq_some_iff.mp h
    obtain ⟨hand₂, hstep, heq⟩ := Option.bind_eq_some_iff.mp hlast
    obtain rfl := Option.some.inj heq
    have hopen : leftOpen (log ++ [o]) = YunOut.opens (leftOpen log) o := by
      rw [leftOpen, List.foldl_append]
      rfl
    have hrefused : refusedFds (log ++ [o]) = refusedFds log ++ o.refusedFd.toList := by
      rw [refusedFds, List.filterMap_append]
      cases h : o.refusedFd <;> simp [h, refusedFds]
    rw [hopen, hrefused, ih hlog]
    cases hand₁ with
    | none =>
      cases o with
      | attempt | opened =>
        obtain rfl := Option.some.inj hstep
        simp [YunOut.opens, YunOut.refusedFd]
      | refused | closed | dtrs => cases hstep
    | some fd =>
      cases o with
      | attempt | opened => cases hstep
      | dtrs =>
        obtain rfl := Option.some.inj hstep
        simp [YunOut.opens, YunOut.refusedFd]
      | refused fd' | closed fd' =>
        have hsame : fd = fd' ∧ hand₂ = none := by
          rw [YunOut.next] at hstep
          split_ifs at hstep with heq
          exact ⟨heq, (Option.some.inj hstep).symm⟩
        obtain ⟨rfl, rfl⟩ := hsame
        simp [YunOut.opens, YunOut.refusedFd]

variable {n : ℕ}

/-- `socket` answers one of `n` descriptors that is not open. -/
def SocketsOf (n : ℕ) (log : List YunOut) : Prop :=
  ∀ pre fd post, log = pre ++ .opened fd :: post → fd < n ∧ fd ∉ leftOpen pre

theorem SocketsOf.append_left (h : SocketsOf n (log ++ log')) : SocketsOf n log := fun pre fd post hlog =>
  h pre fd (post ++ log') (by rw [hlog, List.append_assoc, List.cons_append])

/-- What is open is open once. -/
theorem leftOpen_nodup (h : SocketsOf n log) : (leftOpen log).Nodup ∧ leftOpen log ⊆ List.range n := by
  induction log using List.reverseRecOn with
  | nil => exact ⟨List.nodup_nil, List.nil_subset _⟩
  | append_singleton log o ih =>
    obtain ⟨hnodup, hsub⟩ := ih h.append_left
    have hopen : leftOpen (log ++ [o]) = YunOut.opens (leftOpen log) o := by
      rw [leftOpen, List.foldl_append]
      rfl
    rw [hopen]
    cases o with
    | opened fd =>
      obtain ⟨hlt, hfresh⟩ := h log fd [] rfl
      exact ⟨List.nodup_cons.mpr ⟨hfresh, hnodup⟩, List.cons_subset.mpr ⟨List.mem_range.mpr hlt, hsub⟩⟩
    | closed fd => exact ⟨hnodup.erase fd, fun x hx => hsub (List.mem_of_mem_erase hx)⟩
    | attempt | refused | dtrs => exact ⟨hnodup, hsub⟩

/-- **Descriptors run out**: over any run a refused connection keeps its descriptor for good, and when as many were
refused as there are, no socket is opened any more. -/
theorem yun_runs_out {signed : Bool} {g_thxlinkinfo : ThxtLinkInfo} {hostname : Bytes}
    (hhost : cstr g_thxlinkinfo.host = some hostname) {rounds : List YunRound}
    (h : runCalls (hxtcp_conn signed g_thxlinkinfo) .boot rounds = some (s, out)) (hsockets : SocketsOf n out) :
    leftOpen out = (refusedFds out).reverse ∧ (refusedFds out).length ≤ n ∧
      ∀ pre post, out = pre ++ post → (refusedFds pre).length = n → ∀ fd, .opened fd ∉ post := by
  have hnext := run_next hhost h
  -- the refused ones are open in front of every place in the log
  have hkept : ∀ pre post, out = pre ++ post →
      List.Subperm (refusedFds pre).reverse (leftOpen pre) ∧ List.Subperm (leftOpen pre) (List.range n) := by
    rintro pre post rfl
    rw [List.foldlM_append] at hnext
    obtain ⟨hand, hpre, -⟩ := Option.bind_eq_some_iff.mp hnext
    obtain ⟨hnodup, hsub⟩ := leftOpen_nodup hsockets.append_left
    refine ⟨?_, List.subperm_of_subset hnodup hsub⟩
    rw [leftOpen_eq hpre]
    exact (List.sublist_append_right _ _).subperm
  have hlength : ∀ pre post, out = pre ++ post → (refusedFds pre).length ≤ n := by
    intro pre post hout
    obtain ⟨hle, hrange⟩ := hkept pre post hout
    have := (hle.trans hrange).length_le
    rwa [List.length_reverse, List.length_range] at this
  refine ⟨by rw [leftOpen_eq hnext]; rfl, hlength out [] (List.append_nil out).symm, ?_⟩
  intro pre post hout hfull fd hmem
  obtain ⟨mid, post', rfl⟩ := List.append_of_mem hmem
  rw [← List.append_assoc] at hout
  obtain ⟨hlt, hfresh⟩ := hsockets (pre ++ mid) fd post' hout
  obtain ⟨hle, hrange⟩ := hkept (pre ++ mid) _ hout
  -- all descriptors are open there
  have hall : List.Subperm (List.range n) (leftOpen (pre ++ mid)) := by
    refine (hrange.perm_of_length_le ?_).symm.subperm
    rw [List.length_range]
    have hlong := hle.length_le
    rw [List.length_reverse, refusedFds, List.filterMap_append, List.length_append] at hlong
    have : (refusedFds pre).length ≤ (leftOpen (pre ++ mid)).length := by
      unfold refusedFds
      omega
    omega
  exact hfresh (hall.subset (List.mem_range.mpr hlt))

/-- The dispatch server refuses, and the next round finds no descriptor. -/
def sampleRefusals : List YunRound :=
  [⟨.refused 0, fun _ => 0, [], .noSocket, [], by decide⟩, ⟨.noSocket, fun _ => 0, [], .noSocket, [], by decide⟩]

def sampleRefusalLog : List YunOut :=
  [.attempt (ascii "yun") 8000, .opened 0, .refused 0] ++ [.attempt (ascii "yun") 8000]

theorem sampleRefusals_run : ∃ s, runCalls (hxtcp_conn false sampleLink) .boot sampleRefusals = some (s, sampleRefusalLog) :=
  ⟨_, rfl⟩

theorem sampleRefusals_sockets : SocketsOf 1 sampleRefusalLog := by
  intro pre fd post h
  match pre with
  | [] => cases h
  | [_] =>
    obtain ⟨rfl, hrest⟩ := List.cons.inj h
    obtain ⟨hfd, -⟩ := List.cons.inj hrest
    obtain rfl := YunOut.opened.inj hfd
    exact ⟨Nat.one_pos, List.not_mem_nil⟩
  | [_, _] | [_, _, _] => cases (List.cons.inj (List.cons.inj h).2).2
  | _ :: _ :: _ :: _ :: pre =>
    have hlast := (List.cons.inj (List.cons.inj (List.cons.inj (List.cons.inj h).2).2).2).2
    exact absurd hlast (by simp)

theorem yun_runs_out_sample : leftOpen sampleRefusalLog = [0] ∧
    ∀ fd, YunOut.opened fd ∉ [YunOut.attempt (ascii "yun") 8000] := by
  obtain ⟨s, hrun⟩ := sampleRefusals_run
  obtain ⟨hopen, -, hnone⟩ := yun_runs_out sampleLink_host hrun sampleRefusals_sockets
  exact ⟨hopen, hnone _ _ rfl rfl⟩

end Descriptors

end Esp32Base
