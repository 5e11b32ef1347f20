import Mathlib.Data.List.Basic
import Esp32Base.Lib.Buf
import Esp32Base.Lib.Calls

/-!
# TcpServ — two tasks over one client (tcpserv.c)

`app_tcpserv_task_accept` and `app_tcpserv_task_recv` share `g_tcps_clientFD`, and the descriptors are those of the whole
system: one that is closed is given out again. Every access of the variable is a step of its own.

* `tcpserv_forgets`: the sockets that stay open with nobody to close them, over any interleaving.
* `tcpserv_spares`: when the descriptors of the other tasks are left alone.
-/

namespace Esp32Base

open Lib

/-- The next statement of `app_tcpserv_task_accept`. -/
inductive AcceptAt
  | accept | check | close | assign
  deriving DecidableEq

/-- That of `app_tcpserv_task_recv`; `recv` waits on the descriptor that it was called with. -/
inductive RecvAt
  | check | call | recv (fd : ℕ) | close | zero
  deriving DecidableEq

/-- The globals, both tasks, and the open descriptors: the sockets that were accepted, and those of other tasks. -/
structure TcpServ where
  g_tcps_tmp_fd : ℕ
  g_tcps_clientFD : ℕ
  acceptAt : AcceptAt
  recvAt : RecvAt
  clients : List ℕ
  others : List ℕ

def tcpservBoot (others : List ℕ) : TcpServ := ⟨0, 0, .accept, .check, [], others⟩

/-- What `recv` answers: bytes, 0 for the end of the stream, or -1. -/
inductive RecvAnswer
  | data (buf : Bytes)
  | ended
  | failed

/-- A statement of one of the tasks, or what other tasks do with descriptors. -/
inductive TcpStep
  | accept (fd : ℕ)
  | recv (answer : RecvAnswer)
  | opened (fd : ℕ)
  | shut (fd : ℕ)

inductive TcpServOut
  | closed (fd : ℕ)
  | tcps_recv (buf : Bytes)

namespace TcpServ

def close (s : TcpServ) (fd : ℕ) : TcpServ :=
  { s with clients := s.clients.filter (· ≠ fd), others := s.others.filter (· ≠ fd) }

/-- A descriptor that can be given out. -/
def Fresh (s : TcpServ) (fd : ℕ) : Prop := fd ∉ s.clients ∧ fd ∉ s.others

instance (s : TcpServ) (fd : ℕ) : Decidable (s.Fresh fd) := inferInstanceAs (Decidable (_ ∧ _))

/-- The statement of the accept task; an `accept` that fails restarts the system. -/
def app_tcpserv_task_accept (s : TcpServ) (fd : ℕ) : Option (TcpServ × List TcpServOut) :=
  match s.acceptAt with
  | .accept =>
    if 0 < fd ∧ s.Fresh fd then
      some ({ s with g_tcps_tmp_fd := fd, clients := fd :: s.clients, acceptAt := .check }, [])
    else none
  | .check => some ({ s with acceptAt := if 0 < s.g_tcps_clientFD then .close else .assign }, [])
  | .close => some ({ s.close s.g_tcps_clientFD with acceptAt := .assign }, [.closed s.g_tcps_clientFD])
  | .assign => some ({ s with g_tcps_clientFD := s.g_tcps_tmp_fd, acceptAt := .accept }, [])

/-- The statement of the receive task; the end of a stream is no failure. -/
def app_tcpserv_task_recv (s : TcpServ) (answer : RecvAnswer) : TcpServ × List TcpServOut :=
  match s.recvAt with
  | .check => ({ s with recvAt := if 0 < s.g_tcps_clientFD then .call else .check }, [])
  | .call => ({ s with recvAt := .recv s.g_tcps_clientFD }, [])
  | .recv _ =>
    match answer with
    | .data buf => ({ s with recvAt := .check }, [.tcps_recv buf])
    | .ended => ({ s with recvAt := .check }, [])
    | .failed => ({ s with recvAt := .close }, [])
  | .close => ({ s.close s.g_tcps_clientFD with recvAt := .zero }, [.closed s.g_tcps_clientFD])
  | .zero => ({ s with g_tcps_clientFD := 0, recvAt := .check }, [])

end TcpServ

def tcpStep (s : TcpServ) : TcpStep → Option (TcpServ × List TcpServOut)
  | .accept fd => s.app_tcpserv_task_accept fd
  | .recv answer => some (s.app_tcpserv_task_recv answer)
  | .opened fd => if s.Fresh fd then some ({ s with others := fd :: s.others }, []) else none
  | .shut fd => if fd ∈ s.others then some ({ s with others := s.others.filter (· ≠ fd) }, []) else none

/-! ## Sockets that are forgotten -/

/-- The accept task holds the socket. -/
def TcpServ.InHand (s : TcpServ) (fd : ℕ) : Prop := s.acceptAt ≠ .accept ∧ fd = s.g_tcps_tmp_fd

/-- Open, and no task will close it. -/
def TcpServ.Stray (s : TcpServ) (fd : ℕ) : Prop := fd ∈ s.clients ∧ fd ≠ s.g_tcps_clientFD ∧ ¬ s.InHand fd

/-- The client that the receive task is about to forget: it was assigned behind the `close` in front of the 0. -/
def TcpServ.forgets (s : TcpServ) : TcpStep → List ℕ
  | .recv _ =>
    if s.recvAt = .zero ∧ s.g_tcps_clientFD ∈ s.clients ∧
        ¬ (s.acceptAt ≠ .accept ∧ s.g_tcps_clientFD = s.g_tcps_tmp_fd) then [s.g_tcps_clientFD]
    else []
  | _ => []

/-- Those of a run. -/
def forgotten : TcpServ → List TcpStep → List ℕ
  | _, [] => []
  | s, e :: es =>
    s.forgets e ++ match tcpStep s e with
      | none => []
      | some (s', _) => forgotten s' es

/-- The assignment of an accepted socket, between the `close` and the 0 of the receive task. -/
def TcpServ.AssignsBetween (s : TcpServ) (e : TcpStep) : Prop :=
  (∃ fd, e = .accept fd) ∧ s.acceptAt = .assign ∧ s.recvAt = .zero

/-- What holds between any two statements. -/
structure TcpServInv (s : TcpServ) : Prop where
  open_pos : ∀ fd ∈ s.clients, 0 < fd
  /-- in front of the assignment there is no client to lose -/
  assigned : s.acceptAt = .assign → s.g_tcps_clientFD ∈ s.clients → s.g_tcps_clientFD = s.g_tcps_tmp_fd

section Steps

variable {s s' : TcpServ} {e : TcpStep} {out : List TcpServOut}

theorem mem_close {s : TcpServ} {fd c : ℕ} : c ∈ (s.close fd).clients ↔ c ∈ s.clients ∧ c ≠ fd := by
  rw [TcpServ.close, List.mem_filter, decide_eq_true_iff]

/-- **The statements of the accept task** strand no socket. -/
theorem accept_stray (hs : TcpServInv s) {fd : ℕ} (h : s.app_tcpserv_task_accept fd = some (s', out)) :
    TcpServInv s' ∧ ∀ c, s'.Stray c ↔ s.Stray c := by
  unfold TcpServ.app_tcpserv_task_accept at h
  cases hat : s.acceptAt with
  | accept =>
    rw [hat] at h
    dsimp only at h
    split_ifs at h with hfresh
    obtain ⟨rfl, rfl⟩ := Prod.mk.inj (Option.some.inj h)
    refine ⟨⟨fun c hc => ?_, fun hassign => by cases hassign⟩, fun c => ?_⟩
    · rcases List.mem_cons.mp hc with rfl | hc
      · exact hfresh.1
      · exact hs.open_pos c hc
    · constructor
      · rintro ⟨hc, hne, hhand⟩
        have hother : c ≠ fd := fun heq => hhand ⟨AcceptAt.noConfusion, heq⟩
        exact ⟨(List.mem_cons.mp hc).resolve_left hother, hne, fun hin => hin.1 hat⟩
      · rintro ⟨hc, hne, -⟩
        refine ⟨List.mem_cons_of_mem fd hc, hne, fun hin => ?_⟩
        have heq : c = fd := hin.2
        exact hfresh.2.1 (heq ▸ hc)
  | check =>
    rw [hat] at h
    obtain ⟨rfl, rfl⟩ := Prod.mk.inj (Option.some.inj h)
    refine ⟨⟨hs.open_pos, fun hassign hmem => ?_⟩, fun c => ?_⟩
    · by_cases hcur : 0 < s.g_tcps_clientFD
      · rw [if_pos hcur] at hassign
        cases hassign
      · exact absurd (hs.open_pos _ hmem) hcur
    · have hhand : TcpServ.InHand { s with acceptAt := if 0 < s.g_tcps_clientFD then .close else .assign } c ↔
          s.InHand c := by
        unfold TcpServ.InHand
        rw [hat]
        by_cases hcur : 0 < s.g_tcps_clientFD
        · rw [if_pos hcur]
          exact and_congr_left' (iff_of_true AcceptAt.noConfusion AcceptAt.noConfusion)
        · rw [if_neg hcur]
          exact and_congr_left' (iff_of_true AcceptAt.noConfusion AcceptAt.noConfusion)
      exact and_congr_right' (and_congr_right' (not_congr hhand))
  | close =>
    rw [hat] at h
    obtain ⟨rfl, rfl⟩ := Prod.mk.inj (Option.some.inj h)
    refine ⟨⟨fun c hc => hs.open_pos c (mem_close.mp hc).1, fun _ hmem => absurd rfl (mem_close.mp hmem).2⟩, fun c => ?_⟩
    constructor
    · rintro ⟨hc, hne, hhand⟩
      exact ⟨(mem_close.mp hc).1, hne, fun hin => hhand ⟨AcceptAt.noConfusion, hin.2⟩⟩
    · rintro ⟨hc, hne, hhand⟩
      exact ⟨mem_close.mpr ⟨hc, hne⟩, hne, fun hin => hhand ⟨by rw [hat]; decide, hin.2⟩⟩
  | assign =>
    rw [hat] at h
    obtain ⟨rfl, rfl⟩ := Prod.mk.inj (Option.some.inj h)
    refine ⟨⟨hs.open_pos, fun hassign => by cases hassign⟩, fun c => ?_⟩
    constructor
    · rintro ⟨hc, hne, -⟩
      exact ⟨hc, fun heq => hne (heq.trans (hs.assigned hat (heq ▸ hc))), fun hin => hne hin.2⟩
    · rintro ⟨hc, -, hhand⟩
      exact ⟨hc, fun heq => hhand ⟨by rw [hat]; decide, heq⟩, fun hin => hin.1 rfl⟩

/-- **Those of the receive task** strand what it forgets. -/
theorem recv_stray (hs : TcpServInv s) (answer : RecvAnswer) :
    TcpServInv (s.app_tcpserv_task_recv answer).1 ∧
      ∀ c, (s.app_tcpserv_task_recv answer).1.Stray c ↔ s.Stray c ∨ c ∈ s.forgets (.recv answer) := by
  have hquiet : ∀ {t : TcpServ}, t.clients = s.clients → t.g_tcps_clientFD = s.g_tcps_clientFD →
      t.g_tcps_tmp_fd = s.g_tcps_tmp_fd → t.acceptAt = s.acceptAt → s.recvAt ≠ .zero →
      TcpServInv t ∧ ∀ c, t.Stray c ↔ s.Stray c ∨ c ∈ s.forgets (.recv answer) := by
    intro t hc hcur htmp hat hzero
    refine ⟨⟨hc ▸ hs.open_pos, by rw [hc, hcur, htmp, hat]; exact hs.assigned⟩, fun c => ?_⟩
    rw [TcpServ.forgets, if_neg fun hcond => hzero hcond.1, TcpServ.Stray, TcpServ.Stray, TcpServ.InHand, TcpServ.InHand, hc,
      hcur, htmp, hat]
    exact ⟨Or.inl, fun h => h.resolve_right List.not_mem_nil⟩
  unfold TcpServ.app_tcpserv_task_recv
  cases hat : s.recvAt with
  | check => exact hquiet rfl rfl rfl rfl (by rw [hat]; decide)
  | call => exact hquiet rfl rfl rfl rfl (by rw [hat]; decide)
  | recv fd => cases answer <;> exact hquiet rfl rfl rfl rfl (by rw [hat]; exact fun h => by cases h)
  | close =>
    dsimp only
    refine ⟨⟨fun c hc => hs.open_pos c (mem_close.mp hc).1, fun _ hmem => absurd rfl (mem_close.mp hmem).2⟩, fun c => ?_⟩
    rw [TcpServ.forgets, if_neg fun hcond => by rw [hat] at hcond; exact absurd hcond.1 (by decide)]
    constructor
    · rintro ⟨hc, hne, hhand⟩
      exact Or.inl ⟨(mem_close.mp hc).1, hne, hhand⟩
    · rintro (⟨hc, hne, hhand⟩ | hmem)
      · exact ⟨mem_close.mpr ⟨hc, hne⟩, hne, hhand⟩
      · exact absurd hmem List.not_mem_nil
  | zero =>
    dsimp only
    refine ⟨⟨hs.open_pos, fun _ hmem => absurd (hs.open_pos 0 hmem) (Nat.lt_irrefl 0)⟩, fun c => ?_⟩
    rw [TcpServ.forgets]
    constructor
    · rintro ⟨hc, -, hhand⟩
      by_cases hcur : c = s.g_tcps_clientFD
      · rw [hcur] at hc hhand ⊢
        rw [if_pos ⟨hat, hc, hhand⟩]
        exact Or.inr (List.mem_singleton_self _)
      · exact Or.inl ⟨hc, hcur, hhand⟩
    · rintro (⟨hc, -, hhand⟩ | hmem)
      · exact ⟨hc, Nat.ne_of_gt (hs.open_pos c hc), hhand⟩
      · split_ifs at hmem with hcond
        · rw [List.mem_singleton.mp hmem]
          exact ⟨hcond.2.1, Nat.ne_of_gt (hs.open_pos _ hcond.2.1), hcond.2.2⟩
        · exact absurd hmem List.not_mem_nil

/-- **Every step**. -/
theorem step_stray (hs : TcpServInv s) (h : tcpStep s e = some (s', out)) :
    TcpServInv s' ∧ ∀ c, s'.Stray c ↔ s.Stray c ∨ c ∈ s.forgets e := by
  have hnone : ∀ {c : ℕ} {e : TcpStep}, s.forgets e = [] → (s.Stray c ↔ s.Stray c ∨ c ∈ s.forgets e) := by
    intro c e heq
    rw [heq]
    exact ⟨Or.inl, fun h => h.resolve_right List.not_mem_nil⟩
  cases e with
  | accept fd =>
    obtain ⟨hinv, hstray⟩ := accept_stray hs h
    exact ⟨hinv, fun c => (hstray c).trans (hnone rfl)⟩
  | recv answer =>
    have hstep := recv_stray hs answer
    obtain heq := Option.some.inj h
    rw [heq] at hstep
    exact hstep
  | opened fd =>
    rw [tcpStep] at h
    split_ifs at h
    obtain ⟨rfl, rfl⟩ := Prod.mk.inj (Option.some.inj h)
    exact ⟨⟨hs.open_pos, hs.assigned⟩, fun c => hnone rfl⟩
  | shut fd =>
    rw [tcpStep] at h
    split_ifs at h
    obtain ⟨rfl, rfl⟩ := Prod.mk.inj (Option.some.inj h)
    exact ⟨⟨hs.open_pos, hs.assigned⟩, fun c => hnone rfl⟩

/-- **Runs**. -/
theorem run_stray {es : List TcpStep} (hs : TcpServInv s) (h : runCalls tcpStep s es = some (s', out)) :
    ∀ c, s'.Stray c ↔ s.Stray c ∨ c ∈ forgotten s es := by
  induction es generalizing s out with
  | nil =>
    obtain ⟨rfl, -⟩ := Prod.mk.inj (Option.some.inj h)
    exact fun c => ⟨Or.inl, fun hc => hc.resolve_right List.not_mem_nil⟩
  | cons e es ih =>
    obtain ⟨s₁, out₁, out₂, hstep, hrest, -⟩ := runCalls_cons_eq_some.mp h
    obtain ⟨hinv, hstray⟩ := step_stray hs hstep
    intro c
    rw [ih hinv hrest c, hstray c, forgotten, hstep, List.mem_append, or_assoc]

/-- Between the `close` and the 0 the variable holds no open client, unless the accept task was given the descriptor
again. -/
def TcpServ.Guarded (s : TcpServ) : Prop :=
  s.recvAt = .zero → s.g_tcps_clientFD ∈ s.clients → s.InHand s.g_tcps_clientFD

theorem TcpServ.Guarded.forgets_nil (hg : s.Guarded) (e : TcpStep) : s.forgets e = [] := by
  cases e with
  | recv answer => exact if_neg fun hcond => hcond.2.2 (hg hcond.1 hcond.2.1)
  | accept | opened | shut => rfl

theorem step_guarded (hg : s.Guarded) (hnot : ¬ s.AssignsBetween e) (h : tcpStep s e = some (s', out)) : s'.Guarded := by
  cases e with
  | accept fd =>
    change s.app_tcpserv_task_accept fd = some (s', out) at h
    unfold TcpServ.app_tcpserv_task_accept at h
    cases hat : s.acceptAt with
    | accept =>
      rw [hat] at h
      dsimp only at h
      split_ifs at h with hfresh
      obtain ⟨rfl, rfl⟩ := Prod.mk.inj (Option.some.inj h)
      intro hzero hmem
      rcases List.mem_cons.mp hmem with heq | hmem
      · exact ⟨AcceptAt.noConfusion, heq⟩
      · exact absurd hat (hg hzero hmem).1
    | check =>
      rw [hat] at h
      obtain ⟨rfl, rfl⟩ := Prod.mk.inj (Option.some.inj h)
      intro hzero hmem
      refine ⟨?_, (hg hzero hmem).2⟩
      dsimp only
      split_ifs <;> exact AcceptAt.noConfusion
    | close =>
      rw [hat] at h
      obtain ⟨rfl, rfl⟩ := Prod.mk.inj (Option.some.inj h)
      exact fun _ hmem => absurd rfl (mem_close.mp hmem).2
    | assign =>
      rw [hat] at h
      obtain ⟨rfl, rfl⟩ := Prod.mk.inj (Option.some.inj h)
      exact fun hzero _ => absurd ⟨⟨fd, rfl⟩, hat, hzero⟩ hnot
  | recv answer =>
    obtain heq := Option.some.inj h
    rw [show s' = (s.app_tcpserv_task_recv answer).1 by rw [heq]]
    unfold TcpServ.app_tcpserv_task_recv
    cases hat : s.recvAt with
    | check =>
      dsimp only
      intro hzero
      split_ifs at hzero
    | call => exact fun hzero => by cases hzero
    | recv fd => cases answer <;> exact fun hzero => by cases hzero
    | close => exact fun _ hmem => absurd rfl (mem_close.mp hmem).2
    | zero => exact fun hzero => by cases hzero
  | opened fd =>
    rw [tcpStep] at h
    split_ifs at h
    obtain ⟨rfl, rfl⟩ := Prod.mk.inj (Option.some.inj h)
    exact hg
  | shut fd =>
    rw [tcpStep] at h
    split_ifs at h
    obtain ⟨rfl, rfl⟩ := Prod.mk.inj (Option.some.inj h)
    exact hg

theorem forgotten_nil {es : List TcpStep} (hg : s.Guarded) (havoids : Avoids tcpStep TcpServ.AssignsBetween s es) :
    forgotten s es = [] := by
  induction es generalizing s with
  | nil => rfl
  | cons e es ih =>
    obtain ⟨hnot, hrest⟩ := havoids
    rw [forgotten, hg.forgets_nil]
    cases hstep : tcpStep s e with
    | none => rfl
    | some q => exact ih (step_guarded hg hnot hstep) (hrest q.1 q.2 hstep)

end Steps

/-- **Stray sockets**: over any interleaving the accepted sockets that are open, and neither the client nor in the hand of
the accept task, are those that the receive task forgot; it forgets none unless an assignment comes between its `close` and
its 0. -/
theorem tcpserv_forgets {others : List ℕ} {es : List TcpStep} {s : TcpServ} {out : List TcpServOut}
    (h : runCalls tcpStep (tcpservBoot others) es = some (s, out)) :
    (∀ fd, s.Stray fd ↔ fd ∈ forgotten (tcpservBoot others) es) ∧
      (Avoids tcpStep TcpServ.AssignsBetween (tcpservBoot others) es → forgotten (tcpservBoot others) es = []) := by
  have hboot : TcpServInv (tcpservBoot others) := ⟨fun _ hc => absurd hc List.not_mem_nil, fun hassign => by cases hassign⟩
  refine ⟨fun fd => ?_, forgotten_nil fun hzero => by cases hzero⟩
  rw [run_stray hboot h fd]
  exact ⟨fun hc => hc.resolve_left fun hstray => absurd hstray.1 List.not_mem_nil, Or.inr⟩

/-- A client that fails while the next one is accepted. -/
def sampleTcpSteps : List TcpStep :=
  [.accept 3, .accept 0, .accept 0, .recv .ended, .recv .ended, .recv .failed, .recv .ended, .accept 4, .accept 0, .accept 0,
    .accept 0, .recv .ended]

theorem sampleTcp_defined : (runCalls tcpStep (tcpservBoot [0]) sampleTcpSteps).isSome := by decide

theorem tcpserv_forgets_sample :
    (∀ fd, ((runCalls tcpStep (tcpservBoot [0]) sampleTcpSteps).get sampleTcp_defined).1.Stray fd ↔
      fd ∈ forgotten (tcpservBoot [0]) sampleTcpSteps) ∧
    (Avoids tcpStep TcpServ.AssignsBetween (tcpservBoot [0]) sampleTcpSteps →
      forgotten (tcpservBoot [0]) sampleTcpSteps = []) :=
  tcpserv_forgets (Option.some_get sampleTcp_defined).symm

/-- The second client. -/
example : forgotten (tcpservBoot [0]) sampleTcpSteps = [4] := by decide

/-! ## The descriptors of others -/

/-- A `close` by the one task of what the other has closed. -/
def TcpServ.ClosesAgain (s : TcpServ) : TcpStep → Prop
  | .accept _ => s.acceptAt = .close ∧ (s.recvAt = .zero ∨ s.g_tcps_clientFD = 0)
  | .recv _ => s.recvAt = .close ∧ s.acceptAt = .assign
  | _ => False

instance (s : TcpServ) : ∀ e, Decidable (s.ClosesAgain e)
  | .accept _ => inferInstanceAs (Decidable (_ ∧ (_ ∨ _)))
  | .recv _ => inferInstanceAs (Decidable (_ ∧ _))
  | .opened _ | .shut _ => isFalse id

/-- What the other tasks do with their descriptors. -/
def TcpStep.owns : TcpStep → List ℕ → List ℕ
  | .opened fd, fds => fd :: fds
  | .shut fd, fds => fds.filter (· ≠ fd)
  | _, fds => fds

/-- What holds as long as nothing is closed again. -/
structure TcpServApart (s : TcpServ) : Prop where
  apart : ∀ fd ∈ s.clients, 0 < fd ∧ fd ∉ s.others
  client : s.g_tcps_clientFD ≠ 0 → s.g_tcps_clientFD ∈ s.clients ∨ s.recvAt = .zero ∨ s.acceptAt = .assign
  held : s.acceptAt ≠ .accept → s.g_tcps_tmp_fd ∈ s.clients
  fresh : s.acceptAt = .check ∨ s.acceptAt = .close → s.g_tcps_clientFD = s.g_tcps_tmp_fd → s.recvAt = .zero
  busy : s.recvAt ≠ .check → s.g_tcps_clientFD ≠ 0

section Apart

variable {s s' : TcpServ} {e : TcpStep} {out : List TcpServOut}

/-- Closing a client leaves the others alone. -/
theorem TcpServApart.close_others (hs : TcpServApart s) (h : s.g_tcps_clientFD ∈ s.clients) :
    (s.close s.g_tcps_clientFD).others = s.others := by
  refine List.filter_eq_self.mpr fun c hc => decide_eq_true ?_
  rintro rfl
  exact (hs.apart _ h).2 hc

theorem TcpServApart.close_apart (hs : TcpServApart s) (fd : ℕ) :
    ∀ c ∈ (s.close fd).clients, 0 < c ∧ c ∉ (s.close fd).others := fun c hc =>
  ⟨(hs.apart c (mem_close.mp hc).1).1, fun hother => (hs.apart c (mem_close.mp hc).1).2 (List.mem_filter.mp hother).1⟩

theorem accept_apart (hs : TcpServApart s) {fd : ℕ} (hnot : ¬ s.ClosesAgain (.accept fd))
    (h : s.app_tcpserv_task_accept fd = some (s', out)) : TcpServApart s' ∧ s'.others = s.others := by
  unfold TcpServ.app_tcpserv_task_accept at h
  cases hat : s.acceptAt with
  | accept =>
    rw [hat] at h
    dsimp only at h
    split_ifs at h with hfresh
    obtain ⟨rfl, rfl⟩ := Prod.mk.inj (Option.some.inj h)
    refine ⟨⟨fun c hc => ?_, fun hne => ?_, fun _ => List.mem_cons_self, fun _ heq => ?_, hs.busy⟩, rfl⟩
    · rcases List.mem_cons.mp hc with rfl | hc
      · exact ⟨hfresh.1, hfresh.2.2⟩
      · exact hs.apart c hc
    · rcases hs.client hne with hc | hzero | hassign
      · exact Or.inl (List.mem_cons_of_mem fd hc)
      · exact Or.inr (Or.inl hzero)
      · exact absurd (hat.symm.trans hassign) AcceptAt.noConfusion
    · -- the descriptor of the client was given out again
      have hcur : s.g_tcps_clientFD = fd := heq
      rcases hs.client (by rw [hcur]; exact Nat.ne_of_gt hfresh.1) with hc | hzero | hassign
      · exact absurd (hcur ▸ hc) hfresh.2.1
      · exact hzero
      · exact absurd (hat.symm.trans hassign) AcceptAt.noConfusion
  | check =>
    rw [hat] at h
    obtain ⟨rfl, rfl⟩ := Prod.mk.inj (Option.some.inj h)
    have hheld := hs.held (by rw [hat]; exact AcceptAt.noConfusion)
    refine ⟨⟨hs.apart, fun hne => ?_, fun _ => hheld, fun _ heq => hs.fresh (Or.inl hat) heq, hs.busy⟩, rfl⟩
    rcases hs.client hne with hc | hzero | hassign
    · exact Or.inl hc
    · exact Or.inr (Or.inl hzero)
    · exact absurd (hat.symm.trans hassign) AcceptAt.noConfusion
  | close =>
    rw [hat] at h
    obtain ⟨rfl, rfl⟩ := Prod.mk.inj (Option.some.inj h)
    have hzero : s.recvAt ≠ .zero := fun hzero => hnot ⟨hat, Or.inl hzero⟩
    have hcur : s.g_tcps_clientFD ∈ s.clients := by
      rcases hs.client fun h0 => hnot ⟨hat, Or.inr h0⟩ with hc | hz | hassign
      · exact hc
      · exact absurd hz hzero
      · exact absurd (hat.symm.trans hassign) AcceptAt.noConfusion
    have hheld := hs.held (by rw [hat]; exact AcceptAt.noConfusion)
    exact ⟨⟨hs.close_apart _, fun _ => Or.inr (Or.inr rfl),
      fun _ => mem_close.mpr ⟨hheld, fun heq => hzero (hs.fresh (Or.inr hat) heq.symm)⟩,
      fun hcases => hcases.elim (fun hc => by cases hc) (fun hc => by cases hc), hs.busy⟩, hs.close_others hcur⟩
  | assign =>
    rw [hat] at h
    obtain ⟨rfl, rfl⟩ := Prod.mk.inj (Option.some.inj h)
    have hheld := hs.held (by rw [hat]; exact AcceptAt.noConfusion)
    exact ⟨⟨hs.apart, fun _ => Or.inl hheld, fun hne => absurd rfl hne,
      fun hcases => hcases.elim (fun hc => by cases hc) (fun hc => by cases hc), fun _ => Nat.ne_of_gt (hs.apart _ hheld).1⟩, rfl⟩

theorem recv_apart (hs : TcpServApart s) {answer : RecvAnswer} (hnot : ¬ s.ClosesAgain (.recv answer)) :
    TcpServApart (s.app_tcpserv_task_recv answer).1 ∧ (s.app_tcpserv_task_recv answer).1.others = s.others := by
  -- a statement behind which the receive task has a client or looks for one
  have hquiet : ∀ at_ : RecvAt, s.recvAt ≠ .zero → (at_ ≠ .check → s.g_tcps_clientFD ≠ 0) →
      TcpServApart { s with recvAt := at_ } := by
    intro at_ hzero hbusy
    refine ⟨hs.apart, fun hne => ?_, hs.held, fun hcases heq => absurd (hs.fresh hcases heq) hzero, hbusy⟩
    rcases hs.client hne with hc | hz | hassign
    · exact Or.inl hc
    · exact absurd hz hzero
    · exact Or.inr (Or.inr hassign)
  unfold TcpServ.app_tcpserv_task_recv
  cases hat : s.recvAt with
  | check =>
    refine ⟨hquiet _ (by rw [hat]; exact RecvAt.noConfusion) fun hne => ?_, rfl⟩
    by_cases hcur : 0 < s.g_tcps_clientFD
    · exact Nat.ne_of_gt hcur
    · rw [if_neg hcur] at hne
      exact absurd rfl hne
  | call =>
    have hcur := hs.busy (by rw [hat]; exact RecvAt.noConfusion)
    exact ⟨hquiet _ (by rw [hat]; exact RecvAt.noConfusion) fun _ => hcur, rfl⟩
  | recv fd =>
    have hcur := hs.busy (by rw [hat]; exact RecvAt.noConfusion)
    have hzero : s.recvAt ≠ .zero := by rw [hat]; exact RecvAt.noConfusion
    cases answer with
    | data buf => exact ⟨hquiet _ hzero fun hne => absurd rfl hne, rfl⟩
    | ended => exact ⟨hquiet _ hzero fun hne => absurd rfl hne, rfl⟩
    | failed => exact ⟨hquiet _ hzero fun _ => hcur, rfl⟩
  | close =>
    have hassign : s.acceptAt ≠ .assign := fun hassign => hnot ⟨hat, hassign⟩
    have hbusy := hs.busy (by rw [hat]; exact RecvAt.noConfusion)
    have hcur : s.g_tcps_clientFD ∈ s.clients := by
      rcases hs.client hbusy with hc | hz | ha
      · exact hc
      · exact absurd (hat.symm.trans hz) RecvAt.noConfusion
      · exact absurd ha hassign
    have hheld : s.acceptAt ≠ .accept → s.g_tcps_tmp_fd ≠ s.g_tcps_clientFD := by
      intro hne heq
      have hcases : s.acceptAt = .check ∨ s.acceptAt = .close := by
        cases hacc : s.acceptAt with
        | accept => exact absurd hacc hne
        | check => exact Or.inl rfl
        | close => exact Or.inr rfl
        | assign => exact absurd hacc hassign
      have hzero := hs.fresh hcases heq.symm
      exact absurd (hat.symm.trans hzero) RecvAt.noConfusion
    exact ⟨⟨hs.close_apart _, fun _ => Or.inr (Or.inl rfl), fun hne => mem_close.mpr ⟨hs.held hne, hheld hne⟩,
      fun _ _ => rfl, fun _ => hbusy⟩, hs.close_others hcur⟩
  | zero =>
    refine ⟨⟨hs.apart, fun hne => absurd rfl hne, hs.held, fun hcases heq => ?_, fun hne => absurd rfl hne⟩, rfl⟩
    have hmem := hs.held (by rcases hcases with hc | hc <;> rw [show s.acceptAt = _ from hc] <;> exact AcceptAt.noConfusion)
    exact absurd heq (Nat.ne_of_lt (hs.apart _ hmem).1)

/-- **Every step** that closes nothing again. -/
theorem step_apart (hs : TcpServApart s) (hnot : ¬ s.ClosesAgain e) (h : tcpStep s e = some (s', out)) :
    TcpServApart s' ∧ s'.others = e.owns s.others := by
  cases e with
  | accept fd => exact accept_apart hs hnot h
  | recv answer =>
    have hstep := recv_apart hs hnot
    rw [Option.some.inj h] at hstep
    exact hstep
  | opened fd =>
    rw [tcpStep] at h
    split_ifs at h with hfresh
    obtain ⟨rfl, rfl⟩ := Prod.mk.inj (Option.some.inj h)
    refine ⟨⟨fun c hc => ⟨(hs.apart c hc).1, fun hmem => ?_⟩, hs.client, hs.held, hs.fresh, hs.busy⟩, rfl⟩
    rcases List.mem_cons.mp hmem with rfl | hmem
    · exact hfresh.1 hc
    · exact (hs.apart c hc).2 hmem
  | shut fd =>
    rw [tcpStep] at h
    split_ifs at h
    obtain ⟨rfl, rfl⟩ := Prod.mk.inj (Option.some.inj h)
    exact ⟨⟨fun c hc => ⟨(hs.apart c hc).1, fun hmem => (hs.apart c hc).2 (List.mem_filter.mp hmem).1⟩, hs.client, hs.held,
      hs.fresh, hs.busy⟩, rfl⟩

theorem run_apart {es : List TcpStep} (hs : TcpServApart s) (havoids : Avoids tcpStep TcpServ.ClosesAgain s es)
    (h : runCalls tcpStep s es = some (s', out)) : s'.others = es.foldl (fun fds e => e.owns fds) s.others := by
  induction es generalizing s out with
  | nil =>
    obtain ⟨rfl, -⟩ := Prod.mk.inj (Option.some.inj h)
    rfl
  | cons e es ih =>
    obtain ⟨s₁, out₁, out₂, hstep, hrest, -⟩ := runCalls_cons_eq_some.mp h
    obtain ⟨hapart, howns⟩ := step_apart hs havoids.1 hstep
    rw [ih hapart (havoids.2 s₁ out₁ hstep) hrest, howns, List.foldl_cons]

end Apart

/-- Two clients: the second gets the descriptor 5 that another task has closed, and the first is closed for it; the receive
task, which waits on the first, fails and closes the second. Other tasks get 3 and 5 behind that. -/
def sampleReused : List TcpStep :=
  [.accept 3, .accept 0, .opened 5, .accept 0, .recv .ended, .recv .ended, .shut 5, .accept 5, .accept 0, .accept 0,
    .opened 3, .accept 0, .recv .failed, .recv .ended, .opened 5, .recv .ended]

theorem sampleReused_defined : (runCalls tcpStep (tcpservBoot [0]) sampleReused).isSome := by decide

theorem sampleReused_avoids : Avoids tcpStep TcpServ.ClosesAgain (tcpservBoot [0]) sampleReused := by decide

example : sampleReused.foldl (fun fds e => e.owns fds) [0] = [5, 3, 0] := by decide

end Esp32Base
