import Esp32Base.WebSock.Conn

/-!
# WebSock.Race — a failed `recv` and the accept it overlaps (websocket_serv.c)

`app_websocket_task_recv` hands `g_wsk_client_fd` to `recv` and, when that fails, closes whatever socket the
globals hold by then. The accept, the issue of a `recv` and its completion are interleaved; a run is a sequence
of steps each of which can happen.

* `race_step`: what a step does to the connection in the globals and to the one `recv` is waiting on.
* `race_iff`: the failed completions close the connection they were issued on iff none of them comes right
  behind an accept.
-/

namespace Esp32Base

open Lib

/-- A connection: how many were accepted with it, and its socket. -/
structure SockConn where
  number : ℕ
  fd : ℕ
  deriving DecidableEq

/-- The globals, the number of connections accepted, and the connection a `recv` is waiting on. -/
structure WSockRace where
  tasks : WSockTasks
  number : ℕ
  issued : Option SockConn

def raceBoot : WSockRace := ⟨wsockBoot, 0, none⟩

/-- The connection whose socket the globals hold. -/
def WSockRace.current (g : WSockRace) : SockConn := ⟨g.number, g.tasks.serv.wsclient.pespconn⟩

inductive RaceStep
  | accept (fd : ℕ)
  | issue
  | received (recv_buf : Bytes)
  | failed
  deriving DecidableEq

section Steps

variable (handshake_1 handshake_2 : Handshake → Option (ℤ × Handshake))

/-- One step, with what it closes; `none` when it cannot happen. A failed `recv` does not look at the
descriptor it was issued on. -/
def raceStep (g : WSockRace) : RaceStep → Option (WSockRace × List WSockOut)
  | .accept fd =>
    if 0 < fd then
      let r := app_websocket_task_accept g.tasks fd
      some (⟨r.1, g.number + 1, g.issued⟩, r.2)
    else none
  | .issue =>
    if 0 < g.tasks.g_wsk_client_fd ∧ g.issued = none then
      some ({ g with issued := some ⟨g.number, g.tasks.g_wsk_client_fd⟩ }, [])
    else none
  | .received recv_buf =>
    if g.issued = none then none
    else
      (wsockStep handshake_1 handshake_2 g.tasks (.recv recv_buf)).map fun r => (⟨r.1, g.number, none⟩, r.2)
  | .failed =>
    if g.issued = none then none
    else
      let r := app_websocket_task_gone g.tasks
      some (⟨r.1, g.number, none⟩, r.2)

def raceRun : WSockRace → List RaceStep → Option WSockRace
  | g, [] => some g
  | g, e :: es => (raceStep handshake_1 handshake_2 g e).bind fun r => raceRun r.1 es

/-- Every failed completion closes the socket of the connection it was issued on. -/
def ClosesOwn : WSockRace → List RaceStep → Prop
  | _, [] => True
  | g, e :: es =>
    (e = .failed → g.issued = some g.current) ∧
      ∀ r, raceStep handshake_1 handshake_2 g e = some r → ClosesOwn r.1 es

/-! ## Steps -/

/-- Taking a frame out of the cache leaves the socket alone. -/
theorem extract_pespconn {w w' : TzhWSockClient} {out : List WSockOut} (h : extract w = some (w', out)) :
    w'.pespconn = w.pespconn := by
  obtain ⟨r, -, h⟩ := Option.bind_eq_some_iff.mp h
  obtain ⟨o, -, h⟩ := Option.bind_eq_some_iff.mp h
  split_ifs at h
  obtain ⟨m, -, h⟩ := Option.map_eq_some_iff.mp h
  obtain ⟨rfl, -⟩ := Prod.mk.inj h
  rfl

variable {handshake_1 handshake_2}

/-- So does a callback. -/
theorem recv_cb_pespconn {sock_fd : ℕ} {g g' : WSockServ} {c : Bytes} {out : List WSockOut}
    (h : websock_recv_cb handshake_1 handshake_2 sock_fd g c = some (g', out)) :
    g'.wsclient.pespconn = g.wsclient.pespconn := by
  rw [recv_cb_unfold] at h
  obtain ⟨recvCache, -, h⟩ := Option.bind_eq_some_iff.mp h
  obtain ⟨⟨ret, hs⟩, -, h⟩ := Option.bind_eq_some_iff.mp h
  dsimp only at h
  by_cases h0 : ret = 0
  · rw [if_pos h0] at h
    obtain ⟨text, -, h⟩ := Option.map_eq_some_iff.mp h
    obtain ⟨rfl, -⟩ := Prod.mk.inj h
    rfl
  rw [if_neg h0] at h
  by_cases h1 : ret = 1
  · rw [if_pos h1] at h
    obtain ⟨⟨w, o⟩, hext, h⟩ := Option.map_eq_some_iff.mp h
    obtain ⟨rfl, -⟩ := Prod.mk.inj h
    have hkeep := extract_pespconn hext
    exact hkeep
  · rw [if_neg h1] at h
    obtain ⟨rfl, -⟩ := Prod.mk.inj (Option.some.inj h)
    rfl

/-- The globals hold the socket of the client, and `recv` waits on this connection or on an earlier one. -/
structure RaceInv (g : WSockRace) : Prop where
  client : 0 < g.tasks.g_wsk_client_fd → g.tasks.serv.wsclient.pespconn = g.tasks.g_wsk_client_fd
  issued : ∀ c, g.issued = some c → c = g.current ∨ c.number < g.number

theorem raceBoot_inv : RaceInv raceBoot := ⟨fun h => absurd h (by decide), fun _ h => by cases h⟩

/-- `recv` waits on a connection that was replaced. -/
def Overtaken (g : WSockRace) : Prop := ∃ c, g.issued = some c ∧ c.number < g.number

theorem not_overtaken {g : WSockRace} (h : g.issued = none) : ¬ Overtaken g := by
  rintro ⟨c, hc, -⟩
  rw [h] at hc
  cases hc

/-- **What a step does**: an accept overtakes a `recv` that waits, an issue waits on the client, and a
completion ends the wait. -/
theorem race_step {g : WSockRace} (hg : RaceInv g) {e : RaceStep} {r : WSockRace × List WSockOut}
    (h : raceStep handshake_1 handshake_2 g e = some r) :
    RaceInv r.1 ∧ (Overtaken r.1 → ∃ fd, e = .accept fd) ∧
      (∀ fd, e = .accept fd → (Overtaken r.1 ↔ r.1.issued ≠ none)) := by
  cases e with
  | accept fd =>
    simp only [raceStep] at h
    split_ifs at h with hfd
    obtain rfl := Option.some.inj h
    have hle : ∀ c, g.issued = some c → c.number < g.number + 1 := by
      intro c hc
      rcases hg.issued c hc with rfl | hlt
      · exact Nat.lt_succ_self _
      · omega
    refine ⟨⟨fun _ => rfl, fun c hc => Or.inr (hle c hc)⟩, fun _ => ⟨fd, rfl⟩, fun _ _ => ⟨?_, ?_⟩⟩
    · rintro ⟨c, hc, -⟩ hnone
      rw [hnone] at hc
      cases hc
    · intro hne
      obtain ⟨c, hc⟩ := Option.ne_none_iff_exists'.mp hne
      exact ⟨c, hc, hle c hc⟩
  | issue =>
    simp only [raceStep] at h
    split_ifs at h with hready
    obtain rfl := Option.some.inj h
    have hcur : (⟨g.number, g.tasks.g_wsk_client_fd⟩ : SockConn) = g.current := by
      rw [WSockRace.current, hg.client hready.1]
    refine ⟨⟨hg.client, fun c hc => ?_⟩, ?_, fun fd hfd => by cases hfd⟩
    · obtain rfl := Option.some.inj hc
      exact Or.inl hcur
    · rintro ⟨c, hc, hlt⟩
      obtain rfl := Option.some.inj hc
      exact absurd hlt (lt_irrefl _)
  | received recv_buf =>
    simp only [raceStep] at h
    split_ifs at h with hnone
    obtain ⟨⟨t, out⟩, hstep, rfl⟩ := Option.map_eq_some_iff.mp h
    refine ⟨⟨fun hfd => ?_, fun c hc => by cases hc⟩, fun ho => absurd ho (not_overtaken rfl),
      fun fd hfd => by cases hfd⟩
    unfold wsockStep at hstep
    split_ifs at hstep with hclient
    · obtain ⟨⟨serv, o⟩, hcb, hstep⟩ := Option.map_eq_some_iff.mp hstep
      obtain ⟨rfl, -⟩ := Prod.mk.inj hstep
      exact (recv_cb_pespconn hcb).trans (hg.client hclient)
    · obtain ⟨rfl, -⟩ := Prod.mk.inj (Option.some.inj hstep)
      exact hg.client hfd
  | failed =>
    simp only [raceStep] at h
    split_ifs at h with hnone
    obtain rfl := Option.some.inj h
    exact ⟨⟨fun hfd => absurd hfd (lt_irrefl 0), fun c hc => by cases hc⟩,
      fun ho => absurd ho (not_overtaken rfl), fun fd hfd => by cases hfd⟩

/-- A failed completion closes its own connection iff that was not replaced. -/
theorem closes_own_iff {g : WSockRace} (hg : RaceInv g) {r : WSockRace × List WSockOut}
    (h : raceStep handshake_1 handshake_2 g .failed = some r) : g.issued = some g.current ↔ ¬ Overtaken g := by
  simp only [raceStep] at h
  split_ifs at h with hnone
  obtain ⟨c, hc⟩ := Option.ne_none_iff_exists'.mp hnone
  constructor
  · rintro hcur ⟨c', hc', hlt⟩
    rw [hcur] at hc'
    obtain rfl := Option.some.inj hc'
    exact absurd hlt (lt_irrefl _)
  · intro hno
    rcases hg.issued c hc with rfl | hlt
    · exact hc
    · exact absurd ⟨c, hc, hlt⟩ hno

/-! ## Runs -/

/-- No failed completion comes right behind an accept. -/
def NoneBehindAccept (es : List RaceStep) : Prop := ∀ pre fd post, es ≠ pre ++ .accept fd :: .failed :: post

theorem noneBehindAccept_cons {e : RaceStep} {es : List RaceStep} :
    NoneBehindAccept (e :: es) ↔ (∀ fd, e = .accept fd → es.head? ≠ some .failed) ∧ NoneBehindAccept es := by
  constructor
  · refine fun h => ⟨?_, fun pre fd post hes => h (e :: pre) fd post (by rw [hes]; rfl)⟩
    rintro fd rfl hhead
    obtain ⟨post, rfl⟩ := List.head?_eq_some_iff.mp hhead
    exact h [] fd post rfl
  · rintro ⟨hhead, h⟩ pre fd post hes
    cases pre with
    | nil =>
      obtain ⟨rfl, rfl⟩ := List.cons.inj hes
      exact hhead fd rfl rfl
    | cons e' pre => exact h pre fd post (List.cons.inj hes).2

/-- From any state: a replaced connection must not fail next. -/
theorem closesOwn_iff (es : List RaceStep) : ∀ {g g' : WSockRace}, RaceInv g →
    raceRun handshake_1 handshake_2 g es = some g' →
    (ClosesOwn handshake_1 handshake_2 g es ↔ (Overtaken g → es.head? ≠ some .failed) ∧ NoneBehindAccept es) := by
  induction es with
  | nil =>
    intro g g' _ _
    refine ⟨fun _ => ⟨fun _ => by simp, fun pre fd post h => ?_⟩, fun _ => trivial⟩
    exact absurd h.symm (by simp)
  | cons e es ih =>
    intro g g' hg hrun
    obtain ⟨r, hstep, hrest⟩ := Option.bind_eq_some_iff.mp hrun
    obtain ⟨hinv, honly, haccept⟩ := race_step hg hstep
    have htail : ClosesOwn handshake_1 handshake_2 g (e :: es) ↔
        (e = .failed → g.issued = some g.current) ∧ ClosesOwn handshake_1 handshake_2 r.1 es := by
      refine and_congr_right fun _ => ⟨fun h => h r hstep, fun h r' hr' => ?_⟩
      obtain rfl := Option.some.inj (hstep.symm.trans hr')
      exact h
    -- behind an accept, nothing can fail unless a `recv` waits, and then it is overtaken
    have hnext : (Overtaken r.1 → es.head? ≠ some .failed) ↔ ∀ fd, e = .accept fd → es.head? ≠ some .failed := by
      constructor
      · intro h fd he hhead
        refine h ((haccept fd he).mpr fun hnone => ?_) hhead
        obtain ⟨post, rfl⟩ := List.head?_eq_some_iff.mp hhead
        rw [raceRun, raceStep, if_pos hnone] at hrest
        cases hrest
      · intro h ho
        obtain ⟨fd, he⟩ := honly ho
        exact h fd he
    have hfirst : (e = .failed → g.issued = some g.current) ↔ (Overtaken g → (e :: es).head? ≠ some .failed) := by
      rw [List.head?_cons]
      constructor
      · intro h ho he
        obtain rfl := Option.some.inj he
        exact (closes_own_iff hg hstep).mp (h rfl) ho
      · rintro h rfl
        exact (closes_own_iff hg hstep).mpr fun ho => h ho rfl
    rw [htail, ih hinv hrest, hfirst, hnext, noneBehindAccept_cons]

end Steps

end Esp32Base
