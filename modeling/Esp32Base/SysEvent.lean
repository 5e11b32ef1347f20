import Mathlib.Data.List.Basic
import Esp32Base.Lib.Buf

/-!
# SysEvent — the system events (main.c, hxkong_yun.c)

`event_handler` starts the network services. `yun_app_start` creates a task for `hxtcp_conn`, which never
returns, so a task once created stays.

* `live_run`: how many of these tasks a sequence of events leaves behind.
* `events_iff`: when the services start on a fresh address only and a single task is ever created.
-/

namespace Esp32Base

open Lib Lib.Buf

/-- `event->event_id`. -/
inductive SystemEvent
  | STA_START
  | STA_DISCONNECTED
  | STA_CONNECTED
  | STA_GOT_IP
  | AP_STACONNECTED
  | AP_STADISCONNECTED
  | ETH_CONNECTED
  | ETH_DISCONNECTED
  | ETH_GOT_IP
  | other (event_id : ℕ)
  deriving DecidableEq

/-- What the handler calls. -/
inductive AppCall
  | esp_wifi_connect
  | mqtt_app_start
  | yun_app_start
  deriving DecidableEq

/-- The calls of one event; the case of `ETH_DISCONNECTED` has no `break`. -/
def event_handler : SystemEvent → List AppCall
  | .STA_START => [.esp_wifi_connect]
  | .STA_DISCONNECTED => [.esp_wifi_connect]
  | .STA_CONNECTED => []
  | .STA_GOT_IP => [.mqtt_app_start, .yun_app_start]
  | .AP_STACONNECTED => []
  | .AP_STADISCONNECTED => []
  | .ETH_CONNECTED => []
  | .ETH_DISCONNECTED => [.mqtt_app_start, .yun_app_start]
  | .ETH_GOT_IP => [.mqtt_app_start, .yun_app_start]
  | .other _ => []

structure ThxtLinkInfo where
  host : Bytes
  port : ℤ
  deriving DecidableEq

/-- The link information, and the number of tasks that run `hxtcp_conn`. -/
structure YunApp where
  g_thxlinkinfo : ThxtLinkInfo
  live : ℕ
  deriving DecidableEq

def yun_init (host : Bytes) (port : ℤ) : Option YunApp :=
  (strcpy (List.replicate 255 0) 0 host).map fun host => ⟨⟨host, port⟩, 0⟩

/-- `created`: `xTaskCreate` found the memory for another task. -/
def yun_app_start (a : YunApp) (created : Bool) : YunApp :=
  if 0 < a.g_thxlinkinfo.port ∧ created then { a with live := a.live + 1 } else a

/-- An event is delivered, and its calls are made. -/
def deliver (a : YunApp) (e : SystemEvent × Bool) : YunApp :=
  (event_handler e.1).foldl (fun a c => if c = .yun_app_start then yun_app_start a e.2 else a) a

def deliverAll (a : YunApp) (es : List (SystemEvent × Bool)) : YunApp := es.foldl deliver a

/-- The events that bring an address. -/
def GotIp (e : SystemEvent) : Prop := e = .STA_GOT_IP ∨ e = .ETH_GOT_IP

instance (e : SystemEvent) : Decidable (GotIp e) := inferInstanceAs (Decidable (_ ∨ _))

/-- Every event starts a service only if it brings an address, and leaves at most one task behind. -/
def StartsOnce : YunApp → List (SystemEvent × Bool) → Prop
  | _, [] => True
  | a, e :: es =>
    ((.mqtt_app_start ∈ event_handler e.1 ∨ .yun_app_start ∈ event_handler e.1) → GotIp e.1) ∧
      (deliver a e).live ≤ 1 ∧ StartsOnce (deliver a e) es

/-! ## One event -/

/-- **What an event starts**: an address starts the services, and so does the loss of the cable. -/
theorem starts_iff (e : SystemEvent) (c : AppCall) (hc : c ≠ .esp_wifi_connect) :
    c ∈ event_handler e ↔ GotIp e ∨ e = .ETH_DISCONNECTED := by
  cases c with
  | esp_wifi_connect => exact absurd rfl hc
  | mqtt_app_start => cases e <;> simp [event_handler, GotIp]
  | yun_app_start => cases e <;> simp [event_handler, GotIp]

/-- The event creates a task. -/
def Creates (e : SystemEvent × Bool) : Prop := (GotIp e.1 ∨ e.1 = .ETH_DISCONNECTED) ∧ e.2 = true

instance (e : SystemEvent × Bool) : Decidable (Creates e) := inferInstanceAs (Decidable (_ ∧ _))

variable {a : YunApp}

theorem deliver_eq (hp : 0 < a.g_thxlinkinfo.port) (e : SystemEvent × Bool) :
    deliver a e = if Creates e then { a with live := a.live + 1 } else a := by
  obtain ⟨e, created⟩ := e
  cases e <;> simp [deliver, event_handler, yun_app_start, Creates, GotIp, hp]

theorem deliver_port (hp : 0 < a.g_thxlinkinfo.port) (e : SystemEvent × Bool) :
    (deliver a e).g_thxlinkinfo = a.g_thxlinkinfo := by
  rw [deliver_eq hp]
  split_ifs <;> rfl

/-- **The tasks of a run**: one for every event that creates one. -/
theorem live_run (es : List (SystemEvent × Bool)) : ∀ {a : YunApp}, 0 < a.g_thxlinkinfo.port →
    (deliverAll a es).live = a.live + es.countP fun e => Creates e := by
  induction es with
  | nil => exact fun _ => rfl
  | cons e es ih =>
    intro a hp
    have hrest := ih (a := deliver a e) (by rwa [deliver_port hp])
    rw [deliverAll, List.foldl_cons, ← deliverAll, hrest, List.countP_cons, deliver_eq hp]
    by_cases hc : Creates e
    · simp only [hc, if_true, decide_true]
      omega
    · simp only [hc, if_false, decide_false]
      rfl

/-! ## Runs -/

/-- With the tasks of `a` counted in. -/
theorem startsOnce_iff (es : List (SystemEvent × Bool)) : ∀ {a : YunApp}, 0 < a.g_thxlinkinfo.port → a.live ≤ 1 →
    (StartsOnce a es ↔ (∀ e ∈ es, e.1 ≠ .ETH_DISCONNECTED) ∧
      a.live + es.countP (fun e => Creates e) ≤ 1) := by
  induction es with
  | nil => exact fun _ hl => ⟨fun _ => ⟨by simp, hl⟩, fun _ => trivial⟩
  | cons e es ih =>
    intro a hp hl
    have hlive := live_run [e] hp
    rw [deliverAll, List.foldl_cons, List.foldl_nil, List.countP_singleton] at hlive
    have hcount : (e :: es).countP (fun e => Creates e) =
        (if Creates e then 1 else 0) + es.countP fun e => Creates e := by
      rw [List.countP_cons, Nat.add_comm]
      simp only [decide_eq_true_eq]
    simp only [decide_eq_true_eq] at hlive
    have hfirst : ((.mqtt_app_start ∈ event_handler e.1 ∨ .yun_app_start ∈ event_handler e.1) → GotIp e.1) ↔
        e.1 ≠ .ETH_DISCONNECTED := by
      rw [starts_iff _ _ (by decide), starts_iff _ _ (by decide), or_self]
      constructor
      · intro h hd
        rcases h (Or.inr hd) with hg | hg <;> rw [hd] at hg <;> cases hg
      · exact fun h hs => hs.resolve_right h
    rw [StartsOnce, hfirst, List.forall_mem_cons, hcount]
    constructor
    · rintro ⟨hd, hone, hrest⟩
      obtain ⟨hall, hsum⟩ := (ih (by rwa [deliver_port hp]) hone).mp hrest
      exact ⟨⟨hd, hall⟩, by omega⟩
    · rintro ⟨⟨hd, hall⟩, hsum⟩
      have hone : (deliver a e).live ≤ 1 := by omega
      exact ⟨hd, hone, (ih (by rwa [deliver_port hp]) hone).mpr ⟨hall, by omega⟩⟩

/-- **Services on a fresh address, and one task**: so it is exactly for the sequences without a lost cable in
which at most one address finds the memory for its task. -/
theorem events_iff {host : Bytes} {port : ℤ} (hport : 0 < port) {a : YunApp} (ha : yun_init host port = some a)
    (es : List (SystemEvent × Bool)) :
    StartsOnce a es ↔
      (∀ e ∈ es, e.1 ≠ .ETH_DISCONNECTED) ∧ es.countP (fun e => GotIp e.1 ∧ e.2 = true) ≤ 1 := by
  obtain ⟨m, -, rfl⟩ := Option.map_eq_some_iff.mp ha
  rw [startsOnce_iff es hport (Nat.zero_le 1)]
  refine and_congr_right fun hd => ?_
  have hcount : es.countP (fun e => Creates e) = es.countP fun e => GotIp e.1 ∧ e.2 = true := by
    refine List.countP_congr fun e he => ?_
    simp only [decide_eq_true_eq, Creates, or_iff_left (hd e he)]
  rw [hcount, Nat.zero_add]

/-- The globals behind `yun_init` with a host. -/
def yunExample : YunApp := ⟨⟨ascii "yun.example" ++ List.replicate 244 0, 8000⟩, 0⟩

theorem events_first_address :
    StartsOnce yunExample [(.ETH_CONNECTED, true), (.ETH_GOT_IP, true)] ↔
      (∀ e ∈ [(SystemEvent.ETH_CONNECTED, true), (.ETH_GOT_IP, true)], e.1 ≠ .ETH_DISCONNECTED) ∧
      [(SystemEvent.ETH_CONNECTED, true), (.ETH_GOT_IP, true)].countP (fun e => GotIp e.1 ∧ e.2 = true) ≤ 1 :=
  events_iff (show (0 : ℤ) < 8000 by decide)
    (show yun_init (ascii "yun.example") 8000 = some yunExample by decide +kernel) _

/-- The cable is pulled and plugged in again: three tasks. -/
theorem events_reconnect :
    ¬ ∀ (host : Bytes) (port : ℤ) (a : YunApp) (es : List (SystemEvent × Bool)), 0 < port →
      yun_init host port = some a → StartsOnce a es := by
  intro h
  obtain ⟨-, -, hlost, -⟩ := h (ascii "yun.example") 8000 yunExample
    [(.ETH_GOT_IP, true), (.ETH_DISCONNECTED, true), (.ETH_GOT_IP, true)] (by decide) (by decide +kernel)
  rcases hlost (Or.inl (by decide)) with hg | hg <;> cases hg

end Esp32Base
