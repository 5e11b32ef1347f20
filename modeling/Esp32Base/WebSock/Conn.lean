import Esp32Base.WebSock.Serv

/-!
# WebSock.Conn — the connections of the websocket server (websocket_serv.c)

One client at a time: `app_websocket_task_accept` takes a new socket and closes the old one,
`app_websocket_task_recv` hands the chunks to `websock_recv_cb` and cleans up when the peer is gone.
The events are interleaved in any order; each of them is atomic.
-/

namespace Esp32Base

open Lib Lib.Buf

/-- `memset` of the whole structure; `METHOD_UNKNOW` is 0. -/
def zhWebSockInit : TzhWebSocket := ⟨.unknow, none, none, none, none, none, none, none, none⟩

/-- The globals of both tasks. -/
structure WSockTasks where
  g_wsk_client_fd : ℕ
  serv : WSockServ

/-- The globals at boot. -/
def wsockBoot : WSockTasks :=
  ⟨0, ⟨⟨0, zhWebSockInit, List.replicate recvCacheSize 0, 0⟩, List.replicate 512 0⟩⟩

/-- What the two tasks wait for: `accept` returns, `recv` returns bytes, `recv` returns 0 or -1. -/
inductive WSockEvent
  | accept (fd : ℕ)
  | recv (recv_buf : Bytes)
  | gone

/-- The body of `app_websocket_task_accept` for a socket that was accepted. -/
def app_websocket_task_accept (g : WSockTasks) (fd : ℕ) : WSockTasks × List WSockOut :=
  let closed := if g.serv.wsclient.pespconn ≠ 0 then [.close g.serv.wsclient.pespconn] else []
  let wsclient := { g.serv.wsclient with pespconn := fd, hs := zhWebSockInit, recvLen := 0 }
  (⟨fd, { g.serv with wsclient := wsclient }⟩, closed)

/-- The branches of `app_websocket_task_recv` for a peer that is gone; the strings of `hs` are freed. -/
def app_websocket_task_gone (g : WSockTasks) : WSockTasks × List WSockOut :=
  let wsclient := { g.serv.wsclient with pespconn := 0, recvLen := 0 }
  (⟨0, { g.serv with wsclient := wsclient }⟩, [.close g.serv.wsclient.pespconn])

section Tasks

variable (handshake_1 handshake_2 : Handshake → Option (ℤ × Handshake))

/-- One event. Nothing is received while there is no client. -/
def wsockStep (g : WSockTasks) : WSockEvent → Option (WSockTasks × List WSockOut)
  | .accept fd => some (app_websocket_task_accept g fd)
  | .recv recv_buf =>
    if 0 < g.g_wsk_client_fd then
      (websock_recv_cb handshake_1 handshake_2 g.g_wsk_client_fd g.serv recv_buf).map fun (serv, out) =>
        (⟨g.g_wsk_client_fd, serv⟩, out)
    else some (g, [])
  | .gone => if 0 < g.g_wsk_client_fd then some (app_websocket_task_gone g) else some (g, [])

/-- A history of events; `none` as soon as one is undefined. -/
def wsockRun : WSockTasks → List WSockEvent → Option WSockTasks
  | g, [] => some g
  | g, e :: es => (wsockStep handshake_1 handshake_2 g e).bind fun p => wsockRun p.1 es

end Tasks

end Esp32Base
