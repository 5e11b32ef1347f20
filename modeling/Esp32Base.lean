import Esp32Base.Lib.Buf
import Esp32Base.Lib.CText
import Esp32Base.Lib.Framer
import Esp32Base.Lib.Backlog
import Esp32Base.MiniData
import Esp32Base.YunRecv
import Esp32Base.YunSend
import Esp32Base.UrlCode
import Esp32Base.WebSock.Pack
import Esp32Base.WebSock.Serv
import Esp32Base.Http.Post
import Esp32Base.Http.Recv
import Esp32Base.Http.Serv
import Esp32Base.Cfg.Flash
import Esp32Base.Cfg.Record
import Esp32Base.Cfg.Command
import Esp32Base.Lib.Links
import Esp32Base.ZhList
import Esp32Base.WebSock.Conn
import Esp32Base.WebSock.Page
import Esp32Base.WebSock.Send
import Esp32Base.Cfg.Setters
import Esp32Base.Cfg.Mqtt
import Esp32Base.Cfg.Factory
import Esp32Base.Http.Web
import Esp32Base.WebSock.Handshake
import Esp32Base.WebSock.Isolation
import Esp32Base.YunConn
import Esp32Base.Http.Response
import Esp32Base.SysEvent
import Esp32Base.TcpServ
import Esp32Base.WebSock.Race
import Esp32Base.Uart.Debug
import Esp32Base.Lib.Mealy
import Esp32Base.Uart.LineEdit
import Esp32Base.WebSock.Bounds
import Esp32Base.Lib.Carries
import Esp32Base.Uart.Mini
import Esp32Base.Http.Bounds
import Esp32Base.Lib.Subst
import Esp32Base.Http.Pages
import Esp32Base.MiniGet
import Esp32Base.WebSock.Frame
import Esp32Base.Http.Send
import Esp32Base.Http.Url
import Esp32Base.Http.Request
import Esp32Base.WebSock.KeyHeaders
import Esp32Base.Lib.Base64
import Esp32Base.Http.Match
import Esp32Base.WebSock.Accept
import Esp32Base.Gpio
import Esp32Base.WebSock.Base64Decode
import Esp32Base.SbufHex
import Esp32Base.YunDispatch
import Esp32Base.Lib.Tok
import Esp32Base.SceneProc
import Esp32Base.Lib.Greedy
import Esp32Base.Http.Extract
import Esp32Base.Http.Strstri
import Esp32Base.Http.Param
import Esp32Base.Lib.Heap
import Esp32Base.ZhListExp
import Esp32Base.Lib.Calls
import Esp32Base.Lib.Blocks
import Esp32Base.WebSock.Sha1
import Esp32Base.WebSock.Md5
import Esp32Base.WebSock.Digests
import Esp32Base.Lib.Varint
import Esp32Base.Mqtt.Msg
import Esp32Base.Mqtt.Wire
import Esp32Base.Mqtt.Parse
import Esp32Base.Lib.Inflight
import Esp32Base.Mqtt.Outbox
import Esp32Base.Mqtt.Client
import Esp32Base.Mqtt.Session
import Esp32Base.Mqtt.Fragments
import Esp32Base.Mqtt.Task
import Esp32Base.Mqtt.Discovery
import Esp32Base.Mqtt.Reconnect
import Esp32Base.Mqtt.Order
import Esp32Base.Mqtt.Start
import Esp32Base.Mqtt.Peer
import Esp32Base.Cfg.Store
import Esp32Base.YunTask
import Esp32Base.Http.Head
