import Esp32Base.Cfg.Record
import Esp32Base.Mqtt.Session
import Esp32Base.Mqtt.Task

/-!
# Mqtt.Discovery — who is there (main.c, trans_data.c, trans_data_a.c, udp_multicast.c)

A device that is asked says what it is called: over MQTT on `MSD/B` when the question came on `MSD/A`, over UDP to the
address the question came from.

* `decode_search`: what a reply says, read by somebody who knows its form only.
* `mqtt_discovery`: a question in a PUBLISH is answered by a PUBLISH.
* `udp_discovery`: over any datagrams, every question is answered to where it came from.
-/

namespace Esp32Base

open Lib Lib.Buf Lib.CText

/-! ## The names -/

/-- `g_msdA_devuuid` to `g_msdA_subscr`. -/
structure DeviceNames where
  devuuid : Bytes
  devname : Bytes
  devflag : Bytes
  pub : Bytes
  subscr : Bytes
  deriving DecidableEq

/-- `sprintf` into an array of 128 characters. -/
def printName (t : Bytes) : Option Bytes := if t.length < 128 then some t else none

/-- What `app_main` makes of the configuration. -/
def deviceNames (r : TagCfgData) : Option DeviceNames := do
  let devuuid ← r.str .devuuid
  let devname ← r.str .devname
  let devflag ← r.str .devflag
  return ⟨← printName devuuid, ← printName devname, ← printName devflag, ← printName (devname ++ ascii "_"),
    ← printName devname⟩

/-! ## The replies -/

/-- The text that is put together in `gen_json`. -/
def searchJson (devflag devname subscr publish : Bytes) : Bytes :=
  ascii "\x7b\"f\":\"" ++ devflag ++ ascii "\",\"n\":\"" ++ devname ++ ascii "\",\"s\":\"" ++ subscr ++
    ascii "\",\"p\":\"" ++ publish ++ ascii "\"\x7d"

/-- `gen_json` has 500 bytes; what is written to `sendBuf` and how much of it, with the NUL. -/
def searchFrameData (sendBuf devUUID devname devflag publish subscr : Bytes) : Option (Bytes × ℕ) :=
  let gen_json := searchJson devflag devname subscr publish
  if 500 ≤ gen_json.length then none
  else
    let frame := ascii "RMSD," ++ devUUID ++ ascii "," ++ gen_json ++ [0]
    (store sendBuf 0 frame).map fun sendBuf => (sendBuf, frame.length)

/-- The reply over UDP, out of a buffer of 500 bytes. -/
def isSearchFrameData (devUUID devname devflag : Bytes) : Option Bytes :=
  let frame := ascii "RMSD," ++ devUUID ++ ascii ",\x7b\"f\":\"" ++ devflag ++ ascii "\",\"n\":\"" ++ devname ++
    ascii "\"\x7d"
  if frame.length < 500 then some frame else none

/-- `memcmp` with a literal; with too little to compare the answer lies in what is behind it. -/
def startsWith (m pattern : Bytes) : Option Bool :=
  if m <+: pattern ∧ m ≠ pattern then none else some (decide (pattern <+: m))

/-- What is requested on a message; `answer` is that to the request. NULL is not looked at for its contents. -/
def mqtt_proc_data (names : DeviceNames) (event : DataEvent) (answer : SendAnswer) : Option (List MqttAppCall) := do
  let topic ← event.topic
  if ← startsWith topic (ascii "MSD/A") then
    let buf ← event.data
    if ← startsWith buf (ascii "FMSD,") then
      let (sebuf, selen) ← searchFrameData (List.replicate 600 0) names.devuuid names.devname names.devflag names.pub
        names.subscr
      return [.publish (some (ascii "MSD/B")) sebuf selen 0 0 answer]
    else return []
  else
    let _ ← load (names.subscr ++ List.replicate (128 - names.subscr.length) 0) 0 event.topic_len
    return []

/-- The handler of the application; what it prints and the LED are left out. -/
def mqtt_event_handler (names : DeviceNames) : EventHandler := fun event answers =>
  match event with
  | .connected => some [.subscribe (some (ascii "MSD/A")) 0 (answers 0), .subscribe (some names.subscr) 0 (answers 1)]
  | .data event => mqtt_proc_data names event (answers 0)
  | .disconnected | .subscribed _ | .unsubscribed _ => some []

/-! ## What a reply says -/

/-- What is in front of a byte, and behind it. -/
def upTo (c : UInt8) (s : Bytes) : Option (Bytes × Bytes) :=
  if c ∈ s then some (s.takeWhile (· ≠ c), (s.dropWhile (· ≠ c)).drop 1) else none

/-- What is behind a literal. -/
def behind (p s : Bytes) : Option Bytes := if p <+: s then some (s.drop p.length) else none

/-- A device as a reply describes it. -/
structure Described where
  devuuid : Bytes
  devflag : Bytes
  devname : Bytes
  topics : Option (Bytes × Bytes)
  deriving DecidableEq

/-- A reply; over MQTT there are the topics to subscribe and to publish, and a NUL behind it. -/
def decodeSearch (s : Bytes) : Option Described := do
  let (devuuid, s) ← upTo 0x2C (← behind (ascii "RMSD,") s)
  let (devflag, s) ← upTo 0x22 (← behind (ascii "\x7b\"f\":\"") s)
  let (devname, s) ← upTo 0x22 (← behind (ascii ",\"n\":\"") s)
  if s = ascii "\x7d" then return ⟨devuuid, devflag, devname, none⟩
  let (subscr, s) ← upTo 0x22 (← behind (ascii ",\"s\":\"") s)
  let (publish, s) ← upTo 0x22 (← behind (ascii ",\"p\":\"") s)
  if s = ascii "\x7d" ++ [0] then return ⟨devuuid, devflag, devname, some (subscr, publish)⟩
  none

theorem upTo_append {c : UInt8} {t : Bytes} (h : c ∉ t) (rest : Bytes) : upTo c (t ++ c :: rest) = some (t, rest) := by
  have hmem : c ∈ t ++ c :: rest := List.mem_append_right _ List.mem_cons_self
  rw [upTo, if_pos hmem, takeWhile_ne h, List.dropWhile_append_of_pos fun b hb =>
    decide_eq_true (ne_of_mem_of_not_mem hb h), List.dropWhile_cons_of_neg (by simp)]
  rfl

theorem behind_append (p s : Bytes) : behind p (p ++ s) = some s := by
  rw [behind, if_pos (List.prefix_append p s), List.drop_left]

/-- Names that a reply can be taken apart at: no comma in the identifier, no quote in the others. -/
structure Plainly (names : DeviceNames) : Prop where
  devuuid : 0x2C ∉ names.devuuid
  devname : 0x22 ∉ names.devname
  devflag : 0x22 ∉ names.devflag
  pub : 0x22 ∉ names.pub
  subscr : 0x22 ∉ names.subscr

section Decode

variable {names : DeviceNames}

/-- **A reply over MQTT** says all names. -/
theorem decode_search (h : Plainly names) :
    decodeSearch (ascii "RMSD," ++ names.devuuid ++ ascii "," ++
      searchJson names.devflag names.devname names.subscr names.pub ++ [0]) =
        some ⟨names.devuuid, names.devflag, names.devname, some (names.subscr, names.pub)⟩ := by
  have hshape : ascii "RMSD," ++ names.devuuid ++ ascii "," ++
      searchJson names.devflag names.devname names.subscr names.pub ++ [0] =
        ascii "RMSD," ++ (names.devuuid ++ 0x2C :: (ascii "\x7b\"f\":\"" ++ (names.devflag ++ 0x22 ::
          (ascii ",\"n\":\"" ++ (names.devname ++ 0x22 :: (ascii ",\"s\":\"" ++ (names.subscr ++ 0x22 ::
            (ascii ",\"p\":\"" ++ (names.pub ++ 0x22 :: (ascii "\x7d" ++ [0])))))))))) := by
    rw [searchJson]
    simp only [List.append_assoc]
    rfl
  have hmore : ∀ rest : Bytes, (ascii ",\"s\":\"" ++ rest) ≠ ascii "\x7d" := by
    intro rest heq
    have hhead : some (0x2C : UInt8) = some 0x7D := congrArg List.head? heq
    exact absurd hhead (by decide)
  rw [hshape, decodeSearch, behind_append]
  simp only [Option.bind_eq_bind, Option.bind_some, upTo_append h.devuuid, behind_append, upTo_append h.devflag,
    upTo_append h.devname, if_neg (hmore _), upTo_append h.subscr, upTo_append h.pub, if_true]
  rfl

/-- **A reply over UDP**. -/
theorem decode_udp (h : Plainly names) {frame : Bytes}
    (hf : isSearchFrameData names.devuuid names.devname names.devflag = some frame) :
    decodeSearch frame = some ⟨names.devuuid, names.devflag, names.devname, none⟩ := by
  unfold isSearchFrameData at hf
  dsimp only at hf
  split_ifs at hf with hlen
  obtain rfl := Option.some.inj hf
  have hshape : ascii "RMSD," ++ names.devuuid ++ ascii ",\x7b\"f\":\"" ++ names.devflag ++ ascii "\",\"n\":\"" ++
      names.devname ++ ascii "\"\x7d" = ascii "RMSD," ++ (names.devuuid ++ 0x2C :: (ascii "\x7b\"f\":\"" ++
        (names.devflag ++ 0x22 :: (ascii ",\"n\":\"" ++ (names.devname ++ 0x22 :: ascii "\x7d"))))) := by
    simp only [List.append_assoc]
    rfl
  rw [hshape, decodeSearch, behind_append]
  simp only [Option.bind_eq_bind, Option.bind_some, upTo_append h.devuuid, behind_append, upTo_append h.devflag,
    upTo_append h.devname, if_true]
  rfl

end Decode

/-! ## Names from a record -/

section Names

variable {r : TagCfgData} {names : DeviceNames}

theorem str_length {f : CfgField} {t : Bytes} (h : r.str f = some t) : t.length < f.size := by
  have hlen := cstr_length_lt h
  rw [TagCfgData.get, List.length_take] at hlen
  omega

/-- The names are as short as their fields. -/
theorem names_short (h : deviceNames r = some names) : names.devuuid.length < 64 ∧ names.devname.length < 32 ∧
    names.devflag.length < 16 ∧ names.pub = names.devname ++ ascii "_" ∧ names.subscr = names.devname := by
  obtain ⟨devuuid, huuid, h⟩ := Option.bind_eq_some_iff.mp h
  obtain ⟨devname, hname, h⟩ := Option.bind_eq_some_iff.mp h
  obtain ⟨devflag, hflag, h⟩ := Option.bind_eq_some_iff.mp h
  have h₁ : devuuid.length < 64 := str_length huuid
  have h₂ : devname.length < 32 := str_length hname
  have h₃ : devflag.length < 16 := str_length hflag
  have h₄ : (devname ++ ascii "_").length < 128 := by
    rw [List.length_append]
    have : (ascii "_").length = 1 := by decide
    omega
  have hprint : ∀ t : Bytes, t.length < 128 → printName t = some t := fun _ ht => if_pos ht
  rw [hprint devuuid (by omega), hprint devflag (by omega), hprint _ h₄, hprint devname (by omega)] at h
  obtain rfl := Option.some.inj h
  exact ⟨h₁, h₂, h₃, rfl, rfl⟩

/-- The frame that is sent. -/
def DeviceNames.frame (names : DeviceNames) : Bytes :=
  ascii "RMSD," ++ names.devuuid ++ ascii "," ++ searchJson names.devflag names.devname names.subscr names.pub ++ [0]

theorem frame_length (h : deviceNames r = some names) : names.frame.length ≤ 208 := by
  obtain ⟨huuid, hname, hflag, hpub, hsub⟩ := names_short h
  have hliterals : (ascii "RMSD,").length = 5 ∧ (ascii ",").length = 1 ∧ (ascii "\x7b\"f\":\"").length = 6 ∧
      (ascii "\",\"n\":\"").length = 7 ∧ (ascii "\",\"s\":\"").length = 7 ∧ (ascii "\",\"p\":\"").length = 7 ∧
      (ascii "\"\x7d").length = 2 ∧ (ascii "_").length = 1 := by decide
  rw [DeviceNames.frame, searchJson, hpub, hsub]
  simp only [List.length_append, List.length_singleton]
  omega

/-- **Both buffers** are large enough. -/
theorem searchFrameData_eq (h : deviceNames r = some names) :
    ∃ sebuf, searchFrameData (List.replicate 600 0) names.devuuid names.devname names.devflag names.pub names.subscr =
      some (sebuf, names.frame.length) ∧ load sebuf 0 names.frame.length = some names.frame := by
  have hlen := frame_length h
  have hjson : ¬ 500 ≤ (searchJson names.devflag names.devname names.subscr names.pub).length := by
    have hsum : names.frame.length = (ascii "RMSD," ++ names.devuuid ++ ascii ",").length +
        (searchJson names.devflag names.devname names.subscr names.pub).length + 1 := by
      rw [DeviceNames.frame, List.length_append, List.length_append]
      rfl
    omega
  obtain ⟨sebuf, hst⟩ : ∃ sebuf, store (List.replicate 600 0) 0 names.frame = some sebuf :=
    ⟨_, store_of_le (by rw [List.length_replicate]; omega)⟩
  have htake := store_take hst
  have hsize := store_length hst
  rw [List.length_replicate] at hsize
  rw [List.take_zero, List.nil_append, Nat.zero_add] at htake
  refine ⟨sebuf, ?_, ?_⟩
  · unfold searchFrameData
    dsimp only
    rw [if_neg hjson, show ascii "RMSD," ++ names.devuuid ++ ascii "," ++
      searchJson names.devflag names.devname names.subscr names.pub ++ [0] = names.frame from rfl, hst, Option.map_some]
  · rw [load_of_le (by omega), List.drop_zero, htake]

theorem isSearchFrameData_short (h : deviceNames r = some names) :
    ∃ frame, isSearchFrameData names.devuuid names.devname names.devflag = some frame := by
  obtain ⟨huuid, hname, hflag, -, -⟩ := names_short h
  have hliterals : (ascii "RMSD,").length = 5 ∧ (ascii ",\x7b\"f\":\"").length = 7 ∧ (ascii "\",\"n\":\"").length = 7 ∧
      (ascii "\"\x7d").length = 2 := by decide
  unfold isSearchFrameData
  dsimp only
  rw [if_pos]
  · exact ⟨_, rfl⟩
  · simp only [List.length_append]
    omega

end Names

/-! ## Over MQTT -/

section Mqtt

variable {n : ℕ} {client : MqttClient} {s : Inflight ℕ ℕ} {r : TagCfgData} {names : DeviceNames}

/-- A request whose data stands in front of more of its buffer. -/
theorem publish_front {sebuf frame : Bytes} (h : load sebuf 0 frame.length = some frame) (hne : frame ≠ [])
    (topic : Option Bytes) (qos retain drawn : ℕ) (tick written : ℤ) :
    clientCall client (.publish topic sebuf frame.length qos retain drawn tick written) =
      clientCall client (.publish topic frame frame.length qos retain drawn tick written) := by
  have hpos : ¬ ((frame.length : ℤ) ≤ 0) := by
    have := List.length_pos_iff.mpr hne
    omega
  have hself : load frame 0 frame.length = some frame := by
    rw [load_of_le (by omega), List.drop_zero, List.take_length]
  rw [clientCall, clientCall, MqttClient.esp_mqtt_client_publish, MqttClient.esp_mqtt_client_publish, if_neg hpos,
    if_neg hpos, Int.toNat_natCast, h, hself]

/-- The reply as a packet. -/
def DeviceNames.reply (names : DeviceNames) : MqttPublish := ⟨0, 0, 0, ascii "MSD/B", 0, names.frame⟩

theorem frame_ne_nil (names : DeviceNames) : names.frame ≠ [] := by
  intro heq
  have hlen := congrArg List.length heq
  rw [DeviceNames.frame, List.length_append, List.length_singleton] at hlen
  exact Nat.succ_ne_zero _ hlen

theorem reply_message (hnames : deviceNames r = some names) (hn : 218 ≤ n) (drawn : ℕ) :
    (MqttRequest.publish (some (ascii "MSD/B")) names.frame 0 0 drawn).message n = names.reply.packet.wire := by
  have hpacket : (MqttRequest.publish (some (ascii "MSD/B")) names.frame 0 0 drawn).packet = some names.reply.packet := rfl
  have hlen := frame_length hnames
  have hbody : names.reply.packet.body.length = 7 + names.frame.length := by
    have htopic : (mqttString (ascii "MSD/B")).length = 7 := by decide
    rw [DeviceNames.reply, MqttPublish.packet, MqttPublish.idPart]
    simp only [List.length_append, htopic, Nat.lt_irrefl, if_false, List.length_nil, Nat.add_zero]
  rw [MqttRequest.message, hpacket, Option.map_some, Option.getD_some, fitting, if_pos (by omega)]

/-- An event behind at most one message. -/
theorem dispatch_last (sent : Option Bytes) {handler : EventHandler} {answers : ℕ → SendAnswer} {client' : MqttClient}
    {e : MqttEvent} {calls : List MqttAppCall} {out : List MqttOut} (hcalls : handler e answers = some calls)
    (hrun : runCalls clientCall client (calls.map MqttAppCall.call) = some (client', out)) :
    dispatchEvents handler answers client ((sent.map .wrote).toList ++ [.event e]) =
      some (client', (sent.map .wrote).toList ++ .event e :: out) := by
  have hone : dispatchEvents handler answers client [.event e] = some (client', .event e :: out) := by
    rw [dispatchEvents, hcalls, Option.bind_some, hrun, Option.bind_some]
    exact congrArg (fun o => some (client', MqttOut.event e :: o)) (List.append_nil out)
  cases sent with
  | none => exact hone
  | some m =>
    rw [Option.map_some, Option.toList_some, List.singleton_append, dispatchEvents, hone]
    · rfl
    · exact fun e' heq => by cases heq

/-- What the handler requests on a question. -/
theorem proc_question (hnames : deviceNames r = some names) (event : DataEvent) {topic data : Bytes}
    (htopic : event.topic = some (ascii "MSD/A" ++ topic)) (hdata : event.data = some (ascii "FMSD," ++ data))
    (answer : SendAnswer) : ∃ sebuf, load sebuf 0 names.frame.length = some names.frame ∧
      mqtt_proc_data names event answer =
        some [.publish (some (ascii "MSD/B")) sebuf names.frame.length 0 0 answer] := by
  obtain ⟨sebuf, hframe, hload⟩ := searchFrameData_eq hnames
  have hstarts : ∀ pattern rest : Bytes, startsWith (pattern ++ rest) pattern = some true := by
    intro pattern rest
    rw [startsWith, if_neg, decide_eq_true (List.prefix_append pattern rest)]
    rintro ⟨hfront, hne⟩
    have hle := hfront.length_le
    rw [List.length_append] at hle
    have hnil : rest = [] := List.eq_nil_of_length_eq_zero (by omega)
    exact hne (by rw [hnil, List.append_nil])
  refine ⟨sebuf, hload, ?_⟩
  rw [mqtt_proc_data, htopic, hdata]
  simp only [Option.bind_eq_bind, Option.bind_some, hstarts, if_true, hframe]
  rfl

/-- What a PUBLISH writes and tells does not depend on what is in flight, and it counts no request. -/
theorem question_step (n : ℕ) (s : Inflight ℕ ℕ) (p : MqttPublish) (rest : Bytes) (drawn : ℕ) (written : ℤ)
    (more : List Bytes) :
    (sessionStep n s (.receive (.publish p) rest drawn written more)).2 =
        (MqttOp.receive (.publish p) rest drawn written more).outs n false ∧
      (sessionStep n s (.receive (.publish p) rest drawn written more)).1.count = s.count := by
  have houts : ∀ b, (MqttOp.receive (.publish p) rest drawn written more).outs n b =
      (MqttOp.receive (.publish p) rest drawn written more).outs n false := fun _ => rfl
  rw [sessionStep]
  split
  · exact ⟨rfl, rfl⟩
  · next e hev =>
    refine ⟨houts _, ?_⟩
    rw [MqttOp.ev] at hev
    -- quality 1 is answered with PUBACK, quality 2 with PUBREC, neither of them is tracked
    split_ifs at hev
    · obtain rfl := Option.some.inj hev
      rfl
    · obtain rfl := Option.some.inj hev
      rfl

/-- **A question over MQTT** is answered with one PUBLISH, whatever is in flight; the reply describes the device as its
record names it. -/
theorem mqtt_discovery (h : InSession n client s) (hn : 218 ≤ n) (hnames : deviceNames r = some names)
    (hplain : Plainly names) {p : MqttPublish} {rest : Bytes} {drawn : ℕ} {written : ℤ} {more : List Bytes}
    (hr : (MqttOp.receive (.publish p) rest drawn written more).Regular n) {topic data : Bytes}
    (htopic : p.topic = ascii "MSD/A" ++ topic) (hdata : p.payload = ascii "FMSD," ++ data)
    (answers : ℕ → SendAnswer) :
    ∃ client' s', ((clientCall client (MqttOp.receive (.publish p) rest drawn written more).call).bind fun q =>
        dispatchEvents (mqtt_event_handler names) answers q.1 q.2) =
          some (client', (MqttOp.receive (.publish p) rest drawn written more).outs n false ++
            [.wrote names.reply.packet.wire, .returned (if 0 < (answers 0).written then 0 else -1)]) ∧
      InSession n client' s' ∧ s'.count = s.count ∧
      decodeSearch names.reply.payload =
        some ⟨names.devuuid, names.devflag, names.devname, some (names.devname, names.devname ++ ascii "_")⟩ := by
  obtain ⟨-, -, -, hpub, hsub⟩ := names_short hnames
  obtain ⟨client₁, hrun, hin⟩ := op_session h hr
  obtain ⟨htold, hcount⟩ := question_step n s p rest drawn written more
  rw [htold] at hrun
  -- what the handler requests
  obtain ⟨sebuf, hload, hproc⟩ := proc_question hnames ⟨if 0 < p.qos then p.id else 0, some p.topic,
    p.topic.length, some p.payload, p.payload.length, (((p.payload.length : ℤ) - rest.length) % 2 ^ 16).toNat, 0⟩
    (congrArg some htopic) (congrArg some hdata) (answers 0)
  have hfit := reply_message hnames hn (answers 0).drawn
  have hregular : (MqttOp.publish (ascii "MSD/B") names.frame 0 0 (answers 0).drawn (answers 0).tick
      (answers 0).written).Regular n := by
    refine ⟨frame_ne_nil names, by decide, ?_⟩
    rw [hfit]
    exact List.cons_ne_nil _ _
  obtain ⟨client₂, hreply, hin₂⟩ := op_session hin hregular
  have hsecond : (sessionStep n (sessionStep n s (.receive (.publish p) rest drawn written more)).1
      (.publish (ascii "MSD/B") names.frame 0 0 (answers 0).drawn (answers 0).tick (answers 0).written)).2 =
        [.wrote names.reply.packet.wire, .returned (if 0 < (answers 0).written then 0 else -1)] := by
    rw [sessionStep]
    change MqttOp.outs n _ _ = _
    rw [MqttOp.outs, MqttOp.sent, Option.map_some, hfit]
    rfl
  rw [hsecond] at hreply
  have hcalls : runCalls clientCall client₁ ([.publish (some (ascii "MSD/B")) sebuf names.frame.length 0 0
      (answers 0)].map MqttAppCall.call) = some (client₂, [.wrote names.reply.packet.wire,
        .returned (if 0 < (answers 0).written then 0 else -1)]) := by
    rw [List.map_singleton, MqttAppCall.call, runCalls, publish_front hload (frame_ne_nil names)]
    change ((clientCall client₁ (MqttOp.publish (ascii "MSD/B") names.frame 0 0 (answers 0).drawn (answers 0).tick
      (answers 0).written).call).bind _) = _
    rw [hreply]
    rfl
  refine ⟨client₂, _, ?_, hin₂, hcount, ?_⟩
  · rw [hrun, Option.bind_some]
    have hlast := dispatch_last ((MqttOp.receive (.publish p) rest drawn written more).sent.map fun r => r.message n)
      (show mqtt_event_handler names (.data _) answers = some _ from hproc) hcalls
    rw [Option.map_map] at hlast
    have hanswered : (MqttOp.receive (.publish p) rest drawn written more).answered = [] := rfl
    rw [MqttOp.outs, hanswered, List.map_nil, List.append_nil]
    refine hlast.trans ?_
    rw [List.append_assoc]
    rfl
  · rw [← hpub]
    exact (decode_search hplain).trans (by rw [hsub])

/-- A device with names in its record. -/
def sampleNames : TagCfgData :=
  ⟨List.replicate 276 0 ++ ascii "u1" ++ List.replicate 62 0 ++ ascii "lamp" ++ List.replicate 28 0 ++ ascii "f" ++
    List.replicate 343 0, by decide +kernel⟩

/-- What it makes of them. -/
def sampleDevice : DeviceNames := ⟨ascii "u1", ascii "lamp", ascii "f", ascii "lamp_", ascii "lamp"⟩

theorem sampleNames_device : deviceNames sampleNames = some sampleDevice := by decide +kernel

theorem sampleDevice_plainly : Plainly sampleDevice :=
  ⟨by decide, by decide, by decide, by decide, by decide⟩

/-- A client with buffers of 240 bytes. -/
def roomyClient : MqttClient :=
  ⟨.connected, List.replicate 240 0, mqtt_msg_init (List.replicate 240 0) 240, 0, 0, 0, []⟩

theorem roomyClient_session : InSession 240 roomyClient ⟨0, 0, 0, []⟩ :=
  ⟨rfl, rfl, roomy_init (by decide) (by decide) List.length_replicate.ge, List.length_replicate, by decide⟩

/-- A question behind which a PINGRESP was read. -/
def sampleQuestion : MqttPublish := ⟨0, 0, 0, ascii "MSD/A", 0, ascii "FMSD,?"⟩

theorem mqtt_discovery_sample : ∃ client' s',
    ((clientCall roomyClient (MqttOp.receive (.publish sampleQuestion) [0xD0, 0] 0 1 []).call).bind fun q =>
      dispatchEvents (mqtt_event_handler sampleDevice) (fun _ => ⟨0, 0, 1⟩) q.1 q.2) =
        some (client', (MqttOp.receive (.publish sampleQuestion) [0xD0, 0] 0 1 []).outs 240 false ++
          [.wrote sampleDevice.reply.packet.wire, .returned (if 0 < (1 : ℤ) then 0 else -1)]) ∧
    InSession 240 client' s' ∧ s'.count = 0 ∧
    decodeSearch sampleDevice.reply.payload =
      some ⟨ascii "u1", ascii "f", ascii "lamp", some (ascii "lamp", ascii "lamp" ++ ascii "_")⟩ :=
  mqtt_discovery roomyClient_session (by decide) sampleNames_device sampleDevice_plainly
    ⟨by decide +kernel, ⟨by decide, by decide, by decide, by decide, by decide, by decide +kernel⟩, by decide,
      by decide⟩ (show sampleQuestion.topic = ascii "MSD/A" ++ [] by decide)
    (show sampleQuestion.payload = ascii "FMSD," ++ ascii "?" by decide) fun _ => ⟨0, 0, 1⟩

end Mqtt

/-! ## Over UDP -/

/-- What `recvfrom` says: nothing, or a datagram with its sender where that has an IPv4 address. -/
inductive UdpRecv
  | failed
  | datagram (sender : Option (Bytes × ℕ)) (data : Bytes)

/-- `g_lastUDP_ip`, `g_lastUDP_port`, and for how many addresses `getaddrinfo` still has memory: what it allocates
`sendUDP` never gives back. -/
structure UdpTask where
  g_lastUDP_ip : Bytes
  g_lastUDP_port : ℕ
  free : ℕ

/-- A datagram that is sent. -/
structure UdpSent where
  ip : Bytes
  port : ℕ
  data : Bytes
  deriving DecidableEq

/-- The errors of `getaddrinfo` are positive, and `sendUDP` looks for negative ones; without memory there is no address
to write the port to. -/
def sendUDP (task : UdpTask) (buf ip : Bytes) (port : ℕ) : Option (UdpTask × List UdpSent) :=
  match task.free with
  | 0 => none
  | free + 1 => some ({ task with free := free }, [⟨ip, port, buf⟩])

def sendUDPLastIP (task : UdpTask) (buf : Bytes) : Option (UdpTask × List UdpSent) :=
  if task.g_lastUDP_port ≠ 0 ∧ task.g_lastUDP_ip ≠ [] then sendUDP task buf task.g_lastUDP_ip task.g_lastUDP_port
  else some (task, [])

def udp_read (names : DeviceNames) (task : UdpTask) (data : Bytes) : Option (UdpTask × List UdpSent) :=
  if 4 < data.length ∧ data.take 4 = ascii "FMSD" then
    (isSearchFrameData names.devuuid names.devname names.devflag).bind fun frame => sendUDPLastIP task frame
  else some (task, [])

/-- What is kept of a sender. -/
def UdpTask.heard (task : UdpTask) : Option (Bytes × ℕ) → UdpTask
  | some (ip, port) => { task with g_lastUDP_ip := ip, g_lastUDP_port := port }
  | none => task

/-- A round of `app_mcast_task`. -/
def mcastRound (names : DeviceNames) (task : UdpTask) : UdpRecv → Option (UdpTask × List UdpSent)
  | .failed => some (task, [])
  | .datagram sender data =>
    if 0 < data.length then udp_read names (task.heard sender) data else some (task.heard sender, [])

namespace UdpRecv

def sender : UdpRecv → Option (Bytes × ℕ)
  | .failed => none
  | .datagram sender _ => sender

def asks : UdpRecv → Bool
  | .failed => false
  | .datagram _ data => decide (ascii "FMSD" <+: data ∧ data ≠ ascii "FMSD")

/-- Who asked, in their order: a sender that is not known is taken to be the one before it. -/
def asked (last : Bytes × ℕ) : List UdpRecv → List (Bytes × ℕ)
  | [] => []
  | r :: rs =>
    let last := r.sender.getD last
    if r.asks ∧ last.2 ≠ 0 ∧ last.1 ≠ [] then last :: asked last rs else asked last rs

end UdpRecv

section Udp

variable {names : DeviceNames}

theorem asks_iff {data : Bytes} : 4 < data.length ∧ data.take 4 = ascii "FMSD" ↔
    ascii "FMSD" <+: data ∧ data ≠ ascii "FMSD" := by
  have hfour : (ascii "FMSD").length = 4 := by decide
  constructor
  · rintro ⟨hlen, htake⟩
    refine ⟨htake ▸ List.take_prefix 4 data, ?_⟩
    rintro rfl
    omega
  · rintro ⟨⟨rest, rfl⟩, hne⟩
    have hrest : rest ≠ [] := fun h => hne (by rw [h, List.append_nil])
    have hpos := List.length_pos_iff.mpr hrest
    rw [List.length_append, hfour]
    exact ⟨by omega, List.take_left' hfour⟩

/-- **A round** answers a question, with memory for the address. -/
theorem mcastRound_eq {frame : Bytes} (hf : isSearchFrameData names.devuuid names.devname names.devflag = some frame)
    (task : UdpTask) (r : UdpRecv) :
    mcastRound names task r =
      let last := r.sender.getD (task.g_lastUDP_ip, task.g_lastUDP_port)
      let task := { task with g_lastUDP_ip := last.1, g_lastUDP_port := last.2 }
      if r.asks ∧ last.2 ≠ 0 ∧ last.1 ≠ [] then sendUDP task frame last.1 last.2 else some (task, []) := by
  cases r with
  | failed => rfl
  | datagram sender data =>
    have htask : task.heard sender =
        { task with
          g_lastUDP_ip := (sender.getD (task.g_lastUDP_ip, task.g_lastUDP_port)).1
          g_lastUDP_port := (sender.getD (task.g_lastUDP_ip, task.g_lastUDP_port)).2 } := by
      cases sender <;> rfl
    rw [mcastRound, htask, udp_read, hf, Option.bind_some, sendUDPLastIP]
    dsimp only [UdpRecv.sender]
    have hasks : (UdpRecv.datagram sender data).asks = true ↔ ascii "FMSD" <+: data ∧ data ≠ ascii "FMSD" :=
      decide_eq_true_iff
    by_cases hask : ascii "FMSD" <+: data ∧ data ≠ ascii "FMSD"
    · rw [if_pos (show 0 < data.length by have := (asks_iff.mpr hask).1; omega), if_pos (asks_iff.mpr hask)]
      by_cases hlast : (sender.getD (task.g_lastUDP_ip, task.g_lastUDP_port)).2 ≠ 0 ∧
          (sender.getD (task.g_lastUDP_ip, task.g_lastUDP_port)).1 ≠ []
      · rw [if_pos hlast, if_pos ⟨hasks.mpr hask, hlast⟩]
      · rw [if_neg hlast, if_neg fun h => hlast h.2]
    · rw [if_neg (fun h => hask (asks_iff.mp h)), ite_self, if_neg fun h => hask (hasks.mp h.1)]

/-- **A run** of rounds: it ends at the question there is no memory for. -/
theorem mcast_run {frame : Bytes} (hf : isSearchFrameData names.devuuid names.devname names.devflag = some frame) :
    ∀ (rs : List UdpRecv) (task : UdpTask),
      (runCalls (mcastRound names) task rs).map (fun q => (q.1.free, q.2)) =
        if (UdpRecv.asked (task.g_lastUDP_ip, task.g_lastUDP_port) rs).length ≤ task.free then
          some (task.free - (UdpRecv.asked (task.g_lastUDP_ip, task.g_lastUDP_port) rs).length,
            (UdpRecv.asked (task.g_lastUDP_ip, task.g_lastUDP_port) rs).map fun last => ⟨last.1, last.2, frame⟩)
        else none
  | [], task => by
    rw [UdpRecv.asked, List.length_nil, if_pos (Nat.zero_le _)]
    rfl
  | r :: rs, task => by
    have ih := mcast_run hf rs
    rw [runCalls, mcastRound_eq hf, UdpRecv.asked]
    dsimp only
    by_cases hask : r.asks ∧ (r.sender.getD (task.g_lastUDP_ip, task.g_lastUDP_port)).2 ≠ 0 ∧
        (r.sender.getD (task.g_lastUDP_ip, task.g_lastUDP_port)).1 ≠ []
    · rw [if_pos hask, if_pos hask, sendUDP]
      dsimp only
      cases hfree : task.free with
      | zero => rw [if_neg (by rw [List.length_cons]; omega)]; rfl
      | succ free =>
        dsimp only
        rw [Option.bind_some, Option.map_map]
        have hih := ih ⟨(r.sender.getD (task.g_lastUDP_ip, task.g_lastUDP_port)).1,
          (r.sender.getD (task.g_lastUDP_ip, task.g_lastUDP_port)).2, free⟩
        dsimp only at hih
        rw [List.length_cons, List.map_cons]
        by_cases hlen : (UdpRecv.asked (r.sender.getD (task.g_lastUDP_ip, task.g_lastUDP_port)) rs).length ≤ free
        · rw [if_pos hlen] at hih
          obtain ⟨q, hq, heq⟩ := Option.map_eq_some_iff.mp hih
          rw [hq, if_pos (by omega), Option.map_some, Nat.add_sub_add_right, ← (Prod.mk.inj heq).1,
            ← (Prod.mk.inj heq).2]
          rfl
        · rw [if_neg hlen] at hih
          rw [Option.map_eq_none_iff.mp hih, if_neg (by omega)]
          rfl
    · rw [if_neg hask, if_neg hask, Option.bind_some, Option.map_map]
      exact ih ⟨_, _, task.free⟩

/-- **Questions over UDP** are answered, each to whoever sent last by then, while there is memory for their addresses;
the reply describes a device whose texts print plainly. With one more the task writes through no address. -/
theorem udp_discovery {r : TagCfgData} (hnames : deviceNames r = some names) (task : UdpTask) (rs : List UdpRecv) :
    ((∃ q, runCalls (mcastRound names) task rs = some q) ↔
      (UdpRecv.asked (task.g_lastUDP_ip, task.g_lastUDP_port) rs).length ≤ task.free) ∧
    ∀ task' out, runCalls (mcastRound names) task rs = some (task', out) →
      task'.free + out.length = task.free ∧
      out.map (fun d => (d.ip, d.port)) = UdpRecv.asked (task.g_lastUDP_ip, task.g_lastUDP_port) rs ∧
      (Plainly names →
        ∀ d ∈ out, decodeSearch d.data = some ⟨names.devuuid, names.devflag, names.devname, none⟩) := by
  obtain ⟨frame, hf⟩ := isSearchFrameData_short hnames
  have hrun := mcast_run hf rs task
  by_cases hlen : (UdpRecv.asked (task.g_lastUDP_ip, task.g_lastUDP_port) rs).length ≤ task.free
  · rw [if_pos hlen] at hrun
    obtain ⟨q, hq, heq⟩ := Option.map_eq_some_iff.mp hrun
    obtain ⟨hfree, hout⟩ := Prod.mk.inj heq
    refine ⟨iff_of_true ⟨q, hq⟩ hlen, fun task' out h => ?_⟩
    obtain rfl := Option.some.inj (hq.symm.trans h)
    dsimp only at hfree hout
    rw [hout, List.length_map, hfree, List.map_map]
    refine ⟨Nat.sub_add_cancel hlen, ?_, fun hplain d hd => ?_⟩
    · exact List.map_id' _
    · obtain ⟨last, -, rfl⟩ := List.mem_map.mp hd
      exact decode_udp hplain hf
  · rw [if_neg hlen] at hrun
    have hnone := Option.map_eq_none_iff.mp hrun
    refine ⟨iff_of_false (fun ⟨q, hq⟩ => ?_) hlen, fun task' out h => ?_⟩
    · rw [hnone] at hq
      cases hq
    · rw [hnone] at h
      cases h

/-- Two questions, an empty datagram between them, and memory for two addresses. -/
theorem udp_discovery_sample :
    ((∃ q, runCalls (mcastRound sampleDevice) ⟨[], 0, 2⟩
        [.datagram (some (ascii "10.0.0.2", 4000)) (ascii "FMSD,"), .datagram (some (ascii "10.0.0.3", 4001)) [],
          .failed, .datagram none (ascii "FMSD?")] = some q) ↔
      (UdpRecv.asked ([], 0) [.datagram (some (ascii "10.0.0.2", 4000)) (ascii "FMSD,"),
        .datagram (some (ascii "10.0.0.3", 4001)) [], .failed, .datagram none (ascii "FMSD?")]).length ≤ 2) ∧
    ∀ task' out, runCalls (mcastRound sampleDevice) ⟨[], 0, 2⟩
        [.datagram (some (ascii "10.0.0.2", 4000)) (ascii "FMSD,"), .datagram (some (ascii "10.0.0.3", 4001)) [],
          .failed, .datagram none (ascii "FMSD?")] = some (task', out) →
      task'.free + out.length = 2 ∧
      out.map (fun d => (d.ip, d.port)) = UdpRecv.asked ([], 0) [.datagram (some (ascii "10.0.0.2", 4000)) (ascii "FMSD,"),
        .datagram (some (ascii "10.0.0.3", 4001)) [], .failed, .datagram none (ascii "FMSD?")] ∧
      ∀ d ∈ out, decodeSearch d.data = some ⟨ascii "u1", ascii "f", ascii "lamp", none⟩ := by
  obtain ⟨hdefined, hout⟩ := udp_discovery sampleNames_device ⟨[], 0, 2⟩
    [.datagram (some (ascii "10.0.0.2", 4000)) (ascii "FMSD,"), .datagram (some (ascii "10.0.0.3", 4001)) [],
      .failed, .datagram none (ascii "FMSD?")]
  refine ⟨hdefined, fun task' out h => ?_⟩
  obtain ⟨hfree, hto, hdecode⟩ := hout task' out h
  exact ⟨hfree, hto, hdecode sampleDevice_plainly⟩

example : UdpRecv.asked ([], 0) [.datagram (some (ascii "10.0.0.2", 4000)) (ascii "FMSD,"),
    .datagram (some (ascii "10.0.0.3", 4001)) [], .failed, .datagram none (ascii "FMSD?")] =
      [(ascii "10.0.0.2", 4000), (ascii "10.0.0.3", 4001)] := by decide

end Udp

end Esp32Base
