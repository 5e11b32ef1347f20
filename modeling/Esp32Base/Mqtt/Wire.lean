import Mathlib.Data.List.Infix
import Esp32Base.Mqtt.Msg

/-!
# Mqtt.Wire — control packets and the messages of mqtt_msg.c

A control packet is a byte with the type and the flags, the length of its body as a varint, and the body.

* `build_messages`: a request that is accepted and fits the buffer becomes its packet, any other one no message.
* `connect_decodes`: out of CONNECT a server reads what was configured.
-/

namespace Esp32Base

open Lib Lib.Buf Lib.CText

/-! ## Packets -/

structure MqttPacket where
  type : MqttType
  dup : ℕ
  qos : ℕ
  retain : ℕ
  body : Bytes

def MqttPacket.wire (p : MqttPacket) : Bytes :=
  UInt8.ofNat (16 * p.type.code + 8 * p.dup + 2 * p.qos + p.retain) :: (Varint.encode p.body.length ++ p.body)

/-- A string with its length. -/
def mqttString (s : Bytes) : Bytes := word16 s.length ++ s

/-- Flags as numbers. -/
def bit (b : Bool) : ℕ := if b then 1 else 0

namespace MqttConnectInfo

variable (info : MqttConnectInfo)

/-- The topic, the message, the quality and the retain flag of the will. -/
def will : Option (Bytes × Bytes × ℕ × Bool) :=
  (present info.will_topic).map fun topic => (topic, info.will_message, info.will_qos % 4, info.will_retain)

def flags : ℕ :=
  2 * bit info.clean_session + (match info.will with
    | none => 0
    | some (_, _, qos, retain) => 4 + 8 * qos + 32 * bit retain) +
    64 * bit (present info.password).isSome + 128 * bit (present info.username).isSome

/-- The protocol's name and version. -/
def protocol : Bytes := [0, 6] ++ ascii "MQIsdp" ++ [3]

/-- The fields that are there, in their order. -/
def payload (client_id : Bytes) : Bytes :=
  mqttString client_id ++ (match info.will with
    | none => []
    | some (topic, message, _) => mqttString topic ++ mqttString message) ++
    ((present info.username).map mqttString).getD [] ++ ((present info.password).map mqttString).getD []

end MqttConnectInfo

/-- The calls of `mqtt_msg_connect` to `mqtt_msg_disconnect`; `drawn` is the identifier at hand. -/
inductive MqttRequest
  | connect (info : MqttConnectInfo)
  | publish (topic : Option Bytes) (data : Bytes) (qos retain drawn : ℕ)
  | puback (message_id drawn : ℕ)
  | pubrec (message_id drawn : ℕ)
  | pubrel (message_id drawn : ℕ)
  | pubcomp (message_id drawn : ℕ)
  | subscribe (topic : Option Bytes) (qos drawn : ℕ)
  | unsubscribe (topic : Option Bytes) (drawn : ℕ)
  | pingreq
  | pingresp
  | disconnect

/-- The call, with what it makes of `*message_id`. -/
def MqttRequest.build (connection : MqttConnection) (message_id : ℕ) : MqttRequest → Option (ℕ × MqttConnection)
  | .connect info => (mqtt_msg_connect connection info).map fun c => (message_id, c)
  | .publish topic data qos retain drawn => mqtt_msg_publish connection topic data qos retain message_id drawn
  | .puback id drawn => (mqtt_msg_puback connection id drawn).map fun c => (message_id, c)
  | .pubrec id drawn => (mqtt_msg_pubrec connection id drawn).map fun c => (message_id, c)
  | .pubrel id drawn => (mqtt_msg_pubrel connection id drawn).map fun c => (message_id, c)
  | .pubcomp id drawn => (mqtt_msg_pubcomp connection id drawn).map fun c => (message_id, c)
  | .subscribe topic qos drawn => mqtt_msg_subscribe connection topic qos message_id drawn
  | .unsubscribe topic drawn => mqtt_msg_unsubscribe connection topic message_id drawn
  | .pingreq => (mqtt_msg_pingreq connection).map fun c => (message_id, c)
  | .pingresp => (mqtt_msg_pingresp connection).map fun c => (message_id, c)
  | .disconnect => (mqtt_msg_disconnect connection).map fun c => (message_id, c)

/-- An identifier of 0 asks for one. -/
def idOr (message_id drawn : ℕ) : Bytes := word16 (if message_id = 0 then drawn else message_id)

/-- The packet of a request, none without a topic or a client's name. -/
def MqttRequest.packet : MqttRequest → Option MqttPacket
  | .connect info => (present info.client_id).map fun client_id => ⟨.connect, 0, 0, 0,
      MqttConnectInfo.protocol ++ UInt8.ofNat info.flags :: (word16 info.keepalive ++ info.payload client_id)⟩
  | .publish topic data qos retain drawn => (present topic).map fun topic => ⟨.publish, 0, qos % 4, retain % 2,
      mqttString topic ++ (if 0 < qos then word16 drawn else []) ++ data⟩
  | .puback id drawn => some ⟨.puback, 0, 0, 0, idOr id drawn⟩
  | .pubrec id drawn => some ⟨.pubrec, 0, 0, 0, idOr id drawn⟩
  | .pubrel id drawn => some ⟨.pubrel, 0, 1, 0, idOr id drawn⟩
  | .pubcomp id drawn => some ⟨.pubcomp, 0, 0, 0, idOr id drawn⟩
  | .subscribe topic qos drawn => (present topic).map fun topic => ⟨.subscribe, 0, 1, 0,
      word16 drawn ++ mqttString topic ++ [UInt8.ofNat qos]⟩
  | .unsubscribe topic drawn => (present topic).map fun topic => ⟨.unsubscribe, 0, 1, 0,
      word16 drawn ++ mqttString topic⟩
  | .pingreq => some ⟨.pingreq, 0, 0, 0, []⟩
  | .pingresp => some ⟨.pingresp, 0, 0, 0, []⟩
  | .disconnect => some ⟨.disconnect, 0, 0, 0, []⟩

/-- What a buffer of `n` bytes lets through. -/
def fitting (n : ℕ) (p : MqttPacket) : Bytes := if 3 + p.body.length ≤ n then p.wire else []

/-! ## Building -/

theorem headerByte_eq (type : MqttType) {dup : ℕ} (hdup : dup < 2) (qos retain : ℕ) :
    headerByte type.code dup qos retain = UInt8.ofNat (16 * type.code + 8 * dup + 2 * (qos % 4) + retain % 2) := by
  have hq : UInt8.ofNat qos &&& 3 = UInt8.ofNat (qos % 4) := by
    apply UInt8.toNat.inj
    rw [UInt8.toNat_and, UInt8.toNat_ofNat', UInt8.toNat_ofNat', show (3 : UInt8).toNat = 2 ^ 2 - 1 by decide,
      Nat.and_two_pow_sub_one_eq_mod]
    omega
  have hr : UInt8.ofNat retain &&& 1 = UInt8.ofNat (retain % 2) := by
    apply UInt8.toNat.inj
    rw [UInt8.toNat_and, UInt8.toNat_ofNat', UInt8.toNat_ofNat', show (1 : UInt8).toNat = 2 ^ 1 - 1 by decide,
      Nat.and_two_pow_sub_one_eq_mod]
    omega
  have hall : ∀ t ∈ mqttTypes, ∀ d < 2, ∀ q < 4, ∀ r < 2,
      ((UInt8.ofNat t.code &&& (0x0f : UInt8)) <<< 4) ||| ((UInt8.ofNat d &&& (1 : UInt8)) <<< 3) |||
        (UInt8.ofNat q <<< 1) ||| UInt8.ofNat r = UInt8.ofNat (16 * t.code + 8 * d + 2 * q + r) := by decide +kernel
  rw [headerByte, hq, hr]
  exact hall type (by cases type <;> decide) dup hdup _ (Nat.mod_lt qos (by decide)) _ (Nat.mod_lt retain (by decide))

/-- A call that leaves a connection with room and this message. -/
def Leaves (n : ℕ) (message : Bytes) (r : Option MqttConnection) : Prop :=
  ∃ connection', r = some connection' ∧ Roomy connection' n ∧ connection'.message = message

section Build

variable {n : ℕ} {connection : MqttConnection} {body : Bytes} {p : MqttPacket}

theorem leaves_nothing (h : Roomy connection n) (hlong : ¬ 3 + p.body.length ≤ n) :
    Leaves n (fitting n p) (some (fail_message connection)) := by
  rw [fitting, if_neg hlong]
  exact ⟨fail_message connection, rfl, (fail_roomy h).1, (fail_roomy h).2⟩

/-- **A part** of a packet on the way to all of it. -/
theorem append_leaves (h : Building connection n body) {part : Bytes} {k : MqttConnection → Option MqttConnection}
    (hle : (body ++ part).length ≤ p.body.length)
    (hk : ∀ connection', Building connection' n (body ++ part) → Leaves n (fitting n p) (k connection')) :
    Leaves n (fitting n p) (orFail connection (append connection part) k) := by
  have happend := append_building h part
  by_cases hfit : 3 + (body ++ part).length ≤ n
  · rw [if_pos hfit] at happend
    obtain ⟨connection', happ, hbuild⟩ := happend
    rw [orFail, happ, Option.bind_some]
    exact hk connection' hbuild
  · rw [if_neg hfit] at happend
    rw [orFail, happend, Option.bind_some]
    exact leaves_nothing h.toRoomy (by omega)

/-- **The packet**, when all its parts are there. -/
theorem fini_leaves (h : Building connection n p.body) {qos retain : ℕ} (hdup : p.dup = 0) (hqos : p.qos = qos % 4)
    (hretain : p.retain = retain % 2) : Leaves n (fitting n p) (fini_message connection p.type 0 qos retain) := by
  obtain ⟨connection', hfini, hroomy, hmessage⟩ := fini_building h p.type 0 qos retain
  refine ⟨connection', hfini, hroomy, ?_⟩
  rw [hmessage, fitting, if_pos h.fits, MqttPacket.wire, headerByte_eq p.type (by decide), hdup, hqos, hretain]

/-- A field of CONNECT and its flag. -/
theorem appendField_leaves {name rest : Bytes} {flags flag : UInt8} (hname : name.length = 9)
    (h : Building connection n (name ++ flags :: rest)) {field : Option Bytes}
    {k : MqttConnection → Option MqttConnection}
    (hle : (name ++ flags :: rest).length + (((present field).map mqttString).getD []).length ≤ p.body.length)
    (hk : ∀ connection', Building connection' n (name ++ (if (present field).isSome then flags ||| flag else flags) ::
      (rest ++ ((present field).map mqttString).getD [])) → Leaves n (fitting n p) (k connection')) :
    Leaves n (fitting n p) (appendField connection field flag k) := by
  unfold appendField
  cases hfield : present field with
  | none =>
    rw [hfield] at hk
    refine hk connection ?_
    rwa [Option.isSome_none, if_neg (by decide), Option.map_none, Option.getD_none, List.append_nil]
  | some s =>
    rw [hfield] at hk hle
    simp only [Option.map_some, Option.getD_some, Option.isSome_some, if_true] at hk hle
    refine append_leaves h (by rw [List.length_append]; exact hle) fun c hc => ?_
    rw [List.append_assoc, List.cons_append] at hc
    obtain ⟨c', hor, hc'⟩ := orFlags_building hc hname flag
    rw [hor, Option.bind_some]
    exact hk c' hc'

/-- The flags of a will. -/
def willFlags (flags : UInt8) (info : MqttConnectInfo) : UInt8 :=
  ((flags ||| (0x04 : UInt8)) ||| (if info.will_retain then (0x20 : UInt8) else 0)) |||
    ((UInt8.ofNat info.will_qos &&& (3 : UInt8)) <<< 3)

/-- The will, with its flags. -/
theorem appendWill_leaves {name rest : Bytes} {flags : UInt8} (hname : name.length = 9)
    (h : Building connection n (name ++ flags :: rest)) {info : MqttConnectInfo}
    {k : MqttConnection → Option MqttConnection}
    (hle : (name ++ flags :: rest).length + (((present info.will_topic).map fun topic =>
      mqttString topic ++ mqttString info.will_message).getD []).length ≤ p.body.length)
    (hk : ∀ connection', Building connection' n
      (name ++ (if (present info.will_topic).isSome then willFlags flags info else flags) ::
        (rest ++ ((present info.will_topic).map fun topic => mqttString topic ++ mqttString info.will_message).getD [])) →
        Leaves n (fitting n p) (k connection')) :
    Leaves n (fitting n p) (appendWill connection info k) := by
  unfold appendWill
  cases hfield : present info.will_topic with
  | none =>
    rw [hfield] at hk
    refine hk connection ?_
    rwa [Option.isSome_none, if_neg (by decide), Option.map_none, Option.getD_none, List.append_nil]
  | some s =>
    rw [hfield] at hk hle
    simp only [Option.map_some, Option.getD_some, Option.isSome_some, if_true, List.length_append] at hk hle
    refine append_leaves h ?_ fun c₁ h₁ => append_leaves h₁ ?_ fun c₂ h₂ => ?_
    · simp only [List.length_append, mqttString] at hle ⊢
      omega
    · simp only [List.length_append, mqttString] at hle ⊢
      omega
    rw [List.append_assoc, List.append_assoc, List.cons_append] at h₂
    obtain ⟨c₃, hor₃, h₃⟩ := orFlags_building h₂ hname 0x04
    have hretain : ∃ c₄, (if info.will_retain then orFlags c₃ 0x20 else some c₃) = some c₄ ∧
        Building c₄ n (name ++ ((flags ||| (0x04 : UInt8)) ||| (if info.will_retain then (0x20 : UInt8) else 0)) ::
          (rest ++ (word16 s.length ++ s ++ (word16 info.will_message.length ++ info.will_message)))) := by
      by_cases hr : info.will_retain
      · obtain ⟨c₄, hor₄, h₄⟩ := orFlags_building h₃ hname 0x20
        rw [if_pos hr, if_pos hr]
        exact ⟨c₄, hor₄, h₄⟩
      · rw [if_neg hr, if_neg hr, UInt8.or_zero]
        exact ⟨c₃, rfl, h₃⟩
    obtain ⟨c₄, hor₄, h₄⟩ := hretain
    obtain ⟨c₅, hor₅, h₅⟩ := orFlags_building h₄ hname ((UInt8.ofNat info.will_qos &&& (3 : UInt8)) <<< 3)
    rw [hor₃, Option.bind_some, hor₄, Option.bind_some, hor₅, Option.bind_some]
    exact hk c₅ h₅

/-- A number of two bytes. -/
theorem word16_length (k : ℕ) : (word16 k).length = 2 := rfl

theorem mqttString_length (s : Bytes) : (mqttString s).length = 2 + s.length := by
  rw [mqttString, List.length_append, word16_length]

/-- The flags, set one after the other. -/
theorem flags_eq (info : MqttConnectInfo) :
    (let f₁ : UInt8 := if info.clean_session then 0x02 else 0
      let f₂ := if (present info.will_topic).isSome then willFlags f₁ info else f₁
      let f₃ := if (present info.username).isSome then f₂ ||| 0x80 else f₂
      if (present info.password).isSome then f₃ ||| 0x40 else f₃) = UInt8.ofNat info.flags := by
  have hq : UInt8.ofNat info.will_qos &&& 3 = UInt8.ofNat (info.will_qos % 4) := by
    apply UInt8.toNat.inj
    rw [UInt8.toNat_and, UInt8.toNat_ofNat', UInt8.toNat_ofNat', show (3 : UInt8).toNat = 2 ^ 2 - 1 by decide,
      Nat.and_two_pow_sub_one_eq_mod]
    omega
  have hmod := Nat.mod_lt info.will_qos (show 0 < 4 by decide)
  unfold MqttConnectInfo.flags MqttConnectInfo.will willFlags
  rw [hq]
  generalize info.will_qos % 4 = q at hmod
  have hall : ∀ q < 4, ∀ clean user pass will retain : Bool,
      (let f₁ : UInt8 := if clean then 0x02 else 0
        let f₂ := if will then ((f₁ ||| (0x04 : UInt8)) ||| (if retain then (0x20 : UInt8) else 0)) |||
          (UInt8.ofNat q <<< 3) else f₁
        let f₃ := if user then f₂ ||| 0x80 else f₂
        if pass then f₃ ||| 0x40 else f₃) =
      UInt8.ofNat (2 * bit clean + (if will then 4 + 8 * q + 32 * bit retain else 0) + 64 * bit pass + 128 * bit user) := by
    decide +kernel
  have h := hall q hmod info.clean_session (present info.username).isSome (present info.password).isSome
    (present info.will_topic).isSome info.will_retain
  cases hw : present info.will_topic with
  | none =>
    rw [hw] at h
    exact h
  | some topic =>
    rw [hw] at h
    exact h

/-- A request that will be refused whatever has been appended. -/
theorem append_refused (h : Building connection n body) (part : Bytes) {k : MqttConnection → Option MqttConnection}
    (hk : ∀ connection', Roomy connection' n → Leaves n [] (k connection')) :
    Leaves n [] (orFail connection (append connection part) k) := by
  have happend := append_building h part
  by_cases hfit : 3 + (body ++ part).length ≤ n
  · rw [if_pos hfit] at happend
    obtain ⟨connection', happ, hbuild⟩ := happend
    rw [orFail, happ, Option.bind_some]
    exact hk connection' hbuild.toRoomy
  · rw [if_neg hfit] at happend
    rw [orFail, happend, Option.bind_some]
    exact ⟨fail_message connection, rfl, (fail_roomy h.toRoomy).1, (fail_roomy h.toRoomy).2⟩

/-- What a request leaves. -/
def MqttRequest.message (r : MqttRequest) (n : ℕ) : Bytes := (r.packet.map (fitting n)).getD []

theorem connect_leaves (h : Roomy connection n) (info : MqttConnectInfo) :
    Leaves n ((MqttRequest.connect info).message n) (mqtt_msg_connect connection info) := by
  have hb := init_building h
  have hhead : ([0, 6] ++ ascii "MQIsdp" ++ [3, if info.clean_session then 0x02 else 0] ++ word16 info.keepalive : Bytes) =
      MqttConnectInfo.protocol ++ (if info.clean_session then 0x02 else 0) :: word16 info.keepalive := by
    simp only [MqttConnectInfo.protocol, List.append_assoc, List.cons_append, List.nil_append]
  have hname : MqttConnectInfo.protocol.length = 9 := by decide +kernel
  rw [mqtt_msg_connect, MqttRequest.message, MqttRequest.packet, hhead]
  cases hid : present info.client_id with
  | none => exact append_refused hb _ fun c hc => ⟨_, rfl, (fail_roomy hc).1, (fail_roomy hc).2⟩
  | some client_id =>
    rw [Option.map_some, Option.map_some, Option.getD_some]
    have hwill : (match info.will with
        | none => []
        | some (topic, message, _) => mqttString topic ++ mqttString message) =
          ((present info.will_topic).map fun topic => mqttString topic ++ mqttString info.will_message).getD [] := by
      unfold MqttConnectInfo.will
      cases present info.will_topic <;> rfl
    have hlen : (MqttConnectInfo.protocol ++ UInt8.ofNat info.flags ::
        (word16 info.keepalive ++ info.payload client_id)).length = 12 + (2 + client_id.length) +
          (((present info.will_topic).map fun topic => mqttString topic ++ mqttString info.will_message).getD []).length +
          (((present info.username).map mqttString).getD []).length +
          (((present info.password).map mqttString).getD []).length := by
      rw [MqttConnectInfo.payload, hwill]
      simp only [List.length_append, List.length_cons, hname, word16_length, mqttString_length]
      omega
    refine append_leaves hb ?_ fun c₁ h₁ => append_leaves h₁ ?_ fun c₂ h₂ => ?_
    · rw [hlen]
      simp only [List.nil_append, List.length_append, List.length_cons, hname, word16_length]
      omega
    · rw [hlen]
      simp only [List.nil_append, List.length_append, List.length_cons, hname, word16_length]
      omega
    rw [List.nil_append, List.append_assoc, List.cons_append] at h₂
    refine appendWill_leaves hname h₂ ?_ fun c₃ h₃ => appendField_leaves hname h₃ ?_ fun c₄ h₄ =>
      appendField_leaves hname h₄ ?_ fun c₅ h₅ => ?_
    · rw [hlen]
      simp only [List.length_append, List.length_cons, hname, word16_length]
      omega
    · rw [hlen]
      simp only [List.length_append, List.length_cons, hname, word16_length]
      omega
    · rw [hlen]
      simp only [List.length_append, List.length_cons, hname, word16_length]
      omega
    have hflags := flags_eq info
    dsimp only at hflags
    rw [hflags] at h₅
    have hbody : MqttConnectInfo.protocol ++ UInt8.ofNat info.flags :: (word16 info.keepalive ++ info.payload client_id) =
        MqttConnectInfo.protocol ++ UInt8.ofNat info.flags :: (word16 info.keepalive ++
          (word16 client_id.length ++ client_id) ++
          ((present info.will_topic).map fun topic => mqttString topic ++ mqttString info.will_message).getD [] ++
          ((present info.username).map mqttString).getD [] ++ ((present info.password).map mqttString).getD []) := by
      rw [MqttConnectInfo.payload, hwill, mqttString]
      simp only [List.append_assoc]
    rw [hbody]
    exact fini_leaves (p := ⟨.connect, 0, 0, 0, _⟩) h₅ rfl rfl rfl

/-- The four acknowledgements. -/
theorem ack_leaves (h : Roomy connection n) (type : MqttType) {qos : ℕ} (hqos : qos < 4) (id drawn : ℕ) :
    Leaves n (fitting n ⟨type, 0, qos, 0, idOr id drawn⟩) (mqtt_msg_ack type qos connection id drawn) := by
  have hb := init_building h
  have happend := append_building hb (idOr id drawn)
  rw [mqtt_msg_ack, append_message_id]
  by_cases hfit : 3 + ([] ++ idOr id drawn).length ≤ n
  · rw [if_pos hfit] at happend
    obtain ⟨c, happ, hc⟩ := happend
    rw [idOr] at happ
    simp only [happ, Option.map_some, Option.bind_some]
    exact fini_leaves (p := ⟨type, 0, qos, 0, idOr id drawn⟩) hc rfl (Nat.mod_eq_of_lt hqos).symm rfl
  · rw [if_neg hfit, idOr] at happend
    simp only [happend, Option.map_some, Option.map_none, Option.bind_some]
    exact leaves_nothing (p := ⟨type, 0, qos, 0, idOr id drawn⟩) hb.toRoomy hfit

theorem bare_leaves (h : Roomy connection n) (type : MqttType) :
    Leaves n (fitting n ⟨type, 0, 0, 0, []⟩) (mqtt_msg_bare type connection) :=
  fini_leaves (p := ⟨type, 0, 0, 0, []⟩) (init_building h) rfl rfl rfl

/-- The same with what `*message_id` is set to: `id` when there is a message. -/
def LeavesId (n : ℕ) (message : Bytes) (id : ℕ) (r : Option (ℕ × MqttConnection)) : Prop :=
  ∃ id' connection', r = some (id', connection') ∧ Roomy connection' n ∧ connection'.message = message ∧
    (message ≠ [] → id' = id)

theorem Leaves.withId {message : Bytes} {r : Option MqttConnection} (h : Leaves n message r) (id : ℕ) :
    LeavesId n message id (r.map fun connection => (id, connection)) := by
  obtain ⟨c, rfl, hc, hm⟩ := h
  exact ⟨id, c, rfl, hc, hm, fun _ => rfl⟩

theorem leavesId_nothing (h : Roomy connection n) (hlong : ¬ 3 + p.body.length ≤ n) (id id' : ℕ) :
    LeavesId n (fitting n p) id (some (id', fail_message connection)) := by
  rw [fitting, if_neg hlong]
  exact ⟨id', _, rfl, (fail_roomy h).1, (fail_roomy h).2, fun hne => absurd rfl hne⟩

/-- An identifier that is asked for. -/
theorem append_id_cases (h : Building connection n body) (drawn : ℕ) :
    (∃ connection', append_message_id connection 0 drawn = some (some (drawn, connection')) ∧
      Building connection' n (body ++ word16 drawn)) ∨
    append_message_id connection 0 drawn = some none ∧ ¬ 3 + (body ++ word16 drawn).length ≤ n := by
  have happend := append_building h (word16 drawn)
  by_cases hfit : 3 + (body ++ word16 drawn).length ≤ n
  · rw [if_pos hfit] at happend
    obtain ⟨c, happ, hc⟩ := happend
    refine Or.inl ⟨c, ?_, hc⟩
    rw [append_message_id, if_pos rfl, happ]
    rfl
  · rw [if_neg hfit] at happend
    refine Or.inr ⟨?_, hfit⟩
    rw [append_message_id, if_pos rfl, happend]
    rfl

theorem refused_leaves (h : Roomy connection n) (message_id id : ℕ) :
    LeavesId n [] id (some (message_id, fail_message (init_message connection))) :=
  ⟨message_id, _, rfl, (fail_roomy (init_building h).toRoomy).1, (fail_roomy (init_building h).toRoomy).2,
    fun hne => absurd rfl hne⟩

theorem publish_leaves (h : Roomy connection n) (topic : Option Bytes) (data : Bytes) (qos retain message_id drawn : ℕ) :
    LeavesId n ((MqttRequest.publish topic data qos retain drawn).message n) (if 0 < qos then drawn else 0)
      (mqtt_msg_publish connection topic data qos retain message_id drawn) := by
  rw [mqtt_msg_publish, MqttRequest.message, MqttRequest.packet]
  cases ht : present topic with
  | none => exact refused_leaves h message_id _
  | some topic =>
    have hb := init_building h
    have happend := append_building hb (word16 topic.length ++ topic)
    rw [List.nil_append] at happend
    rw [Option.map_some, Option.map_some, Option.getD_some]
    dsimp only [append_string]
    by_cases hfit : 3 + (word16 topic.length ++ topic).length ≤ n
    · rw [if_pos hfit] at happend
      obtain ⟨c, happ, hc⟩ := happend
      rw [happ, Option.bind_some]
      by_cases hqos : 0 < qos
      · simp only [if_pos hqos]
        rcases append_id_cases hc drawn with ⟨c₁, hid, h₁⟩ | ⟨hid, hlong⟩
        · simp only [hid, Option.bind_some]
          refine (append_leaves h₁ ?_ fun c₂ h₂ => ?_).withId drawn
          · simp only [List.length_append, mqttString]
            omega
          · exact fini_leaves (p := ⟨.publish, 0, qos % 4, retain % 2, mqttString topic ++ word16 drawn ++ data⟩) h₂ rfl rfl
              rfl
        · simp only [hid, Option.bind_some]
          refine leavesId_nothing hc.toRoomy ?_ _ _
          simp only [List.length_append, mqttString] at hlong ⊢
          omega
      · simp only [if_neg hqos, List.append_nil]
        refine (append_leaves hc ?_ fun c₂ h₂ => ?_).withId 0
        · simp only [List.length_append, mqttString]
          omega
        · exact fini_leaves (p := ⟨.publish, 0, qos % 4, retain % 2, mqttString topic ++ data⟩) h₂ rfl rfl rfl
    · rw [if_neg hfit] at happend
      rw [happend, Option.bind_some]
      refine leavesId_nothing hb.toRoomy ?_ _ _
      simp only [List.length_append, mqttString] at hfit ⊢
      omega

theorem subscribe_leaves (h : Roomy connection n) (topic : Option Bytes) (qos message_id drawn : ℕ) :
    LeavesId n ((MqttRequest.subscribe topic qos drawn).message n) drawn
      (mqtt_msg_subscribe connection topic qos message_id drawn) := by
  rw [mqtt_msg_subscribe, MqttRequest.message, MqttRequest.packet]
  cases ht : present topic with
  | none => exact refused_leaves h message_id _
  | some topic =>
    have hb := init_building h
    rw [Option.map_some, Option.map_some, Option.getD_some]
    rcases append_id_cases hb drawn with ⟨c₁, hid, h₁⟩ | ⟨hid, hlong⟩
    · simp only [hid, Option.bind_some]
      refine (append_leaves h₁ ?_ fun c₂ h₂ => append_leaves h₂ ?_ fun c₃ h₃ => ?_).withId drawn
      · simp only [List.length_append, List.nil_append, mqttString]
        omega
      · simp only [List.length_append, List.nil_append, mqttString]
        omega
      · exact fini_leaves (p := ⟨.subscribe, 0, 1, 0, word16 drawn ++ mqttString topic ++ [UInt8.ofNat qos]⟩) h₃ rfl rfl
          rfl
    · simp only [hid, Option.bind_some]
      refine leavesId_nothing hb.toRoomy ?_ _ _
      simp only [List.length_append, List.nil_append] at hlong ⊢
      omega

theorem unsubscribe_leaves (h : Roomy connection n) (topic : Option Bytes) (message_id drawn : ℕ) :
    LeavesId n ((MqttRequest.unsubscribe topic drawn).message n) drawn
      (mqtt_msg_unsubscribe connection topic message_id drawn) := by
  rw [mqtt_msg_unsubscribe, MqttRequest.message, MqttRequest.packet]
  cases ht : present topic with
  | none => exact refused_leaves h message_id _
  | some topic =>
    have hb := init_building h
    rw [Option.map_some, Option.map_some, Option.getD_some]
    rcases append_id_cases hb drawn with ⟨c₁, hid, h₁⟩ | ⟨hid, hlong⟩
    · simp only [hid, Option.bind_some]
      refine (append_leaves h₁ ?_ fun c₂ h₂ => ?_).withId drawn
      · simp only [List.length_append, List.nil_append, mqttString]
        omega
      · exact fini_leaves (p := ⟨.unsubscribe, 0, 1, 0, word16 drawn ++ mqttString topic⟩) h₂ rfl rfl rfl
    · simp only [hid, Option.bind_some]
      refine leavesId_nothing hb.toRoomy ?_ _ _
      simp only [List.length_append, List.nil_append] at hlong ⊢
      omega

/-- What `*message_id` is after a request that became a message. -/
def MqttRequest.idAfter (message_id : ℕ) : MqttRequest → ℕ
  | .publish _ _ qos _ drawn => if 0 < qos then drawn else 0
  | .subscribe _ _ drawn | .unsubscribe _ drawn => drawn
  | _ => message_id

theorem build_leaves (h : Roomy connection n) (message_id : ℕ) (r : MqttRequest) :
    LeavesId n (r.message n) (r.idAfter message_id) (r.build connection message_id) := by
  cases r with
  | connect info => exact (connect_leaves h info).withId message_id
  | publish topic data qos retain drawn => exact publish_leaves h topic data qos retain message_id drawn
  | puback id drawn => exact (ack_leaves h .puback (by decide) id drawn).withId message_id
  | pubrec id drawn => exact (ack_leaves h .pubrec (by decide) id drawn).withId message_id
  | pubrel id drawn => exact (ack_leaves h .pubrel (by decide) id drawn).withId message_id
  | pubcomp id drawn => exact (ack_leaves h .pubcomp (by decide) id drawn).withId message_id
  | subscribe topic qos drawn => exact subscribe_leaves h topic qos message_id drawn
  | unsubscribe topic drawn => exact unsubscribe_leaves h topic message_id drawn
  | pingreq => exact (bare_leaves h .pingreq).withId message_id
  | pingresp => exact (bare_leaves h .pingresp).withId message_id
  | disconnect => exact (bare_leaves h .disconnect).withId message_id

/-- Requests one after the other, with the messages. -/
def buildAll : MqttConnection → ℕ → List MqttRequest → Option (List Bytes)
  | _, _, [] => some []
  | connection, message_id, r :: rs =>
    (r.build connection message_id).bind fun (message_id, connection) =>
      (buildAll connection message_id rs).map (connection.message :: ·)

end Build

/-- **Requests** one after the other in one buffer: each becomes its packet when it is accepted and fits, and no message
otherwise. -/
theorem build_messages {n : ℕ} (rs : List MqttRequest) : ∀ (connection : MqttConnection) (_ : Roomy connection n)
    (message_id : ℕ), buildAll connection message_id rs = some (rs.map fun r => r.message n) := by
  induction rs with
  | nil => exact fun _ _ _ => rfl
  | cons r rs ih =>
    intro connection h message_id
    obtain ⟨id, connection', hbuild, hroomy, hmessage, -⟩ := build_leaves h message_id r
    rw [buildAll, hbuild, Option.bind_some]
    dsimp only
    rw [ih connection' hroomy id, Option.map_some, hmessage, List.map_cons]

/-- A will, all fields and an empty user name. -/
def sampleInfo : MqttConnectInfo where
  client_id := some (ascii "me")
  username := some []
  password := some (ascii "pw")
  will_topic := some (ascii "w")
  will_message := ascii "gone"
  keepalive := 300
  will_qos := 1
  will_retain := true
  clean_session := true

theorem roomy_init {buffer : Bytes} {n : ℕ} (h3 : 3 ≤ n) (hn : n ≤ 16386) (hsize : n ≤ buffer.length) :
    Roomy (mqtt_msg_init buffer n) n := ⟨rfl, h3, hn, hsize⟩

/-- The second one does not fit. -/
def sampleRequests : List MqttRequest :=
  [.connect sampleInfo, .publish (some (ascii "a/b")) (List.replicate 40 7) 1 0 9, .pingreq]

theorem build_messages_three : buildAll (mqtt_msg_init (List.replicate 40 0xEE) 40) 0 sampleRequests =
    some (sampleRequests.map fun r => r.message 40) :=
  build_messages sampleRequests _ (roomy_init (by decide) (by decide) (by decide)) 0

/-! ## CONNECT as a server reads it -/

/-- A string and what is behind it. -/
def takeString : Bytes → Option (Bytes × Bytes)
  | a :: b :: rest =>
    if rest.length < 256 * a.toNat + b.toNat then none
    else some (rest.take (256 * a.toNat + b.toNat), rest.drop (256 * a.toNat + b.toNat))
  | _ => none

/-- A string whose flag may be off. -/
def takeIf (flag : Bool) (s : Bytes) : Option (Option Bytes × Bytes) :=
  if flag then (takeString s).map fun r => (some r.1, r.2) else some (none, s)

structure ConnectFields where
  client_id : Bytes
  will : Option (Bytes × Bytes × ℕ × Bool)
  username : Option Bytes
  password : Option Bytes
  keepalive : ℕ
  clean_session : Bool
  deriving DecidableEq

/-- The will by its flags. -/
def takeWill (flags : ℕ) (s : Bytes) : Option (Option (Bytes × Bytes × ℕ × Bool) × Bytes) :=
  if flags / 4 % 2 = 1 then
    (takeString s).bind fun topic =>
      (takeString topic.2).map fun message =>
        (some (topic.1, message.1, flags / 8 % 4, decide (flags / 32 % 2 = 1)), message.2)
  else some (none, s)

/-- The payload by the flags; nothing may be left. -/
def decodePayload (flags keepalive : ℕ) (s : Bytes) : Option ConnectFields :=
  (takeString s).bind fun client_id =>
    (takeWill flags client_id.2).bind fun will =>
      (takeIf (decide (flags / 128 % 2 = 1)) will.2).bind fun username =>
        (takeIf (decide (flags / 64 % 2 = 1)) username.2).bind fun password =>
          if password.2 = [] then
            some ⟨client_id.1, will.1, username.1, password.1, keepalive, decide (flags / 2 % 2 = 1)⟩
          else none

/-- A whole CONNECT of the protocol's version 3. -/
def decodeConnect : Bytes → Option ConnectFields
  | c :: s =>
    (Varint.decode s).bind fun (length, body) =>
      if c = 0x10 ∧ body.length = length ∧ body.take 9 = MqttConnectInfo.protocol then
        match body.drop 9 with
        | flags :: a :: b :: s => decodePayload flags.toNat (256 * a.toNat + b.toNat) s
        | _ => none
      else none
  | [] => none

theorem word16_read {k : ℕ} (h : k < 2 ^ 16) : 256 * (UInt8.ofNat (k / 256)).toNat + (UInt8.ofNat k).toNat = k := by
  rw [UInt8.toNat_ofNat', UInt8.toNat_ofNat']
  omega

theorem takeString_append {s : Bytes} (h : s.length < 2 ^ 16) (rest : Bytes) :
    takeString (mqttString s ++ rest) = some (s, rest) := by
  rw [mqttString, word16, List.append_assoc, List.cons_append, List.cons_append, List.nil_append, takeString,
    word16_read h, if_neg (by rw [List.length_append]; omega), List.take_left, List.drop_left]

theorem takeIf_append {field : Option Bytes} (h : ∀ s ∈ field, s.length < 2 ^ 16) (rest : Bytes) :
    takeIf field.isSome ((field.map mqttString).getD [] ++ rest) = some (field, rest) := by
  cases field with
  | none => rfl
  | some s =>
    rw [Option.isSome_some, Option.map_some, Option.getD_some, takeIf, if_pos rfl, takeString_append (h s rfl)]
    rfl

section Connect

variable {info : MqttConnectInfo}

/-- The flags, read one by one. -/
theorem flags_read : info.flags / 128 % 2 = bit (present info.username).isSome ∧
    info.flags / 64 % 2 = bit (present info.password).isSome ∧ info.flags / 2 % 2 = bit info.clean_session ∧
    info.flags / 4 % 2 = bit info.will.isSome ∧ info.flags < 256 ∧
    ∀ w, info.will = some w → info.flags / 8 % 4 = w.2.2.1 ∧ info.flags / 32 % 2 = bit w.2.2.2 := by
  have hbit : ∀ b, bit b < 2 := by decide
  have hu := hbit (present info.username).isSome
  have hp := hbit (present info.password).isSome
  have hc := hbit info.clean_session
  unfold MqttConnectInfo.flags
  cases hw : info.will with
  | none =>
    rw [Option.isSome_none, show bit false = 0 from rfl]
    dsimp only
    refine ⟨by omega, by omega, by omega, by omega, by omega, fun w hw' => by cases hw'⟩
  | some w =>
    obtain ⟨topic, message, qos, retain⟩ := w
    have hqos : qos < 4 := by
      unfold MqttConnectInfo.will at hw
      obtain ⟨t, -, heq⟩ := Option.map_eq_some_iff.mp hw
      simp only [Prod.mk.injEq] at heq
      rw [← heq.2.2.1]
      exact Nat.mod_lt _ (by decide)
    have hr := hbit retain
    rw [Option.isSome_some, show bit true = 1 from rfl]
    dsimp only
    refine ⟨by omega, by omega, by omega, by omega, by omega, fun w hw' => ?_⟩
    obtain rfl := Option.some.inj hw'
    exact ⟨by dsimp only; omega, by dsimp only; omega⟩

theorem decide_bit (b : Bool) : decide (bit b = 1) = b := by cases b <;> rfl

/-- Everything in the payload has a length of two bytes. -/
structure ShortFields (info : MqttConnectInfo) (client_id : Bytes) : Prop where
  client_id : client_id.length < 2 ^ 16
  topic : ∀ w ∈ info.will, w.1.length < 2 ^ 16 ∧ w.2.1.length < 2 ^ 16
  username : ∀ s ∈ present info.username, s.length < 2 ^ 16
  password : ∀ s ∈ present info.password, s.length < 2 ^ 16

theorem decodePayload_eq {client_id : Bytes} (h : ShortFields info client_id) (keepalive : ℕ) :
    decodePayload info.flags keepalive (info.payload client_id) =
      some ⟨client_id, info.will, present info.username, present info.password, keepalive, info.clean_session⟩ := by
  obtain ⟨huser, hpass, hclean, hwill, -, hw⟩ := @flags_read info
  have htake : ∀ rest, takeWill info.flags ((match info.will with
      | none => []
      | some (topic, message, _) => mqttString topic ++ mqttString message) ++ rest) = some (info.will, rest) := by
    intro rest
    cases hinfo : info.will with
    | none =>
      rw [hinfo] at hwill
      rw [takeWill, if_neg (by rw [hwill]; decide)]
      rfl
    | some w =>
      rw [hinfo] at hwill
      obtain ⟨hqos, hretain⟩ := hw w hinfo
      obtain ⟨htopic, hmessage⟩ := h.topic w hinfo
      obtain ⟨topic, message, qos, retain⟩ := w
      rw [takeWill, if_pos (by rw [hwill]; rfl)]
      dsimp only
      rw [List.append_assoc, takeString_append htopic, Option.bind_some, takeString_append hmessage, Option.map_some,
        hqos, hretain, decide_bit]
  have hlast := takeIf_append h.password []
  rw [List.append_nil] at hlast
  rw [decodePayload, MqttConnectInfo.payload, List.append_assoc, List.append_assoc, takeString_append h.client_id,
    Option.bind_some]
  dsimp only
  rw [htake, Option.bind_some, huser, decide_bit]
  dsimp only
  rw [takeIf_append h.username, Option.bind_some, hpass, decide_bit]
  dsimp only
  rw [hlast, Option.bind_some, if_pos rfl, hclean, decide_bit]

/-- Fields of a payload are no longer than it. -/
theorem shortFields_of_length {client_id : Bytes} (h : (info.payload client_id).length < 2 ^ 16) :
    ShortFields info client_id := by
  rw [MqttConnectInfo.payload] at h
  simp only [List.length_append, mqttString_length] at h
  refine ⟨by omega, fun w hw => ?_, fun s hs => ?_, fun s hs => ?_⟩
  · obtain ⟨topic, message, rest⟩ := w
    rw [Option.mem_def.mp hw] at h
    simp only [List.length_append, mqttString_length] at h
    exact ⟨by dsimp only; omega, by dsimp only; omega⟩
  · rw [Option.mem_def.mp hs, Option.map_some, Option.getD_some, mqttString_length] at h
    omega
  · rw [Option.mem_def.mp hs, Option.map_some, Option.getD_some, mqttString_length] at h
    omega

/-- **A server reads** out of a CONNECT that was put together what was configured. -/
theorem connect_decodes {connection connection' : MqttConnection} {n : ℕ} (h : Roomy connection n)
    (hkeep : info.keepalive < 2 ^ 16) (hrun : mqtt_msg_connect connection info = some connection')
    (hne : connection'.message ≠ []) : ∃ client_id, present info.client_id = some client_id ∧
      decodeConnect connection'.message = some ⟨client_id, info.will, present info.username, present info.password,
        info.keepalive, info.clean_session⟩ := by
  obtain ⟨c, hc, -, hmessage⟩ := connect_leaves h info
  obtain rfl := Option.some.inj (hrun.symm.trans hc)
  rw [hmessage] at hne ⊢
  rw [MqttRequest.message, MqttRequest.packet] at hne ⊢
  cases hid : present info.client_id with
  | none =>
    rw [hid] at hne
    exact absurd rfl hne
  | some client_id =>
    rw [hid, Option.map_some, Option.map_some, Option.getD_some, fitting] at hne
    rw [Option.map_some, Option.map_some, Option.getD_some, fitting]
    split_ifs at hne with hfit
    · rw [if_pos hfit]
      have hname : MqttConnectInfo.protocol.length = 9 := by decide +kernel
      have hsmall := h.small
      simp only [List.length_append, List.length_cons, hname] at hfit
      have hshort : ShortFields info client_id := shortFields_of_length (by omega)
      obtain ⟨-, -, -, -, hflags, -⟩ := @flags_read info
      have hbyte : (UInt8.ofNat info.flags).toNat = info.flags := by
        rw [UInt8.toNat_ofNat', Nat.mod_eq_of_lt hflags]
      have hdecode := Varint.decode_encode (MqttConnectInfo.protocol ++
        UInt8.ofNat info.flags :: (word16 info.keepalive ++ info.payload client_id)).length
        (MqttConnectInfo.protocol ++ UInt8.ofNat info.flags :: (word16 info.keepalive ++ info.payload client_id))
      refine ⟨client_id, rfl, ?_⟩
      rw [MqttPacket.wire, show UInt8.ofNat (16 * MqttType.connect.code + 8 * 0 + 2 * 0 + 0) = 0x10 from rfl,
        decodeConnect]
      dsimp only
      rw [hdecode, Option.bind_some]
      dsimp only
      rw [if_pos ⟨rfl, rfl, by rw [← hname, List.take_left]⟩, ← hname, List.drop_left, word16]
      dsimp only [List.cons_append, List.nil_append]
      rw [word16_read hkeep, hbyte, decodePayload_eq hshort]
    · exact absurd rfl hne

end Connect

/-- The connection after the sample was put together. -/
def sampleConnected : MqttConnection :=
  (mqtt_msg_connect (mqtt_msg_init (List.replicate 40 0xEE) 40) sampleInfo).get (by decide +kernel)

theorem connect_decodes_sample : ∃ client_id, present sampleInfo.client_id = some client_id ∧
    decodeConnect sampleConnected.message = some ⟨client_id, sampleInfo.will, present sampleInfo.username,
      present sampleInfo.password, sampleInfo.keepalive, sampleInfo.clean_session⟩ :=
  connect_decodes (roomy_init (n := 40) (by decide) (by decide) (by decide)) (by decide) (Option.some_get _).symm
    (by decide +kernel)

example : decodeConnect sampleConnected.message =
    some ⟨ascii "me", some (ascii "w", ascii "gone", 1, true), none, some (ascii "pw"), 300, true⟩ := by decide +kernel

end Esp32Base
