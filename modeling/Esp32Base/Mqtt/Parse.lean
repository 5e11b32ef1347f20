import Esp32Base.Mqtt.Wire

/-!
# Mqtt.Parse — packets where they were read (mqtt_msg.c)

The functions look at the front of a buffer of which `n` bytes were read; behind a packet there may be others, and of
a long one only the first fragment.

* `announced_eq`: the loop over the length.
* `publish_taken_apart`: a PUBLISH of which a byte of the payload has arrived.
* `answer_id`: the identifier of the packets that are nothing but one.
-/

namespace Esp32Base

open Lib Lib.Buf Lib.CText

/-! ## The length -/

theorem low_bits (c : UInt8) : (c &&& 0x7f).toNat = c.toNat % 128 ∧ (c &&& 0x80 = 0 ↔ c.toNat < 128) := by
  revert c
  apply forall_byte
  decide +kernel

/-- **The loop** reads a varint. -/
theorem lengthLoop_encode (rest : Bytes) (v : ℕ) : ∀ k totlen, k + (Varint.encode v).length ≤ 5 →
    totlen + v * 2 ^ (7 * k) < 2 ^ 31 → lengthLoop (Varint.encode v ++ rest) k totlen =
      some (totlen + v * 2 ^ (7 * k), k + 1 + (Varint.encode v).length) := by
  induction v using Nat.strongRecOn with
  | _ v ih =>
    intro k totlen hk hsum
    by_cases hv : v < 128
    · rw [Varint.encode_short hv] at hk ⊢
      rw [List.length_singleton] at hk
      rw [List.singleton_append, lengthLoop, (low_bits _).1, Varint.low_toNat hv, Nat.mod_eq_of_lt hv,
        Nat.shiftLeft_eq, if_neg (by omega), if_pos ((low_bits _).2.mpr (by rwa [Varint.low_toNat hv])),
        List.length_singleton]
    · rw [Varint.encode_long (by omega)] at hk ⊢
      rw [List.length_cons] at hk
      have hpos := Varint.encode_length_pos (v / 128)
      have hsplit : v * 2 ^ (7 * k) = v % 128 * 2 ^ (7 * k) + v / 128 * 2 ^ (7 * (k + 1)) := by
        rw [show 7 * (k + 1) = 7 + 7 * k by omega, Nat.pow_add, ← Nat.mul_assoc, ← Nat.add_mul]
        congr 1
        omega
      have hbyte : ((UInt8.ofNat (128 + v % 128)) &&& 0x7f).toNat = v % 128 := by
        rw [(low_bits _).1, Varint.high_toNat]
        omega
      rw [List.cons_append, lengthLoop, hbyte, Nat.shiftLeft_eq, if_neg (by omega), if_neg (by
        rw [(low_bits _).2, Varint.high_toNat]
        omega), ih (v / 128) (by omega) (k + 1) _ (by omega) (by omega), List.length_cons, hsplit]
      simp only [Option.some.injEq, Prod.mk.injEq]
      omega

theorem skipLoop_encode (rest : Bytes) (v : ℕ) : ∀ i, skipLoop (Varint.encode v ++ rest) i =
    i + (Varint.encode v).length := by
  induction v using Nat.strongRecOn with
  | _ v ih =>
    intro i
    by_cases hv : v < 128
    · rw [Varint.encode_short hv, List.singleton_append, skipLoop,
        if_pos ((low_bits _).2.mpr (by rwa [Varint.low_toNat hv])), List.length_singleton]
    · rw [Varint.encode_long (by omega), List.cons_append, skipLoop, if_neg (by
        rw [(low_bits _).2, Varint.high_toNat]
        omega), ih (v / 128) (by omega), List.length_cons]
      omega

/-! ## What was read -/

/-- Of the packet and what follows it the first `n` bytes stand in the buffer. -/
structure ReadInto (m : Bytes) (n : ℕ) (p : MqttPacket) (rest : Bytes) : Prop where
  front : m.take n = (p.wire ++ rest).take n
  size : n ≤ m.length
  long : n ≤ (p.wire ++ rest).length

/-- Where the body starts. -/
def MqttPacket.bodyAt (p : MqttPacket) : ℕ := 1 + (Varint.encode p.body.length).length

section Read

variable {m : Bytes} {n : ℕ} {p : MqttPacket} {rest : Bytes}

theorem wire_length (p : MqttPacket) : p.wire.length = p.bodyAt + p.body.length := by
  rw [MqttPacket.wire, MqttPacket.bodyAt, List.length_cons, List.length_append]
  omega

theorem ReadInto.load (h : ReadInto m n p rest) {off k : ℕ} (hk : off + k ≤ n) :
    load m off k = load (p.wire ++ rest) off k := by
  have hsize := h.size
  have hlong := h.long
  rw [load_of_le (by omega), load_of_le (by omega)]
  have hcut := congrArg (fun l => (l.drop off).take k) h.front
  simp only [List.drop_take, List.take_take, Nat.min_eq_left (show k ≤ n - off by omega)] at hcut
  rw [hcut]

/-- The body and what is behind it, from a place in the body on. -/
theorem ReadInto.load_body (h : ReadInto m n p rest) {a b c : Bytes} (hbody : p.body ++ rest = a ++ b ++ c)
    (hk : p.bodyAt + a.length + b.length ≤ n) : Buf.load m (p.bodyAt + a.length) b.length = some b := by
  rw [h.load hk]
  have hmid := load_mid ((UInt8.ofNat (16 * p.type.code + 8 * p.dup + 2 * p.qos + p.retain) ::
    Varint.encode p.body.length) ++ a) b c
  have hlen : ((UInt8.ofNat (16 * p.type.code + 8 * p.dup + 2 * p.qos + p.retain) ::
      Varint.encode p.body.length) ++ a).length = p.bodyAt + a.length := by
    rw [List.length_append, List.length_cons, MqttPacket.bodyAt]
    omega
  have hwire : (UInt8.ofNat (16 * p.type.code + 8 * p.dup + 2 * p.qos + p.retain) :: Varint.encode p.body.length) ++ a ++
      b ++ c = p.wire ++ rest := by
    rw [MqttPacket.wire, List.cons_append, List.cons_append, List.cons_append, List.cons_append, List.append_assoc,
      List.append_assoc, List.append_assoc, hbody]
    simp only [List.append_assoc]
  rwa [hlen, hwire] at hmid

theorem ReadInto.head (h : ReadInto m n p rest) (hn : 0 < n) :
    m[0]? = some (UInt8.ofNat (16 * p.type.code + 8 * p.dup + 2 * p.qos + p.retain)) := by
  have hfront : (m.take n)[0]? = ((p.wire ++ rest).take n)[0]? := by rw [h.front]
  rw [List.getElem?_take_of_lt hn, List.getElem?_take_of_lt hn] at hfront
  rw [hfront]
  rfl

/-- The bytes behind the first one, when all of the length has arrived. -/
theorem ReadInto.tail (h : ReadInto m n p rest) (hn : p.bodyAt ≤ n) :
    ∃ y, Buf.load m 0 n = some (m.take n) ∧ (m.take n).drop 1 = Varint.encode p.body.length ++ y := by
  refine ⟨(p.body ++ rest).take (n - p.bodyAt), ?_, ?_⟩
  · rw [load_of_le (by rw [Nat.zero_add]; exact h.size), List.drop_zero]
  · rw [h.front, MqttPacket.wire, List.cons_append, List.drop_take, List.drop_succ_cons, List.drop_zero,
      List.append_assoc, List.take_append, List.take_of_length_le (by
        rw [MqttPacket.bodyAt] at hn
        omega), MqttPacket.bodyAt, Nat.sub_add_eq]

/-- **The length** that is announced, and where the body starts. -/
theorem announced_eq (h : ReadInto m n p rest) (hn : p.bodyAt ≤ n) (hsmall : p.body.length < 2 ^ 28) :
    announced m n = some (p.wire.length, p.bodyAt) := by
  obtain ⟨y, hload, htail⟩ := h.tail hn
  have hfour : (Varint.encode p.body.length).length ≤ 4 := Varint.encode_length_le 3 (hsmall.trans_eq (by decide))
  rw [announced, hload, Option.bind_some, htail, lengthLoop_encode y p.body.length 0 0 (by omega) (by omega),
    Option.bind_some]
  have hsum : 0 + p.body.length * 2 ^ (7 * 0) + (0 + 1 + (Varint.encode p.body.length).length) = p.wire.length := by
    rw [wire_length, MqttPacket.bodyAt]
    omega
  have hat : 0 + 1 + (Varint.encode p.body.length).length = p.bodyAt := by rw [MqttPacket.bodyAt, Nat.zero_add]
  dsimp only
  rw [hsum, hat, if_pos (by rw [wire_length, MqttPacket.bodyAt]; omega)]

end Read

/-! ## PUBLISH -/

/-- A PUBLISH; the identifier is sent with a quality of 1 or 2. -/
structure MqttPublish where
  dup : ℕ
  qos : ℕ
  retain : ℕ
  topic : Bytes
  id : ℕ
  payload : Bytes

namespace MqttPublish

variable (p : MqttPublish)

def idPart : Bytes := if 0 < p.qos then word16 p.id else []

def packet : MqttPacket := ⟨.publish, p.dup, p.qos, p.retain, mqttString p.topic ++ p.idPart ++ p.payload⟩

/-- Where the topic and the payload start. -/
def topicAt : ℕ := p.packet.bodyAt + 2
def dataAt : ℕ := p.topicAt + p.topic.length + p.idPart.length

/-- What the fields of a packet can hold; the length has at most four bytes. -/
structure Valid : Prop where
  dup : p.dup < 2
  qos : p.qos < 4
  retain : p.retain < 2
  topic : p.topic.length < 2 ^ 16
  id : p.id < 2 ^ 16
  small : p.packet.body.length < 2 ^ 28

end MqttPublish

theorem be16_word16 {k : ℕ} (h : k < 2 ^ 16) : be16 (word16 k) = k := by
  have hlow : (UInt8.ofNat k).toNat < 2 ^ 8 := (UInt8.ofNat k).toNat_lt
  have hread := word16_read h
  change (UInt8.ofNat (k / 256)).toNat <<< 8 ||| (UInt8.ofNat k).toNat = k
  rw [← Nat.shiftLeft_add_eq_or_of_lt hlow, Nat.shiftLeft_eq]
  omega

/-- The fields of the first byte. -/
def FirstByte (c : UInt8) (type dup qos retain : ℕ) : Prop :=
  ((c &&& (0xf0 : UInt8)) >>> 4).toNat = type ∧ ((c &&& (0x08 : UInt8)) >>> 3).toNat = dup ∧
    ((c &&& (0x06 : UInt8)) >>> 1).toNat = qos ∧ (c &&& (0x01 : UInt8)).toNat = retain

instance (c : UInt8) (type dup qos retain : ℕ) : Decidable (FirstByte c type dup qos retain) :=
  inferInstanceAs (Decidable (_ ∧ _))

theorem firstByte_read {type : MqttType} {dup qos retain : ℕ} (hd : dup < 2) (hq : qos < 4) (hr : retain < 2) :
    FirstByte (UInt8.ofNat (16 * type.code + 8 * dup + 2 * qos + retain)) type.code dup qos retain := by
  have hall : ∀ t ∈ mqttTypes, ∀ d < 2, ∀ q < 4, ∀ r < 2,
      FirstByte (UInt8.ofNat (16 * t.code + 8 * d + 2 * q + r)) t.code d q r := by decide +kernel
  exact hall type (by cases type <;> decide) dup hd qos hq retain hr

theorem ofCode_code (type : MqttType) : MqttType.ofCode type.code = some type := by cases type <;> rfl

section Publish

variable {m : Bytes} {n : ℕ} {p : MqttPublish} {rest : Bytes}

theorem body_split (p : MqttPublish) (rest : Bytes) : p.packet.body ++ rest =
    word16 p.topic.length ++ p.topic ++ p.idPart ++ (p.payload ++ rest) := by
  rw [MqttPublish.packet, mqttString]
  simp only [List.append_assoc]

theorem dataAt_eq (p : MqttPublish) : p.packet.wire.length = p.dataAt + p.payload.length := by
  have hbody := congrArg List.length (body_split p [])
  simp only [List.append_nil, List.length_append, word16_length] at hbody
  rw [wire_length, hbody, MqttPublish.dataAt, MqttPublish.topicAt]
  omega

/-- The flags. -/
theorem publish_flags (h : ReadInto m n p.packet rest) (hv : p.Valid) (hn : 0 < n) :
    mqtt_get_type m = some MqttType.publish.code ∧ mqtt_get_dup m = some p.dup ∧ mqtt_get_qos m = some p.qos ∧
      mqtt_get_retain m = some p.retain := by
  obtain ⟨h1, h2, h3, h4⟩ := @firstByte_read .publish p.dup p.qos p.retain hv.dup hv.qos hv.retain
  have hhead := h.head hn
  rw [mqtt_get_type, mqtt_get_dup, mqtt_get_qos, mqtt_get_retain, hhead]
  exact ⟨congrArg some h1, congrArg some h2, congrArg some h3, congrArg some h4⟩

/-- The two bytes in front of the topic. -/
theorem load_topic_length (h : ReadInto m n p.packet rest) (hn : p.topicAt ≤ n) :
    load m p.packet.bodyAt 2 = some (word16 p.topic.length) :=
  h.load_body (a := []) (b := word16 p.topic.length) (c := p.topic ++ p.idPart ++ (p.payload ++ rest))
    (by rw [body_split]; simp only [List.nil_append, List.append_assoc]) hn

theorem load_topic (h : ReadInto m n p.packet rest) (hn : p.topicAt + p.topic.length ≤ n) :
    load m p.topicAt p.topic.length = some p.topic :=
  h.load_body (a := word16 p.topic.length) (b := p.topic) (c := p.idPart ++ (p.payload ++ rest))
    (by rw [body_split]; simp only [List.append_assoc]) hn

theorem load_id (h : ReadInto m n p.packet rest) (hq : 0 < p.qos) (hn : p.dataAt ≤ n) :
    load m (p.topicAt + p.topic.length) 2 = some (word16 p.id) := by
  have hid : p.idPart = word16 p.id := if_pos hq
  have hload := h.load_body (a := word16 p.topic.length ++ p.topic) (b := word16 p.id) (c := p.payload ++ rest)
    (by rw [body_split, hid]) (by
      rw [MqttPublish.dataAt, hid, MqttPublish.topicAt] at hn
      simp only [List.length_append, word16_length] at hn ⊢
      omega)
  rw [List.length_append, ← Nat.add_assoc] at hload
  exact hload

theorem load_payload (h : ReadInto m n p.packet rest) {k : ℕ} (hk : k ≤ p.payload.length) (hn : p.dataAt + k ≤ n) :
    load m p.dataAt k = some (p.payload.take k) := by
  have hlen : (p.payload.take k).length = k := List.length_take_of_le hk
  have hload := h.load_body (a := word16 p.topic.length ++ p.topic ++ p.idPart) (b := p.payload.take k)
    (c := p.payload.drop k ++ rest) (by
      rw [body_split]
      simp only [List.append_assoc, ← List.append_assoc (p.payload.take k), List.take_append_drop]) (by
      rw [MqttPublish.dataAt, MqttPublish.topicAt] at hn
      simp only [List.length_append, word16_length, hlen]
      omega)
  rw [hlen, List.length_append, List.length_append, ← Nat.add_assoc, ← Nat.add_assoc] at hload
  exact hload

/-- The topic; its length is announced. -/
theorem publish_topic (h : ReadInto m n p.packet rest) (hv : p.Valid) (hn : p.topicAt < n)
    (hn' : p.topicAt + p.topic.length ≤ n) : mqtt_get_publish_topic m n = some (some p.topicAt, p.topic.length) := by
  have hat : p.packet.bodyAt ≤ n := (Nat.le_add_right _ 2).trans hn.le
  rw [mqtt_get_publish_topic, announced_eq h hat hv.small, Option.bind_some]
  dsimp only
  rw [show p.packet.bodyAt + 2 = p.topicAt from rfl, if_neg (Nat.not_le_of_lt hn), load_topic_length h hn.le,
    Option.map_some, be16_word16 hv.topic, if_neg (Nat.not_lt_of_le hn')]

/-- The payload, as far as it was read. -/
theorem publish_data (h : ReadInto m n p.packet rest) (hv : p.Valid) (hn : p.dataAt < n) :
    mqtt_get_publish_data m n = some (some p.dataAt, min p.payload.length (n - p.dataAt)) := by
  have hdata : p.dataAt = p.packet.bodyAt + 2 + p.topic.length + p.idPart.length := rfl
  have hat : p.packet.bodyAt ≤ n := by omega
  have hend := dataAt_eq p
  rw [mqtt_get_publish_data, announced_eq h hat hv.small, Option.bind_some]
  dsimp only
  rw [if_neg (by omega), load_topic_length h (by rw [MqttPublish.topicAt]; omega), Option.bind_some,
    be16_word16 hv.topic, if_neg (by omega), (publish_flags h hv (by omega)).2.2.1, Option.map_some]
  by_cases hq : 0 < p.qos
  · have hid : p.idPart.length = 2 := by
      rw [MqttPublish.idPart, if_pos hq]
      rfl
    rw [if_neg (by omega), if_pos hq, if_neg (by omega)]
    simp only [Option.some.injEq, Prod.mk.injEq]
    refine ⟨by omega, ?_⟩
    split_ifs <;> omega
  · have hid : p.idPart.length = 0 := by
      rw [MqttPublish.idPart, if_neg hq]
      rfl
    rw [if_neg (by omega), if_neg hq, if_neg (by omega)]
    simp only [Option.some.injEq, Prod.mk.injEq]
    refine ⟨by omega, ?_⟩
    split_ifs <;> omega

/-- The bytes behind the first one, in a larger part of the buffer. -/
theorem ReadInto.tail_le {p : MqttPacket} (h : ReadInto m n p rest) (hn : p.bodyAt ≤ n) {N : ℕ} (hN : n ≤ N)
    (hsize : N ≤ m.length) : ∃ y, Buf.load m 0 N = some (m.take N) ∧
      (m.take N).drop 1 = Varint.encode p.body.length ++ y := by
  obtain ⟨y, -, htail⟩ := h.tail hn
  refine ⟨y ++ (m.take N).drop n, by rw [load_of_le (by omega), List.drop_zero], ?_⟩
  have hat : 1 ≤ (m.take n).length := by
    rw [List.length_take]
    have := h.size
    have : 1 ≤ p.bodyAt := Nat.le_add_right _ _
    omega
  have hsplit : m.take n ++ (m.take N).drop n = m.take N := by
    rw [show m.take n = (m.take N).take n by rw [List.take_take, Nat.min_eq_left hN], List.take_append_drop]
  rw [← List.append_assoc, ← htail, ← List.drop_append_of_le_length hat, hsplit]

/-- The identifier is found with the length of the buffer in place of what was read. -/
theorem publishId_eq (h : ReadInto m n p.packet rest) (hv : p.Valid) (hn : p.dataAt < n) {N : ℕ} (hN : n ≤ N)
    (hsize : N ≤ m.length) : publishId m N = some (if 0 < p.qos then p.id else 0) := by
  have hdata : p.dataAt = p.packet.bodyAt + 2 + p.topic.length + p.idPart.length := rfl
  have hbody : p.packet.bodyAt = 1 + (Varint.encode p.packet.body.length).length := rfl
  obtain ⟨y, hload, htail⟩ := h.tail_le (by omega) hN hsize
  rw [publishId, hload, Option.bind_some, htail, skipLoop_encode, ← hbody]
  dsimp only
  rw [if_neg (by omega), load_topic_length h (by rw [MqttPublish.topicAt]; omega), Option.bind_some,
    be16_word16 hv.topic, if_neg (by omega), (publish_flags h hv (by omega)).2.2.1, Option.bind_some]
  by_cases hq : 0 < p.qos
  · have hid : p.idPart.length = 2 := by
      rw [MqttPublish.idPart, if_pos hq]
      rfl
    rw [if_neg (by omega), if_pos hq]
    have hread := load_id h hq hn.le
    rw [MqttPublish.topicAt] at hread
    rw [hread, Option.map_some, be16_word16 hv.id]
  · rw [if_pos (Or.inl (Nat.eq_zero_of_not_pos hq)), if_neg hq]

theorem publish_id (h : ReadInto m n p.packet rest) (hv : p.Valid) (hn : p.dataAt < n) {N : ℕ} (hN : n ≤ N)
    (hsize : N ≤ m.length) : mqtt_get_id m N = some (if 0 < p.qos then p.id else 0) := by
  rw [mqtt_get_id, if_neg (by omega), (publish_flags h hv (by omega)).1, Option.bind_some, ofCode_code]
  exact publishId_eq h hv hn hN hsize

/-! ## Packets with an identifier in front -/

/-- The types whose identifier is looked for behind a length of one byte. -/
def answerTypes : List MqttType := [.puback, .pubrec, .pubrel, .pubcomp, .suback, .unsuback, .subscribe]

theorem answer_id {p : MqttPacket} {id N : ℕ} {more : Bytes} (h : ReadInto m n p rest) (ht : p.type ∈ answerTypes)
    (hd : p.dup < 2) (hq : p.qos < 4) (hr : p.retain < 2) (hid : id < 2 ^ 16) (hbody : p.body = word16 id ++ more)
    (hshort : p.body.length < 128) (hn : 4 ≤ n) (hN : n ≤ N) : mqtt_get_id m N = some id := by
  have hat : p.bodyAt = 2 := by
    rw [MqttPacket.bodyAt, Varint.encode_short hshort]
    rfl
  have htype : mqtt_get_type m = some p.type.code := by
    rw [mqtt_get_type, h.head (by omega), Option.map_some, (firstByte_read hd hq hr).1]
  have hload : load m 0 4 = some (UInt8.ofNat (16 * p.type.code + 8 * p.dup + 2 * p.qos + p.retain) ::
      UInt8.ofNat p.body.length :: word16 id) := by
    rw [h.load (by omega), load_of_le (by have := h.long; omega), List.drop_zero, MqttPacket.wire,
      Varint.encode_short hshort, hbody]
    rfl
  have hlow : UInt8.ofNat p.body.length &&& 0x80 = 0 := (low_bits _).2.mpr (by rwa [Varint.low_toNat hshort])
  rw [mqtt_get_id, if_neg (by omega), htype, Option.bind_some, ofCode_code]
  have hgoal : (if 4 ≤ N then (load m 0 4).map fun b => if b.getD 1 0 &&& 0x80 = 0 then be16 (b.drop 2) else 0
      else some 0) = some id := by
    rw [if_pos (by omega), hload, Option.map_some, List.getD_cons_succ, List.getD_cons_zero, if_pos hlow]
    exact congrArg some (be16_word16 hid)
  cases htp : p.type <;> rw [htp] at ht
  case puback | pubrec | pubrel | pubcomp | suback | unsuback | subscribe => exact hgoal
  all_goals exact absurd ht (by decide)

end Publish

/-- **A PUBLISH** is taken apart wherever the read ended in its payload or behind it: all fields, and the payload as far
as it was read. -/
theorem publish_taken_apart {m : Bytes} {n : ℕ} {p : MqttPublish} {rest : Bytes} (h : ReadInto m n p.packet rest)
    (hv : p.Valid) (hn : p.dataAt < n) :
    mqtt_get_type m = some MqttType.publish.code ∧ mqtt_get_dup m = some p.dup ∧ mqtt_get_qos m = some p.qos ∧
      mqtt_get_retain m = some p.retain ∧ mqtt_get_id m n = some (if 0 < p.qos then p.id else 0) ∧
      mqtt_get_total_length m n = some p.packet.wire.length ∧
      (∃ at_ len, mqtt_get_publish_topic m n = some (some at_, len) ∧ load m at_ len = some p.topic) ∧
      ∃ at_ len, mqtt_get_publish_data m n = some (some at_, len) ∧
        load m at_ len = some (p.payload.take (n - p.dataAt)) := by
  have hdata : p.dataAt = p.topicAt + p.topic.length + p.idPart.length := rfl
  have hat : p.topicAt = p.packet.bodyAt + 2 := rfl
  obtain ⟨h1, h2, h3, h4⟩ := publish_flags h hv (by omega)
  refine ⟨h1, h2, h3, h4, publish_id h hv hn le_rfl h.size, ?_, ⟨_, _, publish_topic h hv (by omega) (by omega),
    load_topic h (by omega)⟩, ⟨_, _, publish_data h hv hn, ?_⟩⟩
  · rw [mqtt_get_total_length, announced_eq h (by omega) hv.small]
    rfl
  · rw [load_payload h (Nat.min_le_left _ _) (by omega)]
    by_cases hle : p.payload.length ≤ n - p.dataAt
    · rw [Nat.min_eq_left hle, List.take_of_length_le le_rfl, List.take_of_length_le hle]
    · rw [Nat.min_eq_right (by omega)]

/-- A PUBLISH with an identifier, and the start of the next packet. -/
def samplePublish : MqttPublish := ⟨0, 1, 1, ascii "a/b", 0x1234, ascii "hello"⟩

theorem publish_taken_apart_fragment :
    mqtt_get_type (samplePublish.packet.wire ++ [0xC0, 0]) = some MqttType.publish.code ∧
      mqtt_get_dup (samplePublish.packet.wire ++ [0xC0, 0]) = some samplePublish.dup ∧
      mqtt_get_qos (samplePublish.packet.wire ++ [0xC0, 0]) = some samplePublish.qos ∧
      mqtt_get_retain (samplePublish.packet.wire ++ [0xC0, 0]) = some samplePublish.retain ∧
      mqtt_get_id (samplePublish.packet.wire ++ [0xC0, 0]) 11 =
        some (if 0 < samplePublish.qos then samplePublish.id else 0) ∧
      mqtt_get_total_length (samplePublish.packet.wire ++ [0xC0, 0]) 11 = some samplePublish.packet.wire.length ∧
      (∃ at_ len, mqtt_get_publish_topic (samplePublish.packet.wire ++ [0xC0, 0]) 11 = some (some at_, len) ∧
        load (samplePublish.packet.wire ++ [0xC0, 0]) at_ len = some samplePublish.topic) ∧
      ∃ at_ len, mqtt_get_publish_data (samplePublish.packet.wire ++ [0xC0, 0]) 11 = some (some at_, len) ∧
        load (samplePublish.packet.wire ++ [0xC0, 0]) at_ len =
          some (samplePublish.payload.take (11 - samplePublish.dataAt)) :=
  publish_taken_apart ⟨rfl, by decide +kernel, by decide +kernel⟩
    ⟨by decide, by decide, by decide, by decide, by decide, by decide +kernel⟩ (by decide +kernel)

end Esp32Base
