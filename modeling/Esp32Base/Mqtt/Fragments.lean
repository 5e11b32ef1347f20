import Esp32Base.Mqtt.Client

/-!
# Mqtt.Fragments — a PUBLISH that is longer than a read (mqtt_client.c)

`deliver_publish` reads on over the start of the buffer and takes what stands there for the start of a packet.

* `text_round`: in a round over text it finds no topic and no payload.
* `fragments_of_text`: of a text in fragments the lengths and offsets are right; topic and payload are there once.
-/

namespace Esp32Base

open Lib Lib.Buf Lib.CText

def IsText (c : UInt8) : Prop := 0x20 ≤ c.toNat ∧ c.toNat < 0x80

instance (c : UInt8) : Decidable (IsText c) := inferInstanceAs (Decidable (_ ∧ _))

/-- The bytes behind the first one, which are taken for the length and the length of the topic. -/
def TextFront (m : Bytes) : Prop := ∃ a b c d tail, m = a :: b :: c :: d :: tail ∧ IsText b ∧ IsText c

section Round

variable {m : Bytes} {n : ℕ}

/-- An identifier is found in whatever stands in the buffer. -/
theorem mqtt_get_id_some (h : m ≠ []) : ∃ id, mqtt_get_id m m.length = some id := by
  obtain ⟨a, tail, rfl⟩ := List.exists_cons_of_ne_nil h
  have hload : load (a :: tail) 0 (a :: tail).length = some (a :: tail) := by
    rw [load_of_le (by omega), List.drop_zero, List.take_length]
  have hpub : ∃ id, publishId (a :: tail) (a :: tail).length = some id := by
    rw [publishId, hload, Option.bind_some]
    dsimp only
    generalize skipLoop ((a :: tail).drop 1) 1 = i
    by_cases hshort : (a :: tail).length ≤ i + 2
    · exact ⟨0, if_pos hshort⟩
    rw [if_neg hshort, load_of_le (show i + 2 ≤ (a :: tail).length by omega), Option.bind_some]
    generalize i + 2 + be16 (((a :: tail).drop i).take 2) = k
    by_cases hlong : (a :: tail).length ≤ k
    · exact ⟨0, if_pos hlong⟩
    rw [if_neg hlong, mqtt_get_qos, List.getElem?_cons_zero, Option.map_some, Option.bind_some]
    by_cases hid : ((a &&& (0x06 : UInt8)) >>> 1).toNat = 0 ∨ (a :: tail).length ≤ k + 2
    · exact ⟨0, if_pos hid⟩
    · rw [if_neg hid, load_of_le (by omega)]
      exact ⟨_, rfl⟩
  have hfour : ∃ id, (if 4 ≤ (a :: tail).length then
      (load (a :: tail) 0 4).map fun b => if b.getD 1 0 &&& 0x80 = 0 then be16 (b.drop 2) else 0
      else some 0) = some id := by
    by_cases h4 : 4 ≤ (a :: tail).length
    · rw [if_pos h4, load_of_le (by omega)]
      exact ⟨_, rfl⟩
    · exact ⟨0, if_neg h4⟩
  rw [mqtt_get_id, if_neg (by rw [List.length_cons]; omega), mqtt_get_type, List.getElem?_cons_zero, Option.map_some,
    Option.bind_some]
  split
  · exact hpub
  all_goals first | exact hfour | exact ⟨0, rfl⟩

/-- The length of a topic that starts with text. -/
theorem be16_text {c d : UInt8} (h : IsText c) : 0x2000 ≤ be16 [c, d] := by
  have hlow := h.1
  rw [be16_eq, List.getD_cons_zero]
  omega

/-- **A round over text** -/
theorem text_round (h : TextFront m) (hn : 4 < n) (hsmall : n < 8196) (hsize : n ≤ m.length) :
    mqtt_get_publish_topic m n = some (none, n) ∧ mqtt_get_publish_data m n = some (none, 0) := by
  obtain ⟨a, b, c, d, tail, rfl, hb, hc⟩ := h
  have hload : load (a :: b :: c :: d :: tail) 0 n = some ((a :: b :: c :: d :: tail).take n) := by
    rw [load_of_le (by omega), List.drop_zero]
  have htail : ((a :: b :: c :: d :: tail).take n).drop 1 = b :: (c :: d :: tail).take (n - 2) := by
    obtain ⟨k, rfl⟩ : ∃ k, n = k + 2 := ⟨n - 2, by omega⟩
    rfl
  have hannounced : ∃ t, announced (a :: b :: c :: d :: tail) n = some (t, 2) := by
    have hlow : b &&& 0x80 = 0 := (low_bits b).2.mpr hb.2
    have hval : (b &&& 0x7f).toNat <<< (7 * 0) = b.toNat := by
      rw [(low_bits b).1, Nat.mul_zero, Nat.shiftLeft_zero, Nat.mod_eq_of_lt hb.2]
    have hlt := hb.2
    rw [announced, hload, Option.bind_some, htail, lengthLoop, hval, if_neg (by omega), if_pos hlow, Option.bind_some]
    exact ⟨_, if_pos (by omega)⟩
  obtain ⟨t, hann⟩ := hannounced
  have htwo : load (a :: b :: c :: d :: tail) 2 2 = some [c, d] := by
    rw [load_of_le (by simp only [List.length_cons]; omega)]
    rfl
  have hlong := be16_text (d := d) hc
  constructor
  · rw [mqtt_get_publish_topic, hann, Option.bind_some]
    dsimp only
    rw [if_neg (by omega), htwo, Option.map_some, if_pos (by omega)]
  · rw [mqtt_get_publish_data, hann, Option.bind_some]
    dsimp only
    rw [if_neg (by omega), htwo, Option.bind_some, if_pos (by omega)]

end Round

/-- What an event tells beside the identifier. -/
def DataEvent.told (event : DataEvent) : Option Bytes × Option Bytes × ℕ × ℕ × ℕ :=
  (event.topic, event.data, event.data_len, event.total_data_len, event.current_data_offset)

/-- The fragments behind the first one, from an offset on: no topic, no payload, the length of what was read. -/
def fragmentsFrom (total : ℕ) : ℕ → List Bytes → List (Option Bytes × Option Bytes × ℕ × ℕ × ℕ)
  | _, [] => []
  | offset, bytes :: more => (none, none, bytes.length, total, offset) :: fragmentsFrom total (offset + bytes.length) more

/-- A read that replaces the front of the buffer by text. -/
structure TextRead (N : ℕ) (bytes : Bytes) : Prop where
  long : 4 ≤ bytes.length
  fits : bytes.length ≤ N
  text : ∀ c ∈ bytes, IsText c

section Rounds

variable {n N message_length : ℕ}

theorem store_text {m bytes : Bytes} (h : TextRead N bytes) (hm : m.length = N) :
    ∃ m', store m 0 bytes = some m' ∧ m'.length = N ∧ TextFront m' := by
  obtain ⟨m', hst⟩ : ∃ m', store m 0 bytes = some m' := ⟨_, store_of_le (by rw [hm, Nat.zero_add]; exact h.fits)⟩
  have htake := store_take hst
  rw [List.take_zero, List.nil_append, Nat.zero_add] at htake
  refine ⟨m', hst, (store_length hst).trans hm, ?_⟩
  have hlong := h.long
  have htext := h.text
  match bytes, hlong, htext, htake with
  | a :: b :: c :: d :: tail, _, htext, htake =>
    refine ⟨a, b, c, d, tail ++ m'.drop (a :: b :: c :: d :: tail).length, ?_, htext b (by simp), htext c (by simp)⟩
    have hsplit := List.take_append_drop (a :: b :: c :: d :: tail).length m'
    rw [htake] at hsplit
    exact hsplit.symm

/-- The event of a round that is not the first. -/
def textEvent (n id k total offset : ℕ) : DataEvent := ⟨id, none, n, none, k, total, offset⟩

/-- One round behind the first one. -/
theorem text_deliver {m : Bytes} {id : ℕ} (hn : 4 < n) (hsmall : n < 8196) (hfront : TextFront m) (hm : n ≤ m.length)
    (hid : mqtt_get_id m m.length = some id) {total : ℕ} (hpos : 0 < total) (more : List Bytes) (read offset k : ℕ) :
    MqttClient.deliver_publish n message_length more m read total offset k =
      if message_length ≤ read then some (m, [textEvent n id k total offset])
      else match more with
        | [] => some (m, [textEvent n id k total offset])
        | bytes :: more =>
          if bytes = [] then some (m, [textEvent n id k total offset])
          else (store m 0 bytes).bind fun m' =>
            (MqttClient.deliver_publish n message_length more m' ((read + bytes.length) % 2 ^ 16) total
              ((offset + k) % 2 ^ 16) bytes.length).bind fun r => some (r.1, textEvent n id k total offset :: r.2) := by
  obtain ⟨htopic, hdata⟩ := text_round hfront hn hsmall hm
  rw [MqttClient.deliver_publish.eq_def]
  dsimp only [bind, pure]
  rw [htopic, Option.bind_some]
  dsimp only
  rw [hdata, Option.bind_some]
  dsimp only
  rw [hid, Option.bind_some, if_neg (Nat.ne_of_gt hpos), if_neg (Nat.ne_of_gt hpos)]
  rfl

/-- **The rounds** behind the first one. -/
theorem text_rounds (hn : 4 < n) (hsmall : n < 8196) (hN : n ≤ N) (hlength : message_length < 2 ^ 16) {total : ℕ}
    (hpos : 0 < total) (htotal : total < 2 ^ 16) : ∀ (more : List Bytes), (∀ bytes ∈ more, TextRead N bytes) →
    ∀ {m : Bytes} {read offset k : ℕ}, TextFront m → m.length = N → read + more.flatten.length ≤ message_length →
      offset + k + more.flatten.length ≤ total →
      ∃ m' events, MqttClient.deliver_publish n message_length more m read total offset k = some (m', events) ∧
        events.map DataEvent.told = (none, none, k, total, offset) :: fragmentsFrom total (offset + k) more := by
  intro more
  induction more with
  | nil =>
    intro _ m read offset k hfront hm _ _
    obtain ⟨id, hid⟩ := mqtt_get_id_some (m := m) (by obtain ⟨a, b, c, d, tail, rfl, -, -⟩ := hfront; simp)
    rw [text_deliver hn hsmall hfront (hm ▸ hN) hid hpos]
    exact ⟨m, _, ite_self _, rfl⟩
  | cons bytes more ih =>
    intro hmore m read offset k hfront hm hread hoff
    have hbytes := hmore bytes List.mem_cons_self
    have hfour := hbytes.long
    rw [List.flatten_cons, List.length_append] at hread hoff
    obtain ⟨id, hid⟩ := mqtt_get_id_some (m := m) (by obtain ⟨a, b, c, d, tail, rfl, -, -⟩ := hfront; simp)
    obtain ⟨m', hst, hm', hfront'⟩ := store_text hbytes hm
    obtain ⟨m'', events, hrun, htold⟩ := ih (fun b hb => hmore b (List.mem_cons_of_mem _ hb)) hfront' hm'
      (show (read + bytes.length) + more.flatten.length ≤ _ by omega)
      (show (offset + k) + bytes.length + more.flatten.length ≤ _ by omega)
    have hne : bytes ≠ [] := by
      rintro rfl
      exact absurd hfour (by decide)
    rw [text_deliver hn hsmall hfront (hm ▸ hN) hid hpos, if_neg (by omega)]
    dsimp only
    rw [if_neg hne, hst, Option.bind_some, Nat.mod_eq_of_lt (by omega), Nat.mod_eq_of_lt (by omega), hrun]
    refine ⟨m'', _, rfl, ?_⟩
    rw [List.map_cons, htold]
    rfl

end Rounds

/-- **A text in fragments**: the total length, and every length and offset, are right and tile the payload. The topic and
the bytes are told with the first fragment only. -/
theorem fragments_of_text {client : MqttClient} {p : MqttPublish} {n : ℕ} (hread : ReadInto client.in_buffer n p.packet [])
    (hv : p.Valid) (hn : p.dataAt < n) (hsmall : n < 8196) (hlength : p.packet.wire.length < 2 ^ 16) {more : List Bytes}
    (hmore : ∀ bytes ∈ more, TextRead client.in_buffer.length bytes)
    (hend : n + more.flatten.length ≤ p.packet.wire.length) :
    ∃ (client' : MqttClient) (events : List DataEvent), client.delivered n more = some (client', events.map fun event => .event (.data event)) ∧
      events.map DataEvent.told = (some p.topic, some (p.payload.take (n - p.dataAt)), n - p.dataAt, p.payload.length, 0) ::
        fragmentsFrom p.payload.length (n - p.dataAt) more := by
  have hwire := dataAt_eq p
  have hdata : p.dataAt = p.topicAt + p.topic.length + p.idPart.length := rfl
  have hat : p.topicAt = p.packet.bodyAt + 2 := rfl
  have hbody : p.packet.bodyAt = 1 + (Varint.encode p.packet.body.length).length := rfl
  have hpos := Varint.encode_length_pos p.packet.body.length
  have htotal : mqtt_get_total_length client.in_buffer n = some p.packet.wire.length := by
    rw [mqtt_get_total_length, announced_eq hread (by omega) hv.small]
    rfl
  have htake := publish_data hread hv hn
  rw [Nat.min_eq_right (by omega)] at htake
  have hsum : (((p.packet.wire.length : ℤ) - n + (n - p.dataAt : ℕ)) % 2 ^ 16).toNat = p.payload.length := by omega
  rw [MqttClient.delivered]
  dsimp only
  rw [Nat.mod_eq_of_lt (by omega), htotal, Option.bind_some, Nat.mod_eq_of_lt hlength, MqttClient.deliver_publish.eq_def]
  dsimp only [bind, pure]
  rw [publish_topic hread hv (by omega) (by omega), Option.bind_some]
  dsimp only
  rw [htake, Option.bind_some]
  dsimp only
  rw [publish_id hread hv hn hread.size le_rfl, Option.bind_some, if_pos rfl, if_pos rfl, hsum]
  dsimp only [Option.bind_some]
  rw [load_topic hread (by omega), load_payload hread (Nat.sub_le_of_le_add (by omega)) (by omega)]
  by_cases hdone : p.packet.wire.length ≤ n
  · -- nothing is missing, and so nothing is read
    have hnil : more = [] := by
      cases more with
      | nil => rfl
      | cons bytes more =>
        have hlong := (hmore bytes List.mem_cons_self).long
        rw [List.flatten_cons, List.length_append] at hend
        omega
    rw [if_pos hdone, hnil]
    exact ⟨client, _, rfl, rfl⟩
  rw [if_neg hdone]
  cases more with
  | nil => exact ⟨client, _, rfl, rfl⟩
  | cons bytes more =>
    have hbytes := hmore bytes List.mem_cons_self
    have hfour := hbytes.long
    rw [List.flatten_cons, List.length_append] at hend
    have hne : bytes ≠ [] := by
      rintro rfl
      exact absurd hfour (by decide)
    obtain ⟨m', hst, hm', hfront'⟩ := store_text hbytes rfl
    obtain ⟨m'', events, hrun, htold⟩ := text_rounds (show 4 < n by omega) hsmall hread.size hlength
      (show 0 < p.payload.length by omega) (by omega) more (fun b hb => hmore b (List.mem_cons_of_mem _ hb))
      hfront' hm'
      (show (n + bytes.length) + more.flatten.length ≤ _ by omega)
      (show (n - p.dataAt) + bytes.length + more.flatten.length ≤ _ by omega)
    dsimp only
    rw [if_neg hne, hst, Option.bind_some, Nat.zero_add, Nat.mod_eq_of_lt (show n + bytes.length < 2 ^ 16 by omega),
      Nat.mod_eq_of_lt (show n - p.dataAt < 2 ^ 16 by omega), hrun]
    refine ⟨{ client with in_buffer := m'' }, _ :: events, rfl, ?_⟩
    rw [List.map_cons, htold]
    rfl

/-- A payload of 18 bytes, of which a buffer of 12 bytes takes seven first. -/
def sampleText : MqttPublish := ⟨0, 0, 0, ascii "a", 0, ascii "0123456789ABCDEFGH"⟩
def sampleFragment : MqttClient :=
  ⟨.connected, sampleText.packet.wire.take 12, mqtt_msg_init (List.replicate 12 0) 12, 0, 0, 0, []⟩

theorem fragments_of_text_three : ∃ (client' : MqttClient) (events : List DataEvent),
    sampleFragment.delivered 12 [ascii "789ABCD", ascii "EFGH"] =
      some (client', events.map fun event => .event (.data event)) ∧
    events.map DataEvent.told = (some sampleText.topic, some (sampleText.payload.take (12 - sampleText.dataAt)),
      12 - sampleText.dataAt, sampleText.payload.length, 0) ::
        fragmentsFrom sampleText.payload.length (12 - sampleText.dataAt) [ascii "789ABCD", ascii "EFGH"] :=
  fragments_of_text ⟨by decide +kernel, by decide +kernel, by decide +kernel⟩
    ⟨by decide, by decide, by decide, by decide, by decide, by decide +kernel⟩ (by decide +kernel) (by decide)
    (by decide +kernel) (by
      intro bytes hb
      rcases hb with _ | ⟨_, _ | ⟨_, hb⟩⟩
      · exact ⟨by decide, by decide +kernel, by decide +kernel⟩
      · exact ⟨by decide, by decide +kernel, by decide +kernel⟩
      · cases hb) (by decide +kernel)

example : fragmentsFrom sampleText.payload.length (12 - sampleText.dataAt) [ascii "789ABCD", ascii "EFGH"] =
    [(none, none, 7, 18, 7), (none, none, 4, 18, 14)] := by decide +kernel

end Esp32Base
