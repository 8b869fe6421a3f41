import DesktopSync.Analysis.HandshakeRun

/-!
# The two messages are what their senders meant

`send_hello` and `send_ack` print identifiers in sixteen digits, `sscanf` reads as many as
there are. What was printed is in the buffer in full, goes to its own branch of the receive
loop, and is read back there.
-/

set_option autoImplicit false

namespace DesktopSync.Analysis

open DesktopSync.Model

/-- The text a message is printed as. -/
def Message.text : Message → List UInt8
  | .hello id => helloText id
  | .ack fromId toId => ackText fromId toId

/-- The buffer it is printed in. -/
def Message.size : Message → ℕ
  | .hello _ => helloSize
  | .ack _ _ => ackSize

/-- The datagram it is sent as. -/
def Message.datagram : Message → List UInt8
  | .hello id => helloDatagram id
  | .ack fromId toId => ackDatagram fromId toId

/-- The branch of the receive loop that is meant for it. -/
def Message.isHello : Message → Bool
  | .hello _ => true
  | .ack _ _ => false

/-- What the receive loop does in that branch with the identifiers of the message. -/
def Message.handle (selfId : UInt64) (st : RunState) (source : Ipv4) :
    Message → RunState × Option (Ipv4 × List UInt8)
  | .hello id => handleHello selfId st id source
  | .ack fromId toId => (handleAck selfId st fromId toId source, none)

/-- The text fits its buffer with a terminator, so that it is sent as it is; it begins as the
branch that is meant for it tests for and not as the other one does, and it is taken there
for the message, whatever the run has received before. -/
structure Decodes (m : Message) : Prop where
  fits : m.text.length < m.size
  datagram : m.datagram = m.text
  hello : (ascii "HELLO ").isPrefixOf m.datagram = m.isHello
  ack : (ascii "ACK ").isPrefixOf m.datagram = !m.isHello
  message : ∀ source, Received.message ⟨m.datagram, source⟩ = some m
  handled : ∀ selfId st source,
    handleDatagram selfId st m.datagram source = m.handle selfId st source

/-- A text that fits its buffer is sent whole. -/
theorem sentText_of_fits {size : ℕ} {text : List UInt8} (h : text.length < size) :
    sentText size text = text := by
  have hwhole : text.take (size - 1) = text := List.take_of_length_le (by omega)
  rw [sentText, hwhole, List.take_left]

/-- HELLO is read as it was meant. -/
theorem decodes_hello (id : UInt64) : Decodes (.hello id) := by
  have hlength := length_helloText id
  have hfits : (helloText id).length < helloSize := by
    rw [hlength]
    decide
  have hdatagram : helloDatagram id = helloText id := sentText_of_fits hfits
  have hprefix : (ascii "HELLO ").isPrefixOf (helloText id) = true := by
    rw [List.isPrefixOf_iff_prefix]
    exact List.prefix_append _ _
  refine ⟨hfits, hdatagram, ?_, ?_, ?_, ?_⟩
  · rw [Message.datagram, hdatagram]
    exact hprefix
  · rw [Message.datagram, hdatagram]
    rfl
  · intro source
    rw [Message.datagram, hdatagram, Received.message]
    rw [if_neg (by rw [hlength, maxDatagram]; simp [ne_nil_helloText id]), if_pos hprefix,
      takeWhile_ne_of_not_mem (zero_not_mem_helloText id), scanHello_helloText]
    rfl
  · intro selfId st source
    rw [Message.datagram, hdatagram]
    exact handleDatagram_helloText selfId id st source

/-- ACK is read as it was meant. -/
theorem decodes_ack (fromId toId : UInt64) : Decodes (.ack fromId toId) := by
  have hlength := length_ackText fromId toId
  have hfits : (ackText fromId toId).length < ackSize := by
    rw [hlength]
    decide
  have hdatagram : ackDatagram fromId toId = ackText fromId toId := sentText_of_fits hfits
  have hhello : (ascii "HELLO ").isPrefixOf (ackText fromId toId) = false := rfl
  have hprefix : (ascii "ACK ").isPrefixOf (ackText fromId toId) = true := by
    rw [List.isPrefixOf_iff_prefix]
    exact List.prefix_append _ _
  refine ⟨hfits, hdatagram, ?_, ?_, ?_, ?_⟩
  · rw [Message.datagram, hdatagram]
    exact hhello
  · rw [Message.datagram, hdatagram]
    exact hprefix
  · intro source
    rw [Message.datagram, hdatagram, Received.message]
    rw [if_neg (by rw [hlength, maxDatagram]; simp [ne_nil_ackText fromId toId]),
      if_neg (by simp [hhello]), if_pos hprefix,
      takeWhile_ne_of_not_mem (zero_not_mem_ackText fromId toId), scanAck_ackText]
    rfl
  · intro selfId st source
    rw [Message.datagram, hdatagram]
    exact handleDatagram_ackText selfId fromId toId st source

/-- Every message is decoded to what was encoded, and no two of them share a datagram. -/
theorem messages_decode : (∀ m, Decodes m) ∧ Function.Injective Message.datagram := by
  have hdecodes : ∀ m, Decodes m := by
    intro m
    cases m with
    | hello id => exact decodes_hello id
    | ack fromId toId => exact decodes_ack fromId toId
  refine ⟨hdecodes, ?_⟩
  intro m m' hsame
  have hm := (hdecodes m).message ⟨0, 0, 0, 0⟩
  rw [hsame, (hdecodes m').message] at hm
  exact (Option.some.inj hm).symm

end DesktopSync.Analysis
