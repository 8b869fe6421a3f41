import DesktopSync.Analysis.Pairing

/-!
# One run among strangers

What a run of `RunP2PHandshake` comes to believe when datagrams of any content reach it
from anywhere. The address is recorded with the first message that binds the run, and the
two flags are set by identifiers alone; the ACK branch binds the run without the test for
its own identifier that the HELLO branch makes.
-/

set_option autoImplicit false

namespace DesktopSync.Analysis

open DesktopSync.Model

/-! ## Datagrams as messages -/

inductive Message where
  | hello (id : UInt64)
  | ack (fromId toId : UInt64)
  deriving DecidableEq

/-- The message a run takes a datagram for. -/
def Received.message (d : Received) : Option Message :=
  if d.payload = [] ∨ maxDatagram < d.payload.length then none
  else if (ascii "HELLO ").isPrefixOf d.payload then
    (scanHello (d.payload.takeWhile (· ≠ 0))).map .hello
  else if (ascii "ACK ").isPrefixOf d.payload then
    (scanAck (d.payload.takeWhile (· ≠ 0))).map fun ids => .ack ids.1 ids.2
  else none

/-- What a message does to a run. -/
def takeMessage (selfId : UInt64) (st : RunState) (source : Ipv4) : Option Message → RunState
  | some (.hello id) => (handleHello selfId st id source).1
  | some (.ack fromId toId) => handleAck selfId st fromId toId source
  | none => st

/-- A datagram acts on a run as the message it is taken for. -/
theorem handleDatagram_message (selfId : UInt64) (st : RunState) (d : Received) :
    (handleDatagram selfId st d.payload d.source).1 =
      takeMessage selfId st d.source (Received.message d) := by
  unfold handleDatagram Received.message
  split
  · rfl
  split
  · cases scanHello (d.payload.takeWhile (· ≠ 0)) <;> rfl
  split
  · cases scanAck (d.payload.takeWhile (· ≠ 0)) <;> rfl
  · rfl

theorem receiveAll_append_one (selfId : UInt64) (ds : List Received) (d : Received) :
    receiveAll selfId (ds ++ [d]) =
      takeMessage selfId (receiveAll selfId ds) d.source (Received.message d) := by
  unfold receiveAll
  rw [List.foldl_append, List.foldl_cons, List.foldl_nil, handleDatagram_message]

/-- The identifier a message would bind an unbound run to. -/
def Message.binder (selfId : UInt64) : Message → Option UInt64
  | .hello id => if id = selfId then none else some id
  | .ack fromId toId => if toId = selfId then some fromId else none

/-- The identifier a datagram would bind an unbound run to. -/
def Received.binder (selfId : UInt64) (d : Received) : Option UInt64 :=
  (Received.message d).bind (Message.binder selfId)

/-- A message that binds nobody changes nothing; one that would bind to `id` binds an
unbound run, and sets its flag if the run is bound to `id` then. -/
theorem takeMessage_cases (selfId : UInt64) (st : RunState) (source : Ipv4)
    (m : Option Message) :
    m.bind (Message.binder selfId) = none ∧ takeMessage selfId st source m = st ∨
      ∃ id, m.bind (Message.binder selfId) = some id ∧
        ((st.bindPeer id source).peerId ≠ id ∧
            takeMessage selfId st source m = st.bindPeer id source ∨
          (st.bindPeer id source).peerId = id ∧ m = some (.hello id) ∧ id ≠ selfId ∧
            takeMessage selfId st source m = { st.bindPeer id source with sawHello := true } ∨
          (st.bindPeer id source).peerId = id ∧ m = some (.ack id selfId) ∧
            takeMessage selfId st source m = { st.bindPeer id source with sawAck := true }) := by
  match m with
  | none => exact .inl ⟨rfl, rfl⟩
  | some (.hello id) =>
      simp only [Option.bind_some, Message.binder, takeMessage, handleHello]
      by_cases hself : id = selfId
      · rw [if_pos hself, if_pos hself]
        exact .inl ⟨rfl, rfl⟩
      · rw [if_neg hself, if_neg hself]
        refine .inr ⟨id, rfl, ?_⟩
        by_cases hpeer : (st.bindPeer id source).peerId = id
        · rw [if_pos hpeer]
          exact .inr (.inl ⟨hpeer, rfl, hself, rfl⟩)
        · rw [if_neg hpeer]
          exact .inl ⟨hpeer, rfl⟩
  | some (.ack fromId toId) =>
      simp only [Option.bind_some, Message.binder, takeMessage, handleAck]
      by_cases hto : toId = selfId
      · rw [if_pos hto, if_pos hto]
        refine .inr ⟨fromId, rfl, ?_⟩
        by_cases hpeer : (st.bindPeer fromId source).peerId = fromId
        · rw [if_pos hpeer]
          exact .inr (.inr ⟨hpeer, by rw [hto], rfl⟩)
        · rw [if_neg hpeer]
          exact .inl ⟨hpeer, rfl⟩
      · rw [if_neg hto, if_neg hto]
        exact .inl ⟨rfl, rfl⟩

/-! ## What a run believes was received -/

/-- What a run that received `ds` believes: the messages its flags stand for came in, and
its peer is the one the first message that binds named, with the address that message
came from. -/
structure Vouched (selfId : UInt64) (ds : List Received) (st : RunState) : Prop where
  hello : st.sawHello = true →
    st.havePeer = true ∧ ∃ d ∈ ds, Received.message d = some (.hello st.peerId)
  ack : st.sawAck = true →
    st.havePeer = true ∧ ∃ d ∈ ds, Received.message d = some (.ack st.peerId selfId)
  bound : st.havePeer = true → ∃ before d after, ds = before ++ d :: after ∧
    (∀ e ∈ before, Received.binder selfId e = none) ∧
    Received.binder selfId d = some st.peerId ∧ st.peerIp = ipv4ToString d.source
  unbound : st.havePeer = false → ∀ d ∈ ds, Received.binder selfId d = none

section Vouched

variable {selfId : UInt64} {ds : List Received} {st : RunState}

/-- A bound run keeps what vouches for it, and a datagram that binds nobody adds
nothing. -/
theorem Vouched.append (h : Vouched selfId ds st) {d : Received}
    (hd : st.havePeer = true ∨ Received.binder selfId d = none) :
    Vouched selfId (ds ++ [d]) st where
  hello hflag := by
    obtain ⟨hbound, e, he, hmessage⟩ := h.hello hflag
    exact ⟨hbound, e, List.mem_append_left _ he, hmessage⟩
  ack hflag := by
    obtain ⟨hbound, e, he, hmessage⟩ := h.ack hflag
    exact ⟨hbound, e, List.mem_append_left _ he, hmessage⟩
  bound hbound := by
    obtain ⟨before, e, after, rfl, hbefore, he, hip⟩ := h.bound hbound
    exact ⟨before, e, after ++ [d], List.append_assoc _ _ _, hbefore, he, hip⟩
  unbound hfree := by
    have hnone := hd.resolve_left (by rw [hfree]; exact Bool.false_ne_true)
    intro e he
    apply (List.mem_append.mp he).elim (h.unbound hfree e)
    intro hlast
    rw [List.mem_singleton.mp hlast, hnone]

/-- A datagram that would bind the run binds it if nobody was named before. -/
theorem Vouched.bindPeer (h : Vouched selfId ds st) {d : Received} {id : UInt64}
    (hd : Received.binder selfId d = some id) :
    Vouched selfId (ds ++ [d]) (st.bindPeer id d.source) := by
  cases hbound : st.havePeer with
  | true =>
      rw [bindPeer_of_bound hbound]
      exact h.append (.inl hbound)
  | false =>
      rw [bindPeer_of_free hbound]
      refine ⟨fun hflag => ?_, fun hflag => ?_, fun _ => ?_, fun hfree => ?_⟩
      · rw [(h.hello hflag).1] at hbound
        cases hbound
      · rw [(h.ack hflag).1] at hbound
        cases hbound
      · refine ⟨ds, d, [], rfl, h.unbound hbound, hd, ?_⟩
        -- by `rfl` the address would be spelled out first
        dsimp only
      · cases hfree

/-- Every datagram leaves the run with beliefs that are vouched for. -/
theorem Vouched.take (h : Vouched selfId ds st) (d : Received) :
    Vouched selfId (ds ++ [d]) (takeMessage selfId st d.source (Received.message d)) := by
  have hlast : d ∈ ds ++ [d] := List.mem_append_right _ (List.mem_singleton_self d)
  rcases takeMessage_cases selfId st d.source (Received.message d) with
    ⟨hnone, hst⟩ | ⟨id, hid, ⟨-, hst⟩ | ⟨hpeer, hmessage, -, hst⟩ | ⟨hpeer, hmessage, hst⟩⟩
  · rw [hst]
    exact h.append (.inr hnone)
  · rw [hst]
    exact h.bindPeer hid
  · have hbind := h.bindPeer hid
    rw [hst]
    refine ⟨fun _ => ⟨havePeer_bindPeer _ _ _, d, hlast, ?_⟩, hbind.ack, hbind.bound,
      hbind.unbound⟩
    simp only [hpeer, hmessage]
  · have hbind := h.bindPeer hid
    rw [hst]
    refine ⟨hbind.hello, fun _ => ⟨havePeer_bindPeer _ _ _, d, hlast, ?_⟩, hbind.bound,
      hbind.unbound⟩
    simp only [hpeer, hmessage]

end Vouched

/-- In every state of a run what it believes is vouched for. -/
theorem vouched_receiveAll (selfId : UInt64) (ds : List Received) :
    Vouched selfId ds (receiveAll selfId ds) := by
  induction ds using List.reverseRecOn with
  | nil => exact ⟨by simp [receiveAll], by simp [receiveAll], by simp [receiveAll], by simp⟩
  | append_singleton ds d ih =>
      rw [receiveAll_append_one]
      exact ih.take d

/-! ## Whom a successful run vouches for -/

/-- Every address is written in full. -/
theorem length_ipv4ToString (ip : Ipv4) : (ipv4ToString ip).length ≤ 15 := by
  have hbyte : ∀ n < 256, (toString n : String).toList.length ≤ 3 := by
    intro n hn
    rw [Nat.toString_eq_repr, Nat.toList_repr, Nat.length_toDigits_le_iff (by decide) (by decide)]
    omega
  have ha := hbyte ip.a.toNat ip.a.toNat_lt
  have hb := hbyte ip.b.toNat ip.b.toNat_lt
  have hc := hbyte ip.c.toNat ip.c.toNat_lt
  have hd := hbyte ip.d.toNat ip.d.toNat_lt
  have hdot : ".".toList.length = 1 := rfl
  simp only [ipv4ToString, ascii, List.length_map, String.toList_append, List.length_append, hdot]
  omega

/-- The buffer of the caller holds every address. -/
theorem take_outLen (ip : Ipv4) :
    (utf8ToWide (ipv4ToString ip)).take (outLen - 1) = utf8ToWide (ipv4ToString ip) := by
  have hbytes := length_ipv4ToString ip
  have hunits := length_utf8ToWide_le (ipv4ToString ip)
  apply List.take_of_length_le
  rw [outLen]
  omega

/-- A run that succeeds has received a HELLO and an ACK of its peer, from anywhere; the
address it returns is that of the first message that could bind it, which named the peer. -/
theorem success_vouches (selfId : UInt64) (ds : List Received) (result : HandshakeResult)
    (h : handshakeResult selfId (receiveAll selfId ds) = some result) :
    (∃ d ∈ ds, Received.message d = some (.hello result.peerId)) ∧
      (∃ d ∈ ds, Received.message d = some (.ack result.peerId selfId)) ∧
      ∃ before d after, ds = before ++ d :: after ∧
        (∀ e ∈ before, Received.binder selfId e = none) ∧
        Received.binder selfId d = some result.peerId ∧
        result.ip = utf8ToWide (ipv4ToString d.source) := by
  have hvouched := vouched_receiveAll selfId ds
  obtain ⟨hsuccess, hresult⟩ := Option.ite_none_right_eq_some.mp h
  simp only [RunState.success, Bool.and_eq_true] at hsuccess
  obtain ⟨⟨⟨hhello, hack⟩, hbound⟩, -⟩ := hsuccess
  rw [← Option.some.inj hresult]
  obtain ⟨before, d, after, hds, hbefore, hd, hip⟩ := hvouched.bound hbound
  refine ⟨(hvouched.hello hhello).2, (hvouched.ack hack).2, before, d, after, hds, hbefore, hd, ?_⟩
  simp only [hip, take_outLen]

/-- A HELLO of the peer from one address and its ACK from another. -/
def twoAddresses : List Received :=
  [⟨helloText 0xB, ⟨10, 0, 0, 2⟩⟩, ⟨ackText 0xB 0xA, ⟨10, 0, 0, 3⟩⟩]

theorem success_vouches_twoAddresses :
    ∃ result, handshakeResult 0xA (receiveAll 0xA twoAddresses) = some result ∧
      (∃ d ∈ twoAddresses, Received.message d = some (.hello result.peerId)) ∧
      (∃ d ∈ twoAddresses, Received.message d = some (.ack result.peerId 0xA)) ∧
      ∃ before d after, twoAddresses = before ++ d :: after ∧
        (∀ e ∈ before, Received.binder 0xA e = none) ∧
        Received.binder 0xA d = some result.peerId ∧
        result.ip = utf8ToWide (ipv4ToString d.source) := by
  have hsome : (handshakeResult 0xA (receiveAll 0xA twoAddresses)).isSome = true := by
    decide +kernel
  obtain ⟨result, hresult⟩ := Option.isSome_iff_exists.mp hsome
  exact ⟨result, hresult, success_vouches 0xA twoAddresses result hresult⟩

/-- The run returns the address of the HELLO, from which no ACK came. -/
theorem success_twoAddresses :
    ¬∀ (selfId : UInt64) (ds : List Received) (result : HandshakeResult),
      handshakeResult selfId (receiveAll selfId ds) = some result →
        (∃ d ∈ ds, Received.message d = some (.hello result.peerId) ∧
          utf8ToWide (ipv4ToString d.source) = result.ip) ∧
        ∃ d ∈ ds, Received.message d = some (.ack result.peerId selfId) ∧
          utf8ToWide (ipv4ToString d.source) = result.ip := by
  intro h
  have hresult : (handshakeResult 0xA (receiveAll 0xA twoAddresses)).map
      (fun r => (r.ip, r.peerId)) = some (wide "10.0.0.2", 0xB) := by decide +kernel
  obtain ⟨result, hsome, hvalue⟩ := Option.map_eq_some_iff.mp hresult
  obtain ⟨hip, hpeer⟩ := Prod.mk.inj hvalue
  obtain ⟨-, d, hd, hmessage, hsource⟩ := h 0xA twoAddresses result hsome
  rw [hip] at hsource
  rw [hpeer] at hmessage
  have hnone : ∀ d ∈ twoAddresses, ¬(Received.message d = some (.ack 0xB 0xA) ∧
      utf8ToWide (ipv4ToString d.source) = wide "10.0.0.2") := by decide +kernel
  exact hnone d hd ⟨hmessage, hsource⟩

/-! ## A run and its own identifier -/

/-- What a bound run is bound to no datagram changes. -/
theorem takeMessage_bound (selfId : UInt64) {st : RunState} (h : st.havePeer = true)
    (origin : Ipv4) (m : Option Message) :
    (takeMessage selfId st origin m).havePeer = true ∧
      (takeMessage selfId st origin m).peerId = st.peerId ∧
      (takeMessage selfId st origin m).peerIp = st.peerIp := by
  have hkeep : ∀ id, st.bindPeer id origin = st := fun id => bindPeer_of_bound h id origin
  rcases takeMessage_cases selfId st origin m with
    ⟨-, hst⟩ | ⟨id, -, ⟨-, hst⟩ | ⟨-, -, -, hst⟩ | ⟨-, -, hst⟩⟩
  · rw [hst]
    exact ⟨h, rfl, rfl⟩
  · rw [hst, hkeep]
    exact ⟨h, rfl, rfl⟩
  · rw [hst, hkeep]
    exact ⟨h, rfl, rfl⟩
  · rw [hst, hkeep]
    exact ⟨h, rfl, rfl⟩

/-- What a run is bound to stays, whatever it receives from then on. -/
theorem receiveAll_bound {selfId : UInt64} {ds : List Received}
    (h : (receiveAll selfId ds).havePeer = true) (more : List Received) :
    (receiveAll selfId (ds ++ more)).havePeer = true ∧
      (receiveAll selfId (ds ++ more)).peerId = (receiveAll selfId ds).peerId ∧
      (receiveAll selfId (ds ++ more)).peerIp = (receiveAll selfId ds).peerIp := by
  induction more using List.reverseRecOn with
  | nil =>
      rw [List.append_nil]
      exact ⟨h, rfl, rfl⟩
  | append_singleton more d ih =>
      obtain ⟨hbound, hpeer, hip⟩ := ih
      obtain ⟨hbound', hpeer', hip'⟩ :=
        takeMessage_bound selfId hbound d.source (Received.message d)
      rw [← List.append_assoc, receiveAll_append_one]
      exact ⟨hbound', hpeer'.trans hpeer, hip'.trans hip⟩

/-- A run that has received `ds` is not bound to itself, its flags stand for a binding, and
its binding stays. -/
structure KeepsBinding (selfId : UInt64) (ds : List Received) : Prop where
  other : (receiveAll selfId ds).havePeer = true → (receiveAll selfId ds).peerId ≠ selfId
  seen : (receiveAll selfId ds).sawHello = true ∨ (receiveAll selfId ds).sawAck = true →
    (receiveAll selfId ds).havePeer = true
  stays : (receiveAll selfId ds).havePeer = true → ∀ more,
    (receiveAll selfId (ds ++ more)).havePeer = true ∧
      (receiveAll selfId (ds ++ more)).peerId = (receiveAll selfId ds).peerId ∧
      (receiveAll selfId (ds ++ more)).peerIp = (receiveAll selfId ds).peerIp

/-- Only an ACK from itself to itself would bind a run to itself. -/
theorem binder_self_iff (selfId : UInt64) (d : Received) :
    Received.binder selfId d = some selfId ↔
      Received.message d = some (.ack selfId selfId) := by
  unfold Received.binder
  match Received.message d with
  | none => simp
  | some (.hello id) =>
      simp only [Option.bind_some, Message.binder, Option.ite_none_left_eq_some,
        Option.some.injEq, reduceCtorEq, iff_false, not_and]
      exact fun hne heq => hne heq
  | some (.ack fromId toId) =>
      simp only [Option.bind_some, Message.binder, Option.ite_none_right_eq_some,
        Option.some.injEq, Message.ack.injEq]
      exact and_comm

/-- In every state of a run it keeps a binding to somebody else, if and only if no ACK from
itself to itself reaches it before it is bound. -/
theorem keepsBinding_iff (selfId : UInt64) (ds : List Received) :
    (∀ before, before <+: ds → KeepsBinding selfId before) ↔
      ∀ before d, before ++ [d] <+: ds → (receiveAll selfId before).havePeer = false →
        Received.message d ≠ some (.ack selfId selfId) := by
  constructor
  · intro hkeeps before d hprefix hfree hmessage
    have hafter : receiveAll selfId (before ++ [d]) =
        { (receiveAll selfId before).bindPeer selfId d.source with sawAck := true } := by
      rw [receiveAll_append_one, hmessage, takeMessage, handleAck, if_pos rfl]
      rw [if_pos (by rw [bindPeer_of_free hfree])]
    have hother := (hkeeps _ hprefix).other
    rw [hafter] at hother
    apply hother (havePeer_bindPeer _ _ _)
    rw [bindPeer_of_free hfree]
  · intro hclean before hprefix
    have hvouched := vouched_receiveAll selfId before
    refine ⟨fun hbound hself => ?_, fun hflag => ?_, fun hbound => receiveAll_bound hbound⟩
    · obtain ⟨early, d, late, hsplit, hearly, hd, -⟩ := hvouched.bound hbound
      rw [hself, binder_self_iff] at hd
      have hfirst : early ++ [d] <+: ds := by
        refine List.IsPrefix.trans ?_ hprefix
        rw [hsplit]
        exact ⟨late, by rw [List.append_assoc, List.singleton_append]⟩
      have hfree : (receiveAll selfId early).havePeer = false := by
        rw [← Bool.not_eq_true]
        intro hhave
        obtain ⟨_, e, _, hparts, -, he, -⟩ := (vouched_receiveAll selfId early).bound hhave
        have hmem : e ∈ early := by
          rw [hparts]
          exact List.mem_append_right _ List.mem_cons_self
        rw [hearly e hmem] at he
        cases he
      exact hclean early d hfirst hfree hd
    · exact hflag.elim (fun h => (hvouched.hello h).1) (fun h => (hvouched.ack h).1)

/-- An ACK from the run to itself is the first datagram it receives. -/
theorem keepsBinding_selfAck :
    ¬∀ (selfId : UInt64) (ds : List Received), KeepsBinding selfId ds := by
  intro h
  have hkeeps := h 0xA [⟨ackText 0xA 0xA, ⟨10, 0, 0, 2⟩⟩]
  have hself : (receiveAll 0xA [⟨ackText 0xA 0xA, ⟨10, 0, 0, 2⟩⟩]).havePeer = true ∧
      (receiveAll 0xA [⟨ackText 0xA 0xA, ⟨10, 0, 0, 2⟩⟩]).peerId = 0xA := by decide +kernel
  exact hkeeps.other hself.1 hself.2

end DesktopSync.Analysis
