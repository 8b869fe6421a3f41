import DesktopSync.Model.Handshake

/-!
# The handshake pairs mutually and exclusively

What is on the network pins the runs down. An ACK names its sender and the peer its
sender is bound to, and a binding never changes, so an ACK in flight speaks for its
sender for ever. A run that succeeds has answered its peer's HELLO and has seen its
peer's ACK, and that ACK can name nobody else.
-/

set_option autoImplicit false

namespace DesktopSync.Analysis

open TransitionSystem DesktopSync.Model

/-! ## What the two texts scan to -/

/-- `%llx` skips a blank. -/
theorem scan_space (text : List UInt8) :
    Hexadecimal.scan (0x20 :: text) = Hexadecimal.scan text := by
  rw [Hexadecimal.scan, Hexadecimal.scan, List.dropWhile_cons_of_pos (by decide)]

/-- A printed number ends no string. -/
theorem zero_not_mem_encode (width value : ℕ) : (0 : UInt8) ∉ Hexadecimal.encode width value := by
  intro h
  have hdigit := Hexadecimal.isDigit_of_mem_encode h
  exact absurd hdigit (by decide)

/-- An identifier in sixteen digits is read back, and what follows it is left. -/
theorem scan_id (id : UInt64) (rest : List UInt8)
    (hrest : ∀ c ∈ rest.head?, Hexadecimal.isDigit c = false) :
    Hexadecimal.scan (0x20 :: (Hexadecimal.encode 16 id.toNat ++ rest)) =
      some (false, id.toNat, rest) := by
  rw [scan_space]
  exact Hexadecimal.scan_encode 14 id.toNat id.toNat_lt rest hrest

/-- A HELLO is its word, a blank and sixteen digits. -/
theorem helloText_eq (id : UInt64) :
    helloText id = ascii "HELLO" ++ 0x20 :: Hexadecimal.encode 16 id.toNat := by
  have hhello : ascii "HELLO " = ascii "HELLO" ++ [0x20] := by decide
  rw [helloText, hhello, List.append_assoc, List.singleton_append]

/-- An ACK is its word, a blank, sixteen digits, a blank and sixteen digits. -/
theorem ackText_eq (selfId peerId : UInt64) :
    ackText selfId peerId = ascii "ACK" ++ 0x20 :: (Hexadecimal.encode 16 selfId.toNat ++
      0x20 :: Hexadecimal.encode 16 peerId.toNat) := by
  have hack : ascii "ACK " = ascii "ACK" ++ [0x20] := by decide
  have hblank : ascii " " = [0x20] := by decide
  rw [ackText, hack, hblank, List.append_assoc, List.singleton_append, List.singleton_append]

/-- Every HELLO has 22 bytes. -/
theorem length_helloText (id : UInt64) : (helloText id).length = 22 := by
  rw [helloText, List.length_append, Hexadecimal.length_encode]
  decide

/-- A HELLO does not end the inner receive loop. -/
theorem ne_nil_helloText (id : UInt64) : helloText id ≠ [] :=
  List.ne_nil_of_length_pos (by rw [length_helloText]; omega)

/-- A HELLO is one string, without its terminator. -/
theorem zero_not_mem_helloText (id : UInt64) : (0 : UInt8) ∉ helloText id := by
  rw [helloText, List.mem_append, not_or]
  exact ⟨by decide, zero_not_mem_encode _ _⟩

/-- Every ACK has 37 bytes. -/
theorem length_ackText (selfId peerId : UInt64) : (ackText selfId peerId).length = 37 := by
  rw [ackText, List.length_append, List.length_append, List.length_append,
    Hexadecimal.length_encode, Hexadecimal.length_encode]
  decide

/-- An ACK does not end the inner receive loop. -/
theorem ne_nil_ackText (selfId peerId : UInt64) : ackText selfId peerId ≠ [] :=
  List.ne_nil_of_length_pos (by rw [length_ackText]; omega)

/-- An ACK is one string, without its terminator. -/
theorem zero_not_mem_ackText (selfId peerId : UInt64) : (0 : UInt8) ∉ ackText selfId peerId := by
  simp only [ackText, List.mem_append, not_or]
  exact ⟨by decide, zero_not_mem_encode _ _, by decide, zero_not_mem_encode _ _⟩

/-- `sscanf` reads from a HELLO whom it names. -/
theorem scanHello_helloText (id : UInt64) : scanHello (helloText id) = some id := by
  have hscan := scan_id id [] (by simp)
  rw [List.append_nil] at hscan
  rw [scanHello, helloText_eq, if_pos (by simp [List.isPrefixOf_iff_prefix])]
  have hdrop : (ascii "HELLO" ++ 0x20 :: Hexadecimal.encode 16 id.toNat).drop 5 =
      0x20 :: Hexadecimal.encode 16 id.toNat := rfl
  rw [hdrop, hscan]
  exact congrArg some (ull_toNat id)

/-- `sscanf` reads from an ACK whom it names, in that order. -/
theorem scanAck_ackText (selfId peerId : UInt64) :
    scanAck (ackText selfId peerId) = some (selfId, peerId) := by
  have hself := scan_id selfId (0x20 :: Hexadecimal.encode 16 peerId.toNat) (by simp; decide)
  have hpeer := scan_id peerId [] (by simp)
  rw [List.append_nil] at hpeer
  rw [scanAck, ackText_eq, if_pos (by simp [List.isPrefixOf_iff_prefix])]
  have hdrop : (ascii "ACK" ++ 0x20 :: (Hexadecimal.encode 16 selfId.toNat ++
      0x20 :: Hexadecimal.encode 16 peerId.toNat)).drop 3 = 0x20 :: (Hexadecimal.encode 16
      selfId.toNat ++ 0x20 :: Hexadecimal.encode 16 peerId.toNat) := rfl
  rw [hdrop, hself]
  simp only [Option.bind_eq_bind, Option.bind_some]
  rw [hpeer]
  simp only [Option.bind_some, ull_toNat]

/-- The text of an ACK determines whom it names. -/
theorem ackText_inj {a b x y : UInt64} (h : ackText a b = ackText x y) : a = x ∧ b = y := by
  have hscan := congrArg scanAck h
  rw [scanAck_ackText, scanAck_ackText, Option.some.injEq, Prod.mk.injEq] at hscan
  exact hscan

/-- No HELLO is an ACK. -/
theorem helloText_ne_ackText (id a b : UInt64) : helloText id ≠ ackText a b := by
  intro h
  have hlength := congrArg List.length h
  simp only [helloText, ackText, List.length_append, Hexadecimal.length_encode] at hlength
  have hhello : (ascii "HELLO ").length = 6 := by decide
  have hack : (ascii "ACK ").length = 4 := by decide
  omega

/-! ## What one datagram does to a run -/

/-- A run takes a HELLO for one of the run that it names. -/
theorem handleDatagram_helloText (selfId id : UInt64) (st : RunState) (source : Ipv4) :
    handleDatagram selfId st (helloText id) source = handleHello selfId st id source := by
  rw [handleDatagram,
    if_neg (by rw [length_helloText, maxDatagram]; simp [ne_nil_helloText id]),
    if_pos (by simp [helloText, List.isPrefixOf_iff_prefix]),
    takeWhile_ne_of_not_mem (zero_not_mem_helloText id), scanHello_helloText]

/-- A run takes an ACK for one between the two runs that it names. -/
theorem handleDatagram_ackText (selfId fromId toId : UInt64) (st : RunState) (source : Ipv4) :
    handleDatagram selfId st (ackText fromId toId) source =
      (handleAck selfId st fromId toId source, none) := by
  have hhello : (ascii "HELLO ").isPrefixOf (ackText fromId toId) = false := rfl
  rw [handleDatagram,
    if_neg (by rw [length_ackText, maxDatagram]; simp [ne_nil_ackText fromId toId]),
    if_neg (by simp [hhello]), if_pos (by simp [ackText, List.isPrefixOf_iff_prefix]),
    takeWhile_ne_of_not_mem (zero_not_mem_ackText fromId toId), scanAck_ackText]

/-- A datagram that begins as neither is passed over. -/
theorem handleDatagram_foreign {payload : List UInt8} (selfId : UInt64) (st : RunState)
    (source : Ipv4) (hhello : (ascii "HELLO ").isPrefixOf payload = false)
    (hack : (ascii "ACK ").isPrefixOf payload = false) :
    handleDatagram selfId st payload source = (st, none) := by
  rw [handleDatagram]
  split
  · rfl
  · rw [if_neg (by simp [hhello]), if_neg (by simp [hack])]

/-- What a run has settled stays settled: whom it is bound to, and that it saw a HELLO. -/
structure Settles (st st' : RunState) : Prop where
  bound : st.havePeer = true → st'.havePeer = true ∧ st'.peerId = st.peerId
  hello : st.sawHello = true → st'.sawHello = true

/-- A run that does nothing settles nothing. -/
theorem Settles.refl (st : RunState) : Settles st st := ⟨fun h => ⟨h, rfl⟩, fun h => h⟩

/-- A run that has a peer keeps it. -/
theorem bindPeer_of_bound {st : RunState} (h : st.havePeer = true) (id : UInt64) (source : Ipv4) :
    st.bindPeer id source = st := by
  rw [RunState.bindPeer, if_pos h]

/-- A run without a peer takes the sender for its peer. -/
theorem bindPeer_of_free {st : RunState} (h : st.havePeer = false) (id : UInt64) (source : Ipv4) :
    st.bindPeer id source =
      { st with peerId := id, peerIp := ipv4ToString source, havePeer := true } := by
  rw [RunState.bindPeer, if_neg (by simp [h])]

/-- Binding undoes nothing. -/
theorem settles_bindPeer (st : RunState) (id : UInt64) (source : Ipv4) :
    Settles st (st.bindPeer id source) := by
  cases hbound : st.havePeer with
  | true =>
      rw [bindPeer_of_bound hbound]
      exact .refl st
  | false =>
      refine ⟨fun h => ?_, fun h => ?_⟩
      · rw [hbound] at h
        cases h
      · rw [bindPeer_of_free hbound]
        exact h

/-- Behind the binding there is a peer. -/
theorem havePeer_bindPeer (st : RunState) (id : UInt64) (source : Ipv4) :
    (st.bindPeer id source).havePeer = true := by
  rw [RunState.bindPeer]
  split
  · assumption
  · rfl

/-- A HELLO undoes nothing. -/
theorem settles_handleHello (selfId : UInt64) (st : RunState) (id : UInt64) (source : Ipv4) :
    Settles st (handleHello selfId st id source).1 := by
  have hbind := settles_bindPeer st id source
  rw [handleHello]
  split
  · exact .refl st
  · split
    · exact ⟨hbind.bound, fun _ => rfl⟩
    · exact hbind

/-- An ACK undoes nothing. -/
theorem settles_handleAck (selfId : UInt64) (st : RunState) (fromId toId : UInt64)
    (source : Ipv4) : Settles st (handleAck selfId st fromId toId source) := by
  have hbind := settles_bindPeer st fromId source
  rw [handleAck]
  split
  · split
    · exact ⟨hbind.bound, hbind.hello⟩
    · exact hbind
  · exact .refl st

/-! ## The invariant -/

section Invariant

variable {ι : Type} (net : Network ι)

/-- The ACK of run `i` to run `j`, as `send_ack` addresses it. -/
def ackOf (i j : ι) : Datagram ι :=
  ⟨i, .unicast (net.addr j), ackText (net.selfId i) (net.selfId j)⟩

/-- `send_ack` is called by the run that answers. -/
@[simp] theorem ackOf_sender (i j : ι) : (ackOf net i j).sender = i := rfl

/-- It prints both identifiers, its own first. -/
@[simp] theorem ackOf_payload (i j : ι) :
    (ackOf net i j).payload = ackText (net.selfId i) (net.selfId j) := rfl

/-- The sender stands by its datagram: it is its HELLO, or an ACK to the peer it is bound
to and has seen a HELLO of. -/
def Genuine (runs : ι → RunState) (d : Datagram ι) : Prop :=
  d.payload = helloText (net.selfId d.sender) ∨
    ∃ peer, d.payload = ackText (net.selfId d.sender) peer ∧
      (runs d.sender).havePeer = true ∧ (runs d.sender).peerId = peer ∧
      (runs d.sender).sawHello = true

/-- What a run believes is on the record: its peer is another run, the HELLO it has seen
it has answered, and the ACK it has seen was sent. -/
structure Backed (sent : List (Datagram ι)) (i : ι) (st : RunState) : Prop where
  bound : st.havePeer = true →
    ∃ j, j ≠ i ∧ st.peerId = net.selfId j ∧ st.peerIp = ipv4ToString (net.addr j)
  hello : st.sawHello = true →
    st.havePeer = true ∧ ∀ j, st.peerId = net.selfId j → ackOf net i j ∈ sent
  ack : st.sawAck = true →
    st.havePeer = true ∧ ∃ d ∈ sent, st.peerId = net.selfId d.sender ∧
      d.payload = ackText st.peerId (net.selfId i)

/-- The invariant of the handshakes. -/
structure OnRecord (s : NetState ι) : Prop where
  genuine : ∀ d ∈ s.sent, Genuine net s.runs d
  backed : ∀ i, Backed net s.sent i (s.runs i)

variable {net}

/-- A sender stands by its datagram whatever else it settles. -/
theorem Genuine.settle {runs runs' : ι → RunState} {d : Datagram ι} (h : Genuine net runs d)
    (hsettles : Settles (runs d.sender) (runs' d.sender)) : Genuine net runs' d := by
  rcases h with h | ⟨peer, hpayload, hbound, hpeer, hhello⟩
  · exact .inl h
  · obtain ⟨hbound', hpeer'⟩ := hsettles.bound hbound
    exact .inr ⟨peer, hpayload, hbound', hpeer'.trans hpeer, hsettles.hello hhello⟩

/-- More on the record backs a run no less. -/
theorem Backed.mono {sent sent' : List (Datagram ι)} {i : ι} {st : RunState}
    (h : Backed net sent i st) (hsent : sent ⊆ sent') : Backed net sent' i st where
  bound := h.bound
  hello hhello := ⟨(h.hello hhello).1, fun j hj => hsent ((h.hello hhello).2 j hj)⟩
  ack hack := by
    obtain ⟨hbound, d, hd, hrest⟩ := h.ack hack
    exact ⟨hbound, d, hsent hd, hrest⟩

/-- A first message binds the run to its sender. -/
theorem Backed.bindPeer {sent : List (Datagram ι)} {i j : ι} {st : RunState}
    (h : Backed net sent i st) (hne : j ≠ i) :
    Backed net sent i (st.bindPeer (net.selfId j) (net.addr j)) := by
  cases hbound : st.havePeer with
  | true =>
      rw [bindPeer_of_bound hbound]
      exact h
  | false =>
      rw [bindPeer_of_free hbound]
      refine ⟨fun _ => ⟨j, hne, ?_⟩, fun hhello => ?_, fun hack => ?_⟩
      · simp only [and_self]
      · rw [(h.hello hhello).1] at hbound
        cases hbound
      · rw [(h.ack hack).1] at hbound
        cases hbound

/-- A HELLO of run `j` leaves run `i` backed, and its ACK, if there is one, is genuine. -/
theorem Backed.handleHello {sent : List (Datagram ι)} {i j : ι} {st : RunState}
    (h : Backed net sent i st) :
    let handled := handleHello (net.selfId i) st (net.selfId j) (net.addr j)
    let acks := handled.2.toList.map fun ack => (⟨i, .unicast ack.1, ack.2⟩ : Datagram ι)
    Backed net (sent ++ acks) i handled.1 ∧
      ∀ d ∈ acks, d = ackOf net i j ∧ handled.1.havePeer = true ∧
        handled.1.peerId = net.selfId j ∧ handled.1.sawHello = true := by
  intro handled acks
  have hmono : sent ⊆ sent ++ acks := List.subset_append_left _ _
  by_cases hself : net.selfId j = net.selfId i
  · have hhandled : handled = (st, none) := if_pos hself
    have hacks : acks = [] := by rw [show acks = handled.2.toList.map _ from rfl, hhandled]; rfl
    rw [hacks, List.append_nil, hhandled]
    exact ⟨h, by simp⟩
  · have hbind := h.bindPeer (j := j) (fun hji => hself (congrArg net.selfId hji))
    have hhave := havePeer_bindPeer st (net.selfId j) (net.addr j)
    by_cases hpeer : (st.bindPeer (net.selfId j) (net.addr j)).peerId = net.selfId j
    · have hhandled : handled = ({ st.bindPeer (net.selfId j) (net.addr j) with sawHello := true },
          some (net.addr j, ackText (net.selfId i) (net.selfId j))) := by
        rw [show handled = _ from if_neg hself, if_pos hpeer, hpeer]
      have hacks : acks = [ackOf net i j] := by
        rw [show acks = handled.2.toList.map _ from rfl, hhandled]
        rfl
      rw [hacks] at hmono ⊢
      rw [hhandled]
      refine ⟨⟨hbind.bound, fun _ => ⟨hhave, fun k hk => ?_⟩, (hbind.mono hmono).ack⟩,
        fun d hd => ?_⟩
      · have hjk : j = k := net.distinct (hpeer.symm.trans hk)
        rw [← hjk]
        exact List.mem_append_right _ (List.mem_singleton_self _)
      · exact ⟨List.mem_singleton.mp hd, hhave, hpeer, rfl⟩
    · have hhandled : handled = (st.bindPeer (net.selfId j) (net.addr j), none) := by
        rw [show handled = _ from if_neg hself, if_neg hpeer]
      have hacks : acks = [] := by rw [show acks = handled.2.toList.map _ from rfl, hhandled]; rfl
      rw [hacks, List.append_nil, hhandled]
      exact ⟨hbind, by simp⟩

/-- An ACK on record leaves the run it reaches backed. -/
theorem Backed.handleAck {sent : List (Datagram ι)} {i : ι} {st : RunState} {d : Datagram ι}
    {toId : UInt64} (h : Backed net sent i st) (hd : d ∈ sent)
    (hpayload : d.payload = ackText (net.selfId d.sender) toId)
    (hne : toId = net.selfId i → d.sender ≠ i) :
    Backed net sent i (Model.handleAck (net.selfId i) st (net.selfId d.sender) toId
      (net.addr d.sender)) := by
  rw [Model.handleAck]
  split
  · next hto =>
      have hbind := h.bindPeer (hne hto)
      split
      · next hpeer =>
          refine ⟨hbind.bound, hbind.hello, fun _ => ⟨havePeer_bindPeer _ _ _, d, hd, hpeer, ?_⟩⟩
          rw [hpayload, hto, show (RunState.peerId { st.bindPeer (net.selfId d.sender)
            (net.addr d.sender) with sawAck := true }) = _ from hpeer]
      · exact hbind
  · exact h

/-- A run sends what it stands by. -/
theorem OnRecord.say {s : NetState ι} (h : OnRecord net s) {sent : List (Datagram ι)}
    (phase : ι → Phase) (hgenuine : ∀ d ∈ sent, Genuine net s.runs d) :
    OnRecord net ⟨phase, s.runs, s.sent ++ sent⟩ where
  genuine d hd := (List.mem_append.mp hd).elim (h.genuine d) (hgenuine d)
  backed i := (h.backed i).mono (List.subset_append_left _ _)

/-- A run that succeeded has a peer that is bound to it in return. -/
theorem OnRecord.mutual {s : NetState ι} (h : OnRecord net s) {a : ι}
    (hsuccess : (s.runs a).success = true) :
    ∃ b, b ≠ a ∧ (s.runs a).peerId = net.selfId b ∧
      (s.runs b).havePeer = true ∧ (s.runs b).peerId = net.selfId a ∧
      (s.runs b).sawHello = true ∧ (s.runs a).peerIp = ipv4ToString (net.addr b) ∧
      ackOf net a b ∈ s.sent := by
  simp only [RunState.success, Bool.and_eq_true] at hsuccess
  obtain ⟨⟨⟨hhello, hack⟩, hbound⟩, -⟩ := hsuccess
  obtain ⟨b, hne, hpeer, hip⟩ := (h.backed a).bound hbound
  have hanswered := ((h.backed a).hello hhello).2 b hpeer
  obtain ⟨-, d, hd, hsender, hpayload⟩ := (h.backed a).ack hack
  have hb : d.sender = b := net.distinct (hsender.symm.trans hpeer)
  rcases h.genuine d hd with hhello' | ⟨peer, hpayload', hbound', hpeer', hhello'⟩
  · exact absurd (hhello'.symm.trans hpayload) (helloText_ne_ackText _ _ _)
  · have hnamed : peer = net.selfId a := (ackText_inj (hpayload'.symm.trans hpayload)).2
    rw [hb] at hbound' hpeer' hhello'
    exact ⟨b, hne, hpeer, hbound', hpeer'.trans hnamed, hhello', hip, hanswered⟩

variable [DecidableEq ι]

/-- One run moves on, what it settled stays, and what it sends it stands by. -/
theorem OnRecord.update {s : NetState ι} (h : OnRecord net s) {i : ι} {st : RunState}
    {sent : List (Datagram ι)} (phase : ι → Phase) (hsettles : Settles (s.runs i) st)
    (hbacked : Backed net (s.sent ++ sent) i st)
    (hgenuine : ∀ d ∈ sent, Genuine net (Function.update s.runs i st) d) :
    OnRecord net ⟨phase, Function.update s.runs i st, s.sent ++ sent⟩ := by
  refine ⟨fun d hd => ?_, fun j => ?_⟩
  · rcases List.mem_append.mp hd with hd | hd
    · apply (h.genuine d hd).settle
      simp only
      by_cases hsender : d.sender = i
      · rw [hsender, Function.update_self]
        exact hsettles
      · rw [Function.update_of_ne hsender]
        exact .refl _
    · exact hgenuine d hd
  · by_cases hj : j = i
    · rw [hj]
      simp only [Function.update_self]
      exact hbacked
    · simp only [Function.update_of_ne hj]
      exact (h.backed j).mono (List.subset_append_left _ _)

/-- A run receives a datagram that is on the record. -/
theorem OnRecord.deliver {s : NetState ι} (h : OnRecord net s) (i : ι) {d : Datagram ι}
    (hd : d ∈ s.sent) : OnRecord net (s.receive net i d.payload (net.addr d.sender)) := by
  rcases h.genuine d hd with hpayload | ⟨toId, hpayload, hbound, hpeer, -⟩
  · obtain ⟨hbacked, hacks⟩ := (h.backed i).handleHello (j := d.sender)
    rw [NetState.receive, hpayload, handleDatagram_helloText]
    apply h.update s.phase (settles_handleHello _ _ _ _) hbacked
    intro ack hack
    obtain ⟨rfl, hhave, hid, hhello⟩ := hacks ack hack
    rw [Genuine, ackOf_payload, ackOf_sender, Function.update_self]
    exact .inr ⟨net.selfId d.sender, rfl, hhave, hid, hhello⟩
  · have hne : toId = net.selfId i → d.sender ≠ i := by
      rintro hto rfl
      obtain ⟨j, hj, hjpeer, -⟩ := (h.backed d.sender).bound hbound
      exact hj (net.distinct (hjpeer.symm.trans (hpeer.trans hto)))
    rw [NetState.receive, hpayload, handleDatagram_ackText]
    apply h.update s.phase (settles_handleAck _ _ _ _ _)
    · exact ((h.backed i).handleAck hd hpayload hne).mono (List.subset_append_left _ _)
    · intro ack hack
      cases hack

/-- A datagram that is neither a HELLO nor an ACK changes nothing. -/
theorem receive_foreign {s : NetState ι} {payload : List UInt8} (i : ι) (origin : Ipv4)
    (hhello : (ascii "HELLO ").isPrefixOf payload = false)
    (hack : (ascii "ACK ").isPrefixOf payload = false) :
    s.receive net i payload origin = s := by
  rw [NetState.receive, handleDatagram_foreign _ _ _ hhello hack]
  simp only [Function.update_eq_self, Option.toList_none, List.map_nil, List.append_nil]

/-- Every event keeps the record: what is said is genuine, and what is believed is on it. -/
theorem onRecord_step {s s' : NetState ι} (e : NetEvent ι) (h : OnRecord net s)
    (hstep : netStep net s e = some s') : OnRecord net s' := by
  cases e with
  | start i =>
      obtain ⟨-, hs'⟩ := Option.ite_none_right_eq_some.mp hstep
      rw [← Option.some.inj hs']
      exact ⟨h.genuine, h.backed⟩
  | hello i =>
      obtain ⟨-, hs'⟩ := Option.ite_none_right_eq_some.mp hstep
      rw [← Option.some.inj hs']
      apply h.say
      intro d hd
      rw [List.mem_cons, List.mem_singleton] at hd
      rcases hd with rfl | rfl
      · exact .inl rfl
      · exact .inl rfl
  | deliver i d =>
      obtain ⟨hguard, hs'⟩ := Option.ite_none_right_eq_some.mp hstep
      rw [Bool.and_eq_true, List.contains_iff_mem] at hguard
      rw [← Option.some.inj hs']
      exact h.deliver i hguard.2
  | foreign i payload origin =>
      obtain ⟨hguard, hs'⟩ := Option.ite_none_right_eq_some.mp hstep
      simp only [Bool.and_eq_true, Bool.not_eq_true'] at hguard
      rw [← Option.some.inj hs', receive_foreign i origin hguard.1.2 hguard.2]
      exact h
  | stop i =>
      obtain ⟨-, hs'⟩ := Option.ite_none_right_eq_some.mp hstep
      rw [← Option.some.inj hs']
      exact ⟨h.genuine, h.backed⟩

/-- In every state of every run what the runs believe is on the record. -/
theorem onRecord_of_reachable {s : NetState ι} (h : (handshakes net).Reachable s) :
    OnRecord net s := by
  have hinit : ∀ s : NetState ι, (handshakes net).init s → OnRecord net s := by
    rintro s rfl
    refine ⟨fun d hd => ?_, fun i => ⟨fun h => ?_, fun h => ?_, fun h => ?_⟩⟩
    · cases hd
    · cases h
    · cases h
    · cases h
  exact h.invariant hinit fun s e s' hs hstep => onRecord_step e hs hstep

variable (net) in
/-- What a run returned is what its variables say, and stays so: it listens no more. -/
def Returns (s : NetState ι) : Prop :=
  ∀ i result, s.phase i = .returned result → result = handshakeResult (net.selfId i) (s.runs i)

/-- A datagram leaves the runs that have returned as they are. -/
theorem Returns.receive {s : NetState ι} (h : Returns net s) {i : ι}
    (hlistening : (s.phase i).isListening = true) (payload : List UInt8) (origin : Ipv4) :
    Returns net (s.receive net i payload origin) := by
  intro j result hj
  have hne : j ≠ i := by
    rintro rfl
    rw [show s.phase j = .returned result from hj] at hlistening
    cases hlistening
  rw [NetState.receive]
  simp only [Function.update_of_ne hne]
  exact h j result hj

/-- Every event keeps what is known of the runs that have returned. -/
theorem returns_step {s s' : NetState ι} (e : NetEvent ι) (h : Returns net s)
    (hstep : netStep net s e = some s') : Returns net s' := by
  cases e with
  | start i =>
      obtain ⟨-, hs'⟩ := Option.ite_none_right_eq_some.mp hstep
      rw [← Option.some.inj hs']
      intro j result hj
      by_cases hji : j = i
      · simp only [hji, Function.update_self] at hj
        cases hj
      · simp only [Function.update_of_ne hji] at hj
        exact h j result hj
  | hello i =>
      obtain ⟨-, hs'⟩ := Option.ite_none_right_eq_some.mp hstep
      rw [← Option.some.inj hs']
      exact h
  | deliver i d =>
      obtain ⟨hguard, hs'⟩ := Option.ite_none_right_eq_some.mp hstep
      rw [Bool.and_eq_true] at hguard
      rw [← Option.some.inj hs']
      exact h.receive hguard.1 _ _
  | foreign i payload origin =>
      obtain ⟨hguard, hs'⟩ := Option.ite_none_right_eq_some.mp hstep
      simp only [Bool.and_eq_true] at hguard
      rw [← Option.some.inj hs']
      exact h.receive hguard.1.1 _ _
  | stop i =>
      obtain ⟨-, hs'⟩ := Option.ite_none_right_eq_some.mp hstep
      rw [← Option.some.inj hs']
      intro j result hj
      by_cases hji : j = i
      · simp only [hji, Function.update_self, Phase.returned.injEq] at hj ⊢
        exact hj.symm
      · simp only [Function.update_of_ne hji] at hj
        exact h j result hj

/-- In every run of the network, what has been returned is what the variables say. -/
theorem returns_of_reachable {s : NetState ι} (h : (handshakes net).Reachable s) :
    Returns net s := by
  have hinit : ∀ s : NetState ι, (handshakes net).init s → Returns net s := by
    rintro s rfl i result hi
    cases hi
  exact h.invariant hinit fun s e s' hs hstep => returns_step e hs hstep

/-- Whatever is lost, repeated, reordered or misdirected: the peer of a run that
succeeded is another run, bound to it in return and answered, and no second run succeeds
with the same peer. -/
theorem handshake_pairs {s : NetState ι} (h : (handshakes net).Reachable s) (a : ι)
    (hsuccess : (s.runs a).success = true) :
    (∃ b, b ≠ a ∧ (s.runs a).peerId = net.selfId b ∧
      (s.runs b).havePeer = true ∧ (s.runs b).peerId = net.selfId a ∧
      (s.runs b).sawHello = true ∧ (s.runs a).peerIp = ipv4ToString (net.addr b) ∧
      ⟨a, .unicast (net.addr b), ackText (net.selfId a) (net.selfId b)⟩ ∈ s.sent) ∧
    ∀ c, (s.runs c).success = true → (s.runs c).peerId = (s.runs a).peerId → c = a := by
  have hrecord := onRecord_of_reachable h
  refine ⟨hrecord.mutual hsuccess, fun c hc hsame => ?_⟩
  obtain ⟨b, -, hb, -, hba, -⟩ := hrecord.mutual hsuccess
  obtain ⟨b', -, hb', -, hbc, -⟩ := hrecord.mutual hc
  have hbb' : b' = b := net.distinct (hb'.symm.trans (hsame.trans hb))
  rw [hbb'] at hbc
  exact net.distinct (hbc.symm.trans hba)

end Invariant

/-! ## Two runs that find each other -/

/-- Two runs on one network. -/
def twoRuns : Network Bool where
  selfId i := if i then 0xB else 0xA
  addr i := if i then ⟨10, 0, 0, 2⟩ else ⟨10, 0, 0, 1⟩
  distinct := by decide

/-- Each broadcasts, hears the other's HELLO, answers it, and hears the answer. -/
def twoRunsScript : List (NetState Bool → NetEvent Bool) :=
  [.start false, .start true, .hello false, .hello true,
    .deliver true ⟨false, .broadcast, helloText 0xA⟩,
    .deliver false ⟨true, .multicast, helloText 0xB⟩,
    .deliver false (ackOf twoRuns true false), .deliver true (ackOf twoRuns false true)].map
      fun e _ => e

/-- Two runs that pair. -/
theorem handshake_pairs_twoRuns :
    ∃ s, (handshakes twoRuns).exec netInit twoRunsScript = some s ∧
      (s.runs false).success = true ∧ ∃ b, b ≠ false ∧
        (s.runs false).peerId = twoRuns.selfId b ∧ (s.runs b).sawHello = true := by
  have hexec : ((handshakes twoRuns).exec netInit twoRunsScript).map
      (fun s => (s.runs false).success) = some true := by decide +kernel
  obtain ⟨s, hs, hsuccess⟩ := Option.map_eq_some_iff.mp hexec
  have hreach : (handshakes twoRuns).Reachable s :=
    System.Reachable.exec (System.ReachableBy.init rfl) hs
  obtain ⟨b, hne, hpeer, -, -, hhello, -⟩ := (handshake_pairs hreach false hsuccess).1
  exact ⟨s, hs, hsuccess, b, hne, hpeer, hhello⟩

end DesktopSync.Analysis
