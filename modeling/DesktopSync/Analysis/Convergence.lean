import DesktopSync.Analysis.DesktopUpload
import DesktopSync.Model.Overlap

/-!
# What two overlapping uploads leave

The two uploads are an `Exchange`: the bytes between the peers are HELLO, the packets of
the copies in flight, and END, and every step of a thread is a step of the exchange or
none at all. What the exchange leaves is what the desktops hold at the end.
-/

set_option autoImplicit false

namespace DesktopSync.Analysis

open DesktopSync.Model
open ChunkedSink Framing Exchange TransitionSystem

/-- The bytes of the packet of a file. -/
def copyBytes (md5 : Digest) (pad : UInt16) (name : FileName) (content : List UInt8) :
    List UInt8 :=
  packetBytes md5 pad (FileName.holding name content) (UInt64.ofNat content.length)

/-- What has been sent and not yet been taken: the copies in flight, behind a HELLO or
not, and END behind them once the upload has ended. After END nothing is taken. -/
inductive Pending (md5 : Digest) :
    List (FileName × List UInt8) → Bool → Bool → List UInt8 → Prop
  | nothing : Pending md5 [] false false []
  | hello {flight : List (FileName × List UInt8)} {ended : Bool} {bytes : List UInt8}
      (now : UInt64) (pad : UInt16) : Pending md5 flight ended false bytes →
      Pending md5 flight ended false ((helloHeader now pad).toBytes ++ bytes)
  | copy {flight : List (FileName × List UInt8)} {ended : Bool} {bytes : List UInt8}
      (pad : UInt16) (name : FileName) (content : List UInt8) : Utf.WellFormed name.units →
      content.length < 2 ^ 64 → Pending md5 flight ended false bytes →
      Pending md5 ((name, content) :: flight) ended false
        (copyBytes md5 pad name content ++ bytes)
  | ending (pad : UInt16) :
      Pending md5 [] true false (PacketHeader.toBytes { opcode := opcodeEnd, pad := pad })
  | closed (bytes : List UInt8) : Pending md5 [] true true bytes

namespace Pending

variable {md5 : Digest} {flight : List (FileName × List UInt8)} {bytes : List UInt8}

/-- Before END more can be sent behind what is pending. -/
theorem append {more : List (FileName × List UInt8)} {e s ended : Bool} {tail : List UInt8}
    (h : Pending md5 flight e s bytes) (hopen : e = false) (hlive : s = false)
    (htail : Pending md5 more ended false tail) :
    Pending md5 (flight ++ more) ended false (bytes ++ tail) := by
  induction h with
  | nothing => exact htail
  | hello now pad _ ih =>
      rw [List.append_assoc]
      exact .hello now pad (ih hopen hlive)
  | copy pad name content hwf hsized _ ih =>
      rw [List.append_assoc]
      exact .copy pad name content hwf hsized (ih hopen hlive)
  | ending pad => cases hopen
  | closed bytes => cases hopen

/-- Nothing is pending at the end of a served upload. -/
theorem flight_nil {ended : Bool} (h : Pending md5 flight ended true bytes) : flight = [] := by
  generalize hserved : true = s at h
  cases h with
  | closed => rfl
  | _ => cases hserved

/-- Until an upload has ended its server has not seen END. -/
theorem live {e s : Bool} (h : Pending md5 flight e s bytes) (hopen : e = false) : s = false := by
  cases h with
  | closed => cases hopen
  | _ => rfl

/-- The packet of a file is received whole, or it ends the session. -/
theorem handlePacket_copy {conn : Conn} (cfg : IniState) (reply : StoreReply) (pos : ℕ)
    {pad : UInt16} {name : FileName} {content tail : List UInt8} (hwf : Utf.WellFormed name.units)
    (hsized : content.length < 2 ^ 64)
    (hconn : conn.toList = copyBytes md5 pad name content ++ tail) :
    (∃ size w conn', Model.handlePacket cfg reply pos conn = .next (some w) size conn' ∧
        w.target = WindowsPath.join (targetDirOf cfg) name.units ∧ w.data = content ∧
        (copyBytes md5 pad name content ++ tail).drop size = tail) ∨
      ∃ outcome conn', outcome ≠ .returned true ∧
        Model.handlePacket cfg reply pos conn = .done outcome conn' := by
  have hfits := nameFits_holding name content
  by_cases hsmall : content.length < 2 ^ 31
  · have hwhole : SentWhole (FileName.holding name content) :=
      ⟨hfits, content, rfl, rfl, hsmall⟩
    have hfront : packetFront conn.toList =
        .frame (some (framed md5 pad (FileName.holding name content)))
          (packetSize (FileName.holding name content)) := by
      rw [hconn]
      exact packetFront_packet md5 pad hwhole tail
    obtain ⟨conn', hpacket, -⟩ := handlePacket_of_frame cfg reply pos hfront
    have hname : utf8ToWide (wireName (FileName.holding name content)) = name.units :=
      utf8ToWide_wideToUtf8 name.units hwf name.admissible.2.1
    refine .inl ⟨_, _, conn', hpacket, ?_, rfl, List.drop_left' (length_packetBytes _ _ _ _)⟩
    rw [toWrite]
    exact congrArg (WindowsPath.join (targetDirOf cfg)) hname
  · obtain ⟨outcome, n, hne, hfront⟩ := packetFront_large md5 pad hfits (not_lt.mp hsmall)
      hsized tail
    rw [← copyBytes, ← hconn] at hfront
    obtain ⟨conn', hpacket, -⟩ := handlePacket_of_halt cfg reply pos hfront
    exact .inr ⟨outcome, conn', hne, hpacket⟩

/-- A pass of the packet loop over what is pending takes HELLO, stores the oldest copy, or
ends at END; a copy of `2^31` bytes or more ends the session otherwise. -/
theorem handlePacket {ended : Bool} {conn : Conn} (cfg : IniState) (reply : StoreReply) (pos : ℕ)
    (h : Pending md5 flight ended false bytes) (hconn : conn.toList = bytes) :
    (∃ conn', Model.handlePacket cfg reply pos conn = .next none headerSize conn' ∧
        Pending md5 flight ended false (bytes.drop headerSize)) ∨
      (∃ name content rest size w conn', flight = (name, content) :: rest ∧
        Utf.WellFormed name.units ∧ content.length < 2 ^ 64 ∧
        Model.handlePacket cfg reply pos conn = .next (some w) size conn' ∧
        w.target = WindowsPath.join (targetDirOf cfg) name.units ∧ w.data = content ∧
        Pending md5 rest ended false (bytes.drop size)) ∨
      (flight = [] ∧ ended = true ∧
        ∃ conn', Model.handlePacket cfg reply pos conn = .done (.returned true) conn') ∨
      ∃ outcome conn', outcome ≠ .returned true ∧
        Model.handlePacket cfg reply pos conn = .done outcome conn' := by
  generalize hserved : false = s at h
  cases h with
  | nothing =>
      have hfront : packetFront conn.toList = .short := by rw [hconn]; rfl
      obtain ⟨conn', hpacket⟩ := handlePacket_of_short cfg reply pos hfront
      exact .inr (.inr (.inr ⟨_, conn', by simp, hpacket⟩))
  | @hello _ _ tail now pad htail =>
      have hfront : packetFront conn.toList = .frame none headerSize := by
        rw [hconn]
        exact packetFront_header rfl (show opcodeHello ≠ opcodeEnd by decide)
          (show opcodeHello ≠ opcodeFile by decide) tail
      obtain ⟨conn', hpacket, -⟩ := handlePacket_of_frame cfg reply pos hfront
      refine .inl ⟨conn', hpacket, ?_⟩
      rw [drop_toBytes]
      exact htail
  | @copy rest _ tail pad name content hwf hsized htail =>
      rcases handlePacket_copy cfg reply pos hwf hsized hconn with
        ⟨size, w, conn', hpacket, htarget, hdata, hdrop⟩ | hdone
      · refine .inr (.inl ⟨name, content, rest, size, w, conn', rfl, hwf, hsized, hpacket, htarget,
          hdata, ?_⟩)
        rw [hdrop]
        exact htail
      · exact .inr (.inr (.inr hdone))
  | ending pad =>
      have hfront : packetFront conn.toList = .halt (.returned true) headerSize := by
        rw [hconn, ← List.append_nil (PacketHeader.toBytes _)]
        exact packetFront_end rfl rfl []
      obtain ⟨conn', hpacket, -⟩ := handlePacket_of_halt cfg reply pos hfront
      exact .inr (.inr (.inl ⟨rfl, rfl, conn', hpacket⟩))
  | closed => cases hserved

end Pending

/-! ## The peers and the parties -/

/-- The main thread and the party are equally far. -/
def Listed : UploadPhase → Option (List FileName) → Prop
  | .idle, todo => todo = none
  | .sending files _ _, todo => ∃ names, files = names.map FileName.units ∧ todo = some names
  | .ended, todo => todo = some []

/-- The party is what the exchange knows of the peer `me`, whose packets `you` takes. -/
structure Mirrors (md5 : Digest) (me you : PeerState) (party : Party FileName (List UInt8)) :
    Prop where
  store : party.store = me.desktop.data
  todo : Listed me.phase party.todo
  arrived : party.arrived = {name | name ∈ me.arrived}
  early : party.early = {name | name ∈ me.early}
  refusals : me.st.sink.refusals = []
  wellFormed : ∀ name ∈ me.desktop, Utf.WellFormed name.units
  behind : you.received ≤ me.st.sink.taken.length
  pending : Pending md5 party.flight me.isEnded you.served
    (me.st.sink.taken.drop you.received)

/-- Both peers are mirrored. -/
def Refines (md5 : Digest) (s : PairState) (w : World FileName (List UInt8)) : Prop :=
  ∀ p, Mirrors md5 (s p) (s p.other) (w p)

namespace Mirrors

variable {md5 : Digest} {me you : PeerState} {party : Party FileName (List UInt8)}

/-- Of the receiving peer only its server matters. -/
theorem congr {you' : PeerState} (h : Mirrors md5 me you party)
    (hreceived : you'.received = you.received) (hserved : you'.served = you.served) :
    Mirrors md5 me you' party where
  store := h.store
  todo := h.todo
  arrived := h.arrived
  early := h.early
  refusals := h.refusals
  wellFormed := h.wellFormed
  behind := by rw [hreceived]; exact h.behind
  pending := by rw [hreceived, hserved]; exact h.pending

theorem live (h : Mirrors md5 me you party) (hopen : me.isEnded = false) : you.served = false :=
  h.pending.live hopen

/-- The main thread sends behind what is pending. -/
theorem extend (h : Mirrors md5 me you party) (hopen : me.isEnded = false) (me' : PeerState)
    {more : List (FileName × List UInt8)} {bytes : List UInt8}
    (htaken : me'.st.sink.taken = me.st.sink.taken ++ bytes)
    (hmore : Pending md5 more me'.isEnded false bytes) :
    you.received ≤ me'.st.sink.taken.length ∧
      Pending md5 (party.flight ++ more) me'.isEnded you.served
        (me'.st.sink.taken.drop you.received) := by
  have hlive := h.live hopen
  have hpending := h.pending
  rw [hopen, hlive] at hpending
  constructor
  · rw [htaken, List.length_append]
    exact h.behind.trans (Nat.le_add_right _ _)
  · rw [htaken, List.drop_append_of_le_length h.behind, hlive]
    exact hpending.append rfl rfl hmore

/-- The server of the receiving peer takes `n` bytes. -/
theorem take (h : Mirrors md5 me you party) {you' : PeerState} {n : ℕ}
    {rest : List (FileName × List UInt8)} (hreceived : you'.received = you.received + n)
    (hn : n ≤ (me.st.sink.taken.drop you.received).length)
    (hrest : Pending md5 rest me.isEnded you'.served
      ((me.st.sink.taken.drop you.received).drop n)) :
    Mirrors md5 me you' (party.land rest) where
  store := h.store
  todo := h.todo
  arrived := h.arrived
  early := h.early
  refusals := h.refusals
  wellFormed := h.wellFormed
  behind := by
    have hbehind := h.behind
    rw [List.length_drop] at hn
    rw [hreceived]
    omega
  pending := by
    rw [List.drop_drop] at hrest
    rw [hreceived]
    exact hrest

/-- A copy arrives and is stored. -/
theorem arrive (h : Mirrors md5 me you party) {name : FileName} {f : File} (received : ℕ)
    (hwf : Utf.WellFormed name.units) :
    Mirrors md5 { me with
      desktop := me.desktop.insert name f
      received := received
      arrived := [name] ++ me.arrived } you (party.arrive name f.data) where
  store := by
    funext other
    simp only [Party.arrive, h.store]
    by_cases hother : other = name
    · rw [hother, Function.update_self, Desktop.data_insert_self]
    · rw [Function.update_of_ne hother, Desktop.data_insert_of_ne _ _ hother]
  todo := h.todo
  arrived := by
    ext other
    simp only [Party.arrive, h.arrived, Set.mem_insert_iff, Set.mem_ofPred_eq, List.mem_append,
      List.mem_singleton]
  early := h.early
  refusals := h.refusals
  wellFormed := by
    intro other hother
    rcases (AList.mem_insert _).mp hother with rfl | hother
    · exact hwf
    · exact h.wellFormed other hother
  behind := h.behind
  pending := h.pending

/-- A server that moves on with nothing stored. -/
theorem idle (h : Mirrors md5 me you party) (received : ℕ) (served : Bool) :
    Mirrors md5 { me with received := received, served := served } you party where
  store := h.store
  todo := h.todo
  arrived := h.arrived
  early := h.early
  refusals := h.refusals
  wellFormed := h.wellFormed
  behind := h.behind
  pending := h.pending

end Mirrors

/-! ## Every step is a step of the exchange -/

section Steps

variable {net : Pairing} {s : PairState} {w : World FileName (List UInt8)}

/-- One peer moves, and its server does not. -/
theorem Refines.update (h : Refines net.md5 s w) (p : Side) {me : PeerState}
    {party : Party FileName (List UInt8)} (hme : Mirrors net.md5 me (s p.other) party)
    (hreceived : me.received = (s p).received) (hserved : me.served = (s p).served) :
    Refines net.md5 (Function.update s p me) (Function.update w p party) := by
  intro q
  rcases p.eq_or_eq_other q with rfl | rfl
  · rw [Function.update_self, Function.update_self, Function.update_of_ne q.other_ne]
    exact hme
  · rw [Function.update_of_ne p.other_ne, Function.update_of_ne p.other_ne, Side.other_other,
      Function.update_self]
    have hother := h p.other
    rw [Side.other_other] at hother
    exact hother.congr hreceived hserved

theorem scan_refines (h : Refines net.md5 s w) (p : Side) {order : List FileName} {now : UInt64}
    {pad : UInt16} {me : PeerState} (hzero : (net.cfg p).lastSync = 0)
    (hidle : (s p).isIdle = true) (hperm : order.Perm (s p).desktop.keys)
    (hscan : (s p).scan (net.cfg p) order now pad = some me) :
    ∃ w', Step w w' ∧ Refines net.md5 (Function.update s p me) w' := by
  have hmine := h p
  have hin : ∀ name ∈ order, name ∈ (s p).desktop := fun name hname =>
    AList.mem_keys.mpr (hperm.mem_iff.mp hname)
  have hphase : (s p).phase = .idle := by
    cases hphase : (s p).phase <;> simp [PeerState.isIdle, hphase] at hidle ⊢
  have htodo := hmine.todo
  rw [hphase] at htodo
  have hkeys : ∀ k, k ∈ order ↔ ((w p).store k).isSome = true := by
    intro k
    rw [hmine.store, Desktop.data_isSome, hperm.mem_iff, AList.mem_keys]
  refine ⟨_, .list p order htodo (hperm.nodup_iff.mpr (AList.keys_nodup _)) hkeys, ?_⟩
  simp only [PeerState.scan, hzero, collectFiles_listing (net.desktopPath p), Option.bind_eq_bind,
    Option.bind_some, Option.bind_eq_some_iff] at hscan
  obtain ⟨total, -, hscan⟩ := hscan
  have hopened : ((s p).st.report ⟨.uploading, 0, total, ""⟩).sink.refusals = [] :=
    hmine.refusals
  obtain ⟨hok, htaken, hrefusals⟩ := sendHeader_open hopened (helloHeader now pad)
  rw [sendHello, if_pos hok, Option.some.injEq] at hscan
  subst hscan
  have hopen : (s p).isEnded = false := by rw [PeerState.isEnded, hphase]
  have hhello : Pending net.md5 [] false false (helloHeader now pad).toBytes := by
    rw [← List.append_nil (helloHeader now pad).toBytes]
    exact .hello now pad .nothing
  obtain ⟨hbehind, hpending⟩ := hmine.extend hopen { s p with
    phase := .sending (((s p).desktop.listing order).map fun e => e.file.name) total 1
    st := (((s p).st.report ⟨.uploading, 0, total, ""⟩).sendHeader (helloHeader now pad)).2 }
    htaken hhello
  rw [List.append_nil] at hpending
  exact h.update p ⟨hmine.store, ⟨order, names_listing hin, rfl⟩, hmine.arrived, hmine.early,
    hrefusals, hmine.wellFormed, hbehind, hpending⟩ rfl rfl

/-- A packet that is sent is the packet of a file that is there. -/
theorem sendFilePacket_access {md5 : Digest} {total : UInt64} {pad : UInt16} {st st' : SendState}
    {d : Desktop} {name : FileName} (hrefusals : st.sink.refusals = [])
    (hsend : sendFilePacket md5 .update total pad st (d.access name.units) =
      (.returned true, st')) :
    ∃ content, d.data name = some content ∧ st'.sink.refusals = [] ∧
      st'.sink.taken = st.sink.taken ++ copyBytes md5 pad name content := by
  cases hdata : d.data name with
  | none =>
      have hgone : d.access name.units = .gone name.units := by
        rw [Desktop.access, FileName.ofUnits_units, Option.bind_some,
          Option.map_eq_none_iff.mp hdata]
      have hfits : NameFits (.gone name.units) := name.length_wideToUtf8
      rw [hgone, sendFilePacket_of_gone hfits rfl] at hsend
      cases hsend
  | some content =>
      rw [access_eq_holding hdata] at hsend
      obtain ⟨ok, st'', hpacket, hoffered, -⟩ := sendFilePacket_offered md5 total pad st
        (nameFits_holding name content)
        (show (FileName.holding name content).size = some (UInt64.ofNat content.length) from rfl)
      rw [hpacket, Prod.mk.injEq] at hsend
      obtain ⟨-, rfl⟩ := hsend
      obtain ⟨rfl, hrefusals'⟩ := hoffered.refusals_nil hrefusals
      exact ⟨content, rfl, hrefusals', hoffered.taken_of_ok⟩

theorem send_refines (h : Refines net.md5 s w) (p : Side) {pad : UInt16} {me : PeerState}
    (hsend : (s p).send net.md5 pad = some me) :
    ∃ w', Step w w' ∧ Refines net.md5 (Function.update s p me) w' := by
  have hmine := h p
  rw [PeerState.send] at hsend
  split at hsend
  · next file rest total k hphase =>
      have htodo := hmine.todo
      rw [hphase] at htodo
      obtain ⟨names, hnames, htodo⟩ := htodo
      cases names with
      | nil => cases hnames
      | cons name names =>
          obtain ⟨rfl, rfl⟩ := List.cons.inj hnames
          split at hsend
          · next st' hpacket =>
              rw [Option.some.injEq] at hsend
              subst hsend
              obtain ⟨content, hdata, hrefusals, htaken⟩ :=
                sendFilePacket_access hmine.refusals hpacket
              have hopen : (s p).isEnded = false := by rw [PeerState.isEnded, hphase]
              have hname : name ∈ (s p).desktop := Desktop.mem_of_data hdata
              have hcopy : Pending net.md5 [(name, content)] false false
                  (copyBytes net.md5 pad name content) := by
                rw [← List.append_nil (copyBytes net.md5 pad name content)]
                exact .copy pad name content (hmine.wellFormed name hname)
                  (Desktop.length_data hdata) .nothing
              have hstore : (w p).store name = some content := by rw [hmine.store, hdata]
              refine ⟨_, .send p name content names htodo hstore, ?_⟩
              obtain ⟨hbehind, hpending⟩ := hmine.extend hopen { s p with
                phase := .sending (names.map FileName.units) total (k + 1), st := st' }
                htaken hcopy
              refine h.update p ⟨hmine.store, ⟨names, rfl, rfl⟩, hmine.arrived, ?_, hrefusals,
                hmine.wellFormed, hbehind, hpending⟩ rfl rfl
              ext k'
              simp only [Party.send, hmine.early, hmine.arrived, Set.mem_ofPred_eq,
                FileName.ofUnits_units, Option.toList_some, List.mem_append, List.mem_filter,
                List.mem_singleton, decide_not, Bool.not_eq_true', decide_eq_false_iff_not]
              constructor
              · rintro (hin | ⟨rfl, hout⟩)
                · exact .inr hin
                · exact .inl ⟨rfl, hout⟩
              · rintro (⟨rfl, hout⟩ | hin)
                · exact .inr ⟨rfl, hout⟩
                · exact .inl hin
          · cases hsend
  · cases hsend

/-- END is not a step of the exchange. -/
theorem finish_refines (h : Refines net.md5 s w) (p : Side) {pad : UInt16} {me : PeerState}
    (hfinish : (s p).finish pad = some me) :
    Refines net.md5 (Function.update s p me) w := by
  have hmine := h p
  rw [PeerState.finish] at hfinish
  split at hfinish
  · next total k hphase =>
      obtain ⟨-, htaken, hrefusals⟩ := sendHeader_open hmine.refusals
        { opcode := opcodeEnd, pad := pad }
      obtain ⟨-, hme⟩ := Option.ite_none_right_eq_some.mp hfinish
      rw [← Option.some.inj hme, sendEnd]
      have htodo := hmine.todo
      rw [hphase] at htodo
      obtain ⟨names, hnames, htodo⟩ := htodo
      rw [List.map_eq_nil_iff.mp hnames.symm] at htodo
      have hopen : (s p).isEnded = false := by rw [PeerState.isEnded, hphase]
      obtain ⟨hbehind, hpending⟩ := hmine.extend hopen { s p with
        phase := .ended
        st := ((s p).st.sendHeader { opcode := opcodeEnd, pad := pad }).2 }
        htaken (.ending pad)
      rw [List.append_nil] at hpending
      have hme : Mirrors net.md5 { s p with
          phase := .ended
          st := ((s p).st.sendHeader { opcode := opcodeEnd, pad := pad }).2 } (s p.other) (w p) :=
        ⟨hmine.store, htodo, hmine.arrived, hmine.early, hrefusals, hmine.wellFormed, hbehind,
          hpending⟩
      have hupdate := h.update p hme rfl rfl
      rw [Function.update_eq_self] at hupdate
      exact hupdate
  · cases hfinish

/-- One server moves. -/
theorem Refines.receive {md5 : Digest} (p : Side) {me : PeerState}
    {mine yours : Party FileName (List UInt8)} (hme : Mirrors md5 me (s p.other) mine)
    (hyou : Mirrors md5 (s p.other) me yours) :
    Refines md5 (Function.update s p me)
      (Function.update (Function.update w p.other yours) p mine) := by
  intro q
  rcases p.eq_or_eq_other q with rfl | rfl
  · rw [Function.update_self, Function.update_self, Function.update_of_ne q.other_ne]
    exact hme
  · rw [Function.update_of_ne p.other_ne, Function.update_of_ne p.other_ne, Side.other_other,
      Function.update_self, Function.update_self]
    exact hyou

theorem receive_refines (h : Refines net.md5 s w) (p : Side) {conn : Conn} {time : ℤ}
    {me : PeerState} (hreceive : (s p).receive (net.cfg p) (s p.other) conn time = some me) :
    Refines net.md5 (Function.update s p me) w ∨
      ∃ w', Step w w' ∧ Refines net.md5 (Function.update s p me) w' := by
  have hmine := h p
  have hyours := h p.other
  rw [Side.other_other] at hyours
  obtain ⟨hguard, hreceive⟩ := Option.ite_none_right_eq_some.mp hreceive
  simp only [Bool.and_eq_true, Bool.not_eq_true', decide_eq_true_eq] at hguard
  obtain ⟨hserved, hconn⟩ := hguard
  have hpending := hyours.pending
  rw [hserved] at hpending
  have hsame : Function.update (Function.update w p.other (w p.other)) p (w p) = w := by
    rw [Function.update_eq_self, Function.update_eq_self]
  rcases hpending.handlePacket (net.cfg p) ⟨true, true⟩ (s p).received hconn with
    ⟨conn', hpacket, hrest⟩ | ⟨name, content, rest, size, fw, conn', hflight, hwf, hsized,
      hpacket, htarget, hdata, hrest⟩ | ⟨hflight, hended, conn', hpacket⟩ |
      ⟨outcome, conn', hne, hpacket⟩
  · -- HELLO: nothing arrives
    have hsize := (handlePacket_next hpacket).2.1
    rw [hconn] at hsize
    simp only [hpacket, Option.some.injEq] at hreceive
    subst hreceive
    rw [← hserved] at hrest
    have hreceived := Refines.receive (w := w) p (hmine.idle ((s p).received + headerSize)
      (s p).served) (hyours.take rfl hsize hrest)
    left
    rw [← hsame]
    exact hreceived
  · -- a copy arrives
    have hsize := (handlePacket_next hpacket).2.1
    rw [hconn] at hsize
    rw [net.targetDir p] at htarget
    rw [← hdata] at hsized
    have hname : FileName.ofTarget (net.cfg p).desktopPath fw.target = some name := by
      rw [htarget, FileName.ofTarget_join]
    simp only [hpacket, Option.some.injEq, hname, Desktop.write_join _ _ _ htarget hsized]
      at hreceive
    subst hreceive
    rw [← hserved] at hrest
    have hstep := Step.arrive p.other name content rest hflight
    rw [Side.other_other, ← hdata] at hstep
    exact .inr ⟨_, hstep, Refines.receive p (hmine.arrive ((s p).received + size) hwf)
      (hyours.take rfl hsize hrest)⟩
  · -- END: the server is done
    simp only [hpacket, Option.some.injEq] at hreceive
    subst hreceive
    have hclosed : Pending net.md5 (w p.other).flight (s p.other).isEnded true
        (((s p.other).st.sink.taken.drop (s p).received).drop 0) := by
      rw [hflight, hended]
      exact .closed _
    have hreceived := Refines.receive (w := w) p (hmine.idle (s p).received true)
      (hyours.take rfl (Nat.zero_le _) hclosed)
    left
    rw [← hsame]
    exact hreceived
  · -- anything else ends the session
    simp only [hpacket] at hreceive
    rcases outcome with (_ | _) | _
    · cases hreceive
    · exact absurd rfl hne
    · cases hreceive

end Steps

/-! ## The desktops at the end -/

theorem refines_start {md5 : Digest} {initial : Side → Desktop}
    (hnames : ∀ p, ∀ name ∈ initial p, Utf.WellFormed name.units) (limit : Side → ℕ → ℕ) :
    Refines md5 (fun p => .start (initial p) (limit p)) (start fun p => (initial p).data) := by
  intro p
  refine ⟨rfl, rfl, ?_, ?_, rfl, hnames p, le_rfl, .nothing⟩
  · ext name
    simp [start, PeerState.start]
  · ext name
    simp [start, PeerState.start]

/-- A run of the two uploads is a run of the exchange. -/
theorem refines_of_reachable {net : Pairing} (hzero : ∀ p, (net.cfg p).lastSync = 0)
    {initial : Side → Desktop} (hnames : ∀ p, ∀ name ∈ initial p, Utf.WellFormed name.units)
    {s : PairState} (h : (overlapping net initial).Reachable s) :
    ∃ w, Relation.ReflTransGen Step (start fun p => (initial p).data) w ∧
      Refines net.md5 s w := by
  have hinit : ∀ s, (overlapping net initial).init s →
      ∃ w, Relation.ReflTransGen Step (start fun p => (initial p).data) w ∧
        Refines net.md5 s w := by
    rintro s ⟨limit, rfl⟩
    exact ⟨_, .refl, refines_start hnames limit⟩
  apply h.invariant hinit
  rintro s e s' ⟨w, hsteps, hrefines⟩ hstep
  have hone : ∀ s'' : PairState, (∃ w', Step w w' ∧ Refines net.md5 s'' w') →
      ∃ w', Relation.ReflTransGen Step (start fun p => (initial p).data) w' ∧
        Refines net.md5 s'' w' := by
    rintro s'' ⟨w', hmove, hrefines'⟩
    exact ⟨w', hsteps.tail hmove, hrefines'⟩
  cases e with
  | scan p order now pad =>
      obtain ⟨hguard, hmap⟩ := Option.ite_none_right_eq_some.mp hstep
      rw [Bool.and_eq_true, List.isPerm_iff] at hguard
      obtain ⟨me, hscan, rfl⟩ := Option.map_eq_some_iff.mp hmap
      exact hone _ (scan_refines hrefines p (hzero p) hguard.1 hguard.2 hscan)
  | send p pad =>
      obtain ⟨me, hsend, rfl⟩ := Option.map_eq_some_iff.mp hstep
      exact hone _ (send_refines hrefines p hsend)
  | finish p pad =>
      obtain ⟨me, hfinish, rfl⟩ := Option.map_eq_some_iff.mp hstep
      exact ⟨w, hsteps, finish_refines hrefines p hfinish⟩
  | receive p conn time =>
      obtain ⟨me, hreceive, rfl⟩ := Option.map_eq_some_iff.mp hstep
      rcases receive_refines hrefines p hreceive with hstay | hmove
      · exact ⟨w, hsteps, hstay⟩
      · exact hone _ hmove


/-- Both peers have sent the name before anything was stored under it. -/
def PairState.Crossed (s : PairState) (name : FileName) : Prop := ∀ p, name ∈ (s p).early

theorem finished_of_over {md5 : Digest} {s : PairState} {w : World FileName (List UInt8)}
    (h : Refines md5 s w) (hover : s.over = true) : Finished w := by
  simp only [PairState.over, Bool.and_eq_true] at hover
  obtain ⟨⟨⟨hleft, hright⟩, hserved⟩, hserved'⟩ := hover
  intro p
  have hended : (s p).isEnded = true ∧ (s p.other).served = true := by
    cases p with
    | left => exact ⟨hleft, hserved'⟩
    | right => exact ⟨hright, hserved⟩
  have htodo := (h p).todo
  have hpending := (h p).pending
  have hphase : (s p).phase = .ended := by
    have hended := hended.1
    cases hphase : (s p).phase <;> simp [PeerState.isEnded, hphase] at hended ⊢
  rw [hphase] at htodo
  rw [hended.2] at hpending
  exact ⟨htodo, hpending.flight_nil⟩

/-- When both uploads are over, the desktops agree under every name that did not cross,
and have exchanged what they began with under every name that did. -/
theorem overlap_settles (net : Pairing) (hzero : ∀ p, (net.cfg p).lastSync = 0)
    (initial : Side → Desktop) (hnames : ∀ p, ∀ name ∈ initial p, Utf.WellFormed name.units)
    {s : PairState} (h : (overlapping net initial).Reachable s) (hover : s.over = true)
    (name : FileName) :
    (¬PairState.Crossed s name → (s .left).desktop.data name = (s .right).desktop.data name) ∧
      (PairState.Crossed s name →
        ∀ p, (s p.other).desktop.data name = (initial p).data name) := by
  obtain ⟨w, hsteps, hrefines⟩ := refines_of_reachable hzero hnames h
  have hcrossed : PairState.Crossed s name ↔ Exchange.Crossed w name := by
    apply forall_congr'
    intro p
    rw [(hrefines p).early]
    rfl
  have hsettled := settled hsteps (finished_of_over hrefines hover) name
  simp only [(hrefines _).store] at hsettled
  rw [hcrossed]
  exact hsettled

/-- When both uploads are over, the desktops agree under a name exactly unless each peer
sent its own file before the other's was stored and the two differed; then they have been
exchanged. -/
theorem overlap_converges_iff (net : Pairing) (hzero : ∀ p, (net.cfg p).lastSync = 0)
    (initial : Side → Desktop) (hnames : ∀ p, ∀ name ∈ initial p, Utf.WellFormed name.units)
    {s : PairState} (h : (overlapping net initial).Reachable s) (hover : s.over = true)
    (name : FileName) :
    ((s .left).desktop.data name = (s .right).desktop.data name ↔
        ¬(PairState.Crossed s name ∧ (initial .left).data name ≠ (initial .right).data name)) ∧
      (PairState.Crossed s name →
        (s .right).desktop.data name = (initial .left).data name ∧
          (s .left).desktop.data name = (initial .right).data name) := by
  obtain ⟨hagree, hexchanged⟩ := overlap_settles net hzero initial hnames h hover name
  by_cases hcrossed : PairState.Crossed s name
  · have hright : (s .right).desktop.data name = (initial .left).data name :=
      hexchanged hcrossed .left
    have hleft : (s .left).desktop.data name = (initial .right).data name :=
      hexchanged hcrossed .right
    refine ⟨?_, fun _ => ⟨hright, hleft⟩⟩
    rw [hright, hleft, and_iff_right hcrossed, not_not]
    exact eq_comm
  · refine ⟨iff_of_true (hagree hcrossed) fun hboth => hcrossed hboth.1, fun h => ?_⟩
    exact absurd h hcrossed

/-! ## Two overlapping runs -/

/-- A desktop with one file. -/
def oneFile (name : FileName) (content : List UInt8) : Desktop :=
  match File.ofData content 0 with
  | some f => AList.singleton name f
  | none => ∅

/-- The server of `p` takes a packet that arrives in one piece. -/
def take (p : Side) (s : PairState) : OverlapEvent :=
  .receive p (.whole ((s p.other).st.sink.taken.drop (s p).received)) 0

/-- Both list and send before either server takes a packet. -/
def crossingScript (order : Side → List FileName) : List (PairState → OverlapEvent) :=
  [fun _ => .scan .left (order .left) 0 0, fun _ => .scan .right (order .right) 0 0] ++
    (order .left).map (fun _ _ => .send .left 0) ++
    (order .right).map (fun _ _ => .send .right 0) ++
    [fun _ => .finish .left 0, fun _ => .finish .right 0] ++
    (List.replicate ((order .left).length + 2) (take .right) ++
      List.replicate ((order .right).length + 2) (take .left))

/-- Both peers have `a`, with different contents. -/
def conflict : Side → Desktop
  | .left => oneFile nameA [1]
  | .right => oneFile nameA [2]

/-- One peer has a file whose name is not well-formed. -/
def loneSurrogate : Side → Desktop
  | .left => oneFile nameLone [1]
  | .right => ∅

/-- A run of two uploads on connections that take all they are offered. -/
def overlapRun (initial : Side → Desktop) (script : List (PairState → OverlapEvent)) :
    Option PairState :=
  (overlapping sampleNet initial).exec (fun p => .start (initial p) fun _ => 4096) script

theorem reachable_of_overlapRun {initial : Side → Desktop}
    {script : List (PairState → OverlapEvent)} {s : PairState}
    (h : overlapRun initial script = some s) : (overlapping sampleNet initial).Reachable s :=
  System.Reachable.exec (System.ReachableBy.init ⟨_, rfl⟩) h

/-- Whatever the order of the steps, both desktops hold the same contents in the end. -/
def Converges (net : Pairing) (initial : Side → Desktop) : Prop :=
  ∀ s, (overlapping net initial).Reachable s → s.over = true →
    ∀ name, (s .left).desktop.data name = (s .right).desktop.data name

/-- A run that ends with different contents under one name. -/
theorem not_converges_of_run {initial : Side → Desktop}
    (script : List (PairState → OverlapEvent)) (name : FileName)
    (h : (overlapRun initial script).map (fun s => s.over &&
      (s .left).desktop.data name != (s .right).desktop.data name) = some true) :
    ¬Converges sampleNet initial := by
  intro hconverges
  obtain ⟨s, hs, hdiffer⟩ := Option.map_eq_some_iff.mp h
  rw [Bool.and_eq_true, bne_iff_ne] at hdiffer
  exact hdiffer.2 (hconverges s (reachable_of_overlapRun hs) hdiffer.1 name)

/-- Two different files of one name change places; a file whose name is not well-formed
arrives under another name. -/
theorem overlap_diverges :
    ¬(∀ net : Pairing, (∀ p, (net.cfg p).lastSync = 0) → ∀ initial, Converges net initial) ∧
      ¬Converges sampleNet conflict ∧ ¬Converges sampleNet loneSurrogate := by
  have hconflict : ¬Converges sampleNet conflict :=
    not_converges_of_run (crossingScript fun _ => [nameA]) nameA (by decide +kernel)
  have hsurrogate : ¬Converges sampleNet loneSurrogate :=
    not_converges_of_run (crossingScript fun p => if p = .left then [nameLone] else []) nameLone
      (by decide +kernel)
  exact ⟨fun h => hconflict (h sampleNet (fun _ => rfl) conflict), hconflict, hsurrogate⟩

/-- The run that swaps the two files named `a`. -/
theorem overlap_converges_iff_conflict :
    ∃ s, overlapRun conflict (crossingScript fun _ => [nameA]) = some s ∧
      ((s .left).desktop.data nameA = (s .right).desktop.data nameA ↔
        ¬(PairState.Crossed s nameA ∧
          (conflict .left).data nameA ≠ (conflict .right).data nameA)) := by
  have hrun : (overlapRun conflict (crossingScript fun _ => [nameA])).map PairState.over =
      some true := by decide +kernel
  obtain ⟨s, hs, hover⟩ := Option.map_eq_some_iff.mp hrun
  have hnames : ∀ p, ∀ name ∈ conflict p, Utf.WellFormed name.units := by
    intro p name hname
    have hkey : name ∈ (conflict p).keys := AList.mem_keys.mpr hname
    have hall : ∀ p : Side, ∀ name ∈ (conflict p).keys, Utf.WellFormed name.units := by
      intro p
      cases p <;> decide +kernel
    exact hall p name hkey
  exact ⟨s, hs, (overlap_converges_iff sampleNet (fun _ => rfl) conflict hnames
    (reachable_of_overlapRun hs) hover nameA).1⟩

end DesktopSync.Analysis
