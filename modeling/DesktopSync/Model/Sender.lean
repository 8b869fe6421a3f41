import DesktopSync.Computation.ChunkedSink
import DesktopSync.Model.Packet

/-!
# The sending side

`SendAll`, `CollectFiles`, `SendHello`, `SendFilePacket`, `SendEnd` and `SyncUploadOnce`
of `sync_dll.cpp`. The socket is a `Sink`: it takes what it likes of each call and
refuses the calls it refuses. The file system answers each look at a file on its own,
because the file can change or be locked between two looks. `md5` is a parameter: the
digest is put on the wire and nobody reads it.

Three fields are ghosts of the source: `headers`, where on the wire each header began,
and the results of the packet functions, which `SyncUploadOnce` drops.
-/

set_option autoImplicit false

namespace DesktopSync.Model

open ChunkedSink

/-- The two values by which `UDT::send` refuses a call. -/
inductive SendRefusal where
  | timedOut
  | failed
  deriving DecidableEq

/-- The value itself. -/
def SendRefusal.code : SendRefusal → ℤ
  | .timedOut => 0
  | .failed => udtError

/-- The sending end of a UDT socket. -/
abbrev Wire := Sink UInt8 SendRefusal

/-- `UDT::send(s, buf, len, 0)`
SOURCE: udt4/src/core.cpp:1013-1120 -/
def udtSend (s : Wire) (buf : List UInt8) (len : ℤ) : ℤ × Wire :=
  if len ≤ 0 then (0, s)
  else
    match s.offer (buf.take len.toNat) with
    | (.inl refusal, s') => (refusal.code, s')
    | (.inr n, s') => (n, s')

/-- A call that `SendAll` goes on after took a positive number of bytes. -/
theorem udtSend_pos {s : Wire} {buf : List UInt8} {len : ℤ}
    (h : ¬((udtSend s buf len).1 = udtError ∨ (udtSend s buf len).1 = 0)) :
    0 < (udtSend s buf len).1.toNat := by
  unfold udtSend at h ⊢
  split at h
  · simp at h
  · split at h
    · next refusal s' heq =>
        rcases refusal with _ | _ <;> simp [SendRefusal.code] at h
    · next n s' heq =>
        rw [if_neg ‹_›]
        simp only [udtError] at h ⊢
        omega

/-- SOURCE: sync_dll.cpp:63-73 -/
def sendAll (s : Wire) (buf : List UInt8) : Bool × Wire :=
  if buf = [] then (true, s)
  else
    let sent := udtSend s buf (toInt buf.length)
    if sent.1 = udtError ∨ sent.1 = 0 then (false, sent.2)
    else sendAll sent.2 (buf.drop sent.1.toNat)
termination_by buf.length
decreasing_by
  have hpos := udtSend_pos ‹_›
  have hbuf := List.length_pos_iff.mpr ‹buf ≠ []›
  rw [List.length_drop]
  omega

/-! ## Files and what is done with them -/

/-- What the file system answers while one file is sent. -/
structure FileAccess where
  /-- `path.filename()` -/
  name : WString
  /-- `std::filesystem::file_size(path)`; `none` where it throws. -/
  size : Option UInt64
  /-- The bytes `ComputeMd5` reads; `none` where the file does not open. -/
  hashed : Option (List UInt8)
  /-- The bytes the payload stream reads; `none` where the file does not open. -/
  streamed : Option (List UInt8)

/-- A directory entry, and what the file system answers when the file is sent. -/
structure DirEntry where
  file : FileAccess
  regular : Bool
  /-- 100 ns ticks of the file clock, since 1601. -/
  lastWriteTime : ℤ
  /-- `file_size` when the sizes are added up; `none` where it throws. -/
  listedSize : Option UInt64

/-- The ticks of the file clock in a second. -/
def ticksPerSecond : ℤ := 10000000

/-- `CollectFiles` takes the entry.
SOURCE: sync_dll.cpp:102-108 -/
def DirEntry.collected (lastSync : UInt64) (e : DirEntry) : Bool :=
  e.regular &&
    (lastSync == 0 || lastSync < UInt64.ofInt (e.lastWriteTime.tdiv ticksPerSecond))

/-- SOURCE: sync_dll.cpp:95-111 -/
def collectFiles (root : WString) (lastSync : UInt64) (listing : Option (List DirEntry)) :
    Option (List DirEntry) :=
  if root = [] then some [] else listing.map (List.filter (DirEntry.collected lastSync))

/-- A digest of md5's size. -/
abbrev Digest := List UInt8 → List.Vector UInt8 16

/-- SOURCE: sync_dll.cpp:75-93 -/
def computeMd5 (md5 : Digest) (f : FileAccess) : Option (List.Vector UInt8 16) :=
  if f.name = [] then none else f.hashed.map md5

/-- What a run of packet functions leaves behind. -/
structure SendState where
  sink : Wire
  /-- `sentBytes` -/
  sent : UInt64
  reports : List TrayReport
  /-- Where on the wire each header began. -/
  headers : List ℕ

/-- `SendAll` on the connection. -/
def SendState.send (st : SendState) (buf : List UInt8) : Bool × SendState :=
  ((sendAll st.sink buf).1, { st with sink := (sendAll st.sink buf).2 })

/-- `SendAll` of a header. -/
def SendState.sendHeader (st : SendState) (hdr : PacketHeader) : Bool × SendState :=
  { st with headers := st.headers ++ [st.sink.taken.length] }.send hdr.toBytes

/-- SOURCE: sync_dll.cpp:43-49 -/
def SendState.report (st : SendState) (r : TrayReport) : SendState :=
  { st with reports := st.reports ++ [r] }

/-- SOURCE: sync_dll.cpp:115-117 -/
def helloHeader (ts : UInt64) (pad : UInt16) : PacketHeader :=
  { opcode := opcodeHello, pad := pad, fileSize := ts }

/-- SOURCE: sync_dll.cpp:113-119 -/
def sendHello (st : SendState) (ts : UInt64) (pad : UInt16) : Bool × SendState :=
  st.sendHeader (helloHeader ts pad)

/-- `char buf[4096]` -/
def blockSize : ℕ := 4096

/-- The payload loop of `SendFilePacket`: `data` is what the file stream has still to
yield, and a short read ends it.
SOURCE: sync_dll.cpp:141-153 -/
def sendPayload (total : UInt64) (st : SendState) (data : List UInt8) : Bool × SendState :=
  let block := data.take blockSize
  if block = [] then (true, st)
  else
    let sent := st.send block
    if sent.1 then
      let st' := { sent.2 with sent := sent.2.sent + UInt64.ofNat block.length }
      let st'' := st'.report ⟨.uploading, st'.sent, total, ""⟩
      if block.length < blockSize then (true, st'')
      else sendPayload total st'' (data.drop blockSize)
    else (false, sent.2)
termination_by data.length
decreasing_by
  have hblock : ¬(data.take blockSize).length < blockSize := ‹_›
  rw [List.length_take, blockSize] at hblock
  rw [List.length_drop, blockSize]
  omega

/-- SOURCE: sync_dll.cpp:127-135 -/
def fileHeader (md5 : Digest) (type : ChangeType) (pad : UInt16) (f : FileAccess)
    (size : UInt64) : PacketHeader where
  opcode := opcodeFile
  type := type.toUInt16
  pad := pad
  pathLen := UInt32.ofNat (wideToUtf8 f.name).length
  fileSize := size
  md5 := (computeMd5 md5 f).getD (List.Vector.replicate 16 0)

/-- `1024 * 64` -/
def maxPathBytes : ℕ := 65536

/-- SOURCE: sync_dll.cpp:121-155 -/
def sendFilePacket (md5 : Digest) (type : ChangeType) (total : UInt64) (pad : UInt16)
    (st : SendState) (f : FileAccess) : CallResult × SendState :=
  let utf8 := wideToUtf8 f.name
  if maxPathBytes < utf8.length then (.returned false, st)
  else
    match f.size with
    | none => (.threw, st)
    | some size =>
        match st.sendHeader (fileHeader md5 type pad f size) with
        | (false, st) => (.returned false, st)
        | (true, st) =>
            match st.send utf8 with
            | (false, st) => (.returned false, st)
            | (true, st) =>
                match f.streamed with
                | none => (.returned false, st)
                | some data =>
                    let payload := sendPayload total st data
                    (.returned payload.1, payload.2)

/-- SOURCE: sync_dll.cpp:157-162 -/
def sendEnd (st : SendState) (pad : UInt16) : Bool × SendState :=
  st.sendHeader { opcode := opcodeEnd, pad := pad }

/-- The loop over the files, which the first failure ends; `k` numbers the packets.
SOURCE: sync_dll.cpp:278-285 -/
def sendFiles (md5 : Digest) (total : UInt64) (pads : ℕ → UInt16) :
    ℕ → SendState → List FileAccess → List CallResult × SendState
  | _, st, [] => ([], st)
  | k, st, f :: rest =>
      match sendFilePacket md5 .update total (pads k) st f with
      | (.returned true, st) =>
          let tail := sendFiles md5 total pads (k + 1) st rest
          (.returned true :: tail.1, tail.2)
      | (.returned false, st) =>
          ([.returned false], st.report ⟨.error, st.sent, total, "send failed"⟩)
      | (.threw, st) => ([.threw], st)

/-- A call of `SyncUploadOnce`: how it ended, the files `CollectFiles` returned, what the
packet functions returned, and the state they left. -/
structure Upload where
  result : CallResult
  files : List FileAccess
  hello : Bool
  packets : List CallResult
  ending : Bool
  st : SendState

/-- HELLO, the files, END.
SOURCE: sync_dll.cpp:276-293 -/
def uploadFiles (md5 : Digest) (now total : UInt64) (pads : ℕ → UInt16) (st : SendState)
    (files : List FileAccess) : Upload :=
  let hello := sendHello st now (pads 0)
  let packets := sendFiles md5 total pads 1 hello.2 files
  if .threw ∈ packets.1 then ⟨.threw, files, hello.1, packets.1, false, packets.2⟩
  else
    let ending := sendEnd packets.2 (pads (files.length + 1))
    ⟨.returned true, files, hello.1, packets.1, ending.1,
      ending.2.report ⟨.completed, total, total, ""⟩⟩

/-- What a call of `SyncUploadOnce` finds around it. -/
structure UploadEnv where
  /-- `getaddrinfo` of the peer's address. -/
  resolves : List UInt8 → Bool
  /-- `UDT::connect` -/
  connects : Bool
  /-- The entries of the desktop directory; `none` where iterating over it throws. -/
  listing : Option (List DirEntry)
  /-- `NowSec()` -/
  now : UInt64
  /-- The alignment bytes of each header. -/
  pads : ℕ → UInt16
  md5 : Digest

/-- The sizes added up; `none` where one of them throws. -/
def totalSize (entries : List DirEntry) : Option UInt64 :=
  entries.foldlM (fun total e => e.listedSize.map (total + ·)) 0

/-- A call that ends before it sends anything. -/
def Upload.early (result : CallResult) (st : SendState) : Upload :=
  ⟨result, [], false, [], false, st⟩

/-- SOURCE: sync_dll.cpp:249-294 -/
def syncUploadOnce (cfg : Option IniState) (peerIp : Option WString) (env : UploadEnv)
    (sink : Wire) : Upload :=
  let st : SendState := ⟨sink, 0, [], []⟩
  match cfg, peerIp with
  | some cfg, some peerIp =>
      if !env.resolves (wideToUtf8 peerIp) then .early (.returned false) st
      else if !env.connects then
        .early (.returned false) (st.report ⟨.error, 0, 0, "connect failed"⟩)
      else
        match collectFiles cfg.desktopPath cfg.lastSync env.listing with
        | none => .early .threw st
        | some entries =>
            match totalSize entries with
            | none => .early .threw st
            | some total =>
                uploadFiles env.md5 env.now total env.pads (st.report ⟨.uploading, 0, total, ""⟩)
                  (entries.map DirEntry.file)
  | _, _ => .early (.returned false) st

end DesktopSync.Model
