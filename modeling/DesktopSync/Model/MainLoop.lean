import DesktopSync.Computation.TransitionSystem
import DesktopSync.Model.Desktop

/-!
# The main loop

The `for` loop of `wmain` with `SyncUploadOnce` taken apart: where it waits, where it
connects, where it lists the desktop, and for each file where it looks at the size, opens
the stream and reads the next block. Between any two of these the desktop may be edited,
time may pass and the trigger may fire. An edit is anything that writes a file of the
desktop; the server thread is one more writer.

Four fields are ghosts: `log` numbers the edits, `version` is the edit that made what the
desktop holds under a name, `session` are the packets of the present session that went
out, and `delivered` those of the sessions that were intact up to their END.
-/

set_option autoImplicit false

namespace DesktopSync.Model

open TransitionSystem

/-- An edit: what it made of a file, and when by the clock that `NowSec` reads. -/
structure Edit where
  name : FileName
  data : List UInt8
  time : UInt64

/-- A FILE packet that went out: the size it announced, the payload behind it, and the
edit that had made the file when the payload was complete. -/
structure Delivery where
  name : FileName
  size : UInt64
  payload : List UInt8
  version : ℕ

/-- Where the loop is. -/
inductive LoopPhase where
  | waiting
  | connecting
  | scanning
  /-- At the head of the loop over the files. -/
  | sending (files : List FileName) (total : UInt64)
  /-- Header and path of a file are out. -/
  | opening (name : FileName) (size : UInt64) (files : List FileName) (total : UInt64)
  /-- Its stream is open, and `payload` is out. -/
  | reading (name : FileName) (size : UInt64) (payload : List UInt8) (files : List FileName)
      (total : UInt64)
  /-- A file failed. -/
  | ending (total : UInt64)
  /-- `SyncUploadOnce` has returned. -/
  | stamping (ok : Bool)
  /-- `cfg.lastSync` is stored, the INI is not. -/
  | saving (ok : Bool)
  | resting
  /-- An exception has left `wmain`. -/
  | crashed
  deriving DecidableEq

structure LoopState where
  phase : LoopPhase
  /-- `cfg.lastSync` -/
  lastSync : UInt64
  /-- `last_sync` in the INI. -/
  iniLastSync : UInt64
  desktop : Desktop
  /-- `g_triggerEvent` is set. -/
  triggered : Bool
  /-- The file clock, in ticks since 1601. -/
  clock : ℤ
  st : SendState
  /-- Every `SendAll` of the present session has succeeded. -/
  intact : Bool
  session : List Delivery
  delivered : List Delivery
  log : List Edit
  version : FileName → ℕ

inductive LoopEvent where
  /-- Somebody writes a file and leaves it with that last write time. -/
  | edit (name : FileName) (data : List UInt8) (lastWriteTime : ℤ)
  | remove (name : FileName)
  | tick (ticks : ℕ)
  | trigger
  | wake
  | connect (resolves connects : Bool) (sink : Wire)
  /-- `listed`: neither listing the desktop nor adding up the sizes throws. -/
  | scan (order : List FileName) (listed : Bool) (pad : UInt16)
  /-- `sized`: `file_size` does not throw; `hashed`: the file opens for `ComputeMd5`. -/
  | header (sized hashed : Bool) (pad : UInt16)
  /-- `opens`: the file opens for its payload. -/
  | openFile (opens : Bool)
  | readBlock
  | finish (pad : UInt16)
  | stamp
  | save
  | rest

/-- What the loop runs with. -/
structure LoopConfig where
  cfg : IniState
  desktopPath : cfg.desktopPath ≠ []
  md5 : Digest

/-- The part of `SendFilePacket` before it opens the file.
SOURCE: sync_dll.cpp:123-139 -/
def sendFileFront (md5 : Digest) (type : ChangeType) (pad : UInt16) (st : SendState)
    (f : FileAccess) : CallResult × SendState :=
  let utf8 := wideToUtf8 f.name
  if maxPathBytes < utf8.length then (.returned false, st)
  else
    match f.size with
    | none => (.threw, st)
    | some size =>
        match st.sendHeader (fileHeader md5 type pad f size) with
        | (false, st) => (.returned false, st)
        | (true, st) => (.returned (st.send utf8).1, (st.send utf8).2)

/-- One block of a payload.
SOURCE: sync_dll.cpp:148-152 -/
def sendBlock (total : UInt64) (st : SendState) (block : List UInt8) : Bool × SendState :=
  let sent := st.send block
  if sent.1 then
    let st' := { sent.2 with sent := sent.2.sent + UInt64.ofNat block.length }
    (true, st'.report ⟨.uploading, st'.sent, total, ""⟩)
  else (false, sent.2)

namespace LoopState

/-- The next block of a file that has been read up to `offset`. -/
def block (s : LoopState) (name : FileName) (offset : ℕ) : List UInt8 :=
  (((s.desktop.data name).getD []).drop offset).take blockSize

/-- Somebody writes a file. -/
def edit (s : LoopState) (name : FileName) (f : File) : LoopState :=
  { s with
    desktop := s.desktop.insert name f
    log := s.log ++ [⟨name, f.data, nowSec s.clock⟩]
    version := Function.update s.version name s.log.length }

/-- The file is open for reading, and Windows keeps it from being removed. -/
def holds (s : LoopState) (name : FileName) : Bool :=
  match s.phase with
  | .reading current _ _ _ _ => current == name
  | _ => false

/-- A file failed: the loop over the files ends.
SOURCE: sync_dll.cpp:280-284 -/
def failed (s : LoopState) (st : SendState) (total : UInt64) : LoopState :=
  { s with
    phase := .ending total
    st := st.report ⟨.error, st.sent, total, "send failed"⟩
    intact := false }

/-- The packet of a file is out. -/
def sentFile (s : LoopState) (st : SendState) (d : Delivery) (files : List FileName)
    (total : UInt64) : LoopState :=
  { s with phase := .sending files total, st := st, session := d :: s.session }

/-- SOURCE: sync_dll.cpp:271-277 -/
def scan (cfg : IniState) (s : LoopState) (order : List FileName) (listed : Bool)
    (pad : UInt16) : LoopState :=
  let listing := if listed then some (s.desktop.listing order) else none
  match collectFiles cfg.desktopPath s.lastSync listing with
  | none => { s with phase := .crashed }
  | some entries =>
      match totalSize entries with
      | none => { s with phase := .crashed }
      | some total =>
          let hello := sendHello (s.st.report ⟨.uploading, 0, total, ""⟩) (nowSec s.clock) pad
          { s with
            phase := .sending (entries.filterMap fun e => FileName.ofUnits e.file.name) total
            st := hello.2
            intact := hello.1
            session := [] }

/-- SOURCE: sync_dll.cpp:123-139 -/
def header (md5 : Digest) (s : LoopState) (sized hashed : Bool) (pad : UInt16)
    (name : FileName) (files : List FileName) (total : UInt64) : LoopState :=
  let found := s.desktop.access name.units
  let file := { found with
    size := if sized then found.size else none
    hashed := if hashed then found.hashed else none }
  match sendFileFront md5 .update pad s.st file with
  | (.threw, _) => { s with phase := .crashed }
  | (.returned false, st) => s.failed st total
  | (.returned true, st) =>
      { s with phase := .opening name (file.size.getD 0) files total, st := st }

/-- SOURCE: sync_dll.cpp:143-154 -/
def readBlock (s : LoopState) (name : FileName) (size : UInt64) (payload : List UInt8)
    (files : List FileName) (total : UInt64) : LoopState :=
  let block := s.block name payload.length
  if block = [] then s.sentFile s.st ⟨name, size, payload, s.version name⟩ files total
  else
    let sent := sendBlock total s.st block
    if sent.1 then
      if block.length < blockSize then
        s.sentFile sent.2 ⟨name, size, payload ++ block, s.version name⟩ files total
      else { s with phase := .reading name size (payload ++ block) files total, st := sent.2 }
    else s.failed sent.2 total

/-- SOURCE: sync_dll.cpp:287-293 -/
def finish (s : LoopState) (pad : UInt16) (total : UInt64) : LoopState :=
  let ending := sendEnd s.st pad
  { s with
    phase := .stamping true
    st := ending.2.report ⟨.completed, total, total, ""⟩
    delivered := if s.intact && ending.1 then s.session ++ s.delivered else s.delivered
    session := [] }

end LoopState

/-- SOURCE: desktopsync_main.cpp:53-72, sync_dll.cpp:249-294 -/
def loopStep (loop : LoopConfig) (s : LoopState) (e : LoopEvent) : Option LoopState :=
  match e, s.phase with
  | .edit name data lastWriteTime, _ => (File.ofData data lastWriteTime).map (s.edit name)
  | .remove name, _ =>
      if s.holds name then none else some { s with desktop := s.desktop.erase name }
  | .tick ticks, _ =>
      if s.clock + ticks < 2 ^ 63 then some { s with clock := s.clock + ticks } else none
  | .trigger, _ => some { s with triggered := true }
  | .wake, .waiting =>
      if s.triggered then some { s with phase := .connecting, triggered := false } else none
  | .connect resolves connects sink, .connecting =>
      if resolves && connects then
        some { s with phase := .scanning, st := ⟨sink, 0, [], []⟩ }
      else some { s with phase := .stamping false }
  | .scan order listed pad, .scanning =>
      if order.isPerm s.desktop.keys then some (s.scan loop.cfg order listed pad) else none
  | .header sized hashed pad, .sending (name :: files) total =>
      some (s.header loop.md5 sized hashed pad name files total)
  | .openFile opens, .opening name size files total =>
      if opens && decide (name ∈ s.desktop) then
        some { s with phase := .reading name size [] files total }
      else some (s.failed s.st total)
  | .readBlock, .reading name size payload files total =>
      some (s.readBlock name size payload files total)
  | .finish pad, .sending [] total => some (s.finish pad total)
  | .finish pad, .ending total => some (s.finish pad total)
  | .stamp, .stamping ok => some { s with phase := .saving ok, lastSync := nowSec s.clock }
  | .save, .saving ok =>
      some { s with phase := if ok then .resting else .waiting, iniLastSync := s.lastSync }
  | .rest, .resting => some { s with phase := .waiting }
  | _, _ => none

/-! ## What the watermark promises -/

/-- The payload is what an edit made of the file, and the header announced its size. -/
structure Delivery.Whole (log : List Edit) (d : Delivery) : Prop where
  made : ∃ time, log[d.version]? = some ⟨d.name, d.payload, time⟩
  size : d.size = UInt64.ofNat d.payload.length

/-- The file has been delivered in full in the version `v` or a later one. -/
def LoopState.DeliveredSince (s : LoopState) (name : FileName) (v : ℕ) : Prop :=
  ∃ d ∈ s.delivered, d.name = name ∧ v ≤ d.version ∧ d.Whole s.log

/-- Every edit up to the time `t` to a file that still exists has been delivered. -/
def LoopState.Sound (s : LoopState) (t : UInt64) : Prop :=
  ∀ (v : ℕ) (e : Edit), s.log[v]? = some e → e.time ≤ t → e.name ∈ s.desktop →
    s.DeliveredSince e.name v

/-- The value that a step stores as `cfg.lastSync` or in the INI. -/
def LoopEvent.stored (s' : LoopState) : LoopEvent → Option UInt64
  | .stamp => some s'.lastSync
  | .save => some s'.iniLastSync
  | _ => none

/-- The loop before its first trigger: each file was made by a known edit, the latest one
of that name, and the `last_sync` found in the INI is not ahead of the clock and leaves out
only files that have been delivered. -/
structure LoopState.Starts (s : LoopState) : Prop where
  waiting : s.phase = .waiting
  epoch : unixEpoch * ticksPerSecond ≤ s.clock
  range : s.clock < 2 ^ 63
  lastSync : s.lastSync ≤ nowSec s.clock
  made : ∀ name f, s.desktop.lookup name = some f →
    ∃ time, s.log[s.version name]? = some ⟨name, f.data, time⟩
  latest : ∀ (v : ℕ) (e : Edit), s.log[v]? = some e → e.name ∈ s.desktop →
    v ≤ s.version e.name
  collected : ∀ name f, s.desktop.lookup name = some f →
    (f.entry name).collected s.lastSync = true ∨ s.DeliveredSince name (s.version name)

/-- The runs of `wmain`. -/
def mainLoop (loop : LoopConfig) : System LoopState LoopEvent where
  init := LoopState.Starts
  step := loopStep loop

end DesktopSync.Model
