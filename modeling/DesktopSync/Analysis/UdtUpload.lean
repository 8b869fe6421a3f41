import DesktopSync.Analysis.RoundTrip
import DesktopSync.Analysis.Udt

/-!
# An upload over UDT

The files of an upload are the bytes of a stream, and UDT carries a stream: whatever the
network does, a peer whose disk refuses nothing stores the files that were sent, in their
order, as far as the stream has come (`stored_of_sent`), and it can always come to its end
(`exists_stored`).
-/

set_option autoImplicit false

namespace DesktopSync.Analysis

open DesktopSync.Model

variable {o : UdtOptions} {isn lag : ℤ} {lifetime : ℕ} {c : Udt}

/-- What an upload of these files hands over to a connection that refuses nothing. -/
def uploaded (md5 : Digest) (now total : UInt64) (pads : ℕ → UInt16) (limit : ℕ → ℕ)
    (files : List (WString × List UInt8)) : List UInt8 :=
  (uploadFiles md5 now total pads (healthy limit) (files.map steadyFile)).st.sink.taken

/-- The whole stream of an upload is stored file by file. -/
theorem handleIncoming_uploaded (md5 : Digest) (now total : UInt64) (pads : ℕ → UInt16)
    (limit : ℕ → ℕ) {files : List (WString × List UInt8)} (hfiles : ∀ f ∈ files, Portable f)
    (cfg : IniState) (disk : ℕ → StoreReply) {conn : Conn}
    (hconn : conn.toList = uploaded md5 now total pads limit files) :
    (handleIncoming cfg disk conn).result = .returned true ∧
      (handleIncoming cfg disk conn).writes.map (fun w => (w.fileName, w.data)) = files := by
  have hwhole : ∀ f ∈ files.map steadyFile, SentWhole f := fun f hf => by
    obtain ⟨g, hg, rfl⟩ := List.mem_map.mp hf
    exact (hfiles g hg).sentWhole
  have hopen : (healthy limit).sink.refusals = [] := rfl
  have htaken := (uploadFiles_open md5 now total pads hopen fun f hf => (hwhole f hf).sendable).2
  have hnames : ∀ f ∈ files, (utf8ToWide (wireName (steadyFile f)),
      (steadyFile f).streamed.getD []) = f := fun f hf =>
    Prod.ext (utf8ToWide_wideToUtf8 f.1 (hfiles f hf).wellFormed (hfiles f hf).noNul) rfl
  have hbytes : conn.toList = uploadBytes md5 now pads (files.map steadyFile) ++ [] := by
    rw [List.append_nil]
    exact hconn.trans htaken
  obtain ⟨hresult, -, hwrites⟩ := handleIncoming_upload md5 now pads hwhole cfg disk hbytes
  refine ⟨hresult, ?_⟩
  rw [hwrites, writesOf_packetItems, List.map_map]
  exact (List.map_congr_left hnames).trans (List.map_id files)

/-- A session that has ended stores nothing more when more comes. -/
theorem handleIncoming_ended (cfg : IniState) (disk : ℕ → StoreReply) {conn conn' : Conn}
    (hlonger : conn.toList <+: conn'.toList)
    (htrue : (handleIncoming cfg disk conn).result = .returned true) :
    (handleIncoming cfg disk conn').writes = (handleIncoming cfg disk conn).writes := by
  obtain ⟨rest, hrest⟩ := hlonger
  rw [handleIncoming_true_iff] at htrue
  rw [handleIncoming_writes, handleIncoming_writes, filePackets, filePackets, ← hrest,
    wireFormat.parse_append_of_some 0 _ rest _ htrue]

/-- Everything a session stores is there, on a disk that refuses nothing. -/
theorem handleIncoming_stored (cfg : IniState) {disk : ℕ → StoreReply}
    (hdisk : ∀ k, disk k = ⟨true, true⟩) (conn : Conn) :
    ∀ w ∈ (handleIncoming cfg disk conn).writes,
      w.stored = true ∧ w.target = WindowsPath.join (targetDirOf cfg) w.fileName := by
  rw [handleIncoming_writes]
  exact writesOf_stored cfg hdisk 0 _

/-- The sample files in four pieces, of which the first ends in the header of the second file. -/
def uploadPieces : List (List UInt8) :=
  [sampleStream.take 100, (sampleStream.drop 100).take 30, (sampleStream.drop 130).take 20,
    sampleStream.drop 150]

/-- The first piece has been read. -/
def uploadUdt : Udt := (sampleExec (sampleRun uploadPieces 4096)).get (by decide +kernel)

/-- It is reached in a run. -/
theorem uploadUdt_reachable :
    (Udt.system .default sampleIsn).ReachableBy (fun c e => c.Fresh (2 ^ 28) (2 ^ 29) e)
      uploadUdt :=
  reachable_of_sampleExec (Option.some_get _).symm

/-- The upload was handed over in it. -/
theorem uploadUdt_sent :
    uploadUdt.sent = uploaded sampleMd5 0 5 (fun _ => 0) (fun _ => 0) sampleFiles := by
  have hsendable : ∀ f ∈ sampleFiles.map steadyFile, Sendable f := fun f hf => by
    obtain ⟨g, hg, rfl⟩ := List.mem_map.mp hf
    exact (sampleFiles_portable g hg).sentWhole.sendable
  have hopen : (healthy fun _ => 0).sink.refusals = [] := rfl
  have htaken := (uploadFiles_open sampleMd5 0 5 (fun _ => 0) hopen hsendable).2
  have hsent : uploadUdt.sent = sampleStream := by decide +kernel
  exact hsent.trans htaken.symm

/-- In every run in which nothing but the upload is sent, what the session writes are the first
of the files that were sent, with their names and contents; the disk stores them, and a session
that ends well has stored them all. -/
theorem stored_of_sent (hb : Bounded o isn lifetime lag)
    (h : (Udt.system o isn).ReachableBy (fun c e => c.Fresh lifetime lag e) c)
    (md5 : Digest) (now total : UInt64) (pads : ℕ → UInt16) (limit : ℕ → ℕ)
    {files : List (WString × List UInt8)} (hfiles : ∀ f ∈ files, Portable f)
    (hsent : c.sent <+: uploaded md5 now total pads limit files) (cfg : IniState)
    {disk : ℕ → StoreReply} (hdisk : ∀ k, disk k = ⟨true, true⟩) {conn : Conn}
    (hconn : conn.toList = c.received) :
    (handleIncoming cfg disk conn).writes.map (fun w => (w.fileName, w.data)) <+: files ∧
      (∀ w ∈ (handleIncoming cfg disk conn).writes,
        w.stored = true ∧ w.target = WindowsPath.join (targetDirOf cfg) w.fileName) ∧
      ((handleIncoming cfg disk conn).result = .returned true →
        (handleIncoming cfg disk conn).writes.map (fun w => (w.fileName, w.data)) = files) := by
  obtain ⟨s, hinv, hrep⟩ := UdtRep.of_reachable hb h
  have hlonger : conn.toList <+:
      (ChunkedSource.Source.whole (uploaded md5 now total pads limit files)).toList := by
    rw [hconn, ChunkedSource.Source.toList_whole]
    exact hrep.isPrefix_sent.trans hsent
  obtain ⟨-, hall⟩ := handleIncoming_uploaded md5 now total pads limit hfiles cfg disk
    (ChunkedSource.Source.toList_whole _)
  refine ⟨?_, handleIncoming_stored cfg hdisk conn, ?_⟩
  · have hwrites := (writes_of_longer cfg disk hlonger).map fun w => (w.fileName, w.data)
    rwa [hall] at hwrites
  · intro htrue
    rw [← handleIncoming_ended cfg disk hlonger htrue]
    exact hall

/-- In that run, where a file was received so far. -/
theorem stored_of_sent_sample :
    let session := handleIncoming sampleCfg steadyDisk (.whole uploadUdt.received)
    session.writes.map (fun w => (w.fileName, w.data)) <+: sampleFiles ∧
      (∀ w ∈ session.writes,
        w.stored = true ∧ w.target = WindowsPath.join (targetDirOf sampleCfg) w.fileName) ∧
      (session.result = .returned true →
        session.writes.map (fun w => (w.fileName, w.data)) = sampleFiles) :=
  stored_of_sent bounded_sampleIsn uploadUdt_reachable sampleMd5 0 5 (fun _ => 0) (fun _ => 0)
    sampleFiles_portable (uploadUdt_sent ▸ List.prefix_rfl) sampleCfg (fun _ => rfl)
    (ChunkedSource.Source.toList_whole _)

/-- An upload that was handed over can always be received to its end, and stored. -/
theorem exists_stored (hb : Bounded o isn lifetime lag) (hlifetime : 1 ≤ lifetime)
    (h : (Udt.system o isn).ReachableBy (fun c e => c.Fresh lifetime lag e) c)
    (hlag : c.acked - c.heard + o.rcvBufSize ≤ lag) (md5 : Digest) (now total : UInt64)
    (pads : ℕ → UInt16) (limit : ℕ → ℕ) {files : List (WString × List UInt8)}
    (hfiles : ∀ f ∈ files, Portable f)
    (hsent : c.sent = uploaded md5 now total pads limit files) (cfg : IniState)
    {disk : ℕ → StoreReply} (hdisk : ∀ k, disk k = ⟨true, true⟩) :
    ∃ c', Relation.ReflTransGen (Draining lifetime lag) c c' ∧
      ∀ conn : Conn, conn.toList = c'.received →
        (handleIncoming cfg disk conn).result = .returned true ∧
          (handleIncoming cfg disk conn).writes.map (fun w => (w.fileName, w.data)) = files ∧
          ∀ w ∈ (handleIncoming cfg disk conn).writes,
            w.stored = true ∧ w.target = WindowsPath.join (targetDirOf cfg) w.fileName := by
  obtain ⟨s, hinv, hrep⟩ := UdtRep.of_reachable hb h
  obtain ⟨c', hmoves, hsame, hall, -⟩ := hrep.exists_drained hinv hb hlifetime hlag
  refine ⟨c', hmoves, fun conn hconn => ?_⟩
  have hwhole : conn.toList = uploaded md5 now total pads limit files := by
    rw [hconn, hall, hsame, hsent]
  obtain ⟨hresult, hwrites⟩ :=
    handleIncoming_uploaded md5 now total pads limit hfiles cfg disk hwhole
  exact ⟨hresult, hwrites, handleIncoming_stored cfg hdisk conn⟩

/-- From that run on. -/
theorem exists_stored_sample :
    ∃ c', Relation.ReflTransGen (Draining (2 ^ 28) (2 ^ 29)) uploadUdt c' ∧
      ∀ conn : Conn, conn.toList = c'.received →
        (handleIncoming sampleCfg steadyDisk conn).result = .returned true ∧
          (handleIncoming sampleCfg steadyDisk conn).writes.map (fun w => (w.fileName, w.data)) =
            sampleFiles ∧
          ∀ w ∈ (handleIncoming sampleCfg steadyDisk conn).writes,
            w.stored = true ∧ w.target = WindowsPath.join (targetDirOf sampleCfg) w.fileName :=
  exists_stored bounded_sampleIsn (by decide) uploadUdt_reachable (by decide +kernel) sampleMd5 0 5
    (fun _ => 0) (fun _ => 0) sampleFiles_portable uploadUdt_sent sampleCfg fun _ => rfl

end DesktopSync.Analysis
