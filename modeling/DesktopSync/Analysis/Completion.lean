import DesktopSync.Analysis.RoundTrip

/-!
# When success is reported

`SyncUploadOnce` drops what `SendHello` and `SendEnd` return and reports `Completed` after
a file that failed; `ServerRoutine` drops what `HandleIncoming` returns; `HandleIncoming`
never looks at its `ofstream`. For each of the three the exact condition under which
the report is nevertheless true is a condition on what the transport, the file system
and the client do.
-/

set_option autoImplicit false

namespace DesktopSync.Analysis

open DesktopSync.Model
open ChunkedSink Framing

/-! ## Uploads -/

/-- The call returned `true` and reported `Completed`. -/
def Succeeds (u : Upload) : Prop :=
  u.result = .returned true ∧ ∃ r ∈ u.st.reports, r.state = .completed

/-- Every packet function of the call succeeded. -/
def SentAll (u : Upload) : Prop :=
  u.hello = true ∧ u.packets = List.replicate u.files.length (.returned true) ∧ u.ending = true

/-- Nothing is refused from HELLO to END, and every file can be sent. -/
def Undisturbed (refusals : List (Refusal SendRefusal)) (files : List FileAccess) : Prop :=
  (∀ f ∈ files, Sendable f) ∧
    admits refusals (headerSize + wireSize files + headerSize) = true

/-- The first file that is not sent vanished, and the call ends with an exception. -/
def EndsByVanished (refusals : List (Refusal SendRefusal)) (files : List FileAccess) : Prop :=
  ∃ sent f rest, files = sent ++ f :: rest ∧ (∀ g ∈ sent, Sendable g) ∧
    admits (after refusals headerSize) (wireSize sent) = true ∧ Vanished f

section UploadFiles

variable (md5 : Digest) (now total : UInt64) (pads : ℕ → UInt16) (st : SendState)

theorem sendHello_refusals :
    (sendHello st now (pads 0)).2.sink.refusals = after st.sink.refusals headerSize := by
  have h := sendHeader_offered st (helloHeader now (pads 0))
  rw [sendHello, h.refusals, PacketHeader.length_toBytes]

/-- A call whose packet functions did not throw succeeds, whatever they returned. -/
theorem uploadFiles_of_not_threw {files : List FileAccess} {results : List CallResult}
    (hresults : (sendFiles md5 total pads 1 (sendHello st now (pads 0)).2 files).1 = results)
    (hthrew : CallResult.threw ∉ results) :
    Succeeds (uploadFiles md5 now total pads st files) ∧
      (uploadFiles md5 now total pads st files).packets = results ∧
      (uploadFiles md5 now total pads st files).files = files ∧
      (uploadFiles md5 now total pads st files).hello = admits st.sink.refusals headerSize ∧
      (uploadFiles md5 now total pads st files).ending = admits
        (sendFiles md5 total pads 1 (sendHello st now (pads 0)).2 files).2.sink.refusals
        headerSize := by
  unfold uploadFiles
  simp only [hresults, if_neg hthrew]
  refine ⟨⟨rfl, _, List.mem_append_right _ (List.mem_singleton_self _), rfl⟩, trivial, trivial,
    ?_, ?_⟩
  · rw [sendHello, sendHeader_ok]
  · rw [sendEnd, sendHeader_ok]

/-- A call in which a packet function threw does not succeed. -/
theorem uploadFiles_of_threw {files : List FileAccess}
    (hthrew : .threw ∈ (sendFiles md5 total pads 1 (sendHello st now (pads 0)).2 files).1) :
    ¬Succeeds (uploadFiles md5 now total pads st files) := by
  unfold uploadFiles
  simp only [if_pos hthrew]
  rintro ⟨hresult, -⟩
  cases hresult

/-- Where every file goes out, all was sent exactly if HELLO and END went out too. -/
theorem sentAll_iff_undisturbed {files : List FileAccess} (hall : ∀ f ∈ files, Sendable f)
    (hadmits : admits (after st.sink.refusals headerSize) (wireSize files) = true) :
    Succeeds (uploadFiles md5 now total pads st files) ∧
      (SentAll (uploadFiles md5 now total pads st files) ↔
        Undisturbed st.sink.refusals files) := by
  have hrefusals := sendHello_refusals now pads st
  obtain ⟨hoffered, hresults⟩ := sendFiles_all md5 total pads 1
    (sendHello st now (pads 0)).2 files hall (by rw [hrefusals, hadmits])
  have hthrew : CallResult.threw ∉ List.replicate files.length (CallResult.returned true) := by
    rw [List.mem_replicate]
    rintro ⟨-, ⟨⟩⟩
  obtain ⟨hsucceeds, hpackets, hfiles, hhello, hending⟩ :=
    uploadFiles_of_not_threw md5 now total pads st hresults hthrew
  rw [hoffered.refusals, length_packetsBytes, hrefusals] at hending
  refine ⟨hsucceeds, ?_⟩
  rw [Undisturbed, SentAll, hpackets, hfiles, hhello, hending, Nat.add_assoc, admits_add,
    admits_add, hadmits, Bool.true_and, Bool.and_eq_true]
  constructor
  · rintro ⟨hok, -, hend⟩
    exact ⟨hall, hok, hend⟩
  · rintro ⟨-, hok, hend⟩
    exact ⟨hok, rfl, hend⟩

/-- A call in which a packet broke succeeds and has not sent all. -/
theorem succeeds_of_breaks {sent : List FileAccess} {f : FileAccess} {rest : List FileAccess}
    (hsent : ∀ g ∈ sent, Sendable g)
    (hadmits : admits (after st.sink.refusals headerSize) (wireSize sent) = true)
    (hbreaks : Breaks (after (after st.sink.refusals headerSize) (wireSize sent)) f) :
    Succeeds (uploadFiles md5 now total pads st (sent ++ f :: rest)) ∧
      ¬SentAll (uploadFiles md5 now total pads st (sent ++ f :: rest)) := by
  have hrefusals := sendHello_refusals now pads st
  have hresults := sendFiles_stop md5 total pads 1 (sendHello st now (pads 0)).2 sent f rest hsent
    (by rw [hrefusals, hadmits]) (.returned false) (by simp) (by
      intro st' hst'
      apply sendFilePacket_breaks
      rw [hst', hrefusals]
      exact hbreaks)
  have hthrew : CallResult.threw ∉
      List.replicate sent.length (CallResult.returned true) ++ [.returned false] := by
    simp
  obtain ⟨hsucceeds, hpackets, hfiles, -, -⟩ :=
    uploadFiles_of_not_threw md5 now total pads st hresults hthrew
  refine ⟨hsucceeds, fun hall => ?_⟩
  have hreplicate := hall.2.1
  rw [hpackets, hfiles] at hreplicate
  have hmem : CallResult.returned false ∈
      List.replicate (sent ++ f :: rest).length (CallResult.returned true) := by
    rw [← hreplicate]
    simp
  rw [List.mem_replicate] at hmem
  cases hmem.2

/-- A packet that breaks disturbs the call, and no file vanished before it. -/
theorem not_undisturbed_of_breaks {refusals : List (Refusal SendRefusal)}
    {sent : List FileAccess} {f : FileAccess} {rest : List FileAccess}
    (hsent : ∀ g ∈ sent, Sendable g)
    (hadmits : admits (after refusals headerSize) (wireSize sent) = true)
    (hbreaks : Breaks (after (after refusals headerSize) (wireSize sent)) f) :
    ¬(Undisturbed refusals (sent ++ f :: rest) ∨ EndsByVanished refusals (sent ++ f :: rest)) := by
  rintro (⟨hall, hwhole⟩ | ⟨sent', f', rest', heq, hsent', hadmits', hvanished⟩)
  · rw [Nat.add_assoc, admits_add, admits_add, Bool.and_eq_true, Bool.and_eq_true] at hwhole
    exact not_stops (hall f (List.mem_append_right _ List.mem_cons_self))
      (admits_of_split hwhole.2.1) (.inl hbreaks)
  · obtain rfl := split_unique heq hsent hsent' hadmits hadmits' (.inl hbreaks) (.inr hvanished)
    rcases hbreaks with hlong | ⟨hsized, -⟩
    · exact hlong hvanished.1
    · rw [hvanished.2] at hsized
      cases hsized

/-- The tail of the upload tells the truth if and only if nothing disturbs it or it ends
by an exception. -/
theorem uploadFiles_truthful_iff (files : List FileAccess) :
    (Succeeds (uploadFiles md5 now total pads st files) →
        SentAll (uploadFiles md5 now total pads st files)) ↔
      Undisturbed st.sink.refusals files ∨ EndsByVanished st.sink.refusals files := by
  rcases files_split (after st.sink.refusals headerSize) files with
    ⟨hall, hadmits⟩ | ⟨sent, f, rest, rfl, hsent, hadmits, hbreaks | hvanished⟩
  · obtain ⟨hsucceeds, hundisturbed⟩ :=
      sentAll_iff_undisturbed md5 now total pads st hall hadmits
    constructor
    · intro h
      exact .inl (hundisturbed.mp (h hsucceeds))
    · rintro (h | ⟨sent, f, rest, rfl, -, -, hvanished⟩) -
      · exact hundisturbed.mpr h
      · have hsized := (hall f (List.mem_append_right _ List.mem_cons_self)).sized
        rw [hvanished.2] at hsized
        cases hsized
  · obtain ⟨hsucceeds, hnot⟩ := succeeds_of_breaks md5 now total pads st hsent hadmits hbreaks
    refine iff_of_false (fun h => hnot (h hsucceeds)) ?_
    exact not_undisturbed_of_breaks hsent hadmits hbreaks
  · have hrefusals := sendHello_refusals now pads st
    have hresults := sendFiles_stop md5 total pads 1 (sendHello st now (pads 0)).2 sent f rest
      hsent (by rw [hrefusals, hadmits]) .threw (by simp) (by
        intro st' _
        rw [sendFilePacket_of_gone hvanished.1 hvanished.2])
    refine iff_of_true ?_ (.inr ⟨sent, f, rest, rfl, hsent, hadmits, hvanished⟩)
    intro hsucceeds
    have hthrew := uploadFiles_of_threw md5 now total pads st (by rw [hresults]; simp)
    exact absurd hsucceeds hthrew

end UploadFiles

/-- The files a call of `SyncUploadOnce` goes on to send: none where it returns early or
where listing them throws. -/
def plannedFiles (cfg : Option IniState) (peerIp : Option WString) (env : UploadEnv) :
    Option (List FileAccess) := do
  let cfg ← cfg
  let peerIp ← peerIp
  if env.resolves (wideToUtf8 peerIp) && env.connects then
    let entries ← collectFiles cfg.desktopPath cfg.lastSync env.listing
    let _ ← totalSize entries
    some (entries.map DirEntry.file)
  else none

theorem totalSize_isSome {entries : List DirEntry}
    (h : ∀ e ∈ entries, e.listedSize.isSome = true) : ∃ total, totalSize entries = some total := by
  rw [totalSize]
  generalize (0 : UInt64) = total
  induction entries generalizing total with
  | nil => exact ⟨total, rfl⟩
  | cons e entries ih =>
      obtain ⟨size, hsize⟩ := Option.isSome_iff_exists.mp (h e List.mem_cons_self)
      rw [List.foldlM_cons, hsize]
      exact ih (fun e' he' => h e' (List.mem_cons_of_mem _ he')) (total + size)

theorem syncUploadOnce_of_none {cfg : Option IniState} {peerIp : Option WString} {env : UploadEnv}
    (sink : Wire) (h : plannedFiles cfg peerIp env = none) :
    (syncUploadOnce cfg peerIp env sink).result ≠ .returned true := by
  unfold syncUploadOnce
  cases cfg with
  | none => simp [Upload.early]
  | some cfg =>
      cases peerIp with
      | none => simp [Upload.early]
      | some peerIp =>
          simp only [plannedFiles, Option.bind_eq_bind, Option.bind_some] at h
          cases hresolves : env.resolves (wideToUtf8 peerIp) with
          | false => simp [Upload.early, hresolves]
          | true =>
              cases hconnects : env.connects with
              | false => simp [Upload.early, hresolves]
              | true =>
                  cases hentries : collectFiles cfg.desktopPath cfg.lastSync env.listing with
                  | none => simp [Upload.early, hresolves, hentries]
                  | some entries =>
                      cases htotal : totalSize entries with
                      | none => simp [Upload.early, hresolves, hentries, htotal]
                      | some total => simp [hresolves, hconnects, hentries, htotal] at h

theorem syncUploadOnce_of_some {cfg : Option IniState} {peerIp : Option WString} {env : UploadEnv}
    {files : List FileAccess} (sink : Wire) (h : plannedFiles cfg peerIp env = some files) :
    ∃ (total : UInt64) (st : SendState), st.sink = sink ∧ st.headers = [] ∧
      syncUploadOnce cfg peerIp env sink = uploadFiles env.md5 env.now total env.pads st files := by
  unfold syncUploadOnce
  cases cfg with
  | none => simp [plannedFiles] at h
  | some cfg =>
      cases peerIp with
      | none => simp [plannedFiles] at h
      | some peerIp =>
          simp only [plannedFiles, Option.bind_eq_bind, Option.bind_some] at h
          split at h
          · next hreached =>
              rw [Bool.and_eq_true] at hreached
              simp only [hreached.1, hreached.2, Bool.not_true, Bool.false_eq_true, if_false]
              cases hentries : collectFiles cfg.desktopPath cfg.lastSync env.listing with
              | none => simp [hentries] at h
              | some entries =>
                  cases htotal : totalSize entries with
                  | none => simp [hentries, htotal] at h
                  | some total =>
                      simp only [hentries, htotal, Option.bind_some, Option.some.injEq] at h
                      subst h
                      refine ⟨total, ⟨sink, 0, [⟨.uploading, 0, total, ""⟩], []⟩, rfl, rfl, ?_⟩
                      simp only [htotal]
                      rfl
          · cases h

/-- The call sends no file, or nothing disturbs it, or it ends by an exception. -/
def UploadHolds (cfg : Option IniState) (peerIp : Option WString) (env : UploadEnv)
    (sink : Wire) : Prop :=
  ∀ files, plannedFiles cfg peerIp env = some files →
    Undisturbed sink.refusals files ∨ EndsByVanished sink.refusals files

theorem syncUploadOnce_truthful_iff (cfg : Option IniState) (peerIp : Option WString)
    (env : UploadEnv) (sink : Wire) :
    (Succeeds (syncUploadOnce cfg peerIp env sink) →
        SentAll (syncUploadOnce cfg peerIp env sink)) ↔ UploadHolds cfg peerIp env sink := by
  unfold UploadHolds
  cases hplanned : plannedFiles cfg peerIp env with
  | none =>
      apply iff_of_true
      · intro hsucceeds
        exact absurd hsucceeds.1 (syncUploadOnce_of_none sink hplanned)
      · intro files hfiles
        cases hfiles
  | some files =>
      obtain ⟨total, st, rfl, -, hcall⟩ := syncUploadOnce_of_some sink hplanned
      rw [hcall, uploadFiles_truthful_iff]
      constructor
      · rintro h _ ⟨⟩
        exact h
      · intro h
        exact h files rfl

/-! ## Sessions -/

/-- `ServerRoutine` reports `Completed` only for a session that returned `true`, and a
session returns `true` only if it stored every file. -/
def ServesTruly (cfg : IniState) (disk : ℕ → StoreReply) (c : Conn) : Prop :=
  ((∃ r ∈ (serveClient cfg disk c).reports, r.state = .completed) →
      (handleIncoming cfg disk c).result = .returned true) ∧
    ((handleIncoming cfg disk c).result = .returned true →
      ∀ w ∈ (handleIncoming cfg disk c).writes, w.stored = true)

/-- The stream makes the session throw, or it comes to an END packet and the file system
stores every file before that. -/
def ServeHolds (disk : ℕ → StoreReply) (c : Conn) : Prop :=
  (wireFormat.parse 0 c.toList).outcome = some .threw ∨
    (wireFormat.parse 0 c.toList).outcome = some (.returned true) ∧
      ∀ k < (filePackets c.toList).length, (disk k).opens = true ∧ (disk k).accepts = true

theorem serveClient_completed_iff (cfg : IniState) (disk : ℕ → StoreReply) (c : Conn) :
    (∃ r ∈ (serveClient cfg disk c).reports, r.state = .completed) ↔
      (handleIncoming cfg disk c).result ≠ .threw := by
  unfold serveClient
  by_cases hthrew : (handleIncoming cfg disk c).result = .threw
  · simp [hthrew]
  · simp [hthrew]

theorem writesOf_stored_iff (cfg : IniState) (disk : ℕ → StoreReply) (stored : ℕ)
    (items : List (ℕ × FilePacket)) :
    (∀ w ∈ writesOf cfg disk stored items, w.stored = true) ↔
      ∀ k < items.length, (disk (stored + k)).opens = true ∧
        (disk (stored + k)).accepts = true := by
  induction items generalizing stored with
  | nil => simp [writesOf]
  | cons x items ih =>
      obtain ⟨pos, p⟩ := x
      have hhead : (toWrite cfg (disk stored) pos p).stored = true ↔
          (disk stored).opens = true ∧ (disk stored).accepts = true := by
        rw [FileWrite.stored, toWrite, Bool.and_eq_true]
      rw [writesOf, List.forall_mem_cons, ih, hhead]
      constructor
      · rintro ⟨hfirst, hrest⟩ k hk
        cases k with
        | zero => exact hfirst
        | succ k =>
            have := hrest k (Nat.lt_of_succ_lt_succ hk)
            rwa [Nat.add_right_comm] at this
      · intro h
        refine ⟨h 0 (Nat.succ_pos _), ?_⟩
        intro k hk
        have := h (k + 1) (Nat.succ_lt_succ hk)
        rwa [Nat.add_right_comm]

theorem servesTruly_iff (cfg : IniState) (disk : ℕ → StoreReply) (c : Conn) :
    ServesTruly cfg disk c ↔ ServeHolds disk c := by
  have hresult := handleIncoming_result cfg disk c
  have hstored := writesOf_stored_iff cfg disk 0 (filePackets c.toList)
  simp only [Nat.zero_add] at hstored
  rw [ServesTruly, ServeHolds, serveClient_completed_iff, handleIncoming_writes, hstored, hresult]
  rcases (wireFormat.parse 0 c.toList).outcome with _ | (_ | _) | _
  · simp
  · simp
  · simp
  · simp

/-! ## Both together -/

/-- The reports of an upload and of a session are true if and only if the transport, the
files, the client and the disk give no reason for anything else. -/
theorem completed_iff (cfg : Option IniState) (peerIp : Option WString) (env : UploadEnv)
    (sink : Wire) (serverCfg : IniState) (disk : ℕ → StoreReply) (c : Conn) :
    ((Succeeds (syncUploadOnce cfg peerIp env sink) →
        SentAll (syncUploadOnce cfg peerIp env sink)) ↔ UploadHolds cfg peerIp env sink) ∧
      (ServesTruly serverCfg disk c ↔ ServeHolds disk c) :=
  ⟨syncUploadOnce_truthful_iff cfg peerIp env sink, servesTruly_iff serverCfg disk c⟩

/-- A desktop with one file, `a`, that another program holds open. -/
def lockedDesktop : UploadEnv where
  resolves _ := true
  connects := true
  listing := some [{
    file := { name := wide "a", size := some 3, hashed := none, streamed := none }
    regular := true
    lastWriteTime := 0
    listedSize := some 3 }]
  now := 0
  pads _ := 0
  md5 := sampleMd5

/-- The locked file is not sent and the call succeeds; a client that closes at once makes
the server report `Completed`. -/
theorem completed_untrue :
    ¬(∀ cfg peerIp env sink, Succeeds (syncUploadOnce cfg peerIp env sink) →
        SentAll (syncUploadOnce cfg peerIp env sink)) ∧
      ¬∀ cfg disk c, ServesTruly cfg disk c := by
  constructor
  · intro h
    have hholds := (syncUploadOnce_truthful_iff _ _ _ _).mp
      (h (some sampleCfg) (some []) lockedDesktop ⟨[], [], fun _ => 0, 0⟩) _ rfl
    rcases hholds with ⟨hall, -⟩ | ⟨sent, f, rest, heq, hsent, -, hvanished⟩
    · have hopens := (hall _ List.mem_cons_self).opens
      cases hopens
    · cases sent with
      | nil =>
          obtain rfl := (List.cons.inj heq).1
          cases hvanished.2
      | cons g sent =>
          obtain rfl := (List.cons.inj heq).1
          cases (hsent _ List.mem_cons_self).opens
  · intro h
    have hholds := (servesTruly_iff sampleCfg steadyDisk (.whole [])).mp (h _ _ _)
    have hparse : wireFormat.parse 0 [] = ⟨[], none, []⟩ := parse_of_short rfl
    rw [ServeHolds, ChunkedSource.Source.toList_whole, hparse] at hholds
    rcases hholds with hthrew | ⟨hend, -⟩
    · cases hthrew
    · cases hend

end DesktopSync.Analysis
