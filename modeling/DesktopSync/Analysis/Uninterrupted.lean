import DesktopSync.Analysis.DesktopUpload
import DesktopSync.Model.MainLoop

/-!
# An upload that nobody interrupts

The steps of the loop between the connection and the return of `SyncUploadOnce`, with
nothing in between: the blocks of a payload are `sendPayload`, the steps over a file are
`sendFilePacket`, and all of them together leave what `syncUploadOnce` leaves.
-/

set_option autoImplicit false

namespace DesktopSync.Analysis

open DesktopSync.Model
open Relation (ReflTransGen)

/-- The step is the loop's own: the desktop, the clock and the trigger stay as they are. -/
def LoopEvent.own : LoopEvent → Bool
  | .edit _ _ _ | .remove _ | .tick _ | .trigger => false
  | _ => true

/-- The loop takes a step of its own. -/
def Advances (loop : LoopConfig) (s s' : LoopState) : Prop :=
  ∃ e, LoopEvent.own e = true ∧ loopStep loop s e = some s'

/-! ## One file -/

/-- What a file leaves behind: it has been sent, or it failed. -/
def afterFile (s : LoopState) (d : Delivery) (files : List FileName) (total : UInt64)
    (sent : Bool × SendState) : LoopState :=
  if sent.1 then s.sentFile sent.2 d files total else s.failed sent.2 total

theorem sendPayload_eq (total : UInt64) (st : SendState) (data : List UInt8) :
    sendPayload total st data =
      if data.take blockSize = [] then (true, st)
      else if (sendBlock total st (data.take blockSize)).1 then
        if (data.take blockSize).length < blockSize then
          (true, (sendBlock total st (data.take blockSize)).2)
        else sendPayload total (sendBlock total st (data.take blockSize)).2 (data.drop blockSize)
      else (false, (sendBlock total st (data.take blockSize)).2) := by
  rw [sendPayload, sendBlock]
  simp only
  split
  · rfl
  · split <;> simp only [Bool.false_eq_true, if_true, if_false]

theorem sendFilePacket_eq (md5 : Digest) (total : UInt64) (pad : UInt16) (st : SendState)
    (f : FileAccess) :
    sendFilePacket md5 .update total pad st f =
      match sendFileFront md5 .update pad st f with
      | (.returned true, st) =>
          match f.streamed with
          | none => (.returned false, st)
          | some data => (.returned (sendPayload total st data).1, (sendPayload total st data).2)
      | front => front := by
  rw [sendFilePacket, sendFileFront]
  simp only
  split
  · rfl
  · cases f.size with
    | none => rfl
    | some size =>
        simp only
        rcases st.sendHeader (fileHeader md5 .update pad f size) with ⟨ok, st₁⟩
        cases ok with
        | false => rfl
        | true =>
            simp only
            rcases st₁.send (wideToUtf8 f.name) with ⟨ok, st₂⟩
            cases ok <;> rfl

/-- Only `file_size` throws. -/
theorem sendFileFront_ne_threw (md5 : Digest) (pad : UInt16) (st : SendState) {f : FileAccess}
    {size : UInt64} (hsize : f.size = some size) :
    (sendFileFront md5 .update pad st f).1 ≠ .threw := by
  rw [sendFileFront]
  simp only [hsize]
  split
  · simp
  · rcases st.sendHeader (fileHeader md5 .update pad f size) with ⟨ok, st₁⟩
    cases ok <;> simp

/-- Block after block, from wherever the stream stands, the payload goes out. -/
theorem advances_payload (loop : LoopConfig) {s : LoopState} {name : FileName}
    {size total : UInt64} {files : List FileName} (payload rest : List UInt8)
    (hphase : s.phase = .reading name size payload files total)
    (hdata : s.desktop.data name = some (payload ++ rest)) :
    ReflTransGen (Advances loop) s
      (afterFile s ⟨name, size, payload ++ rest, s.version name⟩ files total
        (sendPayload total s.st rest)) := by
  induction hlen : rest.length using Nat.strong_induction_on generalizing s payload rest with
  | _ len ih =>
      subst hlen
      have hblock : s.block name payload.length = rest.take blockSize := by
        rw [LoopState.block, hdata, Option.getD_some, List.drop_left]
      have hstep : Advances loop s (s.readBlock name size payload files total) :=
        ⟨.readBlock, rfl, by simp only [loopStep, hphase]⟩
      rw [LoopState.readBlock, hblock] at hstep
      rw [sendPayload_eq]
      by_cases hnil : rest.take blockSize = []
      · have hrest : rest = [] :=
          (List.take_eq_nil_iff.mp hnil).resolve_left (by decide)
        simp only [hrest, List.take_nil, if_true, List.append_nil] at hstep ⊢
        exact .single hstep
      · simp only [if_neg hnil] at hstep ⊢
        cases hok : (sendBlock total s.st (rest.take blockSize)).1 with
        | false =>
            simp only [hok, Bool.false_eq_true, if_false] at hstep ⊢
            exact .single hstep
        | true =>
            simp only [hok, if_true] at hstep ⊢
            by_cases hshort : (rest.take blockSize).length < blockSize
            · have hlast : rest.take blockSize = rest := by
                rw [List.length_take] at hshort
                exact List.take_of_length_le (by omega)
              rw [hlast] at hshort
              simp only [hlast, if_pos hshort] at hstep ⊢
              exact .single hstep
            · have hdrop : (rest.drop blockSize).length < rest.length := by
                rw [List.length_take] at hshort
                have hpos : 0 < blockSize := by decide
                rw [List.length_drop]
                omega
              have hcut :
                  payload ++ rest.take blockSize ++ rest.drop blockSize = payload ++ rest := by
                rw [List.append_assoc, List.take_append_drop]
              simp only [if_neg hshort] at hstep ⊢
              have htail := ih _ hdrop
                (s := { s with
                  phase := .reading name size (payload ++ rest.take blockSize) files total
                  st := (sendBlock total s.st (rest.take blockSize)).2 })
                (payload ++ rest.take blockSize) (rest.drop blockSize) rfl
                (by rw [hcut]; exact hdata) rfl
              rw [hcut] at htail
              exact .head hstep htail

/-- From the head of the loop a file is sent as `SendFilePacket` sends it. -/
theorem advances_file (loop : LoopConfig) {s : LoopState} {name : FileName} {f : File}
    {total : UInt64} {files : List FileName} (pad : UInt16)
    (hphase : s.phase = .sending (name :: files) total)
    (hf : s.desktop.lookup name = some f) :
    ∃ sent : Bool × SendState,
      sendFilePacket loop.md5 .update total pad s.st (f.access name.units) =
          (.returned sent.1, sent.2) ∧
        ReflTransGen (Advances loop) s
          (afterFile s ⟨name, f.size, f.data, s.version name⟩ files total sent) := by
  have hstep : Advances loop s (s.header loop.md5 true true pad name files total) :=
    ⟨.header true true pad, rfl, by simp only [loopStep, hphase]⟩
  simp only [LoopState.header, Desktop.access_of_lookup hf, if_true] at hstep
  rw [sendFilePacket_eq]
  rcases hfront : sendFileFront loop.md5 .update pad s.st (f.access name.units) with ⟨front, st⟩
  have hreturned := sendFileFront_ne_threw loop.md5 pad s.st
    (show (f.access name.units).size = some f.size from rfl)
  rw [hfront] at hreturned
  simp only [File.access] at hstep hfront
  rw [hfront] at hstep
  cases front with
  | threw => exact absurd rfl hreturned
  | returned ok =>
      cases ok with
      | false => exact ⟨(false, st), rfl, .single hstep⟩
      | true =>
          have hin : name ∈ s.desktop := Desktop.mem_of_lookup hf
          have hopen : Advances loop { s with phase := .opening name f.size files total, st := st }
              { s with phase := .reading name f.size [] files total, st := st } :=
            ⟨.openFile true, rfl, by
              simp only [loopStep, hin, decide_true, Bool.and_self, if_true]⟩
          have hpayload := advances_payload loop
            (s := { s with phase := .reading name f.size [] files total, st := st })
            [] f.data rfl (by rw [Desktop.data, hf]; rfl)
          exact ⟨sendPayload total st f.data, rfl, .head hstep (.head hopen hpayload)⟩

/-! ## All files -/

/-- From file to file the loop does what `sendFiles` does. -/
theorem advances_files (loop : LoopConfig) (pads : ℕ → UInt16) {total : UInt64} (k : ℕ)
    {s : LoopState} {names : List FileName} (hphase : s.phase = .sending names total)
    (hnames : ∀ name ∈ names, name ∈ s.desktop) :
    ∃ s', ReflTransGen (Advances loop) s s' ∧
      (s'.phase = .sending [] total ∨ s'.phase = .ending total) ∧
      s'.st = (sendFiles loop.md5 total pads k s.st
        (names.map fun name => s.desktop.access name.units)).2 ∧
      .threw ∉ (sendFiles loop.md5 total pads k s.st
        (names.map fun name => s.desktop.access name.units)).1 := by
  induction names generalizing s k with
  | nil => exact ⟨s, .refl, .inl hphase, rfl, List.not_mem_nil⟩
  | cons name names ih =>
      obtain ⟨f, hf⟩ := Option.isSome_iff_exists.mp
        (AList.lookup_isSome.mpr (hnames name List.mem_cons_self))
      obtain ⟨⟨ok, st⟩, hsent, hfile⟩ := advances_file loop (pads k) hphase hf
      rw [List.map_cons, Desktop.access_of_lookup hf, sendFiles, hsent]
      cases ok with
      | false => exact ⟨_, hfile, .inr rfl, rfl, by simp⟩
      | true =>
          obtain ⟨s', hrest, hend, hst, hthrew⟩ := ih (k + 1)
            (s := s.sentFile st ⟨name, f.size, f.data, s.version name⟩ names total) rfl
            (fun other hother => hnames other (List.mem_cons_of_mem _ hother))
          refine ⟨s', hfile.trans hrest, hend, hst, fun hmem => ?_⟩
          rcases List.mem_cons.mp hmem with hhead | htail
          · cases hhead
          · exact hthrew htail

/-- Each entry of a listing is a file of the desktop, found again under its name. -/
theorem access_listing (d : Desktop) {entries : List DirEntry} {order : List FileName}
    (h : entries ⊆ d.listing order) :
    ((entries.filterMap fun e => FileName.ofUnits e.file.name).map fun name =>
        d.access name.units) = entries.map DirEntry.file ∧
      (∀ name ∈ entries.filterMap (fun e => FileName.ofUnits e.file.name), name ∈ d) ∧
      ∀ e ∈ entries, e.listedSize.isSome = true := by
  induction entries with
  | nil => exact ⟨rfl, by simp, by simp⟩
  | cons e entries ih =>
      obtain ⟨haccess, hnames, hsizes⟩ := ih (List.subset_of_cons_subset h)
      obtain ⟨name, -, he⟩ := List.mem_filterMap.mp (h List.mem_cons_self)
      obtain ⟨f, hf, rfl⟩ := Option.map_eq_some_iff.mp he
      have hname : FileName.ofUnits (f.entry name).file.name = some name := name.ofUnits_units
      have hin : name ∈ d := Desktop.mem_of_lookup hf
      rw [List.filterMap_cons_some (f := fun e : DirEntry => FileName.ofUnits e.file.name) hname]
      refine ⟨?_, List.forall_mem_cons.mpr ⟨hin, hnames⟩, List.forall_mem_cons.mpr ⟨rfl, hsizes⟩⟩
      rw [List.map_cons, haccess, Desktop.access_of_lookup hf]
      rfl

/-- With nothing in between, the loop connects, lists, sends and ends as `SyncUploadOnce`
does. -/
theorem advances_upload (loop : LoopConfig) (pads : ℕ → UInt16) (sink : Wire)
    (peerIp : WString) {s : LoopState} {order : List FileName}
    (hphase : s.phase = .connecting) (horder : order.isPerm s.desktop.keys = true) :
    ∃ s', ReflTransGen (Advances loop) s s' ∧ s'.phase = .stamping true ∧
      s'.st = (syncUploadOnce (some { loop.cfg with lastSync := s.lastSync }) (some peerIp)
        { resolves := fun _ => true
          connects := true
          listing := some (s.desktop.listing order)
          now := nowSec s.clock
          pads := pads
          md5 := loop.md5 } sink).st := by
  let entries := (s.desktop.listing order).filter (DirEntry.collected s.lastSync)
  obtain ⟨haccess, hnames, hsizes⟩ :=
    access_listing s.desktop (List.filter_subset_self _ : entries ⊆ s.desktop.listing order)
  obtain ⟨total, htotal⟩ := totalSize_isSome hsizes
  let st : SendState := (⟨sink, 0, [], []⟩ : SendState).report ⟨.uploading, 0, total, ""⟩
  let hello := sendHello st (nowSec s.clock) (pads 0)
  let sending : LoopState := { s with
    phase := .sending (entries.filterMap fun e => FileName.ofUnits e.file.name) total
    st := hello.2
    intact := hello.1
    session := [] }
  have hconnect : Advances loop s { s with phase := .scanning, st := ⟨sink, 0, [], []⟩ } :=
    ⟨.connect true true sink, rfl, by simp only [loopStep, hphase, Bool.and_self, if_true]⟩
  have hscan : Advances loop { s with phase := .scanning, st := ⟨sink, 0, [], []⟩ } sending := by
    refine ⟨.scan order true (pads 0), rfl, ?_⟩
    simp only [loopStep, horder, if_true, LoopState.scan, collectFiles, if_neg loop.desktopPath,
      Option.map_some]
    rw [htotal]
  obtain ⟨s', hfiles, hend, hst, hthrew⟩ := advances_files loop pads 1 (s := sending) rfl hnames
  rw [haccess] at hst hthrew
  have hfinish : Advances loop s'
      (s'.finish (pads ((entries.map DirEntry.file).length + 1)) total) := by
    refine ⟨.finish (pads ((entries.map DirEntry.file).length + 1)), rfl, ?_⟩
    rcases hend with hp | hp <;> simp only [loopStep, hp]
  refine ⟨_, .head hconnect (.head hscan (hfiles.tail hfinish)), rfl, ?_⟩
  simp only [syncUploadOnce, collectFiles, if_neg loop.desktopPath, Bool.not_true,
    Bool.false_eq_true, if_false, Option.map_some, htotal, LoopState.finish, hst]
  rw [uploadFiles]
  simp only
  rw [if_neg hthrew]

end DesktopSync.Analysis
