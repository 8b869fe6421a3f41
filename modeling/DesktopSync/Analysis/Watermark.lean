import DesktopSync.Analysis.DesktopUpload
import DesktopSync.Model.MainLoop

/-!
# What the watermark leaves out

`wmain` stores `NowSec()` as `lastSync` whatever `SyncUploadOnce` returned and long after
it listed the desktop. `safe` says step by step when nothing is lost by that: the peer is
reached, the transport takes every packet, every file opens, and after the desktop has
been listed only files are edited that have still to be sent. In the runs of such steps
everything the watermark leaves behind has been delivered; one failed connection is
enough to break it.
-/

set_option autoImplicit false

namespace DesktopSync.Analysis

open DesktopSync.Model
open ChunkedSink TransitionSystem

/-! ## The two clocks -/

/-- The clock shows a time after 1970, and the file clock does not overflow. -/
structure InRange (clock : ℤ) : Prop where
  epoch : unixEpoch * ticksPerSecond ≤ clock
  range : clock < 2 ^ 63

theorem toNat_nowSec {clock : ℤ} (h : InRange clock) :
    (nowSec clock).toNat = ((clock - unixEpoch * ticksPerSecond) / ticksPerSecond).toNat := by
  have hepoch := h.epoch
  have hrange := h.range
  simp only [unixEpoch, ticksPerSecond] at hepoch ⊢
  rw [nowSec, unixEpoch, ticksPerSecond, Int.tdiv_eq_ediv_of_nonneg (by omega),
    toNat_ofInt (by omega) (by omega)]

/-- `CollectFiles` takes a file with this last write time. -/
def newer (lastSync : UInt64) (lastWriteTime : ℤ) : Bool :=
  lastSync == 0 || lastSync < UInt64.ofInt (lastWriteTime.tdiv ticksPerSecond)

/-- A file written now is collected, whatever was stored before. -/
theorem newer_now {clock : ℤ} (h : InRange clock) {lastSync : UInt64}
    (hsync : lastSync ≤ nowSec clock) : newer lastSync clock = true := by
  have hepoch := h.epoch
  have hrange := h.range
  have hnow := toNat_nowSec h
  rw [UInt64.le_iff_toNat_le, hnow] at hsync
  simp only [unixEpoch, ticksPerSecond] at hepoch hsync
  have hlt : lastSync < UInt64.ofInt (clock.tdiv ticksPerSecond) := by
    rw [UInt64.lt_iff_toNat_lt, ticksPerSecond, Int.tdiv_eq_ediv_of_nonneg (by omega),
      toNat_ofInt (by omega) (by omega)]
    omega
  rw [newer, Bool.or_eq_true, decide_eq_true_eq]
  exact .inr hlt

theorem nowSec_le {clock : ℤ} (h : InRange clock) {ticks : ℕ} (hrange : clock + ticks < 2 ^ 63) :
    nowSec clock ≤ nowSec (clock + ticks) := by
  have hepoch := h.epoch
  have hlater : InRange (clock + ticks) := ⟨by omega, hrange⟩
  rw [UInt64.le_iff_toNat_le, toNat_nowSec h, toNat_nowSec hlater]
  simp only [unixEpoch, ticksPerSecond] at hepoch ⊢
  omega

/-! ## What the pieces of an upload do when nothing is refused -/

theorem sendFileFront_of_gone {md5 : Digest} {pad : UInt16} {st : SendState} {f : FileAccess}
    (h : NameFits f) (hsize : f.size = none) :
    sendFileFront md5 .update pad st f = (.threw, st) := by
  have hfits : ¬maxPathBytes < (wideToUtf8 f.name).length := not_lt.mpr h
  rw [sendFileFront]
  simp only [if_neg hfits, hsize]

theorem sendFileFront_ok (md5 : Digest) (pad : UInt16) {st : SendState} {f : FileAccess}
    {size : UInt64} (h : NameFits f) (hsize : f.size = some size)
    (hadmits : admits st.sink.refusals (headerSize + (wireName f).length) = true) :
    ∃ st', sendFileFront md5 .update pad st f = (.returned true, st') := by
  have hfits : ¬maxPathBytes < (wideToUtf8 f.name).length := not_lt.mpr h
  have hname : (wireName f).length < 2 ^ 31 := lt_of_le_of_lt h (by decide)
  rw [admits_add, Bool.and_eq_true] at hadmits
  have hheader := sendHeader_offered st (fileHeader md5 .update pad f size)
  have hfirst := (sendHeader_ok st (fileHeader md5 .update pad f size)).trans hadmits.1
  rw [sendFileFront]
  simp only [if_neg hfits, hsize]
  rcases hsent : st.sendHeader (fileHeader md5 .update pad f size) with ⟨ok, st₁⟩
  rw [hsent] at hheader hfirst
  simp only at hfirst
  subst hfirst
  have hok := (send_offered st₁ (wireName f) hname).ok_eq
  rw [hheader.refusals, PacketHeader.length_toBytes, hadmits.2] at hok
  refine ⟨(st₁.send (wireName f)).2, ?_⟩
  simp only
  rw [show wideToUtf8 f.name = wireName f from rfl, hok]

theorem sendBlock_ok (total : UInt64) {st : SendState} {block : List UInt8}
    (hblock : block.length ≤ blockSize) (hadmits : admits st.sink.refusals block.length = true) :
    (sendBlock total st block).1 = true := by
  have hint : block.length < 2 ^ 31 := lt_of_le_of_lt hblock (by decide)
  have hok : (st.send block).1 = true := (send_offered st block hint).ok_eq.trans hadmits
  rw [sendBlock]
  simp only [hok, if_true]

/-! ## Steps that lose nothing -/

/-- No file is newer than `lastSync`. -/
def upToDate (s : LoopState) : Bool :=
  s.desktop.entries.all fun e => !(e.2.entry e.1).collected s.lastSync

/-- Writing `data` under `name` loses nothing now. Before the desktop is listed the write
must be collected. From then on the file must still have to be sent, and one that is being
sent must grow into `data`. Between reading `NowSec` and storing it the clock must be past
it. -/
def tolerates (s : LoopState) (name : FileName) (data : List UInt8) (lastWriteTime : ℤ) :
    Bool :=
  match s.phase with
  | .waiting | .connecting | .scanning | .resting => newer s.lastSync lastWriteTime
  | .sending files _ => name ∈ files
  | .opening current size files _ =>
      name ∈ files || name == current && size == UInt64.ofNat data.length
  | .reading current size payload files _ =>
      name ∈ files ||
        name == current && size == UInt64.ofNat data.length && payload.isPrefixOf data
  | .ending _ | .stamping _ => false
  | .saving _ =>
      s.lastSync < nowSec s.clock && name ∈ s.desktop && newer s.lastSync lastWriteTime
  | .crashed => true

/-- The step loses nothing: the peer is reached where there is something to upload, every
packet is taken and every file opens. -/
def safe (s : LoopState) (e : LoopEvent) : Bool :=
  match e, s.phase with
  | .edit name data lastWriteTime, _ => tolerates s name data lastWriteTime
  | .connect resolves connects _, _ => resolves && connects || upToDate s
  | .scan _ _ _, _ => admits s.st.sink.refusals headerSize
  | .header _ _ _, .sending (name :: _) _ =>
      admits s.st.sink.refusals (headerSize + (wideToUtf8 name.units).length)
  | .openFile opens, .opening name _ _ _ => opens && name ∈ s.desktop
  | .readBlock, .reading name _ payload _ _ =>
      admits s.st.sink.refusals (s.block name payload.length).length
  | .finish _, _ => admits s.st.sink.refusals headerSize
  | _, _ => true

/-! ## What such steps keep -/

/-- Among `ds` is the file in full, in the version `v`. -/
def Has (log : List Edit) (ds : List Delivery) (name : FileName) (v : ℕ) : Prop :=
  ∃ d ∈ ds, d.name = name ∧ d.version = v ∧ d.Whole log

theorem whole_mono {log log' : List Edit} {d : Delivery} (h : d.Whole log)
    (hlog : log <+: log') : d.Whole log' := by
  obtain ⟨⟨time, hmade⟩, hsize⟩ := h
  obtain ⟨later, rfl⟩ := hlog
  refine ⟨⟨time, ?_⟩, hsize⟩
  rw [List.getElem?_append_left (List.getElem?_eq_some_iff.mp hmade).1, hmade]

theorem Has.mono {log log' : List Edit} {ds ds' : List Delivery} {name : FileName} {v : ℕ}
    (h : Has log ds name v) (hlog : log <+: log') (hds : ds ⊆ ds') : Has log' ds' name v := by
  obtain ⟨d, hd, hname, hversion, hwhole⟩ := h
  exact ⟨d, hds hd, hname, hversion, whole_mono hwhole hlog⟩

/-- What the present phase promises about a file that has not been delivered as it is. -/
def Promised (s : LoopState) (name : FileName) (f : File) : Prop :=
  match s.phase with
  | .waiting | .connecting | .scanning | .saving _ | .resting =>
      (f.entry name).collected s.lastSync = true
  | .sending files _ => name ∈ files ∨ Has s.log s.session name (s.version name)
  | .opening current size files _ =>
      (name ∈ files ∨ Has s.log s.session name (s.version name)) ∨ name = current ∧ size = f.size
  | .reading current size payload files _ =>
      (name ∈ files ∨ Has s.log s.session name (s.version name)) ∨
        name = current ∧ size = f.size ∧ payload <+: f.data
  | .ending _ | .stamping _ => False
  | .crashed => True

/-- Files are being sent. -/
def LoopPhase.uploads : LoopPhase → Bool
  | .sending _ _ | .opening _ _ _ _ | .reading _ _ _ _ _ => true
  | _ => false

structure Watched (s : LoopState) : Prop where
  clock : InRange s.clock
  lastSync : s.lastSync ≤ nowSec s.clock
  made : ∀ name f, s.desktop.lookup name = some f →
    ∃ time, s.log[s.version name]? = some ⟨name, f.data, time⟩
  latest : ∀ (v : ℕ) (e : Edit), s.log[v]? = some e → e.name ∈ s.desktop →
    v ≤ s.version e.name
  intact : LoopPhase.uploads s.phase = true → s.intact = true
  promised : ∀ name f, s.desktop.lookup name = some f →
    Has s.log s.delivered name (s.version name) ∨ Promised s name f
  saved : ∀ ok, s.phase = .saving ok → s.Sound s.lastSync

/-- A promise outlives what goes on around it. -/
theorem Promised.mono {s s' : LoopState} {name : FileName} {f : File} (h : Promised s name f)
    (hphase : s'.phase = s.phase) (hlastSync : s'.lastSync = s.lastSync)
    (hsession : s'.session = s.session) (hlog : s.log <+: s'.log)
    (hversion : s'.version name = s.version name) : Promised s' name f := by
  unfold Promised at h ⊢
  rw [hphase, hlastSync, hsession, hversion]
  cases hp : s.phase with
  | waiting | connecting | scanning | saving | resting | ending | stamping | crashed =>
      rw [hp] at h
      exact h
  | sending files total =>
      rw [hp] at h
      exact h.imp_right fun hhas => hhas.mono hlog (List.Subset.refl _)
  | opening current size files total =>
      rw [hp] at h
      exact h.imp_left fun hrest => hrest.imp_right fun hhas => hhas.mono hlog (List.Subset.refl _)
  | reading current size payload files total =>
      rw [hp] at h
      exact h.imp_left fun hrest => hrest.imp_right fun hhas => hhas.mono hlog (List.Subset.refl _)

namespace Watched

variable {s : LoopState}

theorem lookup_edit_self (s : LoopState) (name : FileName) (f : File) :
    (s.edit name f).desktop.lookup name = some f :=
  AList.lookup_insert _

theorem lookup_edit_of_ne (s : LoopState) {name other : FileName} (f : File) (h : other ≠ name) :
    (s.edit name f).desktop.lookup other = s.desktop.lookup other :=
  AList.lookup_insert_ne h

theorem version_edit_self (s : LoopState) (name : FileName) (f : File) :
    (s.edit name f).version name = s.log.length :=
  Function.update_self _ _ _

theorem version_edit_of_ne (s : LoopState) {name other : FileName} (f : File) (h : other ≠ name) :
    (s.edit name f).version other = s.version other :=
  Function.update_of_ne h _ _

theorem mem_edit {s : LoopState} {name other : FileName} {f : File} :
    other ∈ (s.edit name f).desktop ↔ other = name ∨ other ∈ s.desktop :=
  AList.mem_insert _

theorem log_edit (s : LoopState) (name : FileName) (f : File) : s.log <+: (s.edit name f).log :=
  List.prefix_append _ _

/-- An edit of the log is an old one or the one just made. -/
theorem edit_cases {name : FileName} {f : File} {v : ℕ} {e : Edit}
    (h : (s.edit name f).log[v]? = some e) :
    s.log[v]? = some e ∨ v = s.log.length ∧ e = ⟨name, f.data, nowSec s.clock⟩ := by
  rw [LoopState.edit] at h
  rcases Nat.lt_or_ge v s.log.length with hlt | hge
  · rw [List.getElem?_append_left hlt] at h
    exact .inl h
  · rw [List.getElem?_append_right hge] at h
    obtain ⟨hv, he⟩ := List.getElem?_eq_some_iff.mp h
    rw [List.length_singleton] at hv
    have hsub : v - s.log.length = 0 := by omega
    simp only [hsub, List.getElem_cons_zero] at he
    exact .inr ⟨by omega, he.symm⟩

/-- A tolerated edit is promised. -/
theorem promised_edit {name : FileName} {f : File}
    (hsafe : tolerates s name f.data f.lastWriteTime = true) :
    Promised (s.edit name f) name f := by
  rw [tolerates] at hsafe
  rw [Promised, show (s.edit name f).phase = s.phase from rfl]
  cases hp : s.phase with
  | waiting | connecting | scanning | resting =>
      rw [hp] at hsafe
      exact hsafe
  | saving ok =>
      rw [hp, Bool.and_eq_true] at hsafe
      exact hsafe.2
  | crashed => trivial
  | ending | stamping =>
      rw [hp] at hsafe
      cases hsafe
  | sending files total =>
      rw [hp] at hsafe
      exact .inl (of_decide_eq_true hsafe)
  | opening current size files total =>
      rw [hp] at hsafe
      simp only [Bool.or_eq_true, decide_eq_true_eq, Bool.and_eq_true, beq_iff_eq] at hsafe
      exact hsafe.imp_left .inl
  | reading current size payload files total =>
      rw [hp] at hsafe
      simp only [Bool.or_eq_true, decide_eq_true_eq, Bool.and_eq_true, beq_iff_eq,
        List.isPrefixOf_iff_prefix, and_assoc] at hsafe
      exact hsafe.imp_left .inl

theorem edit (h : Watched s) {name : FileName} {f : File}
    (hsafe : tolerates s name f.data f.lastWriteTime = true) : Watched (s.edit name f) where
  clock := h.clock
  lastSync := h.lastSync
  made := by
    intro other g hg
    by_cases hother : other = name
    · subst hother
      rw [lookup_edit_self, Option.some.injEq] at hg
      subst hg
      refine ⟨nowSec s.clock, ?_⟩
      rw [version_edit_self, LoopState.edit, List.getElem?_append_right le_rfl, Nat.sub_self]
      rfl
    · rw [lookup_edit_of_ne s f hother] at hg
      obtain ⟨time, hmade⟩ := h.made other g hg
      refine ⟨time, ?_⟩
      rw [version_edit_of_ne s f hother, LoopState.edit,
        List.getElem?_append_left (List.getElem?_eq_some_iff.mp hmade).1, hmade]
  latest := by
    intro v e hv hin
    by_cases hother : e.name = name
    · rw [hother, version_edit_self]
      rcases edit_cases hv with hold | ⟨hnew, -⟩
      · exact (List.getElem?_eq_some_iff.mp hold).1.le
      · exact hnew.le
    · rw [version_edit_of_ne s f hother]
      rcases edit_cases hv with hold | ⟨-, hnew⟩
      · exact h.latest v e hold ((mem_edit.mp hin).resolve_left hother)
      · rw [hnew] at hother
        exact absurd rfl hother
  intact := h.intact
  promised := by
    intro other g hg
    by_cases hother : other = name
    · subst hother
      rw [lookup_edit_self, Option.some.injEq] at hg
      subst hg
      exact .inr (promised_edit hsafe)
    · have hversion := version_edit_of_ne s f hother
      rw [lookup_edit_of_ne s f hother] at hg
      rw [hversion]
      rcases h.promised other g hg with hhas | hpromised
      · exact .inl (hhas.mono (log_edit s name f) (List.Subset.refl _))
      · exact .inr (hpromised.mono rfl rfl rfl (log_edit s name f) hversion)
  saved := by
    intro ok hphase v e hv hle hin
    have hp : s.phase = .saving ok := hphase
    rw [tolerates, hp, Bool.and_eq_true, Bool.and_eq_true, decide_eq_true_eq,
      decide_eq_true_eq] at hsafe
    obtain ⟨⟨hpast, hthere⟩, -⟩ := hsafe
    rcases edit_cases hv with hold | ⟨-, hnew⟩
    · have hpresent : e.name ∈ s.desktop := by
        rcases mem_edit.mp hin with heq | hin
        · rw [heq]
          exact hthere
        · exact hin
      obtain ⟨d, hd, hname, hversion, hwhole⟩ := h.saved ok hp v e hold hle hpresent
      exact ⟨d, hd, hname, hversion, whole_mono hwhole (log_edit s name f)⟩
    · rw [hnew] at hle
      exact absurd hpast (UInt64.not_lt.mpr hle)

theorem remove (h : Watched s) (name : FileName) :
    Watched { s with desktop := s.desktop.erase name } := by
  have hold : ∀ other g, (s.desktop.erase name).lookup other = some g →
      s.desktop.lookup other = some g := by
    intro other g hg
    by_cases hother : other = name
    · rw [hother, AList.lookup_erase] at hg
      cases hg
    · rwa [AList.lookup_erase_ne hother] at hg
  have hin : ∀ other, other ∈ s.desktop.erase name → other ∈ s.desktop :=
    fun other hother => (AList.mem_erase.mp hother).2
  exact {
    clock := h.clock
    lastSync := h.lastSync
    made := fun other g hg => h.made other g (hold other g hg)
    latest := fun v e hv he => h.latest v e hv (hin e.name he)
    intact := h.intact
    promised := fun other g hg => h.promised other g (hold other g hg)
    saved := fun ok hphase v e hv hle he => h.saved ok hphase v e hv hle (hin e.name he) }

theorem tick (h : Watched s) {ticks : ℕ} (hrange : s.clock + ticks < 2 ^ 63) :
    Watched { s with clock := s.clock + ticks } where
  clock := ⟨h.clock.epoch.trans (Int.le_add_of_nonneg_right (Int.natCast_nonneg ticks)), hrange⟩
  lastSync := UInt64.le_trans h.lastSync (nowSec_le h.clock hrange)
  made := h.made
  latest := h.latest
  intact := h.intact
  promised := h.promised
  saved := h.saved

theorem crash (h : Watched s) : Watched { s with phase := .crashed } where
  clock := h.clock
  lastSync := h.lastSync
  made := h.made
  latest := h.latest
  intact hphase := by cases hphase
  promised _ _ _ := .inr trivial
  saved _ hphase := by cases hphase

/-- The loop goes from one phase to another in which nothing has been listed. -/
theorem idle (h : Watched s) {phase : LoopPhase}
    (hfrom : s.phase = .waiting ∨ s.phase = .connecting ∨ s.phase = .resting)
    (hto : phase = .waiting ∨ phase = .connecting ∨ phase = .scanning) (triggered : Bool)
    (st : SendState) : Watched { s with phase := phase, triggered := triggered, st := st } where
  clock := h.clock
  lastSync := h.lastSync
  made := h.made
  latest := h.latest
  intact hphase := by rcases hto with rfl | rfl | rfl <;> cases hphase
  promised name f hf := by
    have hcollected := h.promised name f hf
    rw [Promised] at hcollected
    rcases hfrom with hp | hp | hp <;> rw [hp] at hcollected <;>
      rcases hto with rfl | rfl | rfl <;> exact hcollected
  saved _ hphase := by rcases hto with rfl | rfl | rfl <;> cases hphase

/-! ### The upload -/

/-- `SyncUploadOnce` without a connection. -/
theorem unreached (h : Watched s) (hphase : s.phase = .connecting) (hdate : upToDate s = true) :
    Watched { s with phase := .stamping false } where
  clock := h.clock
  lastSync := h.lastSync
  made := h.made
  latest := h.latest
  intact hphase := by cases hphase
  promised name f hf := by
    rcases h.promised name f hf with hhas | hpromised
    · exact .inl hhas
    · rw [Promised, hphase] at hpromised
      have hnew := List.all_eq_true.mp hdate ⟨name, f⟩ (AList.mem_lookup_iff.mp hf)
      rw [hpromised] at hnew
      cases hnew
  saved _ hphase := by cases hphase

/-- Every file that has to be delivered is among those that the listing collects. -/
theorem mem_collected {d : Desktop} {order : List FileName} {name : FileName} {f : File}
    {lastSync : UInt64} (hf : d.lookup name = some f) (horder : name ∈ order)
    (hcollected : (f.entry name).collected lastSync = true) :
    name ∈ ((d.listing order).filter (DirEntry.collected lastSync)).filterMap
      fun e => FileName.ofUnits e.file.name := by
  refine List.mem_filterMap.mpr ⟨f.entry name, List.mem_filter.mpr ⟨?_, hcollected⟩,
    name.ofUnits_units⟩
  exact List.mem_filterMap.mpr ⟨name, horder, by rw [hf]; rfl⟩

theorem scan (h : Watched s) (loop : LoopConfig) {order : List FileName} (listed : Bool)
    (pad : UInt16) (hphase : s.phase = .scanning)
    (horder : order.isPerm s.desktop.keys = true)
    (hadmits : admits s.st.sink.refusals headerSize = true) :
    Watched (s.scan loop.cfg order listed pad) := by
  rw [LoopState.scan]
  simp only [collectFiles, if_neg loop.desktopPath]
  cases listed with
  | false => exact h.crash
  | true =>
      simp only [if_true, Option.map_some]
      split
      · exact h.crash
      · refine ⟨h.clock, h.lastSync, h.made, h.latest, fun _ => ?_, fun name f hf => ?_, ?_⟩
        · exact (sendHeader_ok _ _).trans hadmits
        · refine (h.promised name f hf).imp_right fun hpromised => ?_
          rw [Promised, hphase] at hpromised
          have hkey : name ∈ s.desktop.keys := AList.mem_keys.mp (Desktop.mem_of_lookup hf)
          exact .inl (mem_collected hf ((List.isPerm_iff.mp horder).mem_iff.mpr hkey) hpromised)
        · intro ok hphase
          cases hphase

theorem header (h : Watched s) (md5 : Digest) (sized hashed : Bool) (pad : UInt16)
    {name : FileName} {files : List FileName} {total : UInt64}
    (hphase : s.phase = .sending (name :: files) total)
    (hadmits : admits s.st.sink.refusals (headerSize + (wideToUtf8 name.units).length) = true) :
    Watched (s.header md5 sized hashed pad name files total) := by
  have hintact : s.intact = true := h.intact (by rw [hphase]; rfl)
  have hfits := name.length_wideToUtf8
  have hthrew : ∀ hash stream, sendFileFront md5 .update pad s.st
      ⟨name.units, none, hash, stream⟩ = (.threw, s.st) :=
    fun _ _ => sendFileFront_of_gone hfits rfl
  rw [LoopState.header]
  cases hf : s.desktop.lookup name with
  | none =>
      have hgone : s.desktop.access name.units = .gone name.units := by
        rw [Desktop.access, FileName.ofUnits_units, Option.bind_some, hf]
      simp only [hgone, FileAccess.gone, ite_self]
      rw [hthrew]
      exact h.crash
  | some f =>
      simp only [Desktop.access_of_lookup hf, File.access]
      cases sized with
      | false =>
          simp only [Bool.false_eq_true, if_false]
          rw [hthrew]
          exact h.crash
      | true =>
          simp only [if_true]
          obtain ⟨st', hsent⟩ := sendFileFront_ok md5 pad
            (f := ⟨name.units, some f.size, if hashed then some f.data else none, some f.data⟩)
            hfits rfl hadmits
          rw [hsent]
          refine ⟨h.clock, h.lastSync, h.made, h.latest, fun _ => hintact, ?_, ?_⟩
          · intro other g hg
            refine (h.promised other g hg).imp_right fun hpromised => ?_
            rw [Promised, hphase] at hpromised
            by_cases hother : other = name
            · subst hother
              rw [hf, Option.some.injEq] at hg
              exact .inr ⟨rfl, by rw [← hg]; rfl⟩
            · exact .inl (hpromised.imp_left fun hin => (List.mem_cons.mp hin).resolve_left hother)
          · intro ok hphase
            cases hphase

theorem opened (h : Watched s) {name : FileName} {size total : UInt64} {files : List FileName}
    (hphase : s.phase = .opening name size files total) :
    Watched { s with phase := .reading name size [] files total } where
  clock := h.clock
  lastSync := h.lastSync
  made := h.made
  latest := h.latest
  intact _ := h.intact (by rw [hphase]; rfl)
  promised other f hf := by
    refine (h.promised other f hf).imp_right fun hpromised => ?_
    rw [Promised, hphase] at hpromised
    exact hpromised.imp_right fun ⟨hname, hsize⟩ => ⟨hname, hsize, List.nil_prefix⟩
  saved _ hphase := by cases hphase

/-- What has been read of the file, with its next block, is a part of it; a short block is
the last. -/
theorem append_block {payload data : List UInt8} (h : payload <+: data) :
    payload ++ (data.drop payload.length).take blockSize <+: data ∧
      (((data.drop payload.length).take blockSize).length < blockSize →
        payload ++ (data.drop payload.length).take blockSize = data) := by
  obtain ⟨rest, rfl⟩ := h
  rw [List.drop_left]
  refine ⟨(List.prefix_append_right_inj payload).mpr (List.take_prefix _ _), fun hshort => ?_⟩
  rw [List.length_take] at hshort
  rw [List.take_of_length_le (by omega)]

theorem block_of_lookup {name : FileName} {f : File} (hf : s.desktop.lookup name = some f)
    (offset : ℕ) : s.block name offset = (f.data.drop offset).take blockSize := by
  rw [LoopState.block, Desktop.data, hf]
  rfl

theorem length_block (s : LoopState) (name : FileName) (offset : ℕ) :
    (s.block name offset).length ≤ blockSize :=
  List.length_take_le _ _

/-- The last block is out, and with it the file as it is. -/
theorem sentFile (h : Watched s) {name : FileName} {size total : UInt64} {payload : List UInt8}
    {files : List FileName} (hphase : s.phase = .reading name size payload files total)
    (hshort : (s.block name payload.length).length < blockSize) (st : SendState) :
    Watched (s.sentFile st
      ⟨name, size, payload ++ s.block name payload.length, s.version name⟩ files total) where
  clock := h.clock
  lastSync := h.lastSync
  made := h.made
  latest := h.latest
  intact _ := h.intact (by rw [hphase]; rfl)
  promised other f hf := by
    have hf' : s.desktop.lookup other = some f := hf
    refine (h.promised other f hf).imp_right fun hpromised => ?_
    rw [Promised, hphase] at hpromised
    rcases hpromised with (hin | hhas) | ⟨rfl, hsize, hprefix⟩
    · exact .inl hin
    · exact .inr (hhas.mono (List.prefix_refl _) (List.subset_cons_self _ _))
    · have hdata : payload ++ s.block other payload.length = f.data := by
        rw [block_of_lookup hf'] at hshort ⊢
        exact (append_block hprefix).2 hshort
      obtain ⟨time, hmade⟩ := h.made other f hf
      refine .inr ⟨_, List.mem_cons_self, rfl, rfl, ⟨time, ?_⟩, ?_⟩
      · rw [hdata]
        exact hmade
      · rw [hdata]
        exact hsize
  saved _ hphase := by cases hphase

theorem readBlock (h : Watched s) {name : FileName} {size total : UInt64} {payload : List UInt8}
    {files : List FileName} (hphase : s.phase = .reading name size payload files total)
    (hadmits : admits s.st.sink.refusals (s.block name payload.length).length = true) :
    Watched (s.readBlock name size payload files total) := by
  have hsent := sendBlock_ok total (length_block s name payload.length) hadmits
  rw [LoopState.readBlock]
  simp only [hsent, if_true]
  split
  · next hnil =>
      have hlast := h.sentFile hphase (by rw [hnil]; decide) s.st
      rwa [hnil, List.append_nil] at hlast
  · split
    · next hshort => exact h.sentFile hphase hshort _
    · refine ⟨h.clock, h.lastSync, h.made, h.latest, fun _ => h.intact (by rw [hphase]; rfl),
        fun other f hf => ?_, ?_⟩
      · have hf' : s.desktop.lookup other = some f := hf
        refine (h.promised other f hf).imp_right fun hpromised => ?_
        rw [Promised, hphase] at hpromised
        refine hpromised.imp_right fun ⟨hname, hsize, hprefix⟩ => ⟨hname, hsize, ?_⟩
        rw [← hname, block_of_lookup hf']
        exact (append_block hprefix).1
      · intro ok hphase
        cases hphase

/-- END is out: what the session carried has been delivered. -/
theorem finish (h : Watched s) {total : UInt64} (pad : UInt16)
    (hphase : s.phase = .sending [] total ∨ s.phase = .ending total)
    (hadmits : admits s.st.sink.refusals headerSize = true) : Watched (s.finish pad total) where
  clock := h.clock
  lastSync := h.lastSync
  made := h.made
  latest := h.latest
  intact hphase := by cases hphase
  promised name f hf := by
    have hended : (sendEnd s.st pad).1 = true := (sendHeader_ok _ _).trans hadmits
    have hkept : s.delivered ⊆ (s.finish pad total).delivered := by
      simp only [LoopState.finish]
      split
      · exact List.subset_append_right _ _
      · exact List.Subset.refl _
    rcases h.promised name f hf with hhas | hpromised
    · exact .inl (hhas.mono (List.prefix_refl _) hkept)
    · rw [Promised] at hpromised
      rcases hphase with hp | hp
      · have hintact : s.intact = true := h.intact (by rw [hp]; rfl)
        have hcarried : s.session ⊆ (s.finish pad total).delivered := by
          simp only [LoopState.finish, hintact, hended, Bool.and_self, if_true]
          exact List.subset_append_left _ _
        rw [hp] at hpromised
        have hhas := hpromised.resolve_left List.not_mem_nil
        exact .inl (hhas.mono (List.prefix_refl _) hcarried)
      · rw [hp] at hpromised
        exact hpromised.elim
  saved _ hphase := by cases hphase

/-! ### The watermark -/

/-- Where every file has been delivered as it is, every time is a watermark. -/
theorem sound (h : Watched s)
    (hall : ∀ name f, s.desktop.lookup name = some f →
      Has s.log s.delivered name (s.version name)) (t : UInt64) : s.Sound t := by
  intro v e hv _ hin
  obtain ⟨f, hf⟩ := Option.isSome_iff_exists.mp (AList.lookup_isSome.mpr hin)
  obtain ⟨d, hd, hname, hversion, hwhole⟩ := hall e.name f hf
  exact ⟨d, hd, hname, hversion ▸ h.latest v e hv hin, hwhole⟩

theorem stamp (h : Watched s) {ok : Bool} (hphase : s.phase = .stamping ok) :
    Watched { s with phase := .saving ok, lastSync := nowSec s.clock } := by
  have hall : ∀ name f, s.desktop.lookup name = some f →
      Has s.log s.delivered name (s.version name) := by
    intro name f hf
    refine (h.promised name f hf).resolve_right fun hpromised => ?_
    rwa [Promised, hphase] at hpromised
  exact {
    clock := h.clock
    lastSync := UInt64.le_refl _
    made := h.made
    latest := h.latest
    intact := fun hphase => (by cases hphase)
    promised := fun name f hf => .inl (hall name f hf)
    saved := fun ok _ => h.sound hall _ }

theorem save (h : Watched s) {ok : Bool} (hphase : s.phase = .saving ok) :
    Watched { s with phase := if ok then .resting else .waiting, iniLastSync := s.lastSync } where
  clock := h.clock
  lastSync := h.lastSync
  made := h.made
  latest := h.latest
  intact hphase := by cases ok <;> cases hphase
  promised name f hf := by
    refine (h.promised name f hf).imp_right fun hpromised => ?_
    rw [Promised, hphase] at hpromised
    cases ok <;> exact hpromised
  saved _ hphase := by cases ok <;> cases hphase

end Watched

/-! ## Runs -/

theorem watched_of_starts {s : LoopState} (h : s.Starts) : Watched s where
  clock := ⟨h.epoch, h.range⟩
  lastSync := h.lastSync
  made := h.made
  latest := h.latest
  intact hphase := by
    rw [h.waiting] at hphase
    cases hphase
  promised name f hf := by
    rcases h.collected name f hf with hcollected | ⟨d, hd, hname, hversion, hwhole⟩
    · refine .inr ?_
      rw [Promised, h.waiting]
      exact hcollected
    · obtain ⟨time, hmade⟩ := hwhole.made
      have hin : d.name ∈ s.desktop := hname ▸ Desktop.mem_of_lookup hf
      have hlatest := h.latest d.version _ hmade hin
      rw [hname] at hlatest
      exact .inl ⟨d, hd, hname, le_antisymm hlatest hversion, hwhole⟩
  saved ok hphase := by
    rw [h.waiting] at hphase
    cases hphase

/-- No safe step loses anything. -/
theorem watched_step (loop : LoopConfig) {s s' : LoopState} {e : LoopEvent} (h : Watched s)
    (hsafe : safe s e = true) (hs : loopStep loop s e = some s') : Watched s' := by
  unfold loopStep at hs
  split at hs
  · next name data lastWriteTime =>
      obtain ⟨f, hf, rfl⟩ := Option.map_eq_some_iff.mp hs
      obtain ⟨hsized, hf⟩ := Option.dite_none_right_eq_some.mp hf
      rw [← Option.some.inj hf]
      exact h.edit hsafe
  · next name =>
      obtain ⟨-, hs⟩ := Option.ite_none_left_eq_some.mp hs
      rw [← Option.some.inj hs]
      exact h.remove name
  · next ticks =>
      obtain ⟨hrange, hs⟩ := Option.ite_none_right_eq_some.mp hs
      rw [← Option.some.inj hs]
      exact h.tick hrange
  · rw [← Option.some.inj hs]
    exact ⟨h.clock, h.lastSync, h.made, h.latest, h.intact, h.promised, h.saved⟩
  · next hphase =>
      obtain ⟨-, hs⟩ := Option.ite_none_right_eq_some.mp hs
      rw [← Option.some.inj hs]
      exact h.idle (.inl hphase) (.inr (.inl rfl)) false s.st
  · next resolves connects sink hphase =>
      split at hs
      · rw [← Option.some.inj hs]
        exact h.idle (.inr (.inl hphase)) (.inr (.inr rfl)) s.triggered _
      · next hreached =>
          rw [← Option.some.inj hs]
          exact h.unreached hphase ((Bool.or_eq_true_iff.mp hsafe).resolve_left hreached)
  · next order listed pad hphase =>
      obtain ⟨horder, hs⟩ := Option.ite_none_right_eq_some.mp hs
      rw [← Option.some.inj hs]
      exact h.scan loop listed pad hphase horder hsafe
  · next sized hashed pad name files total hphase =>
      simp only [safe, hphase] at hsafe
      rw [← Option.some.inj hs]
      exact h.header loop.md5 sized hashed pad hphase hsafe
  · next opens name size files total hphase =>
      simp only [safe, hphase] at hsafe
      simp only [hsafe, if_true] at hs
      rw [← Option.some.inj hs]
      exact h.opened hphase
  · next name size payload files total hphase =>
      simp only [safe, hphase] at hsafe
      rw [← Option.some.inj hs]
      exact h.readBlock hphase hsafe
  · next pad total hphase =>
      rw [← Option.some.inj hs]
      exact h.finish pad (.inl hphase) hsafe
  · next pad total hphase =>
      rw [← Option.some.inj hs]
      exact h.finish pad (.inr hphase) hsafe
  · next ok hphase =>
      rw [← Option.some.inj hs]
      exact h.stamp hphase
  · next ok hphase =>
      rw [← Option.some.inj hs]
      exact h.save hphase
  · next hphase =>
      rw [← Option.some.inj hs]
      exact h.idle (.inr (.inr hphase)) (.inl rfl) s.triggered s.st
  · cases hs

theorem watched_of_reachable (loop : LoopConfig) {s : LoopState}
    (h : (mainLoop loop).ReachableBy (fun s e => safe s e = true) s) : Watched s :=
  h.invariant (fun _ => watched_of_starts) fun _ _ _ => watched_step loop

/-- As long as nothing has been listed, a write that leaves the time it is made at is
tolerated. -/
theorem tolerates_now (loop : LoopConfig) {s : LoopState}
    (h : (mainLoop loop).ReachableBy (fun s e => safe s e = true) s)
    (hphase : s.phase ∈ [.waiting, .connecting, .scanning, .resting]) (name : FileName)
    (data : List UInt8) : tolerates s name data s.clock = true := by
  have hwatched := watched_of_reachable loop h
  have hnew := newer_now hwatched.clock hwatched.lastSync
  simp only [List.mem_cons, List.not_mem_nil, or_false] at hphase
  rw [tolerates]
  rcases hphase with hp | hp | hp | hp <;> rw [hp] <;> exact hnew

/-- A value is stored after `SyncUploadOnce` has returned, and once more in the INI. -/
theorem stored_cases {loop : LoopConfig} {s s' : LoopState} {e : LoopEvent} {t : UInt64}
    (hs : loopStep loop s e = some s') (ht : e.stored s' = some t) :
    (∃ ok, s.phase = .stamping ok ∧ t = nowSec s.clock ∧
      s' = { s with phase := .saving ok, lastSync := nowSec s.clock }) ∨
    ∃ ok, s.phase = .saving ok ∧ t = s.lastSync ∧
      s' = { s with phase := if ok then .resting else .waiting, iniLastSync := s.lastSync } := by
  cases e with
  | stamp =>
      cases hphase : s.phase with
      | stamping ok =>
          simp only [loopStep, hphase, Option.some.injEq] at hs
          rw [← hs] at ht ⊢
          exact .inl ⟨ok, rfl, (Option.some.inj ht).symm, rfl⟩
      | _ => simp [loopStep, hphase] at hs
  | save =>
      cases hphase : s.phase with
      | saving ok =>
          simp only [loopStep, hphase, Option.some.injEq] at hs
          rw [← hs] at ht ⊢
          exact .inr ⟨ok, rfl, (Option.some.inj ht).symm, rfl⟩
      | _ => simp [loopStep, hphase] at hs
  | _ => cases ht

/-- Whatever a run of safe steps stores, every edit up to that time to a file that still
exists has been delivered. -/
theorem watermark_sound (loop : LoopConfig) {s s' : LoopState} {e : LoopEvent} {t : UInt64}
    (h : (mainLoop loop).ReachableBy (fun s e => safe s e = true) s)
    (hs : (mainLoop loop).step s e = some s') (ht : e.stored s' = some t) : s'.Sound t := by
  have hwatched := watched_of_reachable loop h
  rcases stored_cases hs ht with ⟨ok, hphase, rfl, rfl⟩ | ⟨ok, hphase, rfl, rfl⟩
  · exact (hwatched.stamp hphase).saved ok rfl
  · exact hwatched.saved ok hphase

/-! ## Concrete runs -/

/-- The loop over `C:\D`. -/
def sampleLoop : LoopConfig := ⟨sampleCfg, by decide, sampleMd5⟩

/-- A peer with an empty desktop, in the fifth second of 1970. -/
def idleLoop : LoopState where
  phase := .waiting
  lastSync := 0
  iniLastSync := 0
  desktop := ∅
  triggered := false
  clock := (unixEpoch + 5) * ticksPerSecond
  st := healthy fun _ => 0
  intact := true
  session := []
  delivered := []
  log := []
  version := fun _ => 0

theorem idleLoop_starts : idleLoop.Starts where
  waiting := rfl
  epoch := by decide
  range := by decide
  lastSync := by decide
  made name f hf := by cases hf
  latest v e hv := by cases hv
  collected name f hf := by cases hf

/-- `a` is written again after it has been listed and before its header goes out. -/
def savedScript : List (LoopState → LoopEvent) :=
  [fun s => .edit nameA [1] s.clock, fun _ => .trigger, fun _ => .wake,
    fun s => .connect true true s.st.sink, fun _ => .scan [nameA] true 0,
    fun s => .edit nameA [2, 3] s.clock, fun _ => .header true true 0, fun _ => .openFile true,
    fun _ => .readBlock, fun _ => .finish 0]

/-- The time that is stored covers both edits of `a`, and the second has been delivered. -/
theorem watermark_sound_saved :
    ∃ s s' t, ((mainLoop sampleLoop).restrict fun s e => safe s e = true).exec idleLoop
        savedScript = some s ∧
      (mainLoop sampleLoop).step s .stamp = some s' ∧ LoopEvent.stamp.stored s' = some t ∧
      s'.log.map Edit.time = [t, t] ∧ s'.Sound t := by
  have hrun : ((((mainLoop sampleLoop).restrict fun s e => safe s e = true).exec idleLoop
      savedScript).bind fun s => ((mainLoop sampleLoop).step s .stamp).map fun s' =>
        (s'.lastSync, s'.log.map Edit.time)) = some (5, [5, 5]) := by
    decide +kernel
  obtain ⟨s, hs, hrun⟩ := Option.bind_eq_some_iff.mp hrun
  obtain ⟨s', hs', hrun⟩ := Option.map_eq_some_iff.mp hrun
  obtain ⟨hstored, hlog⟩ := Prod.mk.inj hrun
  have hidle : (mainLoop sampleLoop).ReachableBy (fun s e => safe s e = true) idleLoop :=
    .init idleLoop_starts
  have hreach := System.ReachableBy.exec hidle hs
  have ht : LoopEvent.stamp.stored s' = some 5 := congrArg some hstored
  exact ⟨s, s', 5, hs, hs', ht, hlog, watermark_sound sampleLoop hreach hs' ht⟩

/-- The connection fails. -/
def unreachedScript : List (LoopState → LoopEvent) :=
  [fun s => .edit nameA [1] s.clock, fun _ => .trigger, fun _ => .wake,
    fun s => .connect true false s.st.sink]

/-- `a` is written after the desktop has been listed. -/
def unlistedScript : List (LoopState → LoopEvent) :=
  [fun _ => .trigger, fun _ => .wake, fun s => .connect true true s.st.sink,
    fun _ => .scan [] true 0, fun _ => .finish 0, fun s => .edit nameA [1] s.clock]

/-- An edit up to the time `t` to a file that still exists has not been delivered. -/
def undelivered (s : LoopState) (t : UInt64) : Bool :=
  s.log.zipIdx.any fun x => decide (x.1.time ≤ t) && decide (x.1.name ∈ s.desktop) &&
    s.delivered.all fun d => !(d.name == x.1.name && decide (x.2 ≤ d.version))

theorem not_sound_of_undelivered {s : LoopState} {t : UInt64} (h : undelivered s t = true) :
    ¬s.Sound t := by
  intro hsound
  obtain ⟨⟨e, v⟩, hmem, hx⟩ := List.any_eq_true.mp h
  simp only [Bool.and_eq_true, decide_eq_true_eq] at hx
  obtain ⟨⟨htime, hin⟩, hnone⟩ := hx
  have hv : s.log[v]? = some e := List.mem_zipIdx_iff_getElem?.mp hmem
  obtain ⟨d, hd, hname, hversion, -⟩ := hsound v e hv htime hin
  have hd' := List.all_eq_true.mp hnone d hd
  simp only [hname, beq_self_eq_true, hversion, decide_true, Bool.and_self, Bool.not_true,
    Bool.false_eq_true] at hd'

/-- Each script with what `SyncUploadOnce` returns in it. -/
def lossyScripts : List (Bool × List (LoopState → LoopEvent)) :=
  [(false, unreachedScript), (true, unlistedScript)]

/-- The time is stored whether the upload failed or not, and it is read after the upload:
in both runs an edit that it covers has not been delivered. -/
theorem stored_undelivered {ok : Bool} {script : List (LoopState → LoopEvent)}
    (hscript : (ok, script) ∈ lossyScripts) :
    ∃ s s', (mainLoop sampleLoop).Reachable s ∧ s.phase = .stamping ok ∧
      (mainLoop sampleLoop).step s .stamp = some s' ∧ ¬s'.Sound s'.lastSync := by
  have hrun : (((mainLoop sampleLoop).exec idleLoop script).bind fun s =>
      ((mainLoop sampleLoop).step s .stamp).map fun s' =>
        (s.phase, undelivered s' s'.lastSync)) = some (.stamping ok, true) := by
    rcases List.mem_pair.mp hscript with heq | heq <;> cases heq
    · decide +kernel
    · decide +kernel
  obtain ⟨s, hs, hrun⟩ := Option.bind_eq_some_iff.mp hrun
  obtain ⟨s', hs', hrun⟩ := Option.map_eq_some_iff.mp hrun
  obtain ⟨hphase, hlost⟩ := Prod.mk.inj hrun
  have hreach := System.Reachable.exec
    (show (mainLoop sampleLoop).Reachable idleLoop from .init idleLoop_starts) hs
  exact ⟨s, s', hreach, hphase, hs', not_sound_of_undelivered hlost⟩

/-- The watermark covers edits that nobody has delivered, also where `SyncUploadOnce`
returned `true`. -/
theorem watermark_unsound :
    (¬∀ (loop : LoopConfig) (s s' : LoopState) (e : LoopEvent) (t : UInt64),
      (mainLoop loop).Reachable s → (mainLoop loop).step s e = some s' →
        e.stored s' = some t → s'.Sound t) ∧
    ∃ s s', (mainLoop sampleLoop).Reachable s ∧ s.phase = .stamping true ∧
      (mainLoop sampleLoop).step s .stamp = some s' ∧ ¬s'.Sound s'.lastSync := by
  constructor
  · intro h
    obtain ⟨s, s', hreach, -, hs', hnot⟩ := stored_undelivered List.mem_cons_self
    exact hnot (h sampleLoop s s' .stamp s'.lastSync hreach hs' rfl)
  · exact stored_undelivered (List.mem_cons_of_mem _ (List.mem_singleton_self _))

end DesktopSync.Analysis
