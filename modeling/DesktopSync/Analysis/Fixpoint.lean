import DesktopSync.Analysis.DesktopUpload
import DesktopSync.Computation.Overlay
import DesktopSync.Model.Transfers

/-!
# Uploads one at a time settle

Nobody edits a file. An upload lays what the receiver got from the sender's files over its
own, a whole upload of everything lays all of them over, so one there and one back leave
both desktops the same. After that every file that arrives is one the receiver holds
already: a session stores whole files only, wherever it is cut off.
-/

set_option autoImplicit false

namespace DesktopSync.Analysis

open DesktopSync.Model
open Exchange Overlay TransitionSystem

/-- What an upload can carry under a name. -/
def Carriable (name : FileName) (content : List UInt8) : Prop :=
  Utf.WellFormed name.units ∧ content.length < 2 ^ 31

instance (name : FileName) (content : List UInt8) : Decidable (Carriable name content) :=
  inferInstanceAs (Decidable (_ ∧ _))

/-! ## What a session stores -/

/-- The write of a file, to a name joined to the directory. -/
def Stores (dir : WString) (x : FileName × List UInt8) (w : FileWrite) : Prop :=
  w.target = WindowsPath.join dir x.1.units ∧ w.data = x.2

theorem data_write (d : Desktop) {dir : WString} (time : ℤ) {x : FileName × List UInt8}
    {w : FileWrite} (hw : Stores dir x w) (hsized : x.2.length < 2 ^ 64) :
    (d.write dir time w).data = Function.update d.data x.1 (some x.2) := by
  obtain ⟨htarget, hdata⟩ := hw
  funext name
  rw [Desktop.write_join d dir time htarget (hdata ▸ hsized)]
  by_cases hname : name = x.1
  · rw [hname, Desktop.data_insert_self, Function.update_self]
    exact congrArg some hdata
  · rw [Desktop.data_insert_of_ne d _ hname, Function.update_of_ne hname]

/-- The writes of a session are the entries they store, written one after the other. -/
theorem data_storeAll {dir : WString} (times : ℕ → ℤ) {files : List (FileName × List UInt8)}
    {writes : List FileWrite} (hwrites : List.Forall₂ (Stores dir) files writes)
    (hsized : ∀ x ∈ files, x.2.length < 2 ^ 64) (k : ℕ) (d : Desktop) :
    (d.storeAll dir times k writes).data = putAll d.data files := by
  induction hwrites generalizing k d with
  | nil => rfl
  | @cons x w files writes hw _ ih =>
      rw [Desktop.storeAll, ih (fun y hy => hsized y (List.mem_cons_of_mem _ hy)),
        data_write d (times k) hw (hsized x List.mem_cons_self), putAll_cons]

/-- A session over the front of an upload's bytes stores the files from the front of the
upload, and all of them if all bytes arrived. -/
theorem session_stores (net : Pairing) (p : Side) (now : UInt64) (pads : ℕ → UInt16)
    {files : List (FileName × List UInt8)} (hfiles : ∀ x ∈ files, Carriable x.1 x.2)
    (disk : ℕ → StoreReply) {conn : Conn}
    (hconn : conn.toList <+: uploadBytes net.md5 now pads (holdings files)) :
    let writes := (handleIncoming (net.cfg p) disk conn).writes
    List.Forall₂ (Stores (net.cfg p).desktopPath) (files.take writes.length) writes ∧
      (conn.toList = uploadBytes net.md5 now pads (holdings files) →
        writes.length = files.length) := by
  intro writes
  have hwhole : ∀ f ∈ holdings files, SentWhole f := by
    intro f hf
    obtain ⟨x, hx, rfl⟩ := List.mem_map.mp hf
    exact sentWhole_holding x.1 (hfiles x hx).2
  let all := writesOf (net.cfg p) disk 0 (packetItems net.md5 pads Model.headerSize 1
    (holdings files))
  have hall : List.Forall₂ (Stores (net.cfg p).desktopPath) files all := by
    rw [← net.targetDir p]
    exact writesOf_holdings (net.cfg p) disk net.md5 pads 0 Model.headerSize 1 files
      fun x hx => (hfiles x hx).1
  have hsession : ∀ c : Conn, c.toList = uploadBytes net.md5 now pads (holdings files) →
      (handleIncoming (net.cfg p) disk c).writes = all := by
    intro c hc
    rw [← List.append_nil (uploadBytes net.md5 now pads (holdings files))] at hc
    exact (handleIncoming_upload net.md5 now pads hwhole (net.cfg p) disk hc).2.2
  constructor
  · obtain ⟨rest, hrest⟩ := hconn
    have hlonger : (ChunkedSource.Source.whole (conn.toList ++ rest)).toList =
        conn.toList ++ rest := ChunkedSource.Source.toList_whole _
    have hfront := writes_of_longer (net.cfg p) disk ⟨rest, hlonger.symm⟩
    rw [hsession _ (hlonger.trans hrest), List.prefix_iff_eq_take] at hfront
    have htaken := List.forall₂_take writes.length hall
    rw [← hfront] at htaken
    exact htaken
  · intro hall'
    rw [hall.length_eq]
    exact congrArg List.length (hsession conn hall')

/-! ## One upload -/

/-- An upload writes files of the sender over what the receiver holds, everything the
sender holds if it is whole and there is no last synchronisation. -/
theorem transferStep_data {net : Pairing} {d d' : Side → Desktop} {t : Transfer}
    (hcarried : Entries Carriable (d t.sender).data) (h : transferStep net d t = some d') :
    d' t.sender = d t.sender ∧
      ∃ entries : List (FileName × List UInt8),
        (∀ e ∈ entries, (d t.sender).data e.1 = some e.2) ∧
          (d' t.sender.other).data = putAll (d t.sender.other).data entries ∧
          (Completes net d t.sender t → ∀ name content,
            (d t.sender).data name = some content → (name, content) ∈ entries) := by
  obtain ⟨hguard, hd'⟩ := Option.ite_none_right_eq_some.mp h
  rw [Bool.and_eq_true, List.isPerm_iff, List.isPrefixOf_iff_prefix] at hguard
  obtain ⟨horder, hconn⟩ := hguard
  rw [← Option.some.inj hd']
  have hroot : ({ net.cfg t.sender with lastSync := t.lastSync } : IniState).desktopPath ≠ [] :=
    net.desktopPath t.sender
  obtain ⟨files, hdata, -, htaken, hall⟩ := syncUploadOnce_listing hroot [] net.md5 t.now t.pads
    t.limit (d t.sender) t.order
  have hsent : t.sent net d = uploadBytes net.md5 t.now t.pads (holdings files) := htaken
  rw [hsent] at hconn
  have hcarriable : ∀ x ∈ files, Carriable x.1 x.2 := fun x hx => hcarried x.1 x.2 (hdata x hx)
  obtain ⟨hstores, hwhole⟩ := session_stores net t.sender.other t.now t.pads hcarriable
    (fun _ => ⟨true, true⟩) hconn
  refine ⟨Function.update_of_ne t.sender.other_ne.symm _ _,
    files.take (t.session net).writes.length, ?_, ?_, ?_⟩
  · intro e he
    exact hdata e (List.mem_of_mem_take he)
  · rw [Function.update_self]
    apply data_storeAll t.times hstores
    intro x hx
    exact Desktop.length_data (hdata x (List.mem_of_mem_take hx))
  · intro hcompletes name content hname
    have hlength : (t.session net).writes.length = files.length :=
      hwhole (hcompletes.whole.trans hsent)
    rw [hlength, List.take_length]
    have hlisted : name ∈ t.order := horder.mem_iff.mpr (Desktop.mem_of_data hname)
    exact hall hcompletes.lastSync name hlisted content hname

/-- A whole upload of everything lays the sender's files over the receiver's. -/
theorem transferStep_completes {net : Pairing} {d d' : Side → Desktop} {p : Side} {t : Transfer}
    (hcarried : Entries Carriable (d p).data) (hcompletes : Completes net d p t)
    (h : transferStep net d t = some d') :
    (d' p).data = (d p).data ∧ (d' p.other).data = overlay (d p).data (d p.other).data := by
  obtain rfl := hcompletes.sender
  obtain ⟨hsender, entries, hentries, hreceiver, hall⟩ := transferStep_data hcarried h
  constructor
  · rw [hsender]
  · rw [hreceiver]
    exact putAll_whole _ hentries (hall hcompletes)

/-- Where both desktops hold the same, an upload changes neither. -/
theorem transferStep_settled {net : Pairing} {d d' : Side → Desktop} {t : Transfer}
    {m : FileName → Option (List UInt8)} (hcarried : Entries Carriable m)
    (hd : ∀ q, (d q).data = m) (h : transferStep net d t = some d') : ∀ q, (d' q).data = m := by
  obtain ⟨hsender, entries, hentries, hreceiver, -⟩ :=
    transferStep_data (hd t.sender ▸ hcarried) h
  rw [hd t.sender] at hentries
  intro q
  rcases t.sender.eq_or_eq_other q with rfl | rfl
  · rw [hsender, hd]
  · rw [hreceiver, hd]
    exact putAll_settled hentries

/-! ## There and back, and anything after that -/

theorem transfers_settled {net : Pairing} {d : Side → Desktop}
    {m : FileName → Option (List UInt8)} (hcarried : Entries Carriable m)
    (hd : ∀ q, (d q).data = m) {d' : Side → Desktop} (h : (transfers net d).Reachable d') :
    ∀ q, (d' q).data = m := by
  have hinit : ∀ s, (transfers net d).init s → ∀ q, (s q).data = m := by
    rintro _ rfl
    exact hd
  have hstep : ∀ s t s', (∀ q, (s q).data = m) → (transfers net d).step s t = some s' →
      ∀ q, (s' q).data = m := by
    intro s t s' hs hs'
    exact transferStep_settled hcarried hs hs'
  exact h.invariant hinit hstep

/-- A whole upload of everything there and one back leave both desktops with the files of
the first sender laid over those of the other, and no number of uploads, of whatever
files and cut off anywhere, changes either after that. -/
theorem transfers_fixpoint (net : Pairing) {d d₁ d₂ : Side → Desktop} {p : Side}
    {there back : Transfer} (hcarried : ∀ q, Entries Carriable (d q).data)
    (hthere : Completes net d p there) (hd₁ : transferStep net d there = some d₁)
    (hback : Completes net d₁ p.other back) (hd₂ : transferStep net d₁ back = some d₂) :
    (∀ q, (d₂ q).data = overlay (d p).data (d p.other).data) ∧
      ∀ d', (transfers net d₂).Reachable d' → ∀ q, (d' q).data = (d₂ q).data := by
  have hunion : Entries Carriable (overlay (d p).data (d p.other).data) :=
    entries_overlay (hcarried p) (hcarried p.other)
  obtain ⟨hp, hother⟩ := transferStep_completes (hcarried p) hthere hd₁
  obtain ⟨hother', hp'⟩ := transferStep_completes (hother ▸ hunion) hback hd₂
  rw [Side.other_other, hother, hp, overlay_back] at hp'
  rw [hother] at hother'
  have hboth : ∀ q, (d₂ q).data = overlay (d p).data (d p.other).data := by
    intro q
    rcases p.eq_or_eq_other q with rfl | rfl
    · exact hp'
    · exact hother'
  refine ⟨hboth, ?_⟩
  intro d' hreach q
  rw [hboth q]
  exact transfers_settled hunion hboth hreach q

/-! ## Whole uploads -/

/-- The upload of everything side `p` holds, delivered in one piece. -/
def wholeUpload (net : Pairing) (d : Side → Desktop) (p : Side) : Transfer :=
  let t : Transfer :=
    { sender := p
      lastSync := 0
      order := (d p).keys
      now := 0
      pads := fun _ => 0
      limit := fun _ => 4096
      conn := .whole []
      times := fun _ => 0 }
  { t with conn := .whole (t.sent net d) }

/-- Nothing keeps a side from uploading everything. -/
theorem completes_wholeUpload (net : Pairing) (d : Side → Desktop) (p : Side) :
    Completes net d p (wholeUpload net d p) ∧
      ∃ d', transferStep net d (wholeUpload net d p) = some d' := by
  have hwhole : (wholeUpload net d p).conn.toList = (wholeUpload net d p).sent net d :=
    ChunkedSource.Source.toList_whole _
  refine ⟨⟨rfl, rfl, hwhole⟩, _, if_pos ?_⟩
  rw [Bool.and_eq_true, List.isPerm_iff, List.isPrefixOf_iff_prefix, hwhole]
  exact ⟨.refl _, List.prefix_refl _⟩

/-- The left desktop holds `a`, the right one another `a` and an empty file. -/
def sampleDesktops : Side → Desktop
  | .left => AList.singleton nameA ⟨[1], 0, by decide⟩
  | .right => (AList.singleton nameA ⟨[2], 0, by decide⟩).insert nameB ⟨[], 0, by decide⟩

/-- After one upload there and one back both have the left `a` and the empty file, and
keep them. -/
theorem transfers_fixpoint_sample :
    ∃ d₁ d₂, transferStep sampleNet sampleDesktops (wholeUpload sampleNet sampleDesktops .left) =
        some d₁ ∧
      transferStep sampleNet d₁ (wholeUpload sampleNet d₁ .right) = some d₂ ∧
      ∀ d', (transfers sampleNet d₂).Reachable d' → ∀ q,
        (d' q).data nameA = some [1] ∧ (d' q).data nameB = some [] := by
  have hcarried : ∀ q, Entries Carriable (sampleDesktops q).data := by
    have hkeys : ∀ q, ∀ name ∈ (sampleDesktops q).keys,
        ∀ content ∈ (sampleDesktops q).data name, Carriable name content := by
      decide
    intro q name content hname
    exact hkeys q name (Desktop.mem_of_data hname) content hname
  obtain ⟨hthere, d₁, hd₁⟩ := completes_wholeUpload sampleNet sampleDesktops .left
  obtain ⟨hback, d₂, hd₂⟩ := completes_wholeUpload sampleNet d₁ .right
  obtain ⟨hunion, hsettled⟩ := transfers_fixpoint sampleNet hcarried hthere hd₁ hback hd₂
  refine ⟨d₁, d₂, hd₁, hd₂, ?_⟩
  intro d' hreach q
  rw [hsettled d' hreach q, hunion q]
  decide

end DesktopSync.Analysis
