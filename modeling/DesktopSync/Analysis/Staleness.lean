import DesktopSync.Analysis.Sessions
import DesktopSync.Computation.Replica

/-!
# Which contents an older edit can overwrite

The receiver overwrites whatever it finds, so a session can put an older edit in the
place of a newer one. As long as no session has read a file while a copy of it was under
way from the other side, it can do so only where the newer one was made on the receiving
desktop and no session has carried it over since: once it has been carried, the other
peer holds it, or something newer, and has nothing older to send.
-/

set_option autoImplicit false

namespace DesktopSync.Analysis

open DesktopSync.Model
open Framing Exchange TransitionSystem

/-! ## A file as the two peers hold it -/

/-- The versions of a file among these copies. -/
def versionsOf (name : FileName) (flight : List Copy) : List ℕ :=
  (flight.filter fun c => c.name = name).map Copy.version

/-- With nothing under way there is no version. -/
@[simp] theorem versionsOf_nil (name : FileName) : versionsOf name [] = [] := rfl

/-- Copies that set out later stand behind the others. -/
theorem versionsOf_append (name : FileName) (flight more : List Copy) :
    versionsOf name (flight ++ more) = versionsOf name flight ++ versionsOf name more := by
  rw [versionsOf, List.filter_append, List.map_append]
  rfl

/-- The first copy of a file is its first version. -/
theorem versionsOf_cons_self (c : Copy) (flight : List Copy) :
    versionsOf c.name (c :: flight) = c.version :: versionsOf c.name flight := by
  simp [versionsOf]

/-- A copy of another file does not count. -/
theorem versionsOf_cons_of_ne {name : FileName} {c : Copy} (h : name ≠ c.name)
    (flight : List Copy) : versionsOf name (c :: flight) = versionsOf name flight := by
  simp [versionsOf, h.symm]

/-- A version is that of a copy of the file. -/
theorem mem_versionsOf {name : FileName} {flight : List Copy} {v : ℕ} :
    v ∈ versionsOf name flight ↔ ∃ c ∈ flight, c.name = name ∧ c.version = v := by
  simp [versionsOf, and_assoc]

/-- Without versions no copy of the file is under way. -/
theorem versionsOf_eq_nil {name : FileName} {flight : List Copy} :
    versionsOf name flight = [] ↔ ∀ c ∈ flight, c.name ≠ name := by
  simp [versionsOf]

/-- The file on both desktops and on the way between them. -/
def cellOf (s : PeersState) (name : FileName) : Replica.Cell where
  version p := (s.peers p).version name
  present p := name ∈ (s.peers p).desktop
  own p := (s.peers p).own name
  flight p := versionsOf name (s.flight p)

section Cells

variable {s s' : PeersState} {name : FileName}

/-- Only these four parts of the state count. -/
theorem cellOf_congr (hversion : ∀ p, (s'.peers p).version name = (s.peers p).version name)
    (hpresent : ∀ p, name ∈ (s'.peers p).desktop ↔ name ∈ (s.peers p).desktop)
    (hown : ∀ p, (s'.peers p).own name = (s.peers p).own name)
    (hflight : ∀ p, versionsOf name (s'.flight p) = versionsOf name (s.flight p)) :
    cellOf s' name = cellOf s name :=
  Replica.Cell.ext (funext hversion) (funext fun p => propext (hpresent p)) (funext hown)
    (funext hflight)

/-- An edit of the file. -/
theorem cellOf_edit (p : Side) (f : File) :
    cellOf (s.edit p name f) name = (cellOf s name).edit p s.history.length := by
  apply Replica.Cell.ext
  all_goals
    funext q
    rcases p.eq_or_eq_other q with rfl | rfl
  all_goals simp [cellOf, PeersState.edit, Replica.Cell.edit, PeersState.set]

/-- An edit of another file. -/
theorem cellOf_edit_of_ne {other : FileName} (h : other ≠ name) (p : Side) (f : File) :
    cellOf (s.edit p name f) other = cellOf s other := by
  apply cellOf_congr
  all_goals
    intro q
    rcases p.eq_or_eq_other q with rfl | rfl
  all_goals simp [PeersState.edit, PeersState.set, h]

/-- The removal of the file. -/
theorem cellOf_remove (p : Side) :
    cellOf (s.remove p name) name = (cellOf s name).remove p := by
  apply Replica.Cell.ext
  all_goals
    funext q
    rcases p.eq_or_eq_other q with rfl | rfl
  all_goals simp [cellOf, PeersState.remove, Replica.Cell.remove, PeersState.set]

/-- The removal of another file. -/
theorem cellOf_remove_of_ne {other : FileName} (h : other ≠ name) (p : Side) :
    cellOf (s.remove p name) other = cellOf s other := by
  apply cellOf_congr
  all_goals
    intro q
    rcases p.eq_or_eq_other q with rfl | rfl
  all_goals simp [PeersState.remove, PeersState.set, h]

/-- A session reads the file. -/
theorem cellOf_depart (p : Side) {c : Copy} (hversion : c.version = (s.peers p).version c.name) :
    cellOf (s.depart p c) c.name = (cellOf s c.name).read p := by
  apply Replica.Cell.ext
  · rfl
  · rfl
  · rfl
  · funext q
    rcases p.eq_or_eq_other q with rfl | rfl
    · simp [cellOf, PeersState.depart, Replica.Cell.read, versionsOf_append,
        versionsOf_cons_self, hversion]
    · simp [cellOf, PeersState.depart, Replica.Cell.read]

/-- A session reads another file. -/
theorem cellOf_depart_of_ne {other : FileName} (p : Side) {c : Copy} (h : other ≠ c.name) :
    cellOf (s.depart p c) other = cellOf s other := by
  apply cellOf_congr
  · exact fun _ => rfl
  · exact fun _ => Iff.rfl
  · exact fun _ => rfl
  · intro q
    rcases p.eq_or_eq_other q with rfl | rfl
    · simp [PeersState.depart, versionsOf_append, versionsOf_cons_of_ne h]
    · simp [PeersState.depart]

/-- A server stores the file. -/
theorem cellOf_land (p : Side) (f : File) (data : List UInt8) {c : Copy} {rest : List Copy} :
    cellOf (s.land p c.name ((s.peers p).desktop.insert c.name f) data c rest) c.name =
      (cellOf s c.name).store p c.version (versionsOf c.name rest) := by
  apply Replica.Cell.ext
  all_goals
    funext q
    rcases p.eq_or_eq_other q with rfl | rfl
  all_goals simp [cellOf, PeersState.land, Replica.Cell.store, PeersState.set]

/-- A server stores another file. -/
theorem cellOf_land_of_ne {other : FileName} (p : Side) (f : File) (data : List UInt8) {c : Copy}
    {rest : List Copy} (h : other ≠ c.name) (hflight : s.flight p.other = c :: rest) :
    cellOf (s.land p c.name ((s.peers p).desktop.insert c.name f) data c rest) other =
      cellOf s other := by
  apply cellOf_congr
  all_goals
    intro q
    rcases p.eq_or_eq_other q with rfl | rfl
  all_goals simp [PeersState.land, PeersState.set, h, hflight, versionsOf_cons_of_ne h]

end Cells

/-! ## The versions -/

/-- The version a peer holds under a name made the content that it holds. -/
def Made (s : PeersState) : Prop :=
  ∀ p name data, (s.peers p).desktop.data name = some data →
    s.history[(s.peers p).version name]? = some (name, data)

/-- So does that of a copy that is under way. -/
def Flown (s : PeersState) : Prop :=
  ∀ p, ∀ c ∈ s.flight p, s.history[c.version]? = some (c.name, c.data)

/-- A replacement is of one edit by another, and of a newer by an older only where the
newer was the receiver's own, or sessions have crossed. -/
structure Accounted (history : List (FileName × List UInt8)) (r : Replacement) : Prop where
  old : history[r.oldVersion]? = some (r.name, r.old)
  new : history[r.newVersion]? = some (r.name, r.new)
  own : r.newVersion < r.oldVersion → r.own = true ∨ r.crossed = true

/-- Every content has its edit, files are settled but where sessions have crossed, and what was
overwritten is accounted for. -/
structure Versioned (s : PeersState) : Prop where
  made : Made s
  flown : Flown s
  settled : ∀ name, s.crossed name = false → Replica.Settled (cellOf s name)
  accounted : ∀ r ∈ s.replaced, Accounted s.history r

namespace Versioned

variable {s : PeersState}

/-- The version of a file that is there has been made. -/
theorem version_lt (h : Made s) {p : Side} {name : FileName}
    (hin : name ∈ (s.peers p).desktop) : (s.peers p).version name < s.history.length := by
  obtain ⟨data, hdata⟩ := Option.isSome_iff_exists.mp
    ((Desktop.data_isSome _ _).mpr hin)
  exact (List.getElem?_eq_some_iff.mp (h p name data hdata)).1

/-- What an edit makes is newer than whatever is under way. -/
theorem versionsOf_lt (h : Flown s) {p : Side} {name : FileName} {v : ℕ}
    (hv : v ∈ versionsOf name (s.flight p)) : v < s.history.length := by
  obtain ⟨c, hc, -, rfl⟩ := mem_versionsOf.mp hv
  exact (List.getElem?_eq_some_iff.mp (h p c hc)).1

/-- What has been made stays so when more is made. -/
theorem getElem?_history {x y : FileName × List UInt8} {v : ℕ} (h : s.history[v]? = some x) :
    (s.history ++ [y])[v]? = some x :=
  List.getElem?_append_left (List.getElem?_eq_some_iff.mp h).1 ▸ h

/-- An edit makes the newest version. -/
theorem edit (h : Versioned s) (p : Side) (name : FileName) (f : File) :
    Versioned (s.edit p name f) where
  made := by
    intro q other data hdata
    rcases p.eq_or_eq_other q with rfl | rfl
    · by_cases hother : other = name
      · simp only [PeersState.edit, PeersState.set_peers_self, hother, Desktop.data_insert_self,
          Option.some.injEq, Function.update_self] at hdata ⊢
        rw [← hdata, List.getElem?_append_right le_rfl, Nat.sub_self]
        rfl
      · simp only [PeersState.edit, PeersState.set_peers_self,
          Desktop.data_insert_of_ne _ _ hother, Function.update_of_ne hother] at hdata ⊢
        exact getElem?_history (h.made q other data hdata)
    · simp only [PeersState.edit, PeersState.set_peers_other] at hdata ⊢
      exact getElem?_history (h.made p.other other data hdata)
  flown q c hc := getElem?_history (h.flown q c hc)
  settled := by
    intro other hcrossed
    have hsettled := h.settled other hcrossed
    by_cases hother : other = name
    · subst hother
      rw [cellOf_edit]
      apply hsettled.edit
      · exact fun v hv => (versionsOf_lt h.flown hv).le
      · exact fun hin => (version_lt h.made hin).le
    · rw [cellOf_edit_of_ne hother]
      exact hsettled
  accounted := by
    intro r hr
    obtain ⟨hold, hnew, hown⟩ := h.accounted r hr
    exact ⟨getElem?_history hold, getElem?_history hnew, hown⟩

/-- A removal makes nothing. -/
theorem remove (h : Versioned s) (p : Side) (name : FileName) : Versioned (s.remove p name) where
  made := by
    intro q other data hdata
    rcases p.eq_or_eq_other q with rfl | rfl
    · simp only [PeersState.remove, PeersState.set_peers_self] at hdata ⊢
      have hother : other ≠ name := by
        rintro rfl
        rw [Desktop.data, AList.lookup_erase] at hdata
        cases hdata
      rw [Desktop.data, AList.lookup_erase_ne hother] at hdata
      exact h.made q other data hdata
    · simp only [PeersState.remove, PeersState.set_peers_other] at hdata ⊢
      exact h.made p.other other data hdata
  flown := h.flown
  settled := by
    intro other hcrossed
    have hsettled := h.settled other hcrossed
    by_cases hother : other = name
    · subst hother
      rw [cellOf_remove]
      exact hsettled.remove
    · rw [cellOf_remove_of_ne hother]
      exact hsettled
  accounted := h.accounted

/-- Sending HELLO and END, taking them, triggers, `lastSync` and the clock change nothing. -/
theorem congr {s' : PeersState} (h : Versioned s)
    (hpeers : ∀ p, (s'.peers p).desktop = (s.peers p).desktop ∧
      (s'.peers p).version = (s.peers p).version ∧ (s'.peers p).own = (s.peers p).own)
    (hflight : s'.flight = s.flight) (hcrossed : s'.crossed = s.crossed)
    (hhistory : s'.history = s.history) (hreplaced : s'.replaced = s.replaced) :
    Versioned s' where
  made := by
    intro p name data hdata
    rw [(hpeers p).1] at hdata
    rw [(hpeers p).2.1, hhistory]
    exact h.made p name data hdata
  flown := by
    intro p
    rw [hflight, hhistory]
    exact h.flown p
  settled := by
    intro name hname
    rw [hcrossed] at hname
    have hcell : cellOf s' name = cellOf s name := by
      apply cellOf_congr
      · exact fun p => congrFun (hpeers p).2.1 name
      · intro p
        rw [(hpeers p).1]
      · exact fun p => congrFun (hpeers p).2.2 name
      · intro p
        rw [hflight]
    rw [hcell]
    exact h.settled name hname
  accounted := by
    rw [hhistory, hreplaced]
    exact h.accounted

/-- A peer reads a file. -/
theorem depart (h : Versioned s) {p : Side} {c : Copy}
    (hdata : (s.peers p).desktop.data c.name = some c.data)
    (hversion : c.version = (s.peers p).version c.name) : Versioned (s.depart p c) where
  made := h.made
  flown := by
    intro q c' hc'
    rcases p.eq_or_eq_other q with rfl | rfl
    · simp only [PeersState.depart, Function.update_self, List.mem_append,
        List.mem_singleton] at hc' ⊢
      rcases hc' with hc' | rfl
      · exact h.flown q c' hc'
      · rw [hversion]
        exact h.made q c'.name c'.data hdata
    · simp only [PeersState.depart, Replica.update_other] at hc' ⊢
      exact h.flown p.other c' hc'
  settled := by
    intro other hcrossed
    obtain ⟨hsame, hnone⟩ := Bool.or_eq_false_iff.mp hcrossed
    have hsettled := h.settled other hsame
    by_cases hother : other = c.name
    · subst hother
      rw [cellOf_depart p hversion]
      apply hsettled.read (Desktop.mem_of_data hdata)
      apply versionsOf_eq_nil.mpr
      simpa using hnone
    · rw [cellOf_depart_of_ne p hother]
      exact hsettled
  accounted := h.accounted

/-- Peers that hold one version with nothing under way are settled. -/
theorem settled_of_agrees {name : FileName} (h : s.agrees name = true) :
    Replica.Settled (cellOf s name) := by
  simp only [PeersState.agrees, Bool.and_eq_true, beq_iff_eq, List.all_eq_true,
    bne_iff_ne] at h
  obtain ⟨⟨⟨-, hversion⟩, hleft⟩, hright⟩ := h
  apply Replica.Settled.of_agrees
  · rintro (_ | _)
    · exact versionsOf_eq_nil.mpr hleft
    · exact versionsOf_eq_nil.mpr hright
  · exact hversion

/-- What is overwritten is accounted for. -/
theorem accounted_overwritten (h : Versioned s) {p : Side} {c : Copy}
    (hc : c ∈ s.flight p.other) :
    ∀ r ∈ s.overwritten p c.name c c.data, Accounted s.history r := by
  intro r hr
  obtain ⟨old, hold, rfl⟩ := List.mem_map.mp hr
  rw [Option.mem_toList] at hold
  refine ⟨h.made p c.name old hold, h.flown p.other c hc, fun hlt => ?_⟩
  by_contra hneither
  obtain ⟨hown, hcrossed⟩ := not_or.mp hneither
  rw [Bool.not_eq_true] at hown hcrossed
  have hle := (h.settled c.name hcrossed).coming p hown (Desktop.mem_of_data hold) c.version
    (mem_versionsOf.mpr ⟨c, hc, rfl, rfl⟩)
  exact absurd hlt (not_lt.mpr hle)

/-- The server of `p` stores the first copy that is under way to it. -/
theorem land (h : Versioned s) {p : Side} {c : Copy} {rest : List Copy}
    (hflight : s.flight p.other = c :: rest) {f : File} (hf : f.data = c.data) :
    Versioned (s.land p c.name ((s.peers p).desktop.insert c.name f) c.data c rest) where
  made := by
    intro q other data hdata
    have hc := h.flown p.other c (hflight ▸ List.mem_cons_self)
    rcases p.eq_or_eq_other q with rfl | rfl
    · simp only [PeersState.land, PeersState.set_peers_self] at hdata ⊢
      by_cases hother : other = c.name
      · rw [hother, Desktop.data_insert_self, Option.some.injEq, hf] at hdata
        rw [hother, Function.update_self, ← hdata]
        exact hc
      · rw [Desktop.data_insert_of_ne _ _ hother] at hdata
        rw [Function.update_of_ne hother]
        exact h.made q other data hdata
    · simp only [PeersState.land, PeersState.set_peers_other,
        PeersState.set_peers_self] at hdata ⊢
      exact h.made p.other other data hdata
  flown := by
    intro q c' hc'
    rcases p.eq_or_eq_other q with rfl | rfl
    · simp only [PeersState.land, Replica.update_other_self] at hc' ⊢
      exact h.flown q c' hc'
    · simp only [PeersState.land, Function.update_self] at hc' ⊢
      exact h.flown p.other c' (hflight ▸ List.mem_cons_of_mem c hc')
  settled := by
    intro other hcrossed
    rw [PeersState.crossed_land, Bool.and_eq_false_iff, Bool.not_eq_false'] at hcrossed
    rcases hcrossed with hsame | hagrees
    · have hsettled := h.settled other hsame
      by_cases hother : other = c.name
      · subst hother
        rw [cellOf_land]
        apply hsettled.store
        simp only [cellOf, hflight, versionsOf_cons_self]
      · rw [cellOf_land_of_ne p f c.data hother hflight]
        exact hsettled
    · exact settled_of_agrees hagrees
  accounted := by
    intro r hr
    rcases List.mem_append.mp hr with hr | hr
    · exact h.accounted_overwritten (hflight ▸ List.mem_cons_self) r hr
    · exact h.accounted r hr

end Versioned

/-! ## The bytes between the peers -/

/-- In both directions the bytes that have not been taken are the copies in flight. -/
def Connected (md5 : Digest) (s : PeersState) : Prop :=
  ∀ p, Linked md5 (s.peers p).toPeerState (s.peers p.other).toPeerState (s.flight p)

namespace Connected

variable {md5 : Digest} {s s' : PeersState}

/-- Desktops, triggers, versions and the clock do not matter. -/
theorem congr (h : Connected md5 s) (hst : ∀ p, (s'.peers p).st = (s.peers p).st)
    (hnamed : ∀ p, Named (s'.peers p).phase)
    (hreceived : ∀ p, (s'.peers p).received = (s.peers p).received)
    (hflight : s'.flight = s.flight) : Connected md5 s' := by
  intro p
  rw [hflight]
  exact (h p).congr (hst p) (hnamed p) (hreceived p.other)

/-- The main thread of `p` sends. -/
theorem sends (h : Connected md5 s) (p : Side) {more : List Copy} {bytes : List UInt8}
    (hsends : Sends (s.peers p).toPeerState (s'.peers p).toPeerState bytes)
    (hnamed : Named (s'.peers p).phase) (hmore : Underway md5 more bytes)
    (hother : s'.peers p.other = s.peers p.other)
    (hflight : s'.flight = Function.update s.flight p (s.flight p ++ more)) :
    Connected md5 s' := by
  intro q
  rcases p.eq_or_eq_other q with rfl | rfl
  · rw [hother, hflight, Function.update_self]
    exact (h q).extend hsends hnamed hmore
  · rw [hother, Side.other_other, hflight, Replica.update_other]
    have hlinked := h p.other
    rw [Side.other_other] at hlinked
    exact hlinked.congr rfl hlinked.named hsends.received

/-- The server of `p` takes `n` bytes. -/
theorem serves (h : Connected md5 s) (p : Side) {n : ℕ} {rest : List Copy}
    (hn : n ≤ ((s.peers p.other).st.sink.taken.drop (s.peers p).received).length)
    (hrest : Underway md5 rest
      (((s.peers p.other).st.sink.taken.drop (s.peers p).received).drop n)) :
    Connected md5 { s.set p { s.peers p with received := (s.peers p).received + n } with
      flight := Function.update s.flight p.other rest } := by
  intro q
  rcases p.eq_or_eq_other q with rfl | rfl
  · simp only [PeersState.set_peers_self, PeersState.set_peers_other, Replica.update_other_self]
    exact (h q).congr rfl (h q).named rfl
  · have hlinked := h p.other
    rw [Side.other_other] at hlinked
    simp only [Side.other_other, PeersState.set_peers_self, PeersState.set_peers_other,
      Function.update_self]
    exact hlinked.take rfl hn hrest

/-- Storing a file is about desktops and versions, not about the connections. -/
theorem peers_land (s : PeersState) (p : Side) (name : FileName) (desktop : Desktop)
    (data : List UInt8) (copy : Copy) (rest : List Copy) (q : Side) :
    ((s.land p name desktop data copy rest).peers q).st = (s.peers q).st ∧
      ((s.land p name desktop data copy rest).peers q).phase = (s.peers q).phase ∧
      ((s.land p name desktop data copy rest).peers q).received = (s.peers q).received := by
  rcases p.eq_or_eq_other q with rfl | rfl
  · simp only [PeersState.land, PeersState.set_peers_self, and_self]
  · simp only [PeersState.land, PeersState.set_peers_other, PeersState.set_peers_self, and_self]

/-- The server of `p` takes the bytes of a file and stores it. -/
theorem land (h : Connected md5 s) (p : Side) {n : ℕ} {rest : List Copy}
    (hn : n ≤ ((s.peers p.other).st.sink.taken.drop (s.peers p).received).length)
    (hrest : Underway md5 rest
      (((s.peers p.other).st.sink.taken.drop (s.peers p).received).drop n))
    (name : FileName) (desktop : Desktop) (data : List UInt8) (copy : Copy) :
    Connected md5 ((s.set p { s.peers p with received := (s.peers p).received + n }).land p
      name desktop data copy rest) := by
  have hserves := h.serves p hn hrest
  have hland := peers_land (s.set p { s.peers p with received := (s.peers p).received + n }) p
    name desktop data copy rest
  refine hserves.congr (fun q => (hland q).1) (fun q => ?_) (fun q => (hland q).2.2) rfl
  rw [(hland q).2.1]
  exact (hserves q).named

end Connected

/-! ## Runs -/

/-- Every name on both desktops is well-formed. -/
def WellNamed (s : PeersState) : Prop :=
  ∀ p, ∀ name ∈ (s.peers p).desktop, Utf.WellFormed name.units

instance (s : PeersState) : Decidable (WellNamed s) :=
  decidable_of_iff (∀ p, ∀ name ∈ (s.peers p).desktop.keys, Utf.WellFormed name.units) Iff.rfl

/-- What every step keeps. -/
structure Tracked (md5 : Digest) (s : PeersState) : Prop where
  versioned : Versioned s
  connected : Connected md5 s

namespace Tracked

variable {net : Pairing} {s s' : PeersState}

/-- One peer goes on with the files it holds. -/
theorem versioned_set (h : Versioned s) (p : Side) {holder : Holder}
    (hdesktop : holder.desktop = (s.peers p).desktop)
    (hversion : holder.version = (s.peers p).version) (hown : holder.own = (s.peers p).own) :
    Versioned (s.set p holder) := by
  refine h.congr (fun q => ?_) rfl rfl rfl rfl
  rcases p.eq_or_eq_other q with rfl | rfl
  · simp only [PeersState.set_peers_self]
    exact ⟨hdesktop, hversion, hown⟩
  · simp only [PeersState.set_peers_other, and_self]

/-- One peer goes on with its connections as they are. -/
theorem connected_set (h : Connected net.md5 s) (p : Side) {holder : Holder}
    (hst : holder.st = (s.peers p).st) (hnamed : Named holder.phase)
    (hreceived : holder.received = (s.peers p).received) :
    Connected net.md5 (s.set p holder) := by
  refine h.congr (fun q => ?_) (fun q => ?_) (fun q => ?_) rfl
  all_goals rcases p.eq_or_eq_other q with rfl | rfl
  all_goals simp only [PeersState.set_peers_self, PeersState.set_peers_other]
  · exact hst
  · exact hnamed
  · exact (h p.other).named
  · exact hreceived

/-- HELLO carries no file. -/
theorem scan (h : Tracked net.md5 s) {p : Side} {order : List FileName} {pad : UInt16}
    (hscan : s.scan net p order pad = some s') : Tracked net.md5 s' := by
  obtain ⟨-, hscan⟩ := Option.ite_none_right_eq_some.mp hscan
  obtain ⟨sending, hsending, rfl⟩ := Option.map_eq_some_iff.mp hscan
  obtain ⟨hsends, hnamed⟩ := scan_sends (h.connected p).refusals hsending
  have hhello : Underway net.md5 [] (helloHeader (nowSec s.clock) pad).toBytes := by
    rw [← List.append_nil (helloHeader _ pad).toBytes]
    exact .hello _ pad .nothing
  constructor
  · exact versioned_set h.versioned p hsends.desktop rfl rfl
  · refine h.connected.sends p ?_ ?_ hhello (PeersState.set_peers_other s p _) ?_
    · simpa only [PeersState.set_peers_self] using hsends
    · simpa only [PeersState.set_peers_self] using hnamed
    · simp [PeersState.set]

/-- The next file of a session, as it is read. -/
theorem nextCopy_of_sending {p : Side} {name : FileName} {files : List WString} {total : UInt64}
    {k : ℕ} {content : List UInt8}
    (hphase : (s.peers p).phase = .sending (name.units :: files) total k)
    (hdata : (s.peers p).desktop.data name = some content) :
    s.nextCopy p = some ⟨name, content, (s.peers p).version name⟩ := by
  simp [PeersState.nextCopy, hphase, hdata]

/-- A file that is sent is under way as it was read. -/
theorem send (h : Tracked net.md5 s) (hnames : WellNamed s) {p : Side} {pad : UInt16}
    (hsend : s.send net p pad = some s') : Tracked net.md5 s' := by
  obtain ⟨sent, hsent, rfl⟩ := Option.map_eq_some_iff.mp hsend
  obtain ⟨name, names, total, k, content, hphase, hdata, hsends, hnamed⟩ :=
    send_sends (h.connected p).refusals (h.connected p).named hsent
  simp only [nextCopy_of_sending hphase hdata, Option.elim_some]
  have hcopy : Underway net.md5 [⟨name, content, (s.peers p).version name⟩]
      (copyBytes net.md5 pad name content) := by
    rw [← List.append_nil (copyBytes net.md5 pad name content)]
    exact .copy pad ⟨name, content, _⟩ (hnames p name (Desktop.mem_of_data hdata))
      (Desktop.length_data hdata) .nothing
  constructor
  · have hset : Versioned (s.set p { s.peers p with toPeerState := sent }) :=
      versioned_set h.versioned p hsends.desktop rfl rfl
    refine hset.depart ?_ ?_
    · simp only [PeersState.set_peers_self, hsends.desktop]
      exact hdata
    · simp only [PeersState.set_peers_self]
  · refine h.connected.sends p ?_ ?_ hcopy (PeersState.set_peers_other s p _) rfl
    · simpa only [PeersState.depart, PeersState.set_peers_self] using hsends
    · simpa only [PeersState.depart, PeersState.set_peers_self] using hnamed

/-- END carries no file. -/
theorem finish (h : Tracked net.md5 s) {p : Side} {pad : UInt16}
    (hfinish : s.finish p pad = some s') : Tracked net.md5 s' := by
  obtain ⟨ended, hended, rfl⟩ := Option.map_eq_some_iff.mp hfinish
  obtain ⟨hsends, hnamed⟩ := finish_sends (h.connected p).refusals hended
  have hending : Underway net.md5 []
      (PacketHeader.toBytes { opcode := opcodeEnd, pad := pad }) := by
    rw [← List.append_nil (PacketHeader.toBytes _)]
    exact .ending pad .nothing
  constructor
  · exact versioned_set h.versioned p hsends.desktop rfl rfl
  · refine h.connected.sends p ?_ ?_ hending (PeersState.set_peers_other s p _) ?_
    · simpa only [PeersState.set_peers_self] using hsends
    · simpa only [PeersState.set_peers_self] using hnamed
    · simp [PeersState.set]

/-- A new `lastSync` changes neither files nor connections. -/
theorem stamp (h : Tracked net.md5 s) {p : Side} (hstamp : s.stamp p = some s') :
    Tracked net.md5 s' := by
  obtain ⟨-, hstamp⟩ := Option.ite_none_right_eq_some.mp hstamp
  rw [← Option.some.inj hstamp]
  exact ⟨versioned_set h.versioned p rfl rfl rfl, connected_set h.connected p rfl trivial rfl⟩

/-- The server of `p` takes bytes and stores nothing. -/
theorem pass (h : Tracked net.md5 s) (p : Side) {n : ℕ}
    (hn : n ≤ ((s.peers p.other).st.sink.taken.drop (s.peers p).received).length)
    (hrest : Underway net.md5 (s.flight p.other)
      (((s.peers p.other).st.sink.taken.drop (s.peers p).received).drop n)) :
    Tracked net.md5 (s.set p { s.peers p with received := (s.peers p).received + n }) := by
  constructor
  · exact versioned_set h.versioned p rfl rfl rfl
  · have hserves := h.connected.serves p hn hrest
    rw [Function.update_eq_self] at hserves
    exact hserves

/-- The server of `p` takes a file and stores it. -/
theorem land (h : Tracked net.md5 s) (p : Side) {n : ℕ} {c : Copy} {rest : List Copy} {f : File}
    (hflight : s.flight p.other = c :: rest) (hf : f.data = c.data)
    (hn : n ≤ ((s.peers p.other).st.sink.taken.drop (s.peers p).received).length)
    (hrest : Underway net.md5 rest
      (((s.peers p.other).st.sink.taken.drop (s.peers p).received).drop n)) :
    Tracked net.md5 ((s.set p { s.peers p with received := (s.peers p).received + n }).land p c.name
      ((s.peers p).desktop.insert c.name f) c.data c rest) := by
  constructor
  · have hset : Versioned (s.set p { s.peers p with received := (s.peers p).received + n }) :=
      versioned_set h.versioned p rfl rfl rfl
    have hland := hset.land hflight hf
    rw [PeersState.set_peers_self] at hland
    exact hland
  · exact h.connected.land p hn hrest c.name _ c.data c

/-- The server takes HELLO, a file or END: what comes first is what was sent first. -/
theorem receive (h : Tracked net.md5 s) {p : Side} {conn : Conn}
    (hreceive : s.receive net p conn = some s') : Tracked net.md5 s' := by
  have hlinked := h.connected p.other
  rw [Side.other_other] at hlinked
  obtain ⟨hconn, hreceive⟩ := Option.ite_none_right_eq_some.mp hreceive
  rcases hlinked.underway.handlePacket (net.cfg p) ⟨true, true⟩ (s.peers p).received hconn with
    ⟨conn', hpacket, hrest⟩ | ⟨c, rest, size, w, conn', hflight, hsized, hpacket, htarget, hdata,
      hrest⟩ | ⟨conn', hpacket, hlength, hrest⟩ | ⟨outcome, conn', hne, hpacket⟩
  · -- HELLO
    have hsize := (handlePacket_next hpacket).2.1
    rw [hconn] at hsize
    simp only [hpacket, Option.some.injEq] at hreceive
    subst hreceive
    exact h.pass p hsize hrest
  · -- a file is stored
    have hsize := (handlePacket_next hpacket).2.1
    rw [hconn] at hsize
    rw [net.targetDir p] at htarget
    have hwrite : ∀ d : Desktop, d.write (net.cfg p).desktopPath s.clock w =
        d.insert c.name ⟨c.data, s.clock, hsized⟩ := by
      intro d
      rw [Desktop.write_join d _ _ htarget (hdata ▸ hsized)]
      simp only [hdata]
    have hname : FileName.ofTarget (net.cfg p).desktopPath w.target = some c.name := by
      rw [htarget, FileName.ofTarget_join]
    have hset : (s.set p { s.peers p with
        received := (s.peers p).received + size }).flight p.other = c :: rest := hflight
    simp only [hpacket, Option.some.injEq, PeersState.store, hname, hset] at hreceive
    rw [PeersState.set_peers_self, hdata] at hreceive
    subst hreceive
    have hland := h.land p (f := ⟨c.data, s.clock, hsized⟩) hflight rfl hsize hrest
    rw [← hwrite] at hland
    exact hland
  · -- END: the next session follows
    simp only [hpacket, Option.some.injEq] at hreceive
    subst hreceive
    exact h.pass p hlength hrest
  · -- anything else is no complete session
    simp only [hpacket] at hreceive
    rcases outcome with (_ | _) | _
    · cases hreceive
    · exact absurd rfl hne
    · cases hreceive

/-- Every step keeps it, as long as names are well-formed. -/
theorem step (e : PeersEvent) (h : Tracked net.md5 s) (hnames : WellNamed s)
    (hstep : peersStep net s e = some s') : Tracked net.md5 s' := by
  cases e with
  | edit p name data lastWriteTime =>
      obtain ⟨f, -, rfl⟩ := Option.map_eq_some_iff.mp hstep
      exact ⟨h.versioned.edit p name f,
        connected_set h.connected p rfl (h.connected p).named rfl⟩
  | remove p name =>
      rw [← Option.some.inj hstep]
      exact ⟨h.versioned.remove p name,
        connected_set h.connected p rfl (h.connected p).named rfl⟩
  | tick ticks =>
      rw [← Option.some.inj hstep]
      exact ⟨h.versioned.congr (fun _ => ⟨rfl, rfl, rfl⟩) rfl rfl rfl rfl, h.connected⟩
  | trigger p =>
      rw [← Option.some.inj hstep]
      exact ⟨versioned_set h.versioned p rfl rfl rfl,
        connected_set h.connected p rfl (h.connected p).named rfl⟩
  | scan p order pad => exact h.scan hstep
  | send p pad => exact h.send hnames hstep
  | finish p pad => exact h.finish hstep
  | stamp p => exact h.stamp hstep
  | receive p conn => exact h.receive hstep

end Tracked

/-- At the beginning nothing has been carried over. -/
theorem tracked_of_beginning {md5 : Digest} {s : PeersState} (h : Beginning s) : Tracked md5 s := by
  constructor
  · refine ⟨h.made, fun p c hc => ?_, fun name _ => ?_, fun r hr => ?_⟩
    · rw [h.flight] at hc
      cases hc
    · apply Replica.Settled.of_own
      · intro p
        simp [cellOf, h.flight]
      · exact fun p => h.own p name
    · rw [h.replaced] at hr
      cases hr
  · intro p
    obtain ⟨limit, hstart⟩ := h.start p
    obtain ⟨_, hother⟩ := h.start p.other
    rw [h.flight, hstart, hother]
    exact ⟨rfl, trivial, le_rfl, .nothing⟩

/-- So it holds in every run. -/
theorem tracked_of_reachable (net : Pairing) {s : PeersState}
    (h : (pairedPeers net).ReachableBy (fun s _ => WellNamed s) s) : Tracked net.md5 s := by
  apply h.invariant
  · exact fun s hs => tracked_of_beginning hs
  · exact fun s e s' hs hnames hstep => hs.step e hnames hstep

/-- Whatever a server has overwritten was made by one edit and replaced by what another made,
and by an older edit only where the receiver had made it and no session had carried it to the
other peer, or where, since both had held one edit of it, sessions had crossed over it. -/
theorem replaced_by_older (net : Pairing) {s : PeersState}
    (h : (pairedPeers net).ReachableBy (fun s _ => WellNamed s) s) (r : Replacement)
    (hr : r ∈ s.replaced) :
    s.history[r.oldVersion]? = some (r.name, r.old) ∧
      s.history[r.newVersion]? = some (r.name, r.new) ∧
      (r.newVersion < r.oldVersion → r.own = true ∨ r.crossed = true) := by
  obtain ⟨hold, hnew, hown⟩ := (tracked_of_reachable net h).versioned.accounted r hr
  exact ⟨hold, hnew, hown⟩

/-! ## An older edit in the place of a newer one -/

/-- Two peers with empty desktops. -/
def bare : PeersState where
  peers _ := ⟨.start ∅ fun _ => 4096, 0, false, fun _ => 0, fun _ => true⟩
  clock := 0
  history := []
  flight _ := []
  crossed _ := false
  replaced := []

/-- They may begin like this. -/
theorem bare_beginning : Beginning bare where
  start _ := ⟨_, rfl⟩
  made p name data h := by cases h
  own _ _ := rfl
  flight _ := rfl
  crossed _ := rfl
  replaced := rfl

/-- A session of `p` that reads the one file `name`, before END. -/
def readingOf (p : Side) (name : FileName) : List (PeersState → PeersEvent) :=
  [fun _ => .trigger p, fun _ => .scan p [name] 0, fun _ => .send p 0]

/-- The server of `p` takes a packet that arrives in one piece. -/
def taking (p : Side) (s : PeersState) : PeersEvent :=
  .receive p (.whole ((s.peers p.other).st.sink.taken.drop (s.peers p).received))

/-- Both peers write `a`, the left one first, and the left one uploads. -/
def staleScript : List (PeersState → PeersEvent) :=
  [fun _ => .edit .left nameA [1] 0, fun _ => .edit .right nameA [2] 0] ++
    readingOf .left nameA ++
    [fun _ => .finish .left 0, fun _ => .stamp .left] ++ List.replicate 3 (taking .right)

/-- The left peer has read `a` when the right one writes it and uploads it. -/
def crossedScript : List (PeersState → PeersEvent) :=
  [fun _ => .edit .left nameA [1] 0] ++ readingOf .left nameA ++
    [fun _ => .edit .right nameA [2] 0] ++ readingOf .right nameA ++
    [fun _ => .finish .left 0, fun _ => .finish .right 0] ++
    List.replicate 3 (taking .left) ++ List.replicate 3 (taking .right)

/-- The name U+FFFD, under which an unpaired surrogate arrives. -/
def nameReplacement : FileName := ⟨[0xFFFD], by decide⟩

/-- Two files of the left peer that arrive under one name, the newer one first. -/
def mergedScript : List (PeersState → PeersEvent) :=
  [fun _ => .edit .left nameReplacement [1] 0, fun _ => .edit .left nameLone [2] 0,
    fun _ => .trigger .left, fun _ => .scan .left [nameLone, nameReplacement] 0,
    fun _ => .send .left 0, fun _ => .send .left 0, fun _ => .finish .left 0] ++
    List.replicate 4 (taking .right)

/-- No server replaces a content by an older one. -/
def NeverStale (s : PeersState) : Prop := ∀ r ∈ s.replaced, ¬r.newVersion < r.oldVersion

/-- The versions of what has been overwritten, and what is known of it. -/
def PeersState.overwrites (s : PeersState) : List (ℕ × ℕ × Bool × Bool) :=
  s.replaced.map fun r => (r.oldVersion, r.newVersion, r.own, r.crossed)

/-- A replacement with these versions. -/
theorem exists_replacement {s : PeersState} {old new : ℕ} {own crossed : Bool}
    (h : (old, new, own, crossed) ∈ PeersState.overwrites s) :
    ∃ r ∈ s.replaced, r.oldVersion = old ∧ r.newVersion = new ∧ r.own = own ∧
      r.crossed = crossed := by
  obtain ⟨r, hr, hfields⟩ := List.mem_map.mp h
  simp only [Prod.mk.injEq] at hfields
  exact ⟨r, hr, hfields⟩

/-- A session replaces the newer edit of the other peer by an older one; where sessions have
crossed, even one that has been carried to the sender; and where names are not well-formed,
even one that the receiver has only from the sender. -/
theorem replaced_stale :
    (¬∀ s, (pairedPeers sampleNet).Reachable s → NeverStale s) ∧
      (∃ s, (pairedPeers sampleNet).ReachableBy (fun s _ => WellNamed s) s ∧
        ∃ r ∈ s.replaced, r.newVersion < r.oldVersion ∧ r.own = false) ∧
      ∃ s, (pairedPeers sampleNet).Reachable s ∧
        ∃ r ∈ s.replaced, r.newVersion < r.oldVersion ∧ r.own = false ∧ r.crossed = false := by
  have hstart : (pairedPeers sampleNet).Reachable bare := .init bare_beginning
  refine ⟨fun h => ?_, ?_, ?_⟩
  · have hrun : ((pairedPeers sampleNet).exec bare staleScript).map PeersState.overwrites =
        some [(1, 0, true, false)] := by
      decide +kernel
    obtain ⟨s, hs, hreplaced⟩ := Option.map_eq_some_iff.mp hrun
    obtain ⟨r, hr, hold, hnew, -⟩ := exists_replacement (hreplaced ▸ List.mem_cons_self)
    exact h s (System.Reachable.exec hstart hs) r hr (by rw [hold, hnew]; decide)
  · have hrun : (((pairedPeers sampleNet).restrict fun s _ => WellNamed s).exec bare
        crossedScript).map PeersState.overwrites =
          some [(1, 0, false, true), (0, 1, true, true)] := by
      decide +kernel
    have hbare : (pairedPeers sampleNet).ReachableBy (fun s _ => WellNamed s) bare :=
      .init bare_beginning
    obtain ⟨s, hs, hreplaced⟩ := Option.map_eq_some_iff.mp hrun
    obtain ⟨r, hr, hold, hnew, hown, -⟩ := exists_replacement (hreplaced ▸ List.mem_cons_self)
    exact ⟨s, System.ReachableBy.exec hbare hs, r, hr, by rw [hold, hnew]; decide, hown⟩
  · have hrun : ((pairedPeers sampleNet).exec bare mergedScript).map PeersState.overwrites =
        some [(1, 0, false, false)] := by
      decide +kernel
    obtain ⟨s, hs, hreplaced⟩ := Option.map_eq_some_iff.mp hrun
    obtain ⟨r, hr, hold, hnew, hown, hcrossed⟩ :=
      exists_replacement (hreplaced ▸ List.mem_cons_self)
    exact ⟨s, System.Reachable.exec hstart hs, r, hr, by rw [hold, hnew]; decide, hown, hcrossed⟩

/-- The newer edit that was replaced had not been carried over, and nothing had crossed. -/
theorem replaced_by_older_stale :
    ∃ s, ((pairedPeers sampleNet).restrict fun s _ => WellNamed s).exec bare staleScript = some s ∧
      ∃ r ∈ s.replaced, r.newVersion < r.oldVersion ∧ r.crossed = false ∧ r.own = true := by
  have hrun : (((pairedPeers sampleNet).restrict fun s _ => WellNamed s).exec bare
      staleScript).map PeersState.overwrites = some [(1, 0, true, false)] := by
    decide +kernel
  obtain ⟨s, hs, hreplaced⟩ := Option.map_eq_some_iff.mp hrun
  obtain ⟨r, hr, hold, hnew, -, hcrossed⟩ := exists_replacement (hreplaced ▸ List.mem_cons_self)
  have hlt : r.newVersion < r.oldVersion := by rw [hold, hnew]; decide
  have hbare : (pairedPeers sampleNet).ReachableBy (fun s _ => WellNamed s) bare :=
    .init bare_beginning
  have hreach := System.ReachableBy.exec hbare hs
  have hown := (replaced_by_older sampleNet hreach r hr).2.2 hlt
  rw [hcrossed] at hown
  exact ⟨s, hs, r, hr, hlt, hcrossed, hown.resolve_right Bool.false_ne_true⟩

end DesktopSync.Analysis
