import DesktopSync.Computation.CircularArray
import DesktopSync.Computation.DataRefinement
import DesktopSync.Model.AckWindow

/-!
# The window of acknowledgements is a queue

`AckHolds` says which acknowledgements are remembered. There is room for one less than the
array has slots. When an acknowledgement is found, those before it are forgotten with it.
-/

set_option autoImplicit false

namespace DesktopSync.Analysis

open DesktopSync.Model
open CircularArray

/-- An acknowledgement: its number, what it acknowledges, and when it was sent. -/
abbrev AckEntry := ℤ × ℤ × ℤ

/-- The slots from that of `t` on hold these entries. -/
structure AckSlots (w : AckWindow) (c t : ℤ) (entries : List AckEntry) : Prop where
  size : 0 < w.size
  tail : w.tail = slot w.size c t
  head : w.head = slot w.size c (t + entries.length)
  room : entries.length < w.size
  entry : ∀ (i : ℕ) (e : AckEntry), entries[i]? = some e →
    w.ackSeqNo (slot w.size c (t + i)) = e.1 ∧ w.ack (slot w.size c (t + i)) = e.2.1 ∧
      w.timeStamp (slot w.size c (t + i)) = e.2.2

/-- What a user of the window sees. -/
def AckHolds (w : AckWindow) (entries : List AckEntry) : Prop := ∃ c t, AckSlots w c t entries

/-- What is remembered when an acknowledgement is sent. -/
def storeEntry (room : ℕ) (entries : List AckEntry) (e : AckEntry) : List AckEntry :=
  if room ≤ entries.length then (entries ++ [e]).drop 1 else entries ++ [e]

/-- What is found when an acknowledgement is acknowledged, and what is remembered then. -/
def findEntry (entries : List AckEntry) (seq now : ℤ) : Option (ℤ × ℤ) × List AckEntry :=
  match entries.dropWhile (·.1 ≠ seq) with
  | [] => (none, entries)
  | e :: rest => (some ((now - e.2.2).bmod (2 ^ 32), e.2.1), rest)

namespace AckSlots

variable {w : AckWindow} {c t : ℤ} {entries : List AckEntry}

/-- The slots hold the entries behind the first. -/
theorem drop (h : AckSlots w c t entries) (n : ℕ) (hn : n ≤ entries.length) {w' : AckWindow}
    (hw : w' = { w with tail := slot w.size c (t + n) }) :
    AckSlots w' c (t + n) (entries.drop n) := by
  have hroom := h.room
  subst hw
  refine ⟨h.size, rfl, ?_, ?_, fun i e he => ?_⟩
  · rw [List.length_drop, add_assoc]
    dsimp only
    rw [h.head]
    congr 2
    omega
  · rw [List.length_drop]
    dsimp only
    omega
  · rw [List.getElem?_drop] at he
    have hentry := h.entry _ e he
    rw [Nat.cast_add, ← add_assoc] at hentry
    exact hentry

/-- An entry goes to the slot of the head. -/
theorem write (h : AckSlots w c t entries) (e : AckEntry) {i : ℕ} {e' : AckEntry}
    (he' : (entries ++ [e])[i]? = some e') :
    Function.update w.ackSeqNo w.head e.1 (slot w.size c (t + i)) = e'.1 ∧
      Function.update w.ack w.head e.2.1 (slot w.size c (t + i)) = e'.2.1 ∧
      Function.update w.timeStamp w.head e.2.2 (slot w.size c (t + i)) = e'.2.2 := by
  have hroom := h.room
  have hi := (List.getElem?_eq_some_iff.mp he').1
  rw [List.length_append, List.length_singleton] at hi
  by_cases hlast : i = entries.length
  · subst hlast
    rw [List.getElem?_concat_length] at he'
    cases he'
    rw [h.head, Function.update_self, Function.update_self, Function.update_self]
    exact ⟨rfl, rfl, rfl⟩
  · have hne : slot w.size c (t + i) ≠ w.head := by
      rw [h.head]
      refine fun hslot => hlast ?_
      have heq := (slot_inj (by
        rw [abs_lt]
        omega)).mp hslot
      omega
    rw [List.getElem?_append_left (by omega)] at he'
    rw [Function.update_of_ne hne, Function.update_of_ne hne, Function.update_of_ne hne]
    exact h.entry i e' he'

theorem store (h : AckSlots w c t entries) (hsize : 1 < w.size) (e : AckEntry) :
    AckHolds (w.store e.1 e.2.1 e.2.2) (storeEntry (w.size - 1).toNat entries e) := by
  have hroom := h.room
  have hhead : (w.head + 1).tmod w.size = slot w.size c (t + (entries.length + 1)) := by
    rw [h.head, tmod_slot_succ h.size, add_assoc]
  have hmeet : (w.head + 1).tmod w.size = w.tail ↔ (w.size - 1).toNat ≤ entries.length := by
    rw [hhead, h.tail]
    constructor
    · intro hslot
      by_contra hlt
      have heq := (slot_inj (by
        rw [abs_lt]
        omega)).mp hslot
      omega
    · intro hle
      have hround : t + ((entries.length : ℤ) + 1) = t + w.size := by omega
      unfold slot
      rw [hround, ← add_assoc, Int.add_emod_right]
  unfold AckWindow.store storeEntry
  dsimp only
  by_cases hfull : (w.size - 1).toNat ≤ entries.length
  · rw [if_pos hfull, if_pos (hmeet.mpr hfull)]
    refine ⟨c, t + 1, h.size, ?_, ?_, ?_, fun i e' he' => ?_⟩
    · dsimp only
      rw [h.tail, tmod_slot_succ h.size]
    · dsimp only
      rw [hhead, List.length_drop, List.length_append, List.length_singleton]
      congr 1
      omega
    · rw [List.length_drop, List.length_append, List.length_singleton]
      dsimp only
      omega
    · rw [List.getElem?_drop] at he'
      have hentry := h.write e he'
      rw [Nat.cast_add, Nat.cast_one, ← add_assoc] at hentry
      exact hentry
  · rw [if_neg hfull, if_neg (mt hmeet.mp hfull)]
    refine ⟨c, t, h.size, h.tail, ?_, ?_, fun i e' he' => h.write e he'⟩
    · dsimp only
      rw [hhead, List.length_append, List.length_singleton, Nat.cast_add, Nat.cast_one]
    · rw [List.length_append, List.length_singleton]
      dsimp only
      omega

end AckSlots

/-! ## The search -/

/-- The loop finds the first entry with the number. -/
theorem search_spec {seqs : ℤ → ℤ} (seq : ℤ) (entries : List AckEntry) {i : ℤ}
    (h : ∀ (k : ℕ) (e : AckEntry), entries[k]? = some e → seqs (i + k) = e.1) :
    (AckWindow.search seqs seq entries.length i = none ∧
        entries.dropWhile (·.1 ≠ seq) = []) ∨
      ∃ (k : ℕ) (e : AckEntry), AckWindow.search seqs seq entries.length i = some (i + k) ∧
        entries[k]? = some e ∧ entries.dropWhile (·.1 ≠ seq) = e :: entries.drop (k + 1) := by
  induction entries generalizing i with
  | nil => exact .inl ⟨rfl, rfl⟩
  | cons e entries ih =>
      have hfirst := h 0 e rfl
      rw [Nat.cast_zero, add_zero] at hfirst
      rw [List.length_cons, AckWindow.search, hfirst]
      by_cases heq : seq = e.1
      · refine .inr ⟨0, e, ?_, rfl, ?_⟩
        · rw [if_pos heq, Nat.cast_zero, add_zero]
        · rw [List.dropWhile_cons_of_neg (by simp [heq])]
          rfl
      · rw [if_neg heq, List.dropWhile_cons_of_pos (by simpa using Ne.symm heq)]
        have hrest : ∀ (k : ℕ) (e' : AckEntry), entries[k]? = some e' →
            seqs (i + 1 + k) = e'.1 := fun k e' he' => by
          have hk := h (k + 1) e' he'
          rw [Nat.cast_succ, add_comm (k : ℤ), ← add_assoc] at hk
          exact hk
        rcases ih hrest with ⟨hnone, hdrop⟩ | ⟨k, e', hsome, he', hdrop⟩
        · exact .inl ⟨hnone, hdrop⟩
        · refine .inr ⟨k + 1, e', ?_, he', hdrop⟩
          rw [hsome, Nat.cast_succ, add_comm (k : ℤ), ← add_assoc]

/-- The index of an entry. -/
theorem AckSlots.index {w : AckWindow} {c t : ℤ} {entries : List AckEntry}
    (h : AckSlots w c t entries) (k : ℕ) :
    (w.tail + k).tmod w.size = slot w.size c (t + k) := by
  have hnonneg := slot_nonneg h.size c t
  rw [h.tail]
  exact tmod_slot_add c (by omega)

/-- The entry at `k` is found. -/
theorem AckSlots.dropTo {w : AckWindow} {c t : ℤ} {entries : List AckEntry}
    (h : AckSlots w c t entries) {k : ℕ} (hk : k < entries.length) {last : Prop} [Decidable last]
    (hlast : last → entries.length = k + 1) :
    AckHolds (w.dropTo (slot w.size c (t + k)) last) (entries.drop (k + 1)) := by
  unfold AckWindow.dropTo
  split
  · next hlast' =>
      rw [List.drop_eq_nil_of_le (le_of_eq (hlast hlast'))]
      refine ⟨0, 0, h.size, rfl, rfl, h.size, fun i e he => ?_⟩
      cases he
  · refine ⟨c, _, h.drop (k + 1) hk ?_⟩
    rw [tmod_slot_succ h.size, add_assoc, Nat.cast_succ]

namespace AckHolds

variable {w : AckWindow} {entries : List AckEntry}

theorem new {size : ℤ} (hsize : 0 < size) (ackSeqNo ack timeStamp : ℤ → ℤ) :
    AckHolds (.new size ackSeqNo ack timeStamp) [] := by
  refine ⟨0, 0, hsize, rfl, rfl, hsize, fun i e he => ?_⟩
  cases he

/-- The oldest entry goes when there is no room. -/
theorem store (h : AckHolds w entries) (hsize : 1 < w.size) (e : AckEntry) :
    AckHolds (w.store e.1 e.2.1 e.2.2) (storeEntry (w.size - 1).toNat entries e) := by
  obtain ⟨c, t, h⟩ := h
  exact h.store hsize e

/-- The entries up to the one that is found go. -/
theorem acknowledge (h : AckHolds w entries) (seq now : ℤ) :
    (w.acknowledge seq now).1 = (findEntry entries seq now).1 ∧
      AckHolds (w.acknowledge seq now).2 (findEntry entries seq now).2 := by
  have hw : AckHolds w entries := h
  obtain ⟨c, t, h⟩ := h
  have hroom := h.room
  have hslots := slot_sub h.size c (show t ≤ t + entries.length by omega) (by omega)
  rw [← h.tail, ← h.head, add_sub_cancel_left] at hslots
  unfold AckWindow.acknowledge findEntry
  by_cases hturn : w.tail ≤ w.head
  · -- No entry is behind the end of the array.
    rw [if_pos hturn] at hslots ⊢
    have hhead := slot_lt h.size c (t + entries.length)
    have htail := slot_nonneg h.size c t
    rw [← h.head] at hhead
    rw [← h.tail] at htail
    have hindex : ∀ k : ℕ, k < entries.length → w.tail + k = slot w.size c (t + k) := by
      intro k hk
      rw [← h.index k, Int.tmod_eq_emod_of_nonneg (by omega), Int.emod_eq_of_lt (by omega)
        (by omega)]
    have hseqs : ∀ (k : ℕ) (e : AckEntry), entries[k]? = some e →
        w.ackSeqNo (w.tail + k) = e.1 := fun k e he => by
      rw [hindex k (List.getElem?_eq_some_iff.mp he).1]
      exact (h.entry k e he).1
    rw [hslots, Int.toNat_natCast]
    rcases search_spec seq entries hseqs with ⟨hnone, hdrop⟩ | ⟨k, e, hsome, he, hdrop⟩
    · rw [hnone, hdrop]
      exact ⟨rfl, hw⟩
    · obtain ⟨hk, -⟩ := List.getElem?_eq_some_iff.mp he
      obtain ⟨-, hack, hstamp⟩ := h.entry k e he
      rw [hsome, hdrop, hindex k hk]
      dsimp only
      unfold AckWindow.rtt
      rw [hack, hstamp]
      refine ⟨rfl, h.dropTo hk fun hlast => ?_⟩
      rw [← hindex k hk] at hlast
      omega
  · rw [if_neg hturn] at hslots ⊢
    have hseqs : ∀ (k : ℕ) (e : AckEntry), entries[k]? = some e →
        (fun j => w.ackSeqNo (j.tmod w.size)) (w.tail + k) = e.1 := fun k e he => by
      dsimp only
      rw [h.index k]
      exact (h.entry k e he).1
    have hlength : w.head + w.size - w.tail = entries.length := by omega
    rw [hlength, Int.toNat_natCast]
    rcases @search_spec (fun j => w.ackSeqNo (j.tmod w.size)) seq entries w.tail hseqs with
      ⟨hnone, hdrop⟩ | ⟨k, e, hsome, he, hdrop⟩
    · rw [hnone, hdrop]
      exact ⟨rfl, hw⟩
    · obtain ⟨hk, -⟩ := List.getElem?_eq_some_iff.mp he
      obtain ⟨-, hack, hstamp⟩ := h.entry k e he
      rw [hsome, hdrop]
      dsimp only
      rw [h.index k]
      unfold AckWindow.rtt
      rw [hack, hstamp]
      refine ⟨rfl, h.dropTo hk fun hlast => ?_⟩
      -- The head has no entry.
      rw [h.head] at hlast
      have heq := (slot_inj (by
        rw [abs_lt]
        omega)).mp hlast
      omega

theorem acknowledge_size (w : AckWindow) (seq now : ℤ) :
    (w.acknowledge seq now).2.size = w.size := by
  unfold AckWindow.acknowledge AckWindow.dropTo
  dsimp only
  repeat' split
  all_goals rfl

end AckHolds

/-! ## All calls -/

inductive AckCall
  | store (e : AckEntry)
  | acknowledge (seq now : ℤ)

/-- The calls of the window. -/
def ackWindowCall (w : AckWindow) : AckCall → Option (ℤ × ℤ) × AckWindow
  | .store e => (none, w.store e.1 e.2.1 e.2.2)
  | .acknowledge seq now => w.acknowledge seq now

/-- The calls of a queue with room for so many entries. -/
def ackQueueCall (room : ℕ) (entries : List AckEntry) : AckCall → Option (ℤ × ℤ) × List AckEntry
  | .store e => (none, storeEntry room entries e)
  | .acknowledge seq now => findEntry entries seq now

/-- The window answers all calls as a queue does that has room for one entry less than the window
has slots. -/
theorem ackWindow_transcript {size : ℤ} (hsize : 1 < size) (ackSeqNo ack timeStamp : ℤ → ℤ)
    (ks : List AckCall) :
    DataRefinement.transcript ackWindowCall (.new size ackSeqNo ack timeStamp) ks =
      DataRefinement.transcript (ackQueueCall (size - 1).toNat) [] ks := by
  refine (DataRefinement.transcript_eq (R := fun w entries => AckHolds w entries ∧ w.size = size)
    (fun w entries k hw _ => ?_)
    ⟨.new (by omega) ackSeqNo ack timeStamp, rfl⟩ (.of_forall (fun _ _ => trivial) _ ks)).1
  obtain ⟨h, rfl⟩ := hw
  cases k with
  | store e => exact ⟨rfl, h.store hsize e, rfl⟩
  | acknowledge seq now =>
      obtain ⟨hanswer, h'⟩ := h.acknowledge seq now
      exact ⟨hanswer, h', AckHolds.acknowledge_size w seq now⟩

/-- Three entries in an array of three slots, and the second is found behind the end. -/
theorem ackWindow_transcript_round :
    DataRefinement.transcript ackWindowCall (.new 3 (fun _ => 0) (fun _ => 0) fun _ => 0)
        [.store (1, 10, 0), .store (2, 20, 5), .store (3, 30, 6), .acknowledge 3 9,
          .acknowledge 2 9] =
      DataRefinement.transcript (ackQueueCall 2) []
        [.store (1, 10, 0), .store (2, 20, 5), .store (3, 30, 6), .acknowledge 3 9,
          .acknowledge 2 9] :=
  ackWindow_transcript (by decide) _ _ _ _

end DesktopSync.Analysis
