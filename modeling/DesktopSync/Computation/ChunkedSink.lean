import Mathlib.Data.List.Basic

/-!
# A transport that takes what it likes

The writer's view of a stream transport: a call offers symbols, and the transport
either takes a positive number of them or refuses the call with a code. Which calls
are refused is a list of refusals to come, each with the number of symbols taken
before it; how many symbols an accepted call takes is bounded by an arbitrary
schedule. Every finite behaviour of a transport is one such list and one such
schedule.

`admits`, `after` and `room` say what the refusals alone decide about offering `n`
symbols in any number of calls.
-/

set_option autoImplicit false

universe u v

namespace ChunkedSink

variable {α : Type u} {ε : Type v}

/-- A refusal to come: the symbols taken before it, and the code the refused call
returns. -/
structure Refusal (ε : Type v) where
  room : ℕ
  code : ε

/-- A transport between calls. -/
structure Sink (α : Type u) (ε : Type v) where
  /-- Everything taken so far, oldest first. -/
  taken : List α
  refusals : List (Refusal ε)
  /-- The `k`-th accepted call takes at most `limit k + 1` symbols. -/
  limit : ℕ → ℕ
  calls : ℕ

/-- The symbols one call may take. -/
def Sink.quota (s : Sink α ε) (n : ℕ) : ℕ :=
  match s.refusals with
  | [] => min (s.limit s.calls + 1) n
  | r :: _ => min (s.limit s.calls + 1) (min n r.room)

/-- The refusals to come once `n` symbols have been taken. -/
def pass (refusals : List (Refusal ε)) (n : ℕ) : List (Refusal ε) :=
  match refusals with
  | [] => []
  | r :: rest => { r with room := r.room - n } :: rest

/-- One call offering `symbols`: the code of a refusal, or the number taken. -/
def Sink.offer (s : Sink α ε) (symbols : List α) : Sum ε ℕ × Sink α ε :=
  match s.refusals with
  | ⟨0, code⟩ :: rest => (.inl code, { s with refusals := rest })
  | refusals =>
      (.inr (s.quota symbols.length),
        { s with
          taken := s.taken ++ symbols.take (s.quota symbols.length)
          refusals := pass refusals (s.quota symbols.length)
          calls := s.calls + 1 })

/-- Offering `n` symbols meets no refusal. -/
def admits (refusals : List (Refusal ε)) (n : ℕ) : Bool :=
  match refusals with
  | [] => true
  | r :: _ => n ≤ r.room

/-- How many of `n` symbols are taken before the first refusal. -/
def room (refusals : List (Refusal ε)) (n : ℕ) : ℕ :=
  match refusals with
  | [] => n
  | r :: _ => min n r.room

/-- The refusals to come after offering `n` symbols, up to the first refusal met. -/
def after (refusals : List (Refusal ε)) (n : ℕ) : List (Refusal ε) :=
  if admits refusals n then pass refusals n else refusals.tail

theorem room_of_admits {refusals : List (Refusal ε)} {n : ℕ} (h : admits refusals n = true) :
    room refusals n = n := by
  cases refusals with
  | nil => rfl
  | cons r rest =>
      simp only [admits, decide_eq_true_eq] at h
      simp only [room, Nat.min_eq_left h]

theorem room_lt_of_not_admits {refusals : List (Refusal ε)} {n : ℕ}
    (h : admits refusals n = false) : room refusals n < n := by
  cases refusals with
  | nil => cases h
  | cons r rest =>
      simp only [admits, decide_eq_false_iff_not] at h
      simp only [room]
      omega

@[simp] theorem admits_zero (refusals : List (Refusal ε)) : admits refusals 0 = true := by
  cases refusals <;> simp [admits]

@[simp] theorem pass_zero (refusals : List (Refusal ε)) : pass refusals 0 = refusals := by
  cases refusals <;> simp [pass]

@[simp] theorem after_zero (refusals : List (Refusal ε)) : after refusals 0 = refusals := by
  simp [after]

@[simp] theorem admits_nil (n : ℕ) : admits ([] : List (Refusal ε)) n = true := rfl

@[simp] theorem after_nil (n : ℕ) : after ([] : List (Refusal ε)) n = [] := rfl

/-- Symbols that were taken no longer count towards the next refusal. -/
theorem admits_pass {refusals : List (Refusal ε)} {m n : ℕ} (h : admits refusals m = true)
    (hmn : m ≤ n) : admits (pass refusals m) (n - m) = admits refusals n := by
  cases refusals with
  | nil => rfl
  | cons r rest =>
      simp only [admits, decide_eq_true_eq] at h
      simp only [pass, admits, decide_eq_decide]
      omega

theorem pass_pass {refusals : List (Refusal ε)} {m n : ℕ} (hmn : m ≤ n) :
    pass (pass refusals m) (n - m) = pass refusals n := by
  cases refusals with
  | nil => rfl
  | cons r rest =>
      simp only [pass, List.cons.injEq, Refusal.mk.injEq, and_true]
      omega

theorem after_pass {refusals : List (Refusal ε)} {m n : ℕ} (h : admits refusals m = true)
    (hmn : m ≤ n) : after (pass refusals m) (n - m) = after refusals n := by
  unfold after
  rw [admits_pass h hmn, pass_pass hmn]
  cases refusals <;> rfl

theorem room_pass {refusals : List (Refusal ε)} {m n : ℕ} (h : admits refusals m = true)
    (hmn : m ≤ n) : m + room (pass refusals m) (n - m) = room refusals n := by
  cases refusals with
  | nil => simp only [pass, room]; omega
  | cons r rest =>
      simp only [admits, decide_eq_true_eq] at h
      simp only [pass, room]
      omega

/-- Offering in two parts meets no refusal exactly when offering at once does not. -/
theorem admits_add (refusals : List (Refusal ε)) (m n : ℕ) :
    admits refusals (m + n) = (admits refusals m && admits (after refusals m) n) := by
  cases hm : admits refusals m with
  | true =>
      have h := admits_pass hm (Nat.le_add_right m n)
      rw [Nat.add_sub_cancel_left] at h
      rw [after, if_pos hm, h, Bool.true_and]
  | false =>
      cases refusals with
      | nil => cases hm
      | cons r rest =>
          simp only [admits, decide_eq_false_iff_not] at hm
          simp only [admits, Bool.false_and, decide_eq_false_iff_not]
          omega

theorem after_add {refusals : List (Refusal ε)} {m : ℕ} (h : admits refusals m = true) (n : ℕ) :
    after (after refusals m) n = after refusals (m + n) := by
  have hpass := after_pass h (Nat.le_add_right m n)
  rw [Nat.add_sub_cancel_left] at hpass
  rw [show after refusals m = pass refusals m from if_pos h]
  exact hpass

/-- An accepted call takes a positive part of what it was offered. -/
theorem Sink.offer_accept (s : Sink α ε) (symbols : List α) (hne : symbols ≠ [])
    (h : admits s.refusals 1 = true) :
    ∃ n, 0 < n ∧ n ≤ symbols.length ∧ admits s.refusals n = true ∧
      s.offer symbols = (.inr n,
        { s with
          taken := s.taken ++ symbols.take n
          refusals := pass s.refusals n
          calls := s.calls + 1 }) := by
  have hlen : 0 < symbols.length := List.length_pos_iff.mpr hne
  cases hr : s.refusals with
  | nil =>
      refine ⟨min (s.limit s.calls + 1) symbols.length, by omega, by omega, rfl, ?_⟩
      simp only [Sink.offer, Sink.quota, hr]
  | cons r rest =>
      rcases r with ⟨_ | room, code⟩
      · rw [hr] at h
        cases h
      · refine ⟨min (s.limit s.calls + 1) (min symbols.length (room + 1)), by omega, by omega,
          ?_, ?_⟩
        · simp only [admits, decide_eq_true_eq]
          omega
        · simp only [Sink.offer, Sink.quota, hr]

/-- A refused call takes nothing. -/
theorem Sink.offer_refuse (s : Sink α ε) (symbols : List α) (h : admits s.refusals 1 = false) :
    ∃ code, s.offer symbols = (.inl code, { s with refusals := s.refusals.tail }) := by
  cases hr : s.refusals with
  | nil => rw [hr] at h; cases h
  | cons r rest =>
      rcases r with ⟨_ | room, code⟩
      · exact ⟨code, by simp [Sink.offer, hr]⟩
      · rw [hr] at h
        simp [admits] at h

/-- Between `s` and `s'` the transport was offered `symbols`, in any number of calls that
ended with the first refusal: `ok` says there was none. -/
structure Offered (s s' : Sink α ε) (ok : Bool) (symbols : List α) : Prop where
  ok_eq : ok = admits s.refusals symbols.length
  taken : s'.taken = s.taken ++ symbols.take (room s.refusals symbols.length)
  refusals : s'.refusals = after s.refusals symbols.length

section Offered

variable {s s' s'' : Sink α ε} {ok : Bool} {a b : List α}

/-- Nothing offered. -/
theorem Offered.nil (s : Sink α ε) : Offered s s true [] :=
  ⟨by simp, by simp, by simp⟩

/-- Symbols offered without a refusal have all been taken. -/
theorem Offered.taken_of_ok (h : Offered s s' true a) : s'.taken = s.taken ++ a := by
  rw [h.taken, room_of_admits h.ok_eq.symm, List.take_length]

/-- What a refusal left out is part of any longer offer. -/
theorem Offered.extend (h : Offered s s' false a) (b : List α) : Offered s s' false (a ++ b) := by
  obtain ⟨hok, htaken, hrefusals⟩ := h
  have hadd : admits s.refusals (a.length + b.length) = false := by
    rw [admits_add, ← hok, Bool.false_and]
  refine ⟨by rw [List.length_append, hadd], ?_, ?_⟩
  · have hroom : room s.refusals (a.length + b.length) = room s.refusals a.length := by
      cases hr : s.refusals with
      | nil => rw [hr] at hok; cases hok
      | cons r rest =>
          rw [hr] at hok
          have hlt : r.room < a.length := by simpa [admits] using hok.symm
          simp only [room]
          omega
    rw [htaken, List.length_append, hroom,
      List.take_append_of_le_length (Nat.le_of_lt (room_lt_of_not_admits hok.symm))]
  · rw [hrefusals, List.length_append, after, after, if_neg (by simp [← hok]),
      if_neg (by simp [hadd])]

/-- Two offers, the first of them without a refusal, are one. -/
theorem Offered.trans (h : Offered s s' true a) (h' : Offered s' s'' ok b) :
    Offered s s'' ok (a ++ b) := by
  have hadmits := h.ok_eq.symm
  have hafter : after s.refusals a.length = pass s.refusals a.length := if_pos hadmits
  refine ⟨?_, ?_, ?_⟩
  · rw [h'.ok_eq, h.refusals, List.length_append, admits_add, hadmits, Bool.true_and]
  · have hroom := room_pass hadmits (Nat.le_add_right a.length b.length)
    rw [Nat.add_sub_cancel_left] at hroom
    rw [h'.taken, h.taken_of_ok, h.refusals, hafter, List.length_append, ← hroom,
      List.take_length_add_append, List.append_assoc]
  · rw [h'.refusals, h.refusals, after_add hadmits, List.length_append]

/-- Whatever the refusals, the offer can go on after one that was not refused. -/
theorem Offered.refusals_nil (h : Offered s s' ok a) (hs : s.refusals = []) :
    ok = true ∧ s'.refusals = [] := by
  refine ⟨by rw [h.ok_eq, hs, admits_nil], by rw [h.refusals, hs, after_nil]⟩

end Offered

end ChunkedSink
