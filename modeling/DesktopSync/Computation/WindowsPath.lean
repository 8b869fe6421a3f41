import Mathlib.Data.List.Basic

/-!
# Windows paths as text

`std::filesystem::path` on Windows, as far as `operator/` goes: a path is UTF-16 text
with an optional root name (a drive `X:`, a server `\\name`, or one of the device
prefixes `\\?`, `\\.`, `\??`), an optional root directory and the rest. Joining follows
the standard: a right-hand side that is absolute, or that has another root name,
replaces the left; one with a root directory keeps the left's root name only; anything
else is appended, after a separator where one is missing. Nothing is normalised.

`direct_join_iff` says which right-hand sides lead to a direct child of the left.
-/

set_option autoImplicit false

namespace WindowsPath

/-- `\` and `/` both separate. -/
def isSlash (u : UInt16) : Bool := u == 0x5C || u == 0x2F

def isLetter (u : UInt16) : Bool := (0x41 ≤ u && u ≤ 0x5A) || (0x61 ≤ u && u ≤ 0x7A)

/-- `\`, the separator that joining inserts. -/
def preferredSeparator : UInt16 := 0x5C

/-- The text starts with a drive, `X:`. -/
def hasDrive (p : List UInt16) : Bool :=
  match p with
  | d :: c :: _ => isLetter d && c == 0x3A
  | _ => false

/-- The text starts with `\\?\`, `\\.\` or `\??\`, not followed by another separator. -/
def isDevice (p : List UInt16) : Bool :=
  match p with
  | a :: b :: c :: d :: rest =>
      isSlash a && isSlash d && !(rest.head?.any isSlash) &&
        ((isSlash b && (c == 0x3F || c == 0x2E)) || (b == 0x3F && c == 0x3F))
  | _ => false

/-- The text starts with `\\` and a server name. -/
def isServer (p : List UInt16) : Bool :=
  match p with
  | a :: b :: c :: _ => isSlash a && isSlash b && !isSlash c
  | _ => false

/-- How many units the root name takes. -/
def rootNameLength (p : List UInt16) : ℕ :=
  if hasDrive p then 2
  else if isDevice p then 3
  else if isServer p then 3 + ((p.drop 3).takeWhile (!isSlash ·)).length
  else 0

def rootName (p : List UInt16) : List UInt16 := p.take (rootNameLength p)

/-- The text after the root name. -/
def afterRootName (p : List UInt16) : List UInt16 := p.drop (rootNameLength p)

def hasRootDirectory (p : List UInt16) : Bool := (afterRootName p).head?.any isSlash

/-- A drive needs a root directory to be absolute; every other root name is. -/
def isAbsolute (p : List UInt16) : Bool :=
  if hasDrive p then hasRootDirectory p else rootNameLength p != 0

/-- What joining puts between a path and an appended name. -/
def separator (p : List UInt16) : List UInt16 :=
  if afterRootName p = [] then (if 3 ≤ rootNameLength p then [preferredSeparator] else [])
  else if p.getLast?.any isSlash then [] else [preferredSeparator]

/-- The right-hand side takes the place of the left. -/
def replaces (p q : List UInt16) : Prop :=
  isAbsolute q = true ∨ (rootName q ≠ [] ∧ rootName p ≠ rootName q)

instance (p q : List UInt16) : Decidable (replaces p q) := inferInstanceAs (Decidable (_ ∨ _))

/-- `p / q` -/
def join (p q : List UInt16) : List UInt16 :=
  if replaces p q then q
  else if hasRootDirectory q then rootName p ++ afterRootName q
  else p ++ separator p ++ afterRootName q

/-- One plain file-name component: not empty, no separator, no drive or stream colon,
neither `.` nor `..`. -/
def PlainName (c : List UInt16) : Prop :=
  c ≠ [] ∧ (∀ u ∈ c, isSlash u = false ∧ u ≠ 0x3A) ∧ c ≠ [0x2E] ∧ c ≠ [0x2E, 0x2E]

-- over the units of the text, not over all units there are
instance (c : List UInt16) : Decidable (PlainName c) :=
  haveI : Decidable (∀ u ∈ c, isSlash u = false ∧ u ≠ 0x3A) := List.decidableBAll _ c
  inferInstanceAs (Decidable (_ ∧ _))

/-- `t` is `p` followed by one plain component. -/
def Direct (p t : List UInt16) : Prop := ∃ c, PlainName c ∧ t = p ++ separator p ++ c

theorem direct_iff (p t : List UInt16) :
    Direct p t ↔ (p ++ separator p) <+: t ∧ PlainName (t.drop (p ++ separator p).length) := by
  constructor
  · rintro ⟨c, hc, rfl⟩
    rw [List.drop_left]
    exact ⟨List.prefix_append _ _, hc⟩
  · rintro ⟨⟨c, rfl⟩, hc⟩
    rw [List.drop_left] at hc
    exact ⟨c, hc, rfl⟩

instance (p t : List UInt16) : Decidable (Direct p t) := decidable_of_iff' _ (direct_iff p t)

/-- A plain name has no drive: its second unit is not a colon. -/
theorem hasDrive_plain {c : List UInt16} (h : PlainName c) : hasDrive c = false := by
  rcases c with _ | ⟨d, _ | ⟨e, rest⟩⟩
  · rfl
  · rfl
  · have hcolon := (h.2.1 e (by simp)).2
    simp [hasDrive, hcolon]

/-- A plain name has no root name: it does not start with a separator. -/
theorem rootNameLength_plain {c : List UInt16} (h : PlainName c) : rootNameLength c = 0 := by
  have hdevice : isDevice c = false := by
    rcases c with _ | ⟨a, _ | ⟨b, _ | ⟨c, _ | ⟨d, rest⟩⟩⟩⟩ <;> try rfl
    have hslash := (h.2.1 a (by simp)).1
    simp [isDevice, hslash]
  have hserver : isServer c = false := by
    rcases c with _ | ⟨a, _ | ⟨b, _ | ⟨c, rest⟩⟩⟩ <;> try rfl
    have hslash := (h.2.1 a (by simp)).1
    simp [isServer, hslash]
  simp [rootNameLength, hasDrive_plain h, hdevice, hserver]

/-- Joining a plain name appends it. -/
theorem join_plain (p : List UInt16) {c : List UInt16} (h : PlainName c) :
    join p c = p ++ separator p ++ c := by
  have hroot := rootNameLength_plain h
  have hafter : afterRootName c = c := by rw [afterRootName, hroot, List.drop_zero]
  have hdir : hasRootDirectory c = false := by
    rw [hasRootDirectory, hafter]
    rcases c with _ | ⟨a, rest⟩
    · rfl
    · simpa using (h.2.1 a (by simp)).1
  have hnot : ¬ replaces p c := by
    simp [replaces, isAbsolute, rootName, hasDrive_plain h, hroot]
  rw [join, if_neg hnot, hdir, hafter]
  rfl

/-- Which right-hand sides stay directly inside `p`: a plain name, alone or after the
root name of `p` itself; or `p` spelled out, from its root name or from its root
directory on, and then a plain name. -/
def StaysIn (p q : List UInt16) : Prop :=
  if replaces p q then Direct p q
  else if hasRootDirectory q then Direct p (rootName p ++ afterRootName q)
  else PlainName (afterRootName q)

instance (p q : List UInt16) : Decidable (StaysIn p q) :=
  inferInstanceAs (Decidable
    (if replaces p q then Direct p q
    else if hasRootDirectory q then Direct p (rootName p ++ afterRootName q)
    else PlainName (afterRootName q)))

/-- Joining leads to a direct child exactly for the right-hand sides that stay in. -/
theorem direct_join_iff (p q : List UInt16) : Direct p (join p q) ↔ StaysIn p q := by
  unfold join StaysIn
  split
  · exact Iff.rfl
  · split
    · exact Iff.rfl
    · constructor
      · rintro ⟨c, hc, heq⟩
        rw [List.append_cancel_left heq]
        exact hc
      · intro h
        exact ⟨_, h, rfl⟩

end WindowsPath
