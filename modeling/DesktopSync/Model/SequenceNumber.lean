import DesktopSync.Computation.SerialNumber

/-!
# The numbers of UDT

`common.h`: the packets of a connection, its acknowledgements and its messages are numbered
round and round.
-/

set_option autoImplicit false

namespace DesktopSync.Model

/-! ## `CSeqNo` -/

namespace CSeqNo

/-- `m_iSeqNoTH` -/
def seqNoTH : ℤ := 0x3FFFFFFF

/-- `m_iMaxSeqNo` -/
def maxSeqNo : ℤ := 0x7FFFFFFF

/-- The sign tells which packet comes first. -/
def seqcmp (seq1 seq2 : ℤ) : ℤ := SerialNumber.cmp seqNoTH seq1 seq2

/-- How many packets there are from `seq1` to `seq2`, both included. -/
def seqlen (seq1 seq2 : ℤ) : ℤ := SerialNumber.len maxSeqNo seq1 seq2

/-- How many packets `seq2` comes behind `seq1`. -/
def seqoff (seq1 seq2 : ℤ) : ℤ := SerialNumber.off maxSeqNo seqNoTH seq1 seq2

/-- The next packet. -/
def incseq (seq : ℤ) : ℤ := SerialNumber.inc maxSeqNo seq

/-- The packet before. -/
def decseq (seq : ℤ) : ℤ := SerialNumber.dec maxSeqNo seq

/-- The number of the packet that is sent `k`-th, counted from any packet with number 0. -/
def seqno (k : ℤ) : ℤ := SerialNumber.wrap maxSeqNo k

/-- There is more than one number. -/
theorem maxSeqNo_pos : 0 < maxSeqNo := by decide

/-- The threshold is half a round. -/
theorem two_mul_seqNoTH : 2 * seqNoTH ≤ maxSeqNo + 1 := by decide

/-- No number is negative. -/
theorem seqno_nonneg (k : ℤ) : 0 ≤ seqno k := SerialNumber.wrap_nonneg maxSeqNo_pos k

/-- No number is above the largest. -/
theorem seqno_le (k : ℤ) : seqno k ≤ maxSeqNo := SerialNumber.wrap_le maxSeqNo_pos k

/-- No packet has the number -1, which stands for no packet. -/
theorem seqno_ne_neg_one (k : ℤ) : seqno k ≠ -1 := SerialNumber.wrap_ne_neg_one maxSeqNo_pos k

/-- Less than the threshold apart, two packets have different numbers. -/
theorem seqno_inj {a b : ℤ} (h : |a - b| < seqNoTH) : seqno a = seqno b ↔ a = b :=
  SerialNumber.wrap_inj (by
    have hth := two_mul_seqNoTH
    have hnonneg := abs_nonneg (a - b)
    omega)

/-- The number of the packet behind the `k`-th. -/
@[simp] theorem incseq_seqno (k : ℤ) : incseq (seqno k) = seqno (k + 1) :=
  SerialNumber.inc_wrap maxSeqNo_pos k

/-- The number of the packet before the `k`-th. -/
@[simp] theorem decseq_seqno (k : ℤ) : decseq (seqno k) = seqno (k - 1) :=
  SerialNumber.dec_wrap maxSeqNo_pos k

/-- Less than the threshold apart, the offset of two numbers is that of the packets. -/
theorem seqoff_seqno {a b : ℤ} (h : |a - b| < seqNoTH) : seqoff (seqno a) (seqno b) = b - a :=
  SerialNumber.off_wrap maxSeqNo_pos two_mul_seqNoTH h

/-- The comparison is positive where the first packet is the later one. -/
theorem seqcmp_pos {a b : ℤ} (h : |a - b| < seqNoTH) :
    0 < seqcmp (seqno a) (seqno b) ↔ b < a :=
  (SerialNumber.cmp_wrap maxSeqNo_pos two_mul_seqNoTH h).1

/-- The comparison is negative where the first packet is the earlier one. -/
theorem seqcmp_neg {a b : ℤ} (h : |a - b| < seqNoTH) :
    seqcmp (seqno a) (seqno b) < 0 ↔ a < b :=
  (SerialNumber.cmp_wrap maxSeqNo_pos two_mul_seqNoTH h).2

/-- The length from one number to a later one counts the packets. -/
theorem seqlen_seqno {a b : ℤ} (hab : a ≤ b) (h : b - a < maxSeqNo) :
    seqlen (seqno a) (seqno b) = b - a + 1 :=
  SerialNumber.len_wrap maxSeqNo_pos hab h

end CSeqNo

/-! ## `CAckNo` -/

namespace CAckNo

/-- `m_iMaxAckSeqNo` -/
def maxAckSeqNo : ℤ := 0x7FFFFFFF

/-- The next acknowledgement. -/
def incack (ackno : ℤ) : ℤ := SerialNumber.inc maxAckSeqNo ackno

/-- The number of the `k`-th acknowledgement. -/
def ackno (k : ℤ) : ℤ := SerialNumber.wrap maxAckSeqNo k

/-- The number behind that of the `k`-th acknowledgement. -/
@[simp] theorem incack_ackno (k : ℤ) : incack (ackno k) = ackno (k + 1) :=
  SerialNumber.inc_wrap (by decide) k

/-- Less than a round apart, two acknowledgements have different numbers. -/
theorem ackno_inj {a b : ℤ} (h : |a - b| ≤ maxAckSeqNo) : ackno a = ackno b ↔ a = b :=
  SerialNumber.wrap_inj h

end CAckNo

end DesktopSync.Model
