import DesktopSync.Computation.ByteOrder
import DesktopSync.Model.Shared

/-!
# The packet header

`PacketHeader` as it lies in memory on the x64 build: forty bytes, little endian, with
two alignment bytes before `pathLen`. The sender puts the raw structure on the wire and
the receiver reads it back into one, so the layout is the wire format. Nothing sets the
alignment bytes; they are a field of their own here and every result holds for any value
of them.
-/

set_option autoImplicit false

namespace DesktopSync.Model

/-- SOURCE: sync_dll.cpp:21-23 -/
def opcodeHello : UInt16 := 1

def opcodeFile : UInt16 := 2

def opcodeEnd : UInt16 := 3

/-- `DSYC` -/
def magicDSYC : List.Vector UInt8 4 := ⟨[0x44, 0x53, 0x59, 0x43], rfl⟩

/-- SOURCE: sync_dll.cpp:25-34 -/
structure PacketHeader where
  magic : List.Vector UInt8 4 := magicDSYC
  version : UInt16 := 1
  opcode : UInt16 := 0
  type : UInt16 := 0
  /-- The two alignment bytes between `type` and `pathLen`. -/
  pad : UInt16
  pathLen : UInt32 := 0
  fileSize : UInt64 := 0
  md5 : List.Vector UInt8 16 := List.Vector.replicate 16 0
  deriving DecidableEq

/-- `sizeof(PacketHeader)` -/
def headerSize : ℕ := 40

/-- The `n` bytes at offset `off` of a buffer. -/
def field (buf : List UInt8) (off n : ℕ) : List.Vector UInt8 n :=
  ⟨List.ofFn fun i : Fin n => buf.getD (off + i) 0, List.length_ofFn⟩

/-- The unsigned integer stored in the `n` bytes at offset `off`. -/
def fieldNat (buf : List UInt8) (off n : ℕ) : ℕ := ByteOrder.ofBytes (field buf off n).toList

namespace PacketHeader

/-- The structure's bytes, as `reinterpret_cast<char*>(&hdr)` shows them. -/
def toBytes (h : PacketHeader) : List UInt8 :=
  h.magic.toList ++ (ByteOrder.toBytes 2 h.version.toNat ++ (ByteOrder.toBytes 2 h.opcode.toNat ++
    (ByteOrder.toBytes 2 h.type.toNat ++ (ByteOrder.toBytes 2 h.pad.toNat ++
      (ByteOrder.toBytes 4 h.pathLen.toNat ++ (ByteOrder.toBytes 8 h.fileSize.toNat ++
        h.md5.toList))))))

/-- The structure a buffer of forty bytes is. -/
def ofBytes (buf : List UInt8) : PacketHeader where
  magic := field buf 0 4
  version := UInt16.ofNat (fieldNat buf 4 2)
  opcode := UInt16.ofNat (fieldNat buf 6 2)
  type := UInt16.ofNat (fieldNat buf 8 2)
  pad := UInt16.ofNat (fieldNat buf 10 2)
  pathLen := UInt32.ofNat (fieldNat buf 12 4)
  fileSize := UInt64.ofNat (fieldNat buf 16 8)
  md5 := field buf 24 16

@[simp] theorem length_toBytes (h : PacketHeader) : h.toBytes.length = headerSize := by
  simp [toBytes, headerSize]

end PacketHeader

/-- Bytes stored at an offset are read back from it. -/
theorem field_append (a b c : List UInt8) {off n : ℕ} (ha : a.length = off) (hb : b.length = n) :
    (field (a ++ (b ++ c)) off n).toList = b := by
  subst ha hb
  apply List.ext_getElem
  · simp [field]
  · intro i hi hi'
    simp only [field, List.Vector.toList, List.getElem_ofFn, List.getD_eq_getElem?_getD]
    rw [List.getElem?_append_right (Nat.le_add_right _ _), Nat.add_sub_cancel_left,
      List.getElem?_append_left hi', List.getElem?_eq_getElem hi', Option.getD_some]

/-- An integer stored at an offset is read back from it. -/
theorem fieldNat_append (a c : List UInt8) {off n : ℕ} (value : ℕ) (ha : a.length = off)
    (hv : value < 256 ^ n) : fieldNat (a ++ (ByteOrder.toBytes n value ++ c)) off n = value := by
  unfold fieldNat
  rw [field_append a _ c ha (ByteOrder.length_toBytes n value),
    ByteOrder.ofBytes_toBytes n value hv]

namespace PacketHeader

/-- The receiver reads back the header the sender wrote, whatever follows it. -/
theorem ofBytes_toBytes (h : PacketHeader) (tail : List UInt8) :
    ofBytes (h.toBytes ++ tail) = h := by
  rcases h with ⟨magic, version, opcode, type, pad, pathLen, fileSize, md5⟩
  have hmagic := magic.toList_length
  have hmd5 := md5.toList_length
  have h2 : ∀ n : UInt16, n.toNat < 256 ^ 2 := fun n => n.toNat_lt
  simp only [toBytes, List.append_assoc]
  set m := magic.toList
  set v := ByteOrder.toBytes 2 version.toNat with hv
  set o := ByteOrder.toBytes 2 opcode.toNat with ho
  set t := ByteOrder.toBytes 2 type.toNat with ht
  set p := ByteOrder.toBytes 2 pad.toNat with hp
  set l := ByteOrder.toBytes 4 pathLen.toNat with hl
  set f := ByteOrder.toBytes 8 fileSize.toNat with hf
  simp only [ofBytes, mk.injEq]
  refine ⟨Subtype.ext ?_, ?_, ?_, ?_, ?_, ?_, ?_, Subtype.ext ?_⟩
  · exact field_append [] m _ rfl hmagic
  · rw [hv, fieldNat_append m _ _ (by simp [hmagic]) (h2 _), UInt16.ofNat_toNat]
  · rw [← List.append_assoc m, ho, fieldNat_append (m ++ v) _ _ (by simp [hmagic, v]) (h2 _),
      UInt16.ofNat_toNat]
  · rw [← List.append_assoc m, ← List.append_assoc (m ++ v), ht,
      fieldNat_append (m ++ v ++ o) _ _ (by simp [hmagic, v, o]) (h2 _), UInt16.ofNat_toNat]
  · rw [← List.append_assoc m, ← List.append_assoc (m ++ v), ← List.append_assoc (m ++ v ++ o), hp,
      fieldNat_append (m ++ v ++ o ++ t) _ _ (by simp [hmagic, v, o, t]) (h2 _),
      UInt16.ofNat_toNat]
  · rw [← List.append_assoc m, ← List.append_assoc (m ++ v), ← List.append_assoc (m ++ v ++ o),
      ← List.append_assoc (m ++ v ++ o ++ t), hl,
      fieldNat_append (m ++ v ++ o ++ t ++ p) _ _ (by simp [hmagic, v, o, t, p])
        pathLen.toNat_lt, UInt32.ofNat_toNat]
  · rw [← List.append_assoc m, ← List.append_assoc (m ++ v), ← List.append_assoc (m ++ v ++ o),
      ← List.append_assoc (m ++ v ++ o ++ t), ← List.append_assoc (m ++ v ++ o ++ t ++ p), hf,
      fieldNat_append (m ++ v ++ o ++ t ++ p ++ l) _ _ (by simp [hmagic, v, o, t, p, l])
        fileSize.toNat_lt, UInt64.ofNat_toNat]
  · rw [← List.append_assoc m, ← List.append_assoc (m ++ v), ← List.append_assoc (m ++ v ++ o),
      ← List.append_assoc (m ++ v ++ o ++ t), ← List.append_assoc (m ++ v ++ o ++ t ++ p),
      ← List.append_assoc (m ++ v ++ o ++ t ++ p ++ l)]
    exact field_append (m ++ v ++ o ++ t ++ p ++ l ++ f) _ tail
      (by simp [hmagic, v, o, t, p, l, f]) hmd5

end PacketHeader

end DesktopSync.Model
