import TinyMq.Lib.ByteStrings

/-!
One tom file of `LinearStorage.cpp`. The file stream keeps the two things the
code depends on: the bytes on disk and the sticky `good()` flag, which a failed
read or write clears and nothing sets again. Offsets and sizes are unbounded
Nat. The operations take the device's answer to their write as an argument:
`none` is a complete write, `some k` one that fails after `k` bytes.
-/
namespace TinyMqTom
open ByteStrings

abbrev UUID := BitVec 128

inductive StorageError where
  | emptyData
  | writeFailed
  | readHeaderFailed
  | readDataFailed
  | outOfRange
  | cannotEmplaceTom
  deriving DecidableEq, Repr

structure FileStream where
  bytes : Bytes
  good : Bool := true
  deriving DecidableEq, Repr

def FileStream.read (f : FileStream) (off len : Nat) : FileStream × Bytes :=
  if f.good ∧ off + len ≤ f.bytes.length then (f, slice off len f.bytes)
  else ({ f with good := false }, [])

def FileStream.write (f : FileStream) (off : Nat) (d : Bytes) (fault : Option Nat) : FileStream :=
  if f.good then
    match fault with
    | none => { f with bytes := overwrite f.bytes off d }
    | some k => ⟨overwrite f.bytes off (d.take k),false⟩
  else f

structure Header where
  uuid : UUID := 0
  dataSize : Nat := 0
  deleted : UInt8 := 0
  deriving DecidableEq, Repr

/-- `sizeof(Header)`: sixteen uuid bytes in network order, the eight bytes of `dataSize`, the
    `deleted` byte and seven bytes of padding. -/
def headerSize : Nat := 32

def deletedOffset : Nat := 24

def headerBytes (h : Header) : Bytes :=
  (leBytes 16 h.uuid.toNat).reverse ++ leBytes 8 h.dataSize ++ [h.deleted] ++ List.replicate 7 0

def headerOf (bs : Bytes) : Header :=
  ⟨BitVec.ofNat 128 (leNat (slice 0 16 bs).reverse),leNat (slice 16 8 bs),bs.getD deletedOffset 0⟩

/-- `tomId` of a default `Record`: the record was not found. -/
def noTom : Nat := 2 ^ 32 - 1

structure Record where
  tomId : Nat := noTom
  offset : Nat := 2 ^ 64 - 1
  header : Header := {}
  deriving DecidableEq, Repr

structure Tom where
  id : Nat
  size : Nat
  tomF : FileStream
  deriving DecidableEq, Repr

def Tom.create (id : Nat) (bytes : Bytes) : Tom := ⟨id,bytes.length,⟨bytes,true⟩⟩

def Tom.append (t : Tom) (uuid : UUID) (data : Bytes) (fault : Option Nat) :
    Tom × Except StorageError Record :=
  if data.isEmpty then (t, .error .emptyData)
  else
    let r : Record := ⟨t.id,t.size,⟨uuid,data.length,0⟩⟩
    let buf := headerBytes r.header ++ data
    let f := t.tomF.write r.offset buf fault
    -- _size moves before the write, so a failed append leaves it moved
    let t := { t with size := t.size + buf.length, tomF := f }
    if f.good then (t, .ok r) else (t, .error .writeFailed)

def Tom.record (t : Tom) (offset : Nat) : Tom × Except StorageError Record :=
  if offset < t.size then
    let (f, bs) := t.tomF.read offset headerSize
    let t := { t with tomF := f }
    if f.good then (t, .ok ⟨t.id,offset,headerOf bs⟩) else (t, .error .readHeaderFailed)
  else (t, .ok {})

def Tom.data (t : Tom) (r : Record) : Tom × Except StorageError Bytes :=
  if r.header.dataSize = 0 then (t, .ok [])
  else
    let (f, bs) := t.tomF.read (r.offset + headerSize) r.header.dataSize
    let t := { t with tomF := f }
    if f.good then (t, .ok bs) else (t, .error .readDataFailed)

/-- The record is passed by reference: the caller's copy comes back with its flag. -/
def Tom.remove (t : Tom) (r : Record) (fault : Option Nat) : Tom × Record × Bool :=
  if r.header.deleted ≠ 0 then (t, r, true)
  else
    let f := t.tomF.write (r.offset + deletedOffset) [1] fault
    let t := { t with tomF := f }
    if f.good then (t, { r with header := { r.header with deleted := 1 } }, true)
    else (t, r, false)

@[simp] theorem headerBytes_length (h : Header) : (headerBytes h).length = headerSize := by
  simp [headerBytes, headerSize]

theorem headerOf_headerBytes {h : Header} (fits : h.dataSize < 2 ^ 64) :
    headerOf (headerBytes h) = h := by
  have uuid : slice 0 16 (headerBytes h) = (leBytes 16 h.uuid.toNat).reverse := by
    simp [slice, headerBytes]
  have size : slice 16 8 (headerBytes h) = leBytes 8 h.dataSize := by
    simp [slice, headerBytes]
  have flag : (headerBytes h).getD deletedOffset 0 = h.deleted := by
    simp [headerBytes, deletedOffset, List.getD_eq_getElem?_getD]
  have word : h.uuid.toNat < 256 ^ 16 := by have := h.uuid.isLt; omega
  have count : h.dataSize < 256 ^ 8 := by omega
  simp only [headerOf, uuid, size, flag, List.reverse_reverse, leNat_leBytes word, leNat_leBytes count,
    BitVec.ofNat_toNat, BitVec.setWidth_eq]

end TinyMqTom
