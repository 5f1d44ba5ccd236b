import Mathlib.Order.Nat
import Webserver.Segments

namespace Webserver

open Segments

abbrev Byte := UInt8

structure Buffer where
  buffer : List Byte
  readerIndex : Nat
  writerIndex : Nat
deriving DecidableEq

namespace Buffer

def kPrepend : Nat := 8

def kInitialSize : Nat := 1024

/-- The constructor, which allocates kInitialSize whatever size it is asked for. -/
def construct (_initialSize : Nat) : Buffer :=
  ⟨List.replicate (kPrepend + kInitialSize) 0, kPrepend, kPrepend⟩

def writeableBytes (b : Buffer) : Nat := b.buffer.length - b.writerIndex

def readableBytes (b : Buffer) : Nat := b.writerIndex - b.readerIndex

def prependableBytes (b : Buffer) : Nat := b.readerIndex

def readable (b : Buffer) : List Byte := window b.buffer b.readerIndex b.writerIndex

def retrieveAll (b : Buffer) : Buffer := { b with readerIndex := kPrepend, writerIndex := kPrepend }

def retrieve (b : Buffer) (len : Nat) : Buffer :=
  if len < b.readableBytes then { b with readerIndex := b.readerIndex + len } else b.retrieveAll

def retrieveAsString (b : Buffer) (len : Nat) : List Byte × Buffer :=
  ((b.buffer.drop b.readerIndex).take len, b.retrieve len)

def retrieveAllAsString (b : Buffer) : List Byte × Buffer := b.retrieveAsString b.readableBytes

def appendWrites (b : Buffer) (data : List Byte) : List Nat := List.range' b.writerIndex data.length

/-- The copy starts at writerIndex_ and asks for no room. Bytes that it stores
past the end of the vector belong to no cell of the model. -/
def append (b : Buffer) (data : List Byte) : Buffer :=
  { b with
    buffer := overwrite b.buffer b.writerIndex data
    writerIndex := b.writerIndex + data.length }

/-- readFd on the bytes that readv stored, first into the free tail and then, if
there was less of it than the 65536 bytes of extrabuf, into extrabuf. -/
def readFd (b : Buffer) (received : List Byte) : Buffer :=
  let writeable := b.writeableBytes
  let buffer := overwrite b.buffer b.writerIndex (received.take writeable)
  if received.length ≤ writeable then
    { b with buffer := buffer, writerIndex := b.writerIndex + received.length }
  else append { b with buffer := buffer, writerIndex := buffer.length } (received.drop writeable)

def resize (n : Nat) (v : List Byte) : List Byte := v.take n ++ List.replicate (n - v.length) 0

/-- Nothing calls it. The sums are those of size_t as long as they do not overflow. -/
def makeSpace (b : Buffer) (len : Nat) : Buffer :=
  if b.writeableBytes + b.prependableBytes < len + kPrepend then
    { b with buffer := resize (len + b.writerIndex) b.buffer }
  else
    ⟨copyForward b.readableBytes b.readerIndex kPrepend b.buffer, kPrepend, kPrepend + b.readableBytes⟩

structure WellFormed (b : Buffer) : Prop where
  prepend : kPrepend ≤ b.readerIndex
  reader : b.readerIndex ≤ b.writerIndex
  writer : b.writerIndex ≤ b.buffer.length

theorem construct_wellFormed (n : Nat) : (construct n).WellFormed := by
  constructor
  · exact le_rfl
  · exact le_rfl
  · simp [construct]

theorem construct_readable (n : Nat) : (construct n).readable = [] := window_self _ _

theorem construct_writeableBytes (n : Nat) : (construct n).writeableBytes = kInitialSize := by
  simp [construct, writeableBytes]

theorem WellFormed.length_readable {b : Buffer} (h : b.WellFormed) : b.readable.length = b.readableBytes :=
  length_window _ h.writer

theorem WellFormed.retrieveAll {b : Buffer} (h : b.WellFormed) : b.retrieveAll.WellFormed :=
  ⟨le_rfl, le_rfl, h.prepend.trans (h.reader.trans h.writer)⟩

theorem readable_retrieveAll (b : Buffer) : b.retrieveAll.readable = [] := window_self _ _

theorem WellFormed.retrieve {b : Buffer} (h : b.WellFormed) (len : Nat) : (b.retrieve len).WellFormed := by
  unfold Buffer.retrieve
  split
  · rename_i hlen
    unfold readableBytes at hlen
    exact ⟨h.prepend.trans (Nat.le_add_right _ _), by simp only; omega, h.writer⟩
  · exact h.retrieveAll

theorem WellFormed.readable_retrieve {b : Buffer} (h : b.WellFormed) (len : Nat) :
    (b.retrieve len).readable = b.readable.drop len := by
  unfold Buffer.retrieve
  split
  · exact (drop_window _ _ _ _).symm
  · rename_i hlen
    rw [readable_retrieveAll, List.drop_eq_nil_of_le]
    rw [h.length_readable]
    exact Nat.le_of_not_lt hlen

theorem WellFormed.append_iff {b : Buffer} (h : b.WellFormed) (data : List Byte) :
    (b.append data).WellFormed ↔ data.length ≤ b.writeableBytes := by
  have hw := h.writer
  unfold writeableBytes
  constructor
  · intro ha
    have hend := ha.writer
    simp only [append, length_overwrite] at hend
    omega
  · intro hfit
    refine ⟨h.prepend, h.reader.trans (Nat.le_add_right _ _), ?_⟩
    simp only [append, length_overwrite]
    omega

theorem WellFormed.readable_append {b : Buffer} (h : b.WellFormed) {data : List Byte}
    (hfit : data.length ≤ b.writeableBytes) : (b.append data).readable = b.readable ++ data := by
  have hw := h.writer
  unfold writeableBytes at hfit
  exact window_overwrite _ _ h.reader (by omega)

theorem retrieveAllAsString_fst (b : Buffer) :
    b.retrieveAllAsString.1 = b.readable := by
  rw [readable, window_eq_take_drop]
  rfl

theorem WellFormed.readable_retrieveAllAsString {b : Buffer} (h : b.WellFormed) :
    b.retrieveAllAsString.2.readable = [] := by
  simp only [Buffer.retrieveAllAsString, retrieveAsString, h.readable_retrieve]
  exact List.drop_eq_nil_of_le h.length_readable.le

structure SpaceMade (b : Buffer) (len : Nat) (t : Buffer) : Prop where
  wellFormed : t.WellFormed
  room : len ≤ t.writeableBytes
  readable : t.readable = b.readable
  size : b.buffer.length ≤ t.buffer.length

theorem resize_eq {n : Nat} {v : List Byte} (h : v.length ≤ n) : resize n v = v ++ List.replicate (n - v.length) 0 := by
  rw [resize, List.take_of_length_le h]

/-- There are kPrepend bytes before readerIndex_ at least, so a vector that fails the test is too short for len. -/
theorem makeSpace_grows {b : Buffer} (h : b.WellFormed) {len : Nat}
    (hshort : b.writeableBytes + b.prependableBytes < len + kPrepend) : SpaceMade b len (b.makeSpace len) := by
  have hprepend := h.prepend
  have hwriter := h.writer
  have hlack : b.buffer.length ≤ len + b.writerIndex := by
    unfold writeableBytes prependableBytes at hshort
    omega
  have hmade : b.makeSpace len =
      { b with buffer := b.buffer ++ List.replicate (len + b.writerIndex - b.buffer.length) 0 } := by
    rw [makeSpace, if_pos hshort, resize_eq hlack]
  rw [hmade]
  constructor
  · refine ⟨h.prepend, h.reader, ?_⟩
    rw [List.length_append]
    exact hwriter.trans (Nat.le_add_right _ _)
  · simp only [writeableBytes, List.length_append, List.length_replicate]
    omega
  · simp only [readable, window, List.take_append_of_le_length hwriter]
  · rw [List.length_append]
    exact Nat.le_add_right _ _

theorem makeSpace_compacts {b : Buffer} (h : b.WellFormed) {len : Nat}
    (hroom : ¬ b.writeableBytes + b.prependableBytes < len + kPrepend) : SpaceMade b len (b.makeSpace len) := by
  have hprepend := h.prepend
  have hreader := h.reader
  have hwriter := h.writer
  have hend : b.readerIndex + b.readableBytes = b.writerIndex := by
    unfold readableBytes
    omega
  have hlen := h.length_readable
  have hcopy : copyForward b.readableBytes b.readerIndex kPrepend b.buffer =
      overwrite b.buffer kPrepend b.readable := by
    rw [copyForward_eq hprepend (by omega), hend]
    rfl
  have hmade : b.makeSpace len =
      ⟨overwrite b.buffer kPrepend b.readable, kPrepend, kPrepend + b.readable.length⟩ := by
    rw [makeSpace, if_neg hroom, hcopy, hlen]
  have hinside : kPrepend + b.readable.length ≤ b.buffer.length := by omega
  rw [hmade]
  constructor
  · exact ⟨le_rfl, Nat.le_add_right _ _, by simpa only [length_overwrite] using hinside⟩
  · unfold writeableBytes prependableBytes at hroom
    simp only [writeableBytes, length_overwrite]
    omega
  · exact window_overwrite_self b.buffer b.readable hinside
  · exact (length_overwrite _ _ _).ge

theorem makeSpace_makes_space (b : Buffer) (h : b.WellFormed) (len : Nat) : SpaceMade b len (b.makeSpace len) := by
  by_cases hshort : b.writeableBytes + b.prependableBytes < len + kPrepend
  · exact makeSpace_grows h hshort
  · exact makeSpace_compacts h hshort

theorem makeSpace_overlapping :
    SpaceMade ⟨[0, 0, 0, 0, 0, 0, 0, 0, 9, 9, 1, 2, 3], 10, 13⟩ 2
      ⟨[0, 0, 0, 0, 0, 0, 0, 0, 1, 2, 3, 2, 3], 8, 11⟩ :=
  makeSpace_makes_space ⟨[0, 0, 0, 0, 0, 0, 0, 0, 9, 9, 1, 2, 3], 10, 13⟩ ⟨by decide, by decide, by decide⟩ 2

end Buffer

end Webserver
