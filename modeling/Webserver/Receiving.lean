import Mathlib.Algebra.Ring.Nat
import Webserver.ByteQueue

namespace Webserver.Receiving

open Segments ByteQueue

/-- The answer of readv: an error number, or the bytes it stored into the iovecs in order. -/
inductive Readv
  | failed (errno : Int)
  | stored (received : List Byte)
deriving DecidableEq

def sizeofExtrabuf : Nat := 65536

def iovcnt (b : Buffer) : Nat := if b.writeableBytes < sizeofExtrabuf then 2 else 1

def iovLens (b : Buffer) : List Nat := [b.writeableBytes, sizeofExtrabuf].take (iovcnt b)

def Possible (b : Buffer) : Readv → Prop
  | .failed _ => True
  | .stored received => received.length ≤ (iovLens b).sum

instance (b : Buffer) : (r : Readv) → Decidable (Possible b r)
  | .failed _ => .isTrue trivial
  | .stored _ => inferInstanceAs (Decidable (_ ≤ _))

/-- The offsets from begin() that are stored to: first readv fills the free tail,
then append copies what went to extrabuf to the place after writerIndex_. -/
def readWrites (b : Buffer) (received : List Byte) : List Nat :=
  List.range' b.writerIndex (min received.length b.writeableBytes) ++
    if received.length ≤ b.writeableBytes then []
    else Buffer.appendWrites { b with writerIndex := b.buffer.length } (received.drop b.writeableBytes)

structure Outcome where
  returned : Nat
  savedErrno : Option Int
  buffer : Buffer
  writes : List Nat

/-- The result is a size_t, so the -1 of a failed readv comes back as the largest one. -/
def readFd (b : Buffer) : Readv → Outcome
  | .failed errno => ⟨2 ^ 64 - 1, some errno, b, []⟩
  | .stored received => ⟨received.length, none, b.readFd received, readWrites b received⟩

structure Delivers (b : Buffer) (received : List Byte) (o : Outcome) : Prop where
  returned : o.returned = received.length
  readable : o.buffer.readable = b.readable ++ received
  inside : ∀ i ∈ o.writes, i < b.buffer.length
  wellFormed : o.buffer.WellFormed

def Receives (b : Buffer) : Readv → Prop
  | .failed errno => (readFd b (.failed errno)).buffer = b
  | .stored received => Delivers b received (readFd b (.stored received))

def NoSpill (b : Buffer) : Readv → Prop
  | .failed _ => True
  | .stored received => received.length ≤ b.writeableBytes

instance (b : Buffer) : (r : Readv) → Decidable (NoSpill b r)
  | .failed _ => .isTrue trivial
  | .stored _ => inferInstanceAs (Decidable (_ ≤ _))

theorem readFd_of_le {b : Buffer} {received : List Byte} (hfit : received.length ≤ b.writeableBytes) :
    b.readFd received = b.append received := by
  unfold Buffer.readFd Buffer.append
  rw [if_pos hfit, List.take_of_length_le hfit]

theorem writerIndex_readFd_of_lt {b : Buffer} {received : List Byte}
    (hspill : b.writeableBytes < received.length) :
    (b.readFd received).writerIndex = b.buffer.length + (received.length - b.writeableBytes) := by
  unfold Buffer.readFd
  rw [if_neg (Nat.not_le.mpr hspill)]
  simp only [Buffer.append, length_overwrite, List.length_drop]

theorem length_readFd (b : Buffer) (received : List Byte) :
    (b.readFd received).buffer.length = b.buffer.length := by
  simp only [Buffer.readFd]
  split
  · exact length_overwrite _ _ _
  · simp only [Buffer.append, length_overwrite]

theorem readWrites_of_le {b : Buffer} {received : List Byte} (hfit : received.length ≤ b.writeableBytes) :
    readWrites b received = b.appendWrites received := by
  unfold readWrites Buffer.appendWrites
  rw [if_pos hfit, Nat.min_eq_left hfit, List.append_nil]

theorem delivers_of_fits {b : Buffer} (h : b.WellFormed) {received : List Byte}
    (hfit : received.length ≤ b.writeableBytes) : Delivers b received (readFd b (.stored received)) := by
  constructor
  · rfl
  · simp only [readFd, readFd_of_le hfit, h.readable_append hfit]
  · simp only [readFd, readWrites_of_le hfit]
    exact appendWrites_inside h hfit
  · simp only [readFd, readFd_of_le hfit]
    exact (h.append_iff received).mpr hfit

theorem fits_of_receives {b : Buffer} {received : List Byte} (h : Receives b (.stored received)) :
    received.length ≤ b.writeableBytes := by
  by_contra hspill
  have hw : (b.readFd received).WellFormed := h.wellFormed
  have hend := hw.writer
  rw [length_readFd, writerIndex_readFd_of_lt (Nat.lt_of_not_le hspill)] at hend
  omega

theorem receives_iff_noSpill (b : Buffer) (h : b.WellFormed) (r : Readv) :
    Receives b r ↔ NoSpill b r := by
  cases r with
  | failed errno => exact ⟨fun _ => trivial, fun _ => rfl⟩
  | stored received => exact ⟨fits_of_receives, delivers_of_fits h⟩

theorem receives_iff_noSpill_fresh : Receives (Buffer.construct 0) (.stored [1, 2, 3]) :=
  (receives_iff_noSpill _ (Buffer.construct_wellFormed 0) (.stored [1, 2, 3])).mpr (by decide +kernel)

theorem readFd_spills_past_end :
    ¬ ∀ (b : Buffer) (r : Readv), b.WellFormed → Possible b r → Receives b r := by
  intro hall
  have hfit := fits_of_receives (hall (Buffer.construct 0) (.stored (List.replicate 1025 65))
    (Buffer.construct_wellFormed 0) (by decide +kernel))
  rw [List.length_replicate, Buffer.construct_writeableBytes] at hfit
  exact absurd hfit (by decide)

end Webserver.Receiving
