import Webserver.Buffer
import Webserver.Runs

namespace Webserver.ByteQueue

open Runs

inductive Op
  | append (data : List Byte)
  | retrieve (len : Nat)
  | retrieveAll
  | retrieveAllAsString

def apply : Op → Buffer → Buffer
  | .append data, b => b.append data
  | .retrieve len, b => b.retrieve len
  | .retrieveAll, b => b.retrieveAll
  | .retrieveAllAsString, b => b.retrieveAllAsString.2

def returned : Op → Buffer → Option (List Byte)
  | .retrieveAllAsString, b => some b.retrieveAllAsString.1
  | _, _ => none

def writes : Op → Buffer → List Nat
  | .append data, b => b.appendWrites data
  | _, _ => []

/-- The queue of bytes a Buffer stands for: bytes enter at the back, leave at
the front, and asking for more than there is takes all. -/
def fifo : Op → List Byte → List Byte
  | .append data, q => q ++ data
  | .retrieve len, q => q.drop len
  | .retrieveAll, _ => []
  | .retrieveAllAsString, _ => []

def fifoReturned : Op → List Byte → Option (List Byte)
  | .retrieveAllAsString, q => some q
  | _, _ => none

abbrev State := Buffer × List Byte

def next (s : State) (op : Op) : State := (apply op s.1, fifo op s.2)

structure Refines (s : State) : Prop where
  wellFormed : s.1.WellFormed
  readable : s.1.readable = s.2

structure Faithful (s : State) (op : Op) : Prop where
  inside : ∀ o ∈ writes op s.1, o < s.1.buffer.length
  returned : returned op s.1 = fifoReturned op s.2

def Fits (s : State) : Op → Prop
  | .append data => data.length ≤ s.1.writeableBytes
  | _ => True

theorem appendWrites_inside {b : Buffer} (h : b.WellFormed) {data : List Byte}
    (hfit : data.length ≤ b.writeableBytes) : ∀ o ∈ b.appendWrites data, o < b.buffer.length := by
  intro o ho
  have hw := h.writer
  simp only [Buffer.appendWrites, List.mem_range'_1] at ho
  unfold Buffer.writeableBytes at hfit
  omega

theorem step_refines_iff (s : State) (op : Op) (h : Refines s) :
    Faithful s op ∧ Refines (next s op) ↔ Fits s op := by
  have hw := h.wellFormed
  constructor
  · rintro ⟨_, hn⟩
    cases op with
    | append data => exact (hw.append_iff data).mp hn.wellFormed
    | retrieve | retrieveAll | retrieveAllAsString => trivial
  · intro hfit
    cases op with
    | append data =>
        refine ⟨⟨appendWrites_inside hw hfit, rfl⟩, (hw.append_iff data).mpr hfit, ?_⟩
        simp only [next, apply, fifo, hw.readable_append hfit, h.readable]
    | retrieve len =>
        refine ⟨⟨by simp [writes], rfl⟩, hw.retrieve len, ?_⟩
        simp only [next, apply, fifo, hw.readable_retrieve, h.readable]
    | retrieveAll =>
        exact ⟨⟨by simp [writes], rfl⟩, hw.retrieveAll, Buffer.readable_retrieveAll s.1⟩
    | retrieveAllAsString =>
        refine ⟨⟨by simp [writes], ?_⟩, hw.retrieve _, hw.readable_retrieveAllAsString⟩
        simp only [returned, fifoReturned, Buffer.retrieveAllAsString_fst, h.readable]

def fresh (initialSize : Nat) : State := (Buffer.construct initialSize, [])

theorem fresh_refines (n : Nat) : Refines (fresh n) :=
  ⟨Buffer.construct_wellFormed n, Buffer.construct_readable n⟩

/-- A Buffer behaves as the queue all along a run exactly when no append of the
run is longer than the free tail of the vector: append never makes room. -/
theorem refines_fifo_iff_appends_fit (n : Nat) (ops : List Op) :
    Always next Refines (fresh n) ops ∧ Meets next Faithful (fresh n) ops ↔
      Meets next Fits (fresh n) ops :=
  always_and_meets_iff step_refines_iff (fresh_refines n)

theorem first_append_too_long (n : Nat) (data : List Byte) (hlong : Buffer.kInitialSize < data.length) :
    ¬ Refines (next (fresh n) (.append data)) := by
  intro hn
  have hfit := ((Buffer.construct_wellFormed n).append_iff data).mp hn.wellFormed
  rw [Buffer.construct_writeableBytes] at hfit
  omega

theorem long_append_leaves_vector :
    ¬ (Always next Refines (fresh 1024) [.append (List.replicate 1025 0)] ∧
      Meets next Faithful (fresh 1024) [.append (List.replicate 1025 0)]) := by
  rintro ⟨⟨_, hn⟩, _⟩
  refine first_append_too_long 1024 (List.replicate 1025 0) ?_ hn
  rw [List.length_replicate]
  decide

end Webserver.ByteQueue
