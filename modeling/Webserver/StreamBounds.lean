import Mathlib.Algebra.Ring.Int.Defs
import Mathlib.Algebra.Ring.Nat
import Webserver.IntegerText

namespace Webserver

open Runs Segments

def sizeT (x : Int) : Nat := (x % 2 ^ 64).toNat

/-- A FixedBuffer of kSmallBuffer bytes with its memory, and cur_ as an offset in it. -/
structure RawStream where
  data : List Byte
  cur : Nat

/-- A call on a LogStream. The pointer given to append has len bytes behind it. -/
inductive StreamCall
  | put (v : Arg)
  | append (data : List Byte) (len : CInt) (behind : len.val ≤ data.length)

namespace RawStream

/-- The constructor leaves in data_ what is there. -/
def construct (garbage : Vector Byte kSmallBuffer) : RawStream := ⟨garbage.toList, 0⟩

def avail (b : RawStream) : Int := (CInt.ofInt (kSmallBuffer - b.cur)).val

def length (b : RawStream) : Int := (CInt.ofInt b.cur).val

/-- There is a result where no byte is stored outside of the memory. -/
def memcpy (mem : List Byte) (dst : Nat) (src : List Byte) (len : Nat) : Option (List Byte) :=
  if dst + len ≤ mem.length then some (overwrite mem dst (src.take len)) else none

def append (buf : List Byte) (len : Nat) (b : RawStream) : Option RawStream :=
  if len < sizeT b.avail then (memcpy b.data b.cur buf len).map fun data => ⟨data, b.cur + len⟩
  else some b

def formatInteger (v : IntValue) (b : RawStream) : Option RawStream :=
  if LogStream.kMaxnumericSize ≤ b.avail then
    (LogStream.convertAt v.value b.data b.cur).map fun (data, len) => ⟨data, b.cur + len⟩
  else some b

def put (b : RawStream) : Operand → Option RawStream
  | .bool v => b.append (if v then bytesOf "1" else bytesOf "0") 1
  | .cstr (some str) => b.append str (LogStream.cString str).length
  | .cstr none => b.append (bytesOf "(null)") 6
  | .string str => b.append str str.length
  | .integer v => b.formatInteger v

def call (b : RawStream) : StreamCall → Option RawStream
  | .put v => b.put v.resolve
  | .append data len _ => b.append data (sizeT len.val)

end RawStream

def LogStream.call (s : LogStream) : StreamCall → LogStream
  | .put v => s.put v.resolve
  | .append data len _ => if 0 ≤ len.val then s.append (data.take len.val.toNat) else s

namespace StreamBounds

open LogStream

def rendering : StreamCall → List Byte
  | .put v => text v.resolve
  | .append data len _ => data.take len.val.toNat

def hasRoomFor (avail : Int) : Operand → Bool
  | .integer _ => kMaxnumericSize ≤ avail
  | o => (text o).length < avail

def hasRoom (avail : Int) : StreamCall → Bool
  | .put v => hasRoomFor avail v.resolve
  | .append _ len _ => 0 ≤ len.val ∧ len.val < avail

def streamed (content : List Byte) : List StreamCall → List Byte
  | [] => content
  | c :: cs => streamed (if hasRoom (kSmallBuffer - content.length) c then content ++ rendering c else content) cs

structure Holds (b : RawStream) (s : LogStream) : Prop where
  size : b.data.length = kSmallBuffer
  cur : b.cur = s.data.length
  spare : s.data.length < kSmallBuffer
  content : window b.data 0 b.cur = s.data

theorem Holds.avail {b : RawStream} {s : LogStream} (h : Holds b s) : b.avail = s.avail := by
  have hspare := h.spare
  have hcur := h.cur
  have hk : kSmallBuffer = 4000 := rfl
  rw [RawStream.avail, FixedBuffer.avail, CInt.ofInt_val (by omega) (by omega)]
  omega

theorem sizeT_natCast {n : Nat} (h : n < 2 ^ 64) : sizeT n = n := by
  simp only [sizeT]
  omega

theorem Holds.sizeT_avail {b : RawStream} {s : LogStream} (h : Holds b s) : sizeT b.avail = s.avail := by
  rw [h.avail]
  apply sizeT_natCast
  simp only [FixedBuffer.avail, kSmallBuffer]
  omega

theorem Holds.stored {b : RawStream} {s t : LogStream} (h : Holds b s) (text after : List Byte)
    (ht : t.data = s.data ++ text) (hspare : t.data.length < kSmallBuffer)
    (hroom : b.cur + text.length + after.length ≤ b.data.length) :
    Holds ⟨overwrite b.data b.cur (text ++ after), b.cur + text.length⟩ t := by
  constructor
  case size => rw [length_overwrite, h.size]
  case cur => rw [ht, List.length_append, h.cur]
  case spare => exact hspare
  case content =>
    have htext : b.cur + text.length ≤ b.data.length := by omega
    rw [← overwrite_overwrite _ _ _ hroom,
      window_overwrite_of_le _ _ (by rw [length_overwrite]; exact htext) (Nat.le_refl _),
      window_overwrite _ _ (Nat.zero_le _) htext, h.content, ht]

theorem append_refines {b : RawStream} {s : LogStream} (h : Holds b s) {buf text : List Byte} {len : Nat}
    (htake : buf.take len = text) (hlen : text.length = len) :
    ∃ b', b.append buf len = some b' ∧ Holds b' (FixedBuffer.append text s) := by
  simp only [RawStream.append, h.sizeT_avail]
  by_cases hroom : len < s.avail
  · have hdata : (FixedBuffer.append text s).data = s.data ++ text := FixedBuffer.append_data (by rwa [hlen])
    have hspare : (FixedBuffer.append text s).data.length < kSmallBuffer := by
      rw [hdata, List.length_append, hlen]
      simp only [FixedBuffer.avail] at hroom
      omega
    have hin : b.cur + len ≤ b.data.length := by
      rw [hdata, List.length_append] at hspare
      rw [h.cur, h.size]
      omega
    refine ⟨⟨overwrite b.data b.cur text, b.cur + len⟩, ?_, ?_⟩
    · simp [RawStream.memcpy, hroom, hin, htake]
    · have hstored := h.stored text [] hdata hspare (by simpa [hlen] using hin)
      rwa [List.append_nil, hlen] at hstored
  · refine ⟨b, if_neg hroom, ?_⟩
    rwa [FixedBuffer.append, dif_neg (by omega)]

theorem formatInteger_refines {b : RawStream} {s : LogStream} (h : Holds b s) (v : IntValue) :
    ∃ b', b.formatInteger v = some b' ∧ Holds b' (formatInteger v s) := by
  simp only [RawStream.formatInteger, h.avail, formatInteger]
  by_cases hroom : kMaxnumericSize ≤ s.avail
  · have hlen := length_convert_le v.value
    have hin : b.cur + (convert v.value).length < b.data.length := by
      rw [h.cur, h.size]
      simp only [FixedBuffer.avail, kMaxnumericSize] at hroom
      omega
    refine ⟨⟨overwrite b.data b.cur (convert v.value ++ [0]), b.cur + (convert v.value).length⟩, ?_, ?_⟩
    · rw [if_pos (Int.ofNat_le.mpr hroom), IntegerText.convertAt_eq v hin]
      rfl
    · rw [dif_pos hroom]
      apply h.stored (convert v.value) [0] rfl _ hin
      rw [List.length_append, ← h.cur, ← h.size]
      exact hin
  · refine ⟨b, if_neg (by omega), ?_⟩
    rwa [dif_neg hroom]

theorem put_refines {b : RawStream} {s : LogStream} (h : Holds b s) (o : Operand) :
    ∃ b', b.put o = some b' ∧ Holds b' (s.put o) := by
  cases o with
  | bool v =>
      cases v with
      | true => exact append_refines h rfl rfl
      | false => exact append_refines h rfl rfl
  | cstr str =>
      cases str with
      | none => exact append_refines h rfl rfl
      | some str => exact append_refines h (List.prefix_iff_eq_take.mp (List.takeWhile_prefix _)).symm rfl
  | string str => exact append_refines h List.take_length rfl
  | integer v => exact formatInteger_refines h v

theorem call_refines {b : RawStream} {s : LogStream} (h : Holds b s) (c : StreamCall) :
    ∃ b', b.call c = some b' ∧ Holds b' (s.call c) := by
  cases c with
  | put v => exact put_refines h v.resolve
  | append data len behind =>
      have hlen := len.property
      simp only [RawStream.call, LogStream.call]
      by_cases hneg : 0 ≤ len.val
      · have hsize : sizeT len.val = len.val.toNat := by
          simp only [sizeT]
          omega
        rw [if_pos hneg, hsize]
        exact append_refines h rfl (List.length_take_of_le (by omega))
      · -- a negative length is a huge size_t, which there is never room for
        have hhuge : ¬ sizeT len.val < sizeT b.avail := by
          rw [h.sizeT_avail]
          simp only [FixedBuffer.avail, sizeT, kSmallBuffer]
          omega
        rw [if_neg hneg]
        exact ⟨b, if_neg hhuge, h⟩

theorem append_data_eq (s : LogStream) (text : List Byte) :
    (FixedBuffer.append text s).data = if (text.length : Int) < s.avail then s.data ++ text else s.data := by
  rw [FixedBuffer.append]
  split
  · rw [if_pos (by omega)]
  · rw [if_neg (by omega)]

theorem put_data_eq (s : LogStream) (o : Operand) :
    (s.put o).data = if hasRoomFor s.avail o then s.data ++ text o else s.data := by
  cases o with
  | integer v =>
      simp only [put, formatInteger, hasRoomFor, decide_eq_true_eq, Int.ofNat_le]
      split
      · rfl
      · rfl
  | bool v =>
      simp only [hasRoomFor, decide_eq_true_eq]
      exact append_data_eq s _
  | string str =>
      simp only [hasRoomFor, decide_eq_true_eq]
      exact append_data_eq s _
  | cstr str =>
      simp only [hasRoomFor, decide_eq_true_eq]
      cases str with
      | none => exact append_data_eq s _
      | some str => exact append_data_eq s _

theorem call_data_eq (s : LogStream) (c : StreamCall) :
    (s.call c).data = if hasRoom s.avail c then s.data ++ rendering c else s.data := by
  cases c with
  | put v => exact put_data_eq s v.resolve
  | append data len behind =>
      simp only [LogStream.call, hasRoom, rendering]
      by_cases hneg : 0 ≤ len.val
      · have hlen : ((data.take len.val.toNat).length : Int) = len.val := by
          rw [List.length_take_of_le (by omega), Int.toNat_of_nonneg hneg]
        rw [if_pos hneg, append_data_eq, hlen]
        simp [hneg]
      · simp [hneg]

theorem run_data (s : LogStream) (cs : List StreamCall) : (run LogStream.call s cs).data = streamed s.data cs := by
  induction cs generalizing s with
  | nil => rfl
  | cons c cs ih =>
      have havail : (s.avail : Int) = kSmallBuffer - s.data.length := by
        have hfits := s.fits
        simp only [FixedBuffer.avail]
        omega
      rw [streamed, ← havail, ← call_data_eq]
      exact ih (s.call c)

theorem run_refines {b : RawStream} {s : LogStream} (h : Holds b s) (cs : List StreamCall) :
    ∃ b', cs.foldlM RawStream.call b = some b' ∧ Holds b' (run LogStream.call s cs) := by
  induction cs generalizing b s with
  | nil => exact ⟨b, rfl, h⟩
  | cons c cs ih =>
      obtain ⟨b₁, hb₁, h₁⟩ := call_refines h c
      obtain ⟨b₂, hb₂, h₂⟩ := ih h₁
      refine ⟨b₂, ?_, h₂⟩
      rw [List.foldlM_cons, hb₁]
      exact hb₂

theorem construct_holds (garbage : Vector Byte kSmallBuffer) : Holds (.construct garbage) FixedBuffer.construct := by
  constructor
  case size => exact garbage.length_toList
  case cur => rfl
  case spare => decide
  case content => exact window_self _ 0

theorem stream_bounded (garbage : Vector Byte kSmallBuffer) (cs : List StreamCall) :
    ∃ b, cs.foldlM RawStream.call (.construct garbage) = some b ∧ b.data.length = kSmallBuffer ∧
      0 ≤ b.length ∧ b.length ≤ kSmallBuffer - 1 ∧ b.length + b.avail = kSmallBuffer ∧
      window b.data 0 b.length.toNat = streamed [] cs := by
  obtain ⟨b, hb, h⟩ := run_refines (construct_holds garbage) cs
  have hspare := h.spare
  have hk : kSmallBuffer = 4000 := rfl
  have hcur := h.cur
  have hlength : b.length = b.cur := CInt.ofInt_val (by omega) (by omega)
  have havail := h.avail
  simp only [FixedBuffer.avail] at havail
  refine ⟨b, hb, h.size, by omega, by omega, by omega, ?_⟩
  rw [hlength, Int.toNat_natCast, h.content]
  exact run_data FixedBuffer.construct cs

end StreamBounds

end Webserver
