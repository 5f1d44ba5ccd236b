import Mathlib.Algebra.Ring.Nat
import Webserver.ByteQueue

namespace Webserver.BufferHistory

open Runs

/-- The calls of ByteQueue and the one whose length is not looked at. -/
inductive Op
  | basic (op : ByteQueue.Op)
  | retrieveAsString (len : Nat)

/-- A Buffer in memory: the bytes that lie past the end of the vector, and the
cells that are spent, whose byte was readable once and is so no longer. -/
structure Placed where
  buffer : Buffer
  beyond : Nat → Byte
  spent : Nat → Bool

namespace Placed

def cell (p : Placed) (i : Nat) : Byte := p.buffer.buffer.getD i (p.beyond i)

def readable (p : Placed) (i : Nat) : Bool := p.buffer.readerIndex ≤ i && i < p.buffer.writerIndex

def reads (p : Placed) : Op → List Nat
  | .retrieveAsString len => List.range' p.buffer.readerIndex len
  | .basic .retrieveAllAsString => List.range' p.buffer.readerIndex p.buffer.readableBytes
  | .basic _ => []

def returned (p : Placed) : Op → Option (List Byte)
  | .retrieveAsString len => some ((p.reads (.retrieveAsString len)).map p.cell)
  | .basic op => ByteQueue.returned op p.buffer

def call (b : Buffer) : Op → Buffer
  | .retrieveAsString len => (b.retrieveAsString len).2
  | .basic op => ByteQueue.apply op b

def next (p : Placed) (op : Op) : Placed :=
  let q : Placed := { p with buffer := call p.buffer op }
  { q with spent := fun i => !q.readable i && (p.spent i || p.readable i) }

end Placed

open Placed

structure Holding (content : List Byte) (p : Placed) : Prop where
  wellFormed : p.buffer.WellFormed
  content : p.buffer.readable = content
  unspent : ∀ i, p.readable i = true → p.spent i = false

abbrev Pair := Placed × Placed

def pairNext (s : Pair) (op : Op) : Pair := (s.1.next op, s.2.next op)

def Fits (s : Pair) : Op → Prop
  | .basic (.append data) => data.length ≤ s.1.buffer.writeableBytes ∧ data.length ≤ s.2.buffer.writeableBytes
  | _ => True

structure Same (s : Pair) (op : Op) : Prop where
  returned : s.1.returned op = s.2.returned op
  content : (s.1.next op).buffer.readable = (s.2.next op).buffer.readable
  first : ∀ i ∈ s.1.reads op, s.1.spent i = false
  second : ∀ i ∈ s.2.reads op, s.2.spent i = false

/-- No two Buffers that hold this content can be told apart by these calls. -/
def Indistinct (content : List Byte) (ops : List Op) : Prop :=
  ∀ a b : Placed, Holding content a → Holding content b → Meets pairNext Fits (a, b) ops →
    Meets pairNext Same (a, b) ops

def fifo (content : List Byte) : Op → List Byte
  | .retrieveAsString len => content.drop len
  | .basic op => ByteQueue.fifo op content

def Within (content : List Byte) : Op → Prop
  | .retrieveAsString len => len ≤ content.length
  | .basic _ => True

variable {p : Placed} {content : List Byte}

theorem readable_iff (p : Placed) (i : Nat) :
    p.readable i = true ↔ p.buffer.readerIndex ≤ i ∧ i < p.buffer.writerIndex := by
  rw [Placed.readable, Bool.and_eq_true, decide_eq_true_eq, decide_eq_true_eq]

theorem cell_of_lt {i : Nat} (h : i < p.buffer.buffer.length) : p.cell i = p.buffer.buffer[i] := by
  rw [cell, List.getD_eq_getElem?_getD, List.getElem?_eq_getElem h, Option.getD_some]

theorem returned_inside {len : Nat} (h : p.buffer.readerIndex + len ≤ p.buffer.buffer.length) :
    p.returned (.retrieveAsString len) = some (p.buffer.retrieveAsString len).1 := by
  simp only [Placed.returned, reads, Buffer.retrieveAsString, Option.some.injEq]
  apply List.ext_getElem
  · simp only [List.length_map, List.length_range', List.length_take, List.length_drop]
    omega
  · intro i hi _
    simp only [List.length_map, List.length_range'] at hi
    rw [List.getElem_map, List.getElem_range', Nat.one_mul, cell_of_lt (by omega), List.getElem_take,
      List.getElem_drop]

theorem Holding.length (h : Holding content p) : p.buffer.writerIndex = p.buffer.readerIndex + content.length := by
  have hlen := h.wellFormed.length_readable
  have hreader := h.wellFormed.reader
  rw [h.content, Buffer.readableBytes] at hlen
  omega

theorem Holding.returned_within (h : Holding content p) {len : Nat} (hlen : len ≤ content.length) :
    p.returned (.retrieveAsString len) = some (content.take len) := by
  have hend := h.length
  have hwriter := h.wellFormed.writer
  rw [returned_inside (by omega), ← h.content, Buffer.readable, Segments.window_eq_take_drop, List.take_take,
    Nat.min_eq_left (by omega)]
  rfl

theorem call_holding {b : Buffer} (hw : b.WellFormed) (hc : b.readable = content) {op : Op}
    (hfit : ∀ data, op = .basic (.append data) → data.length ≤ b.writeableBytes) :
    (call b op).WellFormed ∧ (call b op).readable = fifo content op := by
  cases op with
  | retrieveAsString len => exact ⟨hw.retrieve len, by rw [← hc]; exact hw.readable_retrieve len⟩
  | basic op =>
      have hstep := ByteQueue.step_refines_iff (b, content) op ⟨hw, hc⟩
      have hfits : ByteQueue.Fits (b, content) op := by
        cases op with
        | append data => exact hfit data rfl
        | retrieve | retrieveAll | retrieveAllAsString => trivial
      obtain ⟨_, hnext⟩ := hstep.mpr hfits
      exact ⟨hnext.wellFormed, hnext.readable⟩

theorem next_unspent (p : Placed) (op : Op) (i : Nat) (h : (p.next op).readable i = true) :
    (p.next op).spent i = false := by
  have hr : ({ p with buffer := call p.buffer op } : Placed).readable i = true := h
  simp only [next, hr, Bool.not_true, Bool.false_and]

theorem Holding.next (h : Holding content p) {op : Op}
    (hfit : ∀ data, op = .basic (.append data) → data.length ≤ p.buffer.writeableBytes) :
    Holding (fifo content op) (p.next op) := by
  obtain ⟨hw, hc⟩ := call_holding h.wellFormed h.content hfit
  exact ⟨hw, hc, next_unspent p op⟩

theorem Holding.returned_basic (h : Holding content p) (op : ByteQueue.Op) :
    p.returned (.basic op) = ByteQueue.fifoReturned op content := by
  cases op with
  | retrieveAllAsString =>
      simp only [Placed.returned, ByteQueue.returned, ByteQueue.fifoReturned, Buffer.retrieveAllAsString_fst, h.content]
  | append | retrieve | retrieveAll => rfl

theorem Holding.reads_unspent (h : Holding content p) {op : Op} (hw : Within content op) :
    ∀ i ∈ p.reads op, p.spent i = false := by
  have hend := h.length
  intro i hi
  apply h.unspent
  rw [readable_iff]
  cases op with
  | retrieveAsString len =>
      have hlen : len ≤ content.length := hw
      simp only [reads, List.mem_range'_1] at hi
      omega
  | basic op =>
      cases op with
      | retrieveAllAsString =>
          simp only [reads, List.mem_range'_1, Buffer.readableBytes] at hi
          omega
      | append | retrieve | retrieveAll => simp [reads] at hi

theorem Fits.first {s : Pair} {op : Op} (h : Fits s op) (data : List Byte) (hop : op = .basic (.append data)) :
    data.length ≤ s.1.buffer.writeableBytes := by
  subst hop
  exact h.1

theorem Fits.second {s : Pair} {op : Op} (h : Fits s op) (data : List Byte) (hop : op = .basic (.append data)) :
    data.length ≤ s.2.buffer.writeableBytes := by
  subst hop
  exact h.2

theorem same_of_within {a b : Placed} {op : Op} (ha : Holding content a) (hb : Holding content b)
    (hfit : Fits (a, b) op) (hw : Within content op) : Same (a, b) op := by
  constructor
  · cases op with
    | retrieveAsString len => exact (ha.returned_within hw).trans (hb.returned_within hw).symm
    | basic op => exact (ha.returned_basic op).trans (hb.returned_basic op).symm
  · exact (ha.next hfit.first).content.trans (hb.next hfit.second).content.symm
  · exact ha.reads_unspent hw
  · exact hb.reads_unspent hw

theorem indistinct_of_within {ops : List Op} (hw : Meets fifo Within content ops) : Indistinct content ops := by
  intro a b ha hb hfit
  induction ops generalizing content a b with
  | nil => trivial
  | cons op ops ih =>
      refine ⟨same_of_within ha hb hfit.1 hw.1, ?_⟩
      exact ih hw.2 (a.next op) (b.next op) (ha.next hfit.1.first) (hb.next hfit.1.second) hfit.2

/-- Two Buffers with the same indices, which differ in every cell that is neither readable nor spent. -/
structure Twins (a b : Placed) : Prop where
  reader : a.buffer.readerIndex = b.buffer.readerIndex
  writer : a.buffer.writerIndex = b.buffer.writerIndex
  size : a.buffer.buffer.length = b.buffer.buffer.length
  apart : ∀ i, a.cell i ≠ b.cell i ∨ a.spent i = true ∨ a.readable i = true

def appended : Op → Nat
  | .basic (.append data) => data.length
  | _ => 0

def Roomy (p : Placed) (ops : List Op) : Prop :=
  p.buffer.writerIndex + (ops.map appended).sum ≤ p.buffer.buffer.length

def taken (n : Nat) : Op → Nat
  | .retrieveAsString len | .basic (.retrieve len) => len
  | .basic .retrieveAll | .basic .retrieveAllAsString => n
  | .basic (.append _) => 0

theorem call_cases (b : Buffer) (op : Op) :
    (∃ data, op = .basic (.append data) ∧ call b op = b.append data) ∨
      appended op = 0 ∧ call b op = b.retrieve (taken b.readableBytes op) := by
  cases op with
  | retrieveAsString len => exact .inr ⟨rfl, rfl⟩
  | basic op =>
      cases op with
      | append data => exact .inl ⟨data, rfl, rfl⟩
      | retrieve len => exact .inr ⟨rfl, rfl⟩
      | retrieveAllAsString => exact .inr ⟨rfl, rfl⟩
      | retrieveAll =>
          refine .inr ⟨rfl, ?_⟩
          rw [taken, Buffer.retrieve, if_neg (Nat.lt_irrefl _)]
          rfl

theorem retrieve_buffer (b : Buffer) (len : Nat) : (b.retrieve len).buffer = b.buffer := by
  unfold Buffer.retrieve
  split
  · rfl
  · rfl

theorem retrieve_writer {b : Buffer} (h : b.WellFormed) (len : Nat) : (b.retrieve len).writerIndex ≤ b.writerIndex := by
  unfold Buffer.retrieve
  split
  · exact Nat.le_refl _
  · exact h.prepend.trans h.reader

theorem size_next (p : Placed) (op : Op) : (p.next op).buffer.buffer.length = p.buffer.buffer.length := by
  rcases call_cases p.buffer op with ⟨data, _, hcall⟩ | ⟨_, hcall⟩
  · simp only [next, hcall]
    exact Segments.length_overwrite _ _ _
  · simp only [next, hcall, retrieve_buffer]

theorem cell_next {op : Op} (hw : p.buffer.WellFormed)
    (hfit : ∀ data, op = .basic (.append data) → data.length ≤ p.buffer.writeableBytes) (i : Nat) :
    (p.next op).cell i = p.cell i ∨ (p.next op).readable i = true := by
  have hreader := hw.reader
  have hwriter := hw.writer
  rcases call_cases p.buffer op with ⟨data, hop, hcall⟩ | ⟨_, hcall⟩
  · have hlen := hfit data hop
    unfold Buffer.writeableBytes at hlen
    by_cases hi : i < p.buffer.writerIndex ∨ p.buffer.writerIndex + data.length ≤ i
    · refine .inl ?_
      simp only [next, cell, hcall, Buffer.append, List.getD_eq_getElem?_getD]
      rw [Segments.getElem?_overwrite_of_outside _ _ (by omega) hi]
    · refine .inr ?_
      simp only [readable_iff, next, hcall, Buffer.append]
      omega
  · refine .inl ?_
    simp only [next, cell, hcall, retrieve_buffer]

theorem Roomy.fits {op : Op} {ops : List Op} (h : Roomy p (op :: ops)) (data : List Byte)
    (hop : op = .basic (.append data)) : data.length ≤ p.buffer.writeableBytes := by
  subst hop
  simp only [Roomy, appended, List.map_cons, List.sum_cons] at h
  unfold Buffer.writeableBytes
  omega

theorem Roomy.next {op : Op} {ops : List Op} (hw : p.buffer.WellFormed) (h : Roomy p (op :: ops)) :
    Roomy (p.next op) ops := by
  rw [Roomy, List.map_cons, List.sum_cons] at h
  rw [Roomy, size_next]
  rcases call_cases p.buffer op with ⟨data, rfl, hcall⟩ | ⟨_, hcall⟩
  · simp only [Placed.next, hcall, Buffer.append]
    simp only [appended] at h
    omega
  · have hle := retrieve_writer hw (taken p.buffer.readableBytes op)
    simp only [Placed.next, hcall]
    omega

variable {a b : Placed}

theorem Twins.readable (h : Twins a b) (i : Nat) : a.readable i = b.readable i := by
  rw [Placed.readable, Placed.readable, h.reader, h.writer]

theorem Twins.roomy (h : Twins a b) {ops : List Op} (hr : Roomy a ops) : Roomy b ops := by
  rw [Roomy, ← h.writer, ← h.size]
  exact hr

theorem Twins.indices_next (h : Twins a b) (op : Op) :
    (a.next op).buffer.readerIndex = (b.next op).buffer.readerIndex ∧
      (a.next op).buffer.writerIndex = (b.next op).buffer.writerIndex := by
  have hbytes : a.buffer.readableBytes = b.buffer.readableBytes := by
    rw [Buffer.readableBytes, Buffer.readableBytes, h.reader, h.writer]
  rcases call_cases a.buffer op with ⟨data, rfl, _⟩ | ⟨hnone, hcall⟩
  · simp [Placed.next, call, ByteQueue.apply, Buffer.append, h.reader, h.writer]
  · rcases call_cases b.buffer op with ⟨data, hop, _⟩ | ⟨_, hcall'⟩
    · subst hop
      simp [Placed.next, call, ByteQueue.apply, Buffer.append, h.reader, h.writer]
    · simp only [Placed.next, hcall, hcall', hbytes, Buffer.retrieve]
      split
      · exact ⟨by simp only [h.reader], h.writer⟩
      · exact ⟨rfl, rfl⟩

theorem Twins.next (h : Twins a b) (ha : Holding content a) (hb : Holding content b) {op : Op} {ops : List Op}
    (hr : Roomy a (op :: ops)) : Twins (a.next op) (b.next op) := by
  obtain ⟨hreader, hwriter⟩ := h.indices_next op
  refine ⟨hreader, hwriter, ?_, fun i => ?_⟩
  · rw [size_next, size_next, h.size]
  · have hread : (a.next op).readable i = (b.next op).readable i := by
      rw [Placed.readable, Placed.readable, hreader, hwriter]
    by_cases hnew : (a.next op).readable i = true
    · exact .inr (.inr hnew)
    · have hca := (cell_next ha.wellFormed hr.fits i).resolve_right hnew
      have hcb := (cell_next hb.wellFormed (h.roomy hr).fits i).resolve_right (hread ▸ hnew)
      rw [hca, hcb]
      refine (h.apart i).imp_right fun hold => .inl ?_
      have hout : ({ a with buffer := call a.buffer op } : Placed).readable i = false := Bool.eq_false_iff.mpr hnew
      rcases hold with hspent | hreadable
      · simp [Placed.next, hout, hspent]
      · simp [Placed.next, hout, hreadable]

theorem Twins.within (h : Twins a b) (ha : Holding content a) {op : Op} (hs : Same (a, b) op) : Within content op := by
  cases op with
  | basic op => trivial
  | retrieveAsString len =>
      by_contra hlong
      have hlen : ¬ len ≤ content.length := hlong
      have hend := ha.length
      have hmem : a.buffer.writerIndex ∈ a.reads (.retrieveAsString len) := by
        rw [reads, List.mem_range'_1]
        omega
      rcases h.apart a.buffer.writerIndex with hne | hspent | hreadable
      · have hstrings :
            (a.reads (.retrieveAsString len)).map a.cell = (a.reads (.retrieveAsString len)).map b.cell := by
          have heq := Option.some.inj hs.returned
          simp only [reads, ← h.reader] at heq
          exact heq
        exact hne (List.map_inj_left.mp hstrings _ hmem)
      · have hfirst := hs.first _ hmem
        rw [hspent] at hfirst
        cases hfirst
      · have hlt := ((readable_iff a _).mp hreadable).2
        exact Nat.lt_irrefl _ hlt

theorem Twins.run (h : Twins a b) {ops : List Op} (ha : Holding content a) (hb : Holding content b) (hr : Roomy a ops) :
    Meets pairNext Fits (a, b) ops ∧ (Meets pairNext Same (a, b) ops → Meets fifo Within content ops) := by
  induction ops generalizing content a b with
  | nil => exact ⟨trivial, fun _ => trivial⟩
  | cons op ops ih =>
      have hr' := h.roomy hr
      obtain ⟨hfits, hwithin⟩ := ih (h.next ha hb hr) (ha.next hr.fits) (hb.next hr'.fits) (hr.next ha.wellFormed)
      refine ⟨⟨?_, hfits⟩, fun hs => ⟨h.within ha hs.1, hwithin hs.2⟩⟩
      cases op with
      | retrieveAsString len => trivial
      | basic op =>
          cases op with
          | append data => exact ⟨hr.fits data rfl, hr'.fits data rfl⟩
          | retrieve | retrieveAll | retrieveAllAsString => trivial

def laid (z : Byte) (content : List Byte) (room : Nat) : Placed :=
  ⟨⟨List.replicate Buffer.kPrepend z ++ (content ++ List.replicate room z), Buffer.kPrepend,
    Buffer.kPrepend + content.length⟩, fun _ => z, fun _ => false⟩

theorem laid_holding (z : Byte) (content : List Byte) (room : Nat) : Holding content (laid z content room) := by
  refine ⟨⟨le_rfl, Nat.le_add_right _ _, ?_⟩, ?_, fun _ _ => rfl⟩
  · simp [laid]
  · simp [laid, Buffer.readable, Segments.window_eq_take_drop]

theorem laid_cell (z : Byte) (content : List Byte) (room : Nat) {i : Nat}
    (h : ¬ (laid z content room).readable i = true) : (laid z content room).cell i = z := by
  rw [readable_iff] at h
  simp only [laid] at h
  simp only [cell, laid, List.getD_eq_getElem?_getD]
  by_cases hi : i < Buffer.kPrepend
  · rw [List.getElem?_append_left (by simpa using hi), List.getElem?_replicate_of_lt hi, Option.getD_some]
  · rw [List.getElem?_append_right (by simp; omega), List.getElem?_append_right (by simp; omega)]
    rw [List.getElem?_replicate]
    split <;> rfl

theorem laid_twins (content : List Byte) (room : Nat) : Twins (laid 0 content room) (laid 1 content room) := by
  refine ⟨rfl, rfl, by simp [laid], fun i => ?_⟩
  by_cases hr : (laid 0 content room).readable i = true
  · exact .inr (.inr hr)
  · refine .inl ?_
    rw [laid_cell 0 content room hr, laid_cell 1 content room hr]
    decide

theorem within_of_indistinct {ops : List Op} (hall : Indistinct content ops) : Meets fifo Within content ops := by
  let room := (ops.map appended).sum
  have hr : Roomy (laid 0 content room) ops := by simp [Roomy, laid, room, Nat.add_assoc]
  have ha := laid_holding 0 content room
  have hb := laid_holding 1 content room
  obtain ⟨hfits, hwithin⟩ := (laid_twins content room).run ha hb hr
  exact hwithin (hall _ _ ha hb hfits)

theorem indistinct_iff_within (content : List Byte) (ops : List Op) :
    Indistinct content ops ↔ Meets fifo Within content ops :=
  ⟨within_of_indistinct, indistinct_of_within⟩

def after (history : List Op) : Placed :=
  run Placed.next ⟨.construct 0, fun _ => 0, fun _ => false⟩ history

theorem after_holding (history : List Op) (h : (history.map appended).sum ≤ Buffer.kInitialSize) :
    Holding (run fifo [] history) (after history) := by
  have hrun {p : Placed} {content : List Byte} (hp : Holding content p) (hr : Roomy p history) :
      Holding (run fifo content history) (run Placed.next p history) := by
    clear h
    induction history generalizing p content with
    | nil => exact hp
    | cons op ops ih => exact ih (hp.next hr.fits) (hr.next hp.wellFormed)
  apply hrun
  · exact ⟨Buffer.construct_wellFormed 0, Buffer.construct_readable 0, fun _ _ => rfl⟩
  · simp only [Roomy, Buffer.construct, List.length_replicate]
    omega

/-- Two Buffers hold one byte, 120; the one that held three bytes before gives
two of them out again. -/
theorem consumed_bytes_returned_again :
    (after [.basic (.append [97, 98, 99]), .basic .retrieveAll, .basic (.append [120])]).returned
        (.retrieveAsString 3) = some [120, 98, 99] ∧
      (after [.basic (.append [120])]).returned (.retrieveAsString 3) = some [120, 0, 0] ∧
      ¬ ∀ content ops, Indistinct content ops := by
  have hfirst : (after [.basic (.append [97, 98, 99]), .basic .retrieveAll, .basic (.append [120])]).returned
      (.retrieveAsString 3) = some [120, 98, 99] := by decide +kernel
  have hsecond : (after [.basic (.append [120])]).returned (.retrieveAsString 3) = some [120, 0, 0] := by decide +kernel
  refine ⟨hfirst, hsecond, fun hall => ?_⟩
  have ha := after_holding [.basic (.append [97, 98, 99]), .basic .retrieveAll, .basic (.append [120])] (by decide)
  have hb := after_holding [.basic (.append [120])] (by decide)
  have hs := (hall [120] [.retrieveAsString 3] _ _ ha hb ⟨trivial, trivial⟩).1.returned
  simp only [hfirst, hsecond] at hs
  exact absurd hs (by decide)

end Webserver.BufferHistory
