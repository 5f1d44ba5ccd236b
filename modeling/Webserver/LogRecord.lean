import Webserver.LogStream
import Webserver.TimeStamp

namespace Webserver

open Runs

inductive LogLevel
  | DEBUG
  | INFO
  | WARN
  | ERROR
  | FATAL
  | NUM_LOG_LEVELS
deriving DecidableEq

/-- A Logger, with what its Impl holds that is read again. -/
structure Logger where
  stream : LogStream
  level : LogLevel
  line : CInt
  basename : List Byte

namespace Logger

def slash : Byte := 47

def sourceFile (path : List Byte) : List Byte :=
  ((LogStream.cString path).reverse.takeWhile (· ≠ slash)).reverse

def intArg (v : CInt) : Arg := .integer ⟨.int, v.val, v.property.1, v.property.2⟩

def charArg (c : Char) (h : c.toNat < 128) : Arg := .integer (.char c h)

def literal (s : String) : Arg := .cstr (some (bytesOf s))

def putAll (s : LogStream) (args : List Arg) : LogStream := run LogStream.put s (args.map Arg.resolve)

def opening (func : List Byte) : List Arg := [.cstr (some func), charArg ' ' (by decide)]

/-- The constructor with a function name. It passes no errno on, so Impl writes nothing. -/
def construct (file : List Byte) (line : CInt) (level : LogLevel) (func : List Byte) : Logger :=
  ⟨putAll .construct (opening func), level, line, sourceFile file⟩

def streamed (args : List Arg) (l : Logger) : Logger := { l with stream := putAll l.stream args }

def closing (basename : List Byte) (line : CInt) : List Arg :=
  [literal " - ", .cstr (some basename), charArg ':' (by decide), intArg line, charArg '\n' (by decide)]

def finish (l : Logger) : Logger := { l with stream := putAll l.stream (closing l.basename l.line) }

/-- What the destructor passes to g_output, and whether it aborts then. -/
def destruct (l : Logger) : List Byte × Bool := (l.finish.stream.data, l.level = .FATAL)

end Logger

namespace LogRecord

open Logger LogStream

def record (file : List Byte) (line : CInt) (level : LogLevel) (func : List Byte) (body : List Arg) : List Byte :=
  (destruct (streamed body (construct file line level func))).1

def EndsInNewline (text : List Byte) : Prop := text.getLast? = some newline

instance (text : List Byte) : Decidable (EndsInNewline text) := inferInstanceAs (Decidable (_ = _))

def args (file : List Byte) (line : CInt) (func : List Byte) (body : List Arg) : List Arg :=
  opening func ++ body ++ closing (sourceFile file) line

def EverythingFits (file : List Byte) (line : CInt) (func : List Byte) (body : List Arg) : Prop :=
  Meets put Fits FixedBuffer.construct ((args file line func body).map Arg.resolve)

def recordText (file : List Byte) (line : CInt) (func : List Byte) (body : List Arg) : List Byte :=
  cString func ++ bytesOf " " ++ body.flatMap (fun a => text a.resolve) ++ bytesOf " - " ++
    cString (sourceFile file) ++ bytesOf ":" ++ convert line.val ++ bytesOf "\n"

structure WellFormed (file : List Byte) (line : CInt) (level : LogLevel) (func : List Byte) (body : List Arg) :
    Prop where
  newline : EndsInNewline (record file line level func body)
  text : EverythingFits file line func body → record file line level func body = recordText file line func body

/-- What finish adds is lost, as far as it does not end in a newline itself.
Either the whole of it does not fit behind a text that ends in a newline, or the
basename ends in one, fits, and leaves too little for a number. -/
def TailLost (s : LogStream) (basename : List Byte) : Prop :=
  s.avail ≤ 3 ∧ EndsInNewline s.data ∧ (basename = [] ∨ s.avail ≤ basename.length) ∨
    EndsInNewline basename ∧ basename.length < (if 3 < s.avail then s.avail - 3 else s.avail) ∧
      (if 3 < s.avail then s.avail - 3 else s.avail) < basename.length + kMaxnumericSize

theorem endsInNewline_append {l k : List Byte} (hk : k ≠ []) : EndsInNewline (l ++ k) ↔ EndsInNewline k := by
  unfold EndsInNewline
  rw [List.getLast?_append_of_ne_nil l hk]

theorem convert_ne_nil (value : Int) : convert value ≠ [] := by
  intro hnil
  have hlast := getLast_convert value
  rw [hnil] at hlast
  cases hlast

theorem not_endsInNewline_convert (l : List Byte) (value : Int) : ¬ EndsInNewline (l ++ convert value) := by
  rw [endsInNewline_append (convert_ne_nil value), EndsInNewline, getLast_convert]
  exact fun he => zero_ne_newline _ (Option.some.inj he)

theorem formatInteger_full {s : LogStream} (h : s.avail < kMaxnumericSize) (v : IntValue) : formatInteger v s = s := by
  unfold formatInteger
  rw [dif_neg (Nat.not_le.mpr h)]

theorem formatInteger_ends {s : LogStream} (h : kMaxnumericSize ≤ s.avail) (v : IntValue) :
    ¬ EndsInNewline (formatInteger v s).data := by
  unfold formatInteger
  rw [dif_pos h]
  exact not_endsInNewline_convert _ _

theorem formatInteger_keeps {s : LogStream} (h : ¬ EndsInNewline s.data) (v : IntValue) :
    ¬ EndsInNewline (formatInteger v s).data := by
  by_cases hroom : kMaxnumericSize ≤ s.avail
  · exact formatInteger_ends hroom v
  · rw [formatInteger_full (Nat.lt_of_not_le hroom)]
    exact h

theorem run_integers_ends (v : IntValue) (vs : List IntValue) (s : LogStream) :
    EndsInNewline (run put s ((v :: vs).map .integer)).data ↔ s.avail < kMaxnumericSize ∧ EndsInNewline s.data := by
  have hkeep (vs : List IntValue) (t : LogStream) (ht : ¬ EndsInNewline t.data) :
      ¬ EndsInNewline (run put t (vs.map .integer)).data := by
    induction vs generalizing t with
    | nil => exact ht
    | cons w ws ih => exact ih _ (formatInteger_keeps ht w)
  have hfull (vs : List IntValue) (h : s.avail < kMaxnumericSize) : run put s (vs.map .integer) = s := by
    induction vs with
    | nil => rfl
    | cons w ws ih =>
        have hw : put s (.integer w) = s := formatInteger_full h w
        simpa [run, hw] using ih
  by_cases hroom : kMaxnumericSize ≤ s.avail
  · constructor
    · intro hend
      exact absurd hend (hkeep vs _ (formatInteger_ends hroom v))
    · rintro ⟨hlt, _⟩
      omega
  · rw [hfull _ (Nat.lt_of_not_le hroom)]
    exact ⟨fun hend => ⟨Nat.lt_of_not_le hroom, hend⟩, fun h => h.2⟩

theorem append_ends (buf : List Byte) (s : LogStream) : EndsInNewline (s.append buf).data ↔
    buf.length < s.avail ∧ EndsInNewline buf ∨ (buf = [] ∨ s.avail ≤ buf.length) ∧ EndsInNewline s.data := by
  by_cases hfit : buf.length < s.avail
  · rw [FixedBuffer.append_data hfit]
    by_cases hnil : buf = []
    · subst hnil
      simp [EndsInNewline]
    · rw [endsInNewline_append hnil]
      simp [hfit, hnil]
  · have hsame : s.append buf = s := dif_neg hfit
    simp [hsame, hfit, Nat.le_of_not_lt hfit]

theorem append_avail (buf : List Byte) (s : LogStream) :
    (s.append buf).avail = if buf.length < s.avail then s.avail - buf.length else s.avail := by
  by_cases hfit : buf.length < s.avail
  · rw [if_pos hfit, FixedBuffer.avail, FixedBuffer.append_data hfit, List.length_append, FixedBuffer.avail]
    omega
  · have hsame : s.append buf = s := dif_neg hfit
    rw [if_neg hfit, hsame]

theorem putAll_append (s : LogStream) (as bs : List Arg) : putAll s (as ++ bs) = putAll (putAll s as) bs := by
  rw [putAll, List.map_append, run_append]
  rfl

theorem resolve_closing (basename : List Byte) (line : CInt) : (closing basename line).map Arg.resolve =
    [.cstr (some (bytesOf " - ")), .cstr (some basename)] ++
      [(IntValue.char ':' (by decide)).promote, (⟨.int, line.val, line.property.1, line.property.2⟩ : IntValue).promote,
        (IntValue.char '\n' (by decide)).promote].map .integer := by
  simp only [closing, literal, charArg, intArg, Arg.resolve, List.map_cons, List.map_nil, List.cons_append,
    List.nil_append]

theorem finish_ends_iff (s : LogStream) (basename : List Byte) (line : CInt) :
    EndsInNewline (putAll s (closing basename line)).data ↔ TailLost s (cString basename) := by
  have hdash : cString (bytesOf " - ") = bytesOf " - " := by decide
  have hlength : (bytesOf " - ").length = 3 := by decide
  have hplain : ¬ EndsInNewline (bytesOf " - ") := by decide
  have hne : bytesOf " - " ≠ [] := by decide
  have hnamed : run put s [.cstr (some (bytesOf " - ")), .cstr (some basename)] =
      (s.append (bytesOf " - ")).append (cString basename) := by
    simp only [run, List.foldl, put, hdash]
  have hdashed : EndsInNewline (s.append (bytesOf " - ")).data ↔ s.avail ≤ 3 ∧ EndsInNewline s.data := by
    rw [append_ends, hlength]
    simp [hplain, hne]
  rw [putAll, resolve_closing, run_append, hnamed, run_integers_ends, append_ends, append_avail, hdashed, append_avail,
    hlength]
  generalize cString basename = base
  unfold TailLost
  constructor
  · rintro ⟨hsmall, ⟨hfit, hend⟩ | ⟨hbase, hthree, hend⟩⟩
    · rw [if_pos hfit] at hsmall
      exact .inr ⟨hend, hfit, by omega⟩
    · rw [if_neg (by omega)] at hbase
      exact .inl ⟨hthree, hend, hbase⟩
  · rintro (⟨hthree, hend, hbase⟩ | ⟨hend, hfit, hsmall⟩)
    · have hleft : (if 3 < s.avail then s.avail - 3 else s.avail) = s.avail := if_neg (by omega)
      rw [hleft]
      refine ⟨?_, .inr ⟨hbase, hthree, hend⟩⟩
      simp only [kMaxnumericSize]
      split <;> omega
    · rw [if_pos hfit]
      exact ⟨by omega, .inl ⟨hfit, hend⟩⟩

theorem record_eq (file : List Byte) (line : CInt) (level : LogLevel) (func : List Byte) (body : List Arg) :
    record file line level func body = (putAll .construct (args file line func body)).data := by
  simp only [args, putAll_append, record, destruct, finish, streamed, construct]

theorem not_endsInNewline_of_fits {file : List Byte} {line : CInt} {level : LogLevel} {func : List Byte}
    {body : List Arg} (h : EverythingFits file line func body) :
    ¬ EndsInNewline (record file line level func body) := by
  have hdata := run_put_data h
  have hlast : (args file line func body).map Arg.resolve =
      ((args file line func body).map Arg.resolve).dropLast ++ [.integer (IntValue.char '\n' (by decide)).promote] := by
    simp [args, closing, charArg, Arg.resolve]
  rw [hlast, List.flatMap_append, ← List.append_assoc, ← hlast] at hdata
  rw [record_eq, putAll, hdata, List.flatMap_singleton]
  exact not_endsInNewline_convert _ _

theorem wellFormed_iff_tailLost (file : List Byte) (line : CInt) (level : LogLevel) (func : List Byte)
    (body : List Arg) : WellFormed file line level func body ↔
      TailLost (streamed body (construct file line level func)).stream (cString (sourceFile file)) := by
  have hends := finish_ends_iff (streamed body (construct file line level func)).stream (sourceFile file) line
  have hrecord : record file line level func body =
      (putAll (streamed body (construct file line level func)).stream (closing (sourceFile file) line)).data := by
    simp only [record, destruct, finish, streamed, construct]
  rw [← hrecord] at hends
  constructor
  · intro h
    exact hends.mp h.newline
  · intro h
    refine ⟨hends.mpr h, fun hfit => ?_⟩
    exact absurd (hends.mpr h) (not_endsInNewline_of_fits hfit)

/-- LOG_INFO << "hi" in line 3 of a.cc: the blank, the colon and the newline are
written as the numbers 32, 58 and 10, and each digit above 0 as the next one. -/
theorem short_record_without_newline :
    record (bytesOf "src/a.cc") ⟨3, by decide⟩ .INFO (bytesOf "main") [literal "hi"] =
        bytesOf "main43hi - a.cc69420" ∧
      ¬ ∀ (file : List Byte) (line : CInt) (level : LogLevel) (func : List Byte) (body : List Arg),
        WellFormed file line level func body := by
  have htext : record (bytesOf "src/a.cc") ⟨3, by decide⟩ .INFO (bytesOf "main") [literal "hi"] =
      bytesOf "main43hi - a.cc69420" := by decide +kernel
  refine ⟨htext, fun hall => ?_⟩
  have hend := (hall (bytesOf "src/a.cc") ⟨3, by decide⟩ .INFO (bytesOf "main") [literal "hi"]).newline
  rw [htext] at hend
  exact absurd hend (by decide)

end LogRecord

end Webserver
