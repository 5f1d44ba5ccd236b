import Webserver.Buffer

namespace Webserver

def kLargeBuffer : Nat := 4000 * 1000

/-- A buffer of SIZE bytes, by what lies before cur_. -/
structure FixedBuffer (SIZE : Nat) where
  data : List Byte
  fits : data.length ≤ SIZE

namespace FixedBuffer

variable {SIZE : Nat}

def construct : FixedBuffer SIZE := ⟨[], Nat.zero_le SIZE⟩

def avail (b : FixedBuffer SIZE) : Nat := SIZE - b.data.length

def append (buf : List Byte) (b : FixedBuffer SIZE) : FixedBuffer SIZE :=
  if h : buf.length < b.avail then
    ⟨b.data ++ buf, by simp only [avail] at h; simp only [List.length_append]; omega⟩
  else b

def reset (_ : FixedBuffer SIZE) : FixedBuffer SIZE := construct

theorem append_data {buf : List Byte} {b : FixedBuffer SIZE} (h : buf.length < b.avail) :
    (b.append buf).data = b.data ++ buf := by
  simp [append, h]

theorem avail_of_empty {b : FixedBuffer SIZE} (h : b.data = []) : b.avail = SIZE := by
  simp [avail, h]

end FixedBuffer

end Webserver
