import Mathlib.Data.List.Basic
import Webserver.Buffer
import Webserver.TimeStamp

namespace Webserver

/-- What snprintf leaves in a buffer of the given size, up to the closing zero. -/
def snprintf (size : Nat) (text : List Char) : List Char := text.take (size - 1)

def decimal : Int → List Char
  | .ofNat n => Nat.toDigits 10 n
  | .negSucc n => '-' :: Nat.toDigits 10 (n + 1)

inductive Family
  | inet
  | inet6
deriving DecidableEq

/-- A sockaddr read as a sockaddr_in: the address and the port are the bytes in
network order. -/
structure SockAddr where
  family : Family
  port : Byte × Byte
  addr : Byte × Byte × Byte × Byte

namespace Sockets

def networkToHost16 (net16 : Byte × Byte) : Nat := 256 * net16.1.toNat + net16.2.toNat

def dottedQuad (a : Byte × Byte × Byte × Byte) : List Char :=
  Nat.toDigits 10 a.1.toNat ++ '.' :: Nat.toDigits 10 a.2.1.toNat ++ '.' :: Nat.toDigits 10 a.2.2.1.toNat ++
    '.' :: Nat.toDigits 10 a.2.2.2.toNat

/-- inet_ntop leaves the buffer alone when the text and its zero do not fit. -/
def inetNtop (a : Byte × Byte × Byte × Byte) (buf : List Char) (size : Nat) : List Char :=
  if (dottedQuad a).length < size then dottedQuad a else buf

def toIp (buf : List Char) (size : Nat) (addr : SockAddr) : List Char :=
  if addr.family = .inet then inetNtop addr.addr buf size else buf

def toIpPort (buf : List Char) (size : Nat) (addr : SockAddr) : List Char :=
  let buf := toIp buf size addr
  buf ++ snprintf (size - buf.length) (':' :: Nat.toDigits 10 (networkToHost16 addr.port))

end Sockets

def InetAddress.toIpPort (addr : SockAddr) : List Char := Sockets.toIpPort [] 64 addr

namespace TcpServer

def connName (name ipPort : List Char) (connId : Int) : List Char :=
  name ++ snprintf 64 ('-' :: ipPort ++ '#' :: decimal connId)

end TcpServer

namespace ConnectionNames

open Sockets TcpServer

theorem length_byte_le (b : Byte) : (Nat.toDigits 10 b.toNat).length ≤ 3 := by
  have hb : b.toNat < 10 ^ 3 := lt_trans b.toNat_lt (by decide)
  exact (Nat.length_toDigits_le_iff (by decide) (by decide)).mpr hb

theorem length_dottedQuad_le (a : Byte × Byte × Byte × Byte) : (dottedQuad a).length ≤ 15 := by
  have h1 := length_byte_le a.1
  have h2 := length_byte_le a.2.1
  have h3 := length_byte_le a.2.2.1
  have h4 := length_byte_le a.2.2.2
  simp only [dottedQuad, List.length_append, List.length_cons]
  omega

theorem length_port_le (p : Byte × Byte) : (Nat.toDigits 10 (networkToHost16 p)).length ≤ 5 := by
  have h1 := p.1.toNat_lt
  have h2 := p.2.toNat_lt
  have hp : networkToHost16 p < 10 ^ 5 := by
    simp only [networkToHost16]
    omega
  exact (Nat.length_toDigits_le_iff (by decide) (by decide)).mpr hp

theorem length_toIp_le (addr : SockAddr) : (toIp [] 64 addr).length ≤ 15 := by
  simp only [toIp, inetNtop]
  split
  · split
    · exact length_dottedQuad_le addr.addr
    · exact Nat.zero_le _
  · exact Nat.zero_le _

theorem length_toIpPort_le (addr : SockAddr) : (InetAddress.toIpPort addr).length ≤ 21 := by
  have hi := length_toIp_le addr
  have hp := length_port_le addr.port
  simp only [InetAddress.toIpPort, Sockets.toIpPort, snprintf, List.length_append, List.length_take, List.length_cons]
  omega

theorem length_decimal_le {n : Nat} (hn : n < 2 ^ 31) : (decimal n).length ≤ 10 :=
  (Nat.length_toDigits_le_iff (by decide) (by decide)).mpr (lt_trans hn (by decide))

theorem decimal_injective {m n : Nat} (h : decimal m = decimal n) : m = n := by
  have hm : Nat.ofDigitChars 10 (decimal m) 0 = m := Nat.ofDigitChars_ten_toDigits
  have hn : Nat.ofDigitChars 10 (decimal n) 0 = n := Nat.ofDigitChars_ten_toDigits
  rw [← hm, h, hn]

theorem connName_whole (name : List Char) (addr : SockAddr) {n : Nat} (hn : n < 2 ^ 31) :
    connName name (InetAddress.toIpPort addr) n =
      name ++ ('-' :: InetAddress.toIpPort addr ++ '#' :: decimal n) := by
  have ha := length_toIpPort_le addr
  have hd := length_decimal_le hn
  have hl : ('-' :: InetAddress.toIpPort addr ++ '#' :: decimal n).length ≤ 63 := by
    simp only [List.length_append, List.length_cons]
    omega
  rw [connName, snprintf, List.take_of_length_le hl]

theorem connName_injective (name : List Char) (addr : SockAddr) {m n : Nat} (hm : m < 2 ^ 31) (hn : n < 2 ^ 31)
    (h : connName name (InetAddress.toIpPort addr) m = connName name (InetAddress.toIpPort addr) n) : m = n := by
  rw [connName_whole name addr hm, connName_whole name addr hn] at h
  have ht := List.append_cancel_left (List.append_cancel_left h)
  exact decimal_injective (List.cons.inj ht).2

end ConnectionNames

end Webserver
