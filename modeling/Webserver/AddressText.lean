import Webserver.ConnectionNames
import Webserver.Numerals

namespace Webserver

namespace Sockets

def hostToNetwork16 (host16 : Nat) : Byte × Byte := (UInt8.ofNat (host16 / 256), UInt8.ofNat host16)

def hostToNetwork32 (host32 : Nat) : Byte × Byte × Byte × Byte :=
  (UInt8.ofNat (host32 / 16777216), UInt8.ofNat (host32 / 65536), UInt8.ofNat (host32 / 256), UInt8.ofNat host32)

def octet (cs : List Char) : Option Byte :=
  if Numerals.IsNumeral cs ∧ Nat.ofDigitChars 10 cs 0 < 256 then some (UInt8.ofNat (Nat.ofDigitChars 10 cs 0)) else none

/-- inet_pton for AF_INET: four decimal numbers up to 255, without leading zeros, with points between them. -/
def inetPton (src : List Char) : Option (Byte × Byte × Byte × Byte) :=
  match src.splitOn '.' with
  | [a, b, c, d] => do return (← octet a, ← octet b, ← octet c, ← octet d)
  | _ => none

/-- The Boolean tells that LOG_ERROR ran; the address bytes are then the ones that were there. -/
def fromIpPort (ip : List Char) (port : Nat) (addr : SockAddr) : SockAddr × Bool :=
  let addr := { addr with family := .inet, port := hostToNetwork16 port }
  match inetPton ip with
  | some bytes => ({ addr with addr := bytes }, false)
  | none => (addr, true)

end Sockets

namespace InetAddress

def kInaddrAny : Nat := 0

def kInaddrLoopback : Nat := 0x7f000001

def construct (portArg : Nat) (loopbackOnly : Bool) : SockAddr :=
  ⟨.inet, Sockets.hostToNetwork16 portArg,
    Sockets.hostToNetwork32 (if loopbackOnly then kInaddrLoopback else kInaddrAny)⟩

def toIp (addr : SockAddr) : List Char := Sockets.toIp [] 64 addr

def port (addr : SockAddr) : Nat := Sockets.networkToHost16 addr.port

end InetAddress

namespace AddressText

open Sockets

theorem octet_iff (cs : List Char) (b : Byte) : octet cs = some b ↔ cs = Nat.toDigits 10 b.toNat := by
  rw [octet, Option.ite_none_right_eq_some, Option.some_inj]
  constructor
  · rintro ⟨⟨hn, hlt⟩, rfl⟩
    rw [UInt8.toNat_ofNat', Nat.mod_eq_of_lt hlt]
    exact hn.toDigits_value.symm
  · rintro rfl
    rw [Nat.ofDigitChars_ten_toDigits]
    exact ⟨⟨Numerals.isNumeral_toDigits _, b.toNat_lt⟩, UInt8.ofNat_toNat⟩

theorem dottedQuad_eq (a b c d : Byte) : dottedQuad (a, b, c, d) =
    ['.'].intercalate [Nat.toDigits 10 a.toNat, Nat.toDigits 10 b.toNat, Nat.toDigits 10 c.toNat,
      Nat.toDigits 10 d.toNat] := by
  simp [dottedQuad]

theorem splitOn_dottedQuad (a b c d : Byte) : (dottedQuad (a, b, c, d)).splitOn '.' =
    [Nat.toDigits 10 a.toNat, Nat.toDigits 10 b.toNat, Nat.toDigits 10 c.toNat, Nat.toDigits 10 d.toNat] := by
  rw [dottedQuad_eq]
  refine List.splitOn_intercalate _ (fun l hl hpoint => ?_) (by simp)
  obtain ⟨n, rfl⟩ : ∃ n, l = Nat.toDigits 10 n := by
    simp only [List.mem_cons, List.not_mem_nil, or_false] at hl
    rcases hl with rfl | rfl | rfl | rfl <;> exact ⟨_, rfl⟩
  exact absurd (Nat.isDigit_of_mem_toDigits (by decide) (by decide) hpoint) (by decide)

theorem inetPton_iff (src : List Char) (bytes : Byte × Byte × Byte × Byte) :
    inetPton src = some bytes ↔ src = dottedQuad bytes := by
  obtain ⟨a, b, c, d⟩ := bytes
  constructor
  · intro h
    have hjoin : ['.'].intercalate (src.splitOn '.') = src := List.intercalate_splitOn '.'
    rw [← hjoin, dottedQuad_eq]
    unfold inetPton at h
    split at h
    · rename_i p q r t hsplit
      simp only [bind, pure, Option.bind_eq_some_iff, octet_iff, Option.some_inj, Prod.mk.injEq] at h
      obtain ⟨a', hp, b', hq, c', hr, d', ht, rfl, rfl, rfl, rfl⟩ := h
      rw [hsplit, hp, hq, hr, ht]
    · cases h
  · rintro rfl
    rw [inetPton, splitOn_dottedQuad]
    simp [(octet_iff _ _).mpr rfl]

theorem dottedQuad_injective {a b : Byte × Byte × Byte × Byte} (h : dottedQuad a = dottedQuad b) : a = b := by
  have ha := (inetPton_iff (dottedQuad a) a).mpr rfl
  exact Option.some.inj (ha.symm.trans ((inetPton_iff _ b).mpr h))

theorem toIp_eq {addr : SockAddr} (h : addr.family = .inet) : InetAddress.toIp addr = dottedQuad addr.addr := by
  have hlen := ConnectionNames.length_dottedQuad_le addr.addr
  rw [InetAddress.toIp, Sockets.toIp, if_pos h, inetNtop, if_pos (by omega)]

theorem networkToHost16_hostToNetwork16 {port : Nat} (h : port < 65536) :
    networkToHost16 (hostToNetwork16 port) = port := by
  simp only [networkToHost16, hostToNetwork16, UInt8.toNat_ofNat']
  omega

theorem networkToHost16_injective {p q : Byte × Byte} (h : networkToHost16 p = networkToHost16 q) : p = q := by
  have h1 := p.1.toNat_lt
  have h2 := p.2.toNat_lt
  have h3 := q.1.toNat_lt
  have h4 := q.2.toNat_lt
  simp only [networkToHost16] at h
  exact Prod.ext (UInt8.toNat_inj.mp (by omega)) (UInt8.toNat_inj.mp (by omega))

theorem toIpPort_eq {addr : SockAddr} (h : addr.family = .inet) : InetAddress.toIpPort addr =
    dottedQuad addr.addr ++ ':' :: Nat.toDigits 10 (networkToHost16 addr.port) := by
  have hip := toIp_eq h
  have hlen := ConnectionNames.length_dottedQuad_le addr.addr
  have hport := ConnectionNames.length_port_le addr.port
  rw [InetAddress.toIp] at hip
  rw [InetAddress.toIpPort, Sockets.toIpPort, hip, snprintf, List.take_of_length_le]
  simp only [List.length_cons]
  omega

theorem not_mem_dottedQuad (a : Byte × Byte × Byte × Byte) : ':' ∉ dottedQuad a := by
  have hdigits : ∀ n, ':' ∉ Nat.toDigits 10 n := fun n hm =>
    absurd (Nat.isDigit_of_mem_toDigits (by decide) (by decide) hm) (by decide)
  simp [dottedQuad, hdigits]

theorem toIpPort_injective {a b : SockAddr} (ha : a.family = .inet) (hb : b.family = .inet)
    (h : InetAddress.toIpPort a = InetAddress.toIpPort b) : a = b := by
  rw [toIpPort_eq ha, toIpPort_eq hb] at h
  have hsplit := congrArg (List.splitOn ':') h
  rw [List.splitOn_append_cons_self_of_not_mem (not_mem_dottedQuad a.addr),
    List.splitOn_append_cons_self_of_not_mem (not_mem_dottedQuad b.addr)] at hsplit
  have hip := (List.cons.inj hsplit).1
  rw [hip] at h
  have hdigits := (List.cons.inj (List.append_cancel_left h)).2
  have hport : networkToHost16 a.port = networkToHost16 b.port := by
    rw [← Nat.ofDigitChars_ten_toDigits (n := networkToHost16 a.port), hdigits, Nat.ofDigitChars_ten_toDigits]
  obtain ⟨fa, pa, aa⟩ := a
  obtain ⟨fb, pb, ab⟩ := b
  rw [show fa = fb from ha.trans hb.symm, show pa = pb from networkToHost16_injective hport,
    show aa = ab from dottedQuad_injective hip]

theorem fromIpPort_iff (ip : List Char) {port : Nat} (hport : port < 65536) (old addr : SockAddr) :
    fromIpPort ip port old = (addr, false) ↔
      addr.family = .inet ∧ InetAddress.toIp addr = ip ∧ InetAddress.port addr = port := by
  constructor
  · intro h
    unfold fromIpPort at h
    split at h
    · rename_i bytes hbytes
      cases h
      refine ⟨rfl, ?_, networkToHost16_hostToNetwork16 hport⟩
      rw [toIp_eq rfl]
      exact ((inetPton_iff ip bytes).mp hbytes).symm
    · cases h
  · rintro ⟨hfamily, hip, hp⟩
    rw [toIp_eq hfamily] at hip
    have hnet : hostToNetwork16 port = addr.port :=
      networkToHost16_injective ((networkToHost16_hostToNetwork16 hport).trans hp.symm)
    simp only [fromIpPort, (inetPton_iff ip addr.addr).mpr hip.symm, hnet, ← hfamily]

theorem fromIpPort_rejects {ip : List Char} {port : Nat} {old : SockAddr} (h : (fromIpPort ip port old).2 = true) :
    (fromIpPort ip port old).1.addr = old.addr ∧ ∀ a : SockAddr, a.family = .inet → InetAddress.toIp a ≠ ip := by
  unfold fromIpPort at h ⊢
  split at h
  · cases h
  · rename_i hnone
    refine ⟨rfl, fun a ha hip => ?_⟩
    rw [toIp_eq ha] at hip
    rw [(inetPton_iff ip a.addr).mpr hip.symm] at hnone
    cases hnone

def hostText (loopbackOnly : Bool) : List Char := (if loopbackOnly then "127.0.0.1" else "0.0.0.0").toList

theorem toIp_construct (port : Nat) (loopbackOnly : Bool) :
    InetAddress.toIp (InetAddress.construct port loopbackOnly) = hostText loopbackOnly := by
  rw [toIp_eq rfl]
  cases loopbackOnly with
  | true => exact (by decide : dottedQuad (hostToNetwork32 InetAddress.kInaddrLoopback) = hostText true)
  | false => exact (by decide : dottedQuad (hostToNetwork32 InetAddress.kInaddrAny) = hostText false)

structure RoundTrip (ip : List Char) (port : Nat) (old : SockAddr) : Prop where
  accepts : ∀ addr, fromIpPort ip port old = (addr, false) ↔
    addr.family = .inet ∧ InetAddress.toIp addr = ip ∧ InetAddress.port addr = port
  rejects : (fromIpPort ip port old).2 = true →
    (fromIpPort ip port old).1.addr = old.addr ∧ ∀ a : SockAddr, a.family = .inet → InetAddress.toIp a ≠ ip
  distinct : ∀ a b : SockAddr, a.family = .inet → b.family = .inet →
    InetAddress.toIpPort a = InetAddress.toIpPort b → a = b
  constructed : ∀ loopbackOnly,
    fromIpPort (hostText loopbackOnly) port old = (InetAddress.construct port loopbackOnly, false)

theorem address_round_trip (ip : List Char) (port : Nat) (hport : port < 65536) (old : SockAddr) :
    RoundTrip ip port old := by
  refine ⟨fromIpPort_iff ip hport old, fromIpPort_rejects, fun _ _ => toIpPort_injective, fun loopbackOnly => ?_⟩
  rw [fromIpPort_iff _ hport]
  exact ⟨rfl, toIp_construct port loopbackOnly, networkToHost16_hostToNetwork16 hport⟩

theorem address_round_trip_loopback : RoundTrip "127.0.0.1".toList 8080 ⟨.inet6, (0, 0), (0, 0, 0, 0)⟩ :=
  address_round_trip "127.0.0.1".toList 8080 (by decide) ⟨.inet6, (0, 0), (0, 0, 0, 0)⟩

end AddressText

end Webserver
