import Mathlib.Tactic.Set
import Veloq.Driver.SocketAddr
set_option autoImplicit false

/-!
# Driver: socket addresses survive their codecs

Both encoders write the same fields, each where no later one reaches; both decoders read
them back from the bytes at the front of a slice, whatever follows.  The `io_uring` decoder
copies them first.  The IOCP decoder casts the slice in place, and `from_bytes` panics when
the slice does not start at an address that is aligned for the structure.
-/

namespace Veloq.Driver.Net

open Veloq.Foundation

variable {p : Platform} {bytes bytes' data : List UInt8} {offset : Nat}

/-! ## Fields -/

theorem u16Be_u16Be (x : UInt16) : u16Be p (u16Be p x) = x := by
  have hx : x.toNat < 256 ^ 2 := x.toNat_lt
  have hbe : p.endian.toBe 2 x.toNat < 2 ^ 16 := p.endian.toBe_lt hx
  apply UInt16.toNat_inj.mp
  rw [u16Be, u16Be, UInt16.toNat_ofNat', UInt16.toNat_ofNat', Nat.mod_eq_of_lt hbe,
    p.endian.toBe_toBe hx, Nat.mod_eq_of_lt x.toNat_lt]

/-- Octets stored as a native number and taken for big-endian are the address. -/
theorem ofU32_octets (ip : Ipv4Addr) :
    Ipv4Addr.ofU32 (u32Be p (UInt32.ofNat (p.endian.ofBytes ip.octets))) = ip := by
  obtain ⟨octets, hlength⟩ := ip
  have hraw : p.endian.ofBytes octets < 2 ^ 32 := by
    have h := p.endian.ofBytes_lt octets
    rwa [hlength] at h
  have hbe : ofBeBytes octets < 2 ^ 32 := by
    have h := ofBeBytes_lt octets
    rwa [hlength] at h
  have hswap : p.endian.toBe 4 (p.endian.ofBytes octets) = ofBeBytes octets := by
    have h := p.endian.toBe_ofBytes octets
    rwa [hlength] at h
  have hback : beBytes 4 (ofBeBytes octets) = octets := by
    have h := beBytes_ofBeBytes octets
    rwa [hlength] at h
  simp only [Ipv4Addr.ofU32, u32Be, UInt32.toNat_ofNat', Nat.mod_eq_of_lt hraw, hswap,
    Nat.mod_eq_of_lt hbe, hback]

/-- What is stored from octets is the octets. -/
theorem toBytes_octets (ip : Ipv4Addr) :
    p.endian.toBytes 4 (UInt32.ofNat (p.endian.ofBytes ip.octets)).toNat = ip.octets := by
  obtain ⟨octets, hlength⟩ := ip
  have hraw : p.endian.ofBytes octets < 2 ^ 32 := by
    have h := p.endian.ofBytes_lt octets
    rwa [hlength] at h
  have hback := p.endian.toBytes_ofBytes octets
  rw [hlength] at hback
  rw [UInt32.toNat_ofNat', Nat.mod_eq_of_lt hraw, hback]

theorem loadU16_of_read {x : UInt16}
    (h : Bytes.read bytes offset 2 = p.endian.toBytes 2 x.toNat) : loadU16 p bytes offset = x := by
  rw [loadU16, h, p.endian.ofBytes_toBytes (n := 2) x.toNat_lt, UInt16.ofNat_toNat]

theorem loadU32_of_read {x : UInt32}
    (h : Bytes.read bytes offset 4 = p.endian.toBytes 4 x.toNat) : loadU32 p bytes offset = x := by
  rw [loadU32, h, p.endian.ofBytes_toBytes (n := 4) x.toNat_lt, UInt32.ofNat_toNat]

/-- The fields of an IPv4 address stand where they belong. -/
structure HoldsV4 (p : Platform) (bytes : List UInt8) (a : SocketAddrV4) : Prop where
  size : p.sin.size ≤ bytes.length
  family : Bytes.read bytes p.sin.family 2 = p.endian.toBytes 2 p.afInet.toNat
  port : Bytes.read bytes p.sin.port 2 = p.endian.toBytes 2 (u16Be p a.port).toNat
  addr : Bytes.read bytes p.sin.addr 4 = a.ip.octets

/-- The fields of an IPv6 address stand where they belong. -/
structure HoldsV6 (p : Platform) (bytes : List UInt8) (a : SocketAddrV6) : Prop where
  size : p.sin6.size ≤ bytes.length
  family : Bytes.read bytes p.sin6.family 2 = p.endian.toBytes 2 p.afInet6.toNat
  port : Bytes.read bytes p.sin6.port 2 = p.endian.toBytes 2 (u16Be p a.port).toNat
  flowinfo : Bytes.read bytes p.sin6.flowinfo 4 = p.endian.toBytes 4 a.flowinfo.toNat
  addr : Bytes.read bytes p.sin6.addr 16 = a.ip.octets
  scopeId : Bytes.read bytes p.sin6.scopeId 4 = p.endian.toBytes 4 a.scopeId.toNat

/-- Only the bytes of the structure matter to its fields. -/
theorem read_of_take {n len : Nat} (htake : bytes'.take n = bytes.take n) (h : offset + len ≤ n) :
    Bytes.read bytes' offset len = Bytes.read bytes offset len := by
  rw [← Bytes.read_take h, htake, Bytes.read_take h]

theorem size_of_take {n : Nat} (htake : bytes'.take n = bytes.take n) (h : n ≤ bytes.length) :
    n ≤ bytes'.length := by
  have hlength := congrArg List.length htake
  rw [List.length_take_of_le h, List.length_take] at hlength
  omega

theorem HoldsV4.of_take {a : SocketAddrV4} (h : HoldsV4 p bytes a)
    (htake : bytes'.take p.sin.size = bytes.take p.sin.size) : HoldsV4 p bytes' a := by
  have h₁ := p.sin.family_port
  have h₂ := p.sin.port_addr
  have h₃ := p.sin.addr_size
  exact ⟨size_of_take htake h.size, (read_of_take htake (by omega)).trans h.family,
    (read_of_take htake (by omega)).trans h.port, (read_of_take htake (by omega)).trans h.addr⟩

theorem HoldsV6.of_take {a : SocketAddrV6} (h : HoldsV6 p bytes a)
    (htake : bytes'.take p.sin6.size = bytes.take p.sin6.size) : HoldsV6 p bytes' a := by
  have h₁ := p.sin6.family_port
  have h₂ := p.sin6.port_flowinfo
  have h₃ := p.sin6.flowinfo_addr
  have h₄ := p.sin6.addr_scopeId
  have h₅ := p.sin6.scopeId_size
  exact ⟨size_of_take htake h.size, (read_of_take htake (by omega)).trans h.family,
    (read_of_take htake (by omega)).trans h.port,
    (read_of_take htake (by omega)).trans h.flowinfo,
    (read_of_take htake (by omega)).trans h.addr,
    (read_of_take htake (by omega)).trans h.scopeId⟩

/-! ## Encoding -/

theorem length_zeroed (n : Nat) : (zeroed n).length = n := List.length_replicate

theorem le_zeroed {m n : Nat} (h : m ≤ n) : m ≤ (zeroed n).length := (length_zeroed n).symm ▸ h

/-- The fields of an IPv4 address are written one after the other. -/
def writeV4 (p : Platform) (bytes : List UInt8) (a : SocketAddrV4) : List UInt8 :=
  storeU32 p
    (storeU16 p (storeU16 p bytes p.sin.family p.afInet) p.sin.port (u16Be p a.port))
    p.sin.addr (UInt32.ofNat (p.endian.ofBytes a.ip.octets))

/-- The fields of an IPv6 address are written one after the other. -/
def writeV6 (p : Platform) (bytes : List UInt8) (a : SocketAddrV6) : List UInt8 :=
  storeU32 p
    (storeU32 p
      (Bytes.write
        (storeU16 p (storeU16 p bytes p.sin6.family p.afInet6) p.sin6.port (u16Be p a.port))
        p.sin6.addr a.ip.octets)
      p.sin6.flowinfo a.flowinfo)
    p.sin6.scopeId a.scopeId

theorem length_storeU16 {x : UInt16} (h : offset + 2 ≤ bytes.length) :
    (storeU16 p bytes offset x).length = bytes.length :=
  Bytes.length_write (by rwa [Endian.length_toBytes])

theorem length_storeU32 {x : UInt32} (h : offset + 4 ≤ bytes.length) :
    (storeU32 p bytes offset x).length = bytes.length :=
  Bytes.length_write (by rwa [Endian.length_toBytes])

theorem writeV4_holds (h : p.sin.size ≤ bytes.length) (a : SocketAddrV4) :
    (writeV4 p bytes a).length = bytes.length ∧ HoldsV4 p (writeV4 p bytes a) a := by
  have h₁ := p.sin.family_port
  have h₂ := p.sin.port_addr
  have h₃ := p.sin.addr_size
  unfold writeV4
  set w₁ := storeU16 p bytes p.sin.family p.afInet with hw₁
  have hlen₁ : w₁.length = bytes.length := length_storeU16 (by omega)
  set w₂ := storeU16 p w₁ p.sin.port (u16Be p a.port) with hw₂
  have hlen₂ : w₂.length = bytes.length := (length_storeU16 (by omega)).trans hlen₁
  set w₃ := storeU32 p w₂ p.sin.addr (UInt32.ofNat (p.endian.ofBytes a.ip.octets)) with hw₃
  have hlen₃ : w₃.length = bytes.length := (length_storeU32 (by omega)).trans hlen₂
  have hbefore₃ : ∀ {off len}, off + len ≤ p.sin.addr →
      Bytes.read w₃ off len = Bytes.read w₂ off len :=
    fun hle => Bytes.read_write_before (by omega) hle
  have hbefore₂ : ∀ {off len}, off + len ≤ p.sin.port →
      Bytes.read w₂ off len = Bytes.read w₁ off len :=
    fun hle => Bytes.read_write_before (by omega) hle
  refine ⟨hlen₃, by omega, ?_, ?_, ?_⟩
  · rw [hbefore₃ (by omega), hbefore₂ (by omega)]
    exact Bytes.read_write_self (by omega) (Endian.length_toBytes ..)
  · rw [hbefore₃ (by omega)]
    exact Bytes.read_write_self (by omega) (Endian.length_toBytes ..)
  · rw [hw₃, storeU32, toBytes_octets]
    exact Bytes.read_write_self (by omega) a.ip.length

theorem writeV6_holds (h : p.sin6.size ≤ bytes.length) (a : SocketAddrV6) :
    (writeV6 p bytes a).length = bytes.length ∧ HoldsV6 p (writeV6 p bytes a) a := by
  have h₁ := p.sin6.family_port
  have h₂ := p.sin6.port_flowinfo
  have h₃ := p.sin6.flowinfo_addr
  have h₄ := p.sin6.addr_scopeId
  have h₅ := p.sin6.scopeId_size
  have hip := a.ip.length
  unfold writeV6
  set w₁ := storeU16 p bytes p.sin6.family p.afInet6 with hw₁
  have hlen₁ : w₁.length = bytes.length := length_storeU16 (by omega)
  set w₂ := storeU16 p w₁ p.sin6.port (u16Be p a.port) with hw₂
  have hlen₂ : w₂.length = bytes.length := (length_storeU16 (by omega)).trans hlen₁
  set w₃ := Bytes.write w₂ p.sin6.addr a.ip.octets with hw₃
  have hlen₃ : w₃.length = bytes.length := (Bytes.length_write (by omega)).trans hlen₂
  set w₄ := storeU32 p w₃ p.sin6.flowinfo a.flowinfo with hw₄
  have hlen₄ : w₄.length = bytes.length := (length_storeU32 (by omega)).trans hlen₃
  set w₅ := storeU32 p w₄ p.sin6.scopeId a.scopeId with hw₅
  have hlen₅ : w₅.length = bytes.length := (length_storeU32 (by omega)).trans hlen₄
  have hbefore₅ : ∀ {off len}, off + len ≤ p.sin6.scopeId →
      Bytes.read w₅ off len = Bytes.read w₄ off len :=
    fun hle => Bytes.read_write_before (by omega) hle
  -- the flow info is written after the address but lies before it
  have hbefore₄ : ∀ {off len}, off + len ≤ p.sin6.flowinfo →
      Bytes.read w₄ off len = Bytes.read w₃ off len :=
    fun hle => Bytes.read_write_before (by omega) hle
  have hafter₄ : Bytes.read w₄ p.sin6.addr 16 = Bytes.read w₃ p.sin6.addr 16 :=
    Bytes.read_write_after (by omega) (by rw [Endian.length_toBytes]; omega)
  have hbefore₃ : ∀ {off len}, off + len ≤ p.sin6.addr →
      Bytes.read w₃ off len = Bytes.read w₂ off len :=
    fun hle => Bytes.read_write_before (by omega) hle
  have hbefore₂ : ∀ {off len}, off + len ≤ p.sin6.port →
      Bytes.read w₂ off len = Bytes.read w₁ off len :=
    fun hle => Bytes.read_write_before (by omega) hle
  refine ⟨hlen₅, by omega, ?_, ?_, ?_, ?_, ?_⟩
  · rw [hbefore₅ (by omega), hbefore₄ (by omega), hbefore₃ (by omega), hbefore₂ (by omega)]
    exact Bytes.read_write_self (by omega) (Endian.length_toBytes ..)
  · rw [hbefore₅ (by omega), hbefore₄ (by omega), hbefore₃ (by omega)]
    exact Bytes.read_write_self (by omega) (Endian.length_toBytes ..)
  · rw [hbefore₅ (by omega)]
    exact Bytes.read_write_self (by omega) (Endian.length_toBytes ..)
  · rw [hbefore₅ (by omega), hafter₄]
    exact Bytes.read_write_self (by omega) a.ip.length
  · exact Bytes.read_write_self (by omega) (Endian.length_toBytes ..)

/-! ## Decoding -/

/-- What the fields of an IPv4 address say. -/
def valueV4 (p : Platform) (bytes : List UInt8) : SocketAddrV4 :=
  { ip := Ipv4Addr.ofU32 (u32Be p (loadU32 p bytes p.sin.addr))
    port := u16Be p (loadU16 p bytes p.sin.port) }

/-- What the fields of an IPv6 address say. -/
def valueV6 (p : Platform) (bytes : List UInt8) (ip : Ipv6Addr) : SocketAddrV6 :=
  { ip := ip
    port := u16Be p (loadU16 p bytes p.sin6.port)
    flowinfo := loadU32 p bytes p.sin6.flowinfo
    scopeId := loadU32 p bytes p.sin6.scopeId }

theorem HoldsV4.value {a : SocketAddrV4} (h : HoldsV4 p bytes a) : valueV4 p bytes = a := by
  unfold valueV4
  rw [loadU16_of_read h.port, u16Be_u16Be, loadU32, h.addr, ofU32_octets]

theorem HoldsV6.value {a : SocketAddrV6} (h : HoldsV6 p bytes a) :
    valueV6 p bytes a.ip = a := by
  unfold valueV6
  rw [loadU16_of_read h.port, u16Be_u16Be, loadU32_of_read h.flowinfo, loadU32_of_read h.scopeId]

theorem HoldsV6.ip {a : SocketAddrV6} (h : HoldsV6 p bytes a) :
    readIpv6Bytes bytes p.sin6.addr = some a.ip := by
  have h₄ := p.sin6.addr_scopeId
  have h₅ := p.sin6.scopeId_size
  have hsize := h.size
  obtain ⟨⟨octets, hlength⟩, port, flowinfo, scopeId⟩ := a
  have haddr : Bytes.read bytes p.sin6.addr 16 = octets := h.addr
  subst haddr
  exact dif_pos (by omega)

/-- The family and the length are those of an address. -/
def Decodable (p : Platform) (buf : Slice) : Prop :=
  loadU16 p buf.bytes 0 = p.afInet ∧ p.sin.size ≤ buf.bytes.length ∨
    loadU16 p buf.bytes 0 = p.afInet6 ∧ p.sin6.size ≤ buf.bytes.length

/-- The slice starts where the structure of its family may start. -/
def Aligned (p : Platform) (buf : Slice) : Prop :=
  (loadU16 p buf.bytes 0 = p.afInet → p.sin.align ∣ buf.addr) ∧
    (loadU16 p buf.bytes 0 = p.afInet6 → p.sin6.align ∣ buf.addr)

theorem two_le_size (p : Platform) : 2 ≤ p.sin.size ∧ 2 ≤ p.sin6.size := by
  have h₁ := p.sin.family_port
  have h₂ := p.sin.port_addr
  have h₃ := p.sin.addr_size
  have h₄ := p.sin6.family_port
  have h₅ := p.sin6.port_flowinfo
  have h₆ := p.sin6.flowinfo_addr
  have h₇ := p.sin6.addr_scopeId
  have h₈ := p.sin6.scopeId_size
  omega

theorem upTo_of_le {buf : Slice} {n : Nat} (h : n ≤ buf.bytes.length) :
    buf.upTo n = some { buf with bytes := buf.bytes.take n } := if_pos h

/-- The fields of an IPv4 address lie in the bytes that were copied or cast. -/
theorem valueV4_take (bytes : List UInt8) : valueV4 p (bytes.take p.sin.size) = valueV4 p bytes := by
  have h₂ := p.sin.port_addr
  have h₃ := p.sin.addr_size
  unfold valueV4 loadU16 loadU32
  rw [Bytes.read_take (by omega), Bytes.read_take (by omega)]

theorem valueV6_take (bytes : List UInt8) (ip : Ipv6Addr) :
    valueV6 p (bytes.take p.sin6.size) ip = valueV6 p bytes ip := by
  have h₂ := p.sin6.port_flowinfo
  have h₃ := p.sin6.flowinfo_addr
  have h₄ := p.sin6.addr_scopeId
  have h₅ := p.sin6.scopeId_size
  unfold valueV6 loadU16 loadU32
  rw [Bytes.read_take (by omega), Bytes.read_take (by omega), Bytes.read_take (by omega)]

theorem readIpv6_take (h : p.sin6.size ≤ bytes.length) :
    ∃ ip, readIpv6Bytes (bytes.take p.sin6.size) p.sin6.addr = some ip ∧
      readIpv6Bytes bytes p.sin6.addr = some ip := by
  have h₄ := p.sin6.addr_scopeId
  have h₅ := p.sin6.scopeId_size
  have hfits : p.sin6.addr + 16 ≤ bytes.length := by omega
  refine ⟨⟨Bytes.read bytes p.sin6.addr 16, Bytes.length_read hfits⟩, ?_, dif_pos hfits⟩
  have htake : p.sin6.addr + 16 ≤ (bytes.take p.sin6.size).length := by
    rw [List.length_take_of_le h]
    omega
  unfold readIpv6Bytes
  rw [dif_pos htake]
  congr 2
  exact Bytes.read_take (by omega)

namespace Uring

theorem toSocketAddr_v4 {buf : Slice} (hfamily : loadU16 p buf.bytes 0 = p.afInet)
    (hsize : p.sin.size ≤ buf.bytes.length) :
    toSocketAddr p buf = some (.ok (.v4 (valueV4 p buf.bytes))) := by
  have htwo : 2 ≤ buf.bytes.length := Nat.le_trans (two_le_size p).1 hsize
  have hraw : loadU16 p (buf.bytes.take 2) 0 = p.afInet := by
    rw [← hfamily, loadU16, Bytes.read_take (by omega), loadU16]
  unfold toSocketAddr
  rw [if_neg (Nat.not_lt.mpr htwo), upTo_of_le htwo]
  simp only [Option.bind_eq_bind, Option.bind_some, hraw, if_true]
  rw [if_neg (Nat.not_lt.mpr hsize), upTo_of_le hsize]
  exact congrArg (fun a => some (Except.ok (SocketAddr.v4 a))) (valueV4_take buf.bytes)

theorem toSocketAddr_v6 {buf : Slice} (hfamily : loadU16 p buf.bytes 0 = p.afInet6)
    (hsize : p.sin6.size ≤ buf.bytes.length) :
    ∃ ip, readIpv6Bytes buf.bytes p.sin6.addr = some ip ∧
      toSocketAddr p buf = some (.ok (.v6 (valueV6 p buf.bytes ip))) := by
  have htwo : 2 ≤ buf.bytes.length := Nat.le_trans (two_le_size p).2 hsize
  have hraw : loadU16 p (buf.bytes.take 2) 0 = p.afInet6 := by
    rw [← hfamily, loadU16, Bytes.read_take (by omega), loadU16]
  obtain ⟨ip, htake, hip⟩ := readIpv6_take hsize
  refine ⟨ip, hip, ?_⟩
  unfold toSocketAddr
  rw [if_neg (Nat.not_lt.mpr htwo), upTo_of_le htwo]
  simp only [Option.bind_eq_bind, Option.bind_some, hraw]
  rw [if_neg (Ne.symm p.families), if_pos trivial, if_neg (Nat.not_lt.mpr hsize), upTo_of_le hsize]
  simp only [Option.bind_some, htake]
  exact congrArg (fun a => some (Except.ok (SocketAddr.v6 a))) (valueV6_take buf.bytes ip)

theorem toSocketAddr_error {buf : Slice} (h : ¬ Decodable p buf) :
    ∃ e, toSocketAddr p buf = some (.error e) := by
  unfold toSocketAddr
  split
  · exact ⟨_, rfl⟩
  · rename_i htwo
    have hraw : loadU16 p (buf.bytes.take 2) 0 = loadU16 p buf.bytes 0 := by
      rw [loadU16, Bytes.read_take (by omega), loadU16]
    rw [upTo_of_le (Nat.not_lt.mp htwo)]
    simp only [Option.bind_eq_bind, Option.bind_some, hraw]
    split
    · rename_i hfamily
      rw [if_pos (Nat.not_le.mp fun hsize => h (.inl ⟨hfamily, hsize⟩))]
      exact ⟨_, rfl⟩
    · split
      · rename_i hfamily
        rw [if_pos (Nat.not_le.mp fun hsize => h (.inr ⟨hfamily, hsize⟩))]
        exact ⟨_, rfl⟩
      · exact ⟨_, rfl⟩

end Uring

namespace Iocp

/-- The cast panics unless the slice is aligned for the structure. -/
theorem fromBytes_upTo {buf : Slice} {size : Nat} (align : Nat) (h : size ≤ buf.bytes.length) :
    ((buf.upTo size).bind fun head => fromBytes size align head) =
      if align ∣ buf.addr then some (buf.bytes.take size) else none := by
  rw [upTo_of_le h, Option.bind_some, fromBytes, tryFromBytes,
    if_neg (fun hne => hne (List.length_take_of_le h))]
  by_cases halign : align ∣ buf.addr
  · rw [if_neg (fun hnot => hnot halign), if_pos halign]
    rfl
  · rw [if_pos halign, if_neg halign]
    rfl

theorem readU32Ne_eq (h : offset + 4 ≤ bytes.length) :
    readU32Ne p bytes offset = some (loadU32 p bytes offset) := by
  rw [readU32Ne, range, if_pos h]
  rfl

theorem sockAddrInToStd_eq (h : p.sin.size ≤ bytes.length) :
    sockAddrInToStd p bytes = some (valueV4 p bytes) := by
  have h₃ := p.sin.addr_size
  unfold sockAddrInToStd
  rw [readU32Ne_eq (by omega)]
  rfl

theorem sockAddrIn6ToStd_eq {ip : Ipv6Addr} (h : p.sin6.size ≤ bytes.length)
    (hip : readIpv6Bytes bytes p.sin6.addr = some ip) :
    sockAddrIn6ToStd p bytes = some (valueV6 p bytes ip) := by
  have h₅ := p.sin6.scopeId_size
  unfold sockAddrIn6ToStd
  rw [hip, readU32Ne_eq (by omega)]
  rfl

theorem toSocketAddr_v4 {buf : Slice} (hfamily : loadU16 p buf.bytes 0 = p.afInet)
    (hsize : p.sin.size ≤ buf.bytes.length) :
    toSocketAddr p buf =
      if p.sin.align ∣ buf.addr then some (.ok (.v4 (valueV4 p buf.bytes))) else none := by
  have htwo : 2 ≤ buf.bytes.length := Nat.le_trans (two_le_size p).1 hsize
  have hcast := fromBytes_upTo p.sin.align hsize
  have hlength : p.sin.size ≤ (buf.bytes.take p.sin.size).length :=
    Nat.le_of_eq (List.length_take_of_le hsize).symm
  unfold toSocketAddr
  rw [if_neg (Nat.not_lt.mpr htwo)]
  simp only [hfamily, if_true, Option.bind_eq_bind]
  rw [if_neg (Nat.not_lt.mpr hsize), ← Option.bind_assoc, hcast]
  by_cases halign : p.sin.align ∣ buf.addr
  · rw [if_pos halign, if_pos halign, Option.bind_some, sockAddrInToStd_eq hlength,
      Option.bind_some, valueV4_take]
  · rw [if_neg halign, if_neg halign]
    rfl

theorem toSocketAddr_v6 {buf : Slice} (hfamily : loadU16 p buf.bytes 0 = p.afInet6)
    (hsize : p.sin6.size ≤ buf.bytes.length) :
    ∃ ip, readIpv6Bytes buf.bytes p.sin6.addr = some ip ∧ toSocketAddr p buf =
      if p.sin6.align ∣ buf.addr then some (.ok (.v6 (valueV6 p buf.bytes ip))) else none := by
  have htwo : 2 ≤ buf.bytes.length := Nat.le_trans (two_le_size p).2 hsize
  have hcast := fromBytes_upTo p.sin6.align hsize
  have hlength : p.sin6.size ≤ (buf.bytes.take p.sin6.size).length :=
    Nat.le_of_eq (List.length_take_of_le hsize).symm
  obtain ⟨ip, htake, hip⟩ := readIpv6_take hsize
  refine ⟨ip, hip, ?_⟩
  unfold toSocketAddr
  rw [if_neg (Nat.not_lt.mpr htwo)]
  simp only [hfamily, Option.bind_eq_bind]
  rw [if_neg (Ne.symm p.families), if_pos trivial, if_neg (Nat.not_lt.mpr hsize),
    ← Option.bind_assoc, hcast]
  by_cases halign : p.sin6.align ∣ buf.addr
  · rw [if_pos halign, if_pos halign, Option.bind_some, sockAddrIn6ToStd_eq hlength htake,
      Option.bind_some, valueV6_take]
  · rw [if_neg halign, if_neg halign]
    rfl

theorem toSocketAddr_error {buf : Slice} (h : ¬ Decodable p buf) :
    ∃ e, toSocketAddr p buf = some (.error e) := by
  unfold toSocketAddr
  split
  · exact ⟨_, rfl⟩
  · dsimp only
    split
    · rename_i hfamily
      rw [if_pos (Nat.not_le.mp fun hsize => h (.inl ⟨hfamily, hsize⟩))]
      exact ⟨_, rfl⟩
    · split
      · rename_i hfamily
        rw [if_pos (Nat.not_le.mp fun hsize => h (.inr ⟨hfamily, hsize⟩))]
        exact ⟨_, rfl⟩
      · exact ⟨_, rfl⟩

/-! ### Into the storage -/

theorem copyInto_eq (h : offset + data.length ≤ bytes.length) :
    copyInto bytes offset data = some (Bytes.write bytes offset data) := if_pos h

theorem sockAddrInNew_eq (a : SocketAddrV4) :
    sockAddrInNew p a = some (writeV4 p (zeroed p.sin.size) a) := by
  have h₁ := p.sin.family_port
  have h₂ := p.sin.port_addr
  have h₃ := p.sin.addr_size
  have hzero := length_zeroed p.sin.size
  unfold sockAddrInNew writeV4
  dsimp only
  set w₁ := storeU16 p (zeroed p.sin.size) p.sin.family p.afInet
  have hlen₁ : w₁.length = p.sin.size := (length_storeU16 (by omega)).trans hzero
  set w₂ := storeU16 p w₁ p.sin.port (u16Be p a.port)
  have hlen₂ : w₂.length = p.sin.size := (length_storeU16 (by omega)).trans hlen₁
  exact copyInto_eq (by rw [Endian.length_toBytes]; omega)

theorem sockAddrIn6New_eq (a : SocketAddrV6) :
    sockAddrIn6New p a = some (writeV6 p (zeroed p.sin6.size) a) := by
  have h₁ := p.sin6.family_port
  have h₂ := p.sin6.port_flowinfo
  have h₃ := p.sin6.flowinfo_addr
  have h₄ := p.sin6.addr_scopeId
  have h₅ := p.sin6.scopeId_size
  have hip := a.ip.length
  have hzero := length_zeroed p.sin6.size
  unfold sockAddrIn6New writeV6
  dsimp only
  set w₁ := storeU16 p (zeroed p.sin6.size) p.sin6.family p.afInet6
  have hlen₁ : w₁.length = p.sin6.size := (length_storeU16 (by omega)).trans hzero
  set w₂ := storeU16 p w₁ p.sin6.port (u16Be p a.port)
  have hlen₂ : w₂.length = p.sin6.size := (length_storeU16 (by omega)).trans hlen₁
  rw [writeIpv6Bytes, copyInto_eq (by omega)]
  set w₃ := Bytes.write w₂ p.sin6.addr a.ip.octets
  have hlen₃ : w₃.length = p.sin6.size := (Bytes.length_write (by omega)).trans hlen₂
  have hlen₄ : (storeU32 p w₃ p.sin6.flowinfo a.flowinfo).length = p.sin6.size :=
    (length_storeU32 (by omega)).trans hlen₃
  exact copyInto_eq (by rw [Endian.length_toBytes]; omega)

theorem storageAssign_eq (storage : Slice) {size align : Nat} (value : List UInt8)
    (hsize : size ≤ storage.bytes.length) (halign : align ∣ storage.addr) :
    storageAssign storage size align value =
      some { storage with bytes := Bytes.write storage.bytes 0 value } := by
  have hcast := fromBytes_upTo align hsize
  rw [if_pos halign] at hcast
  unfold storageAssign
  simp only [Option.bind_eq_bind]
  rw [← Option.bind_assoc, hcast]
  rfl

end Iocp

/-! ## Round trips -/

/-- The fields of an address stand at the front of the bytes. -/
def Holds (p : Platform) (bytes : List UInt8) : SocketAddr → Prop
  | .v4 a => HoldsV4 p bytes a
  | .v6 a => HoldsV6 p bytes a

/-- The size and the alignment of the structure for an address. -/
def structSize (p : Platform) : SocketAddr → Nat
  | .v4 _ => p.sin.size
  | .v6 _ => p.sin6.size

def structAlign (p : Platform) : SocketAddr → Nat
  | .v4 _ => p.sin.align
  | .v6 _ => p.sin6.align

theorem Holds.of_take {a : SocketAddr} (h : Holds p bytes a)
    (htake : bytes'.take (structSize p a) = bytes.take (structSize p a)) : Holds p bytes' a := by
  cases a with
  | v4 a => exact HoldsV4.of_take h htake
  | v6 a => exact HoldsV6.of_take h htake

theorem Holds.size {a : SocketAddr} (h : Holds p bytes a) : structSize p a ≤ bytes.length := by
  cases a with
  | v4 a => exact HoldsV4.size h
  | v6 a => exact HoldsV6.size h

/-- A record is read back from a longer slice of the same bytes. -/
theorem Holds.front {a : SocketAddr} (h : Holds p bytes a) (rest : List UInt8) :
    Holds p (bytes.take (structSize p a) ++ rest) a := by
  refine h.of_take ?_
  have hlength : (bytes.take (structSize p a)).length = structSize p a :=
    List.length_take_of_le h.size
  rw [List.take_append_of_le_length (Nat.le_of_eq hlength.symm), List.take_take, Nat.min_self]

theorem HoldsV4.loadFamily {a : SocketAddrV4} (h : HoldsV4 p bytes a) :
    loadU16 p bytes 0 = p.afInet := by
  have hfamily := loadU16_of_read h.family
  rwa [p.sin.family_first] at hfamily

theorem HoldsV6.loadFamily {a : SocketAddrV6} (h : HoldsV6 p bytes a) :
    loadU16 p bytes 0 = p.afInet6 := by
  have hfamily := loadU16_of_read h.family
  rwa [p.sin6.family_first] at hfamily

theorem Uring.toSocketAddr_of_holds {buf : Slice} {a : SocketAddr} (h : Holds p buf.bytes a) :
    Uring.toSocketAddr p buf = some (.ok a) := by
  cases a with
  | v4 a =>
    have h : HoldsV4 p buf.bytes a := h
    rw [Uring.toSocketAddr_v4 h.loadFamily h.size, h.value]
  | v6 a =>
    have h : HoldsV6 p buf.bytes a := h
    obtain ⟨ip, hip, hdecode⟩ := Uring.toSocketAddr_v6 h.loadFamily h.size
    obtain rfl := Option.some.inj (hip.symm.trans h.ip)
    rw [hdecode, h.value]

theorem Iocp.toSocketAddr_of_holds {buf : Slice} {a : SocketAddr} (h : Holds p buf.bytes a) :
    Iocp.toSocketAddr p buf = if structAlign p a ∣ buf.addr then some (.ok a) else none := by
  cases a with
  | v4 a =>
    have h : HoldsV4 p buf.bytes a := h
    rw [Iocp.toSocketAddr_v4 h.loadFamily h.size, h.value]
    rfl
  | v6 a =>
    have h : HoldsV6 p buf.bytes a := h
    obtain ⟨ip, hip, hdecode⟩ := Iocp.toSocketAddr_v6 h.loadFamily h.size
    obtain rfl := Option.some.inj (hip.symm.trans h.ip)
    rw [hdecode, h.value]
    rfl

theorem Uring.socketAddrToStorage_holds (place : Nat) (a : SocketAddr) :
    ∃ storage, Uring.socketAddrToStorage p place a = (storage, structSize p a) ∧
      Holds p storage.bytes a := by
  cases a with
  | v4 a => exact ⟨_, rfl, (writeV4_holds (le_zeroed p.sin_fits) a).2⟩
  | v6 a => exact ⟨_, rfl, (writeV6_holds (le_zeroed p.sin6_fits) a).2⟩

/-- What is assigned to the front of the storage holds its fields there. -/
theorem take_write_front {n : Nat} (hlength : data.length = n) :
    (Bytes.write bytes 0 data).take n = data.take n := by
  rw [Bytes.write, List.take_zero, List.nil_append, ← hlength, List.take_left, List.take_length]

theorem Iocp.socketAddrToStorage_holds (place : Nat) (a : SocketAddr) :
    ∃ storage, Iocp.socketAddrToStorage p place a = some (storage, structSize p a) ∧
      Holds p storage.bytes a ∧ structAlign p a ∣ storage.addr := by
  cases a with
  | v4 a =>
    obtain ⟨hlength, hholds⟩ := writeV4_holds (le_zeroed (Nat.le_refl p.sin.size)) a
    rw [length_zeroed] at hlength
    have halign : p.sin.align ∣ place * p.storageAlign := p.sin_align.mul_left place
    have hassign := Iocp.storageAssign_eq ⟨place * p.storageAlign, zeroed p.storageSize⟩
      (writeV4 p (zeroed p.sin.size) a) (le_zeroed p.sin_fits) halign
    refine ⟨⟨place * p.storageAlign,
      Bytes.write (zeroed p.storageSize) 0 (writeV4 p (zeroed p.sin.size) a)⟩, ?_,
      hholds.of_take (take_write_front hlength), halign⟩
    unfold Iocp.socketAddrToStorage
    simp only [Iocp.sockAddrInNew_eq, hassign, Option.bind_eq_bind, Option.bind_some]
    rfl
  | v6 a =>
    obtain ⟨hlength, hholds⟩ := writeV6_holds (le_zeroed (Nat.le_refl p.sin6.size)) a
    rw [length_zeroed] at hlength
    have halign : p.sin6.align ∣ place * p.storageAlign := p.sin6_align.mul_left place
    have hassign := Iocp.storageAssign_eq ⟨place * p.storageAlign, zeroed p.storageSize⟩
      (writeV6 p (zeroed p.sin6.size) a) (le_zeroed p.sin6_fits) halign
    refine ⟨⟨place * p.storageAlign,
      Bytes.write (zeroed p.storageSize) 0 (writeV6 p (zeroed p.sin6.size) a)⟩, ?_,
      hholds.of_take (take_write_front hlength), halign⟩
    unfold Iocp.socketAddrToStorage
    simp only [Iocp.sockAddrIn6New_eq, hassign, Option.bind_eq_bind, Option.bind_some]
    rfl

/-- On every platform, the `io_uring` decoder gets every address back from the first bytes of
its storage, wherever they lie and whatever follows, and for every slice it returns, with an
address exactly if the family and the length are those of one.  The IOCP codec does the same
exactly for slices that start where the structure of their family may start; the storage
itself is such a slice. -/
theorem socket_addr_codecs (p : Platform) :
    (∀ (place : Nat) (a : SocketAddr), ∃ storage len,
      Uring.socketAddrToStorage p place a = (storage, len) ∧ len ≤ storage.bytes.length ∧
      ∀ start rest, Uring.toSocketAddr p ⟨start, storage.bytes.take len ++ rest⟩ = some (.ok a)) ∧
    (∀ buf, ∃ result, Uring.toSocketAddr p buf = some result ∧
      ((∃ a, result = .ok a) ↔ Decodable p buf)) ∧
    (∀ (place : Nat) (a : SocketAddr), ∃ storage len,
      Iocp.socketAddrToStorage p place a = some (storage, len) ∧ len ≤ storage.bytes.length ∧
      Iocp.toSocketAddr p ⟨storage.addr, storage.bytes.take len⟩ = some (.ok a) ∧
      ∀ start rest,
        Iocp.toSocketAddr p ⟨start, storage.bytes.take len ++ rest⟩ = some (.ok a) ↔
          structAlign p a ∣ start) ∧
    ∀ buf, (∃ result, Iocp.toSocketAddr p buf = some result ∧
      ((∃ a, result = .ok a) ↔ Decodable p buf)) ↔ (Decodable p buf → Aligned p buf) := by
  refine ⟨fun place a => ?_, fun buf => ?_, fun place a => ?_, fun buf => ?_⟩
  · obtain ⟨storage, hencode, hholds⟩ := Uring.socketAddrToStorage_holds (p := p) place a
    exact ⟨storage, _, hencode, hholds.size, fun start rest =>
      Uring.toSocketAddr_of_holds (hholds.front rest)⟩
  · rcases Classical.em (Decodable p buf) with hdecodable | hnot
    · rcases id hdecodable with ⟨hfamily, hsize⟩ | ⟨hfamily, hsize⟩
      · exact ⟨_, Uring.toSocketAddr_v4 hfamily hsize, fun _ => hdecodable, fun _ => ⟨_, rfl⟩⟩
      · obtain ⟨ip, -, hdecode⟩ := Uring.toSocketAddr_v6 hfamily hsize
        exact ⟨_, hdecode, fun _ => hdecodable, fun _ => ⟨_, rfl⟩⟩
    · obtain ⟨e, he⟩ := Uring.toSocketAddr_error hnot
      exact ⟨_, he, iff_of_false (fun ⟨a, ha⟩ => by cases ha) hnot⟩
  · obtain ⟨storage, hencode, hholds, halign⟩ := Iocp.socketAddrToStorage_holds (p := p) place a
    refine ⟨storage, _, hencode, hholds.size, ?_, fun start rest => ?_⟩
    · have hfront := hholds.front []
      rw [List.append_nil] at hfront
      rw [Iocp.toSocketAddr_of_holds hfront]
      exact if_pos halign
    · rw [Iocp.toSocketAddr_of_holds (hholds.front rest)]
      constructor
      · intro h
        refine Classical.byContradiction fun hnot => ?_
        rw [if_neg hnot] at h
        cases h
      · exact fun h => if_pos h
  · rcases Classical.em (Decodable p buf) with hdecodable | hnot
    · rcases id hdecodable with ⟨hfamily, hsize⟩ | ⟨hfamily, hsize⟩
      · rw [Iocp.toSocketAddr_v4 hfamily hsize]
        constructor
        · rintro ⟨result, hresult, -⟩ -
          refine ⟨fun _ => Classical.byContradiction fun hmis => ?_, fun hsix =>
            absurd (hfamily.symm.trans hsix) p.families⟩
          rw [if_neg hmis] at hresult
          cases hresult
        · intro h
          rw [if_pos ((h hdecodable).1 hfamily)]
          exact ⟨_, rfl, fun _ => hdecodable, fun _ => ⟨_, rfl⟩⟩
      · obtain ⟨ip, -, hdecode⟩ := Iocp.toSocketAddr_v6 hfamily hsize
        rw [hdecode]
        constructor
        · rintro ⟨result, hresult, -⟩ -
          refine ⟨fun hfour => absurd (hfour.symm.trans hfamily) p.families, fun _ =>
            Classical.byContradiction fun hmis => ?_⟩
          rw [if_neg hmis] at hresult
          cases hresult
        · intro h
          rw [if_pos ((h hdecodable).2 hfamily)]
          exact ⟨_, rfl, fun _ => hdecodable, fun _ => ⟨_, rfl⟩⟩
    · obtain ⟨e, he⟩ := Iocp.toSocketAddr_error hnot
      exact ⟨fun _ h => absurd h hnot, fun _ =>
        ⟨_, he, iff_of_false (fun ⟨a, ha⟩ => by cases ha) hnot⟩⟩

/-! ## The platforms -/

/-- `SOCKADDR_IN` and `sockaddr_in`. -/
def sinLayout : SockAddrInLayout :=
  { size := 16, align := 4, family := 0, port := 2, addr := 4, family_first := rfl
    family_port := Nat.le_refl 2, port_addr := Nat.le_refl 4, addr_size := Nat.le_of_ble_eq_true rfl }

/-- `SOCKADDR_IN6` and `sockaddr_in6`. -/
def sin6Layout : SockAddrIn6Layout :=
  { size := 28, align := 4, family := 0, port := 2, flowinfo := 4, addr := 8, scopeId := 24
    family_first := rfl, family_port := Nat.le_refl 2, port_flowinfo := Nat.le_refl 4
    flowinfo_addr := Nat.le_refl 8, addr_scopeId := Nat.le_refl 24
    scopeId_size := Nat.le_refl 28 }

theorem winsock_families : (2 : UInt16) ≠ 23 := by decide

/-- Windows. -/
def winsock : Platform :=
  { endian := .little, afInet := 2, afInet6 := 23, sin := sinLayout, sin6 := sin6Layout
    storageSize := 128, storageAlign := 8, families := winsock_families
    sin_fits := Nat.le_of_ble_eq_true rfl, sin6_fits := Nat.le_of_ble_eq_true rfl
    sin_align := ⟨2, rfl⟩, sin6_align := ⟨2, rfl⟩ }

/-- The address 127.0.0.1:80 in a slice that starts at an odd address. -/
def oddSlice : Slice :=
  { addr := 1, bytes := [2, 0, 0, 80, 127, 0, 0, 1, 0, 0, 0, 0, 0, 0, 0, 0] }

/-- The IOCP decoder panics on an address that is well formed and does not start where a
`SOCKADDR_IN` may start; the other decoder reads it. -/
theorem odd_address_panics :
    (loadU16 winsock oddSlice.bytes 0 = winsock.afInet ∧
      winsock.sin.size ≤ oddSlice.bytes.length) ∧
    Iocp.toSocketAddr winsock oddSlice = none ∧
    Uring.toSocketAddr winsock oddSlice = some (.ok (.v4 ⟨⟨[127, 0, 0, 1], rfl⟩, 80⟩)) ∧
    Iocp.toSocketAddr winsock { oddSlice with addr := 4 } =
      some (.ok (.v4 ⟨⟨[127, 0, 0, 1], rfl⟩, 80⟩)) := by
  decide +kernel

end Veloq.Driver.Net
