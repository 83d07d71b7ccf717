import Veloq.Foundation.Bytes
set_option autoImplicit false

/-!
# Driver: socket addresses as bytes

The codecs of the two backends, `iocp/src/net/addr.rs` over `veloq-pod` and
`uring/src/net.rs`.  A structure of the platform is its bytes; where its fields are, and
the two family numbers, come from the platform.

`none` is a panic, or for `io_uring` a copy beyond the end of the slice.
-/

namespace Veloq.Driver.Net

open Veloq.Foundation

/-! ## Addresses -/

/-- `Ipv4Addr`, as its octets. -/
structure Ipv4Addr where
  octets : List UInt8
  length : octets.length = 4
  deriving DecidableEq, Repr

/-- `Ipv6Addr`, as its octets. -/
structure Ipv6Addr where
  octets : List UInt8
  length : octets.length = 16
  deriving DecidableEq, Repr

structure SocketAddrV4 where
  ip : Ipv4Addr
  port : UInt16
  deriving DecidableEq, Repr

structure SocketAddrV6 where
  ip : Ipv6Addr
  port : UInt16
  flowinfo : UInt32
  scopeId : UInt32
  deriving DecidableEq, Repr

inductive SocketAddr where
  | v4 (a : SocketAddrV4)
  | v6 (a : SocketAddrV6)
  deriving DecidableEq, Repr

/-- `Ipv4Addr::from(u32)`. -/
def Ipv4Addr.ofU32 (x : UInt32) : Ipv4Addr := ⟨beBytes 4 x.toNat, length_beBytes ..⟩

/-- `InvalidInput` with its note. -/
inductive AddrError where
  | invalidInput (note : String)
  deriving DecidableEq, Repr

/-! ## The structures of the platform -/

/-- `SOCKADDR_IN`, `sockaddr_in`: its size, alignment and the offsets of its fields. -/
structure SockAddrInLayout where
  size : Nat
  align : Nat
  family : Nat
  port : Nat
  addr : Nat
  family_first : family = 0
  family_port : family + 2 ≤ port
  port_addr : port + 2 ≤ addr
  addr_size : addr + 4 ≤ size

/-- `SOCKADDR_IN6`, `sockaddr_in6`. -/
structure SockAddrIn6Layout where
  size : Nat
  align : Nat
  family : Nat
  port : Nat
  flowinfo : Nat
  addr : Nat
  scopeId : Nat
  family_first : family = 0
  family_port : family + 2 ≤ port
  port_flowinfo : port + 2 ≤ flowinfo
  flowinfo_addr : flowinfo + 4 ≤ addr
  addr_scopeId : addr + 16 ≤ scopeId
  scopeId_size : scopeId + 4 ≤ size

/-- What the codecs take from the platform. -/
structure Platform where
  endian : Endian
  afInet : UInt16
  afInet6 : UInt16
  sin : SockAddrInLayout
  sin6 : SockAddrIn6Layout
  /-- `SOCKADDR_STORAGE`, `sockaddr_storage`. -/
  storageSize : Nat
  storageAlign : Nat
  families : afInet ≠ afInet6
  sin_fits : sin.size ≤ storageSize
  sin6_fits : sin6.size ≤ storageSize
  sin_align : sin.align ∣ storageAlign
  sin6_align : sin6.align ∣ storageAlign

/-- A byte slice, with the address where it starts. -/
structure Slice where
  addr : Nat
  bytes : List UInt8
  deriving DecidableEq, Repr

/-- `&buf[..n]`, also what a copy of `n` bytes from its start reads. -/
def Slice.upTo (buf : Slice) (n : Nat) : Option Slice :=
  if n ≤ buf.bytes.length then some { buf with bytes := buf.bytes.take n } else none

/-! ## `veloq-pod` -/

inductive PodError where
  | sizeMismatch
  | alignmentMismatch
  deriving DecidableEq, Repr

/-- `try_from_bytes` for a type of the size and alignment. -/
def tryFromBytes (size align : Nat) (bytes : Slice) : Except PodError (List UInt8) :=
  if bytes.bytes.length ≠ size then
    .error .sizeMismatch
  else if ¬ align ∣ bytes.addr then
    .error .alignmentMismatch
  else
    .ok bytes.bytes

/-- `from_bytes` and `from_bytes_mut`: they panic on an error. -/
def fromBytes (size align : Nat) (bytes : Slice) : Option (List UInt8) :=
  (tryFromBytes size align bytes).toOption

/-- `&bytes[offset..offset + len]`. -/
def range (bytes : List UInt8) (offset len : Nat) : Option (List UInt8) :=
  if offset + len ≤ bytes.length then some (Bytes.read bytes offset len) else none

/-- `bytes[offset..offset + data.len()].copy_from_slice(&data)`. -/
def copyInto (bytes : List UInt8) (offset : Nat) (data : List UInt8) : Option (List UInt8) :=
  if offset + data.length ≤ bytes.length then some (Bytes.write bytes offset data) else none

def zeroed (size : Nat) : List UInt8 := List.replicate size 0

/-! ## Fields -/

/-- Sixteen octets, and `Ipv6Addr::from` on them. -/
def readIpv6Bytes (bytes : List UInt8) (offset : Nat) : Option Ipv6Addr :=
  if h : offset + 16 ≤ bytes.length then some ⟨Bytes.read bytes offset 16, Bytes.length_read h⟩
  else none

/-- A field of the machine's own type, in its byte order. -/
def loadU16 (p : Platform) (bytes : List UInt8) (offset : Nat) : UInt16 :=
  UInt16.ofNat (p.endian.ofBytes (Bytes.read bytes offset 2))

def loadU32 (p : Platform) (bytes : List UInt8) (offset : Nat) : UInt32 :=
  UInt32.ofNat (p.endian.ofBytes (Bytes.read bytes offset 4))

def storeU16 (p : Platform) (bytes : List UInt8) (offset : Nat) (x : UInt16) : List UInt8 :=
  Bytes.write bytes offset (p.endian.toBytes 2 x.toNat)

def storeU32 (p : Platform) (bytes : List UInt8) (offset : Nat) (x : UInt32) : List UInt8 :=
  Bytes.write bytes offset (p.endian.toBytes 4 x.toNat)

/-- `u16::to_be`, `u16::from_be`. -/
def u16Be (p : Platform) (x : UInt16) : UInt16 := UInt16.ofNat (p.endian.toBe 2 x.toNat)

/-- `u32::from_be`. -/
def u32Be (p : Platform) (x : UInt32) : UInt32 := UInt32.ofNat (p.endian.toBe 4 x.toNat)

/-! ## The IOCP codec -/

namespace Iocp

variable (p : Platform)

/-- `read_u32_ne`. -/
def readU32Ne (bytes : List UInt8) (offset : Nat) : Option UInt32 :=
  (range bytes offset 4).map fun raw => UInt32.ofNat (p.endian.ofBytes raw)

/-- `write_u32_ne`. -/
def writeU32Ne (bytes : List UInt8) (offset : Nat) (value : UInt32) : Option (List UInt8) :=
  copyInto bytes offset (p.endian.toBytes 4 value.toNat)

/-- `write_ipv6_bytes`. -/
def writeIpv6Bytes (bytes : List UInt8) (offset : Nat) (value : Ipv6Addr) : Option (List UInt8) :=
  copyInto bytes offset value.octets

/-- `SockAddrIn::new`. -/
def sockAddrInNew (addr : SocketAddrV4) : Option (List UInt8) :=
  let sin := storeU16 p (zeroed p.sin.size) p.sin.family p.afInet
  let sin := storeU16 p sin p.sin.port (u16Be p addr.port)
  writeU32Ne p sin p.sin.addr (UInt32.ofNat (p.endian.ofBytes addr.ip.octets))

/-- `SockAddrIn::to_std`. -/
def sockAddrInToStd (sin : List UInt8) : Option SocketAddrV4 := do
  let sAddr ← readU32Ne p sin p.sin.addr
  some { ip := Ipv4Addr.ofU32 (u32Be p sAddr), port := u16Be p (loadU16 p sin p.sin.port) }

/-- `SockAddrIn6::new`. -/
def sockAddrIn6New (addr : SocketAddrV6) : Option (List UInt8) := do
  let sin6 := storeU16 p (zeroed p.sin6.size) p.sin6.family p.afInet6
  let sin6 := storeU16 p sin6 p.sin6.port (u16Be p addr.port)
  let sin6 ← writeIpv6Bytes sin6 p.sin6.addr addr.ip
  let sin6 := storeU32 p sin6 p.sin6.flowinfo addr.flowinfo
  writeU32Ne p sin6 p.sin6.scopeId addr.scopeId

/-- `SockAddrIn6::to_std`. -/
def sockAddrIn6ToStd (sin6 : List UInt8) : Option SocketAddrV6 := do
  let ip ← readIpv6Bytes sin6 p.sin6.addr
  let scopeId ← readU32Ne p sin6 p.sin6.scopeId
  some { ip := ip, port := u16Be p (loadU16 p sin6 p.sin6.port),
         flowinfo := loadU32 p sin6 p.sin6.flowinfo, scopeId := scopeId }

/-- `to_socket_addr`. -/
def toSocketAddr (buf : Slice) : Option (Except AddrError SocketAddr) :=
  if buf.bytes.length < 2 then
    some (.error (.invalidInput "invalid address length"))
  else
    let family := loadU16 p buf.bytes 0
    if family = p.afInet then
      if buf.bytes.length < p.sin.size then
        some (.error (.invalidInput "invalid IPv4 sockaddr length"))
      else do
        let head ← buf.upTo p.sin.size
        let sin ← fromBytes p.sin.size p.sin.align head
        let addr ← sockAddrInToStd p sin
        some (.ok (.v4 addr))
    else if family = p.afInet6 then
      if buf.bytes.length < p.sin6.size then
        some (.error (.invalidInput "invalid IPv6 sockaddr length"))
      else do
        let head ← buf.upTo p.sin6.size
        let sin6 ← fromBytes p.sin6.size p.sin6.align head
        let addr ← sockAddrIn6ToStd p sin6
        some (.ok (.v6 addr))
    else
      some (.error (.invalidInput "unsupported address family"))

/-- `*from_bytes_mut(&mut bytes_of_mut(&mut storage)[..size]) = value`. -/
def storageAssign (storage : Slice) (size align : Nat) (value : List UInt8) : Option Slice := do
  let head ← storage.upTo size
  let _ ← fromBytes size align head
  some { storage with bytes := Bytes.write storage.bytes 0 value }

/-- `socket_addr_to_storage`: the storage and the length.  The storage lies at the `place`-th
address that is aligned for it. -/
def socketAddrToStorage (place : Nat) (addr : SocketAddr) : Option (Slice × Nat) :=
  let storage : Slice := ⟨place * p.storageAlign, zeroed p.storageSize⟩
  match addr with
  | .v4 a => do
      let sin ← sockAddrInNew p a
      let storage ← storageAssign storage p.sin.size p.sin.align sin
      some (storage, p.sin.size)
  | .v6 a => do
      let sin6 ← sockAddrIn6New p a
      let storage ← storageAssign storage p.sin6.size p.sin6.align sin6
      some (storage, p.sin6.size)

end Iocp

/-! ## The `io_uring` codec -/

namespace Uring

variable (p : Platform)

/-- `to_socket_addr`: everything is copied before it is read. -/
def toSocketAddr (buf : Slice) : Option (Except AddrError SocketAddr) :=
  if buf.bytes.length < 2 then
    some (.error (.invalidInput "Invalid address length"))
  else do
    let familyRaw ← buf.upTo 2
    let family := loadU16 p familyRaw.bytes 0
    if family = p.afInet then
      if buf.bytes.length < p.sin.size then
        some (.error (.invalidInput "Invalid address length"))
      else do
        let sin ← buf.upTo p.sin.size
        let ip := Ipv4Addr.ofU32 (u32Be p (loadU32 p sin.bytes p.sin.addr))
        let port := u16Be p (loadU16 p sin.bytes p.sin.port)
        some (.ok (.v4 { ip := ip, port := port }))
    else if family = p.afInet6 then
      if buf.bytes.length < p.sin6.size then
        some (.error (.invalidInput "Invalid address length"))
      else do
        let sin6 ← buf.upTo p.sin6.size
        let ip ← readIpv6Bytes sin6.bytes p.sin6.addr
        let port := u16Be p (loadU16 p sin6.bytes p.sin6.port)
        some (.ok (.v6 { ip := ip, port := port,
                         flowinfo := loadU32 p sin6.bytes p.sin6.flowinfo,
                         scopeId := loadU32 p sin6.bytes p.sin6.scopeId }))
    else
      some (.error (.invalidInput "Unsupported address family"))

/-- `socket_addr_to_storage`: the fields are written through a pointer into the storage. -/
def socketAddrToStorage (place : Nat) (addr : SocketAddr) : Slice × Nat :=
  let storage := zeroed p.storageSize
  match addr with
  | .v4 a =>
      let storage := storeU16 p storage p.sin.family p.afInet
      let storage := storeU16 p storage p.sin.port (u16Be p a.port)
      let storage := storeU32 p storage p.sin.addr (UInt32.ofNat (p.endian.ofBytes a.ip.octets))
      (⟨place * p.storageAlign, storage⟩, p.sin.size)
  | .v6 a =>
      let storage := storeU16 p storage p.sin6.family p.afInet6
      let storage := storeU16 p storage p.sin6.port (u16Be p a.port)
      let storage := Bytes.write storage p.sin6.addr a.ip.octets
      let storage := storeU32 p storage p.sin6.flowinfo a.flowinfo
      let storage := storeU32 p storage p.sin6.scopeId a.scopeId
      (⟨place * p.storageAlign, storage⟩, p.sin6.size)

end Uring

end Veloq.Driver.Net
