import ToolsCxx.Lib.Blocks
import ToolsCxx.Lib.LastIndex
import ToolsCxx.Lib.Numerals
import Mathlib.Data.Nat.Digits.Defs

/-! # `InetAddress`

An `InetAddress` is a union of a `sockaddr_in` and a `sockaddr_in6`: 28 bytes of memory, which are
read and written through either member. `inet_pton` and `inet_ntop` are parameters (`Libc`); what is
used of them is that they read back what they print, and print no more than they are documented to
(`Documented`).

`from_ip_and_port` takes the result 0 of `inet_pton`, for a text that is no address, for a success:
so the address that is built from a text is that address or a failure is reported if and only if
the text is one (`built_iff`). -/

namespace ToolsCxx.Socket.Address

open ToolsCxx.Lib.Blocks ToolsCxx.Lib.LastIndex ToolsCxx.Lib.Numerals

abbrev Byte := BitVec 8

/-! ### Byte order -/

/-- The bytes of a number of 16 bits. -/
def low (v : BitVec 16) : Byte := v.truncate 8

def high (v : BitVec 16) : Byte := (v >>> 8).truncate 8

def word (high low : Byte) : BitVec 16 := BitVec.ofNat 16 (256 * high.toNat + low.toNat)

theorem toNat_low (v : BitVec 16) : (low v).toNat = v.toNat % 256 := BitVec.toNat_setWidth ..

theorem toNat_high (v : BitVec 16) : (high v).toNat = v.toNat / 256 := by
  have hlt := v.isLt
  have hshift : (v >>> 8).toNat = v.toNat / 256 :=
    (BitVec.toNat_ushiftRight ..).trans (Nat.shiftRight_eq_div_pow v.toNat 8)
  unfold high
  rw [BitVec.truncate_eq_setWidth, BitVec.toNat_setWidth, hshift]
  exact Nat.mod_eq_of_lt (by omega)

theorem toNat_word (a b : Byte) : (word a b).toNat = 256 * a.toNat + b.toNat := by
  have ha := a.isLt
  have hb := b.isLt
  exact (BitVec.toNat_ofNat ..).trans (Nat.mod_eq_of_lt (by omega))

theorem word_high_low (v : BitVec 16) : word (high v) (low v) = v := by
  refine BitVec.eq_of_toNat_eq ?_
  rw [toNat_word, toNat_high, toNat_low]
  omega

theorem high_word (a b : Byte) : high (word a b) = a := by
  have hb := b.isLt
  refine BitVec.eq_of_toNat_eq ?_
  rw [toNat_high, toNat_word]
  omega

theorem low_word (a b : Byte) : low (word a b) = b := by
  have hb := b.isLt
  refine BitVec.eq_of_toNat_eq ?_
  rw [toNat_low, toNat_word]
  omega

/-- The byte order of the host. -/
inductive Endian where
  | little
  | big
  deriving DecidableEq

namespace Endian

/-- The bytes of a number in memory. -/
def encode16 (e : Endian) (v : BitVec 16) : List Byte :=
  match e with
  | .little => [low v, high v]
  | .big => [high v, low v]

def decode16 (e : Endian) : List Byte → BitVec 16
  | [a, b] =>
    match e with
    | .little => word b a
    | .big => word a b
  | _ => 0

/-- `host_to_network16`: the bytes of the result are those of the number, the high one first. -/
def hostToNetwork16 (e : Endian) (v : BitVec 16) : BitVec 16 :=
  match e with
  | .little => word (low v) (high v)
  | .big => v

/-- `network_to_host16`. -/
def networkToHost16 (e : Endian) (v : BitVec 16) : BitVec 16 :=
  match e with
  | .little => word (low v) (high v)
  | .big => v

theorem length_encode16 (e : Endian) (v : BitVec 16) : (e.encode16 v).length = 2 := by
  cases e <;> rfl

theorem decode16_encode16 (e : Endian) (v : BitVec 16) : e.decode16 (e.encode16 v) = v := by
  cases e with
  | little => exact word_high_low v
  | big => exact word_high_low v

theorem networkToHost16_hostToNetwork16 (e : Endian) (v : BitVec 16) :
    e.networkToHost16 (e.hostToNetwork16 v) = v := by
  cases e with
  | little =>
    show word (low (word (low v) (high v))) (high (word (low v) (high v))) = v
    rw [low_word, high_word, word_high_low]
  | big => rfl

end Endian

/-! ### `inet_pton` and `inet_ntop` -/

inductive Family where
  | ipv4
  | ipv6
  deriving DecidableEq

namespace Family

/-- `AF_INET` and `AF_INET6`. -/
def code : Family → BitVec 16
  | .ipv4 => 2
  | .ipv6 => 10

/-- The number of bytes of an address. -/
def size : Family → ℕ
  | .ipv4 => 4
  | .ipv6 => 16

/-- `INET_ADDRSTRLEN` and `INET6_ADDRSTRLEN`: the room for the text of an address. -/
def strLen : Family → ℕ
  | .ipv4 => 16
  | .ipv6 => 46

/-- The offset of the address: of `sin_addr` and `sin6_addr`. -/
def offset : Family → ℕ
  | .ipv4 => 4
  | .ipv6 => 8

/-- The size of a `sockaddr_in` and of a `sockaddr_in6`. -/
def sockaddrSize : Family → ℕ
  | .ipv4 => 16
  | .ipv6 => 28

end Family

/-- An address as it is in memory. -/
def InAddr (family : Family) : Type := {bytes : List Byte // bytes.length = family.size}

/-- What the texts of addresses are: the address that a text denotes, and the text of an address. -/
structure Libc where
  parse : (family : Family) → List Char → Option (InAddr family)
  print : (family : Family) → InAddr family → List Char

/-- What is documented of them. -/
structure Documented (libc : Libc) (family : Family) : Prop where
  parse_print : ∀ addr, libc.parse family (libc.print family addr) = some addr
  noNul : ∀ addr, '\x00' ∉ libc.print family addr
  length_print : ∀ addr, (libc.print family addr).length < family.strLen

/-- `inet_pton`: the result, and what is written to the address. The result is -1 for an unknown
family only. -/
def inetPton (libc : Libc) (family : Family) (src : List Char) : ℤ × Option (InAddr family) :=
  match libc.parse family src with
  | none => (0, none)
  | some addr => (1, some addr)

/-- `inet_ntop`: nothing is written if there is no room. -/
def inetNtop (libc : Libc) (family : Family) (src : InAddr family) (buf : List Char)
    (size : ℕ) : List Char :=
  if (libc.print family src).length < size then store buf 0 (libc.print family src ++ ['\x00'])
  else buf

/-! ### `InetAddress` -/

inductive Fault where
  | assertion
  /-- `LOG_SYSFATAL` -/
  | fatal
  deriving DecidableEq

/-- The union `m_addr`, `m_addr6`. -/
structure InetAddress where
  bytes : List Byte
  length_bytes : bytes.length = 28

namespace InetAddress

/-- An assignment to a member at the offset `i`. -/
def set (i : ℕ) (x : List Byte) (h : i + x.length ≤ 28) (a : InetAddress) : InetAddress where
  bytes := store a.bytes i x
  length_bytes := by rw [length_store (by rw [a.length_bytes]; exact h), a.length_bytes]

/-- `memset`. -/
def zero (family : Family) (a : InetAddress) : InetAddress :=
  a.set 0 (List.replicate family.sockaddrSize 0) (by cases family <;> decide)

/-- `sin_addr` or `sin6_addr`. -/
def addr (family : Family) (a : InetAddress) : InAddr family :=
  ⟨load a.bytes family.offset family.size,
    length_load (by rw [a.length_bytes]; cases family <;> decide)⟩

def setAddr {family : Family} (addr : InAddr family) (a : InetAddress) : InetAddress :=
  a.set family.offset addr.1 (by rw [addr.2]; cases family <;> decide)

variable (libc : Libc) (e : Endian)

def setFamily (family : Family) (a : InetAddress) : InetAddress :=
  a.set 0 (e.encode16 family.code) (by rw [Endian.length_encode16]; decide)

def setPort (port : BitVec 16) (a : InetAddress) : InetAddress :=
  a.set 2 (e.encode16 (e.hostToNetwork16 port)) (by rw [Endian.length_encode16]; decide)

/-- `get_family`. -/
def getFamily (a : InetAddress) : BitVec 16 := e.decode16 (load a.bytes 0 2)

/-- `get_netendian_port`. -/
def getNetendianPort (a : InetAddress) : BitVec 16 := e.decode16 (load a.bytes 2 2)

/-- `to_port`. -/
def toPort (a : InetAddress) : BitVec 16 := e.networkToHost16 (a.getNetendianPort e)

/-- `from_ip_and_port`. -/
def fromIpAndPort (family : Family) (ip : List Char) (port : BitVec 16) (a : InetAddress) :
    Except Fault InetAddress :=
  let a := (a.setFamily e family).setPort e port
  let ret := inetPton libc family ip
  let a := match ret.2 with
    | none => a
    | some addr => a.setAddr addr
  if ret.1 < 0 then .error .fatal else .ok a

/-- `from_ip_and_port` of a `sockaddr_in`. -/
def fromIpAndPort4 := fromIpAndPort libc e .ipv4

/-- `from_ip_and_port` of a `sockaddr_in6`. -/
def fromIpAndPort6 := fromIpAndPort libc e .ipv6

/-- The string that `c_str` gives. -/
def cStr (s : List Char) : List Char := stringAt '\x00' s 0

/-- `InetAddress::InetAddress(ip, port, family)`; `a` is what was in memory before. -/
def ofText (ip : List Char) (port family : BitVec 16) (a : InetAddress) :
    Except Fault InetAddress :=
  if family = Family.ipv4.code then fromIpAndPort4 libc e (cStr ip) port (a.zero .ipv4)
  else fromIpAndPort6 libc e (cStr ip) port (a.zero .ipv6)

/-! ### Texts -/

/-- `sockets::to_ip`. -/
def writeIp (a : InetAddress) (buf : List Char) (size : ℕ) : Except Fault (List Char) :=
  if a.getFamily e = Family.ipv4.code then
    if Family.ipv4.strLen ≤ size then .ok (inetNtop libc .ipv4 (a.addr .ipv4) buf size)
    else .error .assertion
  else
    if Family.ipv6.strLen ≤ size then .ok (inetNtop libc .ipv6 (a.addr .ipv6) buf size)
    else .error .assertion

/-- A number in decimal. -/
def decimal (n : ℕ) : List Char := numeral 10 Nat.digitChar n

/-- `sockets::to_ip_and_port`. -/
def writeIpAndPort (a : InetAddress) (buf : List Char) (size : ℕ) : Except Fault (List Char) :=
  match a.writeIp libc e buf size with
  | .error fault => .error fault
  | .ok buf =>
    let last := (stringAt '\x00' buf 0).length
    if last < size then
      -- `snprintf` leaves room for the terminator
      let text := (':' :: decimal (a.toPort e).toNat).take (size - last - 1)
      .ok (store buf last (text ++ ['\x00']))
    else .error .assertion

/-- `char buf[64] = ""`. -/
def emptyBuf : List Char := List.replicate 64 '\x00'

/-- `InetAddress::to_ip`. -/
def toIp (a : InetAddress) : Except Fault (List Char) :=
  match a.writeIp libc e emptyBuf 64 with
  | .error fault => .error fault
  | .ok buf => .ok (stringAt '\x00' buf 0)

/-- `InetAddress::to_ip_and_port`. -/
def toIpAndPort (a : InetAddress) : Except Fault (List Char) :=
  match a.writeIpAndPort libc e emptyBuf 64 with
  | .error fault => .error fault
  | .ok buf => .ok (stringAt '\x00' buf 0)

/-! ### What is in memory -/

section
variable {e} {a : InetAddress} {family : Family}

theorem bytes_set {i : ℕ} {x : List Byte} (h : i + x.length ≤ 28) :
    (a.set i x h).bytes = store a.bytes i x := rfl

theorem getFamily_setFamily : (a.setFamily e family).getFamily e = family.code := by
  have hroom : 0 + (e.encode16 family.code).length ≤ a.bytes.length := by
    rw [Endian.length_encode16, a.length_bytes]
    decide
  have hload := load_store hroom
  rw [Endian.length_encode16] at hload
  unfold getFamily setFamily
  rw [bytes_set, hload, Endian.decode16_encode16]

theorem getFamily_setPort (port : BitVec 16) : (a.setPort e port).getFamily e = a.getFamily e := by
  unfold getFamily setPort
  rw [bytes_set, load_store_below (show 0 + 2 ≤ 2 by decide)
    (by rw [a.length_bytes]; decide)]

theorem toPort_setPort (port : BitVec 16) : (a.setPort e port).toPort e = port := by
  have hroom : 2 + (e.encode16 (e.hostToNetwork16 port)).length ≤ a.bytes.length := by
    rw [Endian.length_encode16, a.length_bytes]
    decide
  have hload := load_store hroom
  rw [Endian.length_encode16] at hload
  unfold toPort getNetendianPort setPort
  rw [bytes_set, hload, Endian.decode16_encode16, Endian.networkToHost16_hostToNetwork16]

/-- The address is after the family and the port. -/
theorem load_setAddr {i : ℕ} (hi : i + 2 ≤ 4) (addr : InAddr family) :
    load (a.setAddr addr).bytes i 2 = load a.bytes i 2 := by
  have hoffset : 4 ≤ family.offset ∧ family.offset ≤ 28 := by cases family <;> decide
  unfold setAddr
  rw [bytes_set, load_store_below (hi.trans hoffset.1) (by rw [a.length_bytes]; exact hoffset.2)]

theorem getFamily_setAddr (addr : InAddr family) :
    (a.setAddr addr).getFamily e = a.getFamily e :=
  congrArg e.decode16 (load_setAddr (by decide) addr)

theorem toPort_setAddr (addr : InAddr family) : (a.setAddr addr).toPort e = a.toPort e :=
  congrArg (fun bytes => e.networkToHost16 (e.decode16 bytes)) (load_setAddr (by decide) addr)

theorem addr_setAddr (addr : InAddr family) : (a.setAddr addr).addr family = addr := by
  have hroom : family.offset + addr.1.length ≤ a.bytes.length := by
    rw [addr.2, a.length_bytes]
    cases family <;> decide
  have hload := load_store hroom
  rw [addr.2] at hload
  exact Subtype.ext hload

/-- The address is as `memset` has left it. -/
theorem addr_zero (a : InetAddress) (port : BitVec 16) :
    ((((a.zero family).setFamily e family).setPort e port).addr family).1 =
      List.replicate family.size 0 := by
  have hoffset : 4 ≤ family.offset ∧ family.offset + family.size ≤ family.sockaddrSize := by
    cases family <;> decide
  have hlen := a.length_bytes
  have hzero := (a.zero family).length_bytes
  have hfamily := ((a.zero family).setFamily e family).length_bytes
  have he := Endian.length_encode16 e
  calc load (((a.zero family).setFamily e family).setPort e port).bytes family.offset family.size
      = load ((a.zero family).setFamily e family).bytes family.offset family.size :=
        load_store_above (by rw [he]; exact hoffset.1) (by rw [he, hfamily]; decide)
    _ = load (a.zero family).bytes family.offset family.size :=
        load_store_above (by rw [he]; omega) (by rw [he, hzero]; decide)
    _ = load (List.replicate family.sockaddrSize 0) family.offset family.size :=
        load_store_start (by rw [List.length_replicate]; exact hoffset.2)
    _ = List.replicate family.size 0 := by
        unfold load
        rw [List.drop_replicate, List.take_replicate, Nat.min_eq_left (by omega)]

end

/-! ### What the texts are -/

/-- A decimal digit. -/
def digitOf (c : Char) : Option ℕ :=
  if '0' ≤ c ∧ c ≤ '9' then some (c.toNat - '0'.toNat) else none

theorem read_decimal (n : ℕ) : read 10 digitOf (decimal n) = some n :=
  read_numeral (by decide) (by decide) n

theorem not_mem_decimal {c : Char} (hc : ∀ k < 10, c ≠ Nat.digitChar k) (n : ℕ) :
    c ∉ decimal n := by
  intro h
  obtain ⟨k, hk, heq⟩ := mem_numeral (by decide) h
  exact hc k hk heq

theorem length_decimal_le (port : BitVec 16) : (decimal port.toNat).length ≤ 5 :=
  length_numeral_le (k := 4) (by decide) (port.isLt.trans (by decide))

section
variable {libc e} {a : InetAddress} {family : Family} (hdoc : Documented libc family)
  (hfamily : a.getFamily e = family.code)
include hdoc hfamily

theorem writeIp_eq (buf : List Char) : a.writeIp libc e buf 64 =
    .ok (store buf 0 (libc.print family (a.addr family) ++ ['\x00'])) := by
  have hlen := hdoc.length_print (a.addr family)
  unfold writeIp inetNtop
  rw [hfamily]
  cases family with
  | ipv4 =>
    have hfits : (libc.print .ipv4 (a.addr .ipv4)).length < 64 := hlen.trans (by decide)
    rw [if_pos rfl, if_pos (by decide), if_pos hfits]
  | ipv6 =>
    have hfits : (libc.print .ipv6 (a.addr .ipv6)).length < 64 := hlen.trans (by decide)
    rw [if_neg (by decide), if_pos (by decide), if_pos hfits]

theorem toIp_eq : a.toIp libc e = .ok (libc.print family (a.addr family)) := by
  unfold toIp
  rw [writeIp_eq hdoc hfamily]
  exact congrArg Except.ok (stringAt_store (hdoc.noNul _) (Nat.zero_le _))

theorem toIpAndPort_eq : a.toIpAndPort libc e =
    .ok (libc.print family (a.addr family) ++ ':' :: decimal (a.toPort e).toNat) := by
  have hlen : (libc.print family (a.addr family)).length < 46 :=
    (hdoc.length_print _).trans_le (by cases family <;> decide)
  have hport := length_decimal_le (a.toPort e)
  have hnul : '\x00' ∉ ':' :: decimal (a.toPort e).toNat := by
    rw [List.mem_cons, not_or]
    exact ⟨by decide, not_mem_decimal (by decide) _⟩
  have hip : stringAt '\x00' (store emptyBuf 0 (libc.print family (a.addr family) ++ ['\x00'])) 0 =
      libc.print family (a.addr family) := stringAt_store (hdoc.noNul _) (Nat.zero_le _)
  unfold toIpAndPort writeIpAndPort
  rw [writeIp_eq hdoc hfamily]
  dsimp only
  rw [hip, if_pos (by omega), List.take_of_length_le (by rw [List.length_cons]; omega)]
  exact congrArg Except.ok (stringAt_store_end hip hnul)

end

/-! ### The property -/

/-- The address is what it was built from, and its texts say so. -/
structure Good (libc : Libc) (e : Endian) (ip : List Char) (port : BitVec 16) (family : Family)
    (a : InetAddress) : Prop where
  sameFamily : a.getFamily e = family.code
  samePort : a.toPort e = port
  sameIp : ∃ text addr, a.toIp libc e = .ok text ∧ libc.parse family text = some addr ∧
    libc.parse family (cStr ip) = some addr
  texts : ∃ text, a.toIp libc e = .ok text ∧
    a.toIpAndPort libc e = .ok (text ++ ':' :: decimal port.toNat) ∧
    splitLast ':' (text ++ ':' :: decimal port.toNat) = some (text, decimal port.toNat) ∧
    read 10 digitOf (decimal port.toNat) = some port.toNat

/-- An address is built, or a failure is reported. -/
def Built (libc : Libc) (e : Endian) (ip : List Char) (port : BitVec 16) (family : Family)
    (memory : InetAddress) : Prop :=
  ofText libc e ip port family.code memory = .error .fatal ∨
    ∃ a, ofText libc e ip port family.code memory = .ok a ∧ Good libc e ip port family a

theorem ofText_eq (ip : List Char) (port : BitVec 16) (family : Family) (memory : InetAddress) :
    ofText libc e ip port family.code memory =
      .ok (((libc.parse family (cStr ip)).map setAddr).getD id
        (((memory.zero family).setFamily e family).setPort e port)) := by
  have hpton : ∀ a : InetAddress, fromIpAndPort libc e family (cStr ip) port a =
      .ok (((libc.parse family (cStr ip)).map setAddr).getD id
        ((a.setFamily e family).setPort e port)) := by
    intro a
    unfold fromIpAndPort inetPton
    cases libc.parse family (cStr ip) with
    | none => rfl
    | some addr => rfl
  unfold ofText
  cases family with
  | ipv4 => exact (if_pos rfl).trans (hpton _)
  | ipv6 => exact (if_neg (by decide)).trans (hpton _)

section
variable {libc e} {family : Family} {ip : List Char} {addr : InAddr family}

/-- The result 0 of `inet_pton` is not reported, and the address is the wildcard. -/
theorem ofText_of_invalid (h : libc.parse family (cStr ip) = none) (port : BitVec 16)
    (memory : InetAddress) : ∃ a, ofText libc e ip port family.code memory = .ok a ∧
      (a.addr family).1 = List.replicate family.size 0 := by
  refine ⟨_, ofText_eq libc e ip port family memory, ?_⟩
  rw [h]
  exact addr_zero memory port

theorem not_built (h : libc.parse family (cStr ip) = none) (port : BitVec 16)
    (memory : InetAddress) : ¬ Built libc e ip port family memory := by
  rintro (hfatal | ⟨a, -, hgood⟩)
  · rw [ofText_eq] at hfatal
    cases hfatal
  · obtain ⟨text, addr, -, -, hparse⟩ := hgood.sameIp
    rw [h] at hparse
    cases hparse

theorem built_of_parse (hdoc : Documented libc family)
    (h : libc.parse family (cStr ip) = some addr) (port : BitVec 16) (memory : InetAddress) :
    Built libc e ip port family memory := by
  set a := (((memory.zero family).setFamily e family).setPort e port).setAddr addr with ha
  have hfamily : a.getFamily e = family.code := by
    rw [ha, getFamily_setAddr, getFamily_setPort, getFamily_setFamily]
  have hport : a.toPort e = port := by rw [ha, toPort_setAddr, toPort_setPort]
  have haddr : a.addr family = addr := by rw [ha, addr_setAddr]
  have hip := toIp_eq hdoc hfamily
  have htexts := toIpAndPort_eq hdoc hfamily
  rw [haddr] at hip htexts
  rw [hport] at htexts
  refine .inr ⟨a, by rw [ofText_eq, h]; rfl, hfamily, hport,
    ⟨_, addr, hip, hdoc.parse_print addr, h⟩, ⟨_, hip, htexts, splitLast_append ?_, read_decimal _⟩⟩
  exact not_mem_decimal (by decide) _

/-- **An address is built from a text, or a failure is reported**, if and only if the text denotes
one. -/
theorem built_iff (hdoc : Documented libc family) (ip : List Char) (port : BitVec 16)
    (memory : InetAddress) :
    Built libc e ip port family memory ↔ ∃ addr, libc.parse family (cStr ip) = some addr := by
  constructor
  · intro hbuilt
    cases hparse : libc.parse family (cStr ip) with
    | none => exact absurd hbuilt (not_built hparse port memory)
    | some addr => exact ⟨addr, rfl⟩
  · rintro ⟨addr, hparse⟩
    exact built_of_parse hdoc hparse port memory

end

end InetAddress

/-! ### Dotted decimal -/

open InetAddress

/-- Numbers with dots between them. -/
def printDotted (bytes : List Byte) : List Char :=
  ['.'].intercalate (bytes.map fun b => decimal b.toNat)

/-- A number of a byte, without a zero before it. -/
def parseByte (s : List Char) : Option Byte :=
  match read 10 digitOf s with
  | none => none
  | some n => if n < 256 ∧ decimal n = s then some (BitVec.ofNat 8 n) else none

def parseDotted (s : List Char) : Option (InAddr .ipv4) :=
  match (s.splitOn '.').mapM parseByte with
  | none => none
  | some bytes => if h : bytes.length = 4 then some ⟨bytes, h⟩ else none

/-- `inet_pton` and `inet_ntop` for IPv4. -/
def dotted : Libc where
  parse
    | .ipv4 => parseDotted
    | .ipv6 => fun _ => none
  print
    | .ipv4 => fun addr => printDotted addr.1
    | .ipv6 => fun _ => []

theorem parseByte_decimal (b : Byte) : parseByte (decimal b.toNat) = some b := by
  unfold parseByte
  rw [read_decimal]
  simp only [b.isLt, and_self, if_true, BitVec.ofNat_toNat, BitVec.setWidth_eq]

theorem printDotted_four (addr : InAddr .ipv4) : ∃ a b c d : Byte, addr.1 = [a, b, c, d] ∧
    printDotted addr.1 = decimal a.toNat ++ ['.'] ++ decimal b.toNat ++ ['.'] ++
      decimal c.toNat ++ ['.'] ++ decimal d.toNat := by
  obtain ⟨a, b, c, d, haddr⟩ := List.length_eq_four.mp addr.2
  refine ⟨a, b, c, d, haddr, ?_⟩
  rw [haddr]
  simp [printDotted, List.intercalate]

theorem documented_dotted : Documented dotted .ipv4 where
  parse_print addr := by
    have hne : addr.1.map (fun b => decimal b.toNat) ≠ [] := by
      intro hnil
      have hlen : addr.1.length = 4 := addr.2
      rw [List.map_eq_nil_iff.mp hnil] at hlen
      cases hlen
    have hdot : ∀ t ∈ addr.1.map (fun b => decimal b.toNat), '.' ∉ t := by
      intro t ht
      obtain ⟨b, -, rfl⟩ := List.mem_map.mp ht
      exact not_mem_decimal (by decide) _
    have hbytes : (addr.1.map fun b => decimal b.toNat).mapM parseByte = some addr.1 := by
      rw [List.mapM_map]
      simp only [Function.comp_def, parseByte_decimal]
      exact (List.mapM_pure (m := Option) (f := id)).trans (congrArg some (List.map_id _))
    show parseDotted (printDotted addr.1) = some addr
    unfold parseDotted printDotted
    rw [List.splitOn_intercalate _ hdot hne, hbytes]
    exact dif_pos addr.2
  noNul addr := by
    obtain ⟨a, b, c, d, -, hprint⟩ := printDotted_four addr
    have hdigits : ∀ n, '\x00' ∉ decimal n := not_mem_decimal (by decide)
    show '\x00' ∉ printDotted addr.1
    rw [hprint]
    simp [hdigits]
  length_print addr := by
    obtain ⟨a, b, c, d, -, hprint⟩ := printDotted_four addr
    have hlen : ∀ b : Byte, (decimal b.toNat).length ≤ 3 := fun b =>
      length_numeral_le (k := 2) (by decide) (b.isLt.trans (by decide))
    have ha := hlen a
    have hb := hlen b
    have hc := hlen c
    have hd := hlen d
    show (printDotted addr.1).length < 16
    rw [hprint]
    simp only [List.length_append, List.length_singleton]
    omega

/-- The memory of an object before its construction. -/
def garbage : InetAddress := ⟨List.replicate 28 0xcc, List.length_replicate⟩

/-- `InetAddress("10.0.0.1", 9002)`. -/
theorem built_iff_10_0_0_1 :
    let ip := ['1', '0', '.', '0', '.', '0', '.', '1']
    Built dotted .little ip 9002 .ipv4 garbage ↔
      ∃ addr, dotted.parse .ipv4 (cStr ip) = some addr :=
  built_iff documented_dotted _ _ _

/-- `InetAddress("localhost", 80)`. -/
theorem not_always_built : ¬ ∀ (libc : Libc) (e : Endian) (ip : List Char) (port : BitVec 16)
    (family : Family) (memory : InetAddress), Documented libc family →
    Built libc e ip port family memory := by
  intro h
  have hbuilt := h dotted .little ['l', 'o', 'c', 'a', 'l', 'h', 'o', 's', 't'] 80 .ipv4 garbage
    documented_dotted
  have hparse : dotted.parse .ipv4 (cStr ['l', 'o', 'c', 'a', 'l', 'h', 'o', 's', 't']) = none := by
    decide +kernel
  exact not_built hparse 80 garbage hbuilt

end ToolsCxx.Socket.Address
