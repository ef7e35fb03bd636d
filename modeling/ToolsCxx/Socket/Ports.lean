import ToolsCxx.Lib.ByteOrder
import ToolsCxx.Socket.Address

/-! # Addresses from ports and from the kernel

The conversions of `Endian.h` of every width, and the other ways to an `InetAddress`: from a port,
for any address or the loopback only, and from a `sockaddr` that the kernel has written.

* `reads_back`: the text of an address, cut at its last colon, gives the address again. The memory
  of the `sockaddr` is the same if and only if the fields that no text shows are zero.
* `conversions_ok`: the conversions give the bytes in network order, and are inverse to each other.
* `ofPort_ok`: what a port gives, in the memory that the kernel sees. -/

namespace ToolsCxx.Socket.Ports

open ToolsCxx.Lib.Blocks ToolsCxx.Lib.ByteOrder ToolsCxx.Lib.LastIndex ToolsCxx.Lib.Numerals
open ToolsCxx.Socket.Address ToolsCxx.Socket.Address.InetAddress

/-! ### Byte order -/

section
variable {n : ℕ} (e : Endian)

/-- The bytes of a number in memory. -/
def encode (v : BitVec (8 * n)) : List Byte :=
  match e with
  | .little => bytes v
  | .big => (bytes v).reverse

def decode (n : ℕ) (l : List Byte) : BitVec (8 * n) :=
  match e with
  | .little => ofBytes n l
  | .big => ofBytes n l.reverse

/-- `htobe16`, `htobe32` and `htobe64`. -/
def hostToNetwork (v : BitVec (8 * n)) : BitVec (8 * n) :=
  match e with
  | .little => swap v
  | .big => v

/-- `be16toh`, `be32toh` and `be64toh`. -/
def networkToHost (v : BitVec (8 * n)) : BitVec (8 * n) :=
  match e with
  | .little => swap v
  | .big => v

/-- `host_to_network32`. -/
def hostToNetwork32 (v : BitVec 32) : BitVec 32 := hostToNetwork (n := 4) e v

/-- `network_to_host32`. -/
def networkToHost32 (v : BitVec 32) : BitVec 32 := networkToHost (n := 4) e v

/-- `host_to_network64`. -/
def hostToNetwork64 (v : BitVec 64) : BitVec 64 := hostToNetwork (n := 8) e v

/-- `network_to_host64`. -/
def networkToHost64 (v : BitVec 64) : BitVec 64 := networkToHost (n := 8) e v

/-- The bytes of 16 bits. -/
theorem bytes_eq (v : BitVec 16) : bytes (n := 2) v = [low v, high v] := by
  have hlen : (bytes (n := 2) v).length = 2 := length_bytes (n := 2) v
  obtain ⟨a, b, hbytes⟩ := List.length_eq_two.mp hlen
  have hv : ofBytes 2 [a, b] = v := hbytes ▸ ofBytes_bytes (n := 2) v
  have hword : ofBytes 2 [a, b] = word b a := by
    refine congrArg (BitVec.ofNat 16) ?_
    show a.toNat + 256 * (b.toNat + 256 * 0) = _
    omega
  rw [hbytes, ← hv, hword, low_word, high_word]

theorem encode16_eq (v : BitVec 16) : e.encode16 v = encode (n := 2) e v := by
  cases e with
  | little => exact (bytes_eq v).symm
  | big => exact congrArg List.reverse (bytes_eq v).symm

theorem length_encode (v : BitVec (8 * n)) : (encode e v).length = n := by
  cases e with
  | little => exact length_bytes v
  | big => exact List.length_reverse.trans (length_bytes v)

theorem decode_encode (v : BitVec (8 * n)) : decode e n (encode e v) = v := by
  cases e with
  | little => exact ofBytes_bytes v
  | big =>
    show ofBytes n (bytes v).reverse.reverse = v
    rw [List.reverse_reverse, ofBytes_bytes]

/-- **The order of the network** is the same in the memory of every host. -/
theorem encode_hostToNetwork (v : BitVec (8 * n)) :
    encode e (hostToNetwork e v) = (bytes v).reverse := by
  cases e with
  | little => exact bytes_swap v
  | big => rfl

theorem networkToHost_hostToNetwork (v : BitVec (8 * n)) :
    networkToHost e (hostToNetwork e v) = v := by
  cases e with
  | little => exact swap_swap v
  | big => rfl

/-- The conversion of a port is the general one. -/
theorem hostToNetwork16_eq (v : BitVec 16) : e.hostToNetwork16 v = hostToNetwork (n := 2) e v := by
  cases e with
  | little =>
    show word (low v) (high v) = ofBytes 2 (bytes (n := 2) v).reverse
    rw [bytes_eq]
    refine congrArg (BitVec.ofNat 16) ?_
    show 256 * (low v).toNat + (high v).toNat =
      (high v).toNat + 256 * ((low v).toNat + 256 * 0)
    omega
  | big => rfl

/-- **The conversions of `Endian.h`**: in the memory of every host the result has its high byte
first, and the conversion back gives the number. -/
theorem conversions_ok (port : BitVec 16) (host32 : BitVec 32) (host64 : BitVec 64) :
    (encode (n := 2) e (e.hostToNetwork16 port) = (bytes (n := 2) port).reverse ∧
      e.networkToHost16 (e.hostToNetwork16 port) = port) ∧
    (encode (n := 4) e (hostToNetwork32 e host32) = (bytes (n := 4) host32).reverse ∧
      networkToHost32 e (hostToNetwork32 e host32) = host32) ∧
    (encode (n := 8) e (hostToNetwork64 e host64) = (bytes (n := 8) host64).reverse ∧
      networkToHost64 e (hostToNetwork64 e host64) = host64) := by
  refine ⟨⟨?_, e.networkToHost16_hostToNetwork16 port⟩,
    ⟨encode_hostToNetwork (n := 4) e host32, networkToHost_hostToNetwork (n := 4) e host32⟩,
    ⟨encode_hostToNetwork (n := 8) e host64, networkToHost_hostToNetwork (n := 8) e host64⟩⟩
  rw [hostToNetwork16_eq]
  exact encode_hostToNetwork (n := 2) e port

end

/-! ### The constructors -/

/-- `INADDR_ANY`. -/
def inaddrAny : BitVec 32 := 0

/-- `INADDR_LOOPBACK`. -/
def inaddrLoopback : BitVec 32 := 0x7f000001

/-- `in6addr_any`. -/
def in6addrAny : InAddr .ipv6 := ⟨List.replicate 16 0, rfl⟩

/-- `in6addr_loopback`. -/
def in6addrLoopback : InAddr .ipv6 := ⟨List.replicate 15 0 ++ [1], rfl⟩

section
variable (e : Endian)

/-- An assignment to `sin_addr.s_addr`. -/
def setSAddr (ip : BitVec 32) (a : InetAddress) : InetAddress :=
  a.setAddr (⟨encode (n := 4) e ip, length_encode (n := 4) e ip⟩ : InAddr .ipv4)

/-- `InetAddress::InetAddress(port, family, loopbackOnly)`; `a` is what was in memory before. -/
def ofPort (port family : BitVec 16) (loopbackOnly : Bool) (a : InetAddress) : InetAddress :=
  if family = Family.ipv4.code then
    let ip := if loopbackOnly then inaddrLoopback else inaddrAny
    (setSAddr e (hostToNetwork32 e ip) ((a.zero .ipv4).setFamily e .ipv4)).setPort e port
  else
    let ip := if loopbackOnly then in6addrLoopback else in6addrAny
    (((a.zero .ipv6).setFamily e .ipv6).setAddr ip).setPort e port

/-- `get_netendian_ip`. -/
def getNetendianIp (a : InetAddress) : Except Fault (BitVec 32) :=
  if a.getFamily e = Family.ipv4.code then .ok (decode e 4 (load a.bytes 4 4))
  else .error .assertion

end

/-! ### The memory of an address -/

/-- What the kernel reads where `get_sockaddr` points to. -/
def sockaddr (family : Family) (a : InetAddress) : List Byte := load a.bytes 0 family.sockaddrSize

/-- The fields that no text shows: `sin_zero`, or `sin6_flowinfo` and `sin6_scope_id`. -/
def hidden (family : Family) (a : InetAddress) : List Byte :=
  match family with
  | .ipv4 => load a.bytes 8 8
  | .ipv6 => load a.bytes 4 4 ++ load a.bytes 24 4

section
variable {e : Endian} {a b : InetAddress} {family : Family}

theorem encode16_decode16 {l : List Byte} (h : l.length = 2) : e.encode16 (e.decode16 l) = l := by
  obtain ⟨x, y, rfl⟩ := List.length_eq_two.mp h
  cases e with
  | little =>
    show [low (word y x), high (word y x)] = _
    rw [low_word, high_word]
  | big =>
    show [high (word x y), low (word x y)] = _
    rw [low_word, high_word]

theorem networkToHost16_inj {v w : BitVec 16} :
    e.networkToHost16 v = e.networkToHost16 w ↔ v = w := by
  have hinv : ∀ v, e.hostToNetwork16 (e.networkToHost16 v) = v := by
    cases e with
    | little => exact Endian.networkToHost16_hostToNetwork16 .little
    | big => exact fun _ => rfl
  exact ⟨fun h => (hinv v).symm.trans ((congrArg _ h).trans (hinv w)), congrArg _⟩

theorem length_load_two {i : ℕ} (hi : i + 2 ≤ 28) (a : InetAddress) :
    (load a.bytes i 2).length = 2 :=
  length_load (by rw [a.length_bytes]; exact hi)

theorem decode16_load_iff {i : ℕ} (hi : i + 2 ≤ 28) :
    e.decode16 (load a.bytes i 2) = e.decode16 (load b.bytes i 2) ↔
      load a.bytes i 2 = load b.bytes i 2 := by
  constructor
  · intro h
    rw [← encode16_decode16 (e := e) (length_load_two hi a), h,
      encode16_decode16 (length_load_two hi b)]
  · exact congrArg _

/-- **The memory of a `sockaddr`** is determined by what the accessors return and what is hidden. -/
theorem sockaddr_eq_iff (e : Endian) : sockaddr family a = sockaddr family b ↔
    a.getFamily e = b.getFamily e ∧ a.toPort e = b.toPort e ∧ a.addr family = b.addr family ∧
      hidden family a = hidden family b := by
  have hlen : a.bytes.length = b.bytes.length := a.length_bytes.trans b.length_bytes.symm
  have hfamily : a.getFamily e = b.getFamily e ↔ load a.bytes 0 2 = load b.bytes 0 2 :=
    decode16_load_iff (by decide)
  have hport : a.toPort e = b.toPort e ↔ load a.bytes 2 2 = load b.bytes 2 2 :=
    networkToHost16_inj.trans (decode16_load_iff (by decide))
  have haddr : a.addr family = b.addr family ↔
      load a.bytes family.offset family.size = load b.bytes family.offset family.size :=
    Subtype.ext_iff
  rw [hfamily, hport, haddr]
  cases family with
  | ipv4 =>
    show load a.bytes 0 (2 + (2 + (4 + 8))) = load b.bytes 0 (2 + (2 + (4 + 8))) ↔ _
    rw [load_add_eq_iff hlen, load_add_eq_iff hlen, load_add_eq_iff hlen]
    rfl
  | ipv6 =>
    have hhidden : hidden .ipv6 a = hidden .ipv6 b ↔ load a.bytes 4 4 = load b.bytes 4 4 ∧
        load a.bytes 24 4 = load b.bytes 24 4 := by
      constructor
      · intro h
        refine List.append_inj h ?_
        rw [length_load (by rw [a.length_bytes]; decide),
          length_load (by rw [b.length_bytes]; decide)]
      · rintro ⟨hflow, hscope⟩
        exact congrArg₂ (· ++ ·) hflow hscope
    show load a.bytes 0 (2 + (2 + (4 + (16 + 4)))) = load b.bytes 0 (2 + (2 + (4 + (16 + 4)))) ↔ _
    rw [load_add_eq_iff hlen, load_add_eq_iff hlen, load_add_eq_iff hlen, load_add_eq_iff hlen,
      hhidden]
    tauto

/-! ### What is hidden -/

/-- An assignment before the address. -/
theorem hidden_set {i : ℕ} {x : List Byte} (h : i + x.length ≤ 28) (hi : i + x.length ≤ 4) :
    hidden family (a.set i x h) = hidden family a := by
  have hload : ∀ j n, 4 ≤ j → load (a.set i x h).bytes j n = load a.bytes j n := fun j n hj =>
    load_store_above (hi.trans hj) (by rw [a.length_bytes]; exact h)
  cases family with
  | ipv4 => exact hload 8 8 (by decide)
  | ipv6 => exact congrArg₂ (· ++ ·) (hload 4 4 (by decide)) (hload 24 4 (by decide))

theorem hidden_setFamily : hidden family (a.setFamily e family) = hidden family a :=
  hidden_set _ (by rw [Endian.length_encode16]; decide)

theorem hidden_setPort (port : BitVec 16) : hidden family (a.setPort e port) = hidden family a :=
  hidden_set _ (by rw [Endian.length_encode16])

theorem hidden_setAddr (addr : InAddr family) :
    hidden family (a.setAddr addr) = hidden family a := by
  have hlen := addr.2
  cases family with
  | ipv4 =>
    exact load_store_above (by rw [hlen]; decide) (by rw [hlen, a.length_bytes]; decide)
  | ipv6 =>
    exact congrArg₂ (· ++ ·) (load_store_below (by decide) (by rw [a.length_bytes]; decide))
      (load_store_above (by rw [hlen]; decide) (by rw [hlen, a.length_bytes]; decide))

theorem length_hidden (a : InetAddress) : (hidden family a).length = 8 := by
  cases family with
  | ipv4 => exact length_load (by rw [a.length_bytes]; decide)
  | ipv6 =>
    have hflow : (load a.bytes 4 4).length = 4 := length_load (by rw [a.length_bytes]; decide)
    have hscope : (load a.bytes 24 4).length = 4 := length_load (by rw [a.length_bytes])
    exact List.length_append.trans (congrArg₂ (· + ·) hflow hscope)

theorem hidden_zero (a : InetAddress) : ∀ x ∈ hidden family (a.zero family), x = 0 := by
  have hload : ∀ i n, i + n ≤ family.sockaddrSize →
      ∀ x ∈ load (a.zero family).bytes i n, x = 0 := by
    intro i n hin x hx
    have hstart : load (a.zero family).bytes i n =
        load (List.replicate family.sockaddrSize 0) i n :=
      load_store_start (by rw [List.length_replicate]; exact hin)
    rw [hstart] at hx
    exact List.eq_of_mem_replicate (List.mem_of_mem_drop (List.mem_of_mem_take hx))
  cases family with
  | ipv4 => exact hload 8 8 (by decide)
  | ipv6 =>
    intro x hx
    rcases List.mem_append.mp hx with hflow | hscope
    · exact hload 4 4 (by decide) x hflow
    · exact hload 24 4 (by decide) x hscope

/-- Against an address that hides nothing. -/
theorem hidden_eq_iff (hb : ∀ x ∈ hidden family b, x = 0) :
    hidden family b = hidden family a ↔ ∀ x ∈ hidden family a, x = 0 := by
  have hzero : hidden family b = List.replicate 8 0 :=
    List.eq_replicate_iff.mpr ⟨length_hidden b, hb⟩
  rw [hzero, eq_comm, List.eq_replicate_iff]
  exact and_iff_right (length_hidden a)

/-! ### Reading back -/

section
variable {libc : Libc}

/-- What the constructor from a text makes of the text of an address. -/
theorem ofText_print (hdoc : Documented libc family) (e : Endian) (addr : InAddr family)
    (port : BitVec 16) (memory : InetAddress) :
    ∃ b, ofText libc e (libc.print family addr) port family.code memory = .ok b ∧
      b.getFamily e = family.code ∧ b.toPort e = port ∧ b.addr family = addr ∧
      ∀ x ∈ hidden family b, x = 0 := by
  have hstr : cStr (libc.print family addr) = libc.print family addr :=
    takeWhile_of_not_mem (hdoc.noNul addr)
  refine ⟨(((memory.zero family).setFamily e family).setPort e port).setAddr addr, ?_, ?_, ?_,
    addr_setAddr addr, ?_⟩
  · rw [ofText_eq, hstr, hdoc.parse_print]
    rfl
  · rw [getFamily_setAddr, getFamily_setPort, getFamily_setFamily]
  · rw [toPort_setAddr, toPort_setPort]
  · rw [hidden_setAddr, hidden_setPort, hidden_setFamily]
    exact hidden_zero memory

/-- **The text of an address, read back.** Cut at its last colon it is the text of the IP address
and the port; the constructor makes of them the same address, whatever was in memory; and the memory
of its `sockaddr` is the same if and only if the hidden fields are zero. -/
theorem reads_back (hdoc : Documented libc family) (hfamily : a.getFamily e = family.code)
    (memory : InetAddress) : ∃ text ip b, a.toIpAndPort libc e = .ok text ∧
      splitLast ':' text = some (ip, decimal (a.toPort e).toNat) ∧
      read 10 digitOf (decimal (a.toPort e).toNat) = some (a.toPort e).toNat ∧
      ofText libc e ip (a.toPort e) family.code memory = .ok b ∧
      b.getFamily e = a.getFamily e ∧ b.toPort e = a.toPort e ∧ b.addr family = a.addr family ∧
      (sockaddr family b = sockaddr family a ↔ ∀ x ∈ hidden family a, x = 0) := by
  obtain ⟨b, hb, hbfamily, hbport, hbaddr, hbzero⟩ :=
    ofText_print hdoc e (a.addr family) (a.toPort e) memory
  have hcolon : ':' ∉ decimal (a.toPort e).toNat := not_mem_decimal (by decide) _
  refine ⟨_, libc.print family (a.addr family), b, toIpAndPort_eq hdoc hfamily,
    splitLast_append hcolon, read_decimal _, hb, hbfamily.trans hfamily.symm, hbport, hbaddr, ?_⟩
  rw [sockaddr_eq_iff e, hidden_eq_iff hbzero]
  constructor
  · rintro ⟨-, -, -, hzero⟩
    exact hzero
  · intro hzero
    exact ⟨hbfamily.trans hfamily.symm, hbport, hbaddr, hzero⟩

end

end

/-- `InetAddress("10.0.0.1", 9002)` in the memory of a host whose byte order is little endian. -/
def fromText : InetAddress where
  bytes := [2, 0, 35, 42, 10, 0, 0, 1] ++ List.replicate 20 0
  length_bytes := rfl

theorem reads_back_10_0_0_1 : ∃ text ip b, fromText.toIpAndPort dotted .little = .ok text ∧
    splitLast ':' text = some (ip, decimal (fromText.toPort .little).toNat) ∧
    read 10 digitOf (decimal (fromText.toPort .little).toNat) =
      some (fromText.toPort .little).toNat ∧
    ofText dotted .little ip (fromText.toPort .little) Family.ipv4.code garbage = .ok b ∧
    b.getFamily .little = fromText.getFamily .little ∧
    b.toPort .little = fromText.toPort .little ∧ b.addr .ipv4 = fromText.addr .ipv4 ∧
    (sockaddr .ipv4 b = sockaddr .ipv4 fromText ↔ ∀ x ∈ hidden .ipv4 fromText, x = 0) :=
  reads_back documented_dotted (by decide) garbage

/-! ### A port -/

section
variable (e : Endian)

/-- The family that the constructor takes the parameter for. -/
def familyOf (code : BitVec 16) : Family := if code = Family.ipv4.code then .ipv4 else .ipv6

/-- The address of the loopback or that of any interface. -/
def ipOf (loopbackOnly : Bool) : (family : Family) → InAddr family
  | .ipv4 => ⟨if loopbackOnly then [127, 0, 0, 1] else [0, 0, 0, 0], by cases loopbackOnly <;> rfl⟩
  | .ipv6 => if loopbackOnly then in6addrLoopback else in6addrAny

theorem encode_inaddr (loopbackOnly : Bool) :
    encode (n := 4) e (hostToNetwork32 e (if loopbackOnly then inaddrLoopback else inaddrAny)) =
      (ipOf loopbackOnly .ipv4).1 := by
  refine (encode_hostToNetwork (n := 4) e _).trans ?_
  cases loopbackOnly <;> decide +kernel

theorem setSAddr_inaddr (loopbackOnly : Bool) (a : InetAddress) :
    setSAddr e (hostToNetwork32 e (if loopbackOnly then inaddrLoopback else inaddrAny)) a =
      a.setAddr (ipOf loopbackOnly .ipv4) :=
  congrArg (fun ip : InAddr .ipv4 => a.setAddr ip) (Subtype.ext (encode_inaddr e loopbackOnly))

/-- What the constructor does. -/
theorem ofPort_eq (port code : BitVec 16) (loopbackOnly : Bool) (memory : InetAddress) :
    ofPort e port code loopbackOnly memory =
      (((memory.zero (familyOf code)).setFamily e (familyOf code)).setAddr
        (ipOf loopbackOnly (familyOf code))).setPort e port := by
  unfold ofPort familyOf
  by_cases hcode : code = Family.ipv4.code
  · rw [if_pos hcode, if_pos hcode]
    exact congrArg (setPort e port) (setSAddr_inaddr e loopbackOnly _)
  · rw [if_neg hcode, if_neg hcode]
    rfl

theorem addr_setPort {family : Family} (port : BitVec 16) (a : InetAddress) :
    (a.setPort e port).addr family = a.addr family := by
  have hoffset : 4 ≤ family.offset := by cases family <;> decide
  refine Subtype.ext (load_store_above ?_ ?_)
  · rw [Endian.length_encode16]
    exact hoffset
  · rw [Endian.length_encode16, a.length_bytes]
    decide

/-- The port is in the order of the network. -/
theorem load_setPort (port : BitVec 16) (a : InetAddress) :
    load (a.setPort e port).bytes 2 2 = [high port, low port] := by
  have hload : load (a.setPort e port).bytes 2 2 = e.encode16 (e.hostToNetwork16 port) := by
    have hroom : 2 + (e.encode16 (e.hostToNetwork16 port)).length ≤ a.bytes.length := by
      rw [Endian.length_encode16, a.length_bytes]
      decide
    have hstore := load_store hroom
    rwa [Endian.length_encode16] at hstore
  rw [hload, encode16_eq, hostToNetwork16_eq]
  exact (encode_hostToNetwork (n := 2) e port).trans (congrArg List.reverse (bytes_eq port))

/-- The number that `get_netendian_ip` reads. -/
theorem getNetendianIp_of_addr {a : InetAddress} {loopbackOnly : Bool}
    (hfamily : a.getFamily e = Family.ipv4.code) (haddr : a.addr .ipv4 = ipOf loopbackOnly .ipv4) :
    getNetendianIp e a =
      .ok (hostToNetwork32 e (if loopbackOnly then inaddrLoopback else inaddrAny)) := by
  have hload : load a.bytes 4 4 = (ipOf loopbackOnly .ipv4).1 := congrArg Subtype.val haddr
  unfold getNetendianIp
  rw [if_pos hfamily, hload, ← encode_inaddr]
  exact congrArg Except.ok (decode_encode (n := 4) e _)

/-- **An address from a port**, on a host of either byte order. The family is the one that is asked
for, every one but `AF_INET` being taken for IPv6; the port is in memory with its high byte first;
the address is that of the loopback or of any interface; nothing is hidden. `get_netendian_ip` gives
the address of IPv4 and fails for IPv6. And the texts of the address and the port make the same
`sockaddr`, byte for byte. -/
theorem ofPort_ok (port code : BitVec 16) (loopbackOnly : Bool) (memory : InetAddress) :
    let family := familyOf code
    let a := ofPort e port code loopbackOnly memory
    a.getFamily e = family.code ∧ load a.bytes 2 2 = [high port, low port] ∧ a.toPort e = port ∧
      a.addr family = ipOf loopbackOnly family ∧ (∀ x ∈ hidden family a, x = 0) ∧
      (family = .ipv4 → (getNetendianIp e a).map (networkToHost32 e) =
        .ok (if loopbackOnly then inaddrLoopback else inaddrAny)) ∧
      (family = .ipv6 → getNetendianIp e a = .error .assertion) ∧
      ∀ libc, Documented libc family → ∀ memory', ∃ ip b, a.toIp libc e = .ok ip ∧
        ofText libc e ip port family.code memory' = .ok b ∧
        sockaddr family b = sockaddr family a := by
  intro family a
  have ha : a = (((memory.zero family).setFamily e family).setAddr
      (ipOf loopbackOnly family)).setPort e port := ofPort_eq e port code loopbackOnly memory
  have hfamily : a.getFamily e = family.code := by
    rw [ha, getFamily_setPort, getFamily_setAddr, getFamily_setFamily]
  have hport : a.toPort e = port := by rw [ha, toPort_setPort]
  have haddr : a.addr family = ipOf loopbackOnly family := by rw [ha, addr_setPort, addr_setAddr]
  have hzero : ∀ x ∈ hidden family a, x = 0 := by
    rw [ha, hidden_setPort, hidden_setAddr, hidden_setFamily]
    exact hidden_zero memory
  refine ⟨hfamily, ?_, hport, haddr, hzero, fun h4 => ?_, fun h6 => ?_, fun libc hdoc memory' => ?_⟩
  · rw [ha, load_setPort]
  · rw [h4] at hfamily haddr
    rw [getNetendianIp_of_addr e hfamily haddr]
    exact congrArg Except.ok (networkToHost_hostToNetwork (n := 4) e _)
  · unfold getNetendianIp
    rw [hfamily, h6]
    exact if_neg (by decide)
  · obtain ⟨b, hb, hbfamily, hbport, hbaddr, hbzero⟩ :=
      ofText_print hdoc e (a.addr family) port memory'
    refine ⟨_, b, toIp_eq hdoc hfamily, hb, (sockaddr_eq_iff e).mpr ⟨?_, ?_, hbaddr, ?_⟩⟩
    · rw [hbfamily, hfamily]
    · rw [hbport, hport]
    · exact (hidden_eq_iff hbzero).mpr hzero

end

/-- An address for the loopback, which is 127.0.0.1 for `inet_ntop` and `inet_pton`. -/
theorem ofPort_ok_loopback : let a := ofPort .little 9002 Family.ipv4.code true garbage
    a.getFamily .little = Family.ipv4.code ∧ load a.bytes 2 2 = [35, 42] ∧
      a.toPort .little = 9002 ∧ a.addr .ipv4 = ipOf true .ipv4 ∧
      (∀ x ∈ hidden .ipv4 a, x = 0) ∧
      (getNetendianIp .little a).map (networkToHost32 .little) = .ok inaddrLoopback ∧
      ∃ ip b, a.toIp dotted .little = .ok ip ∧
        ofText dotted .little ip 9002 Family.ipv4.code garbage = .ok b ∧
        sockaddr .ipv4 b = sockaddr .ipv4 a := by
  obtain ⟨hfamily, hport, hread, haddr, hzero, hip, -, htext⟩ :=
    ofPort_ok .little 9002 Family.ipv4.code true garbage
  exact ⟨hfamily, hport, hread, haddr, hzero, hip rfl, htext dotted documented_dotted garbage⟩

end ToolsCxx.Socket.Ports
