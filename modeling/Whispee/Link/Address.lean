import Whispee.Lib.Subnet

/-!
# The addresses a link may lead to

`addr_allowed` of `apps/desktop/src/link.rs`, with the predicates of `std::net` it tests, and the
blocks they keep out.
-/

namespace Whispee.Link

structure Ipv4Addr where
  a : UInt8
  b : UInt8
  c : UInt8
  d : UInt8
  deriving DecidableEq

/-- By its segments. -/
structure Ipv6Addr where
  a : UInt16
  b : UInt16
  c : UInt16
  d : UInt16
  e : UInt16
  f : UInt16
  g : UInt16
  h : UInt16
  deriving DecidableEq

inductive IpAddr where
  | v4 (ip : Ipv4Addr)
  | v6 (ip : Ipv6Addr)
  deriving DecidableEq

namespace Ipv4Addr

variable (ip : Ipv4Addr)

def isPrivate : Bool :=
  ip.a = 10 || (ip.a = 172 && 16 ≤ ip.b && ip.b ≤ 31) || (ip.a = 192 && ip.b = 168)

def isLoopback : Bool := ip.a = 127

def isLinkLocal : Bool := ip.a = 169 && ip.b = 254

def isMulticast : Bool := 224 ≤ ip.a && ip.a ≤ 239

def isBroadcast : Bool := ip = ⟨255, 255, 255, 255⟩

def isUnspecified : Bool := ip = ⟨0, 0, 0, 0⟩

def isDocumentation : Bool :=
  (ip.a = 192 && ip.b = 0 && ip.c = 2) || (ip.a = 198 && ip.b = 51 && ip.c = 100) ||
    (ip.a = 203 && ip.b = 0 && ip.c = 113)

end Ipv4Addr

namespace Ipv6Addr

variable (ip : Ipv6Addr)

def isLoopback : Bool := ip = ⟨0, 0, 0, 0, 0, 0, 0, 1⟩

def isMulticast : Bool := ip.a &&& 0xff00 = 0xff00

def isUnspecified : Bool := ip = ⟨0, 0, 0, 0, 0, 0, 0, 0⟩

def toIpv4Mapped : Option Ipv4Addr :=
  if ip.a = 0 ∧ ip.b = 0 ∧ ip.c = 0 ∧ ip.d = 0 ∧ ip.e = 0 ∧ ip.f = 0xffff then
    some ⟨(ip.g >>> 8).toUInt8, ip.g.toUInt8, (ip.h >>> 8).toUInt8, ip.h.toUInt8⟩
  else none

end Ipv6Addr

def v4Allowed (ip : Ipv4Addr) : Bool :=
  if ip.isPrivate || ip.isLoopback || ip.isLinkLocal then false
  else if ip.isMulticast || ip.isBroadcast || ip.isUnspecified || ip.isDocumentation then false
  -- 100.64/10, carrier-grade NAT.
  else if ip.a = 100 && (64 ≤ ip.b && ip.b ≤ 127) then false
  else if ip.a = 0 then false
  else if 240 ≤ ip.a then false
  else true

def v6Allowed (ip : Ipv6Addr) : Bool :=
  if ip.isLoopback || ip.isMulticast || ip.isUnspecified then false
  else if ip.a &&& 0xffc0 = 0xfe80 then false
  else if ip.a &&& 0xfe00 = 0xfc00 then false
  else if ip.a = 0x2001 && ip.b = 0x0db8 then false
  else true

/-- Whether we are willing to open a connection to this address. -/
def addrAllowed : IpAddr → Bool
  | .v4 v4 => v4Allowed v4
  | .v6 v6 =>
    match v6.toIpv4Mapped with
    | some v4 => v4Allowed v4
    | none => v6Allowed v6

/-! ## What is kept out -/

def Ipv4Addr.toNat (ip : Ipv4Addr) : Nat :=
  ((ip.a.toNat * 2 ^ 8 + ip.b.toNat) * 2 ^ 8 + ip.c.toNat) * 2 ^ 8 + ip.d.toNat

/-- Its first six segments. -/
def Ipv6Addr.high (ip : Ipv6Addr) : Nat :=
  ((((ip.a.toNat * 2 ^ 16 + ip.b.toNat) * 2 ^ 16 + ip.c.toNat) * 2 ^ 16 + ip.d.toNat) * 2 ^ 16 +
    ip.e.toNat) * 2 ^ 16 + ip.f.toNat

def Ipv6Addr.low (ip : Ipv6Addr) : Nat := ip.g.toNat * 2 ^ 16 + ip.h.toNat

def Ipv6Addr.toNat (ip : Ipv6Addr) : Nat := ip.high * 2 ^ 32 + ip.low

/-- `a.b.c.d/bits` -/
def v4Block (a b c d bits : Nat) : Subnet 32 where
  base := ((a * 2 ^ 8 + b) * 2 ^ 8 + c) * 2 ^ 8 + d
  bits := bits

/-- Private, local, administrative or reserved, in the order they are tested. -/
def REFUSED_V4 : List (Subnet 32) :=
  [v4Block 10 0 0 0 8, v4Block 172 16 0 0 12, v4Block 192 168 0 0 16, v4Block 127 0 0 0 8,
    v4Block 169 254 0 0 16, v4Block 224 0 0 0 4, v4Block 255 255 255 255 32, v4Block 0 0 0 0 32,
    v4Block 192 0 2 0 24, v4Block 198 51 100 0 24, v4Block 203 0 113 0 24, v4Block 100 64 0 0 10,
    v4Block 0 0 0 0 8, v4Block 240 0 0 0 4]

/-- `first:second::/bits` -/
def v6Block (first second bits : Nat) : Subnet 128 where
  base := first * 2 ^ 112 + second * 2 ^ 96
  bits := bits

def REFUSED_V6 : List (Subnet 128) :=
  [⟨1, 128⟩, v6Block 0xff00 0 8, ⟨0, 128⟩, v6Block 0xfe80 0 10, v6Block 0xfc00 0 7,
    v6Block 0x2001 0x0db8 32]

/-- What `addrAllowed` is for. `::ffff:0:0/96` is the mapped form. -/
def Refused : IpAddr → Prop
  | .v4 ip => ∃ block ∈ REFUSED_V4, ip.toNat ∈ block
  | .v6 ip => ∃ block ∈ REFUSED_V6 ++ REFUSED_V4.map (.under 0xffff 96), ip.toNat ∈ block

namespace Ipv4Addr

variable {ip : Ipv4Addr}

theorem div_eq : ip.toNat / 2 ^ 24 = ip.a.toNat ∧
    ip.toNat / 2 ^ 16 = ip.a.toNat * 2 ^ 8 + ip.b.toNat := by
  have hb := ip.b.toNat_lt
  have hc := ip.c.toNat_lt
  have hd := ip.d.toNat_lt
  unfold toNat
  omega

/-- A block of a part of the first octets. -/
theorem mem_first_iff (hk : k ≤ 8) :
    ip.toNat ∈ v4Block n 0 0 0 (8 - k) ↔ ip.a.toNat / 2 ^ k = n / 2 ^ k := by
  have hpow : 2 ^ (32 - (8 - k)) = 2 ^ 24 * 2 ^ k := by
    rw [← Nat.pow_add]
    congr 1
    omega
  have hbase : (((n * 2 ^ 8 + 0) * 2 ^ 8 + 0) * 2 ^ 8 + 0) / 2 ^ 24 = n := by omega
  rw [Subnet.mem_iff, v4Block, hpow, ← Nat.div_div_eq_div_mul, ← Nat.div_div_eq_div_mul, div_eq.1,
    hbase]

/-- A block of a part of the second octets. -/
theorem mem_second_iff (hk : k ≤ 8) (hm : m < 2 ^ 8) :
    ip.toNat ∈ v4Block n m 0 0 (16 - k) ↔ ip.a.toNat = n ∧ ip.b.toNat / 2 ^ k = m / 2 ^ k := by
  have hpow : 2 ^ (32 - (16 - k)) = 2 ^ 16 * 2 ^ k := by
    rw [← Nat.pow_add]
    congr 1
    omega
  have hbase : (((n * 2 ^ 8 + m) * 2 ^ 8 + 0) * 2 ^ 8 + 0) / 2 ^ 16 = n * 2 ^ 8 + m := by omega
  have hunder : ip.a.toNat * 2 ^ 8 + ip.b.toNat ∈ Subnet.under n 8 (⟨m, 8 - k⟩ : Subnet 8) ↔
      ip.a.toNat = n ∧ ip.b.toNat ∈ (⟨m, 8 - k⟩ : Subnet 8) :=
    Subnet.mem_under_iff (Nat.sub_le ..) ip.b.toNat_lt hm
  have hbits : 8 + 8 - (8 + (8 - k)) = k := by omega
  rw [Subnet.mem_iff, Subnet.mem_iff, Subnet.under, hbits, Nat.sub_sub_self hk] at hunder
  rw [Subnet.mem_iff, v4Block, hpow, ← Nat.div_div_eq_div_mul, ← Nat.div_div_eq_div_mul, div_eq.2,
    hbase, hunder]

theorem mem_slash24_iff (hm : m < 2 ^ 8) (hl : l < 2 ^ 8) :
    ip.toNat ∈ v4Block n m l 0 24 ↔ ip.a.toNat = n ∧ ip.b.toNat = m ∧ ip.c.toNat = l := by
  have hb := ip.b.toNat_lt
  have hc := ip.c.toNat_lt
  have hd := ip.d.toNat_lt
  simp only [Subnet.mem_iff, v4Block, toNat]
  omega

theorem mem_slash32_iff {other : Ipv4Addr} :
    ip.toNat ∈ v4Block other.a.toNat other.b.toNat other.c.toNat other.d.toNat 32 ↔
      ip = other := by
  obtain ⟨a, b, c, d⟩ := ip
  obtain ⟨a', b', c', d'⟩ := other
  have hb := b.toNat_lt
  have hc := c.toNat_lt
  have hd := d.toNat_lt
  have hb' := b'.toNat_lt
  have hc' := c'.toNat_lt
  have hd' := d'.toNat_lt
  simp only [Subnet.mem_iff, v4Block, toNat, mk.injEq, ← UInt8.toNat_inj]
  omega

theorem mem_slash8_iff : ip.toNat ∈ v4Block n 0 0 0 8 ↔ ip.a.toNat = n := by
  have h : ip.toNat ∈ v4Block n 0 0 0 8 ↔ ip.a.toNat / 2 ^ 0 = n / 2 ^ 0 :=
    mem_first_iff (Nat.zero_le 8)
  rwa [Nat.pow_zero, Nat.div_one, Nat.div_one] at h

theorem mem_slash16_iff (hm : m < 2 ^ 8) :
    ip.toNat ∈ v4Block n m 0 0 16 ↔ ip.a.toNat = n ∧ ip.b.toNat = m := by
  have h : ip.toNat ∈ v4Block n m 0 0 16 ↔ ip.a.toNat = n ∧ ip.b.toNat / 2 ^ 0 = m / 2 ^ 0 :=
    mem_second_iff (Nat.zero_le 8) hm
  rwa [Nat.pow_zero, Nat.div_one, Nat.div_one] at h

theorem isPrivate_iff : ip.isPrivate = true ↔ ip.toNat ∈ v4Block 10 0 0 0 8 ∨
    ip.toNat ∈ v4Block 172 16 0 0 12 ∨ ip.toNat ∈ v4Block 192 168 0 0 16 := by
  have hsplit : ip.toNat ∈ v4Block 172 16 0 0 12 ↔ ip.a.toNat = 172 ∧ ip.b.toNat / 2 ^ 4 = 1 :=
    mem_second_iff (k := 4) (m := 16) (by decide) (by decide)
  rw [mem_slash8_iff, hsplit, mem_slash16_iff (by decide)]
  simp only [isPrivate, Bool.or_eq_true, Bool.and_eq_true, decide_eq_true_eq, ← UInt8.toNat_inj,
    UInt8.le_iff_toNat_le, UInt8.reduceToNat]
  omega

theorem isLoopback_iff : ip.isLoopback = true ↔ ip.toNat ∈ v4Block 127 0 0 0 8 := by
  rw [mem_slash8_iff, isLoopback, decide_eq_true_eq, ← UInt8.toNat_inj]
  rfl

theorem isLinkLocal_iff : ip.isLinkLocal = true ↔ ip.toNat ∈ v4Block 169 254 0 0 16 := by
  rw [mem_slash16_iff (by decide), isLinkLocal, Bool.and_eq_true, decide_eq_true_eq,
    decide_eq_true_eq, ← UInt8.toNat_inj, ← UInt8.toNat_inj]
  rfl

theorem isMulticast_iff : ip.isMulticast = true ↔ ip.toNat ∈ v4Block 224 0 0 0 4 := by
  have hfirst : ip.toNat ∈ v4Block 224 0 0 0 4 ↔ ip.a.toNat / 2 ^ 4 = 224 / 2 ^ 4 :=
    mem_first_iff (k := 4) (by decide)
  rw [hfirst, isMulticast, Bool.and_eq_true, decide_eq_true_eq, decide_eq_true_eq,
    UInt8.le_iff_toNat_le, UInt8.le_iff_toNat_le]
  simp only [UInt8.reduceToNat]
  omega

theorem isBroadcast_iff : ip.isBroadcast = true ↔ ip.toNat ∈ v4Block 255 255 255 255 32 := by
  rw [isBroadcast, decide_eq_true_eq]
  exact mem_slash32_iff.symm

theorem isUnspecified_iff : ip.isUnspecified = true ↔ ip.toNat ∈ v4Block 0 0 0 0 32 := by
  rw [isUnspecified, decide_eq_true_eq]
  exact mem_slash32_iff.symm

theorem isDocumentation_iff : ip.isDocumentation = true ↔ ip.toNat ∈ v4Block 192 0 2 0 24 ∨
    ip.toNat ∈ v4Block 198 51 100 0 24 ∨ ip.toNat ∈ v4Block 203 0 113 0 24 := by
  rw [mem_slash24_iff (by decide) (by decide), mem_slash24_iff (by decide) (by decide),
    mem_slash24_iff (by decide) (by decide)]
  simp only [isDocumentation, Bool.or_eq_true, Bool.and_eq_true, decide_eq_true_eq,
    ← UInt8.toNat_inj, UInt8.reduceToNat, and_assoc, or_assoc]

end Ipv4Addr

theorem v4Allowed_eq_false_iff {ip : Ipv4Addr} : v4Allowed ip = false ↔ Refused (.v4 ip) := by
  have hshared : (ip.a = 100 ∧ 64 ≤ ip.b ∧ ip.b ≤ 127) ↔ ip.toNat ∈ v4Block 100 64 0 0 10 := by
    have hsplit : ip.toNat ∈ v4Block 100 64 0 0 10 ↔
        ip.a.toNat = 100 ∧ ip.b.toNat / 2 ^ 6 = 1 :=
      Ipv4Addr.mem_second_iff (k := 6) (m := 64) (by decide) (by decide)
    rw [hsplit, ← UInt8.toNat_inj, UInt8.le_iff_toNat_le, UInt8.le_iff_toNat_le]
    simp only [UInt8.reduceToNat]
    omega
  have hzero : ip.a = 0 ↔ ip.toNat ∈ v4Block 0 0 0 0 8 := by
    rw [Ipv4Addr.mem_slash8_iff, ← UInt8.toNat_inj]
    rfl
  have hreserved : 240 ≤ ip.a ↔ ip.toNat ∈ v4Block 240 0 0 0 4 := by
    have hfirst : ip.toNat ∈ v4Block 240 0 0 0 4 ↔ ip.a.toNat / 2 ^ 4 = 15 :=
      Ipv4Addr.mem_first_iff (k := 4) (n := 240) (by decide)
    have ha := ip.a.toNat_lt
    rw [hfirst, UInt8.le_iff_toNat_le]
    simp only [UInt8.reduceToNat]
    omega
  have htested : v4Allowed ip = false ↔ ip.isPrivate = true ∨ ip.isLoopback = true ∨
      ip.isLinkLocal = true ∨ ip.isMulticast = true ∨ ip.isBroadcast = true ∨
      ip.isUnspecified = true ∨ ip.isDocumentation = true ∨
      (ip.a = 100 ∧ 64 ≤ ip.b ∧ ip.b ≤ 127) ∨ ip.a = 0 ∨ 240 ≤ ip.a := by
    unfold v4Allowed
    grind
  rw [htested, Ipv4Addr.isPrivate_iff, Ipv4Addr.isLoopback_iff, Ipv4Addr.isLinkLocal_iff,
    Ipv4Addr.isMulticast_iff, Ipv4Addr.isBroadcast_iff, Ipv4Addr.isUnspecified_iff,
    Ipv4Addr.isDocumentation_iff, hshared, hzero, hreserved]
  simp only [Refused, REFUSED_V4, List.mem_cons, List.not_mem_nil, or_false, exists_eq_or_imp,
    exists_eq_left, or_assoc]

namespace Ipv6Addr

variable {ip : Ipv6Addr}

theorem low_lt : ip.low < 2 ^ 32 := by
  have hg := ip.g.toNat_lt
  have hh := ip.h.toNat_lt
  unfold low
  omega

theorem div_eq : ip.toNat / 2 ^ 112 = ip.a.toNat ∧
    ip.toNat / 2 ^ 96 = ip.a.toNat * 2 ^ 16 + ip.b.toNat := by
  have hb := ip.b.toNat_lt
  have hc := ip.c.toNat_lt
  have hd := ip.d.toNat_lt
  have he := ip.e.toNat_lt
  have hf := ip.f.toNat_lt
  have hlow := ip.low_lt
  unfold toNat high
  omega

/-- A block of a part of the first segments. -/
theorem mem_first_iff (hk : k ≤ 16) :
    ip.toNat ∈ v6Block n 0 (16 - k) ↔ ip.a.toNat / 2 ^ k = n / 2 ^ k := by
  have hpow : 2 ^ (128 - (16 - k)) = 2 ^ 112 * 2 ^ k := by
    rw [← Nat.pow_add]
    congr 1
    omega
  have hbase : (n * 2 ^ 112 + 0 * 2 ^ 96) / 2 ^ 112 = n := by omega
  rw [Subnet.mem_iff, v6Block, hpow, ← Nat.div_div_eq_div_mul, ← Nat.div_div_eq_div_mul, div_eq.1,
    hbase]

/-- The mask of what is not among the last `low` bits of the first segment. -/
theorem masked_iff {mask value : UInt16} (hmask : mask.toNat = 2 ^ k * (2 ^ (16 - k) - 1))
    (hk : k ≤ 16) (hvalue : value.toNat = 2 ^ k * n) :
    ip.a &&& mask = value ↔ ip.toNat ∈ v6Block value.toNat 0 (16 - k) := by
  have ha : ip.a.toNat < 2 ^ (k + (16 - k)) := by
    rw [Nat.add_sub_cancel' hk]
    exact ip.a.toNat_lt
  rw [mem_first_iff hk, ← UInt16.toNat_inj, UInt16.toNat_and, hmask, Subnet.and_mask ha, hvalue,
    Nat.mul_div_cancel_left _ (Nat.two_pow_pos k), Nat.mul_right_inj (Nat.two_pow_pos k).ne']

theorem high_inj {other : Ipv6Addr} (h : ip.high = other.high) :
    ip.a = other.a ∧ ip.b = other.b ∧ ip.c = other.c ∧ ip.d = other.d ∧ ip.e = other.e ∧
      ip.f = other.f := by
  have hb := ip.b.toNat_lt
  have hc := ip.c.toNat_lt
  have hd := ip.d.toNat_lt
  have he := ip.e.toNat_lt
  have hf := ip.f.toNat_lt
  have hb' := other.b.toNat_lt
  have hc' := other.c.toNat_lt
  have hd' := other.d.toNat_lt
  have he' := other.e.toNat_lt
  have hf' := other.f.toNat_lt
  unfold high at h
  simp only [← UInt16.toNat_inj]
  omega

theorem toNat_inj {other : Ipv6Addr} : ip.toNat = other.toNat ↔ ip = other := by
  refine ⟨fun h => ?_, fun h => h ▸ rfl⟩
  have hlow := ip.low_lt
  have hlow' := other.low_lt
  unfold toNat at h
  obtain ⟨ha, hb, hc, hd, he, hf⟩ := high_inj (show ip.high = other.high by omega)
  have hlow : ip.low = other.low := by omega
  have hh := ip.h.toNat_lt
  have hh' := other.h.toNat_lt
  unfold low at hlow
  have hg : ip.g.toNat = other.g.toNat := by omega
  have hh : ip.h.toNat = other.h.toNat := by omega
  cases ip
  cases other
  exact (mk.injEq ..).mpr ⟨ha, hb, hc, hd, he, hf, UInt16.toNat_inj.1 hg, UInt16.toNat_inj.1 hh⟩

theorem mem_slash128_iff {other : Ipv6Addr} :
    ip.toNat ∈ (⟨other.toNat, 128⟩ : Subnet 128) ↔ ip = other := by
  rw [Subnet.mem_iff, Nat.sub_self, Nat.pow_zero, Nat.div_one, Nat.div_one]
  exact toNat_inj

theorem isLoopback_iff : ip.isLoopback = true ↔ ip.toNat ∈ (⟨1, 128⟩ : Subnet 128) := by
  rw [isLoopback, decide_eq_true_eq]
  exact mem_slash128_iff.symm

theorem isUnspecified_iff : ip.isUnspecified = true ↔ ip.toNat ∈ (⟨0, 128⟩ : Subnet 128) := by
  rw [isUnspecified, decide_eq_true_eq]
  exact mem_slash128_iff.symm

theorem isMulticast_iff : ip.isMulticast = true ↔ ip.toNat ∈ v6Block 0xff00 0 8 := by
  rw [isMulticast, decide_eq_true_eq]
  exact masked_iff (k := 8) (n := 0xff) (by decide) (by decide) (by decide)

theorem documentation_iff :
    ip.a = 0x2001 ∧ ip.b = 0x0db8 ↔ ip.toNat ∈ v6Block 0x2001 0x0db8 32 := by
  have hb := ip.b.toNat_lt
  rw [Subnet.mem_iff, show 128 - (v6Block 0x2001 0x0db8 32).bits = 96 from rfl, div_eq.2,
    ← UInt16.toNat_inj, ← UInt16.toNat_inj]
  simp only [v6Block, UInt16.reduceToNat]
  omega

end Ipv6Addr

theorem v6Allowed_eq_false_iff {ip : Ipv6Addr} :
    v6Allowed ip = false ↔ ∃ block ∈ REFUSED_V6, ip.toNat ∈ block := by
  have hlinkLocal : ip.a &&& 0xffc0 = 0xfe80 ↔ ip.toNat ∈ v6Block 0xfe80 0 10 :=
    Ipv6Addr.masked_iff (k := 6) (n := 0x3fa) (by decide) (by decide) (by decide)
  have hlocal : ip.a &&& 0xfe00 = 0xfc00 ↔ ip.toNat ∈ v6Block 0xfc00 0 7 :=
    Ipv6Addr.masked_iff (k := 9) (n := 0x7e) (by decide) (by decide) (by decide)
  have htested : v6Allowed ip = false ↔ ip.isLoopback = true ∨ ip.isMulticast = true ∨
      ip.isUnspecified = true ∨ ip.a &&& 0xffc0 = 0xfe80 ∨ ip.a &&& 0xfe00 = 0xfc00 ∨
      (ip.a = 0x2001 ∧ ip.b = 0x0db8) := by
    unfold v6Allowed
    grind
  rw [htested, Ipv6Addr.isLoopback_iff, Ipv6Addr.isMulticast_iff, Ipv6Addr.isUnspecified_iff,
    hlinkLocal, hlocal, Ipv6Addr.documentation_iff]
  simp only [REFUSED_V6, List.mem_cons, List.not_mem_nil, or_false, exists_eq_or_imp,
    exists_eq_left]

/-! ## The mapped form -/

theorem mapped_iff {ip : Ipv6Addr} : ip.high = 0xffff ↔ ∃ v4, ip.toIpv4Mapped = some v4 := by
  have hb := ip.b.toNat_lt
  have hc := ip.c.toNat_lt
  have hd := ip.d.toNat_lt
  have he := ip.e.toNat_lt
  have hf := ip.f.toNat_lt
  have hsegments : ip.high = 0xffff ↔
      ip.a = 0 ∧ ip.b = 0 ∧ ip.c = 0 ∧ ip.d = 0 ∧ ip.e = 0 ∧ ip.f = 0xffff := by
    simp only [← UInt16.toNat_inj, UInt16.reduceToNat, Ipv6Addr.high]
    omega
  rw [hsegments, Ipv6Addr.toIpv4Mapped]
  split <;> simp [*]

theorem low_of_mapped {ip : Ipv6Addr} (h : ip.toIpv4Mapped = some v4) : ip.low = v4.toNat := by
  rw [Ipv6Addr.toIpv4Mapped] at h
  split at h
  · cases h
    have hg := ip.g.toNat_lt
    have hh := ip.h.toNat_lt
    simp [Ipv6Addr.low, Ipv4Addr.toNat, UInt16.toNat_shiftRight, Nat.shiftRight_eq_div_pow]
    omega
  · cases h

theorem mem_under_iff {ip : Ipv6Addr} {block : Subnet 32} (h : block ∈ REFUSED_V4) :
    ip.toNat ∈ block.under 0xffff 96 ↔ ip.high = 0xffff ∧ ip.low ∈ block := by
  have hfits : ∀ block ∈ REFUSED_V4, block.bits ≤ 32 ∧ block.base < 2 ^ 32 := by decide
  exact Subnet.mem_under_iff (hfits block h).1 ip.low_lt (hfits block h).2

/-- No block of its own keeps out a mapped address. -/
theorem not_mem_of_mapped {ip : Ipv6Addr} (h : ip.high = 0xffff) :
    ∀ block ∈ REFUSED_V6, ip.toNat ∉ block := by
  have hlow := ip.low_lt
  simp only [REFUSED_V6, v6Block, List.forall_mem_cons, Subnet.mem_iff, Ipv6Addr.toNat, h,
    List.not_mem_nil, false_implies, implies_true, and_true]
  omega

theorem addrAllowed_eq_false_iff {ip : IpAddr} : addrAllowed ip = false ↔ Refused ip := by
  cases ip with
  | v4 ip => exact v4Allowed_eq_false_iff
  | v6 ip =>
    simp only [Refused, List.mem_append, or_and_right, exists_or, List.mem_map]
    cases hmapped : ip.toIpv4Mapped with
    | some v4 =>
      have hhigh := mapped_iff.2 ⟨v4, hmapped⟩
      rw [addrAllowed, hmapped]
      dsimp only
      rw [v4Allowed_eq_false_iff, Refused]
      constructor
      · rintro ⟨block, hblock, hmem⟩
        refine .inr ⟨_, ⟨block, hblock, rfl⟩, ?_⟩
        exact (mem_under_iff hblock).2 ⟨hhigh, low_of_mapped hmapped ▸ hmem⟩
      · rintro (⟨block, hblock, hmem⟩ | ⟨_, ⟨block, hblock, rfl⟩, hmem⟩)
        · exact absurd hmem (not_mem_of_mapped hhigh block hblock)
        · exact ⟨block, hblock, low_of_mapped hmapped ▸ ((mem_under_iff hblock).1 hmem).2⟩
    | none =>
      rw [addrAllowed, hmapped]
      dsimp only
      rw [v6Allowed_eq_false_iff]
      refine ⟨.inl, ?_⟩
      rintro (h | ⟨_, ⟨block, hblock, rfl⟩, hmem⟩)
      · exact h
      · obtain ⟨v4, hv4⟩ := mapped_iff.1 ((mem_under_iff hblock).1 hmem).1
        rw [hmapped] at hv4
        cases hv4

end Whispee.Link
