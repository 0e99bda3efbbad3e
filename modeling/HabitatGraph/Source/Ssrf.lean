import HabitatGraph.Foundation.Networks
import HabitatGraph.Source.IpAddr

/-! # Addresses an untrusted URL must not reach

The classifier of the guard, by octets and segments, and the table it stands for, by
network blocks.
-/

namespace HabitatGraph

open Networks

/-- Why an IPv4 address is blocked. -/
def v4Blocked (v4 : Ipv4Addr) : Option String :=
  if v4.isLoopback then some "loopback"
  else if v4.isUnspecified then some "unspecified"
  else if v4.isPrivate then some "private"
  else if v4.isLinkLocal then some "link-local"
  else if v4.a == 100 && v4.b &&& 0xC0 == 0x40 then some "cgnat"
  else none

/-- Why an address is blocked. -/
def ipIsBlocked : IpAddr → Option String
  | .v4 v4 => v4Blocked v4
  | .v6 v6 =>
      -- `::1` embeds 0.0.0.1, which no IPv4 class holds
      if v6.isLoopback then some "loopback"
      else if v6.isUnspecified then some "unspecified"
      else match v6.toIpv4 with
        | some v4 => v4Blocked v4
        | none =>
            let first := v6.segments.headD 0
            if first &&& 0xFE00 == 0xFC00 then some "unique-local"
            else if first &&& 0xFFC0 == 0xFE80 then some "link-local"
            else none

/-! ## The table -/

/-- Loopback, unspecified, the three private networks, link-local and carrier-grade NAT. -/
def internalV4 : List (Ipv4Addr × Nat) :=
  [(⟨127, 0, 0, 0⟩, 8), (⟨0, 0, 0, 0⟩, 32), (⟨10, 0, 0, 0⟩, 8), (⟨172, 16, 0, 0⟩, 12),
    (⟨192, 168, 0, 0⟩, 16), (⟨169, 254, 0, 0⟩, 16), (⟨100, 64, 0, 0⟩, 10)]

/-- `::1`, `::`, `fc00::/7` and `fe80::/10` -/
def internalV6 : List (Ipv6Addr × Nat) :=
  [(⟨[0, 0, 0, 0, 0, 0, 0, 1], rfl⟩, 128), (⟨[0, 0, 0, 0, 0, 0, 0, 0], rfl⟩, 128),
    (⟨[0xFC00, 0, 0, 0, 0, 0, 0, 0], rfl⟩, 7), (⟨[0xFE80, 0, 0, 0, 0, 0, 0, 0], rfl⟩, 10)]

def Ipv4Addr.Internal (addr : Ipv4Addr) : Prop :=
  ∃ network ∈ internalV4, InNetwork 32 network.1.toNat network.2 addr.toNat

/-- An address of the table, or one that embeds an IPv4 address of the table. -/
def Ipv6Addr.Internal (addr : Ipv6Addr) : Prop :=
  (∃ network ∈ internalV6, InNetwork 128 network.1.toNat network.2 addr.toNat) ∨
    ∃ v4 : Ipv4Addr, v4.Internal ∧ (addr = v4.toIpv6Compatible ∨ addr = v4.toIpv6Mapped)

def IpAddr.Internal : IpAddr → Prop
  | .v4 addr => addr.Internal
  | .v6 addr => addr.Internal

/-! ## The classifier decides the table -/

theorem and_0xC0_eq_iff {b : UInt8} : b &&& 0xC0 = 0x40 ↔ b.toNat / 64 = 1 := by
  rw [← UInt8.toNat_inj, UInt8.toNat_and]
  exact @and_highMask_eq_iff 2 6 _ 1 b.toNat_lt

theorem and_0xFE00_eq_iff {n : UInt16} : n &&& 0xFE00 = 0xFC00 ↔ n.toNat / 512 = 126 := by
  rw [← UInt16.toNat_inj, UInt16.toNat_and]
  exact @and_highMask_eq_iff 7 9 _ 126 n.toNat_lt

theorem and_0xFFC0_eq_iff {n : UInt16} : n &&& 0xFFC0 = 0xFE80 ↔ n.toNat / 64 = 1018 := by
  rw [← UInt16.toNat_inj, UInt16.toNat_and]
  exact @and_highMask_eq_iff 10 6 _ 1018 n.toNat_lt

/-- A network of up to 16 bits is one of the first two octets. -/
theorem Ipv4Addr.inNetwork_iff {addr : Ipv4Addr} {length high : Nat} (hlength : length ≤ 16) :
    InNetwork 32 (high * 2 ^ 16) length addr.toNat ↔
      InNetwork 16 high length (addr.a.toNat * 256 + addr.b.toNat) := by
  have hc := addr.c.toNat_lt
  have hd := addr.d.toNat_lt
  have haddr : addr.toNat = (addr.a.toNat * 256 + addr.b.toNat) * 2 ^ 16 +
      (addr.c.toNat * 256 + addr.d.toNat) := by
    rw [Ipv4Addr.toNat]
    omega
  rw [haddr, inNetwork_mul_add_iff (by omega) (by omega)]

theorem Ipv4Addr.internal_iff {addr : Ipv4Addr} :
    addr.Internal ↔ addr.toNat = 0 ∨
      ∃ network ∈ [(0x7F00, 8), (0x0A00, 8), (0xAC10, 12), (0xC0A8, 16), (0xA9FE, 16),
          (0x6440, 10)],
        InNetwork 16 network.1 network.2 (addr.a.toNat * 256 + addr.b.toNat) := by
  have hunspecified : (⟨0, 0, 0, 0⟩ : Ipv4Addr).toNat = 0 := rfl
  have hloopback : (⟨127, 0, 0, 0⟩ : Ipv4Addr).toNat = 0x7F00 * 2 ^ 16 := rfl
  have hprivate10 : (⟨10, 0, 0, 0⟩ : Ipv4Addr).toNat = 0x0A00 * 2 ^ 16 := rfl
  have hprivate172 : (⟨172, 16, 0, 0⟩ : Ipv4Addr).toNat = 0xAC10 * 2 ^ 16 := rfl
  have hprivate192 : (⟨192, 168, 0, 0⟩ : Ipv4Addr).toNat = 0xC0A8 * 2 ^ 16 := rfl
  have hlinkLocal : (⟨169, 254, 0, 0⟩ : Ipv4Addr).toNat = 0xA9FE * 2 ^ 16 := rfl
  have hcgnat : (⟨100, 64, 0, 0⟩ : Ipv4Addr).toNat = 0x6440 * 2 ^ 16 := rfl
  simp +decide only [Ipv4Addr.Internal, internalV4, List.mem_cons, List.not_mem_nil, or_false,
    exists_eq_or_imp, exists_eq_left, hunspecified, hloopback, hprivate10, hprivate172,
    hprivate192, hlinkLocal, hcgnat, inNetwork_self_iff, inNetwork_iff]
  exact or_left_comm

theorem isSome_v4Blocked_iff {v4 : Ipv4Addr} : (v4Blocked v4).isSome ↔ v4.Internal := by
  have hb := v4.b.toNat_lt
  have hblocked : (v4Blocked v4).isSome ↔ v4.isLoopback ∨ v4.isUnspecified ∨ v4.isPrivate ∨
      v4.isLinkLocal ∨ (v4.a == 100 && v4.b &&& 0xC0 == 0x40) := by
    unfold v4Blocked
    split_ifs <;> simp [*]
  have hunspecified : v4.isUnspecified ↔ v4.toNat = 0 := by
    simp only [Ipv4Addr.isUnspecified, Ipv4Addr.toNat, Bool.and_eq_true, beq_iff_eq,
      ← UInt8.toNat_inj, UInt8.reduceToNat]
    omega
  rw [hblocked, hunspecified, Bool.and_eq_true, beq_iff_eq, beq_iff_eq, and_0xC0_eq_iff,
    Ipv4Addr.internal_iff, or_left_comm]
  apply or_congr_right
  simp only [InNetwork, Ipv4Addr.isLoopback, Ipv4Addr.isPrivate, Ipv4Addr.isLinkLocal,
    Bool.or_eq_true, Bool.and_eq_true, beq_iff_eq, decide_eq_true_eq, List.mem_cons,
    List.not_mem_nil, or_false, exists_eq_or_imp, exists_eq_left, ← UInt8.toNat_inj,
    UInt8.le_iff_toNat_le, UInt8.reduceToNat]
  omega

theorem Ipv6Addr.exists_segments (addr : Ipv6Addr) :
    ∃ a b c d e f g h, addr.segments = [a, b, c, d, e, f, g, h] := by
  obtain ⟨segments, hlength⟩ := addr
  match segments, hlength with
  | [a, b, c, d, e, f, g, h], _ => exact ⟨a, b, c, d, e, f, g, h, rfl⟩

/-- The first segment is the first 16 bits. -/
theorem Ipv6Addr.exists_toNat_eq (addr : Ipv6Addr) :
    ∃ low < 2 ^ 112, addr.toNat = (addr.segments.headD 0).toNat * 2 ^ 112 + low := by
  obtain ⟨a, b, c, d, e, f, g, h, hsegments⟩ := addr.exists_segments
  have hb := b.toNat_lt
  have hc := c.toNat_lt
  have hd := d.toNat_lt
  have he := e.toNat_lt
  have hf := f.toNat_lt
  have hg := g.toNat_lt
  have hh := h.toNat_lt
  refine ⟨addr.toNat - a.toNat * 2 ^ 112, ?_, ?_⟩
  · simp only [Ipv6Addr.toNat, hsegments, List.foldl_cons, List.foldl_nil]
    omega
  · simp only [Ipv6Addr.toNat, hsegments, List.foldl_cons, List.foldl_nil, List.headD_cons]
    omega

theorem Ipv6Addr.isLoopback_iff {addr : Ipv6Addr} : addr.isLoopback ↔ addr.toNat = 1 := by
  obtain ⟨a, b, c, d, e, f, g, h, hsegments⟩ := addr.exists_segments
  simp only [Ipv6Addr.isLoopback, Ipv6Addr.toNat, hsegments, beq_iff_eq, List.cons.injEq, and_true,
    List.foldl_cons, List.foldl_nil, ← UInt16.toNat_inj, UInt16.reduceToNat]
  omega

theorem Ipv6Addr.isUnspecified_iff {addr : Ipv6Addr} : addr.isUnspecified ↔ addr.toNat = 0 := by
  obtain ⟨a, b, c, d, e, f, g, h, hsegments⟩ := addr.exists_segments
  simp only [Ipv6Addr.isUnspecified, Ipv6Addr.toNat, hsegments, beq_iff_eq, List.cons.injEq,
    and_true, List.foldl_cons, List.foldl_nil, ← UInt16.toNat_inj, UInt16.reduceToNat]
  omega

/-- Unique-local addresses begin with `fc` or `fd`. -/
theorem Ipv6Addr.inNetwork_0xFC00_iff {addr : Ipv6Addr} :
    InNetwork 128 (0xFC00 * 2 ^ 112) 7 addr.toNat ↔ addr.segments.headD 0 &&& 0xFE00 = 0xFC00 := by
  obtain ⟨low, hlow, haddr⟩ := addr.exists_toNat_eq
  rw [haddr, inNetwork_mul_add_iff hlow (by decide), and_0xFE00_eq_iff]
  exact Iff.rfl

/-- Link-local addresses begin with `fe8`, `fe9`, `fea` or `feb`. -/
theorem Ipv6Addr.inNetwork_0xFE80_iff {addr : Ipv6Addr} :
    InNetwork 128 (0xFE80 * 2 ^ 112) 10 addr.toNat ↔
      addr.segments.headD 0 &&& 0xFFC0 = 0xFE80 := by
  obtain ⟨low, hlow, haddr⟩ := addr.exists_toNat_eq
  rw [haddr, inNetwork_mul_add_iff hlow (by decide), and_0xFFC0_eq_iff]
  exact Iff.rfl

/-- What the two ways of embedding an IPv4 address mean for the table. -/
theorem Ipv6Addr.embeds_internal_iff {addr : Ipv6Addr} :
    (∃ v4 : Ipv4Addr, v4.Internal ∧ (addr = v4.toIpv6Compatible ∨ addr = v4.toIpv6Mapped)) ↔
      ∃ v4, addr.toIpv4 = some v4 ∧ v4.Internal := by
  apply exists_congr
  intro v4
  rw [toIpv4_eq_some_iff]
  exact and_comm

theorem Ipv6Addr.internal_iff {addr : Ipv6Addr} :
    addr.Internal ↔ addr.isLoopback ∨ addr.isUnspecified ∨
      addr.segments.headD 0 &&& 0xFE00 = 0xFC00 ∨ addr.segments.headD 0 &&& 0xFFC0 = 0xFE80 ∨
        ∃ v4, addr.toIpv4 = some v4 ∧ v4.Internal := by
  have hloopback : (⟨[0, 0, 0, 0, 0, 0, 0, 1], rfl⟩ : Ipv6Addr).toNat = 1 := rfl
  have hunspecified : (⟨[0, 0, 0, 0, 0, 0, 0, 0], rfl⟩ : Ipv6Addr).toNat = 0 := rfl
  have huniqueLocal : (⟨[0xFC00, 0, 0, 0, 0, 0, 0, 0], rfl⟩ : Ipv6Addr).toNat =
      0xFC00 * 2 ^ 112 := rfl
  have hlinkLocal : (⟨[0xFE80, 0, 0, 0, 0, 0, 0, 0], rfl⟩ : Ipv6Addr).toNat =
      0xFE80 * 2 ^ 112 := rfl
  rw [Ipv6Addr.Internal, embeds_internal_iff]
  simp only [internalV6, List.mem_cons, List.not_mem_nil, or_false, exists_eq_or_imp,
    exists_eq_left, hloopback, hunspecified, huniqueLocal, hlinkLocal, inNetwork_self_iff,
    inNetwork_0xFC00_iff, inNetwork_0xFE80_iff, isLoopback_iff, isUnspecified_iff, or_assoc]

/-- An embedded address has no first segment of its own. -/
theorem Ipv6Addr.headD_of_toIpv4 {addr : Ipv6Addr} {v4 : Ipv4Addr} (h : addr.toIpv4 = some v4) :
    addr.segments.headD 0 = 0 := by
  rcases toIpv4_eq_some_iff.mp h with rfl | rfl
  · rfl
  · rfl

theorem isSome_ipIsBlocked_v6_iff {v6 : Ipv6Addr} :
    (ipIsBlocked (.v6 v6)).isSome ↔ v6.Internal := by
  rw [Ipv6Addr.internal_iff, ipIsBlocked]
  split
  next hloopback => exact iff_of_true rfl (Or.inl hloopback)
  next hloopback =>
    split
    next hunspecified => exact iff_of_true rfl (Or.inr (Or.inl hunspecified))
    next hunspecified =>
      cases hv4 : v6.toIpv4 with
      | some v4 =>
          have hhead := Ipv6Addr.headD_of_toIpv4 hv4
          have huniqueLocal : ¬ (0 : UInt16) &&& 0xFE00 = 0xFC00 := by decide
          have hlinkLocal : ¬ (0 : UInt16) &&& 0xFFC0 = 0xFE80 := by decide
          simp only [isSome_v4Blocked_iff, hloopback, hunspecified, hhead, huniqueLocal, hlinkLocal,
            Bool.false_eq_true, false_or, Option.some.injEq, exists_eq_left']
      | none =>
          simp only [hloopback, hunspecified, Bool.false_eq_true, false_or, reduceCtorEq,
            false_and, exists_false, or_false]
          split_ifs with huniqueLocal hlinkLocal
          · exact iff_of_true rfl (Or.inl (beq_iff_eq.mp huniqueLocal))
          · exact iff_of_true rfl (Or.inr (beq_iff_eq.mp hlinkLocal))
          · rw [beq_iff_eq] at huniqueLocal hlinkLocal
            exact iff_of_false Bool.false_ne_true (not_or.mpr ⟨huniqueLocal, hlinkLocal⟩)

/-- What is blocked is what the table holds. -/
theorem ipIsBlocked_eq_none_iff {ip : IpAddr} : ipIsBlocked ip = none ↔ ¬ ip.Internal := by
  rw [← Option.not_isSome_iff_eq_none, not_iff_not]
  cases ip with
  | v4 addr => exact isSome_v4Blocked_iff
  | v6 addr => exact isSome_ipIsBlocked_v6_iff

end HabitatGraph
