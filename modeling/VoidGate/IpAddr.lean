import VoidGate.BitPrefixes
import Mathlib.Data.List.Basic
import Mathlib.Data.Nat.Bitwise

/-!
# Addresses and CIDR prefixes

The byte-level prefix tests of `ipaddr.c`: partial-byte comparison, containment,
overlap, masking, and the enclosing /24 and /64. A prefix denotes the set of
addresses of its family that agree with it on its leading bits; the byte tests are
shown to decide containment and intersection of these sets.
-/

namespace VoidGate

open BitPrefixes

/-- `AF_INET` and `AF_INET6`. -/
inductive Family where
  | inet
  | inet6
  deriving DecidableEq, Repr

namespace Family

/-- The numeric value of the address family on Linux. -/
def num : Family → ℕ
  | .inet => 2
  | .inet6 => 10

def nbytes : Family → ℕ
  | .inet => 4
  | .inet6 => 16

/-- Address width in bits, the largest prefix length. -/
def width (f : Family) : ℕ := 8 * f.nbytes

theorem nbytes_le (f : Family) : f.nbytes ≤ 16 := by cases f <;> decide

theorem width_le (f : Family) : f.width ≤ 128 := by cases f <;> decide

end Family

/-- `uint8_t addr[16]`, wide enough for either family. -/
abbrev Octets := Vector UInt8 16

/-- The byte at index `i`. -/
def octet (a : Octets) (i : ℕ) : UInt8 := a[i]?.getD 0

/-- Bit `i` in network order: the most significant bit of the first byte is bit 0. -/
def bit (a : Octets) (i : ℕ) : Bool := (octet a (i / 8)).toNat.testBit (7 - i % 8)

theorem octet_of_lt (a : Octets) {i : ℕ} (h : i < 16) : octet a i = a[i] := by
  simp [octet, h]

theorem octet_of_ge (a : Octets) {i : ℕ} (h : 16 ≤ i) : octet a i = 0 := by
  simp [octet, Nat.not_lt.mpr h]

theorem octets_ext {a b : Octets} (h : ∀ i < 16, octet a i = octet b i) : a = b := by
  apply Vector.ext
  intro i hi
  simpa [octet_of_lt _ hi] using h i hi

theorem byte_eq_iff (x y : UInt8) :
    x = y ↔ ∀ j < 8, x.toNat.testBit (7 - j) = y.toNat.testBit (7 - j) := by
  constructor
  · rintro rfl _ _
    rfl
  · intro h
    apply UInt8.toNat_inj.mp
    apply Nat.eq_of_testBit_eq
    intro i
    by_cases hi : i < 8
    · have hb := h (7 - i) (by omega)
      rwa [show 7 - (7 - i) = i by omega] at hb
    · have hpow : 2 ^ 8 ≤ 2 ^ i := Nat.pow_le_pow_right (by decide) (by omega)
      rw [Nat.testBit_lt_two_pow (x.toNat_lt.trans_le hpow),
        Nat.testBit_lt_two_pow (y.toNat_lt.trans_le hpow)]

/-- `(uint8_t) (0xff << (8 - rem))`, the mask of the `rem` leading bits of a byte. -/
def leadMask (rem : ℕ) : UInt8 := UInt8.ofNat (0xff <<< (8 - rem))

private theorem leadMask_testBit {rem j : ℕ} (hr : rem ≤ 8) (hj : j < 8) :
    (leadMask rem).toNat.testBit (7 - j) = decide (j < rem) := by
  rw [leadMask, UInt8.toNat_ofNat', show (0xff : ℕ) = 2 ^ 8 - 1 from rfl]
  simp only [Nat.testBit_mod_two_pow, Nat.testBit_shiftLeft, Nat.testBit_two_pow_sub_one]
  by_cases h : j < rem
  · simp [h, show 7 - j < 8 by omega, show 8 - rem ≤ 7 - j by omega,
      show 7 - j - (8 - rem) < 8 by omega]
  · simp [h, show ¬ 8 - rem ≤ 7 - j by omega]

theorem and_leadMask_testBit (x : UInt8) {rem j : ℕ} (hr : rem ≤ 8) (hj : j < 8) :
    (x &&& leadMask rem).toNat.testBit (7 - j) = (x.toNat.testBit (7 - j) && decide (j < rem)) := by
  rw [UInt8.toNat_and, Nat.testBit_and, leadMask_testBit hr hj]

private theorem and_leadMask_eq_iff (x y : UInt8) {rem : ℕ} (hr : rem ≤ 8) :
    x &&& leadMask rem = y &&& leadMask rem ↔
      ∀ j < rem, x.toNat.testBit (7 - j) = y.toNat.testBit (7 - j) := by
  rw [byte_eq_iff]
  constructor
  · intro h j hj
    have hb := h j (by omega)
    rw [and_leadMask_testBit _ hr (by omega), and_leadMask_testBit _ hr (by omega)] at hb
    simpa [hj] using hb
  · intro h j hj
    rw [and_leadMask_testBit _ hr hj, and_leadMask_testBit _ hr hj]
    by_cases hjr : j < rem
    · simp [hjr, h j hjr]
    · simp [hjr]

theorem agree_bytes_iff (a b : Octets) (n : ℕ) :
    Agree (8 * n) (bit a) (bit b) ↔ ∀ i < n, octet a i = octet b i := by
  constructor
  · intro h i hi
    rw [byte_eq_iff]
    intro j hj
    have hb := h (8 * i + j) (by omega)
    simpa [bit, show (8 * i + j) / 8 = i by omega, show (8 * i + j) % 8 = j by omega] using hb
  · intro h i hi
    simp only [bit, h (i / 8) (by omega)]

/-- `memcmp(a, b, n) == 0`. -/
def memEq (a b : Octets) (n : ℕ) : Bool := a.toList.take n == b.toList.take n

theorem memEq_iff (a b : Octets) {n : ℕ} (hn : n ≤ 16) :
    memEq a b n = true ↔ ∀ i < n, octet a i = octet b i := by
  rw [memEq, beq_iff_eq]
  constructor
  · intro h i hi
    have hg := congrArg (fun l => l[i]?) h
    simpa [List.getElem?_take, hi, octet, show i < 16 by omega] using hg
  · intro h
    apply List.ext_getElem
    · simp
    · intro i hi hi'
      have hin : i < n := by
        have := List.length_take_le n a.toList
        omega
      have ho := h i hin
      simpa [octet_of_lt _ (show i < 16 by omega)] using ho

/-- `bits_equal` of `ipaddr.c`: whole bytes by `memcmp`, then the partial byte under a mask. -/
def bitsEqual (a b : Octets) (bits : ℕ) : Bool :=
  let bytes := bits / 8
  let rem := bits % 8
  if bytes ≠ 0 ∧ memEq a b bytes = false then false
  else if rem ≠ 0 then octet a bytes &&& leadMask rem == octet b bytes &&& leadMask rem
  else true

theorem bitsEqual_iff (a b : Octets) {n : ℕ} (hn : n ≤ 128) :
    bitsEqual a b n = true ↔ Agree n (bit a) (bit b) := by
  have hbytes : n / 8 ≤ 16 := by omega
  -- the leading `n` bits are the bits of `n / 8` whole bytes and of one partial byte
  have hsplit : Agree n (bit a) (bit b) ↔ memEq a b (n / 8) = true ∧
      octet a (n / 8) &&& leadMask (n % 8) = octet b (n / 8) &&& leadMask (n % 8) := by
    rw [memEq_iff _ _ hbytes, ← agree_bytes_iff, and_leadMask_eq_iff _ _ (by omega)]
    constructor
    · intro h
      refine ⟨h.mono (by omega), fun j hj => ?_⟩
      have hb := h (8 * (n / 8) + j) (by omega)
      simpa [bit, show (8 * (n / 8) + j) / 8 = n / 8 by omega,
        show (8 * (n / 8) + j) % 8 = j by omega] using hb
    · rintro ⟨hw, hp⟩ i hi
      by_cases hlt : i < 8 * (n / 8)
      · exact hw i hlt
      · have hb := hp (i % 8) (by omega)
        simpa only [bit, show i / 8 = n / 8 by omega] using hb
  rw [hsplit, bitsEqual]
  by_cases hz : n / 8 = 0
  · have hm : memEq a b (n / 8) = true := by simp [hz, memEq]
    by_cases hr : n % 8 = 0
    · simp [hm, hr, leadMask]
    · simp [hm, hr]
  · by_cases hm : memEq a b (n / 8) = true
    · by_cases hr : n % 8 = 0
      · simp [hm, hr, leadMask]
      · simp [hm, hr]
    · simp [hm, hz]

/-- One address of one family; the bytes past the family's width are zero. -/
structure IpAddr where
  family : Family
  octets : Octets
  tail : ∀ i, family.nbytes ≤ i → octet octets i = 0
  deriving DecidableEq

/-- `struct vg_cidr`, with a prefix length that its family allows. -/
structure VgCidr where
  family : Family
  addr : Octets
  prefixlen : ℕ
  prefixlen_le : prefixlen ≤ family.width
  deriving DecidableEq

/-- The first `n` bytes, as `memcpy` leaves them in a zeroed buffer. -/
def clip (n : ℕ) (a : Octets) : Octets := Vector.ofFn fun i => if i.val < n then a[i] else 0

theorem octet_clip (n : ℕ) (a : Octets) (i : ℕ) :
    octet (clip n a) i = if i < n then octet a i else 0 := by
  by_cases hi : i < 16
  · simp [octet_of_lt _ hi, clip]
  · simp [octet_of_ge _ (Nat.not_lt.mp hi)]

/-- The address stored in the first bytes of a buffer. -/
def IpAddr.ofOctets (f : Family) (a : Octets) : IpAddr where
  family := f
  octets := clip f.nbytes a
  tail i hi := by simp [octet_clip, Nat.not_lt.mpr hi]

theorem agree_clip (f : Family) (a : Octets) : Agree f.width (bit (clip f.nbytes a)) (bit a) := by
  intro i hi
  have hb : i / 8 < f.nbytes := by
    simp only [Family.width] at hi
    omega
  simp [bit, octet_clip, hb]

namespace VgCidr

/-- The address belongs to the prefix. -/
def Has (p : VgCidr) (x : IpAddr) : Prop :=
  p.family = x.family ∧ Agree p.prefixlen (bit p.addr) (bit x.octets)

/-- No address bit past the prefix length is set. -/
def Masked (p : VgCidr) : Prop := ∀ i, p.prefixlen ≤ i → bit p.addr i = false

theorem prefixlen_le_128 (p : VgCidr) : p.prefixlen ≤ 128 :=
  p.prefixlen_le.trans p.family.width_le

/-- What `drops_find` compares: family, length, and the family's address bytes. -/
def key (p : VgCidr) : Family × ℕ × List UInt8 :=
  (p.family, p.prefixlen, p.addr.toList.take p.family.nbytes)

/-- Masked prefixes are determined by their leading bits. -/
theorem Masked.eq_of_agree {p q : VgCidr} (hp : p.Masked) (hq : q.Masked)
    (hf : p.family = q.family) (hl : p.prefixlen = q.prefixlen)
    (ha : Agree p.prefixlen (bit p.addr) (bit q.addr)) : p = q := by
  have hbits : Agree (8 * 16) (bit p.addr) (bit q.addr) := by
    intro i _
    by_cases hi : i < p.prefixlen
    · exact ha i hi
    · rw [hp i (by omega), hq i (by omega)]
  have haddr : p.addr = q.addr := octets_ext ((agree_bytes_iff _ _ 16).mp hbits)
  cases p
  cases q
  simp_all

theorem Masked.eq_of_key {p q : VgCidr} (hp : p.Masked) (hq : q.Masked)
    (h : p.key = q.key) : p = q := by
  simp only [key, Prod.mk.injEq] at h
  obtain ⟨hf, hl, ha⟩ := h
  refine hp.eq_of_agree hq hf hl (Agree.mono ?_ p.prefixlen_le)
  rw [Family.width, agree_bytes_iff, ← memEq_iff _ _ p.family.nbytes_le, memEq, beq_iff_eq, ha, hf]

end VgCidr

def vgCidrContains (hay needle : VgCidr) : Bool :=
  if hay.family ≠ needle.family then false
  else if needle.prefixlen < hay.prefixlen then false
  else bitsEqual hay.addr needle.addr hay.prefixlen

def vgCidrCoversOrOverlaps (a b : VgCidr) : Bool := vgCidrContains a b || vgCidrContains b a

theorem vgCidrContains_iff (a b : VgCidr) :
    vgCidrContains a b = true ↔ a.family = b.family ∧ a.prefixlen ≤ b.prefixlen ∧
      Agree a.prefixlen (bit a.addr) (bit b.addr) := by
  rw [← bitsEqual_iff _ _ a.prefixlen_le_128, vgCidrContains]
  by_cases hf : a.family = b.family
  · by_cases hl : b.prefixlen < a.prefixlen
    · simp [hf, hl]
    · simp [hf, hl, Nat.not_lt.mp hl]
  · simp [hf]

def octetsOfBits (z : ℕ → Bool) : Octets :=
  Vector.ofFn fun i => UInt8.ofNat (Nat.ofBits fun j : Fin 8 => z (8 * i.val + (7 - j.val)))

private theorem bit_octetsOfBits (z : ℕ → Bool) {i : ℕ} (hi : i < 128) : bit (octetsOfBits z) i = z i := by
  rw [bit, octet_of_lt _ (by omega), octetsOfBits, Vector.getElem_ofFn, UInt8.toNat_ofNat',
    Nat.mod_eq_of_lt (Nat.ofBits_lt_two_pow _), Nat.testBit_ofBits_lt _ _ (by omega)]
  congr 1
  dsimp only
  omega

private theorem exists_agree_octets (f : Family) (z : ℕ → Bool) :
    ∃ x : IpAddr, x.family = f ∧ Agree f.width z (bit x.octets) := by
  refine ⟨.ofOctets f (octetsOfBits z), rfl, ?_⟩
  have hbits : Agree f.width z (bit (octetsOfBits z)) := fun i hi =>
    (bit_octetsOfBits z (hi.trans_le f.width_le)).symm
  exact hbits.trans (agree_clip f _).symm

theorem vgCidrContains_iff_forall (a b : VgCidr) :
    vgCidrContains a b = true ↔ a.family = b.family ∧ ∀ x, b.Has x → a.Has x := by
  rw [vgCidrContains_iff, and_congr_right_iff]
  intro hf
  rw [← forall_agree_iff]
  constructor
  · rintro h x ⟨hb, hx⟩
    exact ⟨hf.trans hb, h _ hx⟩
  · intro h z hz
    obtain ⟨x, hx, hbits⟩ := exists_agree_octets b.family z
    have hmem := h x ⟨hx.symm, hz.trans (hbits.mono b.prefixlen_le)⟩
    exact hmem.2.trans (hbits.mono (hf ▸ a.prefixlen_le)).symm

theorem vgCidrCoversOrOverlaps_iff (a b : VgCidr) :
    vgCidrCoversOrOverlaps a b = true ↔ ∃ x, a.Has x ∧ b.Has x := by
  rw [vgCidrCoversOrOverlaps, Bool.or_eq_true, vgCidrContains_iff, vgCidrContains_iff]
  constructor
  · rintro (⟨hf, -, ha⟩ | ⟨hf, -, ha⟩)
    · have hc := agree_clip b.family b.addr
      refine ⟨.ofOctets b.family b.addr, ⟨hf, ?_⟩, rfl, (hc.mono b.prefixlen_le).symm⟩
      exact ha.trans (hc.mono (hf ▸ a.prefixlen_le)).symm
    · have hc := agree_clip a.family a.addr
      refine ⟨.ofOctets a.family a.addr, ⟨rfl, (hc.mono a.prefixlen_le).symm⟩, hf, ?_⟩
      exact ha.trans (hc.mono (hf ▸ b.prefixlen_le)).symm
  · rintro ⟨x, ⟨hfa, ha⟩, hfb, hb⟩
    have hf : a.family = b.family := hfa.trans hfb.symm
    rcases exists_agree_agree_iff.mp ⟨_, ha, hb⟩ with ⟨hl, hab⟩ | ⟨hl, hba⟩
    · exact .inl ⟨hf, hl, hab⟩
    · exact .inr ⟨hf.symm, hl, hba⟩

/-- One iteration of the loop of `vg_cidr_mask`: the address so far and the bits left. -/
def maskStep (s : Octets × ℕ) (i : ℕ) : Octets × ℕ :=
  if 8 ≤ s.2 then (s.1, s.2 - 8)
  else if 0 < s.2 then (s.1.setIfInBounds i (octet s.1 i &&& leadMask s.2), 0)
  else (s.1.setIfInBounds i 0, 0)

def vgCidrMask (p : VgCidr) : VgCidr :=
  { p with addr := ((List.range p.family.nbytes).foldl maskStep (p.addr, p.prefixlen)).1 }

theorem octet_setIfInBounds (a : Octets) {i : ℕ} (hi : i < 16) (v : UInt8) (j : ℕ) :
    octet (a.setIfInBounds i v) j = if j = i then v else octet a j := by
  by_cases hj : j < 16
  · by_cases he : i = j
    · simp [octet_of_lt _ hj, he]
    · simp [octet_of_lt _ hj, he, Ne.symm he]
  · have hne : j ≠ i := by omega
    simp [octet_of_ge _ (Nat.not_lt.mp hj), hne]

private theorem and_leadMask_eight (x : UInt8) : x &&& leadMask 8 = x := by
  rw [byte_eq_iff]
  intro j hj
  rw [and_leadMask_testBit x le_rfl hj]
  simp [hj]

private theorem and_leadMask_zero (x : UInt8) : x &&& leadMask 0 = 0 := by
  rw [byte_eq_iff]
  intro j hj
  rw [and_leadMask_testBit x (Nat.zero_le 8) hj]
  simp

theorem foldl_maskStep (a : Octets) (n : ℕ) {k : ℕ} (hk : k ≤ 16) :
    ((List.range k).foldl maskStep (a, n)).2 = n - 8 * k ∧
      ∀ i, octet ((List.range k).foldl maskStep (a, n)).1 i =
        if i < k then octet a i &&& leadMask (min 8 (n - 8 * i)) else octet a i := by
  induction k with
  | zero => simp
  | succ k ih =>
    obtain ⟨hbits, hoct⟩ := ih (by omega)
    rw [List.range_succ, List.foldl_append, List.foldl_cons, List.foldl_nil]
    generalize (List.range k).foldl maskStep (a, n) = s at hbits hoct
    have hsucc (i : ℕ) (hi : i ≠ k) : (i < k + 1) = (i < k) := by
      apply propext
      omega
    rw [maskStep, hbits]
    split_ifs with h8 h0
    · refine ⟨by dsimp only; omega, fun i => ?_⟩
      by_cases hi : i = k
      · subst hi
        simp [hoct, show min 8 (n - 8 * i) = 8 by omega, and_leadMask_eight]
      · simp [hoct, hsucc i hi]
    · refine ⟨by dsimp only; omega, fun i => ?_⟩
      rw [octet_setIfInBounds _ (by omega)]
      by_cases hi : i = k
      · subst hi
        simp [hoct, show min 8 (n - 8 * i) = n - 8 * i by omega]
      · simp [hoct, hsucc i hi, hi]
    · refine ⟨by dsimp only; omega, fun i => ?_⟩
      rw [octet_setIfInBounds _ (by omega)]
      by_cases hi : i = k
      · subst hi
        simp [show min 8 (n - 8 * i) = 0 by omega, and_leadMask_zero]
      · simp [hoct, hsucc i hi, hi]

theorem bit_vgCidrMask (p : VgCidr) {i : ℕ} (hi : i < p.family.width) :
    bit (vgCidrMask p).addr i = (bit p.addr i && decide (i < p.prefixlen)) := by
  have hb : i / 8 < p.family.nbytes := by
    simp only [Family.width] at hi
    omega
  have hoct := (foldl_maskStep p.addr p.prefixlen p.family.nbytes_le).2 (i / 8)
  rw [if_pos hb] at hoct
  rw [bit, vgCidrMask, hoct, and_leadMask_testBit _ (by omega) (by omega), bit]
  congr 1
  apply decide_eq_decide.mpr
  omega

private theorem octet_vgCidrMask_tail (p : VgCidr) {i : ℕ} (hi : p.family.nbytes ≤ i) :
    octet (vgCidrMask p).addr i = octet p.addr i := by
  have hoct := (foldl_maskStep p.addr p.prefixlen p.family.nbytes_le).2 i
  rwa [if_neg (Nat.not_lt.mpr hi)] at hoct

theorem masked_vgCidrMask (p : VgCidr) (htail : ∀ i, p.family.nbytes ≤ i → octet p.addr i = 0) :
    (vgCidrMask p).Masked := by
  intro i hi
  by_cases hw : i < p.family.width
  · rw [bit_vgCidrMask p hw]
    simp [Nat.not_lt.mpr (show p.prefixlen ≤ i from hi)]
  · have hb : p.family.nbytes ≤ i / 8 := by
      simp only [Family.width] at hw
      omega
    simp [bit, octet_vgCidrMask_tail p hb, htail _ hb]

theorem VgCidr.Masked.tail {p : VgCidr} (hp : p.Masked) :
    ∀ i, p.family.nbytes ≤ i → octet p.addr i = 0 := by
  intro i hi
  rw [byte_eq_iff]
  intro j hj
  have hle := p.prefixlen_le
  simp only [Family.width] at hle
  have hb := hp (8 * i + j) (by omega)
  simpa [bit, show (8 * i + j) / 8 = i by omega, show (8 * i + j) % 8 = j by omega] using hb

/-- The /32 or /128 of one address. -/
def IpAddr.host (x : IpAddr) : VgCidr := ⟨x.family, x.octets, x.family.width, le_rfl⟩

theorem IpAddr.masked_host (x : IpAddr) : x.host.Masked := by
  intro i hi
  have hb : x.family.nbytes ≤ i / 8 := by
    simp only [host, Family.width] at hi
    omega
  simp [bit, host, x.tail _ hb]

/-- `vg_cidr_v4_slash24`; `none` is the return value -1. -/
def vgCidrV4Slash24 (host : VgCidr) : Option VgCidr :=
  if h : host.family = .inet then
    some (vgCidrMask { host with prefixlen := 24, prefixlen_le := by rw [h]; decide })
  else none

/-- `vg_cidr_v6_slash64`; `none` is the return value -1. -/
def vgCidrV6Slash64 (host : VgCidr) : Option VgCidr :=
  if h : host.family = .inet6 then
    some (vgCidrMask { host with prefixlen := 64, prefixlen_le := by rw [h]; decide })
  else none

theorem masked_vgCidrV4Slash24 {host net : VgCidr} (hh : host.Masked)
    (h : vgCidrV4Slash24 host = some net) : net.Masked := by
  rw [vgCidrV4Slash24] at h
  split_ifs at h with hf
  cases h
  exact masked_vgCidrMask _ hh.tail

theorem masked_vgCidrV6Slash64 {host net : VgCidr} (hh : host.Masked)
    (h : vgCidrV6Slash64 host = some net) : net.Masked := by
  rw [vgCidrV6Slash64] at h
  split_ifs at h with hf
  cases h
  exact masked_vgCidrMask _ hh.tail

end VoidGate
