import Rbc.Basis.BitFields

namespace Rbc

open BitFields

/-- `rbc_version`; `unsigned` has 32 bits. -/
structure Version where
  major : UInt32
  minor : UInt32
  patch : UInt32
  deriving DecidableEq, Repr

namespace Version

/-- `rbc_version_component`. -/
inductive Component
  | major | minor | patch
  deriving DecidableEq, Repr

def unpack (value : UInt32) : Version :=
  let major := (value &&& 0xFF000000) >>> 24
  let minor := (value &&& 0x00FF0000) >>> 16
  let patch := value &&& 0xFFFF
  ⟨major, minor, patch⟩

def pack (version : Version) : UInt32 :=
  ((version.major &&& 0xFF) <<< 24) ||| ((version.minor &&& 0xFF) <<< 16) ||| (version.patch &&& 0xFFFF)

def bump (version : Version) : Component → Version
  | .major => ⟨version.major + 1, 0, 0⟩
  | .minor => ⟨version.major, version.minor + 1, 0⟩
  | .patch => ⟨version.major, version.minor, version.patch + 1⟩

def eq (lhs rhs : Version) : Bool :=
  lhs.major == rhs.major && lhs.minor == rhs.minor && lhs.patch == rhs.patch

def ne (lhs rhs : Version) : Bool := !eq lhs rhs

def lt (lhs rhs : Version) : Bool :=
  if lhs.major < rhs.major then true
  else if rhs.major < lhs.major then false
  else if lhs.minor < rhs.minor then true
  else if rhs.minor < lhs.minor then false
  else lhs.patch < rhs.patch

def le (lhs rhs : Version) : Bool := !lt rhs lhs

def gt (lhs rhs : Version) : Bool := lt rhs lhs

def ge (lhs rhs : Version) : Bool := !lt lhs rhs

/-- The fields have the widths they have in the packed form. -/
structure Fits (v : Version) : Prop where
  major : v.major.toNat < 256
  minor : v.minor.toNat < 256
  patch : v.patch.toNat < 65536

/-- The fields as one number, the major version in front. -/
def number (v : Version) : Nat := (v.major.toNat * 256 + v.minor.toNat) * 65536 + v.patch.toNat

variable {v w : Version}

theorem ext_toNat (major : v.major.toNat = w.major.toNat) (minor : v.minor.toNat = w.minor.toNat)
    (patch : v.patch.toNat = w.patch.toNat) : v = w := by
  cases v
  cases w
  simp only [mk.injEq]
  exact ⟨UInt32.toNat_inj.mp major, UInt32.toNat_inj.mp minor, UInt32.toNat_inj.mp patch⟩

theorem eq_iff : eq v w = true ↔ v = w := by
  simp only [eq, Bool.and_eq_true, beq_iff_eq]
  constructor
  · rintro ⟨⟨major, minor⟩, patch⟩
    exact ext_toNat (congrArg _ major) (congrArg _ minor) (congrArg _ patch)
  · rintro rfl
    exact ⟨⟨rfl, rfl⟩, rfl⟩

/-- The fields are compared one after the other. -/
theorem lt_iff : lt v w = true ↔ v.major.toNat < w.major.toNat ∨ v.major.toNat = w.major.toNat ∧
    (v.minor.toNat < w.minor.toNat ∨ v.minor.toNat = w.minor.toNat ∧ v.patch.toNat < w.patch.toNat) := by
  simp only [lt, UInt32.lt_iff_toNat_lt]
  split
  · exact iff_of_true rfl (by omega)
  split
  · exact iff_of_false Bool.false_ne_true (by omega)
  split
  · exact iff_of_true rfl (by omega)
  split
  · exact iff_of_false Bool.false_ne_true (by omega)
  · rw [decide_eq_true_iff]
    omega

/-- Of versions that fit, the order is the one of their numbers. -/
theorem Fits.lt_iff_number (hv : v.Fits) (hw : w.Fits) : lt v w = true ↔ v.number < w.number := by
  rw [lt_iff, number, number, append_lt_append_iff hv.patch hw.patch, append_lt_append_iff hv.minor hw.minor]
  have minor := hv.minor
  have minor' := hw.minor
  omega

theorem Fits.eq_of_number (hv : v.Fits) (hw : w.Fits) (same : v.number = w.number) : v = w := by
  obtain ⟨_, minor, patch⟩ := hv
  obtain ⟨_, minor', patch'⟩ := hw
  unfold number at same
  exact ext_toNat (by omega) (by omega) (by omega)

section Packing

variable (x y : UInt32)

theorem toNat_unpack_major : (unpack x).major.toNat = x.toNat / 2 ^ 24 := by
  have small := x.toNat_lt
  have field : (unpack x).major.toNat = x.toNat / 2 ^ 24 % 2 ^ 8 := and_mask_shiftRight x.toNat 24 8
  omega

theorem toNat_unpack_minor : (unpack x).minor.toNat = x.toNat / 2 ^ 16 % 2 ^ 8 :=
  and_mask_shiftRight x.toNat 16 8

theorem toNat_unpack_patch : (unpack x).patch.toNat = x.toNat % 2 ^ 16 :=
  Nat.and_two_pow_sub_one_eq_mod x.toNat 16

theorem fits_unpack : (unpack x).Fits := by
  have small := x.toNat_lt
  refine ⟨?_, ?_, ?_⟩
  · rw [toNat_unpack_major]
    omega
  · rw [toNat_unpack_minor]
    omega
  · rw [toNat_unpack_patch]
    omega

theorem number_unpack : (unpack x).number = x.toNat := by
  rw [number, toNat_unpack_major, toNat_unpack_minor, toNat_unpack_patch]
  omega

/-- Packing reduces every field to its width. -/
theorem toNat_pack (v : Version) :
    (pack v).toNat = (v.major.toNat % 2 ^ 8 * 256 + v.minor.toNat % 2 ^ 8) * 65536 + v.patch.toNat % 2 ^ 16 := by
  have byte (n : Nat) : n &&& 255 = n % 2 ^ 8 := Nat.and_two_pow_sub_one_eq_mod n 8
  have major : ((v.major &&& 0xFF) <<< 24).toNat = (v.major.toNat % 2 ^ 8) <<< 8 <<< 16 := by
    rw [UInt32.toNat_shiftLeft, UInt32.toNat_and, ← Nat.shiftLeft_add]
    show (v.major.toNat &&& 255) <<< 24 % 2 ^ 32 = _
    rw [byte, Nat.shiftLeft_eq]
    omega
  have minor : ((v.minor &&& 0xFF) <<< 16).toNat = (v.minor.toNat % 2 ^ 8) <<< 16 := by
    rw [UInt32.toNat_shiftLeft, UInt32.toNat_and]
    show (v.minor.toNat &&& 255) <<< 16 % 2 ^ 32 = _
    rw [byte, Nat.shiftLeft_eq]
    omega
  have patch : (v.patch &&& 0xFFFF).toNat = v.patch.toNat % 2 ^ 16 := Nat.and_two_pow_sub_one_eq_mod _ 16
  rw [pack, UInt32.toNat_or, UInt32.toNat_or, major, minor, patch, ← Nat.shiftLeft_or_distrib,
    shiftLeft_or (Nat.mod_lt _ (by decide)), shiftLeft_or (Nat.mod_lt _ (by decide))]
  rfl

theorem Fits.toNat_pack (fits : v.Fits) : (pack v).toNat = v.number := by
  rw [Version.toNat_pack, Nat.mod_eq_of_lt (b := 2 ^ 8) fits.major, Nat.mod_eq_of_lt (b := 2 ^ 8) fits.minor,
    Nat.mod_eq_of_lt (b := 2 ^ 16) fits.patch, number]

theorem pack_unpack : pack (unpack x) = x := by
  rw [← UInt32.toNat_inj, (fits_unpack x).toNat_pack, number_unpack]

theorem unpack_pack_iff (v : Version) : unpack (pack v) = v ↔ v.Fits := by
  constructor
  · intro same
    rw [← same]
    exact fits_unpack _
  · intro fits
    exact (fits_unpack _).eq_of_number fits (by rw [number_unpack, fits.toNat_pack])

theorem lt_unpack_iff : lt (unpack x) (unpack y) = true ↔ x < y := by
  rw [(fits_unpack x).lt_iff_number (fits_unpack y), number_unpack, number_unpack, UInt32.lt_iff_toNat_lt]

theorem le_unpack_iff : le (unpack x) (unpack y) = true ↔ x ≤ y := by
  rw [le, Bool.not_eq_true', Bool.eq_false_iff, ne_eq, lt_unpack_iff, UInt32.not_lt]

theorem eq_unpack_iff : eq (unpack x) (unpack y) = true ↔ x = y := by
  rw [eq_iff]
  constructor
  · intro same
    rw [← pack_unpack x, same, pack_unpack]
  · rintro rfl
    rfl

/-- The packed form and the fields order versions alike, and packing keeps exactly the
versions whose fields fit. -/
theorem packed_and_unpacked_order_alike :
    (∀ x : UInt32, pack (unpack x) = x) ∧
    (∀ x y : UInt32,
      (lt (unpack x) (unpack y) = true ↔ x < y) ∧ (le (unpack x) (unpack y) = true ↔ x ≤ y) ∧
      (gt (unpack x) (unpack y) = true ↔ x > y) ∧ (ge (unpack x) (unpack y) = true ↔ x ≥ y) ∧
      (eq (unpack x) (unpack y) = true ↔ x = y) ∧ (ne (unpack x) (unpack y) = true ↔ x ≠ y)) ∧
    (∀ v : Version, unpack (pack v) = v ↔ v.major < 256 ∧ v.minor < 256 ∧ v.patch < 65536) := by
  refine ⟨pack_unpack, ?_, ?_⟩
  · intro x y
    refine ⟨lt_unpack_iff x y, le_unpack_iff x y, lt_unpack_iff y x, le_unpack_iff y x, eq_unpack_iff x y, ?_⟩
    rw [ne, Bool.not_eq_true', Bool.eq_false_iff, ne_eq, eq_unpack_iff]
  · intro v
    rw [unpack_pack_iff, UInt32.lt_iff_toNat_lt, UInt32.lt_iff_toNat_lt, UInt32.lt_iff_toNat_lt]
    exact ⟨fun fits => ⟨fits.major, fits.minor, fits.patch⟩, fun ⟨major, minor, patch⟩ => ⟨major, minor, patch⟩⟩

end Packing

section Bumping

def field (v : Version) : Component → UInt32
  | .major => v.major
  | .minor => v.minor
  | .patch => v.patch

/-- The greatest value of a component in the packed form. -/
def Component.limit : Component → UInt32
  | major => 255
  | minor => 255
  | patch => 65535

/-- Bumping raises the field of the component, as long as `unsigned` has room for it. -/
theorem lt_bump {c : Component} (room : (v.field c).toNat + 1 < 2 ^ 32) : lt v (v.bump c) = true := by
  have next : (v.field c + 1).toNat = (v.field c).toNat + 1 := by
    rw [UInt32.toNat_add]
    exact Nat.mod_eq_of_lt room
  have raised : (v.field c).toNat < (v.field c + 1).toNat := by omega
  rw [lt_iff]
  cases c with
  | major => exact Or.inl raised
  | minor => exact Or.inr ⟨rfl, Or.inl raised⟩
  | patch => exact Or.inr ⟨rfl, Or.inr ⟨rfl, raised⟩⟩

theorem Fits.field_le (fits : v.Fits) (c : Component) : (v.field c).toNat ≤ c.limit.toNat := by
  cases c with
  | major => exact Nat.le_of_lt_succ fits.major
  | minor => exact Nat.le_of_lt_succ fits.minor
  | patch => exact Nat.le_of_lt_succ fits.patch

theorem Component.limit_le (c : Component) : c.limit.toNat ≤ 65535 := by cases c <;> decide

theorem Fits.fits_bump {c : Component} (fits : v.Fits) (room : v.field c < c.limit) : (v.bump c).Fits := by
  have room : (v.field c).toNat < c.limit.toNat := room
  have next : (v.field c + 1).toNat = (v.field c).toNat + 1 := by
    have small := c.limit_le
    rw [UInt32.toNat_add]
    exact Nat.mod_eq_of_lt (by simp; omega)
  cases c with
  | major => exact ⟨next.trans_lt (Nat.succ_lt_succ room), Nat.zero_lt_succ _, Nat.zero_lt_succ _⟩
  | minor => exact ⟨fits.major, next.trans_lt (Nat.succ_lt_succ room), Nat.zero_lt_succ _⟩
  | patch => exact ⟨fits.major, fits.minor, next.trans_lt (Nat.succ_lt_succ room)⟩

/-- Behind its limit a field is packed as zero, like the ones after it. -/
theorem Fits.pack_bump_le {c : Component} (fits : v.Fits) (full : ¬v.field c < c.limit) :
    (pack (v.bump c)).toNat ≤ v.number := by
  have same : v.field c = c.limit :=
    UInt32.toNat_inj.mp (Nat.le_antisymm (fits.field_le c) (not_lt.mp (UInt32.lt_iff_toNat_lt.not.mp full)))
  have major := Nat.mod_eq_of_lt fits.major
  have minor := Nat.mod_eq_of_lt fits.minor
  rw [Version.toNat_pack, number]
  cases c with
  | major =>
    obtain same : v.major = 255 := same
    rw [bump, same]
    exact Nat.zero_le _
  | minor =>
    obtain same : v.minor = 255 := same
    have carried : (255 + 1 : UInt32).toNat % 2 ^ 8 = 0 := rfl
    simp only [bump, same, carried, UInt32.toNat_zero]
    omega
  | patch =>
    obtain same : v.patch = 65535 := same
    have carried : (65535 + 1 : UInt32).toNat % 2 ^ 16 = 0 := rfl
    simp only [bump, same, carried]
    omega

/-- Bumping makes a version newer, and the packed form follows exactly as long as the
field of the component is below its limit. -/
theorem bump_newer (x : UInt32) (c : Component) :
    lt (unpack x) (bump (unpack x) c) = true ∧
    (pack (bump (unpack x) c) > x ↔ (unpack x).field c < c.limit) ∧
    (lt (unpack x) (unpack (pack (bump (unpack x) c))) = true ↔ (unpack x).field c < c.limit) := by
  have fits := fits_unpack x
  have newer : lt (unpack x) (bump (unpack x) c) = true := by
    have within := fits.field_le c
    have small := c.limit_le
    exact lt_bump (by omega)
  have packed : pack (bump (unpack x) c) > x ↔ (unpack x).field c < c.limit := by
    rw [gt_iff_lt, UInt32.lt_iff_toNat_lt]
    constructor
    · intro above
      by_contra full
      have below := fits.pack_bump_le full
      rw [number_unpack] at below
      omega
    · intro room
      have fits' := fits.fits_bump room
      rwa [fits'.toNat_pack, ← number_unpack x, ← fits.lt_iff_number fits']
  exact ⟨newer, packed, (lt_unpack_iff _ _).trans packed⟩

/-- A patch number at its limit: the bumped version is packed as version 0.0.0. -/
theorem full_patch_packs_older :
    ¬(lt (unpack 65535) (bump (unpack 65535) .patch) = true ∧ pack (bump (unpack 65535) .patch) > 65535) := by
  decide

end Bumping

end Version

end Rbc
