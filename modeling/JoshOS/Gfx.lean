import JoshOS.Boot.Josh

/-!
Pixels in the framebuffer (`kernel/src/gfx.c`).

`put_pixel` is where all drawing ends.  It stores one 32-bit word, or nothing, and the store
is kept apart from its effect on memory: an address with a value.

* `drawing_inside_framebuffer`: from an accepted boot on, drawing stays in the framebuffer.
-/

open Words

namespace JoshOS.Gfx

/-- `gfx_context_t`. -/
structure GfxContext where
  fb : BootFramebuffer
  width : UInt64
  height : UInt64

/-- A store of a 32-bit word. -/
structure Store where
  address : ℕ
  value : UInt32

/-- The bytes that a store writes. -/
def Store.bytes (store : Store) : Set ℕ := Set.Ico store.address (store.address + 4)

/-- The field of `size` bits from `shift` on.  The product is one of 64 bits. -/
def channel (value size shift : UInt8) : UInt32 :=
  if size = 0 then 0
  else
    let max := 2 ^ size.toNat - 1
    UInt32.ofNat ((wrap64 (value.toNat * max) / 255) <<< shift.toNat)

def gfxRgb (g : GfxContext) (r gch b : UInt8) : UInt32 :=
  channel r g.fb.redMaskSize g.fb.redMaskShift |||
    channel gch g.fb.greenMaskSize g.fb.greenMaskShift |||
    channel b g.fb.blueMaskSize g.fb.blueMaskShift

def gfxInit (fb : BootFramebuffer) : GfxContext := ⟨fb, fb.width, fb.height⟩

def putPixel (g : GfxContext) (x y : Int32) (colour : UInt32) : Option Store :=
  if g.fb.address = 0 ∨ x.toInt < 0 ∨ y.toInt < 0 ∨ g.width.toNat ≤ x.toInt.toNat ∨
      g.height.toNat ≤ y.toInt.toNat then
    none
  else
    let index := wrap64 (y.toInt.toNat * (g.fb.pitch.toNat / 4) + x.toInt.toNat)
    some ⟨wrap64 (g.fb.address.toNat + 4 * index), colour⟩

/-! ### Where a pixel is -/

/-- The coordinates lie within the picture. -/
structure Visible (fb : JoshFramebufferInfo) (x y : Int32) : Prop where
  x_nonneg : 0 ≤ x.toInt
  x_lt : x.toInt < fb.width.toNat
  y_nonneg : 0 ≤ y.toInt
  y_lt : y.toInt < fb.height.toNat

variable {fb : JoshFramebufferInfo} {x y x' y' : Int32}

/-- The index of a pixel among the words of the framebuffer. -/
def pixelIndex (fb : JoshFramebufferInfo) (x y : Int32) : ℕ :=
  y.toInt.toNat * (fb.pitch.toNat / 4) + x.toInt.toNat

lemma Visible.x_lt_row (h : Visible fb x y) (hfb : FramebufferOk fb) :
    x.toInt.toNat < fb.pitch.toNat / 4 := by
  have hx := h.x_lt
  have hnonneg := h.x_nonneg
  have hwidth := hfb.width_le
  omega

/-- A visible pixel lies before the end of the framebuffer. -/
lemma Visible.index_lt (h : Visible fb x y) (hfb : FramebufferOk fb) :
    4 * pixelIndex fb x y + 4 ≤ fb.pitch.toNat * fb.height.toNat := by
  have hrow := h.x_lt_row hfb
  have hy : y.toInt.toNat + 1 ≤ fb.height.toNat := by
    have hlt := h.y_lt
    have hnonneg := h.y_nonneg
    omega
  have hrows : (y.toInt.toNat + 1) * (fb.pitch.toNat / 4) ≤
      fb.height.toNat * (fb.pitch.toNat / 4) := Nat.mul_le_mul_right _ hy
  have hpitch : fb.pitch.toNat = 4 * (fb.pitch.toNat / 4) := by
    have := hfb.aligned
    omega
  calc 4 * pixelIndex fb x y + 4
      = 4 * (y.toInt.toNat * (fb.pitch.toNat / 4) + x.toInt.toNat + 1) := by
        rw [pixelIndex]
        ring
    _ ≤ 4 * ((y.toInt.toNat + 1) * (fb.pitch.toNat / 4)) := by
        rw [Nat.add_mul, Nat.one_mul]
        omega
    _ ≤ 4 * (fb.height.toNat * (fb.pitch.toNat / 4)) := Nat.mul_le_mul_left 4 hrows
    _ = fb.pitch.toNat * fb.height.toNat := by
        rw [← Nat.mul_left_comm, ← hpitch, Nat.mul_comm]

/-- Rows are long enough for two pixels to have two indices. -/
lemma Visible.index_ne (h : Visible fb x y) (h' : Visible fb x' y') (hfb : FramebufferOk fb)
    (hne : (x, y) ≠ (x', y')) : pixelIndex fb x y ≠ pixelIndex fb x' y' := by
  have hrow := h.x_lt_row hfb
  have hrow' := h'.x_lt_row hfb
  intro heq
  rw [pixelIndex, pixelIndex] at heq
  have hy : y.toInt.toNat = y'.toInt.toNat := by
    have hpos : 0 < fb.pitch.toNat / 4 := by omega
    have hdiv := congrArg (· / (fb.pitch.toNat / 4)) heq
    simpa only [Nat.mul_add_div hpos, Nat.mul_comm _ (fb.pitch.toNat / 4),
      Nat.div_eq_of_lt hrow, Nat.div_eq_of_lt hrow', Nat.add_zero] using hdiv
  rw [hy] at heq
  have hx : x.toInt.toNat = x'.toInt.toNat := Nat.add_left_cancel heq
  refine hne (Prod.ext (Int32.toInt_inj.mp ?_) (Int32.toInt_inj.mp ?_))
  · have := h.x_nonneg
    have := h'.x_nonneg
    dsimp only
    omega
  · have := h.y_nonneg
    have := h'.y_nonneg
    dsimp only
    omega

/-- A visible pixel of an accepted framebuffer is stored at its index. -/
lemma putPixel_of_visible (h : Visible fb x y) (hfb : FramebufferOk fb) (colour : UInt32) :
    putPixel (gfxInit (contextFramebuffer fb)) x y colour =
      some ⟨fb.address.toNat + 4 * pixelIndex fb x y, colour⟩ := by
  have hend := h.index_lt hfb
  have hinside := hfb.inside
  have hbelow : fourGib < 2 ^ 64 := by norm_num [fourGib]
  have haddress : fb.address ≠ 0 := fun h0 => by
    have hpos := hfb.address_pos
    rw [h0] at hpos
    exact absurd hpos (by decide)
  have hwidth : (gfxInit (contextFramebuffer fb)).width.toNat = fb.width.toNat :=
    UInt32.toNat_toUInt64 _
  have hheight : (gfxInit (contextFramebuffer fb)).height.toNat = fb.height.toNat :=
    UInt32.toNat_toUInt64 _
  have hpitch : (gfxInit (contextFramebuffer fb)).fb.pitch.toNat = fb.pitch.toNat :=
    UInt32.toNat_toUInt64 _
  have hdrawn : ¬ ((gfxInit (contextFramebuffer fb)).fb.address = 0 ∨ x.toInt < 0 ∨ y.toInt < 0 ∨
      (gfxInit (contextFramebuffer fb)).width.toNat ≤ x.toInt.toNat ∨
      (gfxInit (contextFramebuffer fb)).height.toNat ≤ y.toInt.toNat) := by
    obtain ⟨hx0, hx, hy0, hy⟩ := h
    rw [hwidth, hheight]
    push Not
    exact ⟨haddress, hx0, hy0, by omega, by omega⟩
  rw [putPixel, if_neg hdrawn]
  simp only [hpitch]
  rw [← pixelIndex, wrap64_of_lt (by omega : pixelIndex fb x y < 2 ^ 64)]
  congr 2
  exact wrap64_of_lt (show fb.address.toNat + 4 * pixelIndex fb x y < 2 ^ 64 by omega)

/-- Nothing else is drawn. -/
lemma visible_of_putPixel {colour : UInt32} {store : Store}
    (h : putPixel (gfxInit (contextFramebuffer fb)) x y colour = some store) : Visible fb x y := by
  rw [putPixel] at h
  split_ifs at h with hhidden
  push Not at hhidden
  obtain ⟨-, hx0, hy0, hx, hy⟩ := hhidden
  have hwidth : (gfxInit (contextFramebuffer fb)).width.toNat = fb.width.toNat :=
    UInt32.toNat_toUInt64 _
  have hheight : (gfxInit (contextFramebuffer fb)).height.toNat = fb.height.toNat :=
    UInt32.toNat_toUInt64 _
  exact ⟨hx0, by omega, hy0, by omega⟩

/-! ### Channels -/

/-- A bit of the field of `size` bits from `shift` on. -/
def InMask (size shift : UInt32) (bit : ℕ) : Prop :=
  shift.toNat ≤ bit ∧ bit < shift.toNat + size.toNat

/-- **A channel keeps to its mask.** -/
lemma channel_testBit {size shift : UInt32} (hmask : MaskOk size shift) (value : UInt8) {bit : ℕ}
    (h : (channel value size.toUInt8 shift.toUInt8).toNat.testBit bit = true) :
    InMask size shift bit := by
  obtain ⟨hpos, hfits⟩ := hmask
  have hsize : size.toUInt8.toNat = size.toNat := by
    rw [UInt32.toNat_toUInt8]
    omega
  have hshift : shift.toUInt8.toNat = shift.toNat := by
    rw [UInt32.toNat_toUInt8]
    omega
  have hne : size.toUInt8 ≠ 0 := fun h0 => by
    rw [h0] at hsize
    exact absurd hsize.symm hpos.ne'
  have hvalue := value.toNat_lt
  have hle : value.toNat * (2 ^ size.toNat - 1) ≤ 255 * (2 ^ size.toNat - 1) :=
    Nat.mul_le_mul_right _ (by omega)
  have hproduct : value.toNat * (2 ^ size.toNat - 1) < 2 ^ 64 := by
    have hpow : 2 ^ size.toNat ≤ 2 ^ 32 := Nat.pow_le_pow_right (by norm_num) (by omega)
    omega
  set level := value.toNat * (2 ^ size.toNat - 1) / 255 with hlevel
  have hlow : level < 2 ^ size.toNat := by
    have hpow := Nat.two_pow_pos size.toNat
    have := Nat.div_le_of_le_mul hle
    omega
  have hword : level <<< shift.toNat < 2 ^ 32 := by
    rw [Nat.shiftLeft_eq]
    calc level * 2 ^ shift.toNat < 2 ^ size.toNat * 2 ^ shift.toNat :=
          Nat.mul_lt_mul_of_pos_right hlow (Nat.two_pow_pos _)
      _ = 2 ^ (size.toNat + shift.toNat) := (pow_add ..).symm
      _ ≤ 2 ^ 32 := Nat.pow_le_pow_right (by norm_num) hfits
  rw [channel, if_neg hne] at h
  simp only [hsize, hshift, wrap64_of_lt hproduct, ← hlevel] at h
  rw [UInt32.toNat_ofNat', Nat.mod_eq_of_lt hword, Nat.testBit_shiftLeft, Bool.and_eq_true,
    decide_eq_true_eq] at h
  refine ⟨h.1, ?_⟩
  have hbit : bit - shift.toNat < size.toNat :=
    (Nat.pow_lt_pow_iff_right (by norm_num)).mp ((Nat.ge_two_pow_of_testBit h.2).trans_lt hlow)
  omega

/-! ### Drawing -/

/-- **Drawing stays inside the framebuffer.**  After an accepted boot the range of the
framebuffer ends below 4 GiB, every store of `put_pixel` lies within it, there is one exactly
for visible coordinates, two pixels share no byte, and a colour sets only bits of the three
channels. -/
theorem drawing_inside_framebuffer (mem : Memory) (info : JoshBootInfo) (context : JoshContext)
    (h : bootJoshContextInit mem info = .ok context) :
    let g := gfxInit context.framebuffer
    let fb := info.framebuffer
    context.boot.framebufferPhysEnd ≤ fourGib ∧
    (∀ x y colour store, putPixel g x y colour = some store →
      store.bytes ⊆
        Set.Ico context.boot.framebufferPhysStart context.boot.framebufferPhysEnd) ∧
    (∀ x y colour, (∃ store, putPixel g x y colour = some store) ↔
      0 ≤ x.toInt ∧ x.toInt < fb.width.toNat ∧ 0 ≤ y.toInt ∧ y.toInt < fb.height.toNat) ∧
    (∀ x y x' y' colour colour' store store', (x, y) ≠ (x', y') →
      putPixel g x y colour = some store → putPixel g x' y' colour' = some store' →
      Disjoint store.bytes store'.bytes) ∧
    ∀ r gch b bit, (gfxRgb g r gch b).toNat.testBit bit = true →
      InMask fb.redMaskSize fb.redMaskShift bit ∨
        InMask fb.greenMaskSize fb.greenMaskShift bit ∨
        InMask fb.blueMaskSize fb.blueMaskShift bit := by
  obtain ⟨hfb, hframe, hstart, hend⟩ := bootJoshContextInit_ok h
  intro g fb
  have hg : g = gfxInit (contextFramebuffer fb) := congrArg gfxInit hframe
  rw [hg, hstart, hend]
  have hstore {x y : Int32} {colour : UInt32} {store : Store}
      (hput : putPixel (gfxInit (contextFramebuffer fb)) x y colour = some store) :
      Visible fb x y ∧ store.address = fb.address.toNat + 4 * pixelIndex fb x y := by
    have hvisible := visible_of_putPixel hput
    rw [putPixel_of_visible hvisible hfb] at hput
    exact ⟨hvisible, (congrArg Store.address (Option.some.inj hput)).symm⟩
  refine ⟨hfb.inside, ?_, ?_, ?_, ?_⟩
  · intro x y colour store hput
    obtain ⟨hvisible, haddress⟩ := hstore hput
    have hlast := hvisible.index_lt hfb
    refine Set.Ico_subset_Ico ?_ ?_
    · rw [haddress]
      exact Nat.le_add_right _ _
    · rw [haddress]
      change _ ≤ fb.address.toNat + fb.pitch.toNat * fb.height.toNat
      omega
  · intro x y colour
    constructor
    · rintro ⟨store, hput⟩
      obtain ⟨⟨hx0, hx, hy0, hy⟩, -⟩ := hstore hput
      exact ⟨hx0, hx, hy0, hy⟩
    · rintro ⟨hx0, hx, hy0, hy⟩
      exact ⟨_, putPixel_of_visible ⟨hx0, hx, hy0, hy⟩ hfb colour⟩
  · intro x y x' y' colour colour' store store' hne hput hput'
    obtain ⟨hvisible, haddress⟩ := hstore hput
    obtain ⟨hvisible', haddress'⟩ := hstore hput'
    have hindex := hvisible.index_ne hvisible' hfb hne
    rw [Store.bytes, Store.bytes, haddress, haddress', Set.Ico_disjoint_Ico]
    omega
  · intro r gch b bit hbit
    rw [gfxRgb, UInt32.toNat_or, UInt32.toNat_or, Nat.testBit_or, Nat.testBit_or,
      Bool.or_eq_true, Bool.or_eq_true] at hbit
    rcases hbit with (hred | hgreen) | hblue
    · exact Or.inl (channel_testBit hfb.red r hred)
    · exact Or.inr (Or.inl (channel_testBit hfb.green gch hgreen))
    · exact Or.inr (Or.inr (channel_testBit hfb.blue b hblue))

/-- A boot with a framebuffer of two pixels in two rows, on cleared memory but for one entry of
the memory map. -/
def tinyBoot : JoshBootInfo where
  magic := joshBootInfoMagic
  abiMajor := 0
  abiMinor := 1
  totalSize := 224
  flags := 3
  memoryMapAddress := 0x1000
  memoryMapEntries := 1
  memoryMapEntrySize := 24
  framebuffer := ⟨0x2000, 1, 2, 8, 32, 8, 16, 8, 8, 8, 0⟩
  kernelPhysStart := 0x3000
  kernelPhysEnd := 0x4000
  kernelVirtStart := 0x3000
  kernelVirtEnd := 0x4000
  rsdpPhys := 0
  smbiosPhys := 0
  commandLineAddress := 0
  commandLineLength := 0
  kernelEntry := 0x3000

theorem drawing_inside_framebuffer_tinyBoot :
    ∃ context, bootJoshContextInit (fun a => if a = 0x1008 then 1 else 0) tinyBoot = .ok context ∧
      ∀ x y colour store, putPixel (gfxInit context.framebuffer) x y colour = some store →
        store.bytes ⊆
          Set.Ico context.boot.framebufferPhysStart context.boot.framebufferPhysEnd := by
  cases h : bootJoshContextInit (fun a => if a = 0x1008 then 1 else 0) tinyBoot with
  | error status =>
    have hok : (bootJoshContextInit (fun a => if a = 0x1008 then 1 else 0) tinyBoot).isOk =
        true := by decide +kernel
    rw [h] at hok
    cases hok
  | ok context => exact ⟨context, rfl, (drawing_inside_framebuffer _ _ context h).2.1⟩

end JoshOS.Gfx
