import JoshOS.Input.Queue

/-!
The PS/2 keyboard decoder (`kernel/src/keyboard_decode.c`).

The decoder turns the bytes of scan code set 1 into key events and keeps three modifier
bits.  Each of the three has two keys, told apart by their code or by the byte `0xe0` before
it, but the decoder looks at the code alone.  `Typing` is the decoder next to the keys that
are down.

* `Undisturbed`: no modifier key goes up while its twin is down, and a fake Shift code says
  what is already so.
* `modifiers_track_keys_iff`: the bits tell which keys are down, throughout a run, exactly
  when every byte of it leaves them undisturbed.
* `modifiers_lose_shift`: both Shift keys down, one of them up again.
-/

namespace JoshOS.Input

/-! ### The decoder -/

/-- `INPUT_MOD_SHIFT`. -/
def inputModShift : UInt16 := (1 : UInt16) <<< (0 : UInt16)

/-- `INPUT_MOD_CTRL`. -/
def inputModCtrl : UInt16 := (1 : UInt16) <<< (1 : UInt16)

/-- `INPUT_MOD_ALT`. -/
def inputModAlt : UInt16 := (1 : UInt16) <<< (2 : UInt16)

/-- `keyboard_decode_state_t`. -/
structure DecodeState where
  modifiers : UInt16
  extended : UInt8
deriving DecidableEq

/-- The table `normal` of `translate`. -/
def normal : String :=
  "\x00\x1b1234567890-=\x08\tqwertyuiop[]\n\x00asdfghjkl;'`\x00\\zxcvbnm,./\x00*\x00 "

/-- The table `shifted_map` of `translate`. -/
def shiftedMap : String :=
  "\x00\x1b!@#$%^&*()_+\x08\tQWERTYUIOP\x7b\x7d\n\x00ASDFGHJKL:\"~\x00|ZXCVBNM<>?\x00*\x00 "

def translate (code : UInt8) (shiftActive : Bool) : UInt8 :=
  if 58 ≤ code then 0
  else
    let table := if shiftActive then shiftedMap else normal
    UInt8.ofNat (table.toList.getD code.toNat '\x00').toNat

def keyboardDecodeReset : DecodeState := ⟨0, 0⟩

/-- A modifier bit cleared by a release and set by a press. -/
def setModifier (modifiers bit : UInt16) (released : Bool) : UInt16 :=
  if released then modifiers &&& ~~~bit else modifiers ||| bit

/-- The event, if the byte completes one. -/
def keyboardDecodeScancode (state : DecodeState) (scancode : UInt8) :
    Option Event × DecodeState :=
  if scancode = 0xe0 then (none, { state with extended := 1 })
  else if scancode = 0xe1 then (none, { state with extended := 0 })
  else
    let released : Bool := scancode &&& 0x80 ≠ 0
    let code := scancode &&& 0x7f
    let extendedBit : UInt16 := if state.extended ≠ 0 then 0x100 else 0
    let modifiers :=
      if code = 0x2a ∨ code = 0x36 then setModifier state.modifiers inputModShift released
      else if code = 0x1d then setModifier state.modifiers inputModCtrl released
      else if code = 0x38 then setModifier state.modifiers inputModAlt released
      else state.modifiers
    let event : Event :=
      { type := .key
        code := extendedBit ||| code.toUInt16
        modifiers := modifiers
        valueX := 0
        valueY := 0
        pressed := if released then 0 else 1
        character :=
          if released = false ∧ extendedBit = 0 then
            translate code (modifiers &&& inputModShift ≠ 0)
          else 0 }
    (some event, { modifiers := modifiers, extended := 0 })

/-- The tables have an entry for each code below 58. -/
example : normal.length = 58 ∧ shiftedMap.length = 58 := by decide

/-! ### The keys -/

/-- A key: whether its codes follow `0xe0`, and the code of its press. -/
abbrev Key := Bool × UInt8

/-- The modifiers. -/
inductive Modifier where
  | shift | ctrl | alt
deriving DecidableEq

namespace Modifier

def bit : Modifier → UInt16
  | shift => inputModShift
  | ctrl => inputModCtrl
  | alt => inputModAlt

def left : Modifier → Key
  | shift => (false, 0x2a)
  | ctrl => (false, 0x1d)
  | alt => (false, 0x38)

def right : Modifier → Key
  | shift => (false, 0x36)
  | ctrl => (true, 0x1d)
  | alt => (true, 0x38)

/-- The codes of the keys of a modifier; the decoder looks at nothing else. -/
def HasCode (m : Modifier) (code : UInt8) : Prop := code = m.left.2 ∨ code = m.right.2

instance (m : Modifier) (code : UInt8) : Decidable (m.HasCode code) :=
  inferInstanceAs (Decidable (code = m.left.2 ∨ code = m.right.2))

lemma eq_of_hasCode {m m' : Modifier} {code : UInt8} (h : m.HasCode code)
    (h' : m'.HasCode code) : m = m' := by
  have hall : ∀ m m' : Modifier, ¬ m = m' → m.left.2 ≠ m'.left.2 ∧ m.left.2 ≠ m'.right.2 ∧
      m.right.2 ≠ m'.left.2 ∧ m.right.2 ≠ m'.right.2 := by
    intro m m'
    cases m <;> cases m' <;> decide
  by_contra hne
  obtain ⟨hll, hlr, hrl, hrr⟩ := hall m m' hne
  rcases h with rfl | rfl <;> rcases h' with h' | h'
  · exact hll h'
  · exact hlr h'
  · exact hrl h'
  · exact hrr h'

end Modifier

/-! ### Modifier bits -/

lemma or_and_distrib (x a b : UInt16) : (x ||| a) &&& b = (x &&& b) ||| (a &&& b) := by
  rw [← UInt16.toNat_inj]
  simp only [UInt16.toNat_and, UInt16.toNat_or]
  exact Nat.and_or_distrib_right ..

/-- A modifier bit that is set or cleared is as the key is, and the others stay. -/
lemma setModifier_bit (modifiers : UInt16) (m m' : Modifier) (released : Bool) :
    setModifier modifiers m.bit released &&& m'.bit ≠ 0 ↔
      if m = m' then released = false else modifiers &&& m'.bit ≠ 0 := by
  have hsame : ∀ m : Modifier, m.bit &&& m.bit ≠ 0 ∧ ~~~m.bit &&& m.bit = 0 := by
    intro m
    cases m <;> decide
  have hother : ∀ m m' : Modifier, ¬ m = m' → m.bit &&& m'.bit = 0 ∧
      ~~~m.bit &&& m'.bit = m'.bit := by
    intro m m'
    cases m <;> cases m' <;> decide
  cases released with
  | true =>
    rw [setModifier, if_pos rfl, UInt16.and_assoc]
    split_ifs with heq
    · simp [← heq, (hsame m).2]
    · rw [(hother m m' heq).2]
  | false =>
    rw [setModifier, if_neg Bool.false_ne_true, or_and_distrib]
    split_ifs with heq
    · simp only [← heq, ne_eq, UInt16.or_eq_zero_iff, (hsame m).1, and_false, not_false_eq_true]
    · rw [(hother m m' heq).1, UInt16.or_zero]

/-- A byte that completes an event sets or clears the bit of the one modifier that has its
code, or leaves the bits alone. -/
lemma keyboardDecodeScancode_cases (state : DecodeState) {scancode : UInt8}
    (h : ¬ (scancode = 0xe0 ∨ scancode = 0xe1)) :
    (∃ m : Modifier, m.HasCode (scancode &&& 0x7f) ∧
      (keyboardDecodeScancode state scancode).2.modifiers =
        setModifier state.modifiers m.bit (scancode &&& 0x80 ≠ 0)) ∨
    ((∀ m : Modifier, ¬ m.HasCode (scancode &&& 0x7f)) ∧
      (keyboardDecodeScancode state scancode).2.modifiers = state.modifiers) := by
  obtain ⟨he0, he1⟩ := not_or.mp h
  simp only [keyboardDecodeScancode, he0, he1, if_false]
  by_cases hshift : Modifier.shift.HasCode (scancode &&& 0x7f)
  · exact .inl ⟨.shift, hshift, if_pos hshift⟩
  by_cases hctrl : scancode &&& 0x7f = 0x1d
  · exact .inl ⟨.ctrl, .inl hctrl, (if_neg hshift).trans (if_pos hctrl)⟩
  by_cases halt : scancode &&& 0x7f = 0x38
  · exact .inl ⟨.alt, .inl halt, (if_neg hshift).trans ((if_neg hctrl).trans (if_pos halt))⟩
  · refine .inr ⟨fun m hm => ?_, (if_neg hshift).trans ((if_neg hctrl).trans (if_neg halt))⟩
    cases m with
    | shift => exact hshift hm
    | ctrl => exact hctrl (or_self_iff.mp hm)
    | alt => exact halt (or_self_iff.mp hm)

/-- **What a byte does to a modifier bit**: a code of the modifier sets or clears it, no other
code changes it. -/
lemma keyboardDecodeScancode_modifiers (state : DecodeState) {scancode : UInt8}
    (h : ¬ (scancode = 0xe0 ∨ scancode = 0xe1)) (m : Modifier) :
    (keyboardDecodeScancode state scancode).2.modifiers &&& m.bit ≠ 0 ↔
      if m.HasCode (scancode &&& 0x7f) then scancode &&& 0x80 = 0
      else state.modifiers &&& m.bit ≠ 0 := by
  rcases keyboardDecodeScancode_cases state h with ⟨m', hcode, hnext⟩ | ⟨hnone, hnext⟩
  · rw [hnext, setModifier_bit]
    by_cases hm : m.HasCode (scancode &&& 0x7f)
    · rw [if_pos (Modifier.eq_of_hasCode hcode hm), if_pos hm]
      simp
    · have hne : m' ≠ m := fun heq => hm (heq ▸ hcode)
      rw [if_neg hne, if_neg hm]
  · rw [hnext, if_neg (hnone m)]

/-- The codes that some keyboards send around a key of the cursor block, to hide or to show
a Shift key to the host.  No key has them. -/
def IsFakeShift (key : Key) : Prop := key = (true, 0x2a) ∨ key = (true, 0x36)

/-- The decoder, the last byte it was given and the keys that are down. -/
structure Typing where
  decoder : DecodeState
  previous : UInt8
  held : Key → Bool

namespace Typing

/-- After `keyboard_decode_reset`, with no key down. -/
def start : Typing := ⟨keyboardDecodeReset, 0, fun _ => false⟩

/-- A byte announces a key that follows it. -/
def IsLead (scancode : UInt8) : Prop := scancode = 0xe0 ∨ scancode = 0xe1

instance (scancode : UInt8) : Decidable (IsLead scancode) :=
  inferInstanceAs (Decidable (scancode = 0xe0 ∨ scancode = 0xe1))

/-- The key that a byte is about. -/
def key (t : Typing) (scancode : UInt8) : Key := (t.previous = 0xe0, scancode &&& 0x7f)

/-- A byte tells of a press. -/
def pressed (scancode : UInt8) : Bool := scancode &&& 0x80 = 0

/-- One byte of the keyboard. -/
def step (t : Typing) (scancode : UInt8) : Option Event × Typing :=
  let r := keyboardDecodeScancode t.decoder scancode
  (r.1,
    { decoder := r.2
      previous := scancode
      held :=
        if IsLead scancode then t.held
        else Function.update t.held (t.key scancode) (pressed scancode) })

/-- One of the two keys of a modifier is down. -/
def Holds (t : Typing) (m : Modifier) : Prop := t.held m.left = true ∨ t.held m.right = true

/-- The modifier bits say which modifiers are held. -/
def Tracks (t : Typing) : Prop := ∀ m : Modifier, t.decoder.modifiers &&& m.bit ≠ 0 ↔ t.Holds m

/-- A byte after which the bits still say so: a modifier key goes up only when its twin is not
down, and a fake Shift code tells what is so already. -/
structure Undisturbed (t : Typing) (scancode : UInt8) : Prop where
  left : ∀ m : Modifier, t.key scancode = m.left → pressed scancode = false →
    t.held m.right = false
  right : ∀ m : Modifier, t.key scancode = m.right → pressed scancode = false →
    t.held m.left = false
  fake : IsFakeShift (t.key scancode) → (pressed scancode = true ↔ t.Holds .shift)

/-! ### One byte -/

variable {t : Typing} {scancode : UInt8} {m : Modifier}

lemma start_tracks : start.Tracks := by
  intro m
  simp [start, Holds, keyboardDecodeReset]

/-- Whether a modifier is held after a byte that completes an event. -/
lemma step_holds (hlead : ¬ IsLead scancode) :
    (t.step scancode).2.Holds m ↔
      (if m.left = t.key scancode then pressed scancode = true else t.held m.left = true) ∨
        (if m.right = t.key scancode then pressed scancode = true
          else t.held m.right = true) := by
  simp only [step, Holds, if_neg hlead, Function.update_apply]
  split_ifs <;> rfl

/-- The bit of a modifier after such a byte. -/
lemma step_bit (hlead : ¬ IsLead scancode) :
    (t.step scancode).2.decoder.modifiers &&& m.bit ≠ 0 ↔
      if m.HasCode (scancode &&& 0x7f) then pressed scancode = true
      else t.decoder.modifiers &&& m.bit ≠ 0 := by
  rw [pressed, decide_eq_true_eq]
  exact keyboardDecodeScancode_modifiers t.decoder hlead m

/-- A byte with the code of a modifier is about one of its two keys or about none. -/
lemma key_of_hasCode (h : m.HasCode (scancode &&& 0x7f)) :
    t.key scancode = m.left ∨ t.key scancode = m.right ∨
      (m = .shift ∧ IsFakeShift (t.key scancode)) := by
  rw [key]
  cases decide (t.previous = 0xe0) with
  | true =>
    cases m with
    | shift =>
      refine .inr (.inr ⟨rfl, ?_⟩)
      exact h.imp (congrArg (Prod.mk true)) (congrArg (Prod.mk true))
    | ctrl | alt => exact .inr (.inl (congrArg (Prod.mk true) (or_self_iff.mp h)))
  | false =>
    cases m with
    | shift =>
      rcases h with h | h
      · exact .inl (congrArg (Prod.mk false) h)
      · exact .inr (.inl (congrArg (Prod.mk false) h))
    | ctrl | alt => exact .inl (congrArg (Prod.mk false) (or_self_iff.mp h))

lemma left_ne_right (m : Modifier) : m.left ≠ m.right := by
  cases m <;> decide

/-- No key of a modifier has a fake Shift code. -/
lemma not_isFakeShift (m : Modifier) : ¬ IsFakeShift m.left ∧ ¬ IsFakeShift m.right := by
  cases m <;> simp [IsFakeShift, Modifier.left, Modifier.right]

/-- A byte about a modifier key agrees with the bit unless the key goes up while its twin is
down. -/
lemma agrees_iff_of_key {own twin : Key} (hlead : ¬ IsLead scancode)
    (hkeys : (own = m.left ∧ twin = m.right) ∨ (own = m.right ∧ twin = m.left))
    (hkey : t.key scancode = own) :
    ((t.step scancode).2.decoder.modifiers &&& m.bit ≠ 0 ↔ (t.step scancode).2.Holds m) ↔
      (pressed scancode = false → t.held twin = false) := by
  have hne := left_ne_right m
  have hcode : m.HasCode (scancode &&& 0x7f) := by
    rcases hkeys with ⟨rfl, -⟩ | ⟨rfl, -⟩
    · exact .inl (congrArg Prod.snd hkey)
    · exact .inr (congrArg Prod.snd hkey)
  rw [step_bit hlead, if_pos hcode, step_holds hlead, hkey]
  rcases hkeys with ⟨rfl, rfl⟩ | ⟨rfl, rfl⟩
  · rw [if_pos rfl, if_neg hne.symm]
    cases pressed scancode <;> simp
  · rw [if_neg hne, if_pos rfl]
    cases pressed scancode <;> simp

/-- A fake Shift code agrees with the bit when it tells what is so already. -/
lemma agrees_iff_of_fake (hlead : ¬ IsLead scancode) (hfake : IsFakeShift (t.key scancode)) :
    ((t.step scancode).2.decoder.modifiers &&& Modifier.shift.bit ≠ 0 ↔
      (t.step scancode).2.Holds .shift) ↔ (pressed scancode = true ↔ t.Holds .shift) := by
  have hcode : Modifier.shift.HasCode (scancode &&& 0x7f) :=
    hfake.imp (congrArg Prod.snd) (congrArg Prod.snd)
  obtain ⟨hleft, hright⟩ := not_isFakeShift .shift
  have hnotLeft : Modifier.shift.left ≠ t.key scancode := fun heq => hleft (heq ▸ hfake)
  have hnotRight : Modifier.shift.right ≠ t.key scancode := fun heq => hright (heq ▸ hfake)
  rw [step_bit hlead, if_pos hcode, step_holds hlead, if_neg hnotLeft, if_neg hnotRight]
  rfl

/-- `0xe0` and `0xe1` touch neither the bits nor the keys. -/
lemma Tracks.lead (h : t.Tracks) (hlead : IsLead scancode) : (t.step scancode).2.Tracks := by
  have hmodifiers : (t.step scancode).2.decoder.modifiers = t.decoder.modifiers := by
    rcases hlead with rfl | rfl
    · rfl
    · rfl
  have hheld : (t.step scancode).2.held = t.held := if_pos hlead
  intro m
  rw [hmodifiers, Holds, hheld]
  exact h m

lemma undisturbed_of_lead (hlead : IsLead scancode) : t.Undisturbed scancode := by
  have hcode (m : Modifier) : ¬ m.HasCode (scancode &&& 0x7f) := by
    rcases hlead with rfl | rfl
    · cases m <;> decide
    · cases m <;> decide
  refine ⟨fun m hkey => absurd (.inl (congrArg Prod.snd hkey)) (hcode m),
    fun m hkey => absurd (.inr (congrArg Prod.snd hkey)) (hcode m), fun hfake => ?_⟩
  exact absurd (hfake.imp (congrArg Prod.snd) (congrArg Prod.snd)) (hcode .shift)

/-- **One byte**: the bits say which modifiers are held after it exactly when it leaves them
undisturbed. -/
lemma Tracks.step_iff (h : t.Tracks) (scancode : UInt8) :
    (t.step scancode).2.Tracks ↔ t.Undisturbed scancode := by
  by_cases hlead : IsLead scancode
  · exact iff_of_true (h.lead hlead) (undisturbed_of_lead hlead)
  constructor
  · intro htracks
    refine ⟨fun m hkey => ?_, fun m hkey => ?_, fun hfake => ?_⟩
    · exact (agrees_iff_of_key hlead (.inl ⟨rfl, rfl⟩) hkey).mp (htracks m)
    · exact (agrees_iff_of_key hlead (.inr ⟨rfl, rfl⟩) hkey).mp (htracks m)
    · exact (agrees_iff_of_fake hlead hfake).mp (htracks .shift)
  · rintro ⟨hleft, hright, hfakes⟩ m
    by_cases hcode : m.HasCode (scancode &&& 0x7f)
    · rcases key_of_hasCode hcode with hkey | hkey | ⟨rfl, hfake⟩
      · exact (agrees_iff_of_key hlead (.inl ⟨rfl, rfl⟩) hkey).mpr (hleft m hkey)
      · exact (agrees_iff_of_key hlead (.inr ⟨rfl, rfl⟩) hkey).mpr (hright m hkey)
      · exact (agrees_iff_of_fake hlead hfake).mpr (hfakes hfake)
    · rw [step_bit hlead, if_neg hcode, step_holds hlead,
        if_neg fun heq => hcode (.inl (congrArg Prod.snd heq).symm),
        if_neg fun heq => hcode (.inr (congrArg Prod.snd heq).symm)]
      exact h m

end Typing

/-! ### Whole runs -/

/-- **Modifiers and keys.**  In every state that a sequence of bytes reaches, the three
modifier bits say which modifiers are held, exactly when every byte of it leaves them
undisturbed. -/
theorem modifiers_track_keys_iff (scancodes : List UInt8) :
    (∀ js, js <+: scancodes → (Runs.final Typing.step Typing.start js).Tracks) ↔
      Runs.Legal Typing.step Typing.Undisturbed Typing.start scancodes :=
  Runs.forall_final_iff_legal Typing.step (fun _ scancode h => h.step_iff scancode)
    Typing.start_tracks scancodes

/-- The left Shift key goes up while the right one is down. -/
theorem modifiers_lose_shift :
    let t := Runs.final Typing.step Typing.start [0x2a, 0x36, 0xaa]
    t.held Modifier.shift.right = true ∧ t.decoder.modifiers &&& inputModShift = 0 ∧
      ¬ t.Tracks := by
  intro t
  have hheld : t.held Modifier.shift.right = true := by decide
  have hbit : t.decoder.modifiers &&& inputModShift = 0 := by decide
  exact ⟨hheld, hbit, fun htracks => (htracks .shift).mpr (Or.inr hheld) hbit⟩

end JoshOS.Input
