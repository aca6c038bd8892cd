import Pc2Drc.VncInput
import Pc2Drc.Lib.Run

/-! What the server takes to be pressed after gamepad frames, across changes of the input mode. -/
namespace Pc2Drc

open Lib VncInput

variable {s : VncInput} {d : InputData} {b : PadButton} {down : Bool}

/-- A key symbol, or a pointer button by its bit of the mask. -/
inductive Control
  | key (sym : UInt32)
  | button (i : ℕ)
  deriving DecidableEq, Repr

/-- What the server takes to be pressed. -/
structure Held where
  keys : UInt32 → Bool
  mask : UInt32

def Held.see (h : Held) : RfbEvent → Held
  | .key sym down => { h with keys := Function.update h.keys sym down }
  | .pointer _ _ mask => { h with mask := mask }
  | .updateRequest .. => h

/-- A press was sent for the control, and no release after it. -/
def Held.Holds (h : Held) : Control → Prop
  | .key sym => h.keys sym = true
  | .button i => h.mask.toBitVec.getLsbD i = true

instance (h : Held) (c : Control) : Decidable (h.Holds c) :=
  match c with
  | .key sym => inferInstanceAs (Decidable (h.keys sym = true))
  | .button i => inferInstanceAs (Decidable (h.mask.toBitVec.getLsbD i = true))

def VncInput.held (s : VncInput) : Held :=
  s.sent.foldl Held.see ⟨fun _ => false, 0⟩

/-- The controls that a gamepad button is mapped to. -/
def PadButton.controls : PadButton → List Control
  | .lbutton => [.button 0]
  | .rbutton => [.button 2]
  | .dhat => [.button 4]
  | .uhat => [.button 3]
  | .rhat => [.key 65363]
  | .lhat => [.key 65361]
  | .abtn => [.key 65293]
  | .bbtn => [.key 65288]
  | .xbtn => [.key 32]
  | .ybtn => [.key 65289]
  | .startbtn => [.key 65507, .key 118]
  | .selectbtn => [.key 65507, .key 99]
  | .homebtn => [.key 65307]
  | .tvbutton => []
  | .pwrbutton => []

@[simp]
theorem held_sendKeyEvent (sym : UInt32) :
    (s.sendKeyEvent sym down).held =
      { s.held with keys := Function.update s.held.keys sym down } := by
  simp [held, sendKeyEvent, send, Held.see]

@[simp]
theorem held_sendPointerEvent (x y : Int32) :
    (s.sendPointerEvent x y).held = { s.held with mask := s.buttonMask } := by
  simp [held, sendPointerEvent, send, Held.see]

@[simp]
theorem held_sendMask (mask : UInt32) : (s.sendMask mask).held = { s.held with mask := mask } :=
  held_sendPointerEvent _ _

@[simp]
theorem buttonMask_sendMask (mask : UInt32) : (s.sendMask mask).buttonMask = mask :=
  rfl

@[simp]
theorem buttonMask_sendKeyEvent (sym : UInt32) :
    (s.sendKeyEvent sym down).buttonMask = s.buttonMask :=
  rfl

/-- Setting and clearing one bit of a mask. -/
theorem getLsbD_set {m c : UInt32} {j : ℕ} (hc : c.toBitVec = BitVec.twoPow 32 j) (hj : j < 32)
    (i : ℕ) : (m ||| c).toBitVec.getLsbD i = (m.toBitVec.getLsbD i || decide (i = j)) := by
  rw [UInt32.toBitVec_or, BitVec.getLsbD_or, hc, BitVec.getLsbD_twoPow]
  simp [hj, eq_comm]

theorem getLsbD_clear {m c : UInt32} {j : ℕ} (hc : c.toBitVec = BitVec.twoPow 32 j)
    (i : ℕ) : (m &&& ~~~c).toBitVec.getLsbD i = (m.toBitVec.getLsbD i && decide (i ≠ j)) := by
  rw [UInt32.toBitVec_and, BitVec.getLsbD_and, UInt32.toBitVec_not, BitVec.getLsbD_not, hc,
    BitVec.getLsbD_twoPow]
  by_cases hi : i < 32
  · by_cases hij : i = j
    · simp [hij, hij ▸ hi]
    · simp [hi, hij, Ne.symm hij]
  · simp [BitVec.getLsbD_of_ge _ _ (Nat.not_lt.mp hi)]

theorem holds_click {m c : UInt32} {j : ℕ} (hc : c.toBitVec = BitVec.twoPow 32 j) (hj : j < 32)
    {i : ℕ} (h : (if down then m ||| c else m &&& ~~~c).toBitVec.getLsbD i = true) :
    (i = j ∧ down = true) ∨ (m.toBitVec.getLsbD i = true ∧ i ≠ j) := by
  cases down with
  | true =>
    rw [if_pos rfl, getLsbD_set hc hj] at h
    by_cases hij : i = j
    · exact .inl ⟨hij, rfl⟩
    · exact .inr ⟨by simpa [hij] using h, hij⟩
  | false =>
    rw [if_neg (by decide), getLsbD_clear hc] at h
    exact .inr (by simpa using h)

theorem holds_tap {m c : UInt32} {j : ℕ} (hc : c.toBitVec = BitVec.twoPow 32 j) (hj : j < 32)
    {i : ℕ} (h : ((m ||| c) &&& ~~~c).toBitVec.getLsbD i = true) :
    m.toBitVec.getLsbD i = true ∧ i ≠ j := by
  rw [getLsbD_clear hc, getLsbD_set hc hj] at h
  by_cases hij : i = j
  · simp [hij] at h
  · exact ⟨by simpa [hij] using h, hij⟩

theorem holds_update {keys : UInt32 → Bool} {sym sym' : UInt32}
    (h : Function.update keys sym down sym' = true) :
    (sym' = sym ∧ down = true) ∨ (keys sym' = true ∧ sym' ≠ sym) := by
  by_cases hs : sym' = sym
  · subst hs
    exact .inl ⟨rfl, by simpa using h⟩
  · exact .inr ⟨by simpa [Function.update, hs] using h, hs⟩

theorem holds_chord {keys : UInt32 → Bool} {sym₁ sym₂ sym' : UInt32}
    (h : Function.update (Function.update keys sym₁ down) sym₂ down sym' = true) :
    ((sym' = sym₁ ∨ sym' = sym₂) ∧ down = true) ∨
      (keys sym' = true ∧ sym' ≠ sym₁ ∧ sym' ≠ sym₂) := by
  rcases holds_update h with ⟨hs, hdown⟩ | ⟨h, hs₂⟩
  · exact .inl ⟨.inr hs, hdown⟩
  · rcases holds_update h with ⟨hs, hdown⟩ | ⟨h, hs₁⟩
    · exact .inl ⟨.inl hs, hdown⟩
    · exact .inr ⟨h, hs₁, hs₂⟩

theorem holds_react_key {sym : UInt32} (h : (react b down s).held.Holds (.key sym)) :
    (.key sym ∈ b.controls ∧ down = true) ∨ (s.held.Holds (.key sym) ∧ .key sym ∉ b.controls) := by
  cases b with
  | rhat | lhat | abtn | bbtn | xbtn | ybtn | homebtn =>
    simp only [react, Held.Holds, held_sendKeyEvent] at h
    simpa [PadButton.controls, Held.Holds] using holds_update h
  | startbtn | selectbtn =>
    cases down with
    | true =>
      simp only [react, Held.Holds, held_sendKeyEvent] at h
      simpa [PadButton.controls, Held.Holds] using holds_chord h
    | false =>
      simp only [react, Held.Holds, held_sendKeyEvent] at h
      simpa [PadButton.controls, Held.Holds, and_comm] using holds_chord h
  | uhat =>
    cases down with
    | true => simpa [react, Held.Holds, PadButton.controls] using h
    | false => simpa [react, Held.Holds, PadButton.controls] using h
  | lbutton | rbutton | dhat | tvbutton | pwrbutton =>
    simpa [react, Held.Holds, PadButton.controls] using h

theorem holds_react_button {i : ℕ} (hmask : s.held.mask = s.buttonMask)
    (h : (react b down s).held.Holds (.button i)) :
    (.button i ∈ b.controls ∧ down = true) ∨
      (s.held.Holds (.button i) ∧ .button i ∉ b.controls) := by
  cases b with
  | lbutton =>
    simp only [react, Held.Holds, held_sendMask, ← hmask] at h
    simpa [PadButton.controls, Held.Holds] using holds_click (j := 0) rfl (by decide) h
  | rbutton =>
    simp only [react, Held.Holds, held_sendMask, ← hmask] at h
    simpa [PadButton.controls, Held.Holds] using holds_click (j := 2) rfl (by decide) h
  | dhat =>
    simp only [react, Held.Holds, held_sendMask, buttonMask_sendMask, ← hmask] at h
    simpa [PadButton.controls, Held.Holds] using Or.inr (holds_tap (j := 4) rfl (by decide) h)
  | uhat =>
    cases down with
    | true =>
      simp only [react, Held.Holds, held_sendMask, buttonMask_sendMask, ← hmask] at h
      simpa [PadButton.controls, Held.Holds] using Or.inr (holds_tap (j := 3) rfl (by decide) h)
    | false =>
      -- The release masks with 8 instead of its complement, which lets every button go.
      simp only [react, Held.Holds, held_sendMask, buttonMask_sendMask] at h
      have hzero : s.buttonMask &&& ~~~8 &&& 8 = 0 := by
        rw [UInt32.and_assoc, show (~~~8 &&& 8 : UInt32) = 0 by decide, UInt32.and_zero]
      rw [hzero] at h
      simp at h
  | startbtn | selectbtn =>
    cases down with
    | true => simpa [react, Held.Holds, PadButton.controls] using h
    | false => simpa [react, Held.Holds, PadButton.controls] using h
  | rhat | lhat | abtn | bbtn | xbtn | ybtn | homebtn | tvbutton | pwrbutton =>
    simpa [react, Held.Holds, PadButton.controls] using h

/-- A control that is held after a reaction was pressed by it, or it was held before and is another
one. -/
theorem holds_react {c : Control} (hmask : s.held.mask = s.buttonMask)
    (h : (react b down s).held.Holds c) :
    (c ∈ b.controls ∧ down = true) ∨ (s.held.Holds c ∧ c ∉ b.controls) := by
  cases c with
  | key sym => exact holds_react_key h
  | button i => exact holds_react_button hmask h

/-- A key that a button is not mapped to is left alone by it. -/
theorem keys_react {sym : UInt32} (h : .key sym ∉ b.controls) :
    (react b down s).held.keys sym = s.held.keys sym := by
  cases b <;> cases down <;> simp_all [react, PadButton.controls]

/-- What handling a button leaves as it is. -/
structure VncInput.Keeps (s s' : VncInput) : Prop where
  prev : s'.prev = s.prev
  mode : s'.drcJoystickMode = s.drcJoystickMode
  viewOnly : s'.viewOnly = s.viewOnly
  prevX : s'.prevX = s.prevX
  prevY : s'.prevY = s.prevY
  mask : s.held.mask = s.buttonMask → s'.held.mask = s'.buttonMask

theorem VncInput.Keeps.refl (s : VncInput) : s.Keeps s :=
  ⟨rfl, rfl, rfl, rfl, rfl, id⟩

theorem VncInput.Keeps.trans {s₁ s₂ s₃ : VncInput} (h : s₁.Keeps s₂) (h' : s₂.Keeps s₃) :
    s₁.Keeps s₃ :=
  ⟨h'.prev.trans h.prev, h'.mode.trans h.mode, h'.viewOnly.trans h.viewOnly,
    h'.prevX.trans h.prevX, h'.prevY.trans h.prevY, h'.mask ∘ h.mask⟩

theorem keeps_react (b : PadButton) (down : Bool) (s : VncInput) : s.Keeps (react b down s) := by
  cases b <;> cases down <;> exact ⟨rfl, rfl, rfl, rfl, rfl, fun h => by simp [react, h]⟩

theorem keeps_ifChanged {body : Bool → VncInput → VncInput}
    (h : ∀ (down : Bool) (s : VncInput), s.Keeps (body down s)) (b : PadButton) (s : VncInput) :
    s.Keeps (s.ifChanged d b body) := by
  rw [ifChanged]
  split_ifs
  · exact h _ s
  · exact .refl s

theorem keeps_foldl (bs : List PadButton) (s : VncInput) :
    s.Keeps (bs.foldl (fun s b => s.ifChanged d b (react b)) s) := by
  induction bs generalizing s with
  | nil => exact .refl s
  | cons b bs ih => exact (keeps_ifChanged (keeps_react b) b s).trans (ih _)

theorem keeps_mouseEvents (d : InputData) (s : VncInput) : s.Keeps (s.mouseEvents d) := by
  have hselect : ∀ (down : Bool) (s : VncInput),
      s.Keeps ((react .selectbtn down s).ifChanged d .homebtn (react .homebtn)) := by
    intro down s
    exact (keeps_react .selectbtn down s).trans (keeps_ifChanged (keeps_react .homebtn) .homebtn _)
  rw [mouseEvents]
  exact (keeps_foldl mouseButtons s).trans (keeps_ifChanged hselect .selectbtn _)

theorem holds_ifChanged {c : Control} (hmask : s.held.mask = s.buttonMask)
    (h : (s.ifChanged d b (react b)).held.Holds c) :
    (c ∈ b.controls ∧ d.value b ≠ 0) ∨
      (s.held.Holds c ∧ (c ∈ b.controls → d.value b = s.prev b)) := by
  rw [ifChanged] at h
  split_ifs at h with hch
  · rcases holds_react hmask h with ⟨hc, hdown⟩ | ⟨hheld, hc⟩
    · exact .inl ⟨hc, of_decide_eq_true hdown⟩
    · exact .inr ⟨hheld, fun hmem => absurd hmem hc⟩
  · exact .inr ⟨h, fun _ => not_not.mp hch⟩

theorem holds_foldl {c : Control} {bs : List PadButton} (hmask : s.held.mask = s.buttonMask)
    (h : (bs.foldl (fun s b => s.ifChanged d b (react b)) s).held.Holds c) :
    (∃ b, c ∈ b.controls ∧ d.value b ≠ 0) ∨
      (s.held.Holds c ∧ ∀ b ∈ bs, c ∈ b.controls → d.value b = s.prev b) := by
  induction bs generalizing s with
  | nil => exact .inr ⟨h, by simp⟩
  | cons b bs ih =>
    have hkeep := keeps_ifChanged (d := d) (keeps_react b) b s
    rcases ih (hkeep.mask hmask) h with hpressed | ⟨hheld, hbs⟩
    · exact .inl hpressed
    · rcases holds_ifChanged hmask hheld with hpressed | ⟨hheld, hb⟩
      · exact .inl ⟨b, hpressed⟩
      · rw [hkeep.prev] at hbs
        exact .inr ⟨hheld, List.forall_mem_cons.mpr ⟨hb, hbs⟩⟩

/-- Home is looked at only when Select changes. -/
def VncInput.Ignored (s : VncInput) (d : InputData) (b : PadButton) : Prop :=
  b = .homebtn ∧ d.value .selectbtn = s.prev .selectbtn

theorem mem_mouseButtons {c : Control} (h : c ∈ b.controls) :
    b ∈ mouseButtons ∨ b = .selectbtn ∨ b = .homebtn := by
  cases b with
  | tvbutton | pwrbutton => cases h
  | _ => decide

/-- A control held after the block for mouse mode belongs to a pressed button, or it was held before
and no button that it belongs to was seen to change. -/
theorem holds_mouseEvents {c : Control} (hmask : s.held.mask = s.buttonMask)
    (h : (s.mouseEvents d).held.Holds c) :
    (∃ b, c ∈ b.controls ∧ d.value b ≠ 0) ∨
      (s.held.Holds c ∧ ∀ b, c ∈ b.controls → d.value b = s.prev b ∨ s.Ignored d b) := by
  rw [mouseEvents] at h
  generalize ht : mouseButtons.foldl (fun s b => s.ifChanged d b (react b)) s = t at h
  have hkeep : s.Keeps t := ht ▸ keeps_foldl mouseButtons s
  rw [ifChanged, hkeep.prev] at h
  split_ifs at h with hselect
  · have hkeep' := keeps_react .selectbtn (d.value .selectbtn ≠ 0) t
    rcases holds_ifChanged (hkeep'.mask (hkeep.mask hmask)) h with hpressed | ⟨h, hhome⟩
    · exact .inl ⟨_, hpressed⟩
    rcases holds_react (hkeep.mask hmask) h with ⟨hc, hdown⟩ | ⟨h, hc⟩
    · exact .inl ⟨_, hc, of_decide_eq_true hdown⟩
    rw [hkeep'.prev, hkeep.prev] at hhome
    rcases holds_foldl hmask (ht ▸ h) with hpressed | ⟨h, hbs⟩
    · exact .inl hpressed
    refine .inr ⟨h, fun b hb => .inl ?_⟩
    rcases mem_mouseButtons hb with hmem | rfl | rfl
    · exact hbs b hmem hb
    · exact absurd hb hc
    · exact hhome hb
  · rcases holds_foldl hmask (ht ▸ h) with hpressed | ⟨h, hbs⟩
    · exact .inl hpressed
    refine .inr ⟨h, fun b hb => ?_⟩
    rcases mem_mouseButtons hb with hmem | rfl | rfl
    · exact .inl (hbs b hmem hb)
    · exact .inl (not_not.mp hselect)
    · exact .inr ⟨rfl, not_not.mp hselect⟩

theorem keys_foldl {sym : UInt32} {bs : List PadButton} (h : ∀ b ∈ bs, .key sym ∉ b.controls) :
    (bs.foldl (fun s b => s.ifChanged d b (react b)) s).held.keys sym = s.held.keys sym := by
  induction bs generalizing s with
  | nil => rfl
  | cons b bs ih =>
    rw [List.forall_mem_cons] at h
    rw [List.foldl_cons, ih h.2, ifChanged]
    split_ifs
    · exact keys_react h.1
    · rfl

/-- As long as Select does not change, Escape stays as it is. -/
theorem escape_mouseEvents (h : d.value .selectbtn = s.prev .selectbtn) :
    (s.mouseEvents d).held.keys 65307 = s.held.keys 65307 := by
  have hkeep := keeps_foldl (d := d) mouseButtons s
  rw [mouseEvents, ifChanged, hkeep.prev, if_neg (not_not.mpr h)]
  exact keys_foldl (by decide)

theorem eq_homebtn (h : .key 65307 ∈ b.controls) : b = .homebtn := by
  cases b with
  | homebtn => rfl
  | _ => exact absurd h (by decide)

/-- The input mode after the TV button has been looked at. -/
def VncInput.modeAfter (s : VncInput) (d : InputData) : Bool :=
  if d.value .tvbutton ≠ s.prev .tvbutton ∧ d.value .tvbutton ≠ 0 then !s.drcJoystickMode
  else s.drcJoystickMode

theorem toggleMode_eq : s.toggleMode d = { s with drcJoystickMode := s.modeAfter d } := by
  rw [toggleMode, ifChanged, modeAfter]
  by_cases hch : d.value .tvbutton = s.prev .tvbutton
  · simp [hch]
  · by_cases hdown : d.value .tvbutton = 0
    · simp [hdown]
    · simp [hch, hdown]

/-- The buttons of a frame are the same as before, or they are looked at in one of the modes. -/
theorem buttonEvents_cases (s : VncInput) (d : InputData) :
    (d.buttons = s.prevButtons ∧ s.buttonEvents d = s) ∨
    (d.buttons ≠ s.prevButtons ∧ s.modeAfter d = true ∧ s.buttonEvents d =
      { s with drcJoystickMode := true, prev := d.value, prevButtons := d.buttons }) ∨
    (d.buttons ≠ s.prevButtons ∧ s.modeAfter d = false ∧ s.buttonEvents d =
      { ({ s with drcJoystickMode := false } : VncInput).mouseEvents d with
        prev := d.value, prevButtons := d.buttons }) := by
  by_cases hb : d.buttons = s.prevButtons
  · exact .inl ⟨hb, by simp [buttonEvents, hb]⟩
  · cases hmode : s.modeAfter d with
    | true => exact .inr (.inl ⟨hb, rfl, by simp [buttonEvents, hb, toggleMode_eq, hmode]⟩)
    | false => exact .inr (.inr ⟨hb, rfl, by simp [buttonEvents, hb, toggleMode_eq, hmode]⟩)

/-- The mask was sent as it is, and the remembered values are those of one frame. -/
structure VncInput.Linked (s : VncInput) : Prop where
  mask : s.held.mask = s.buttonMask
  prev : ∀ b : PadButton, s.prev b = s.prevButtons &&& b.mask

/-- In joystick mode nothing is held, and in mouse mode nothing but controls of buttons that are
pressed. -/
def VncInput.Released (s : VncInput) (buttons : PadButton → UInt32) : Prop :=
  (s.drcJoystickMode = true → ∀ c, ¬ s.held.Holds c) ∧
  (s.drcJoystickMode = false → ∀ c, s.held.Holds c → ∃ b, c ∈ b.controls ∧ buttons b ≠ 0)

theorem VncInput.Linked.buttonEvents (h : s.Linked) (d : InputData) :
    (s.buttonEvents d).Linked := by
  rcases buttonEvents_cases s d with ⟨-, heq⟩ | ⟨-, -, heq⟩ | ⟨-, -, heq⟩
  · rw [heq]
    exact h
  · rw [heq]
    exact ⟨h.mask, fun _ => rfl⟩
  · have hkeep := keeps_mouseEvents d { s with drcJoystickMode := false }
    generalize mouseEvents d { s with drcJoystickMode := false } = t at heq hkeep
    rw [heq]
    exact ⟨hkeep.mask h.mask, fun _ => rfl⟩

theorem prev_buttonEvents (h : s.Linked) : (s.buttonEvents d).prev = d.value := by
  rcases buttonEvents_cases s d with ⟨hb, heq⟩ | ⟨-, -, heq⟩ | ⟨-, -, heq⟩
  · rw [heq]
    funext b
    rw [h.prev, InputData.value, hb]
  · rw [heq]
  · rw [heq]

/-- A touch repeats the mask that the server already has. -/
theorem held_touchEvents (h : s.held.mask = s.buttonMask) : (s.touchEvents d).held = s.held := by
  rw [touchEvents]
  split_ifs
  · have heq := held_sendPointerEvent (s := s) d.x d.y
    rw [← h] at heq
    exact heq
  · rfl

theorem touchEvents_frame : (s.touchEvents d).prev = s.prev ∧
    (s.touchEvents d).prevButtons = s.prevButtons ∧ (s.touchEvents d).buttonMask = s.buttonMask ∧
    (s.touchEvents d).drcJoystickMode = s.drcJoystickMode := by
  rw [touchEvents]
  split_ifs <;> exact ⟨rfl, rfl, rfl, rfl⟩

theorem VncInput.Linked.processDrcInput (h : s.Linked) (d : InputData) :
    (s.processDrcInput d).Linked := by
  have hb := h.buttonEvents d
  obtain ⟨hprev, hbuttons, hmask, -⟩ := touchEvents_frame (s := s.buttonEvents d) (d := d)
  constructor
  · rw [VncInput.processDrcInput, held_touchEvents hb.mask, hmask, hb.mask]
  · intro b
    rw [VncInput.processDrcInput, hprev, hbuttons, hb.prev]

theorem prev_processDrcInput (h : s.Linked) : (s.processDrcInput d).prev = d.value := by
  rw [processDrcInput, touchEvents_frame.1, prev_buttonEvents h]

theorem released_processDrcInput (h : s.Linked) {v : PadButton → UInt32} :
    (s.processDrcInput d).Released v ↔ (s.buttonEvents d).Released v := by
  rw [processDrcInput, Released, Released, held_touchEvents (h.buttonEvents d).mask,
    touchEvents_frame.2.2.2]

/-- What a frame must respect: it turns joystick mode on only while nothing is held, and it does not
release Home without a change of Select while Escape is held. -/
def VncInput.CallOk (s : VncInput) (d : InputData) : Prop :=
  (s.drcJoystickMode = false → s.modeAfter d = true → ∀ c, ¬ s.held.Holds c) ∧
  (d.value .homebtn = 0 → d.value .selectbtn = s.prev .selectbtn → ¬ s.held.Holds (.key 65307))

/-- A frame that changes no button changes nothing that is held. -/
theorem callOk_of_same (hl : s.Linked) (hr : s.Released s.prev) (hb : d.buttons = s.prevButtons) :
    s.CallOk d := by
  have hv : ∀ b, d.value b = s.prev b := by
    intro b
    rw [hl.prev, InputData.value, hb]
  constructor
  · intro hmouse hmode
    simp [modeAfter, hv, hmouse] at hmode
  · intro hhome hselect hesc
    cases hmode : s.drcJoystickMode with
    | true => exact hr.1 hmode _ hesc
    | false =>
      obtain ⟨b, hmem, hpressed⟩ := hr.2 hmode _ hesc
      obtain rfl := eq_homebtn hmem
      exact hpressed ((hv _).symm.trans hhome)

theorem released_mouseEvents (hl : s.Linked) (hr : s.Released s.prev)
    (hesc : d.value .homebtn = 0 → d.value .selectbtn = s.prev .selectbtn →
      ¬ s.held.Holds (.key 65307)) {c : Control}
    (hc : (mouseEvents d { s with drcJoystickMode := false }).held.Holds c) :
    ∃ b, c ∈ b.controls ∧ d.value b ≠ 0 := by
  have hmask : ({ s with drcJoystickMode := false } : VncInput).held.mask = s.buttonMask := hl.mask
  rcases holds_mouseEvents hmask hc with hpressed | ⟨hheld, hsame⟩
  · exact hpressed
  cases hmode : s.drcJoystickMode with
  | true => exact absurd hheld (hr.1 hmode c)
  | false =>
    obtain ⟨b, hmem, hpressed⟩ := hr.2 hmode c hheld
    rcases hsame b hmem with hb | ⟨rfl, hselect⟩
    · exact ⟨b, hmem, hb ▸ hpressed⟩
    · refine ⟨.homebtn, hmem, fun hhome => hesc hhome hselect ?_⟩
      obtain rfl := List.mem_singleton.mp hmem
      exact hheld

/-- One frame keeps everything released exactly when it respects the condition. -/
theorem released_buttonEvents_iff (hl : s.Linked) (hr : s.Released s.prev) :
    (s.buttonEvents d).Released d.value ↔ s.CallOk d := by
  rcases buttonEvents_cases s d with ⟨hb, heq⟩ | ⟨-, hmode, heq⟩ | ⟨-, hmode, heq⟩
  · have hprev := prev_buttonEvents (d := d) hl
    rw [heq] at hprev
    rw [heq, ← hprev]
    exact ⟨fun _ => callOk_of_same hl hr hb, fun _ => hr⟩
  · rw [heq]
    constructor
    · intro h
      exact ⟨fun _ _ => h.1 rfl, fun _ _ => h.1 rfl _⟩
    · rintro ⟨hswitch, -⟩
      refine ⟨fun _ => ?_, nofun⟩
      cases hs : s.drcJoystickMode with
      | true => exact hr.1 hs
      | false => exact hswitch hs hmode
  · have hkeep := keeps_mouseEvents d { s with drcJoystickMode := false }
    constructor
    · intro h
      refine ⟨fun _ hm => absurd hmode (by simp [hm]), fun hhome hselect hesc => ?_⟩
      have hafter : (mouseEvents d { s with drcJoystickMode := false }).held.Holds (.key 65307) :=
        (escape_mouseEvents (s := { s with drcJoystickMode := false }) hselect).trans hesc
      generalize mouseEvents d { s with drcJoystickMode := false } = t at heq hkeep hafter
      rw [heq] at h
      obtain ⟨b, hmem, hpressed⟩ := h.2 hkeep.mode _ hafter
      obtain rfl := eq_homebtn hmem
      exact hpressed hhome
    · rintro ⟨-, hesc⟩
      have hall := fun c => released_mouseEvents (c := c) hl hr hesc
      generalize mouseEvents d { s with drcJoystickMode := false } = t at heq hkeep hall
      rw [heq]
      refine ⟨fun hm => ?_, fun _ => hall⟩
      rw [show t.drcJoystickMode = false from hkeep.mode] at hm
      cases hm

/-- The state after some frames, from the one in which the client starts. -/
def inputAfter (viewOnly joystick : Bool) (height : Int32) (frames : List InputData) : VncInput :=
  frames.foldl processDrcInput (VncInput.init viewOnly joystick height)

/-- Nothing stays pressed: what is held after the last frame is empty in joystick mode and belongs
to pressed buttons in mouse mode. -/
def NothingStuck (viewOnly joystick : Bool) (height : Int32) (frames : List InputData) : Prop :=
  ∀ d, frames.getLast? = some d → (inputAfter viewOnly joystick height frames).Released d.value

theorem inputAfter_snoc (viewOnly joystick : Bool) (height : Int32) (frames : List InputData)
    (d : InputData) : inputAfter viewOnly joystick height (frames ++ [d]) =
      (inputAfter viewOnly joystick height frames).processDrcInput d := by
  simp [inputAfter]

theorem linked_init (viewOnly joystick : Bool) (height : Int32) :
    (VncInput.init viewOnly joystick height).Linked :=
  ⟨rfl, fun b => (UInt32.zero_and (a := b.mask)).symm⟩

theorem linked_inputAfter (viewOnly joystick : Bool) (height : Int32) (frames : List InputData) :
    (inputAfter viewOnly joystick height frames).Linked := by
  induction frames using List.reverseRecOn with
  | nil => exact linked_init viewOnly joystick height
  | append_singleton frames d ih =>
    rw [inputAfter_snoc]
    exact ih.processDrcInput d

theorem not_holds_init (viewOnly joystick : Bool) (height : Int32) (c : Control) :
    ¬ (VncInput.init viewOnly joystick height).held.Holds c := by
  cases c with
  | key sym => simp [Held.Holds, held, VncInput.init]
  | button i => simp [Held.Holds, held, VncInput.init]

/-- Nothing stays pressed along the whole run exactly when every frame respects the condition where
it arrives. -/
theorem nothing_stuck_iff (viewOnly joystick : Bool) (height : Int32) (frames : List InputData) :
    (∀ pre, pre <+: frames → NothingStuck viewOnly joystick height pre) ↔
      ∀ pre d, pre ++ [d] <+: frames → (inputAfter viewOnly joystick height pre).CallOk d := by
  have hcall : ∀ pre d, (inputAfter viewOnly joystick height pre).Released
        (inputAfter viewOnly joystick height pre).prev →
      (NothingStuck viewOnly joystick height (pre ++ [d]) ↔
        (inputAfter viewOnly joystick height pre).CallOk d) := by
    intro pre d hr
    have hl := linked_inputAfter viewOnly joystick height pre
    rw [NothingStuck, inputAfter_snoc, List.getLast?_concat,
      ← released_buttonEvents_iff hl hr, ← released_processDrcInput hl]
    simp
  refine (forall_prefix_iff (P := NothingStuck viewOnly joystick height)
    (I := fun pre => (inputAfter viewOnly joystick height pre).Released
      (inputAfter viewOnly joystick height pre).prev) ⟨nofun, ?_⟩ ?_ ?_ frames).1
  · exact ⟨fun _ c => not_holds_init _ _ _ c, fun _ c hc => absurd hc (not_holds_init _ _ _ c)⟩
  · intro pre d hr hok
    have hstuck := (hcall pre d hr).mpr hok
    have hrel := hstuck d (by simp)
    refine ⟨hstuck, ?_⟩
    rw [inputAfter_snoc] at hrel ⊢
    rw [prev_processDrcInput (linked_inputAfter ..)]
    exact hrel
  · intro pre d hr hstuck
    exact (hcall pre d hr).mp hstuck

/-- The TV button pressed while A is down: Enter stays pressed in joystick mode. -/
theorem enter_stays_pressed : ¬ ∀ (viewOnly joystick : Bool) (height : Int32)
    (frames : List InputData), NothingStuck viewOnly joystick height frames := by
  intro h
  have hstuck := h false false 480
    [⟨true, 0x8000, false, 0, 0⟩, ⟨true, 0x208000, false, 0, 0⟩] _ rfl
  exact hstuck.1 (by decide) (.key 65293) (by decide)

end Pc2Drc
