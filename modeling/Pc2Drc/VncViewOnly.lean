import Pc2Drc.VncInputHeld

/-! View-only mode: which SDL events and gamepad frames still send input to the server. -/
namespace Pc2Drc

open Lib VncInput

variable {s : VncInput} {d : InputData} {b : PadButton} {down : Bool}

/-- A call of `SendPointerEvent` or `SendKeyEvent`. -/
def RfbEvent.isInput : RfbEvent → Bool
  | .pointer .. | .key .. => true
  | .updateRequest .. => false

/-- The input that was sent. -/
def VncInput.inputs (s : VncInput) : List RfbEvent :=
  s.sent.filter RfbEvent.isInput

@[simp]
theorem inputs_sendKeyEvent (sym : UInt32) : (s.sendKeyEvent sym down).inputs ≠ [] := by
  simp [inputs, sendKeyEvent, send, RfbEvent.isInput]

@[simp]
theorem inputs_sendPointerEvent (x y : Int32) : (s.sendPointerEvent x y).inputs ≠ [] := by
  simp [inputs, sendPointerEvent, send, RfbEvent.isInput]

theorem inputs_react (h : b.controls ≠ []) : (react b down s).inputs ≠ [] := by
  cases b with
  | tvbutton | pwrbutton => exact absurd rfl h
  | uhat | startbtn | selectbtn =>
    cases down with
    | true => simp [react, sendMask]
    | false => simp [react, sendMask]
  | _ => simp [react, sendMask]

theorem inputs_ifChanged (h : b.controls ≠ []) :
    (s.ifChanged d b (react b)).inputs = [] ↔ s.inputs = [] ∧ d.value b = s.prev b := by
  rw [ifChanged]
  split_ifs with hch
  · simp [inputs_react h, hch]
  · simp [not_not.mp hch]

theorem inputs_foldl (bs : List PadButton) (h : ∀ b ∈ bs, b.controls ≠ []) :
    (bs.foldl (fun s b => s.ifChanged d b (react b)) s).inputs = [] ↔
      s.inputs = [] ∧ ∀ b ∈ bs, d.value b = s.prev b := by
  induction bs generalizing s with
  | nil => simp
  | cons b bs ih =>
    rw [List.forall_mem_cons] at h
    have hkeep := keeps_ifChanged (d := d) (keeps_react b) b s
    rw [List.foldl_cons, ih h.2, inputs_ifChanged h.1, hkeep.prev, List.forall_mem_cons, and_assoc]

/-- In mouse mode a frame is silent when no button changes that is looked at; Home alone is not. -/
theorem inputs_mouseEvents : (s.mouseEvents d).inputs = [] ↔
    s.inputs = [] ∧ ∀ b ∈ mouseButtons ++ [.selectbtn], d.value b = s.prev b := by
  have hkeep := keeps_foldl (d := d) mouseButtons s
  have hfold := inputs_foldl (s := s) (d := d) mouseButtons (by decide)
  rw [mouseEvents]
  generalize mouseButtons.foldl (fun s b => s.ifChanged d b (react b)) s = t at hkeep hfold
  rw [ifChanged, hkeep.prev, List.forall_mem_append, ← and_assoc, ← hfold,
    List.forall_mem_singleton]
  split_ifs with hselect
  · have hreact : (react .selectbtn (d.value .selectbtn ≠ 0) t).inputs ≠ [] :=
      inputs_react (by decide)
    rw [inputs_ifChanged (by decide)]
    exact ⟨fun h => absurd h.1 hreact, fun h => absurd h.2 hselect⟩
  · simp [not_not.mp hselect]

/-- The frame changes no button that the mode lets through, and does not move the pointer. -/
def VncInput.FrameQuiet (s : VncInput) (d : InputData) : Prop :=
  (d.buttons ≠ s.prevButtons → s.modeAfter d = false →
    ∀ b ∈ mouseButtons ++ [.selectbtn], d.value b = s.prev b) ∧
  (d.tsPressed = true → d.x = s.prevX ∧ d.y = s.prevY)

theorem inputs_buttonEvents : (s.buttonEvents d).inputs = [] ↔
    s.inputs = [] ∧ (d.buttons ≠ s.prevButtons → s.modeAfter d = false →
      ∀ b ∈ mouseButtons ++ [.selectbtn], d.value b = s.prev b) := by
  rcases buttonEvents_cases s d with ⟨hb, heq⟩ | ⟨-, hmode, heq⟩ | ⟨hb, hmode, heq⟩
  · simp [heq, hb]
  · rw [heq]
    exact ⟨fun h => ⟨h, fun _ hm => absurd hmode (by simp [hm])⟩, fun h => h.1⟩
  · have hiff := inputs_mouseEvents (s := { s with drcJoystickMode := false }) (d := d)
    generalize mouseEvents d { s with drcJoystickMode := false } = t at heq hiff
    rw [heq]
    refine hiff.trans (and_congr_right fun _ => ?_)
    exact ⟨fun h _ _ => h, fun h => h hb hmode⟩

theorem buttonEvents_frame (s : VncInput) (d : InputData) :
    (s.buttonEvents d).viewOnly = s.viewOnly ∧ (s.buttonEvents d).prevX = s.prevX ∧
      (s.buttonEvents d).prevY = s.prevY := by
  rcases buttonEvents_cases s d with ⟨-, heq⟩ | ⟨-, -, heq⟩ | ⟨-, -, heq⟩
  · rw [heq]
    exact ⟨rfl, rfl, rfl⟩
  · rw [heq]
    exact ⟨rfl, rfl, rfl⟩
  · have hkeep := keeps_mouseEvents d { s with drcJoystickMode := false }
    generalize mouseEvents d { s with drcJoystickMode := false } = t at heq hkeep
    rw [heq]
    exact ⟨hkeep.viewOnly, hkeep.prevX, hkeep.prevY⟩

theorem inputs_touchEvents : (s.touchEvents d).inputs = [] ↔
    s.inputs = [] ∧ (d.tsPressed = true → d.x = s.prevX ∧ d.y = s.prevY) := by
  rw [touchEvents]
  split_ifs with htouch
  · refine ⟨fun h => absurd h (inputs_sendPointerEvent (s := s) d.x d.y), fun h => ?_⟩
    obtain ⟨hx, hy⟩ := h.2 htouch.1
    simp [hx, hy] at htouch
  · refine ⟨fun h => ⟨h, fun hts => ?_⟩, fun h => h.1⟩
    simpa [hts] using htouch

theorem inputs_processDrcInput :
    (s.processDrcInput d).inputs = [] ↔ s.inputs = [] ∧ s.FrameQuiet d := by
  obtain ⟨-, hx, hy⟩ := buttonEvents_frame s d
  rw [processDrcInput, inputs_touchEvents, inputs_buttonEvents, hx, hy, FrameQuiet, and_assoc]

theorem viewOnly_processDrcInput : (s.processDrcInput d).viewOnly = s.viewOnly := by
  rw [processDrcInput, touchEvents]
  split_ifs
  · exact (buttonEvents_frame s d).1
  · exact (buttonEvents_frame s d).1

/-- The events that send nothing in view-only mode: all but a notch of the wheel and text. -/
def SdlEvent.Silent : SdlEvent → Prop
  | .mouseWheel y _ _ => y ≠ 1 ∧ y ≠ -1
  | .textInput _ => False
  | _ => True

theorem inputs_handleSDLEvent (h : s.viewOnly = true) (e : SdlEvent) :
    (s.handleSDLEvent e).1.inputs = [] ↔ s.inputs = [] ∧ e.Silent := by
  cases e with
  | windowEvent exposed =>
    cases exposed <;> simp [handleSDLEvent, SdlEvent.Silent, inputs, send, RfbEvent.isInput]
  | mouseWheel y x' y' =>
    by_cases hup : y = 1
    · subst hup
      simp [handleSDLEvent, SdlEvent.Silent, wheelClick]
    · by_cases hdown : y = -1
      · subst hdown
        simp [handleSDLEvent, SdlEvent.Silent, wheelClick]
      · simp [handleSDLEvent, SdlEvent.Silent, hup, hdown]
  | textInput c => simp [handleSDLEvent, SdlEvent.Silent]
  | mouseButtonUp | mouseButtonDown | mouseMotion | keyDown | keyUp =>
    simp [handleSDLEvent, SdlEvent.Silent, h]
  | quit | other => simp [handleSDLEvent, SdlEvent.Silent]

theorem viewOnly_wheelClick (button : UInt8) (x y : Int32) :
    (s.wheelClick button x y).viewOnly = s.viewOnly :=
  rfl

theorem viewOnly_handleSDLEvent (h : s.viewOnly = true) (e : SdlEvent) :
    (s.handleSDLEvent e).1.viewOnly = true := by
  cases e with
  | windowEvent exposed => cases exposed <;> exact h
  | mouseWheel y x' y' =>
    simp only [handleSDLEvent]
    split_ifs <;> simp only [viewOnly_wheelClick, h]
  | mouseButtonUp | mouseButtonDown | mouseMotion | keyDown | keyUp => simp [handleSDLEvent, h]
  | textInput | quit | other => exact h

/-- What one turn of the main loop is given. -/
structure InputTurn where
  input : InputData
  event : Option SdlEvent

/-- The turn's frame and event send nothing in view-only mode. -/
def VncInput.Quiet (s : VncInput) (t : InputTurn) : Prop :=
  (t.input.valid = true → s.FrameQuiet t.input) ∧ ∀ e, t.event = some e → e.Silent

/-- The state after some turns of a client started in view-only mode. -/
def viewOnlyAfter (joystick : Bool) (height : Int32) (turns : List InputTurn) : VncInput :=
  turns.foldl (fun s t => (s.inputTurn t.input t.event).1) (VncInput.init true joystick height)

theorem inputs_inputTurn (h : s.viewOnly = true) (t : InputTurn) :
    (s.inputTurn t.input t.event).1.inputs = [] ↔ s.inputs = [] ∧ s.Quiet t := by
  obtain ⟨hv, hframe⟩ : (if t.input.valid then s.processDrcInput t.input else s).viewOnly = true ∧
      ((if t.input.valid then s.processDrcInput t.input else s).inputs = [] ↔
        s.inputs = [] ∧ (t.input.valid = true → s.FrameQuiet t.input)) := by
    split_ifs with hvalid
    · exact ⟨viewOnly_processDrcInput.trans h, by simpa [hvalid] using inputs_processDrcInput⟩
    · exact ⟨h, by simp [hvalid]⟩
  rw [inputTurn.eq_def, Quiet, ← and_assoc, ← hframe]
  cases t.event with
  | none => simp
  | some e => simpa using inputs_handleSDLEvent hv e

theorem viewOnly_inputTurn (h : s.viewOnly = true) (t : InputTurn) :
    (s.inputTurn t.input t.event).1.viewOnly = true := by
  have hv : (if t.input.valid then s.processDrcInput t.input else s).viewOnly = true := by
    split_ifs
    · exact viewOnly_processDrcInput.trans h
    · exact h
  rw [inputTurn.eq_def]
  cases t.event with
  | none => exact hv
  | some e => exact viewOnly_handleSDLEvent hv e

theorem viewOnlyAfter_snoc (joystick : Bool) (height : Int32) (turns : List InputTurn)
    (t : InputTurn) : viewOnlyAfter joystick height (turns ++ [t]) =
      ((viewOnlyAfter joystick height turns).inputTurn t.input t.event).1 := by
  simp [viewOnlyAfter]

theorem viewOnly_viewOnlyAfter (joystick : Bool) (height : Int32) (turns : List InputTurn) :
    (viewOnlyAfter joystick height turns).viewOnly = true := by
  induction turns using List.reverseRecOn with
  | nil => rfl
  | append_singleton turns t ih =>
    rw [viewOnlyAfter_snoc]
    exact viewOnly_inputTurn ih t

/-- A client started in view-only mode sends no input exactly when every turn is quiet where it
comes. -/
theorem view_only_silent_iff (joystick : Bool) (height : Int32) (turns : List InputTurn) :
    (viewOnlyAfter joystick height turns).inputs = [] ↔
      ∀ pre t, pre ++ [t] <+: turns → (viewOnlyAfter joystick height pre).Quiet t := by
  induction turns using List.reverseRecOn with
  | nil => simp [viewOnlyAfter, VncInput.init, inputs]
  | append_singleton turns t ih =>
    rw [forall_snoc_prefix_iff, ← ih, viewOnlyAfter_snoc,
      inputs_inputTurn (viewOnly_viewOnlyAfter joystick height turns)]

/-- Text typed into the window reaches the server. -/
theorem view_only_text_sent : ¬ ∀ (joystick : Bool) (height : Int32) (turns : List InputTurn),
    (viewOnlyAfter joystick height turns).inputs = [] := by
  intro h
  have hsent := h false 480 [⟨⟨false, 0, false, 0, 0⟩, some (.textInput 97)⟩]
  exact absurd hsent (by decide)

end Pc2Drc
