import Mathlib.Logic.Function.Basic

/-! Input of the VNC client: gamepad frames and SDL events, and the pointer and key events they send
to the server. -/
namespace Pc2Drc

/-- What the client sends to the server from its input handlers. -/
inductive RfbEvent
  | pointer (x y : Int32) (mask : UInt32)
  | key (sym : UInt32) (down : Bool)
  | updateRequest (x y w h : Int32) (incremental : Bool)
  deriving DecidableEq, Repr

/-- The groups of gamepad buttons that `Process_DRC_Input` tells apart. -/
inductive PadButton
  | lbutton
  | rbutton
  | dhat
  | uhat
  | rhat
  | lhat
  | abtn
  | bbtn
  | xbtn
  | ybtn
  | startbtn
  | selectbtn
  | homebtn
  | tvbutton
  | pwrbutton
  deriving DecidableEq, Repr

def PadButton.mask : PadButton → UInt32
  | .lbutton => 0x80 ||| 0x40
  | .rbutton => 0x20 ||| 0x10
  | .dhat => 0x100
  | .uhat => 0x200
  | .rhat => 0x400
  | .lhat => 0x800
  | .abtn => 0x8000
  | .bbtn => 0x4000
  | .xbtn => 0x2000
  | .ybtn => 0x1000
  | .startbtn => 0x8
  | .selectbtn => 0x4
  | .homebtn => 0x2
  | .tvbutton => 0x200000
  | .pwrbutton => 0x2000000

/-- The part of a frame that the client looks at. The touch position is the pixel that
`(ts_x * 854) - 1` and `(ts_y * 480) - 1` come to as integers. -/
structure InputData where
  valid : Bool
  buttons : UInt32
  tsPressed : Bool
  x : Int32
  y : Int32
  deriving DecidableEq, Repr

def InputData.value (d : InputData) (b : PadButton) : UInt32 :=
  d.buttons &&& b.mask

/-- The globals and static variables behind the input handlers, the height of the server's screen,
and what was sent. -/
structure VncInput where
  viewOnly : Bool
  drcJoystickMode : Bool
  buttonMask : UInt32
  prevX : Int32
  prevY : Int32
  prevButtons : UInt32
  prev : PadButton → UInt32
  symDown : Int32
  keysDown : Int32 → Option Int8
  height : Int32
  sent : List RfbEvent

namespace VncInput

/-- The state in which `main` enters its loop. -/
def init (viewOnly joystick : Bool) (height : Int32) : VncInput where
  viewOnly := viewOnly
  drcJoystickMode := joystick
  buttonMask := 0
  prevX := 0
  prevY := 0
  prevButtons := 0
  prev := fun _ => 0
  symDown := 0
  keysDown := fun _ => none
  height := height
  sent := []

def send (e : RfbEvent) (s : VncInput) : VncInput :=
  { s with sent := s.sent ++ [e] }

def sendKeyEvent (sym : UInt32) (down : Bool) (s : VncInput) : VncInput :=
  s.send (.key sym down)

def setMask (mask : UInt32) (s : VncInput) : VncInput :=
  { s with buttonMask := mask }

def sendPointerEvent (x y : Int32) (s : VncInput) : VncInput :=
  s.send (.pointer x y s.buttonMask)

/-- `SendPointerEvent(cl, prev_x, prev_y, buttonMask)` with a new mask. -/
def sendMask (mask : UInt32) (s : VncInput) : VncInput :=
  (s.setMask mask).sendPointerEvent s.prevX s.prevY

/-- What a change of a button group does in mouse mode; `down` is its new value. -/
def react : PadButton → Bool → VncInput → VncInput
  | .lbutton, down, s => s.sendMask (if down then s.buttonMask ||| 1 else s.buttonMask &&& ~~~1)
  | .rbutton, down, s => s.sendMask (if down then s.buttonMask ||| 4 else s.buttonMask &&& ~~~4)
  | .dhat, _, s =>
    let s := s.sendMask (s.buttonMask ||| 16)
    s.sendMask (s.buttonMask &&& ~~~16)
  | .uhat, true, s =>
    let s := s.sendMask (s.buttonMask ||| 8)
    s.sendMask (s.buttonMask &&& ~~~8)
  | .uhat, false, s =>
    let s := s.sendMask (s.buttonMask &&& ~~~8)
    s.sendMask (s.buttonMask &&& 8)
  | .rhat, down, s => s.sendKeyEvent 65363 down
  | .lhat, down, s => s.sendKeyEvent 65361 down
  | .abtn, down, s => s.sendKeyEvent 65293 down
  | .bbtn, down, s => s.sendKeyEvent 65288 down
  | .xbtn, down, s => s.sendKeyEvent 32 down
  | .ybtn, down, s => s.sendKeyEvent 65289 down
  | .startbtn, true, s => (s.sendKeyEvent 65507 true).sendKeyEvent 118 true
  | .startbtn, false, s => (s.sendKeyEvent 118 false).sendKeyEvent 65507 false
  | .selectbtn, true, s => (s.sendKeyEvent 65507 true).sendKeyEvent 99 true
  | .selectbtn, false, s => (s.sendKeyEvent 99 false).sendKeyEvent 65507 false
  | .homebtn, down, s => s.sendKeyEvent 65307 down
  | .tvbutton, _, s => s
  | .pwrbutton, _, s => s

/-- `if (button != prev_button) { … }` -/
def ifChanged (d : InputData) (b : PadButton) (body : Bool → VncInput → VncInput) (s : VncInput) :
    VncInput :=
  if d.value b ≠ s.prev b then body (d.value b ≠ 0) s else s

/-- The button groups whose changes are looked at one after the other, in this order. -/
def mouseButtons : List PadButton :=
  [.lbutton, .rbutton, .dhat, .uhat, .rhat, .lhat, .abtn, .bbtn, .xbtn, .ybtn, .startbtn]

/-- The block for mouse mode. Home is looked at inside the block for Select. -/
def mouseEvents (d : InputData) (s : VncInput) : VncInput :=
  let s := mouseButtons.foldl (fun s b => s.ifChanged d b (react b)) s
  s.ifChanged d .selectbtn fun down s =>
    (react .selectbtn down s).ifChanged d .homebtn (react .homebtn)

/-- `if (tvbutton != prev_tvbutton) { if (tvbutton) … }` -/
def toggleMode (d : InputData) (s : VncInput) : VncInput :=
  s.ifChanged d .tvbutton fun down s =>
    if down then { s with drcJoystickMode := !s.drcJoystickMode } else s

def buttonEvents (d : InputData) (s : VncInput) : VncInput :=
  if d.buttons ≠ s.prevButtons then
    let s := s.toggleMode d
    let s := if s.drcJoystickMode then s else s.mouseEvents d
    { s with prev := d.value, prevButtons := d.buttons }
  else s

def touchEvents (d : InputData) (s : VncInput) : VncInput :=
  if d.tsPressed ∧ (d.x ≠ s.prevX ∨ d.y ≠ s.prevY) then
    { s.sendPointerEvent d.x d.y with prevX := d.x, prevY := d.y }
  else s

/-- `Process_DRC_Input`. -/
def processDrcInput (s : VncInput) (d : InputData) : VncInput :=
  (s.buttonEvents d).touchEvents d

end VncInput

/-- The SDL keycodes with a key symbol of their own: those that text input does not report. -/
def keySymTable : List (Int32 × UInt32) := [
    -- Return, Escape, BackSpace, Tab, Caps Lock
    (0x0000000d, 0xff0d), (0x0000001b, 0xff1b), (0x00000008, 0xff08), (0x00000009, 0xff09),
    (0x40000039, 0xffe5),
    -- F1 to F12
    (0x4000003a, 0xffbe), (0x4000003b, 0xffbf), (0x4000003c, 0xffc0), (0x4000003d, 0xffc1),
    (0x4000003e, 0xffc2), (0x4000003f, 0xffc3), (0x40000040, 0xffc4), (0x40000041, 0xffc5),
    (0x40000042, 0xffc6), (0x40000043, 0xffc7), (0x40000044, 0xffc8), (0x40000045, 0xffc9),
    -- Print Screen, Scroll Lock, Pause, Insert, Home, Page Up, Delete, End, Page Down
    (0x40000046, 0xff61), (0x40000047, 0xff14), (0x40000048, 0xff13), (0x40000049, 0xff63),
    (0x4000004a, 0xff50), (0x4000004b, 0xff55), (0x0000007f, 0xffff), (0x4000004d, 0xff57),
    (0x4000004e, 0xff56),
    -- Right, Left, Down, Up, Num Lock, keypad Enter
    (0x4000004f, 0xff53), (0x40000050, 0xff51), (0x40000051, 0xff54), (0x40000052, 0xff52),
    (0x40000053, 0xff7f), (0x40000058, 0xff8d),
    -- F13 to F24
    (0x40000068, 0xffca), (0x40000069, 0xffcb), (0x4000006a, 0xffcc), (0x4000006b, 0xffcd),
    (0x4000006c, 0xffce), (0x4000006d, 0xffcf), (0x4000006e, 0xffd0), (0x4000006f, 0xffd1),
    (0x40000070, 0xffd2), (0x40000071, 0xffd3), (0x40000072, 0xffd4), (0x40000073, 0xffd5),
    -- Execute, Help, Menu, Select, Stop, Again, Undo, Find, SysReq, Clear, keypad Tab
    (0x40000074, 0xff62), (0x40000075, 0xff6a), (0x40000076, 0xff67), (0x40000077, 0xff60),
    (0x40000078, 0xff69), (0x40000079, 0xff66), (0x4000007a, 0xff65), (0x4000007e, 0xff68),
    (0x4000009a, 0xff15), (0x4000009c, 0xff0b), (0x400000ba, 0xff89),
    -- Ctrl, Shift, Alt and GUI, left and right, and Mode
    (0x400000e0, 0xffe3), (0x400000e1, 0xffe1), (0x400000e2, 0xffe9), (0x400000e3, 0xffe7),
    (0x400000e4, 0xffe4), (0x400000e5, 0xffe2), (0x400000e6, 0xffea), (0x400000e7, 0xffe8),
    (0x40000101, 0xff7e)]

/-- `SDL_key2rfbKeySym`; `ctrl` is whether a Ctrl key is down in `SDL_GetModState()`. -/
def sdlKey2rfbKeySym (sym : Int32) (ctrl : Bool) : UInt32 :=
  let k := (keySymTable.lookup sym).getD 0
  if ctrl ∧ sym < 0x100 then sym.toUInt32 else k

/-- The events `handleSDLEvent` tells apart, with what it reads of them and of SDL's own state. -/
inductive SdlEvent
  | windowEvent (exposed : Bool)
  | mouseButtonUp (x y : Int32) (button : UInt8)
  | mouseButtonDown (x y : Int32) (button : UInt8)
  | mouseMotion (x y : Int32)
  | mouseWheel (y : Int32) (mouseX mouseY : Int32)
  | keyDown (sym : Int32) (ctrl : Bool)
  | keyUp (sym : Int32) (ctrl : Bool)
  | textInput (text0 : Int8)
  | quit
  | other
  deriving DecidableEq, Repr

/-- `SDL_BUTTON(X)`. -/
def sdlButton (button : UInt8) : UInt32 :=
  1 <<< (button.toUInt32 - 1)

/-- A `char` as the key argument of `SendKeyEvent`. -/
def charKey (c : Int8) : UInt32 :=
  c.toInt32.toUInt32

namespace VncInput

/-- One notch of the wheel: its button goes down and up again. -/
def wheelClick (button : UInt8) (x y : Int32) (s : VncInput) : VncInput :=
  let s := (s.setMask (s.buttonMask ||| sdlButton button)).sendPointerEvent x y
  (s.setMask (s.buttonMask &&& ~~~(sdlButton button))).sendPointerEvent x y

/-- `handleSDLEvent`; the flag is false when the loop is left, by the result or by `exit`. -/
def handleSDLEvent (s : VncInput) : SdlEvent → VncInput × Bool
  | .windowEvent exposed =>
    (if exposed then s.send (.updateRequest 0 0 854 s.height false) else s, true)
  | .mouseButtonDown x y button =>
    if s.viewOnly then (s, true)
    else ((s.setMask (s.buttonMask ||| sdlButton button)).sendPointerEvent x y, true)
  | .mouseButtonUp x y button =>
    if s.viewOnly then (s, true)
    else ((s.setMask (s.buttonMask &&& ~~~(sdlButton button))).sendPointerEvent x y, true)
  | .mouseMotion x y =>
    if s.viewOnly then (s, true) else (s.sendPointerEvent x y, true)
  | .mouseWheel wheelY x y =>
    let s := if wheelY = 1 then s.wheelClick 4 x y else s
    let s := if wheelY = -1 then s.wheelClick 5 x y else s
    (s, true)
  | .keyDown sym ctrl =>
    if s.viewOnly then (s, true)
    else if sdlKey2rfbKeySym sym ctrl > 0 then
      (s.sendKeyEvent (sdlKey2rfbKeySym sym ctrl) true, true)
    else ({ s with symDown := sym }, true)
  | .keyUp sym ctrl =>
    if s.viewOnly then (s, true)
    else if sdlKey2rfbKeySym sym ctrl > 0 then
      (s.sendKeyEvent (sdlKey2rfbKeySym sym ctrl) false, true)
    else
      match s.keysDown sym with
      | some c =>
        ({ s.sendKeyEvent (charKey c) false with
            keysDown := Function.update s.keysDown sym none }, true)
      | none => (s, true)
  | .textInput c =>
    let s := { s with keysDown := Function.update s.keysDown s.symDown (some c), symDown := 0 }
    (s.sendKeyEvent (charKey c) true, true)
  | .quit => (s, false)
  | .other => (s, true)

/-- What one turn of the main loop does with its input: the frame polled from the pad, and an SDL
event if there is one. -/
def inputTurn (s : VncInput) (d : InputData) (e : Option SdlEvent) : VncInput × Bool :=
  let s := if d.valid then s.processDrcInput d else s
  match e with
  | some e => s.handleSDLEvent e
  | none => (s, true)

end VncInput

end Pc2Drc
