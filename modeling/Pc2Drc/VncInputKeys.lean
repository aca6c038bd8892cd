import Pc2Drc.VncInputHeld
import Mathlib.Data.List.Perm.Basic

/-! The key events of one call of `Process_DRC_Input` in mouse mode. -/
namespace Pc2Drc

open Lib VncInput

variable {γ : Type} {p : RfbEvent → Option γ} {s s' s'' : VncInput} {d : InputData}
  {b : PadButton} {down : Bool} {l l' : List γ}

/-- Between two states exactly the events `l` were sent, as far as `p` shows them. -/
def VncInput.Shows (p : RfbEvent → Option γ) (s s' : VncInput) (l : List γ) : Prop :=
  ∃ new, s'.sent = s.sent ++ new ∧ new.filterMap p = l

theorem VncInput.Shows.refl : Shows p s s [] :=
  ⟨[], by simp, rfl⟩

theorem VncInput.Shows.trans (h : Shows p s s' l) (h' : Shows p s' s'' l') :
    Shows p s s'' (l ++ l') := by
  obtain ⟨new, hs, rfl⟩ := h
  obtain ⟨new', hs', rfl⟩ := h'
  exact ⟨new ++ new', by rw [hs', hs, List.append_assoc], List.filterMap_append⟩

/-- What a call sends, as far as `p` shows it. -/
def VncInput.shown (p : RfbEvent → Option γ) (s : VncInput) (d : InputData) : List γ :=
  ((s.processDrcInput d).sent.drop s.sent.length).filterMap p

theorem shown_eq (h : Shows p s (s.processDrcInput d) l) : s.shown p d = l := by
  obtain ⟨new, hs, hl⟩ := h
  rw [shown, hs, List.drop_left, hl]

theorem shows_ifChanged {body : Bool → VncInput → VncInput}
    (h : Shows p s (body (d.value b ≠ 0) s) l) :
    Shows p s (s.ifChanged d b body) (if d.value b ≠ s.prev b then l else []) := by
  rw [ifChanged]
  split_ifs
  · exact h
  · exact .refl

/-- The buttons looked at one after the other show one after the other. -/
theorem shows_foldl {f : PadButton → Bool → List γ} {bs : List PadButton}
    (h : ∀ b ∈ bs, ∀ (down : Bool) (s : VncInput), Shows p s (react b down s) (f b down))
    (s : VncInput) :
    Shows p s (bs.foldl (fun s b => s.ifChanged d b (react b)) s)
      (bs.flatMap fun b => if d.value b ≠ s.prev b then f b (d.value b ≠ 0) else []) := by
  induction bs generalizing s with
  | nil => exact .refl
  | cons b bs ih =>
    rw [List.forall_mem_cons] at h
    have hb := shows_ifChanged (d := d) (h.1 (d.value b ≠ 0) s)
    have hbs := ih h.2 (s.ifChanged d b (react b))
    rw [(keeps_ifChanged (keeps_react b) b s).prev] at hbs
    exact hb.trans hbs

/-- The value of a button group in the frame before, zero before the first. -/
def valueBefore (frames : List InputData) (b : PadButton) : UInt32 :=
  match frames.getLast? with
  | some d => d.value b
  | none => 0

theorem prev_inputAfter (viewOnly joystick : Bool) (height : Int32) (frames : List InputData) :
    (inputAfter viewOnly joystick height frames).prev = valueBefore frames := by
  induction frames using List.reverseRecOn with
  | nil => rfl
  | append_singleton frames d _ =>
    rw [inputAfter_snoc, prev_processDrcInput (linked_inputAfter ..)]
    funext b
    simp [valueBefore]

def RfbEvent.key? : RfbEvent → Option (UInt32 × Bool)
  | .key sym down => some (sym, down)
  | _ => none

/-- A = enter, B = backspace, X = space, Y = tab, Select = copy, Start = paste, Home = escape, and
the arrows. -/
def PadButton.keyEvents : PadButton → Bool → List (UInt32 × Bool)
  | .rhat, down => [(65363, down)]
  | .lhat, down => [(65361, down)]
  | .abtn, down => [(65293, down)]
  | .bbtn, down => [(65288, down)]
  | .xbtn, down => [(32, down)]
  | .ybtn, down => [(65289, down)]
  | .startbtn, true => [(65507, true), (118, true)]
  | .startbtn, false => [(118, false), (65507, false)]
  | .selectbtn, true => [(65507, true), (99, true)]
  | .selectbtn, false => [(99, false), (65507, false)]
  | .homebtn, down => [(65307, down)]
  | _, _ => []

/-- The buttons that are mapped to keys. -/
def keyButtons : List PadButton :=
  [.rhat, .lhat, .abtn, .bbtn, .xbtn, .ybtn, .startbtn, .selectbtn, .homebtn]

/-- The key events of a button on its own, from its value in the frame before. -/
def ownKeyEvents (before : PadButton → UInt32) (d : InputData) (b : PadButton) :
    List (UInt32 × Bool) :=
  if d.value b ≠ before b then b.keyEvents (d.value b ≠ 0) else []

/-- Every button drives its keys on its own: a changed one sends its events in their order, and the
call sends nothing else. -/
structure VncInput.KeysDriven (s : VncInput) (before : PadButton → UInt32) (d : InputData) :
    Prop where
  own : ∀ b ∈ keyButtons, d.value b ≠ before b →
    (b.keyEvents (d.value b ≠ 0)).Sublist (s.shown RfbEvent.key? d)
  only : (s.shown RfbEvent.key? d).Perm (keyButtons.flatMap (ownKeyEvents before d))

theorem shows_react_key (b : PadButton) (down : Bool) (s : VncInput) :
    Shows RfbEvent.key? s (react b down s) (b.keyEvents down) := by
  cases b with
  | dhat =>
    exact ⟨[_, _], List.append_assoc .., rfl⟩
  | uhat =>
    cases down with
    | true => exact ⟨[_, _], List.append_assoc .., rfl⟩
    | false => exact ⟨[_, _], List.append_assoc .., rfl⟩
  | startbtn | selectbtn =>
    cases down with
    | true => exact ⟨[_, _], List.append_assoc .., rfl⟩
    | false => exact ⟨[_, _], List.append_assoc .., rfl⟩
  | tvbutton | pwrbutton => exact .refl
  | _ => exact ⟨[_], rfl, rfl⟩

/-- The block for mouse mode sends the events of every button but Home, and those of Home if Select
changes. -/
theorem shows_mouseEvents_key (s : VncInput) (d : InputData) :
    Shows RfbEvent.key? s (s.mouseEvents d)
      ((mouseButtons ++ [PadButton.selectbtn]).flatMap (ownKeyEvents s.prev d) ++
        if d.value .selectbtn ≠ s.prev .selectbtn then ownKeyEvents s.prev d .homebtn
        else []) := by
  have hfold : Shows RfbEvent.key? s _ (mouseButtons.flatMap (ownKeyEvents s.prev d)) :=
    shows_foldl (fun b _ => shows_react_key b) s
  have hkeep := keeps_foldl (d := d) mouseButtons s
  rw [mouseEvents]
  generalize mouseButtons.foldl (fun s b => s.ifChanged d b (react b)) s = t at hfold hkeep
  have hselect := shows_react_key .selectbtn (d.value .selectbtn ≠ 0) t
  have hhome := shows_ifChanged (d := d)
    (shows_react_key .homebtn (d.value .homebtn ≠ 0) (react .selectbtn (d.value .selectbtn ≠ 0) t))
  have hblock : Shows RfbEvent.key? t (t.ifChanged d .selectbtn fun down s =>
      (react .selectbtn down s).ifChanged d .homebtn (react .homebtn)) _ :=
    shows_ifChanged (hselect.trans hhome)
  have hboth := hfold.trans hblock
  rw [(keeps_react .selectbtn _ t).prev, hkeep.prev] at hboth
  convert hboth using 1
  by_cases hch : d.value .selectbtn = s.prev .selectbtn
  · simp [ownKeyEvents, hch]
  · simp [ownKeyEvents, hch]

theorem shows_touchEvents_key (s : VncInput) (d : InputData) :
    Shows RfbEvent.key? s (s.touchEvents d) [] := by
  rw [touchEvents]
  split_ifs
  · exact ⟨[_], rfl, rfl⟩
  · exact .refl

/-- A call that is made and ends in mouse mode finds the buttons as they were, or goes through the
block for that mode. -/
theorem buttonEvents_mouse (hl : s.Linked) (hmode : s.drcJoystickMode = false)
    (hstay : (s.processDrcInput d).drcJoystickMode = false) :
    (d.value = s.prev ∧ s.buttonEvents d = s) ∨
      s.buttonEvents d = { s.mouseEvents d with prev := d.value, prevButtons := d.buttons } := by
  rw [processDrcInput, touchEvents_frame.2.2.2] at hstay
  rcases buttonEvents_cases s d with ⟨hb, heq⟩ | ⟨-, -, heq⟩ | ⟨-, -, heq⟩
  · refine .inl ⟨?_, heq⟩
    funext b
    rw [hl.prev, InputData.value, hb]
  · rw [heq] at hstay
    cases hstay
  · have hsame : ({ s with drcJoystickMode := false } : VncInput) = s := by rw [← hmode]
    rw [hsame] at heq
    exact .inr heq

/-- The key events of a call that is made and ends in mouse mode. -/
theorem shown_key (hl : s.Linked) (hmode : s.drcJoystickMode = false)
    (hstay : (s.processDrcInput d).drcJoystickMode = false) :
    s.shown RfbEvent.key? d =
      (mouseButtons ++ [PadButton.selectbtn]).flatMap (ownKeyEvents s.prev d) ++
        if d.value .selectbtn ≠ s.prev .selectbtn then ownKeyEvents s.prev d .homebtn else [] := by
  have htouch := shows_touchEvents_key (s.buttonEvents d) d
  refine shown_eq ?_
  rw [processDrcInput, ← List.append_nil (_ ++ _)]
  refine Shows.trans ?_ htouch
  rcases buttonEvents_mouse hl hmode hstay with ⟨hv, heq⟩ | heq
  · have hown : ∀ b, ownKeyEvents s.prev d b = [] :=
      fun b => if_neg (not_not.mpr (congrFun hv b))
    have hnil : (mouseButtons ++ [PadButton.selectbtn]).flatMap (ownKeyEvents s.prev d) = [] :=
      List.flatMap_eq_nil_iff.mpr fun b _ => hown b
    rw [heq, hnil, hown, ite_self]
    exact .refl
  · have hmouse := shows_mouseEvents_key s d
    generalize s.mouseEvents d = t at heq hmouse
    rw [heq]
    exact hmouse

/-- The pointer buttons send no keys. -/
theorem flatMap_mouseButtons (before : PadButton → UInt32) (d : InputData) :
    keyButtons.flatMap (ownKeyEvents before d) =
      (mouseButtons ++ [PadButton.selectbtn]).flatMap (ownKeyEvents before d) ++
        ownKeyEvents before d .homebtn := by
  simp [keyButtons, mouseButtons, ownKeyEvents, PadButton.keyEvents]

/-- One call drives every key exactly when Home does not change without Select. -/
theorem keysDriven_iff (hl : s.Linked) (hmode : s.drcJoystickMode = false)
    (hstay : (s.processDrcInput d).drcJoystickMode = false) :
    s.KeysDriven s.prev d ↔
      (d.value .homebtn ≠ s.prev .homebtn → d.value .selectbtn ≠ s.prev .selectbtn) := by
  have hshown := shown_key hl hmode hstay
  constructor
  · rintro ⟨-, hperm⟩ hhome hselect
    rw [hshown, flatMap_mouseButtons, if_neg (not_not.mpr hselect), List.append_nil] at hperm
    have hlen := hperm.length_eq
    rw [List.length_append, ownKeyEvents, if_pos hhome] at hlen
    simp [PadButton.keyEvents] at hlen
  · intro h
    have hall : s.shown RfbEvent.key? d = keyButtons.flatMap (ownKeyEvents s.prev d) := by
      rw [hshown, flatMap_mouseButtons]
      by_cases hselect : d.value .selectbtn = s.prev .selectbtn
      · have hhome : d.value .homebtn = s.prev .homebtn := by
          by_contra hhome
          exact h hhome hselect
        simp [ownKeyEvents, hselect, hhome]
      · rw [if_pos hselect]
    refine ⟨fun b hb hch => ?_, hall ▸ .refl _⟩
    have hown : ownKeyEvents s.prev d b = b.keyEvents (d.value b ≠ 0) := if_pos hch
    rw [hall, ← hown, List.flatMap]
    exact List.sublist_flatten_of_mem (List.mem_map_of_mem hb)

/-- No frame presses the TV button, after the frames `before`. -/
def NoTvPress (before frames : List InputData) : Prop :=
  ∀ pre d, pre ++ [d] <+: frames →
    d.value .tvbutton ≠ valueBefore (before ++ pre) .tvbutton → d.value .tvbutton = 0

theorem mode_processDrcInput (hl : s.Linked) (d : InputData) :
    (s.processDrcInput d).drcJoystickMode = s.modeAfter d := by
  rw [processDrcInput, touchEvents_frame.2.2.2]
  rcases buttonEvents_cases s d with ⟨hb, heq⟩ | ⟨-, hmode, heq⟩ | ⟨-, hmode, heq⟩
  · have hv : d.value .tvbutton = s.prev .tvbutton := by rw [hl.prev, InputData.value, hb]
    simp [heq, modeAfter, hv]
  · rw [heq, hmode]
  · have hkeep := keeps_mouseEvents d { s with drcJoystickMode := false }
    generalize mouseEvents d { s with drcJoystickMode := false } = t at heq hkeep
    rw [heq, hmode]
    exact hkeep.mode

/-- Without a press of the TV button a run stays in mouse mode, and only then. -/
theorem mouse_mode_iff {viewOnly joystick : Bool} {height : Int32} {before : List InputData}
    (hstart : (inputAfter viewOnly joystick height before).drcJoystickMode = false)
    (frames : List InputData) :
    (∀ pre, pre <+: frames →
      (inputAfter viewOnly joystick height (before ++ pre)).drcJoystickMode = false) ↔
      NoTvPress before frames := by
  have hcall : ∀ pre d,
      (inputAfter viewOnly joystick height (before ++ pre)).drcJoystickMode = false →
      ((inputAfter viewOnly joystick height (before ++ (pre ++ [d]))).drcJoystickMode = false ↔
        (d.value .tvbutton ≠ valueBefore (before ++ pre) .tvbutton → d.value .tvbutton = 0)) := by
    intro pre d hmode
    rw [← List.append_assoc, inputAfter_snoc, mode_processDrcInput (linked_inputAfter ..),
      modeAfter, prev_inputAfter, hmode]
    simp
  refine (forall_prefix_iff
    (P := fun pre =>
      (inputAfter viewOnly joystick height (before ++ pre)).drcJoystickMode = false)
    (I := fun pre =>
      (inputAfter viewOnly joystick height (before ++ pre)).drcJoystickMode = false)
    ⟨by simpa using hstart, by simpa using hstart⟩ ?_ ?_ frames).1
  · intro pre d hmode hno
    exact ⟨(hcall pre d hmode).mpr hno, (hcall pre d hmode).mpr hno⟩
  · intro pre d hmode hstay
    exact (hcall pre d hmode).mp hstay

/-- Without a press of the TV button every call is made, and ends, in mouse mode. -/
theorem mouse_mode_call {viewOnly joystick : Bool} {height : Int32}
    {before frames pre : List InputData}
    (hstart : (inputAfter viewOnly joystick height before).drcJoystickMode = false)
    (htv : NoTvPress before frames) (hp : pre ++ [d] <+: frames) :
    (inputAfter viewOnly joystick height (before ++ pre)).drcJoystickMode = false ∧
      ((inputAfter viewOnly joystick height (before ++ pre)).processDrcInput d).drcJoystickMode =
        false := by
  have hmouse := (mouse_mode_iff hstart frames).mpr htv
  have hstay := hmouse (pre ++ [d]) hp
  rw [← List.append_assoc, inputAfter_snoc] at hstay
  exact ⟨hmouse pre ((List.prefix_append pre [d]).trans hp), hstay⟩

/-- Along a run in mouse mode every button drives its keys on its own exactly when no frame changes
Home without changing Select. -/
theorem keys_driven_iff (viewOnly joystick : Bool) (height : Int32)
    (before frames : List InputData)
    (hstart : (inputAfter viewOnly joystick height before).drcJoystickMode = false)
    (htv : NoTvPress before frames) :
    (∀ pre d, pre ++ [d] <+: frames →
      (inputAfter viewOnly joystick height (before ++ pre)).KeysDriven
        (valueBefore (before ++ pre)) d) ↔
      ∀ pre d, pre ++ [d] <+: frames →
        d.value .homebtn ≠ valueBefore (before ++ pre) .homebtn →
        d.value .selectbtn ≠ valueBefore (before ++ pre) .selectbtn := by
  refine forall_call_iff (I := fun _ => True) trivial ?_ (fun _ _ _ _ _ => trivial)
  intro pre d hp _
  obtain ⟨hmode, hstay⟩ := mouse_mode_call hstart htv hp
  rw [← prev_inputAfter viewOnly joystick height (before ++ pre)]
  exact keysDriven_iff (linked_inputAfter ..) hmode hstay

/-- Home and Minus are pressed together, and let go together while A goes down. -/
theorem keys_driven_home_with_minus :
    NoTvPress [] [⟨true, 0x6, false, 0, 0⟩, ⟨true, 0x8000, false, 0, 0⟩] ∧
      ∀ pre d, pre ++ [d] <+: [⟨true, 0x6, false, 0, 0⟩, ⟨true, 0x8000, false, 0, 0⟩] →
        (inputAfter false false 480 ([] ++ pre)).KeysDriven (valueBefore ([] ++ pre)) d := by
  have htv : NoTvPress [] [⟨true, 0x6, false, 0, 0⟩, ⟨true, 0x8000, false, 0, 0⟩] :=
    forall_snoc_prefix_of_getElem (by decide)
  refine ⟨htv, (keys_driven_iff false false 480 [] _ rfl htv).mpr ?_⟩
  exact forall_snoc_prefix_of_getElem (by decide)

/-- Home pressed alone sends nothing. -/
theorem escape_not_sent : ¬ ∀ (viewOnly joystick : Bool) (height : Int32)
    (before frames : List InputData),
    (inputAfter viewOnly joystick height before).drcJoystickMode = false →
      NoTvPress before frames → ∀ pre d, pre ++ [d] <+: frames →
        (inputAfter viewOnly joystick height (before ++ pre)).KeysDriven
          (valueBefore (before ++ pre)) d := by
  intro h
  have htv : NoTvPress [] [⟨true, 0x2, false, 0, 0⟩] := forall_snoc_prefix_of_getElem (by decide)
  have hdriven := h false false 480 [] _ rfl htv [] _ (List.prefix_refl _)
  exact absurd hdriven.only.length_eq (by decide)

end Pc2Drc
