import Pc2Drc.VncInputKeys

/-! The pointer mask of the VNC client and the wheel clicks, call by call in mouse mode. -/
namespace Pc2Drc

open Lib VncInput

variable {s s' s'' : VncInput} {d : InputData} {b : PadButton} {masks masks' : List UInt32}
  {m m' w : UInt32} {before : PadButton → UInt32}

/-- `rfbButton1Mask` and `rfbButton3Mask`, as far as they are held. -/
def padMask (left right : Bool) : UInt32 :=
  (if left then 1 else 0) ||| (if right then 4 else 0)

def RfbEvent.mask? : RfbEvent → Option UInt32
  | .pointer _ _ mask => some mask
  | _ => none

def Pressed (before : PadButton → UInt32) (d : InputData) (b : PadButton) : Prop :=
  d.value b ≠ before b ∧ d.value b ≠ 0

def LetGo (before : PadButton → UInt32) (d : InputData) (b : PadButton) : Prop :=
  d.value b ≠ before b ∧ d.value b = 0

instance : Decidable (Pressed before d b) :=
  inferInstanceAs (Decidable (_ ∧ _))

instance : Decidable (LetGo before d b) :=
  inferInstanceAs (Decidable (_ ∧ _))

def NoClick (w : UInt32) (masks : List UInt32) : Prop :=
  ∀ m ∈ masks, m &&& w = 0

/-- One event with the wheel bit, followed by one without, and no other with it. -/
def OneClick (w : UInt32) (masks : List UInt32) : Prop :=
  ∃ pre m m' post, masks = pre ++ [m, m'] ++ post ∧ m &&& w = w ∧ m' &&& w = 0 ∧
    NoClick w pre ∧ NoClick w post

/-- A press clicks the wheel once, and nothing else does. -/
def Clicks (w : UInt32) (pressed : Prop) (masks : List UInt32) : Prop :=
  (pressed → OneClick w masks) ∧ (¬ pressed → NoClick w masks)

/-- Besides at most one wheel bit, the two buttons as they were before the call or are after it. -/
def Carries (was is m : UInt32) : Prop :=
  ∃ left right, ∃ wheel ∈ [0, 8, 16], m = padMask left right ||| wheel ∧
    (left = was.toBitVec.getLsbD 0 ∨ left = is.toBitVec.getLsbD 0) ∧
    (right = was.toBitVec.getLsbD 2 ∨ right = is.toBitVec.getLsbD 2)

/-- The mask mirrors the held buttons after the call, its events carry nothing else, and the wheel
is clicked once for each press of Up and Down. -/
structure VncInput.PointerMirrors (s : VncInput) (before : PadButton → UInt32) (d : InputData) :
    Prop where
  mask : (s.processDrcInput d).buttonMask = padMask (d.value .lbutton ≠ 0) (d.value .rbutton ≠ 0)
  events : ∀ m ∈ s.shown RfbEvent.mask? d,
    Carries s.buttonMask (s.processDrcInput d).buttonMask m
  up : Clicks 8 (Pressed before d .uhat) (s.shown RfbEvent.mask? d)
  down : Clicks 16 (Pressed before d .dhat) (s.shown RfbEvent.mask? d)

/-- Between two states the pointer events carry `masks`, and the mask comes to be `m`. -/
structure VncInput.Points (s s' : VncInput) (masks : List UInt32) (m : UInt32) : Prop where
  shows : Shows RfbEvent.mask? s s' masks
  mask : s'.buttonMask = m
  prev : s'.prev = s.prev

theorem VncInput.Points.refl : Points s s [] s.buttonMask :=
  ⟨.refl, rfl, rfl⟩

theorem VncInput.Points.trans (h : Points s s' masks m) (h' : Points s' s'' masks' m') :
    Points s s'' (masks ++ masks') m' :=
  ⟨h.shows.trans h'.shows, h'.mask, h'.prev.trans h.prev⟩

theorem points_ifChanged {body : Bool → VncInput → VncInput}
    (h : d.value b ≠ s.prev b → Points s (body (d.value b ≠ 0) s) masks m)
    (hsame : d.value b = s.prev b → s.buttonMask = m) :
    Points s (s.ifChanged d b body) (if d.value b ≠ s.prev b then masks else []) m := by
  rw [ifChanged]
  split_ifs with hch
  · exact h hch
  · exact ⟨.refl, hsame (not_not.mp hch), rfl⟩

theorem points_sendMask (m : UInt32) (s : VncInput) : Points s (s.sendMask m) [m] m :=
  ⟨⟨[_], rfl, rfl⟩, rfl, rfl⟩

/-- A button that is mapped to keys leaves the pointer alone. -/
theorem points_react_key (hb : b ∉ [.lbutton, .rbutton, .dhat, .uhat]) (down : Bool)
    (s : VncInput) : Points s (react b down s) [] s.buttonMask := by
  cases b with
  | lbutton | rbutton | dhat | uhat => simp at hb
  | startbtn | selectbtn =>
    cases down with
    | true => exact ⟨⟨[_, _], List.append_assoc .., rfl⟩, rfl, rfl⟩
    | false => exact ⟨⟨[_, _], List.append_assoc .., rfl⟩, rfl, rfl⟩
  | tvbutton | pwrbutton => exact .refl
  | _ => exact ⟨⟨[_], rfl, rfl⟩, rfl, rfl⟩

theorem points_key (hb : b ∉ [.lbutton, .rbutton, .dhat, .uhat]) (s : VncInput) :
    Points s (s.ifChanged d b (react b)) [] s.buttonMask := by
  have h := points_ifChanged (d := d) (fun _ => points_react_key hb (d.value b ≠ 0) s)
    (fun _ => rfl)
  rwa [ite_self] at h

theorem points_keys {bs : List PadButton}
    (hbs : ∀ b ∈ bs, b ∉ [PadButton.lbutton, .rbutton, .dhat, .uhat]) (s : VncInput) :
    Points s (bs.foldl (fun s b => s.ifChanged d b (react b)) s) [] s.buttonMask := by
  induction bs generalizing s with
  | nil => exact .refl
  | cons b bs ih =>
    rw [List.forall_mem_cons] at hbs
    have hb := points_key (d := d) hbs.1 s
    have hrest := ih hbs.2 (s.ifChanged d b (react b))
    rw [hb.mask] at hrest
    exact hb.trans hrest

theorem padMask_left (l r down : Bool) :
    (if down then padMask l r ||| 1 else padMask l r &&& ~~~1) = padMask down r := by
  cases l <;> cases r <;> cases down <;> rfl

theorem padMask_right (l r down : Bool) :
    (if down then padMask l r ||| 4 else padMask l r &&& ~~~4) = padMask l down := by
  cases l <;> cases r <;> cases down <;> rfl

variable {l r : Bool}

theorem points_lbutton (hmask : s.buttonMask = padMask (s.prev .lbutton ≠ 0) r) :
    Points s (s.ifChanged d .lbutton (react .lbutton))
      (if d.value .lbutton ≠ s.prev .lbutton then [padMask (d.value .lbutton ≠ 0) r] else [])
      (padMask (d.value .lbutton ≠ 0) r) := by
  refine points_ifChanged (fun _ => ?_) (fun hsame => by rw [hmask, hsame])
  rw [← padMask_left (s.prev .lbutton ≠ 0), ← hmask]
  exact points_sendMask _ s

theorem points_rbutton (hmask : s.buttonMask = padMask l (s.prev .rbutton ≠ 0)) :
    Points s (s.ifChanged d .rbutton (react .rbutton))
      (if d.value .rbutton ≠ s.prev .rbutton then [padMask l (d.value .rbutton ≠ 0)] else [])
      (padMask l (d.value .rbutton ≠ 0)) := by
  refine points_ifChanged (fun _ => ?_) (fun hsame => by rw [hmask, hsame])
  rw [← padMask_right l (s.prev .rbutton ≠ 0), ← hmask]
  exact points_sendMask _ s

theorem padMask_click (hw : w ∈ [8, 16]) : (padMask l r ||| w) &&& ~~~w = padMask l r := by
  rcases List.mem_pair.mp hw with rfl | rfl <;> cases l <;> cases r <;> rfl

/-- A click of the wheel while the mask is that of held buttons. -/
theorem points_click (hmask : s.buttonMask = padMask l r) (hw : w ∈ [8, 16]) :
    Points s ((s.sendMask (s.buttonMask ||| w)).sendMask ((s.buttonMask ||| w) &&& ~~~w))
      [padMask l r ||| w, padMask l r] (padMask l r) := by
  rw [hmask, padMask_click hw]
  exact (points_sendMask _ s).trans (points_sendMask _ _)

/-- Down clicks the wheel on both edges. -/
theorem points_dhat (hmask : s.buttonMask = padMask l r) :
    Points s (s.ifChanged d .dhat (react .dhat))
      (if d.value .dhat ≠ s.prev .dhat then [padMask l r ||| 16, padMask l r] else [])
      (padMask l r) :=
  points_ifChanged (fun _ => points_click hmask (by decide)) (fun _ => hmask)

/-- The release of Up sends the mask, and then one in which everything is let go. -/
theorem points_uhat (hmask : s.buttonMask = padMask l r) :
    Points s (s.ifChanged d .uhat (react .uhat))
      (if d.value .uhat ≠ s.prev .uhat then
        if d.value .uhat = 0 then [padMask l r, 0] else [padMask l r ||| 8, padMask l r]
      else [])
      (if LetGo s.prev d .uhat then 0 else padMask l r) := by
  refine points_ifChanged (fun hch => ?_) (fun hsame => ?_)
  · by_cases hdown : d.value .uhat = 0
    · have hkeep : padMask l r &&& ~~~8 = padMask l r := by cases l <;> cases r <;> rfl
      have hclear : padMask l r &&& 8 = 0 := by cases l <;> cases r <;> rfl
      have h := (points_sendMask (s.buttonMask &&& ~~~8) s).trans
        (points_sendMask ((s.buttonMask &&& ~~~8) &&& 8) _)
      rw [hmask, hkeep, hclear] at h
      rw [if_pos hdown, if_pos ⟨hch, hdown⟩]
      simpa [react, hdown, hmask, hkeep, hclear] using h
    · have h := points_click hmask (w := 8) (by decide)
      rw [if_neg hdown, if_neg (fun hlet => hdown hlet.2)]
      simpa [react, hdown] using h
  · rw [if_neg (fun hlet => hlet.1 hsame)]
    exact hmask

/-- The two buttons as a frame has them. -/
def heldMask (value : PadButton → UInt32) : UInt32 :=
  padMask (value .lbutton ≠ 0) (value .rbutton ≠ 0)

/-- The masks that the buttons of a call send. -/
def buttonMasks (before : PadButton → UInt32) (d : InputData) : List UInt32 :=
  (if d.value .lbutton ≠ before .lbutton then
    [padMask (d.value .lbutton ≠ 0) (before .rbutton ≠ 0)] else []) ++
  (if d.value .rbutton ≠ before .rbutton then [heldMask d.value] else []) ++
  (if d.value .dhat ≠ before .dhat then [heldMask d.value ||| 16, heldMask d.value] else []) ++
  (if d.value .uhat ≠ before .uhat then
    if d.value .uhat = 0 then [heldMask d.value, 0] else [heldMask d.value ||| 8, heldMask d.value]
  else [])

def maskAfter (before : PadButton → UInt32) (d : InputData) : UInt32 :=
  if LetGo before d .uhat then 0 else heldMask d.value

/-- The pointer buttons come first. -/
theorem points_pointerButtons (hmask : s.buttonMask = heldMask s.prev) :
    Points s ([.lbutton, .rbutton, .dhat, .uhat].foldl (fun s b => s.ifChanged d b (react b)) s)
      (buttonMasks s.prev d) (maskAfter s.prev d) := by
  have h₁ := points_lbutton (d := d) hmask
  generalize hs₁ : s.ifChanged d .lbutton (react .lbutton) = s₁ at h₁
  have h₂ := points_rbutton (d := d) (s := s₁) (h₁.prev ▸ h₁.mask)
  generalize hs₂ : s₁.ifChanged d .rbutton (react .rbutton) = s₂ at h₂
  have h₃ := points_dhat (d := d) h₂.mask
  generalize hs₃ : s₂.ifChanged d .dhat (react .dhat) = s₃ at h₃
  have h₄ := points_uhat (d := d) h₃.mask
  rw [h₃.prev, h₂.prev, h₁.prev] at h₄
  rw [h₂.prev, h₁.prev] at h₃
  rw [h₁.prev] at h₂
  subst hs₃ hs₂ hs₁
  exact ((h₁.trans h₂).trans h₃).trans h₄

theorem points_mouseEvents (hmask : s.buttonMask = heldMask s.prev) :
    Points s (s.mouseEvents d) (buttonMasks s.prev d) (maskAfter s.prev d) := by
  have hpointer := points_pointerButtons (d := d) hmask
  have hrest : ∀ b ∈ [PadButton.rhat, .lhat, .abtn, .bbtn, .xbtn, .ybtn, .startbtn],
      b ∉ [PadButton.lbutton, .rbutton, .dhat, .uhat] := by decide
  have hkeys := points_keys (d := d) hrest
    ([.lbutton, .rbutton, .dhat, .uhat].foldl (fun s b => s.ifChanged d b (react b)) s)
  rw [hpointer.mask] at hkeys
  rw [mouseEvents]
  have hfold := hpointer.trans hkeys
  rw [← List.foldl_append, List.append_nil] at hfold
  change Points s (mouseButtons.foldl (fun s b => s.ifChanged d b (react b)) s) _ _ at hfold
  generalize mouseButtons.foldl (fun s b => s.ifChanged d b (react b)) s = t at hfold
  have hselect : ∀ down, Points t
      ((react .selectbtn down t).ifChanged d .homebtn (react .homebtn)) [] t.buttonMask := by
    intro down
    have hreact := points_react_key (b := .selectbtn) (by decide) down t
    have hhome := points_key (d := d) (b := .homebtn) (by decide) (react .selectbtn down t)
    rw [hreact.mask] at hhome
    exact hreact.trans hhome
  have hblock : Points t (t.ifChanged d .selectbtn fun down s =>
      (react .selectbtn down s).ifChanged d .homebtn (react .homebtn)) _ t.buttonMask :=
    points_ifChanged (fun _ => hselect _) (fun _ => rfl)
  have h := hfold.trans hblock
  rwa [ite_self, List.append_nil, hfold.mask] at h

/-- What a call in mouse mode sends: the masks of its buttons, and the last one again if a touch
moves the pointer. -/
theorem pointer_processDrcInput (hl : s.Linked) (hmode : s.drcJoystickMode = false)
    (hstay : (s.processDrcInput d).drcJoystickMode = false)
    (hmask : s.buttonMask = heldMask s.prev) :
    (s.processDrcInput d).buttonMask = maskAfter s.prev d ∧
      ∃ touch, (∀ m ∈ touch, m = maskAfter s.prev d) ∧
        s.shown RfbEvent.mask? d = buttonMasks s.prev d ++ touch := by
  have hbuttons : Shows RfbEvent.mask? s (s.buttonEvents d) (buttonMasks s.prev d) ∧
      (s.buttonEvents d).buttonMask = maskAfter s.prev d := by
    rcases buttonEvents_mouse hl hmode hstay with ⟨hv, heq⟩ | heq
    · have hlet : ¬ LetGo s.prev d .uhat := fun h => h.1 (congrFun hv _)
      have hnil : buttonMasks s.prev d = [] := by simp [buttonMasks, hv]
      rw [heq, hnil, maskAfter, if_neg hlet, hv]
      exact ⟨.refl, hmask⟩
    · have hmouse := points_mouseEvents (d := d) hmask
      generalize s.mouseEvents d = t at heq hmouse
      rw [heq]
      exact ⟨hmouse.shows, hmouse.mask⟩
  obtain ⟨hshows, hafter⟩ := hbuttons
  rw [processDrcInput, touchEvents_frame.2.2.1]
  refine ⟨hafter, ?_⟩
  by_cases htouch : d.tsPressed ∧ (d.x ≠ (s.buttonEvents d).prevX ∨ d.y ≠ (s.buttonEvents d).prevY)
  · refine ⟨[maskAfter s.prev d], by simp, shown_eq (hshows.trans ?_)⟩
    rw [processDrcInput, touchEvents, if_pos htouch, ← hafter]
    exact ⟨[_], rfl, rfl⟩
  · refine ⟨[], by simp, shown_eq (hshows.trans ?_)⟩
    rw [processDrcInput, touchEvents, if_neg htouch]
    exact .refl

theorem NoClick.append (h : NoClick w masks) (h' : NoClick w masks') :
    NoClick w (masks ++ masks') :=
  List.forall_mem_append.mpr ⟨h, h'⟩

theorem Clicks.append_left {pressed : Prop} (h : Clicks w pressed masks)
    (h' : NoClick w masks') : Clicks w pressed (masks' ++ masks) := by
  refine ⟨fun hp => ?_, fun hp => h'.append (h.2 hp)⟩
  obtain ⟨pre, m, m', post, rfl, hm, hm', hpre, hpost⟩ := h.1 hp
  exact ⟨masks' ++ pre, m, m', post, by simp, hm, hm', h'.append hpre, hpost⟩

theorem Clicks.append_right {pressed : Prop} (h : Clicks w pressed masks)
    (h' : NoClick w masks') : Clicks w pressed (masks ++ masks') := by
  refine ⟨fun hp => ?_, fun hp => (h.2 hp).append h'⟩
  obtain ⟨pre, m, m', post, rfl, hm, hm', hpre, hpost⟩ := h.1 hp
  exact ⟨pre, m, m', post ++ masks', by simp, hm, hm', hpre, hpost.append h'⟩

theorem padMask_and (hw : w ∈ [8, 16]) (l r : Bool) : padMask l r &&& w = 0 := by
  rcases List.mem_pair.mp hw with rfl | rfl <;> cases l <;> cases r <;> rfl

theorem padMask_or_and (hw : w ∈ [8, 16]) (l r : Bool) : (padMask l r ||| w) &&& w = w := by
  rcases List.mem_pair.mp hw with rfl | rfl <;> cases l <;> cases r <;> rfl

theorem padMask_getLsbD (l r : Bool) :
    (padMask l r).toBitVec.getLsbD 0 = l ∧ (padMask l r).toBitVec.getLsbD 2 = r := by
  cases l <;> cases r <;> exact ⟨rfl, rfl⟩

theorem heldMask_eq_zero {value : PadButton → UInt32} :
    heldMask value = 0 ↔ value .lbutton = 0 ∧ value .rbutton = 0 := by
  by_cases hl : value .lbutton = 0 <;> by_cases hr : value .rbutton = 0 <;>
    simp [heldMask, padMask, hl, hr]

/-- What a frame must respect: Down is not let go, and Up only while neither pointer button is
held. -/
def PointerCallOk (before : PadButton → UInt32) (d : InputData) : Prop :=
  ¬ LetGo before d .dhat ∧ (LetGo before d .uhat → d.value .lbutton = 0 ∧ d.value .rbutton = 0)

instance : Decidable (PointerCallOk before d) :=
  inferInstanceAs (Decidable (_ ∧ _))

theorem maskAfter_eq (h : PointerCallOk before d) : maskAfter before d = heldMask d.value := by
  rw [maskAfter]
  split_ifs with hlet
  · exact (heldMask_eq_zero.mpr (h.2 hlet)).symm
  · rfl

theorem NoClick.ite {c : Prop} [Decidable c] (h : NoClick w masks) :
    NoClick w (if c then masks else []) := by
  intro m hm
  exact h m (List.mem_ite_nil_right.mp hm).2

theorem clicks_ite {c pressed : Prop} [Decidable c] (hw : w ∈ [8, 16]) (hc : c ↔ pressed) :
    Clicks w pressed (if c then [padMask l r ||| w, padMask l r] else []) := by
  constructor
  · intro hp
    rw [if_pos (hc.mpr hp)]
    exact ⟨[], _, _, [], rfl, padMask_or_and hw l r, padMask_and hw l r, nofun, nofun⟩
  · intro hp
    rw [if_neg (mt hc.mp hp)]
    exact nofun

theorem noClick_singleton (h : m &&& w = 0) : NoClick w [m] := by
  intro x hx
  rw [List.mem_singleton.mp hx]
  exact h

theorem noClick_padMask (hw : w ∈ [8, 16]) (l r : Bool) : NoClick w [padMask l r] :=
  noClick_singleton (padMask_and hw l r)

/-- The other direction of the wheel. -/
theorem noClick_other {w' : UInt32} (hw : w ∈ [8, 16]) (hw' : w' ∈ [8, 16]) (hne : w ≠ w')
    (l r : Bool) : NoClick w [padMask l r ||| w', padMask l r] := by
  have hbit : (padMask l r ||| w') &&& w = 0 := by
    rcases List.mem_pair.mp hw with rfl | rfl <;> rcases List.mem_pair.mp hw' with rfl | rfl
    · exact absurd rfl hne
    · cases l <;> cases r <;> rfl
    · cases l <;> cases r <;> rfl
    · exact absurd rfl hne
  exact (noClick_singleton hbit).append (noClick_padMask hw l r)

theorem changed_iff_pressed (h : ¬ LetGo before d b) :
    d.value b ≠ before b ↔ Pressed before d b := by
  constructor
  · intro hch
    exact ⟨hch, fun hzero => h ⟨hch, hzero⟩⟩
  · exact And.left

/-- The events of Up, when its release finds no button held. -/
theorem clicks_uhat (h : PointerCallOk before d) :
    Clicks 8 (Pressed before d .uhat) (if d.value .uhat ≠ before .uhat then
      if d.value .uhat = 0 then [heldMask d.value, 0]
      else [heldMask d.value ||| 8, heldMask d.value]
    else []) := by
  by_cases hlet : LetGo before d .uhat
  · have hzero := heldMask_eq_zero.mpr (h.2 hlet)
    rw [if_pos hlet.1, if_pos hlet.2, hzero]
    have hno : NoClick 8 [0] := noClick_singleton rfl
    exact ⟨fun hp => absurd hlet.2 hp.2, fun _ => hno.append hno⟩
  · have hclick := clicks_ite (w := 8) (l := d.value .lbutton ≠ 0) (r := d.value .rbutton ≠ 0)
      (by decide) (changed_iff_pressed hlet)
    by_cases hch : d.value .uhat = before .uhat
    · simpa [hch] using hclick
    · have hdown : d.value .uhat ≠ 0 := fun hzero => hlet ⟨hch, hzero⟩
      rw [if_neg hdown]
      exact hclick

theorem clicks_buttonMasks (h : PointerCallOk before d) :
    Clicks 8 (Pressed before d .uhat) (buttonMasks before d) ∧
      Clicks 16 (Pressed before d .dhat) (buttonMasks before d) := by
  have hbuttons : ∀ w ∈ [8, 16], NoClick w
      ((if d.value .lbutton ≠ before .lbutton then
        [padMask (d.value .lbutton ≠ 0) (before .rbutton ≠ 0)] else []) ++
        if d.value .rbutton ≠ before .rbutton then [heldMask d.value] else []) := by
    intro w hw
    exact (noClick_padMask hw _ _).ite.append (noClick_padMask hw _ _).ite
  constructor
  · have hdown : NoClick 8 [heldMask d.value ||| 16, heldMask d.value] :=
      noClick_other (by decide) (by decide) (by decide) _ _
    exact (clicks_uhat h).append_left ((hbuttons 8 (by decide)).append hdown.ite)
  · have hup : NoClick 16 (if d.value .uhat = 0 then [heldMask d.value, 0]
        else [heldMask d.value ||| 8, heldMask d.value]) := by
      split_ifs
      · have hzero : NoClick 16 [0] := noClick_singleton rfl
        exact (noClick_padMask (by decide) _ _).append hzero
      · exact noClick_other (by decide) (by decide) (by decide) _ _
    have hdown := clicks_ite (w := 16) (l := d.value .lbutton ≠ 0) (r := d.value .rbutton ≠ 0)
      (by decide) (changed_iff_pressed h.1)
    exact (hdown.append_left (hbuttons 16 (by decide))).append_right hup.ite

/-- ZL and ZR are looked at before L and R. -/
theorem carries_left (before value : PadButton → UInt32) : Carries (heldMask before)
    (heldMask value) (padMask (value .lbutton ≠ 0) (before .rbutton ≠ 0)) := by
  refine ⟨_, _, 0, by decide, UInt32.or_zero.symm, .inr ?_, .inl ?_⟩
  · exact (padMask_getLsbD _ _).1.symm
  · exact (padMask_getLsbD _ _).2.symm

theorem carries_heldMask {was wheel : UInt32} {value : PadButton → UInt32}
    (hw : wheel ∈ [0, 8, 16]) : Carries was (heldMask value) (heldMask value ||| wheel) := by
  refine ⟨_, _, wheel, hw, rfl, .inr ?_, .inr ?_⟩
  · exact (padMask_getLsbD _ _).1.symm
  · exact (padMask_getLsbD _ _).2.symm

theorem carries_self (was : UInt32) (value : PadButton → UInt32) :
    Carries was (heldMask value) (heldMask value) := by
  have h : Carries was (heldMask value) (heldMask value ||| 0) := carries_heldMask (by decide)
  rwa [UInt32.or_zero] at h

theorem carries_buttonMasks (h : PointerCallOk before d) (hm : m ∈ buttonMasks before d) :
    Carries (heldMask before) (heldMask d.value) m := by
  have hheld := carries_self (heldMask before) d.value
  simp only [buttonMasks, List.mem_append, List.mem_ite_nil_right] at hm
  rcases hm with ((⟨-, hm⟩ | ⟨-, hm⟩) | ⟨-, hm⟩) | ⟨hch, hm⟩
  · rw [List.mem_singleton.mp hm]
    exact carries_left before d.value
  · rw [List.mem_singleton.mp hm]
    exact hheld
  · rcases List.mem_pair.mp hm with rfl | rfl
    · exact carries_heldMask (by decide)
    · exact hheld
  · split_ifs at hm with hzero
    · rcases List.mem_pair.mp hm with rfl | rfl
      · exact hheld
      · rw [heldMask_eq_zero.mpr (h.2 ⟨hch, hzero⟩)] at hheld ⊢
        exact hheld
    · rcases List.mem_pair.mp hm with rfl | rfl
      · exact carries_heldMask (by decide)
      · exact hheld

/-- One call mirrors the held buttons exactly when its frame respects the condition. -/
theorem pointerMirrors_iff (hl : s.Linked) (hmode : s.drcJoystickMode = false)
    (hstay : (s.processDrcInput d).drcJoystickMode = false)
    (hmask : s.buttonMask = heldMask s.prev) :
    s.PointerMirrors s.prev d ↔ PointerCallOk s.prev d := by
  obtain ⟨hafter, touch, htouch, hshown⟩ := pointer_processDrcInput hl hmode hstay hmask
  constructor
  · intro h
    refine ⟨fun hlet => ?_, fun hlet => ?_⟩
    · have hno := h.down.2 (fun hp => hp.2 hlet.2)
      have hmem : heldMask d.value ||| 16 ∈ s.shown RfbEvent.mask? d := by
        simp [hshown, buttonMasks, hlet.1]
      have hbit := (padMask_or_and (w := 16) (by decide) _ _).symm.trans (hno _ hmem)
      exact absurd hbit (by decide)
    · have hzero : maskAfter s.prev d = 0 := if_pos hlet
      exact heldMask_eq_zero.mp (h.mask.symm.trans (hafter.trans hzero))
  · intro h
    have hheld := maskAfter_eq h
    obtain ⟨hup, hdown⟩ := clicks_buttonMasks h
    have htouchClick : ∀ w ∈ [8, 16], NoClick w touch := by
      intro w hw m hm
      rw [htouch m hm, hheld]
      exact padMask_and hw _ _
    refine ⟨hafter.trans hheld, fun m hm => ?_, ?_, ?_⟩
    · rw [hafter, hheld, hmask]
      rw [hshown] at hm
      rcases List.mem_append.mp hm with hm | hm
      · exact carries_buttonMasks h hm
      · rw [htouch m hm, hheld]
        exact carries_self _ _
    · rw [hshown]
      exact hup.append_right (htouchClick 8 (by decide))
    · rw [hshown]
      exact hdown.append_right (htouchClick 16 (by decide))

/-- Along a run in mouse mode the pointer mirrors the held buttons exactly when every frame respects
the condition. -/
theorem pointer_mirrors_iff (viewOnly : Bool) (height : Int32) (frames : List InputData)
    (htv : NoTvPress [] frames) :
    (∀ pre d, pre ++ [d] <+: frames →
      (inputAfter viewOnly false height pre).PointerMirrors (valueBefore pre) d) ↔
      ∀ pre d, pre ++ [d] <+: frames → PointerCallOk (valueBefore pre) d := by
  have hstart : (inputAfter viewOnly false height []).drcJoystickMode = false := rfl
  refine forall_call_iff
    (I := fun pre => (inputAfter viewOnly false height pre).buttonMask =
      heldMask (inputAfter viewOnly false height pre).prev) ?_ ?_ ?_
  · exact (heldMask_eq_zero.mpr ⟨rfl, rfl⟩).symm
  · intro pre d hp hmask
    obtain ⟨hmode, hstay⟩ := mouse_mode_call hstart htv hp
    rw [List.nil_append] at hmode hstay
    rw [← prev_inputAfter viewOnly false height pre]
    exact pointerMirrors_iff (linked_inputAfter ..) hmode hstay hmask
  · intro pre d _ _ h
    rw [inputAfter_snoc, prev_processDrcInput (linked_inputAfter ..)]
    exact h.mask

/-- Up and ZL are pressed together, and let go together while Down is pressed. -/
theorem pointer_mirrors_up_with_zl :
    NoTvPress [] [⟨true, 0x280, false, 0, 0⟩, ⟨true, 0x100, true, 5, 5⟩] ∧
      ∀ pre d, pre ++ [d] <+: [⟨true, 0x280, false, 0, 0⟩, ⟨true, 0x100, true, 5, 5⟩] →
        (inputAfter false false 480 pre).PointerMirrors (valueBefore pre) d := by
  have htv : NoTvPress [] [⟨true, 0x280, false, 0, 0⟩, ⟨true, 0x100, true, 5, 5⟩] :=
    forall_snoc_prefix_of_getElem (by decide)
  refine ⟨htv, (pointer_mirrors_iff false 480 _ htv).mpr ?_⟩
  exact forall_snoc_prefix_of_getElem (by decide)

/-- Letting go of Up while ZL is held lets go of ZL on the server. -/
theorem up_lets_go_of_zl : ¬ ∀ (viewOnly : Bool) (height : Int32) (frames : List InputData),
    NoTvPress [] frames → ∀ pre d, pre ++ [d] <+: frames →
      (inputAfter viewOnly false height pre).PointerMirrors (valueBefore pre) d := by
  intro h
  have htv : NoTvPress [] [⟨true, 0x280, false, 0, 0⟩, ⟨true, 0x80, false, 0, 0⟩] :=
    forall_snoc_prefix_of_getElem (by decide)
  have hmirrors := h false 480 _ htv [⟨true, 0x280, false, 0, 0⟩] _ (List.prefix_refl _)
  exact absurd hmirrors.mask (by decide)

end Pc2Drc
