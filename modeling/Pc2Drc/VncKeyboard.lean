import Pc2Drc.VncInputHeld

/-! Keyboard events of the VNC client: which keys they leave pressed at the server. -/
namespace Pc2Drc

open Lib VncInput

/-- A keyboard event of SDL. The key that produced a text is not told to the client. -/
inductive KeyboardEvent
  | keyDown (sym : Int32) (ctrl : Bool)
  | keyUp (sym : Int32) (ctrl : Bool)
  | textInput (key : Int32) (text0 : Int8)
  deriving DecidableEq, Repr

namespace KeyboardEvent

def toSdl : KeyboardEvent → SdlEvent
  | keyDown sym ctrl => .keyDown sym ctrl
  | keyUp sym ctrl => .keyUp sym ctrl
  | textInput _ text0 => .textInput text0

def presses : KeyboardEvent → List Int32
  | keyDown sym _ => [sym]
  | _ => []

def releases : KeyboardEvent → List Int32
  | keyUp sym _ => [sym]
  | _ => []

def typedBy : KeyboardEvent → List Int32
  | textInput key _ => [key]
  | _ => []

end KeyboardEvent

/-- Every key that is pressed is released later, and a text comes after the press of its key. -/
structure WellPaired (es : List KeyboardEvent) : Prop where
  released : ∀ pre e post, es = pre ++ e :: post → e.presses ⊆ post.flatMap KeyboardEvent.releases
  follows : ∀ pre e post, es = pre ++ e :: post → e.typedBy ⊆ pre.flatMap KeyboardEvent.presses

/-- The client after some keyboard events. -/
def typed (joystick : Bool) (height : Int32) (es : List KeyboardEvent) : VncInput :=
  es.foldl (fun s e => (s.handleSDLEvent e.toSdl).1) (VncInput.init false joystick height)

/-- Every press that was sent is followed by its release, and no character is remembered. -/
structure VncInput.NoKeyStuck (s : VncInput) : Prop where
  released : ∀ pre k post, s.sent = pre ++ .key k true :: post → .key k false ∈ post
  empty : ∀ sym, s.keysDown sym = none

/-- What the events tell of each key: whether it is down, the key symbols pressed on its behalf
since it went down, and the last character it typed since then. -/
structure KeyLog where
  down : Int32 → Bool
  owed : Int32 → List UInt32
  text : Int32 → Option Int8

def KeyLog.see (g : KeyLog) : KeyboardEvent → KeyLog
  | .keyDown sym ctrl =>
    { g with
      down := Function.update g.down sym true
      owed :=
        if sdlKey2rfbKeySym sym ctrl > 0 then
          Function.update g.owed sym (sdlKey2rfbKeySym sym ctrl :: g.owed sym)
        else g.owed }
  | .keyUp sym _ =>
    { down := Function.update g.down sym false
      owed := Function.update g.owed sym []
      text := Function.update g.text sym none }
  | .textInput key c =>
    { g with
      owed := Function.update g.owed key (charKey c :: g.owed key)
      text := Function.update g.text key (some c) }

def keyLog (es : List KeyboardEvent) : KeyLog :=
  es.foldl KeyLog.see ⟨fun _ => false, fun _ => [], fun _ => none⟩

/-- What an event must respect. A text comes while its key is down, and its key is the last one
that went down without a key symbol of its own. A key goes up the way it went down: with the one
key symbol that was sent for it and no text, or with texts of one character only. -/
def KeyLog.Consistent (g : KeyLog) (symDown : Int32) : KeyboardEvent → Prop
  | .keyDown _ _ => True
  | .textInput key _ => symDown = key ∧ g.down key = true
  | .keyUp sym ctrl =>
    if sdlKey2rfbKeySym sym ctrl > 0 then
      g.owed sym ⊆ [sdlKey2rfbKeySym sym ctrl] ∧ g.text sym = none
    else g.owed sym ⊆ ((g.text sym).map charKey).toList

instance (g : KeyLog) (symDown : Int32) (e : KeyboardEvent) :
    Decidable (g.Consistent symDown e) :=
  match e with
  | .keyDown _ _ => inferInstanceAs (Decidable True)
  | .textInput key _ => inferInstanceAs (Decidable (symDown = key ∧ g.down key = true))
  | .keyUp sym ctrl => inferInstanceAs (Decidable (if sdlKey2rfbKeySym sym ctrl > 0 then
      g.owed sym ⊆ [sdlKey2rfbKeySym sym ctrl] ∧ g.text sym = none
    else g.owed sym ⊆ ((g.text sym).map charKey).toList))

variable {s : VncInput} {g : KeyLog} {e : KeyboardEvent} {es : List KeyboardEvent}
  {sym : Int32} {ctrl : Bool} {k : UInt32}

theorem typed_snoc (joystick : Bool) (height : Int32) (es : List KeyboardEvent)
    (e : KeyboardEvent) : typed joystick height (es ++ [e]) =
      ((typed joystick height es).handleSDLEvent e.toSdl).1 := by
  simp [typed]

theorem keyLog_snoc (es : List KeyboardEvent) (e : KeyboardEvent) :
    keyLog (es ++ [e]) = (keyLog es).see e := by
  simp [keyLog]

theorem keyDown_direct (hv : s.viewOnly = false) (hk : sdlKey2rfbKeySym sym ctrl > 0) :
    (s.handleSDLEvent (.keyDown sym ctrl)).1 = s.sendKeyEvent (sdlKey2rfbKeySym sym ctrl) true := by
  simp [handleSDLEvent, hv, hk]

theorem keyDown_indirect (hv : s.viewOnly = false) (hk : ¬ sdlKey2rfbKeySym sym ctrl > 0) :
    (s.handleSDLEvent (.keyDown sym ctrl)).1 = { s with symDown := sym } := by
  simp only [handleSDLEvent, hv, hk, Bool.false_eq_true, if_false]

theorem keyUp_direct (hv : s.viewOnly = false) (hk : sdlKey2rfbKeySym sym ctrl > 0) :
    (s.handleSDLEvent (.keyUp sym ctrl)).1 = s.sendKeyEvent (sdlKey2rfbKeySym sym ctrl) false := by
  simp [handleSDLEvent, hv, hk]

/-- The release of a key without a key symbol of its own goes by the remembered character. -/
theorem keyUp_indirect (hv : s.viewOnly = false) (hk : ¬ sdlKey2rfbKeySym sym ctrl > 0) :
    (s.keysDown sym = none ∧ (s.handleSDLEvent (.keyUp sym ctrl)).1 = s) ∨
    ∃ c, s.keysDown sym = some c ∧ (s.handleSDLEvent (.keyUp sym ctrl)).1 =
      { s.sendKeyEvent (charKey c) false with
        keysDown := Function.update s.keysDown sym none } := by
  cases hd : s.keysDown sym with
  | none => exact .inl ⟨rfl, by simp [handleSDLEvent, hv, hk, hd]⟩
  | some c =>
    refine .inr ⟨c, rfl, ?_⟩
    simp only [handleSDLEvent, hv, hk, hd, Bool.false_eq_true, if_false]

/-- A key symbol stays pressed until its release is seen. -/
theorem keys_see {h : Held} {l : List RfbEvent} (hk : h.keys k = true)
    (hl : .key k false ∉ l) : (l.foldl Held.see h).keys k = true := by
  induction l generalizing h with
  | nil => exact hk
  | cons x l ih =>
    rw [List.mem_cons, not_or] at hl
    refine ih ?_ hl.2
    cases x with
    | pointer | updateRequest => exact hk
    | key k' down =>
      by_cases hk' : k = k'
      · subst hk'
        cases down with
        | true => simp [Held.see]
        | false => exact absurd rfl hl.1
      · simpa [Held.see, hk'] using hk

theorem released_of_not_held (h : s.held.keys k = false) {pre post : List RfbEvent}
    (hsent : s.sent = pre ++ .key k true :: post) : .key k false ∈ post := by
  by_contra hpost
  rw [held, hsent, List.foldl_append, List.foldl_cons, keys_see (by simp [Held.see]) hpost] at h
  cases h

/-- A key that is down was pressed and not released since. -/
theorem pressed_of_down (h : (keyLog es).down sym = true) :
    ∃ pre e post, es = pre ++ e :: post ∧ sym ∈ e.presses ∧
      sym ∉ post.flatMap KeyboardEvent.releases := by
  induction es using List.reverseRecOn with
  | nil => cases h
  | append_singleton es e ih =>
    rw [keyLog_snoc] at h
    have hlater : (keyLog es).down sym = true → sym ∉ e.releases →
        ∃ pre e' post, es ++ [e] = pre ++ e' :: post ∧ sym ∈ e'.presses ∧
          sym ∉ post.flatMap KeyboardEvent.releases := by
      intro hdown he
      obtain ⟨pre, e', post, rfl, hpress, hpost⟩ := ih hdown
      refine ⟨pre, e', post ++ [e], by simp, hpress, ?_⟩
      rw [List.flatMap_append, List.mem_append, not_or]
      exact ⟨hpost, by simpa using he⟩
    cases e with
    | keyDown sym' ctrl =>
      by_cases hs : sym = sym'
      · subst hs
        exact ⟨es, _, [], rfl, List.mem_singleton_self sym, nofun⟩
      · exact hlater (by simpa [KeyLog.see, hs] using h) nofun
    | keyUp sym' ctrl =>
      by_cases hs : sym = sym'
      · simp [KeyLog.see, hs] at h
      · refine hlater (by simpa [KeyLog.see, hs] using h) ?_
        simpa [KeyboardEvent.releases] using hs
    | textInput key c => exact hlater h nofun

theorem WellPaired.all_up (h : WellPaired es) (sym : Int32) : (keyLog es).down sym = false := by
  by_contra hdown
  rw [Bool.not_eq_false] at hdown
  obtain ⟨pre, e, post, hes, hpress, hpost⟩ := pressed_of_down hdown
  exact hpost (h.released pre e post hes hpress)

/-- The client remembers the characters of the log, every key symbol that the server takes to be
pressed is owed to a key, and nothing is owed to a key that is up. -/
structure KeyLog.Accounted (g : KeyLog) (s : VncInput) : Prop where
  viewOnly : s.viewOnly = false
  text : s.keysDown = g.text
  owed : ∀ k, s.held.keys k = true → ∃ sym, k ∈ g.owed sym
  idle : ∀ sym, g.down sym = false → g.owed sym = [] ∧ g.text sym = none

theorem accounted_init (joystick : Bool) (height : Int32) :
    (keyLog []).Accounted (VncInput.init false joystick height) where
  viewOnly := rfl
  text := rfl
  owed := nofun
  idle _ _ := ⟨rfl, rfl⟩

/-- A press on behalf of a key adds to what is owed to it. -/
theorem owed_press (h : ∀ k, s.held.keys k = true → ∃ sym, k ∈ g.owed sym)
    {k' : UInt32} (hk : (s.sendKeyEvent k true).held.keys k' = true) :
    ∃ sym', k' ∈ Function.update g.owed sym (k :: g.owed sym) sym' := by
  rw [held_sendKeyEvent] at hk
  rcases holds_update hk with ⟨rfl, -⟩ | ⟨hk, -⟩
  · exact ⟨sym, by simp⟩
  · obtain ⟨sym', hmem⟩ := h k' hk
    refine ⟨sym', ?_⟩
    by_cases hs : sym' = sym
    · subst hs
      simp [hmem]
    · simpa [hs] using hmem

/-- What is still pressed when a key goes up is owed to other keys, if nothing was owed to this one
but the key symbol that is released. -/
theorem owed_release (h : ∀ k, s.held.keys k = true → ∃ sym, k ∈ g.owed sym)
    (hall : g.owed sym ⊆ [k]) {k' : UInt32}
    (hk : (s.sendKeyEvent k false).held.keys k' = true) :
    ∃ sym', k' ∈ Function.update g.owed sym [] sym' := by
  rw [held_sendKeyEvent] at hk
  rcases holds_update hk with ⟨-, hfalse⟩ | ⟨hk, hne⟩
  · cases hfalse
  · obtain ⟨sym', hmem⟩ := h k' hk
    refine ⟨sym', ?_⟩
    by_cases hs : sym' = sym
    · subst hs
      exact absurd (List.mem_singleton.mp (hall hmem)) hne
    · simpa [hs] using hmem

theorem accounted_keyDown (h : g.Accounted s) :
    (g.see (.keyDown sym ctrl)).Accounted (s.handleSDLEvent (.keyDown sym ctrl)).1 := by
  have hdown : ∀ sym', Function.update g.down sym true sym' = false →
      sym' ≠ sym ∧ g.down sym' = false := by
    intro sym' hsym'
    by_cases hs : sym' = sym
    · simp [hs] at hsym'
    · exact ⟨hs, by simpa [hs] using hsym'⟩
  rw [KeyLog.see]
  by_cases hk : sdlKey2rfbKeySym sym ctrl > 0
  · rw [keyDown_direct h.viewOnly hk, if_pos hk]
    refine ⟨h.viewOnly, h.text, fun k' hk' => owed_press h.owed hk', ?_⟩
    intro sym' hsym'
    obtain ⟨hs, hup⟩ := hdown sym' hsym'
    simpa [hs] using h.idle sym' hup
  · rw [keyDown_indirect h.viewOnly hk, if_neg hk]
    exact ⟨h.viewOnly, h.text, h.owed, fun sym' hsym' => h.idle sym' (hdown sym' hsym').2⟩

theorem accounted_textInput {c : Int8} (h : g.Accounted s) (hdown : g.down s.symDown = true) :
    (g.see (.textInput s.symDown c)).Accounted (s.handleSDLEvent (.textInput c)).1 := by
  constructor
  · exact h.viewOnly
  · exact congrArg (Function.update · s.symDown (some c)) h.text
  · intro k' hk'
    exact owed_press h.owed hk'
  · intro sym' hsym'
    have hs : sym' ≠ s.symDown := by
      rintro rfl
      rw [show g.down s.symDown = false from hsym'] at hdown
      cases hdown
    simpa [KeyLog.see, hs] using h.idle sym' hsym'

theorem idle_keyUp (h : g.Accounted s) (sym sym' : Int32)
    (hsym' : Function.update g.down sym false sym' = false) :
    Function.update g.owed sym [] sym' = [] ∧ Function.update g.text sym none sym' = none := by
  by_cases hs : sym' = sym
  · simp [hs]
  · simpa [hs] using h.idle sym' (by simpa [hs] using hsym')

theorem accounted_keyUp (h : g.Accounted s) (hc : g.Consistent s.symDown (.keyUp sym ctrl)) :
    (g.see (.keyUp sym ctrl)).Accounted (s.handleSDLEvent (.keyUp sym ctrl)).1 := by
  have hidle := idle_keyUp h sym
  rw [KeyLog.see]
  by_cases hk : sdlKey2rfbKeySym sym ctrl > 0
  · rw [KeyLog.Consistent, if_pos hk] at hc
    rw [keyUp_direct h.viewOnly hk]
    refine ⟨h.viewOnly, ?_, fun k' hk' => owed_release h.owed hc.1 hk', hidle⟩
    rw [← hc.2, Function.update_eq_self]
    exact h.text
  · rw [KeyLog.Consistent, if_neg hk] at hc
    rcases keyUp_indirect h.viewOnly hk with ⟨htext, heq⟩ | ⟨c, htext, heq⟩
    · rw [h.text] at htext
      have hnone : g.owed sym = [] := by
        rw [htext] at hc
        exact List.subset_nil.mp hc
      have hkeep : Function.update g.owed sym [] = g.owed := by
        rw [← hnone, Function.update_eq_self]
      rw [heq]
      refine ⟨h.viewOnly, ?_, ?_, hidle⟩
      · rw [← htext, Function.update_eq_self]
        exact h.text
      · rw [hkeep]
        exact h.owed
    · rw [heq]
      have hall : g.owed sym ⊆ [charKey c] := by
        rw [h.text] at htext
        rw [htext] at hc
        exact hc
      exact ⟨h.viewOnly, congrArg (Function.update · sym none) h.text,
        fun k' hk' => owed_release h.owed hall hk', hidle⟩

theorem accounted_step (h : g.Accounted s) (hc : g.Consistent s.symDown e) :
    (g.see e).Accounted (s.handleSDLEvent e.toSdl).1 := by
  cases e with
  | keyDown sym ctrl => exact accounted_keyDown h
  | keyUp sym ctrl => exact accounted_keyUp h hc
  | textInput key c =>
    obtain ⟨rfl, hdown⟩ := hc
    exact accounted_textInput h hdown

/-- Everything is accounted for along a run whose events respect the condition. -/
theorem accounted_run {joystick : Bool} {height : Int32} {es : List KeyboardEvent}
    (hc : ∀ pre e, pre ++ [e] <+: es →
      (keyLog pre).Consistent (typed joystick height pre).symDown e) :
    (keyLog es).Accounted (typed joystick height es) := by
  induction es using List.reverseRecOn with
  | nil => exact accounted_init joystick height
  | append_singleton es e ih =>
    rw [forall_snoc_prefix_iff] at hc
    rw [keyLog_snoc, typed_snoc]
    exact accounted_step (ih hc.1) hc.2

theorem noKeyStuck_of_up (h : g.Accounted s) (hup : ∀ sym, g.down sym = false) :
    s.NoKeyStuck := by
  constructor
  · intro pre k post hsent
    refine released_of_not_held ?_ hsent
    by_contra hk
    obtain ⟨sym, hmem⟩ := h.owed k (by simpa using hk)
    rw [(h.idle sym (hup sym)).1] at hmem
    cases hmem
  · intro sym
    rw [h.text]
    exact (h.idle sym (hup sym)).2

/-- No key stays pressed if every text is credited to its key and every key goes up the way it went
down. -/
theorem no_key_stuck (joystick : Bool) (height : Int32) (es : List KeyboardEvent)
    (hes : WellPaired es) (hc : ∀ pre e, pre ++ [e] <+: es →
      (keyLog pre).Consistent (typed joystick height pre).symDown e) :
    (typed joystick height es).NoKeyStuck :=
  noKeyStuck_of_up (accounted_run hc) hes.all_up

/-- A character typed with auto-repeat, then Ctrl+C. -/
def typedThenCopied : List KeyboardEvent :=
  [.keyDown 97 false, .textInput 97 97, .keyDown 97 false, .textInput 97 97, .keyUp 97 false,
    .keyDown 0x400000e0 true, .keyDown 99 true, .keyUp 99 true, .keyUp 0x400000e0 false]

theorem no_key_stuck_typed_then_copied : (typed false 480 typedThenCopied).NoKeyStuck := by
  apply no_key_stuck
  · exact ⟨forall_split_of_getElem (by decide), forall_split_of_getElem (by decide)⟩
  · exact forall_snoc_prefix_of_getElem (by decide)

/-- Ctrl goes down while Shift+A is held: the release of the key is sent as `a`, and `A` stays
pressed. -/
theorem shifted_key_stays_pressed : ¬ ∀ (joystick : Bool) (height : Int32)
    (es : List KeyboardEvent), WellPaired es → (typed joystick height es).NoKeyStuck := by
  intro h
  have hstuck := h false 480 [.keyDown 0x400000e1 false, .keyDown 97 false, .textInput 97 65,
    .keyDown 0x400000e0 true, .keyUp 97 true, .keyUp 0x400000e0 false, .keyUp 0x400000e1 false]
    ⟨forall_split_of_getElem (by decide), forall_split_of_getElem (by decide)⟩
  have hmem := hstuck.released [.key 0xffe1 true] 65
    [.key 0xffe3 true, .key 97 false, .key 0xffe3 false, .key 0xffe1 false] (by decide)
  exact absurd hmem (by decide)

end Pc2Drc
