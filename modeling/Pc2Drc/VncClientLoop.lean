import Pc2Drc.Lib.Run

/-! The main loop of the VNC client: screen updates from the server and the frames it pushes to the
pad, through a limiter. -/
namespace Pc2Drc
open Lib

def kScreenHeight : ℕ := 480

/-- The buffer `resize` allocates: rows of 854 pixels of four bytes. -/
abbrev FrameBuffer := Vector UInt8 (854 * kScreenHeight * 4)

inductive PixelFormat
  | rgb | rgba | bgr | bgra | rgb565
  deriving DecidableEq, Repr

/-- The arguments of `PushVidFrame`. -/
structure VidFrame where
  pixels : FrameBuffer
  width : ℕ
  height : ℕ
  pixfmt : PixelFormat

/-- Milliseconds per frame: `1000 / 59.94` as an integer. -/
def frameWaitMS : UInt32 := 100000 / 5994

/-- `SDL_GetTicks` at `t` milliseconds after the start; it wraps. -/
def sdlGetTicks (t : ℕ) : UInt32 := UInt32.ofNat t

/-- The times at which one call of `Push_DRC_Frame` reads the clock, as far as it does. -/
structure ClockReadings where
  first : ℕ
  second : ℕ
  third : ℕ

/-- What an iteration meets: an SDL event and whether the loop goes on, or the result of waiting for
the server. A message may change the screen, and then calls `update`. -/
inductive Received
  | sdlEvent (goesOn : Bool)
  | waitFailed
  | timeout
  | message (change : Option FrameBuffer) (handled : Bool)

/-- `connected` is false once the loop is left; `now` is the time that has passed. -/
structure VncClient where
  frameBuffer : FrameBuffer
  vncUpdate : Bool
  startMS : UInt32
  connected : Bool
  now : ℕ

namespace VncClient

/-- The loop as it is entered; the flag and the limiter's start outlive a connection. -/
def enter (frameBuffer : FrameBuffer) (vncUpdate : Bool) (startMS : UInt32) (now : ℕ) : VncClient :=
  ⟨frameBuffer, vncUpdate, startMS, true, now⟩

def update (c : VncClient) : VncClient := { c with vncUpdate := true }

def handleRFBServerMessage (c : VncClient) : Option FrameBuffer → VncClient
  | none => c
  | some fb => { c with frameBuffer := fb }.update

/-- The first half of an iteration; the flag tells whether the loop goes on. -/
def receive (c : VncClient) : Received → VncClient × Bool
  | .sdlEvent goesOn => (c, goesOn)
  | .waitFailed => (c, false)
  | .timeout => (c, true)
  | .message change handled => (c.handleRFBServerMessage change, handled)

/-- The limiter lets a frame pass: `startMS` is the static before the call, 0 if it was not set. -/
def passes (startMS : UInt32) (clock : ClockReadings) : Bool :=
  let start := if startMS = 0 then sdlGetTicks clock.first else startMS
  sdlGetTicks clock.second - start > frameWaitMS

def pushDrcFrame (c : VncClient) (clock : ClockReadings) : VncClient × List VidFrame :=
  if passes c.startMS clock then
    ({ c with startMS := sdlGetTicks clock.third }, [⟨c.frameBuffer, 854, kScreenHeight, .bgra⟩])
  else
    ({ c with startMS := if c.startMS = 0 then sdlGetTicks clock.first else c.startMS }, [])

/-- One iteration. The flag is cleared whether the limiter let the frame pass or not. -/
def iterate (c : VncClient) (r : Received) (clock : ClockReadings) : VncClient × List VidFrame :=
  let (c, goesOn) := { c with now := clock.third }.receive r
  if !goesOn then ({ c with connected := false }, [])
  else if c.vncUpdate then
    let (c, pushed) := c.pushDrcFrame clock
    ({ c with vncUpdate := false }, pushed)
  else (c, [])

end VncClient

/-- An iteration at clock readings that do not run backwards. -/
inductive VncStep : VncClient → Received × ClockReadings → List VidFrame → VncClient → Prop
  | iterate {c : VncClient} {r : Received} {clock : ClockReadings} : c.connected = true →
      c.now ≤ clock.first → clock.first ≤ clock.second → clock.second ≤ clock.third →
      VncStep c (r, clock) (c.iterate r clock).2 (c.iterate r clock).1

abbrev VncTrace := List ((Received × ClockReadings) × List VidFrame)

def VncRun (start : VncClient) (tr : VncTrace) (c : VncClient) : Prop := Steps VncStep start tr c

/-- The content last given to `PushVidFrame`. -/
def lastPushed (tr : VncTrace) : Option FrameBuffer :=
  ((tr.flatMap (·.2)).getLast?).map (·.pixels)

/-- The message calls `update`. -/
def Received.updates : Received → Bool
  | .message (some _) _ => true
  | _ => false

/-- An update was pending at the start or arrived since. -/
def UpdateArrived (start : VncClient) (tr : VncTrace) : Prop :=
  start.vncUpdate = true ∨ ∃ x ∈ tr, x.1.1.updates = true

/-- No update is lost: when the screen is not what was pushed last, an update is pending. -/
def NoLostUpdate (start : VncClient) (tr : VncTrace) (c : VncClient) : Prop :=
  (∃ fb, lastPushed tr = some fb ∧ fb ≠ c.frameBuffer) ∨
    (lastPushed tr = none ∧ UpdateArrived start tr) → c.vncUpdate = true

/-- The iteration gets to the push with an update pending. -/
def Pending (c : VncClient) (r : Received) : Prop :=
  (c.receive r).2 = true ∧ (c.receive r).1.vncUpdate = true

/-- Whenever an update is pending at the push, the limiter lets the frame pass or there is nothing
new to push. -/
def LimiterPasses (start : VncClient) (tr : VncTrace) : Prop :=
  ∀ pre r clock out post c, tr = pre ++ ((r, clock), out) :: post → VncRun start pre c →
    Pending c r → VncClient.passes c.startMS clock ∨
      lastPushed pre = some (c.receive r).1.frameBuffer

variable {start c c' : VncClient} {r : Received} {clock : ClockReadings} {out : List VidFrame}
  {tr pre post : VncTrace} {x : Received × ClockReadings}

theorem VncStep.deterministic {t t' : VncClient} (h : VncStep c x out t) (h' : VncStep c x out t') :
    t = t' := by
  cases h
  cases h'
  rfl

@[simp]
theorem lastPushed_snoc_nil : lastPushed (tr ++ [(x, [])]) = lastPushed tr := by
  simp [lastPushed]

@[simp]
theorem lastPushed_snoc_single {f : VidFrame} :
    lastPushed (tr ++ [(x, [f])]) = some f.pixels := by
  simp [lastPushed]

/-- A message that calls `update` leaves the flag set; anything else changes nothing. -/
theorem receive_updates (c : VncClient) (r : Received) :
    r.updates = true ∧ (c.receive r).1.vncUpdate = true ∨
      r.updates = false ∧ (c.receive r).1 = c := by
  cases r with
  | sdlEvent | waitFailed | timeout => exact Or.inr ⟨rfl, rfl⟩
  | message change handled =>
    cases change with
    | none => exact Or.inr ⟨rfl, rfl⟩
    | some fb => exact Or.inl ⟨rfl, rfl⟩

theorem receive_now (c : VncClient) (r : Received) (now : ℕ) :
    { c with now := now }.receive r = ({ (c.receive r).1 with now := now }, (c.receive r).2) := by
  cases r with
  | sdlEvent | waitFailed | timeout => rfl
  | message change handled => cases change <;> rfl

/-- What an iteration does: it pushes only what is pending, and clears the flag either way. -/
theorem VncStep.effect (hs : VncStep c (r, clock) out c') :
    c'.frameBuffer = (c.receive r).1.frameBuffer ∧
    (¬ Pending c r ∧ out = [] ∧ c'.vncUpdate = (c.receive r).1.vncUpdate ∨
      Pending c r ∧ c'.vncUpdate = false ∧
        (VncClient.passes c.startMS clock = true ∧
            out = [⟨c'.frameBuffer, 854, kScreenHeight, .bgra⟩] ∨
          VncClient.passes c.startMS clock = false ∧ out = [])) := by
  cases hs with
  | iterate =>
    have hstart : (c.receive r).1.startMS = c.startMS := by
      cases r with
      | sdlEvent | waitFailed | timeout => rfl
      | message change handled => cases change <;> rfl
    unfold VncClient.iterate
    rw [receive_now]
    by_cases hgoes : (c.receive r).2 = true
    · by_cases hup : (c.receive r).1.vncUpdate = true
      · by_cases hpass : VncClient.passes c.startMS clock = true
        · simp [Pending, VncClient.pushDrcFrame, hgoes, hup, hpass, hstart]
        · simp [Pending, VncClient.pushDrcFrame, hgoes, hup, hpass, hstart]
      · simp [Pending, hgoes, hup]
    · simp [Pending, hgoes]

theorem updateArrived_snoc : UpdateArrived start (tr ++ [((r, clock), out)]) ↔
    UpdateArrived start tr ∨ r.updates = true := by
  simp only [UpdateArrived, List.mem_append, List.mem_singleton, or_and_right, exists_or,
    exists_eq_left, or_assoc]

/-- The flag is set only by updates. -/
theorem updateArrived_run (hrun : VncRun start tr c) (hup : c.vncUpdate = true) :
    UpdateArrived start tr := by
  refine Steps.invariant (P := fun tr c => c.vncUpdate = true → UpdateArrived start tr) hrun
    Or.inl ?_ hup
  rintro tr c ⟨r, clock⟩ out c' ih hs hup
  rw [updateArrived_snoc]
  obtain ⟨-, ⟨-, -, heq⟩ | ⟨-, hclear, -⟩⟩ := hs.effect
  · rcases receive_updates c r with ⟨hr, -⟩ | ⟨-, hc⟩
    · exact Or.inr hr
    · rw [hc] at heq
      exact Or.inl (ih (heq.symm.trans hup))
  · rw [hclear] at hup
    cases hup

/-- One iteration keeps every update exactly when the limiter does not eat a pending one. -/
theorem noLostUpdate_step (hrun : VncRun start tr c) (hi : NoLostUpdate start tr c)
    (hs : VncStep c (r, clock) out c') :
    NoLostUpdate start (tr ++ [((r, clock), out)]) c' ↔
      (Pending c r → VncClient.passes c.startMS clock ∨
        lastPushed tr = some (c.receive r).1.frameBuffer) := by
  obtain ⟨hfb, ⟨hnot, rfl, hup⟩ | ⟨hpend, hup, ⟨hpass, rfl⟩ | ⟨hpass, rfl⟩⟩⟩ := hs.effect
  · refine iff_of_true ?_ (fun h => (hnot h).elim)
    rcases receive_updates c r with ⟨-, hset⟩ | ⟨hr, hc⟩
    · exact fun _ => hup.trans hset
    · rw [hc] at hfb hup
      rw [NoLostUpdate, lastPushed_snoc_nil, updateArrived_snoc, hfb, hup, hr]
      simpa [NoLostUpdate] using hi
  · refine iff_of_true ?_ (fun _ => Or.inl hpass)
    rw [NoLostUpdate, lastPushed_snoc_single]
    simp
  · have harrived : UpdateArrived start (tr ++ [((r, clock), [])]) := by
      rw [updateArrived_snoc]
      rcases receive_updates c r with ⟨hr, -⟩ | ⟨-, hc⟩
      · exact Or.inr hr
      · exact Or.inl (updateArrived_run hrun (hc ▸ hpend.2))
    rw [NoLostUpdate, lastPushed_snoc_nil, hup, hfb, hpass]
    cases hlast : lastPushed tr with
    | none => simp [harrived, hpend]
    | some fb => simp [hpend]

/-- No update is lost in a run exactly when the limiter never eats a pending one. -/
theorem noLostUpdate_iff (hrun : VncRun start tr c) :
    (∀ pre post c', tr = pre ++ post → VncRun start pre c' → NoLostUpdate start pre c') ↔
      LimiterPasses start tr := by
  constructor
  · intro hall pre r clock out post c₁ htr hpre
    subst htr
    obtain ⟨u, v, hu, hstep, -⟩ := Steps.split hrun
    obtain rfl := hu.deterministic hpre fun _ _ _ _ _ => VncStep.deterministic
    have hi := hall pre _ u rfl hpre
    have hi' := hall (pre ++ [((r, clock), out)]) post v (by simp) (hpre.snoc hstep)
    exact (noLostUpdate_step hpre hi hstep).mp hi'
  · intro hpass pre post c' htr hpre
    have hinv : VncRun start pre c' ∧ (pre <+: tr → NoLostUpdate start pre c') := by
      refine Steps.invariant (P := fun pre c => VncRun start pre c ∧
        (pre <+: tr → NoLostUpdate start pre c)) hpre ⟨.refl, ?_⟩ ?_
      · intro _
        simp [NoLostUpdate, lastPushed, UpdateArrived]
      · rintro pre c ⟨r, clock⟩ out c' ⟨hpre, ih⟩ hs
        refine ⟨hpre.snoc hs, ?_⟩
        rintro ⟨post, rfl⟩
        have hi := ih ⟨((r, clock), out) :: post, by simp⟩
        exact (noLostUpdate_step hpre hi hs).mpr
          (hpass pre r clock out post c (by simp) hpre)
    exact hinv.2 ⟨post, htr.symm⟩

def blackScreen : FrameBuffer := Vector.replicate _ 0

def whiteScreen : FrameBuffer := Vector.replicate _ 255

/-- The theorem at the first update of a program whose two readings of the clock are 25 ms apart. -/
theorem noLostUpdate_pushed : ∃ (tr : VncTrace) (c : VncClient),
    VncRun (.enter blackScreen false 0 0) tr c ∧ lastPushed tr = some whiteScreen ∧
    ∀ pre post c', tr = pre ++ post → VncRun (.enter blackScreen false 0 0) pre c' →
      NoLostUpdate (.enter blackScreen false 0 0) pre c' := by
  have hrun : VncRun (.enter blackScreen false 0 0)
      [((.message (some whiteScreen) true, ⟨5, 30, 30⟩),
        [⟨whiteScreen, 854, kScreenHeight, .bgra⟩])] _ :=
    .single (.iterate rfl (by decide) (by decide) (by decide))
  refine ⟨_, _, hrun, rfl, (noLostUpdate_iff hrun).mpr ?_⟩
  intro pre r clock out post c htr hpre _
  cases pre with
  | nil =>
    cases htr
    obtain rfl := hpre.deterministic .refl fun _ _ _ _ _ => VncStep.deterministic
    exact Or.inl (by decide)
  | cons y pre => simp at htr

/-- The first update of a program is lost: the limiter has only just been started. -/
theorem first_update_lost : ¬ ∀ (tr : VncTrace) (c : VncClient),
    VncRun (.enter blackScreen false 0 0) tr c →
    ∀ pre post c', tr = pre ++ post → VncRun (.enter blackScreen false 0 0) pre c' →
      NoLostUpdate (.enter blackScreen false 0 0) pre c' := by
  intro hall
  have hrun : VncRun (.enter blackScreen false 0 0)
      [((.message (some whiteScreen) true, ⟨5, 5, 5⟩), [])] _ :=
    .single (.iterate rfl (by decide) (by decide) (by decide))
  have hlost := hall _ _ hrun _ [] _ (List.append_nil _).symm hrun
  have hup := hlost (Or.inr ⟨rfl, Or.inr ⟨_, List.mem_singleton_self _, rfl⟩⟩)
  cases hup

end Pc2Drc
