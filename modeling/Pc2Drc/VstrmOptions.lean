import Pc2Drc.Lib.Run
import Pc2Drc.VstrmPacket

/-! The two options of the extended header that can be set and cleared at any time. -/
namespace Pc2Drc
open Lib

inductive OptionCall
  | setIdrFlag (flag : Bool)
  | setFrameRate (framerate : VideoFrameRate)
  deriving DecidableEq, Repr

def OptionCall.apply (p : VstrmPacket) : OptionCall → VstrmPacket
  | .setIdrFlag flag => p.setIdrFlag flag
  | .setFrameRate framerate => p.setFrameRate framerate

/-- The packet after some calls on a fresh one. -/
def packetAfter (calls : List OptionCall) : VstrmPacket :=
  calls.foldl OptionCall.apply .resetPacket

/-- The arguments of the last calls, or what a fresh packet has. -/
def lastIdrFlag (calls : List OptionCall) : Bool :=
  (calls.filterMap fun
    | .setIdrFlag flag => some flag
    | .setFrameRate _ => none).getLast?.getD false

def lastFrameRate (calls : List OptionCall) : VideoFrameRate :=
  (calls.filterMap fun
    | .setIdrFlag _ => none
    | .setFrameRate framerate => some framerate).getLast?.getD .kUnknown

def VstrmPacket.extHeader (p : VstrmPacket) : List UInt8 := (p.pkt.bytes.drop 8).take 8

/-- The options, in whatever order, and the getters say what was set last. -/
structure OptionsRight (calls : List OptionCall) : Prop where
  options : (readExtHeader (packetAfter calls).extHeader).Perm
    (extOptions (lastIdrFlag calls) (lastFrameRate calls))
  idrFlag : (packetAfter calls).idrFlag = lastIdrFlag calls
  frameRate : (packetAfter calls).frameRate = (lastFrameRate calls).toByte

def ExtOption.isFrameRate : ExtOption → Bool
  | .frameRate _ => true
  | _ => false

/-- What the calls are for: the options set, in the order in which they were first set. -/
def OptionCall.update (opts : List ExtOption) : OptionCall → List ExtOption
  | .setIdrFlag true => if .idr ∈ opts then opts else opts ++ [.idr]
  | .setIdrFlag false => opts.filter (· ≠ .idr)
  | .setFrameRate .kUnknown => opts.filter (!·.isFrameRate)
  | .setFrameRate framerate =>
    if opts.any ExtOption.isFrameRate then
      opts.map fun o => if o.isFrameRate then .frameRate framerate.toByte else o
    else opts ++ [.frameRate framerate.toByte]

def optionsAfter (calls : List OptionCall) : List ExtOption :=
  calls.foldl OptionCall.update []

/-- The frame rate 59.94Hz stands before the place of the IDR option. Its argument is the byte that
also marks the end of the options. -/
def RateZeroFirst (opts : List ExtOption) : Prop := opts.head? = some (.frameRate 0)

instance (opts : List ExtOption) : Decidable (RateZeroFirst opts) :=
  inferInstanceAs (Decidable (_ = _))

/-- The ways in which the two options are laid out. -/
inductive OptionLayout : Bool → VideoFrameRate → List ExtOption → Prop
  | none : OptionLayout false .kUnknown []
  | idr : OptionLayout true .kUnknown [.idr]
  | rate {fr : VideoFrameRate} : fr ≠ .kUnknown → OptionLayout false fr [.frameRate fr.toByte]
  | idrRate {fr : VideoFrameRate} : fr ≠ .kUnknown →
      OptionLayout true fr [.idr, .frameRate fr.toByte]
  | rateIdr {fr : VideoFrameRate} : fr ≠ .kUnknown →
      OptionLayout true fr [.frameRate fr.toByte, .idr]

def ExtOption.bytes : ExtOption → List UInt8
  | .idr => [0x80]
  | .frameRate arg => [0x82, arg]
  | _ => []

/-- The extended header that holds the options. -/
def extArea (opts : List ExtOption) : List UInt8 :=
  ([0x83, 0x85, 6] ++ opts.flatMap ExtOption.bytes ++ List.replicate 5 0).take 8

/-- A packet whose extended header holds the options. -/
def VstrmPacket.Holds (p : VstrmPacket) (opts : List ExtOption) : Prop :=
  ∃ b0 b1 b2 b3 t0 t1 t2 t3 body,
    p.pkt.bytes = [b0, b1, b2, b3, t0, t1, t2, t3] ++ extArea opts ++ body

variable {idr : Bool} {fr : VideoFrameRate} {opts : List ExtOption} {p : VstrmPacket}
  {calls : List OptionCall} {call : OptionCall}

/-- The arguments of the option setters are taken for none of the option bytes. -/
theorem toByte_ne (h : fr ≠ .kUnknown) : fr.toByte ≠ 0x80 ∧ fr.toByte ≠ 0x82 := by
  cases fr <;> decide

/-- The flag and the rate that are set after one more call. -/
def OptionCall.flagAfter (old : Bool) : OptionCall → Bool
  | .setIdrFlag flag => flag
  | .setFrameRate _ => old

def OptionCall.rateAfter (old : VideoFrameRate) : OptionCall → VideoFrameRate
  | .setIdrFlag _ => old
  | .setFrameRate framerate => framerate

theorem update_setFrameRate (h : fr ≠ .kUnknown) (opts : List ExtOption) :
    OptionCall.update opts (.setFrameRate fr) =
      if opts.any ExtOption.isFrameRate then
        opts.map fun o => if o.isFrameRate then .frameRate fr.toByte else o
      else opts ++ [.frameRate fr.toByte] := by
  cases fr <;> first | rfl | exact (h rfl).elim

theorem OptionLayout.update (h : OptionLayout idr fr opts) (call : OptionCall) :
    OptionLayout (call.flagAfter idr) (call.rateAfter fr) (call.update opts) := by
  cases call with
  | setIdrFlag flag =>
    cases flag with
    | true =>
      cases h with
      | none => exact .idr
      | idr => exact .idr
      | rate hfr => exact .rateIdr hfr
      | idrRate hfr => exact .idrRate hfr
      | rateIdr hfr => exact .rateIdr hfr
    | false =>
      cases h with
      | none => exact .none
      | idr => exact .none
      | rate hfr => exact .rate hfr
      | idrRate hfr => exact .rate hfr
      | rateIdr hfr => exact .rate hfr
  | setFrameRate framerate =>
    by_cases hr : framerate = .kUnknown
    · subst hr
      cases h with
      | none => exact .none
      | idr => exact .idr
      | rate => exact .none
      | idrRate => exact .idr
      | rateIdr => exact .idr
    · rw [update_setFrameRate hr]
      cases h with
      | none => exact .rate hr
      | idr => exact .idrRate hr
      | rate => exact .rate hr
      | idrRate => exact .idrRate hr
      | rateIdr => exact .rateIdr hr

namespace VstrmPacket

/-- Setting the IDR option finds it, or the end of the options, unless the argument of a frame rate
that stands first is taken for that end. -/
theorem Holds.setIdr (h : p.Holds opts) (hl : OptionLayout idr fr opts)
    (hzero : ¬ RateZeroFirst opts) :
    (p.setIdrFlag true).Holds (OptionCall.update opts (.setIdrFlag true)) := by
  obtain ⟨b0, b1, b2, b3, t0, t1, t2, t3, body, hp⟩ := h
  refine ⟨b0, b1, b2, b3, t0, t1, t2, t3, body, ?_⟩
  cases hl with
  | none | idr | idrRate =>
    simp [setIdrFlag, setExtOption, setExtOptionFrom, setExtVal, get, set, Buffer.get, hp, extArea,
      ExtOption.bytes, OptionCall.update]
  | rate hfr | rateIdr hfr =>
    have hv : fr.toByte ≠ 0 := by simpa [RateZeroFirst] using hzero
    simp [setIdrFlag, setExtOption, setExtOptionFrom, setExtVal, get, set, Buffer.get, hp, extArea,
      ExtOption.bytes, OptionCall.update, hv, toByte_ne hfr]

theorem Holds.clearIdr (h : p.Holds opts) (hl : OptionLayout idr fr opts) :
    (p.setIdrFlag false).Holds (OptionCall.update opts (.setIdrFlag false)) := by
  obtain ⟨b0, b1, b2, b3, t0, t1, t2, t3, body, hp⟩ := h
  refine ⟨b0, b1, b2, b3, t0, t1, t2, t3, body, ?_⟩
  cases hl with
  | none | idr =>
    simp [setIdrFlag, clearExtOption, clearExtOptionFrom, clearShift, get, set, Buffer.get, hp,
      extArea, ExtOption.bytes, OptionCall.update]
  | rate hfr | idrRate hfr | rateIdr hfr =>
    simp [setIdrFlag, clearExtOption, clearExtOptionFrom, clearShift, get, set, Buffer.get, hp,
      extArea, ExtOption.bytes, OptionCall.update, toByte_ne hfr]

theorem Holds.setRate {fr' : VideoFrameRate} (h : p.Holds opts) (hl : OptionLayout idr fr opts)
    (hr : fr' ≠ .kUnknown) :
    (p.setFrameRate fr').Holds (OptionCall.update opts (.setFrameRate fr')) := by
  obtain ⟨b0, b1, b2, b3, t0, t1, t2, t3, body, hp⟩ := h
  refine ⟨b0, b1, b2, b3, t0, t1, t2, t3, body, ?_⟩
  rw [update_setFrameRate hr, VstrmPacket.setFrameRate, if_neg hr]
  cases hl with
  | none | idr | rate | idrRate | rateIdr =>
    simp [setExtOption, setExtOptionFrom, setExtVal, get, set, Buffer.get, hp, extArea,
      ExtOption.bytes, ExtOption.isFrameRate]

theorem Holds.clearRate (h : p.Holds opts) (hl : OptionLayout idr fr opts) :
    (p.setFrameRate .kUnknown).Holds (OptionCall.update opts (.setFrameRate .kUnknown)) := by
  obtain ⟨b0, b1, b2, b3, t0, t1, t2, t3, body, hp⟩ := h
  refine ⟨b0, b1, b2, b3, t0, t1, t2, t3, body, ?_⟩
  cases hl with
  | none | idr =>
    simp [setFrameRate, clearExtOption, clearExtOptionFrom, get, Buffer.get, hp, extArea,
      ExtOption.bytes, ExtOption.isFrameRate, OptionCall.update]
  | rate | idrRate | rateIdr =>
    simp [setFrameRate, clearExtOption, clearExtOptionFrom, clearShift, get, set, Buffer.get, hp,
      extArea, ExtOption.bytes, ExtOption.isFrameRate, OptionCall.update]

/-- A call that is not misled keeps the header in step with the options. -/
theorem Holds.apply (h : p.Holds opts) (hl : OptionLayout idr fr opts)
    (hcall : call = .setIdrFlag true → ¬ RateZeroFirst opts) :
    (call.apply p).Holds (call.update opts) := by
  cases call with
  | setIdrFlag flag =>
    cases flag with
    | true => exact h.setIdr hl (hcall rfl)
    | false => exact h.clearIdr hl
  | setFrameRate framerate =>
    by_cases hr : framerate = .kUnknown
    · subst hr
      exact h.clearRate hl
    · exact h.setRate hl hr

theorem holds_reset : resetPacket.Holds [] :=
  ⟨_, _, _, _, _, _, _, _, _, bytes_reset⟩

theorem Holds.extHeader (h : p.Holds opts) (hl : OptionLayout idr fr opts) :
    p.extHeader = extArea opts := by
  obtain ⟨b0, b1, b2, b3, t0, t1, t2, t3, body, hp⟩ := h
  rw [VstrmPacket.extHeader, hp]
  cases hl <;> rfl

theorem Holds.idrFlag (h : p.Holds opts) (hl : OptionLayout idr fr opts) : p.idrFlag = idr := by
  obtain ⟨b0, b1, b2, b3, t0, t1, t2, t3, body, hp⟩ := h
  cases hl with
  | none | idr | idrRate =>
    simp [VstrmPacket.idrFlag, getExtOption, getExtOptionFrom, get, Buffer.get, hp, extArea,
      ExtOption.bytes]
  | rate hfr | rateIdr hfr =>
    simp [VstrmPacket.idrFlag, getExtOption, getExtOptionFrom, get, Buffer.get, hp, extArea,
      ExtOption.bytes, toByte_ne hfr]

theorem Holds.frameRate (h : p.Holds opts) (hl : OptionLayout idr fr opts) :
    p.frameRate = fr.toByte := by
  obtain ⟨b0, b1, b2, b3, t0, t1, t2, t3, body, hp⟩ := h
  cases hl with
  | none | idr | rate | idrRate | rateIdr =>
    simp [VstrmPacket.frameRate, getExtOption, getExtOptionFrom, get, Buffer.get, hp, extArea,
      ExtOption.bytes]

/-- The misled call writes the option byte over the argument of the frame rate. -/
theorem Holds.frameRate_overwritten (h : p.Holds opts) (hl : OptionLayout idr fr opts)
    (hzero : RateZeroFirst opts) : (p.setIdrFlag true).frameRate = 0x80 ∧ fr.toByte = 0 := by
  obtain ⟨b0, b1, b2, b3, t0, t1, t2, t3, body, hp⟩ := h
  cases hl with
  | none | idr | idrRate => simp [RateZeroFirst] at hzero
  | rate | rateIdr =>
    have hv : fr.toByte = 0 := by simpa [RateZeroFirst] using hzero
    simp [VstrmPacket.frameRate, getExtOption, getExtOptionFrom, setIdrFlag, setExtOption,
      setExtOptionFrom, setExtVal, get, set, Buffer.get, hp, extArea, ExtOption.bytes, hv]

end VstrmPacket

theorem readExtHeader_extArea (hl : OptionLayout idr fr opts) :
    (readExtHeader (extArea opts)).Perm (extOptions idr fr) := by
  cases hl with
  | none => rfl
  | idr => rfl
  | rate hfr =>
    rw [extOptions, if_neg hfr]
    rfl
  | idrRate hfr =>
    rw [extOptions, if_neg hfr]
    rfl
  | rateIdr hfr =>
    rw [extOptions, if_neg hfr]
    exact ((List.Perm.swap _ _ _).cons _).cons _

theorem lastIdrFlag_snoc (calls : List OptionCall) (call : OptionCall) :
    lastIdrFlag (calls ++ [call]) = call.flagAfter (lastIdrFlag calls) := by
  cases call <;> simp [lastIdrFlag, OptionCall.flagAfter]

theorem lastFrameRate_snoc (calls : List OptionCall) (call : OptionCall) :
    lastFrameRate (calls ++ [call]) = call.rateAfter (lastFrameRate calls) := by
  cases call <;> simp [lastFrameRate, OptionCall.rateAfter]

theorem optionLayout_after (calls : List OptionCall) :
    OptionLayout (lastIdrFlag calls) (lastFrameRate calls) (optionsAfter calls) := by
  induction calls using List.reverseRecOn with
  | nil => exact .none
  | append_singleton calls call ih =>
    rw [lastIdrFlag_snoc, lastFrameRate_snoc, optionsAfter, List.foldl_append]
    exact ih.update call

theorem packetAfter_snoc (calls : List OptionCall) (call : OptionCall) :
    packetAfter (calls ++ [call]) = call.apply (packetAfter calls) := by
  simp [packetAfter]

theorem VstrmPacket.Holds.right (h : (packetAfter calls).Holds (optionsAfter calls)) :
    OptionsRight calls where
  options := by
    rw [h.extHeader (optionLayout_after calls)]
    exact readExtHeader_extArea (optionLayout_after calls)
  idrFlag := h.idrFlag (optionLayout_after calls)
  frameRate := h.frameRate (optionLayout_after calls)

/-- The options are right after every call exactly when no call sets the IDR flag while the frame
rate 59.94Hz stands first. -/
theorem options_right_iff (calls : List OptionCall) :
    (∀ pre, pre <+: calls → OptionsRight pre) ↔
      ∀ pre, pre ++ [.setIdrFlag true] <+: calls → ¬ RateZeroFirst (optionsAfter pre) := by
  have hstep : ∀ pre (call : OptionCall), (packetAfter pre).Holds (optionsAfter pre) →
      (call = .setIdrFlag true → ¬ RateZeroFirst (optionsAfter pre)) →
      (packetAfter (pre ++ [call])).Holds (optionsAfter (pre ++ [call])) := by
    intro pre call h hcall
    rw [packetAfter_snoc, optionsAfter, List.foldl_append]
    exact h.apply (optionLayout_after pre) hcall
  have h0 : (packetAfter []).Holds (optionsAfter []) := VstrmPacket.holds_reset
  have hiff := (forall_prefix_iff (P := OptionsRight)
    (I := fun pre => (packetAfter pre).Holds (optionsAfter pre))
    (C := fun pre call => call = .setIdrFlag true → ¬ RateZeroFirst (optionsAfter pre))
    ⟨h0.right, h0⟩
    (fun pre call h hcall => ⟨(hstep pre call h hcall).right, hstep pre call h hcall⟩) ?_ calls).1
  · rw [hiff]
    constructor
    · intro h pre hp
      exact h pre _ hp rfl
    · rintro h pre call hp rfl
      exact h pre hp
  · rintro pre call h hright rfl hzero
    obtain ⟨hrate, hbyte⟩ := h.frameRate_overwritten (optionLayout_after pre) hzero
    have hread := hright.frameRate
    rw [packetAfter_snoc, lastFrameRate_snoc] at hread
    change (VstrmPacket.setIdrFlag _ true).frameRate = (lastFrameRate pre).toByte at hread
    rw [hrate, hbyte] at hread
    cases hread

/-- After these two calls the frame rate is read as `0x80`; in the other order they are right. -/
theorem options_overwritten : ¬ ∀ calls, OptionsRight calls := by
  intro h
  have hknown : VideoFrameRate.k59_94Hz ≠ .kUnknown := by decide
  have hrate : (packetAfter [.setFrameRate .k59_94Hz]).Holds
      (optionsAfter [.setFrameRate .k59_94Hz]) := VstrmPacket.holds_reset.setRate .none hknown
  have hover := hrate.frameRate_overwritten (optionLayout_after _) rfl
  have hread := (h [.setFrameRate .k59_94Hz, .setIdrFlag true]).frameRate
  cases hover.1.symm.trans hread

end Pc2Drc
