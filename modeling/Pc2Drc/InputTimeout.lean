import Pc2Drc.InputDecoding

/-! The input receiver in time: datagrams arrive, and the timer of its server drops old input. -/
namespace Pc2Drc
open Lib

variable {κ : Type}

/-- A datagram at the input port; times are in microseconds. -/
structure Datagram where
  time : ℚ
  msg : List UInt8

/-- The timeout that `Start` sets, in microseconds. -/
def kInputTimeoutUs : ℕ := 1000000 / 60

/-- The receiver and the timer of its server; a timer that has fired is not armed. -/
structure InputServer (κ : Type) where
  receiver : InputReceiver κ
  deadline : Option ℚ

namespace InputServer

def start (r : InputReceiver κ) (now : ℚ) : InputServer κ := ⟨r, some (now + kInputTimeoutUs)⟩

def rearmTimer (s : InputServer κ) (now : ℚ) : InputServer κ :=
  { s with deadline := some (now + kInputTimeoutUs) }

/-- The callback of the socket: at most 2000 bytes are taken. -/
def socketEvent (s : InputServer κ) (d : Datagram) : InputServer κ :=
  let s := s.rearmTimer d.time
  { s with receiver := (s.receiver.processInputMessage (d.msg.take 2000)).1 }

/-- The callback of the timer; it is not a repeated timer. -/
def timeoutEvent (s : InputServer κ) : InputServer κ := ⟨s.receiver.processInputTimeout, none⟩

/-- A timer that has expired by now has been dispatched. -/
def dispatchTimer (s : InputServer κ) (now : ℚ) : InputServer κ :=
  match s.deadline with
  | some deadline => if deadline ≤ now then s.timeoutEvent else s
  | none => s

def step (s : InputServer κ) (d : Datagram) : InputServer κ :=
  (s.dispatchTimer d.time).socketEvent d

/-- The server after some datagrams. -/
def after (r : InputReceiver κ) (now : ℚ) (arrived : List Datagram) : InputServer κ :=
  arrived.foldl step (start r now)

/-- What `Poll` returns at an instant. -/
def pollAt (s : InputServer κ) (now : ℚ) : InputReceiver.InputData :=
  (s.dispatchTimer now).receiver.poll

end InputServer

/-- HID packets have 128 bytes. -/
def Datagram.IsHid (d : Datagram) : Prop := d.msg.length = 128

instance : DecidablePred Datagram.IsHid := fun d => inferInstanceAs (Decidable (d.msg.length = 128))

def lastHid (arrived : List Datagram) : Option Datagram :=
  (arrived.filter (·.IsHid)).getLast?

/-- The instant lies between the datagrams that have arrived and those that are to come. -/
def AtInstant (arrived coming : List Datagram) (now : ℚ) : Prop :=
  (∀ d ∈ arrived, d.time ≤ now) ∧ ∀ d ∈ coming, now ≤ d.time

/-- Whenever a record is reported as valid, it is the last HID packet, and that is fresh. -/
def NeverStale (r : InputReceiver κ) (start : ℚ) (datagrams : List Datagram) : Prop :=
  ∀ arrived coming now, datagrams = arrived ++ coming → AtInstant arrived coming now →
    ((InputServer.after r start arrived).pollAt now).valid = true →
    ∃ hid, lastHid arrived = some hid ∧ now - hid.time ≤ kInputTimeoutUs ∧
      (InputServer.after r start arrived).pollAt now = r.decode hid.msg

/-- A datagram of another length that comes within the timeout of the last HID packet is followed by
a HID packet within that timeout. -/
def FollowedInTime (datagrams : List Datagram) : Prop :=
  ∀ (before between rest : List Datagram) (hid other : Datagram),
    datagrams = before ++ hid :: (between ++ other :: rest) → hid.IsHid →
    (∀ d ∈ between, ¬ d.IsHid) → ¬ other.IsHid → hid.time < other.time →
    other.time < hid.time + kInputTimeoutUs →
    ∃ next ∈ rest, next.IsHid ∧ next.time ≤ hid.time + kInputTimeoutUs

section
variable {r : InputReceiver κ} {s : InputServer κ} {d : Datagram} {start now deadline : ℚ}
  {arrived coming datagrams : List Datagram}

theorem processInputMessage_hid (h : d.IsHid) :
    (r.processInputMessage (d.msg.take 2000)).1 = r.setCurrent (r.decode d.msg) := by
  have hlen : d.msg.length = 128 := h
  rw [List.take_of_length_le (by omega), InputReceiver.processInputMessage,
    if_neg (by simpa using hlen)]

theorem processInputMessage_other (h : ¬ d.IsHid) :
    (r.processInputMessage (d.msg.take 2000)).1 = r := by
  have hlen : d.msg.length ≠ 128 := h
  rw [InputReceiver.processInputMessage, if_pos]
  rw [List.length_take]
  omega

namespace InputServer

@[simp]
theorem deadline_step : (s.step d).deadline = some (d.time + kInputTimeoutUs) := rfl

theorem receiver_step : (s.step d).receiver =
    ((s.dispatchTimer d.time).receiver.processInputMessage (d.msg.take 2000)).1 := rfl

theorem dispatchTimer_early (h : s.deadline = some deadline) (hlt : now < deadline) :
    s.dispatchTimer now = s := by
  simp only [dispatchTimer, h]
  exact if_neg (not_le.mpr hlt)

/-- A timer that is dispatched leaves no valid record. -/
theorem dispatchTimer_cases (s : InputServer κ) (now : ℚ) :
    (s.dispatchTimer now).receiver.current.valid = false ∨ s.dispatchTimer now = s ∧
      ∀ deadline, s.deadline = some deadline → now < deadline := by
  unfold dispatchTimer
  split
  · rename_i deadline hd
    split
    · exact Or.inl rfl
    · rename_i hlt
      refine Or.inr ⟨rfl, ?_⟩
      intro deadline' hd'
      cases hd.symm.trans hd'
      exact not_le.mp hlt
  · rename_i hd
    refine Or.inr ⟨rfl, ?_⟩
    intro deadline' hd'
    cases hd.symm.trans hd'

theorem after_snoc : after r start (arrived ++ [d]) = (after r start arrived).step d := by
  simp [after]

end InputServer

/-- The timer was armed for the last HID packet, or by a later datagram of another length while
the packet was fresh. -/
def ArmedSince (deadline : Option ℚ) (hid : Datagram) (since : List Datagram) : Prop :=
  deadline = some (hid.time + kInputTimeoutUs) ∨
    ∃ between other rest, since = between ++ other :: rest ∧ hid.time < other.time ∧
      other.time < hid.time + kInputTimeoutUs

/-- Where a valid record comes from. -/
structure Tracked (r : InputReceiver κ) (arrived : List Datagram) (s : InputServer κ) : Prop where
  receiver : ∃ c, s.receiver = r.setCurrent c
  valid : s.receiver.current.valid = true → ∃ before hid since,
    arrived = before ++ hid :: since ∧ hid.IsHid ∧ (∀ d ∈ since, ¬ d.IsHid) ∧
    s.receiver.current = r.decode hid.msg ∧ ArmedSince s.deadline hid since

theorem tracked_start (hr : r.current = {}) : Tracked r [] (InputServer.start r start) where
  receiver := ⟨r.current, rfl⟩
  valid := by
    intro hvalid
    rw [InputServer.start, hr] at hvalid
    cases hvalid

theorem Tracked.dispatchTimer (h : Tracked r arrived s) (now : ℚ) :
    ∃ c, (s.dispatchTimer now).receiver = r.setCurrent c := by
  obtain ⟨c, hc⟩ := h.receiver
  unfold InputServer.dispatchTimer
  split
  · split
    · exact ⟨{}, by simp [InputServer.timeoutEvent, InputReceiver.processInputTimeout, hc,
        InputReceiver.setCurrent]⟩
    · exact ⟨c, hc⟩
  · exact ⟨c, hc⟩

/-- One more datagram, no earlier than the others. -/
theorem Tracked.step (h : Tracked r arrived s) (hd : ∀ d' ∈ arrived, d'.time ≤ d.time) :
    Tracked r (arrived ++ [d]) (s.step d) := by
  obtain ⟨c, hc⟩ := h.dispatchTimer d.time
  by_cases hhid : d.IsHid
  · have hstep : (s.step d).receiver = r.setCurrent (r.decode d.msg) := by
      rw [InputServer.receiver_step, processInputMessage_hid hhid, hc]
      rfl
    refine ⟨⟨_, hstep⟩, ?_⟩
    intro _
    refine ⟨arrived, d, [], rfl, hhid, by simp, ?_, Or.inl rfl⟩
    rw [hstep]
    rfl
  · have hstep : (s.step d).receiver = (s.dispatchTimer d.time).receiver := by
      rw [InputServer.receiver_step, processInputMessage_other hhid]
    refine ⟨⟨c, hstep.trans hc⟩, ?_⟩
    intro hvalid
    rw [hstep] at hvalid
    rcases s.dispatchTimer_cases d.time with hdrop | ⟨hsame, hearly⟩
    · rw [hdrop] at hvalid
      cases hvalid
    rw [hsame] at hvalid
    obtain ⟨before, hid, since, rfl, hh, hsince, hcurrent, harmed⟩ := h.valid hvalid
    refine ⟨before, hid, since ++ [d], by simp, hh, ?_, ?_, ?_⟩
    · intro d' hd'
      rcases List.mem_append.mp hd' with hd' | hd'
      · exact hsince d' hd'
      · rw [List.mem_singleton.mp hd']
        exact hhid
    · rw [hstep, hsame]
      exact hcurrent
    · rcases harmed with harmed | ⟨between, other, rest, rfl, hlt, hlt'⟩
      · have hle : hid.time ≤ d.time := hd hid (by simp)
        rcases hle.eq_or_lt with heq | hlt
        · exact Or.inl (by rw [InputServer.deadline_step, heq])
        · exact Or.inr ⟨since, d, [], rfl, hlt, hearly _ harmed⟩
      · exact Or.inr ⟨between, other, rest ++ [d], by simp, hlt, hlt'⟩

theorem tracked_after (start : ℚ) (hr : r.current = {})
    (hsorted : arrived.Pairwise (·.time ≤ ·.time)) :
    Tracked r arrived (InputServer.after r start arrived) := by
  induction arrived using List.reverseRecOn with
  | nil => exact tracked_start hr
  | append_singleton arrived d ih =>
    rw [List.pairwise_append] at hsorted
    rw [InputServer.after_snoc]
    exact (ih hsorted.1).step (fun d' hd' => hsorted.2.2 d' hd' d (by simp))

theorem lastHid_eq {before since : List Datagram} {hid : Datagram} (hh : hid.IsHid)
    (hsince : ∀ d ∈ since, ¬ d.IsHid) : lastHid (before ++ hid :: since) = some hid := by
  have hnone : since.filter (·.IsHid) = [] := by simpa using hsince
  simp [lastHid, hh, hnone]

/-- Packets that are followed in time are never reported when they are stale. -/
theorem neverStale_of_followed (hr : r.current = {})
    (hsorted : datagrams.Pairwise (·.time ≤ ·.time)) (hfollowed : FollowedInTime datagrams) :
    NeverStale r start datagrams := by
  rintro arrived coming now rfl ⟨-, hcoming⟩ hvalid
  have htracked := tracked_after start hr (List.pairwise_append.mp hsorted).1
  rcases (InputServer.after r start arrived).dispatchTimer_cases now with hdrop | ⟨hsame, hearly⟩
  · rw [InputServer.pollAt, InputReceiver.poll, hdrop] at hvalid
    cases hvalid
  rw [InputServer.pollAt, hsame] at hvalid ⊢
  obtain ⟨before, hid, since, rfl, hh, hsince, hcurrent, harmed⟩ := htracked.valid hvalid
  refine ⟨hid, lastHid_eq hh hsince, ?_, hcurrent⟩
  rcases harmed with harmed | ⟨between, other, rest, rfl, hlt, hlt'⟩
  · linarith [hearly _ harmed]
  · obtain ⟨next, hmem, hnext, hle⟩ := hfollowed before between (rest ++ coming) hid other (by simp)
      hh (fun d hd => hsince d (by simp [hd])) (hsince other (by simp)) hlt hlt'
    rcases List.mem_append.mp hmem with hmem | hmem
    · exact (hsince next (by simp [hmem]) hnext).elim
    · linarith [hcoming next hmem]

/-- Datagrams of another length that arrive before the deadline keep the record, and move the
deadline to the last of them. -/
theorem others_keep {others : List Datagram} {armed : ℚ}
    (hd : s.deadline = some (armed + kInputTimeoutUs)) (hother : ∀ d ∈ others, ¬ d.IsHid)
    (hsorted : others.Pairwise (·.time ≤ ·.time)) (hge : ∀ d ∈ others, armed ≤ d.time)
    (hlt : ∀ d ∈ others, d.time < armed + kInputTimeoutUs) :
    (others.foldl InputServer.step s).receiver = s.receiver ∧
      ∃ last : ℚ, (others.foldl InputServer.step s).deadline = some (last + kInputTimeoutUs) ∧
        (∀ d ∈ others, d.time ≤ last) ∧ (last = armed ∨ ∃ d ∈ others, last = d.time) := by
  induction others generalizing s armed with
  | nil => exact ⟨rfl, armed, hd, by simp, Or.inl rfl⟩
  | cons d others ih =>
    rw [List.pairwise_cons] at hsorted
    have hge0 := hge d (by simp)
    have hreceiver : (s.step d).receiver = s.receiver := by
      rw [InputServer.receiver_step, processInputMessage_other (hother d (by simp)),
        InputServer.dispatchTimer_early hd (hlt d (by simp))]
    obtain ⟨hkeep, last, hlast, hle, hfrom⟩ := ih
      (show (s.step d).deadline = some (d.time + kInputTimeoutUs) from rfl)
      (fun d' hd' => hother d' (by simp [hd'])) hsorted.2 hsorted.1
      (fun d' hd' => by linarith [hlt d' (by simp [hd'])])
    rw [List.foldl_cons]
    have hself : d.time ≤ last := by
      rcases hfrom with rfl | ⟨d', hd', rfl⟩
      · exact le_rfl
      · exact hsorted.1 d' hd'
    refine ⟨hkeep.trans hreceiver, last, hlast, ?_, ?_⟩
    · intro d' hd'
      rcases List.mem_cons.mp hd' with rfl | hd'
      · exact hself
      · exact hle d' hd'
    · rcases hfrom with rfl | ⟨d', hd', rfl⟩
      · exact Or.inr ⟨d, by simp, rfl⟩
      · exact Or.inr ⟨d', by simp [hd'], rfl⟩

theorem after_append (arrived coming : List Datagram) :
    InputServer.after r start (arrived ++ coming) =
      coming.foldl InputServer.step (InputServer.after r start arrived) := by
  simp [InputServer.after]

/-- A HID packet is recorded, and the timer starts again. -/
theorem hid_received {before : List Datagram} {hid : Datagram} (start : ℚ) (hr : r.current = {})
    (hsorted : before.Pairwise (·.time ≤ ·.time)) (hh : hid.IsHid) :
    (InputServer.after r start (before ++ [hid])).deadline = some (hid.time + kInputTimeoutUs) ∧
      (InputServer.after r start (before ++ [hid])).receiver.current = r.decode hid.msg := by
  obtain ⟨c, hc⟩ := (tracked_after start hr hsorted).dispatchTimer hid.time
  rw [InputServer.after_snoc]
  refine ⟨rfl, ?_⟩
  rw [InputServer.receiver_step, processInputMessage_hid hh, hc]
  rfl

/-- After a HID packet and others while it is fresh, the record is still reported, and the timer
runs at least from the last of them. -/
theorem record_kept {before between low : List Datagram} {hid other : Datagram} (start : ℚ)
    (hr : r.current = {})
    (hsorted : (before ++ hid :: (between ++ other :: low)).Pairwise (·.time ≤ ·.time))
    (hh : hid.IsHid) (hbetween : ∀ d ∈ between, ¬ d.IsHid) (hother : ¬ other.IsHid)
    (hfresh : other.time < hid.time + kInputTimeoutUs) (hlt : hid.time < other.time)
    (hlow : ∀ d ∈ low, ¬ d.IsHid) (hlow' : ∀ d ∈ low, d.time ≤ hid.time + kInputTimeoutUs) :
    ∃ last : ℚ, other.time ≤ last ∧
      (InputServer.after r start (before ++ hid :: (between ++ other :: low))).deadline =
        some (last + kInputTimeoutUs) ∧
      (InputServer.after r start (before ++ hid :: (between ++ other :: low))).receiver.current =
        r.decode hid.msg := by
  have hsplit : before ++ hid :: (between ++ other :: low) =
      (before ++ [hid]) ++ ((between ++ [other]) ++ low) := by simp
  rw [hsplit] at hsorted ⊢
  obtain ⟨hsorted0, hsorted1, hafter⟩ := List.pairwise_append.mp hsorted
  obtain ⟨hbefore, hlow0, hcross⟩ := List.pairwise_append.mp hsorted1
  obtain ⟨hdeadline, hcurrent⟩ := hid_received start hr (List.pairwise_append.mp hsorted0).1 hh
  rw [after_append, List.foldl_append]
  have hle : ∀ d ∈ between ++ [other], d.time ≤ other.time := by
    intro d hd
    rcases List.mem_append.mp hd with hd | hd
    · exact (List.pairwise_append.mp hbefore).2.2 d hd other (by simp)
    · rw [List.mem_singleton.mp hd]
  have hothers : ∀ d ∈ between ++ [other], ¬ d.IsHid :=
    List.forall_mem_append.mpr ⟨hbetween, List.forall_mem_singleton.mpr hother⟩
  obtain ⟨hkeep1, last1, hlast1, hle1, hfrom1⟩ := others_keep hdeadline hothers hbefore
    (fun d hd => hafter hid (by simp) d (List.mem_append_left _ hd))
    (fun d hd => lt_of_le_of_lt (hle d hd) hfresh)
  have hge1 : ∀ d ∈ low, last1 ≤ d.time := by
    intro d hd
    rcases hfrom1 with rfl | ⟨d', hd', rfl⟩
    · exact hafter hid (by simp) d (List.mem_append_right _ hd)
    · exact hcross d' hd' d hd
  have hother1 : other.time ≤ last1 := hle1 other (by simp)
  obtain ⟨hkeep2, last2, hlast2, -, hfrom2⟩ := others_keep hlast1 hlow hlow0 hge1
    (fun d hd => by linarith [hlow' d hd])
  refine ⟨last2, ?_, hlast2, ?_⟩
  · rcases hfrom2 with rfl | ⟨d, hd, rfl⟩
    · exact hother1
    · exact hother1.trans (hge1 d hd)
  · rw [hkeep2, hkeep1]
    exact hcurrent

/-- A sorted list is cut at a time. -/
theorem sorted_cut {l : List Datagram} (hsorted : l.Pairwise (·.time ≤ ·.time)) (limit : ℚ) :
    ∃ low high, l = low ++ high ∧ (∀ d ∈ low, d.time ≤ limit) ∧ ∀ d ∈ high, limit < d.time := by
  induction l with
  | nil => exact ⟨[], [], rfl, by simp, by simp⟩
  | cons d l ih =>
    rw [List.pairwise_cons] at hsorted
    rcases le_or_gt d.time limit with hle | hgt
    · obtain ⟨low, high, rfl, hlow, hhigh⟩ := ih hsorted.2
      refine ⟨d :: low, high, rfl, ?_, hhigh⟩
      simpa [hle] using hlow
    · refine ⟨[], d :: l, rfl, by simp, ?_⟩
      intro d' hd'
      rcases List.mem_cons.mp hd' with rfl | hd'
      · exact hgt
      · exact hgt.trans_le (hsorted.1 d' hd')

/-- There is an instant after a limit and before everything that is later. -/
theorem instant_between {high : List Datagram} {limit bound : ℚ} (hb : limit < bound)
    (hhigh : ∀ d ∈ high, limit < d.time) :
    ∃ now, limit < now ∧ now < bound ∧ ∀ d ∈ high, now ≤ d.time := by
  induction high with
  | nil => exact ⟨(limit + bound) / 2, by linarith, by linarith, by simp⟩
  | cons d high ih =>
    obtain ⟨now, hlt, hnow, hle⟩ := ih (fun d' hd' => hhigh d' (by simp [hd']))
    refine ⟨min now d.time, lt_min hlt (hhigh d (by simp)), min_lt_of_left_lt hnow, ?_⟩
    intro d' hd'
    rcases List.mem_cons.mp hd' with rfl | hd'
    · exact min_le_right _ _
    · exact (min_le_left _ _).trans (hle d' hd')

/-- Without a HID packet in time, the record is reported after the timeout. -/
theorem followed_of_neverStale (hr : r.current = {})
    (hsorted : datagrams.Pairwise (·.time ≤ ·.time)) (hnever : NeverStale r start datagrams) :
    FollowedInTime datagrams := by
  intro before between rest hid other heq hh hbetween hother hlt hfresh
  by_contra hnone
  have hlate : ∀ d ∈ rest, d.IsHid → hid.time + kInputTimeoutUs < d.time := by
    intro d hd hdhid
    by_contra hle
    exact hnone ⟨d, hd, hdhid, not_lt.mp hle⟩
  subst heq
  have hrest : rest.Pairwise (·.time ≤ ·.time) := by
    have hsuffix : rest <:+ before ++ hid :: (between ++ other :: rest) :=
      ⟨before ++ hid :: (between ++ [other]), by simp⟩
    exact hsorted.sublist hsuffix.sublist
  obtain ⟨low, high, rfl, hlow, hhigh⟩ := sorted_cut hrest (hid.time + kInputTimeoutUs)
  obtain ⟨now, hnow, hnow', hcoming⟩ := instant_between
    (show hid.time + kInputTimeoutUs < other.time + kInputTimeoutUs by linarith) hhigh
  have hlowOther : ∀ d ∈ low, ¬ d.IsHid := by
    intro d hd hdhid
    linarith [hlow d hd, hlate d (by simp [hd]) hdhid]
  have hsplit : before ++ hid :: (between ++ other :: (low ++ high)) =
      (before ++ hid :: (between ++ other :: low)) ++ high := by simp
  rw [hsplit] at hsorted
  have hsorted' := (List.pairwise_append.mp hsorted).1
  obtain ⟨last, hlast, hdeadline, hcurrent⟩ := record_kept start hr hsorted' hh hbetween
    hother hfresh hlt hlowOther hlow
  have hpoll : (InputServer.after r start (before ++ hid :: (between ++ other :: low))).pollAt now =
      r.decode hid.msg := by
    rw [InputServer.pollAt, InputServer.dispatchTimer_early hdeadline (by linarith)]
    exact hcurrent
  have hsince : ∀ d ∈ between ++ other :: low, ¬ d.IsHid :=
    List.forall_mem_append.mpr ⟨hbetween, List.forall_mem_cons.mpr ⟨hother, hlowOther⟩⟩
  have harrived : ∀ d ∈ before ++ hid :: (between ++ other :: low), d.time ≤ now := by
    intro d hd
    have hcut : before ++ hid :: (between ++ other :: low) =
        (before ++ hid :: between) ++ other :: low := by simp
    rw [hcut] at hd hsorted'
    rcases List.mem_append.mp hd with hd | hd
    · linarith [(List.pairwise_append.mp hsorted').2.2 d hd other (by simp)]
    · rcases List.mem_cons.mp hd with rfl | hd
      · linarith
      · linarith [hlow d hd]
  obtain ⟨hid', hlastHid, hage, -⟩ := hnever _ high now hsplit ⟨harrived, hcoming⟩
    (by rw [hpoll]; rfl)
  rw [lastHid_eq hh hsince] at hlastHid
  cases hlastHid
  linarith

/-- Old input is never reported as valid, in a whole run, exactly when datagrams of another length
do not keep a HID packet alive. -/
theorem never_stale_iff {calls : List TouchCall} (hr : receiverAfter κ calls = .ok r) (start : ℚ)
    (datagrams : List Datagram) (hsorted : datagrams.Pairwise (·.time ≤ ·.time)) :
    NeverStale r start datagrams ↔ FollowedInTime datagrams :=
  ⟨followed_of_neverStale (receiverAfter_current hr) hsorted,
    neverStale_of_followed (receiverAfter_current hr) hsorted⟩

theorem followedInTime_packets {first second : Datagram} (hsecond : second.IsHid)
    (hle : second.time ≤ first.time + kInputTimeoutUs) (time : ℚ) :
    FollowedInTime [first, ⟨time, []⟩, second] := by
  intro before between rest hid other heq hh hbetween hother hlt hfresh
  have hempty : ¬ Datagram.IsHid ⟨time, []⟩ := by
    intro h
    cases h
  rcases before with _ | ⟨d, _ | ⟨d', before⟩⟩
  · rcases between with _ | ⟨e, _ | ⟨e', between⟩⟩
    · simp only [List.nil_append, List.cons.injEq] at heq
      obtain ⟨rfl, -, rfl⟩ := heq
      exact ⟨second, by simp, hsecond, hle⟩
    · simp only [List.nil_append, List.cons_append, List.cons.injEq] at heq
      obtain ⟨-, -, rfl, -⟩ := heq
      exact (hother hsecond).elim
    · simp at heq
  · simp only [List.nil_append, List.cons_append, List.cons.injEq] at heq
    obtain ⟨-, rfl, -⟩ := heq
    exact (hempty hh).elim
  · have hlen := congrArg List.length heq
    simp at hlen
    omega

/-- The theorem at a packet, an empty datagram and another packet, five milliseconds apart. -/
theorem never_stale_packets : ∃ r : InputReceiver ℕ, receiverAfter ℕ [] = .ok r ∧ NeverStale r 0
    [⟨0, List.replicate 128 0⟩, ⟨5000, []⟩, ⟨10000, List.replicate 128 0⟩] := by
  obtain ⟨-, r, hr, -⟩ := receiverAfter_calibrated (κ := ℕ) []
  have hhid : Datagram.IsHid ⟨10000, List.replicate 128 0⟩ := List.length_replicate
  refine ⟨r, hr, (never_stale_iff hr 0 _ ?_).mpr (followedInTime_packets hhid ?_ 5000)⟩
  · norm_num
  · norm_num [kInputTimeoutUs]

/-- An empty datagram keeps a packet alive that is the last one. -/
theorem stale_input_reported : ¬ ∀ (r : InputReceiver ℕ) (datagrams : List Datagram),
    receiverAfter ℕ [] = .ok r → datagrams.Pairwise (·.time ≤ ·.time) →
      NeverStale r 0 datagrams := by
  intro h
  obtain ⟨-, r, hr, -⟩ := receiverAfter_calibrated (κ := ℕ) []
  have hsorted : ([⟨0, List.replicate 128 0⟩, ⟨10000, []⟩] : List Datagram).Pairwise
      (·.time ≤ ·.time) := by simp
  have hfollowed := followed_of_neverStale (receiverAfter_current hr) hsorted (h r _ hr hsorted)
  obtain ⟨next, hnext, -⟩ := hfollowed [] [] [] ⟨0, List.replicate 128 0⟩ ⟨10000, []⟩ rfl
    List.length_replicate (by simp) (by decide) (by norm_num) (by norm_num [kInputTimeoutUs])
  cases hnext

end

end Pc2Drc
