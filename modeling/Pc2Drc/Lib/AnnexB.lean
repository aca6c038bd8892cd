import Pc2Drc.Lib.StartCode

/-! A byte stream of units: a start code before each, and a reader that cuts the stream at the start
codes it finds. -/
namespace Pc2Drc.Lib

variable {nal rest : List UInt8} {nals : List (List UInt8)} {fuel : ℕ} {b : UInt8}

def annexB (nals : List (List UInt8)) : List UInt8 :=
  nals.flatMap fun nal => [0, 0, 0, 1] ++ nal

/-- Three bytes that end the unit before them. -/
def startsCode : List UInt8 → Bool
  | a :: b :: c :: _ => a = 0 ∧ b = 0 ∧ c ≤ 1
  | _ => false

/-- The bytes of a unit, and the stream from its end on. -/
def takeNal : List UInt8 → List UInt8 × List UInt8
  | [] => ([], [])
  | b :: l => if startsCode (b :: l) then ([], b :: l) else (b :: (takeNal l).1, (takeNal l).2)

/-- The zeros and the one before a unit. -/
def skipStart : List UInt8 → Option (List UInt8)
  | [] => none
  | b :: l => if b = 0 then skipStart l else if b = 1 then some l else none

def splitNals : ℕ → List UInt8 → Option (List (List UInt8))
  | 0, _ => none
  | _ + 1, [] => some []
  | fuel + 1, b :: l => do
    let l ← skipStart (b :: l)
    let nals ← splitNals fuel (takeNal l).2
    return (takeNal l).1 :: nals

/-- A unit that a reader cannot cut at a wrong place: no start code in it, and no zero at its
end. -/
structure NalOk (nal : List UInt8) : Prop where
  noStartCode : NoStartCode nal
  getLast : nal.getLast? ≠ some 0

theorem NoStartCode.tail (h : NoStartCode (b :: nal)) : NoStartCode nal :=
  fun c hc hin => h c hc (hin.trans (List.suffix_cons b nal).isInfix)

/-- Bytes that are no zeros do not begin a start code. -/
theorem NoStartCode.cons (hb : b ≠ 0) (h : NoStartCode nal) : NoStartCode (b :: nal) := by
  intro c hc hin
  rcases List.infix_cons_iff.mp hin with hpre | hin
  · exact hb (List.cons_prefix_cons.mp hpre).1.symm
  · exact h c hc hin

theorem NalOk.tail (h : NalOk (b :: nal)) : NalOk nal := by
  refine ⟨h.noStartCode.tail, ?_⟩
  cases nal with
  | nil => exact fun hz => nomatch hz
  | cons c nal =>
    have hlast := h.getLast
    rwa [List.getLast?_cons_cons] at hlast

/-- Nor does a start code begin in the unit and end behind it. -/
theorem not_startsCode (h : NalOk (b :: nal)) : startsCode (b :: nal ++ rest) = false := by
  cases nal with
  | nil =>
    have hb : b ≠ 0 := fun hb => h.getLast (congrArg some hb)
    cases rest with
    | nil => rfl
    | cons x rest =>
      cases rest with
      | nil => rfl
      | cons y rest =>
        change decide (b = 0 ∧ x = 0 ∧ y ≤ 1) = false
        exact decide_eq_false fun hz => hb hz.1
  | cons c nal =>
    cases nal with
    | nil =>
      have hc : c ≠ 0 := fun hc => h.getLast (congrArg some hc)
      cases rest with
      | nil => rfl
      | cons x rest =>
        change decide (b = 0 ∧ c = 0 ∧ x ≤ 1) = false
        exact decide_eq_false fun hz => hc hz.2.1
    | cons d nal =>
      change decide (b = 0 ∧ c = 0 ∧ d ≤ 1) = false
      apply decide_eq_false
      rintro ⟨rfl, rfl, hd⟩
      exact h.noStartCode d (UInt8.le_trans hd (by decide)) ⟨[], nal, rfl⟩

/-- The unit is taken whole, up to the end or to the next start code. -/
theorem takeNal_append (h : NalOk nal) (hrest : rest = [] ∨ startsCode rest = true) :
    takeNal (nal ++ rest) = (nal, rest) := by
  induction nal with
  | nil =>
    rcases hrest with rfl | hrest
    · rfl
    · cases rest with
      | nil => rfl
      | cons b rest => rw [List.nil_append, takeNal, if_pos hrest]
  | cons b nal ih =>
    have hcode : startsCode (b :: (nal ++ rest)) = false := not_startsCode h
    rw [List.cons_append, takeNal, hcode, ih h.tail]
    rfl

theorem length_le_annexB (nals : List (List UInt8)) : nals.length ≤ (annexB nals).length := by
  induction nals with
  | nil => exact Nat.le_refl 0
  | cons nal nals ih =>
    rw [annexB, List.flatMap_cons, List.length_append, List.length_append, List.length_cons]
    change nals.length + 1 ≤ 4 + nal.length + (annexB nals).length
    omega

theorem startsCode_annexB (nals : List (List UInt8)) :
    annexB nals = [] ∨ startsCode (annexB nals) = true := by
  cases nals with
  | nil => exact Or.inl rfl
  | cons nal nals => exact Or.inr rfl

/-- Units with start codes between them are told apart again. -/
theorem splitNals_annexB (h : ∀ nal ∈ nals, NalOk nal) (hfuel : nals.length < fuel) :
    splitNals fuel (annexB nals) = some nals := by
  induction nals generalizing fuel with
  | nil =>
    cases fuel with
    | zero => omega
    | succ fuel => rfl
  | cons nal nals ih =>
    cases fuel with
    | zero => omega
    | succ fuel =>
      have hrest : splitNals fuel (annexB nals) = some nals :=
        ih (fun nal' hnal' => h nal' (List.mem_cons_of_mem _ hnal')) (Nat.lt_of_succ_lt_succ hfuel)
      have htake := takeNal_append (h nal List.mem_cons_self) (startsCode_annexB nals)
      change (do
        let nals' ← splitNals fuel (takeNal (nal ++ annexB nals)).2
        return (takeNal (nal ++ annexB nals)).1 :: nals') = _
      rw [htake, hrest]
      rfl

theorem getLast?_escapeFrom (p q : UInt8) (bs : List UInt8) :
    (escapeFrom p q bs).getLast? = bs.getLast? := by
  induction bs generalizing p q with
  | nil => rfl
  | cons b bs ih =>
    have hlast (q : UInt8) (b : UInt8) :
        (b :: escapeFrom q b bs).getLast? = (b :: bs).getLast? := by
      rw [List.getLast?_cons, List.getLast?_cons, ih]
    rw [escapeFrom]
    split
    · rw [List.getLast?_cons_cons, hlast]
    · exact hlast q b

theorem getLast?_escape (bs : List UInt8) : (escape bs).getLast? = bs.getLast? := by
  cases bs with
  | nil => rfl
  | cons a bs =>
    cases bs with
    | nil => rfl
    | cons b bs =>
      rw [escape, List.getLast?_cons_cons, List.getLast?_cons_cons, List.getLast?_cons,
        List.getLast?_cons, getLast?_escapeFrom]

/-- A header without zeros before an escaped payload. -/
theorem nalOk_append_escape {header payload : List UInt8}
    (hheader : ∀ b ∈ header, b ≠ 0) (hpayload : payload.getLast? ≠ some 0) :
    NalOk (header ++ escape payload) := by
  refine ⟨?_, ?_⟩
  · induction header with
    | nil => exact noStartCode_escape payload
    | cons b header ih =>
      exact NoStartCode.cons (hheader b List.mem_cons_self)
        (ih fun b' hb' => hheader b' (List.mem_cons_of_mem _ hb'))
  · rw [List.getLast?_append, getLast?_escape]
    cases hlast : payload.getLast? with
    | none =>
      intro hz
      exact hheader 0 (List.mem_of_getLast? hz) rfl
    | some b =>
      rw [hlast] at hpayload
      exact hpayload

theorem unescape_append_escape {header payload : List UInt8} (hheader : ∀ b ∈ header, b ≠ 0) :
    unescape (header ++ escape payload) = header ++ payload := by
  induction header with
  | nil => exact unescape_escape payload
  | cons b header ih =>
    have hb := hheader b List.mem_cons_self
    have hrest := ih fun b' hb' => hheader b' (List.mem_cons_of_mem _ hb')
    rw [List.cons_append, List.cons_append, unescape, unescapeFrom, if_neg (by omega), if_neg hb]
    exact congrArg (List.cons b) hrest

end Pc2Drc.Lib
