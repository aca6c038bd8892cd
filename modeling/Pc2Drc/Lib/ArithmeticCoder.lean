import Pc2Drc.Lib.Bits

/-! Binary arithmetic coding. The symbols narrow an interval of numbers; a decoder that knows how
each symbol divides it finds them again from any number of the last interval. -/
namespace Pc2Drc.Lib

/-- How a symbol divides an interval: the resolution grows by `pre` bits, and then the lowest part,
of width `lower`, is that of the symbol `mps`, and the next, of width `upper`, that of the other. -/
structure Split where
  pre : ℕ
  mps : Bool
  lower : ℕ
  upper : ℕ

namespace Split

def offset (p : Split) (b : Bool) : ℕ :=
  if b = p.mps then 0 else p.lower

def width (p : Split) (b : Bool) : ℕ :=
  if b = p.mps then p.lower else p.upper

/-- The symbol whose part a number lies in. -/
def symbol (p : Split) (x : ℕ) : Bool :=
  if x < p.lower then p.mps else !p.mps

def Fits (p : Split) (range : ℕ) : Prop :=
  p.lower + p.upper ≤ range * 2 ^ p.pre

theorem of_eq_mps {p : Split} {b : Bool} (h : b = p.mps) : p.offset b = 0 ∧ p.width b = p.lower :=
  ⟨if_pos h, if_pos h⟩

theorem of_ne_mps {p : Split} {b : Bool} (h : b ≠ p.mps) :
    p.offset b = p.lower ∧ p.width b = p.upper :=
  ⟨if_neg h, if_neg h⟩

theorem width_cases (p : Split) (b : Bool) : p.width b = p.lower ∨ p.width b = p.upper := by
  by_cases h : b = p.mps
  · exact Or.inl (of_eq_mps h).2
  · exact Or.inr (of_ne_mps h).2

theorem symbol_eq {p : Split} {b : Bool} {x : ℕ} (hlow : p.offset b ≤ x)
    (hhigh : x < p.offset b + p.width b) : p.symbol x = b := by
  unfold offset width at *
  unfold symbol
  by_cases hb : b = p.mps
  · simp only [hb, if_true] at hhigh ⊢
    rw [if_pos (by omega)]
  · rw [if_neg hb] at hlow
    rw [if_neg (by omega)]
    cases b <;> cases h : p.mps <;> simp_all

theorem offset_add_width {p : Split} {range : ℕ} (h : p.Fits range) (b : Bool) :
    p.offset b + p.width b ≤ range * 2 ^ p.pre := by
  unfold Fits at h
  unfold offset width
  split_ifs
  · omega
  · omega

end Split

/-- The numbers of `bits` bits from `low` on, `range` of them. -/
structure CodeInterval where
  low : ℕ
  range : ℕ
  bits : ℕ
  deriving DecidableEq, Repr

namespace CodeInterval

/-- `J` lies in `I`, at a resolution that is at least as fine. -/
def Sub (J I : CodeInterval) : Prop :=
  ∃ k, J.bits = I.bits + k ∧ I.low * 2 ^ k ≤ J.low ∧
    J.low + J.range ≤ (I.low + I.range) * 2 ^ k

/-- The number that a string starts with is in the interval. -/
def Holds (I : CodeInterval) (code : List Bool) : Prop :=
  I.bits ≤ code.length ∧ I.low ≤ natOfBits (code.take I.bits) ∧
    natOfBits (code.take I.bits) < I.low + I.range

theorem Sub.refl (I : CodeInterval) : I.Sub I :=
  ⟨0, by simp, by simp, by simp⟩

theorem Sub.trans {I J K : CodeInterval} (h : K.Sub J) (h' : J.Sub I) : K.Sub I := by
  obtain ⟨k, hbits, hlow, hhigh⟩ := h
  obtain ⟨k', hbits', hlow', hhigh'⟩ := h'
  refine ⟨k' + k, by omega, ?_, ?_⟩
  · calc I.low * 2 ^ (k' + k) = I.low * 2 ^ k' * 2 ^ k := by ring
      _ ≤ J.low * 2 ^ k := Nat.mul_le_mul_right _ hlow'
      _ ≤ K.low := hlow
  · calc K.low + K.range ≤ (J.low + J.range) * 2 ^ k := hhigh
      _ ≤ (I.low + I.range) * 2 ^ k' * 2 ^ k := Nat.mul_le_mul_right _ hhigh'
      _ = (I.low + I.range) * 2 ^ (k' + k) := by ring

/-- The shorter number of a string is in every interval around that of the longer one. -/
theorem Sub.holds {I J : CodeInterval} {code : List Bool} (h : J.Sub I) (hJ : J.Holds code) :
    I.Holds code := by
  obtain ⟨k, hbits, hlow, hhigh⟩ := h
  obtain ⟨hlen, hlow', hhigh'⟩ := hJ
  have hlt : natOfBits ((code.drop I.bits).take k) < 2 ^ k := by
    refine (natOfBits_lt _).trans_le (Nat.pow_le_pow_right (by omega) ?_)
    exact List.length_take_le _ _
  rw [hbits, natOfBits_take_add (by omega)] at hlow' hhigh'
  refine ⟨by omega, ?_, ?_⟩
  · by_contra hn
    have hle : (natOfBits (code.take I.bits) + 1) * 2 ^ k ≤ I.low * 2 ^ k :=
      Nat.mul_le_mul_right _ (by omega)
    rw [add_mul] at hle
    omega
  · by_contra hn
    have hle : (I.low + I.range) * 2 ^ k ≤ natOfBits (code.take I.bits) * 2 ^ k :=
      Nat.mul_le_mul_right _ (by omega)
    omega

/-- `J` is deeper than `I`, and of its numbers at most `p` in `q` are left. -/
def Shrinks (p q : ℕ) (I J : CodeInterval) : Prop :=
  ∃ k, J.bits = I.bits + k ∧ q * J.range ≤ p * (I.range * 2 ^ k)

theorem Sub.shrinks {I J : CodeInterval} (h : J.Sub I) : Shrinks 1 1 I J := by
  obtain ⟨k, hbits, hlow, hhigh⟩ := h
  rw [add_mul] at hhigh
  exact ⟨k, hbits, by omega⟩

theorem Shrinks.trans {I J K : CodeInterval} {p p' q q' : ℕ} (h : Shrinks p q I J)
    (h' : Shrinks p' q' J K) : Shrinks (p * p') (q * q') I K := by
  obtain ⟨k, hbits, hle⟩ := h
  obtain ⟨k', hbits', hle'⟩ := h'
  refine ⟨k + k', by omega, ?_⟩
  calc q * q' * K.range = q * (q' * K.range) := by ring
    _ ≤ q * (p' * (J.range * 2 ^ k')) := Nat.mul_le_mul_left _ hle'
    _ = q * J.range * (p' * 2 ^ k') := by ring
    _ ≤ p * (I.range * 2 ^ k) * (p' * 2 ^ k') := Nat.mul_le_mul_right _ hle
    _ = p * p' * (I.range * 2 ^ (k + k')) := by ring

/-- What is left after many parts have been cut off needs more bits. -/
theorem Shrinks.bits_lt {I J : CodeInterval} {p q d r : ℕ} (h : Shrinks p q I J)
    (hI : I.range < 2 * r) (hJ : r ≤ J.range) (hp : 0 < p) (hpq : p * 2 ^ (d + 1) ≤ q) :
    I.bits + d < J.bits := by
  obtain ⟨k, hbits, hle⟩ := h
  by_contra hn
  have hpow : 2 ^ k ≤ 2 ^ d := Nat.pow_le_pow_right (by omega) (by omega)
  have hlt : p * (I.range * 2 ^ k) < p * (2 * r * 2 ^ d) := by
    refine Nat.mul_lt_mul_of_pos_left ?_ hp
    exact Nat.mul_lt_mul_of_lt_of_le hI hpow (Nat.two_pow_pos d)
  have hge : p * 2 ^ (d + 1) * r ≤ q * J.range := Nat.mul_le_mul hpq hJ
  have heq : p * 2 ^ (d + 1) * r = p * (2 * r * 2 ^ d) := by ring
  omega

end CodeInterval

/-- What a coder and its decoder agree on: how a request divides the interval in each state, the
state after it, and by how many bits a narrowed interval is widened again. -/
structure BinaryCoder (σ ρ : Type*) where
  split : σ → ρ → ℕ → Split
  next : σ → ρ → Bool → σ
  renorm : ℕ → ℕ

/-- What a decoder keeps: how far the code is from the start of the interval, and the bits that it
has not read. -/
structure DecoderState where
  offset : ℕ
  range : ℕ
  rest : List Bool

namespace BinaryCoder

variable {σ ρ : Type*} (C : BinaryCoder σ ρ)

def narrow (s : σ) (I : CodeInterval) (r : ρ) (b : Bool) : CodeInterval :=
  let p := C.split s r I.range
  let k := C.renorm (p.width b)
  ⟨(I.low * 2 ^ p.pre + p.offset b) * 2 ^ k, p.width b * 2 ^ k, I.bits + p.pre + k⟩

def encode : σ → CodeInterval → List (ρ × Bool) → σ × CodeInterval
  | s, I, [] => (s, I)
  | s, I, (r, b) :: l => encode (C.next s r b) (C.narrow s I r b) l

def decodeSymbol (s : σ) (d : DecoderState) (r : ρ) : Option (Bool × DecoderState) := do
  let p := C.split s r d.range
  let u ← readBits p.pre d.rest
  let x := d.offset * 2 ^ p.pre + u.1
  let b := p.symbol x
  let k := C.renorm (p.width b)
  let v ← readBits k u.2
  return (b, ⟨(x - p.offset b) * 2 ^ k + v.1, p.width b * 2 ^ k, v.2⟩)

def decode : σ → DecoderState → List ρ → Option (List Bool × σ × DecoderState)
  | s, d, [] => some ([], s, d)
  | s, d, r :: l =>
    (C.decodeSymbol s d r).bind fun x =>
      (decode (C.next s r x.1) x.2 l).map fun y => (x.1 :: y.1, y.2)

/-- The decoder has read what the interval is a part of. -/
structure Follows (I : CodeInterval) (code : List Bool) (d : DecoderState) : Prop where
  len : I.bits ≤ code.length
  rest : d.rest = code.drop I.bits
  offset : natOfBits (code.take I.bits) = I.low + d.offset
  range : d.range = I.range

variable {C} {s t : σ} {I J : CodeInterval} {r : ρ} {b : Bool} {l l' : List (ρ × Bool)}
  {code : List Bool} {d : DecoderState}

theorem encode_append (s : σ) (I : CodeInterval) (l l' : List (ρ × Bool)) :
    C.encode s I (l ++ l') = C.encode (C.encode s I l).1 (C.encode s I l).2 l' := by
  induction l generalizing s I with
  | nil => rfl
  | cons p l ih => exact ih _ _

theorem narrow_of_pre_zero {x w : ℕ} (hpre : (C.split s r I.range).pre = 0)
    (hx : (C.split s r I.range).offset b = x) (hw : (C.split s r I.range).width b = w) :
    C.narrow s I r b = ⟨(I.low + x) * 2 ^ C.renorm w, w * 2 ^ C.renorm w, I.bits + C.renorm w⟩ := by
  simp [narrow, hpre, hx, hw]

theorem narrow_sub (h : (C.split s r I.range).Fits I.range) : (C.narrow s I r b).Sub I := by
  have hfit := Split.offset_add_width h b
  unfold narrow
  generalize C.split s r I.range = p at *
  refine ⟨p.pre + C.renorm (p.width b), by simp only [add_assoc], ?_, ?_⟩
  · rw [pow_add, ← mul_assoc]
    exact Nat.mul_le_mul_right _ (by omega)
  · rw [pow_add, ← mul_assoc, ← add_mul]
    exact Nat.mul_le_mul_right _ (by rw [add_mul]; omega)

/-- One symbol is read back from a code that lies in the interval after it. -/
theorem decodeSymbol_narrow (h : Follows I code d) (hin : (C.narrow s I r b).Holds code) :
    ∃ d', C.decodeSymbol s d r = some (b, d') ∧ Follows (C.narrow s I r b) code d' := by
  obtain ⟨-, hrest, hoff, hrange⟩ := h
  rw [decodeSymbol, hrange]
  unfold narrow at hin ⊢
  generalize C.split s r I.range = p at *
  simp only at hin ⊢
  generalize hk : C.renorm (p.width b) = k at *
  obtain ⟨hlen, -, -⟩ := id hin
  -- The number before the renormalisation lies in the part of the symbol.
  have hmid : CodeInterval.Holds
      ⟨I.low * 2 ^ p.pre + p.offset b, p.width b, I.bits + p.pre⟩ code :=
    CodeInterval.Sub.holds ⟨k, rfl, le_rfl, (add_mul _ _ _).ge⟩ hin
  obtain ⟨hlen', hlow, hhigh⟩ := hmid
  simp only at hlen hlen' hlow hhigh
  rw [natOfBits_take_add hlen', hoff, add_mul] at hlow hhigh
  generalize hx : d.offset * 2 ^ p.pre + natOfBits ((code.drop I.bits).take p.pre) = x at *
  have hsymbol : p.symbol x = b := Split.symbol_eq (by omega) (by omega)
  refine ⟨⟨(x - p.offset b) * 2 ^ k + natOfBits ((code.drop (I.bits + p.pre)).take k),
    p.width b * 2 ^ k, code.drop (I.bits + p.pre + k)⟩, ?_, hlen, rfl, ?_, rfl⟩
  · simp only [hrest, readBits_drop hlen', Option.bind_eq_bind, Option.bind_some, hx, hsymbol, hk,
      readBits_drop hlen]
    rfl
  · simp only
    rw [natOfBits_take_add hlen, natOfBits_take_add hlen', hoff, ← add_assoc, ← add_mul]
    congr 2
    rw [add_mul]
    omega

/-- What every allowed symbol keeps of the state and the width, and which makes its parts fit. -/
structure Invariant (C : BinaryCoder σ ρ) (Allowed : ρ → Bool → Prop) (P : σ → ℕ → Prop) :
    Prop where
  fits : ∀ s n r b, P s n → Allowed r b → (C.split s r n).Fits n
  next : ∀ s I r b, P s I.range → Allowed r b → P (C.next s r b) (C.narrow s I r b).range

variable {Allowed : ρ → Bool → Prop} {P : σ → ℕ → Prop}

theorem Invariant.encode (h : Invariant C Allowed P) (hs : P s I.range)
    (hl : ∀ x ∈ l, Allowed x.1 x.2) :
    P (C.encode s I l).1 (C.encode s I l).2.range ∧ (C.encode s I l).2.Sub I := by
  induction l generalizing s I with
  | nil => exact ⟨hs, CodeInterval.Sub.refl I⟩
  | cons x l ih =>
    obtain ⟨r, b⟩ := x
    have hx : Allowed r b := hl (r, b) List.mem_cons_self
    obtain ⟨hP, hsub⟩ := ih (h.next s I r b hs hx) (fun y hy => hl y (List.mem_cons_of_mem _ hy))
    exact ⟨hP, hsub.trans (narrow_sub (h.fits s I.range r b hs hx))⟩

/-- The symbols are read back from any code in their interval. -/
theorem Invariant.decode_encode (h : Invariant C Allowed P) (hs : P s I.range)
    (hl : ∀ x ∈ l, Allowed x.1 x.2) (hd : Follows I code d)
    (hcode : (C.encode s I l).2.Holds code) :
    ∃ d', C.decode s d (l.map Prod.fst) = some (l.map Prod.snd, (C.encode s I l).1, d') ∧
      Follows (C.encode s I l).2 code d' := by
  induction l generalizing s I d with
  | nil => exact ⟨d, rfl, hd⟩
  | cons x l ih =>
    obtain ⟨r, b⟩ := x
    have hx : Allowed r b := hl (r, b) List.mem_cons_self
    have hl' : ∀ y ∈ l, Allowed y.1 y.2 := fun y hy => hl y (List.mem_cons_of_mem _ hy)
    have hnext := h.next s I r b hs hx
    have hin : (C.narrow s I r b).Holds code := (h.encode hnext hl').2.holds hcode
    obtain ⟨d₁, hsymbol, hd₁⟩ := decodeSymbol_narrow hd hin
    obtain ⟨d₂, hdecode, hd₂⟩ := ih hnext hl' hd₁ hcode
    refine ⟨d₂, ?_, hd₂⟩
    rw [List.map_cons, decode, hsymbol, Option.bind_some, hdecode]
    rfl

end BinaryCoder

end Pc2Drc.Lib
