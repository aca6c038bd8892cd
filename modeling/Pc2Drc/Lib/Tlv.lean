import Mathlib.Data.List.Basic

/-! Records of a tag, a length and a value, with pads of one byte between them and an end mark. -/
namespace Pc2Drc.Lib

inductive TlvItem
  | pad
  | record (tag : UInt8) (value : List UInt8)
  deriving DecidableEq, Repr

namespace TlvItem

def bytes : TlvItem → List UInt8
  | pad => [0]
  | record tag value => tag :: UInt8.ofNat value.length :: value

/-- The tag is neither that of a pad nor the end mark, and the length fits its byte. -/
def Valid : TlvItem → Prop
  | pad => True
  | record tag value => tag ≠ 0 ∧ tag ≠ 255 ∧ value.length < 256

instance (x : TlvItem) : Decidable x.Valid :=
  match x with
  | pad => inferInstanceAs (Decidable True)
  | record tag value => inferInstanceAs (Decidable (tag ≠ 0 ∧ tag ≠ 255 ∧ value.length < 256))

end TlvItem

def tlvBytes (items : List TlvItem) : List UInt8 :=
  items.flatMap TlvItem.bytes

def tlvRecords : List TlvItem → List (UInt8 × List UInt8)
  | [] => []
  | .pad :: items => tlvRecords items
  | .record tag value :: items => (tag, value) :: tlvRecords items

/-- Reads the records up to the end mark. -/
def decodeTlv : ℕ → List UInt8 → Option (List (UInt8 × List UInt8))
  | 0, _ => none
  | _ + 1, [] => none
  | fuel + 1, tag :: l =>
    if tag = 255 then some []
    else if tag = 0 then decodeTlv fuel l
    else
      match l with
      | [] => none
      | n :: l =>
        if n.toNat ≤ l.length then
          (decodeTlv fuel (l.drop n.toNat)).map fun rs => (tag, l.take n.toNat) :: rs
        else none

theorem tlvBytes_cons (x : TlvItem) (items : List TlvItem) :
    tlvBytes (x :: items) = x.bytes ++ tlvBytes items := List.flatMap_cons

theorem length_le_tlvBytes (items : List TlvItem) : items.length ≤ (tlvBytes items).length := by
  induction items with
  | nil => exact Nat.le_refl _
  | cons x items ih =>
    have hx : 1 ≤ x.bytes.length := by
      cases x with
      | pad => exact Nat.le_refl _
      | record tag value => exact Nat.succ_le_succ (Nat.zero_le _)
    rw [tlvBytes_cons, List.length_cons, List.length_append]
    omega

theorem tlvRecords_append (items more : List TlvItem) :
    tlvRecords (items ++ more) = tlvRecords items ++ tlvRecords more := by
  induction items with
  | nil => rfl
  | cons x items ih =>
    cases x with
    | pad => exact ih
    | record tag value => exact congrArg (List.cons (tag, value)) ih

/-- The value of the last record of a tag. -/
def tlvLast (tag : UInt8) (items : List TlvItem) : Option (List UInt8) :=
  (tlvRecords items).reverse.lookup tag

theorem tlvLast_snoc_pad (tag : UInt8) (items : List TlvItem) :
    tlvLast tag (items ++ [.pad]) = tlvLast tag items := by
  rw [tlvLast, tlvRecords_append, tlvRecords, tlvRecords, List.append_nil, tlvLast]

theorem tlvLast_snoc_record (tag tag' : UInt8) (value : List UInt8) (items : List TlvItem) :
    tlvLast tag (items ++ [.record tag' value]) =
      if tag' = tag then some value else tlvLast tag items := by
  rw [tlvLast, tlvRecords_append, tlvRecords, tlvRecords, List.reverse_append,
    List.reverse_singleton, List.singleton_append, List.lookup_cons, tlvLast]
  by_cases h : tag' = tag
  · subst h
    rw [if_pos rfl, beq_self_eq_true]
  · rw [if_neg h, beq_eq_false_iff_ne.mpr (Ne.symm h)]

/-- The records are read back, whatever follows the end mark. -/
theorem decodeTlv_tlvBytes {items : List TlvItem} {fuel : ℕ} (h : ∀ x ∈ items, x.Valid)
    (hfuel : items.length < fuel) (rest : List UInt8) :
    decodeTlv fuel (tlvBytes items ++ 255 :: rest) = some (tlvRecords items) := by
  induction items generalizing fuel with
  | nil =>
    cases fuel with
    | zero => omega
    | succ fuel => rfl
  | cons x items ih =>
    cases fuel with
    | zero => omega
    | succ fuel =>
      have hx : x.Valid := h x List.mem_cons_self
      have hrest : decodeTlv fuel (tlvBytes items ++ 255 :: rest) = some (tlvRecords items) :=
        ih (fun y hy => h y (List.mem_cons_of_mem _ hy)) (by rw [List.length_cons] at hfuel; omega)
      rw [tlvBytes_cons, List.append_assoc]
      cases x with
      | pad => exact hrest
      | record tag value =>
        obtain ⟨hpad, hend, hlen⟩ := hx
        have hn : (UInt8.ofNat value.length).toNat = value.length := by
          rw [UInt8.toNat_ofNat', Nat.mod_eq_of_lt hlen]
        rw [TlvItem.bytes, List.cons_append, List.cons_append, decodeTlv, if_neg hend, if_neg hpad]
        simp only [hn, List.length_append, Nat.le_add_right, if_true, List.drop_left,
          List.take_left, hrest, Option.map_some]
        rfl

end Pc2Drc.Lib
