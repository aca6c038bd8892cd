import Pc2Drc.Lib.Buffer

/-! A buffer that is filled again from the start, with what it held before behind the new bytes. -/
namespace Pc2Drc.Lib.Buffer

variable {n i : ℕ} {b b' orig : Buffer n} {pre l : List UInt8}

/-- `b[i]` for an index that nothing bounds. -/
def fetch (b : Buffer n) (i : ℕ) : Except Fault UInt8 :=
  if i < n then .ok (b.get i) else .error .outOfBounds

/-- The new bytes `pre` come first, and the old ones from there on. -/
structure Filled (orig : Buffer n) (pre : List UInt8) (b : Buffer n) : Prop where
  bytes : b.bytes = pre ++ orig.bytes.drop pre.length
  len : pre.length ≤ n

theorem Filled.memcpy (h : Filled orig pre b) (hi : i = pre.length) (hn : i + l.length ≤ n) :
    ∃ b', b.memcpy i l = .ok b' ∧ Filled orig (pre ++ l) b' := by
  subst hi
  obtain ⟨b', hb'⟩ := memcpy_ok (b := b) hn
  refine ⟨b', hb', ?_, by simpa using hn⟩
  rw [(memcpy_eq_ok.mp hb').2, blit, h.bytes, List.take_left, List.length_append]
  congr 1
  rw [← List.drop_drop, List.drop_left, List.drop_drop]

theorem Filled.store (h : Filled orig pre b) (v : UInt8) (hn : pre.length < n) :
    ∃ b', b.store pre.length v = .ok b' ∧ Filled orig (pre ++ [v]) b' := by
  obtain ⟨b', hb', hfill⟩ := h.memcpy (l := [v]) rfl (by rw [List.length_singleton]; omega)
  rw [memcpy_cons] at hb'
  obtain ⟨c, hc, hnil⟩ := bind_eq_ok.mp hb'
  rw [memcpy_nil (by omega), Except.ok.injEq] at hnil
  subst hnil
  exact ⟨c, hc, hfill⟩

/-- What is not written yet is still the old byte. -/
theorem Filled.get (h : Filled orig pre b) (hi : pre.length ≤ i) : b.get i = orig.get i := by
  rw [Buffer.get, Buffer.get, h.bytes, List.getD_eq_getElem?_getD, List.getD_eq_getElem?_getD,
    List.getElem?_append_right hi, List.getElem?_drop]
  congr 2
  omega

/-- Bytes that are left as they are. -/
theorem Filled.keep (h : Filled orig pre b) (m : ℕ) (hn : pre.length + m ≤ n) :
    Filled orig (pre ++ (orig.bytes.drop pre.length).take m) b := by
  have hlen : ((orig.bytes.drop pre.length).take m).length = m := by
    rw [List.length_take, List.length_drop, orig.length_bytes]
    omega
  refine ⟨?_, by rw [List.length_append, hlen]; omega⟩
  rw [h.bytes, List.append_assoc, List.length_append, hlen, ← List.drop_drop, List.take_append_drop]

/-- A byte that was left out is written when what follows it is there. -/
theorem Filled.back {v x : UInt8} (h : Filled orig (pre ++ x :: l) b) :
    ∃ b', b.store pre.length v = .ok b' ∧ Filled orig (pre ++ v :: l) b' := by
  have hlen := h.len
  rw [List.length_append, List.length_cons] at hlen
  refine ⟨b.set pre.length v, store_eq_ok.mpr ⟨by omega, rfl⟩, ?_, by
    rw [List.length_append, List.length_cons]; omega⟩
  rw [bytes_set, h.bytes, List.set_append_left _ _ (by simp), List.set_append_right _ _ le_rfl]
  simp

theorem fetch_eq_ok {v : UInt8} : b.fetch i = .ok v ↔ i < n ∧ v = b.get i := by
  unfold fetch
  split <;> simp_all [eq_comm]

theorem get_of_bytes {v : UInt8} (h : b.bytes = pre ++ v :: l) : b.get pre.length = v := by
  rw [get, h, List.getD_eq_getElem?_getD, List.getElem?_append_right le_rfl, Nat.sub_self]
  rfl

theorem fetch_error {e : Fault} (h : b.fetch i = .error e) : e = .outOfBounds := by
  unfold fetch at h
  split at h
  · cases h
  · cases h
    rfl

theorem drop_take_succ {m : ℕ} (b : Buffer n) (hi : i < n) :
    (b.bytes.drop i).take (m + 1) = b.get i :: (b.bytes.drop (i + 1)).take m := by
  have hlt : i < b.bytes.length := by
    rw [b.length_bytes]
    exact hi
  rw [List.drop_eq_getElem_cons hlt, List.take_succ_cons, Buffer.get,
    List.getD_eq_getElem?_getD, List.getElem?_eq_getElem hlt, Option.getD_some]

/-- `while (n--) p[dst++] = p[src++]`, inside one object. -/
def copyForward (b : Buffer n) (dst src : ℕ) : ℕ → Except Fault (Buffer n)
  | 0 => .ok b
  | m + 1 => do
    let c ← b.fetch src
    let b ← b.store dst c
    copyForward b (dst + 1) (src + 1) m

/-- A copy towards the start reads every byte before it is written over. -/
theorem Filled.copyForward {src m : ℕ} (h : Filled orig pre b) (hsrc : pre.length ≤ src)
    (hn : src + m ≤ n) : ∃ b', b.copyForward pre.length src m = .ok b' ∧
      Filled orig (pre ++ (orig.bytes.drop src).take m) b' := by
  induction m generalizing pre src b with
  | zero => exact ⟨b, rfl, by rwa [List.take_zero, List.append_nil]⟩
  | succ m ih =>
    obtain ⟨c, hc, hfill⟩ := h.store (orig.get src) (by omega)
    have hpre : (pre ++ [orig.get src]).length = pre.length + 1 := by simp
    have hbehind : (pre ++ [orig.get src]).length ≤ src + 1 := by omega
    obtain ⟨b', hb', hfill'⟩ := ih hfill hbehind (by omega)
    rw [hpre] at hb'
    refine ⟨b', ?_, ?_⟩
    · have hread : b.fetch src = .ok (orig.get src) :=
        fetch_eq_ok.mpr ⟨by omega, (h.get hsrc).symm⟩
      exact bind_eq_ok.mpr ⟨_, hread, bind_eq_ok.mpr ⟨c, hc, hb'⟩⟩
    · rwa [drop_take_succ orig (by omega), ← List.singleton_append, ← List.append_assoc]

/-- Such a copy can only run out of bytes to read. -/
theorem copyForward_outOfBounds {dst src m : ℕ} (h : dst ≤ src) (hsrc : src ≤ n)
    (hn : n < src + m) : b.copyForward dst src m = .error .outOfBounds := by
  induction m generalizing b dst src with
  | zero => omega
  | succ m ih =>
    by_cases hlt : src < n
    · rw [Buffer.copyForward, fetch_eq_ok.mpr ⟨hlt, rfl⟩]
      change (b.store dst (b.get src) >>= fun b' => b'.copyForward (dst + 1) (src + 1) m) = _
      rw [store, if_pos (by omega)]
      exact ih (Nat.succ_le_succ h) hlt (by omega)
    · rw [Buffer.copyForward, fetch, if_neg hlt]
      rfl

end Pc2Drc.Lib.Buffer
