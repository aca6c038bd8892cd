import Mathlib.Data.List.Count
import Mathlib.Data.List.GetD
import Mathlib.Order.Nat
import Pc2Drc.Lib.Run

/-! The command line of the VNC client: `main` takes its own options out of `argv` in place, before
the rest is handed to the library. -/
namespace Pc2Drc

/-- What the option loop of `main` works on. `argv` has the length it was given; only its first `j`
entries are kept. -/
structure CommandLine where
  argv : List String
  j : ℕ
  viewOnly : Bool
  listenLoop : Bool
  drcInputFeeder : Bool
  deriving DecidableEq, Repr

namespace CommandLine

def init (argv : List String) : CommandLine := ⟨argv, 1, false, false, false⟩

/-- One turn of the loop. -/
def option (c : CommandLine) (i : ℕ) : CommandLine :=
  let arg := c.argv.getD i ""
  if arg = "-viewonly" then { c with viewOnly := true }
  else if arg = "-listen" then
    -- The replacement stays at the read index, while the write index moves on.
    { c with listenLoop := true, argv := c.argv.set i "-listennofork", j := c.j + 1 }
  else if arg = "-joystick" then { c with drcInputFeeder := true }
  else { c with argv := if i ≠ c.j then c.argv.set c.j arg else c.argv, j := c.j + 1 }

/-- The first `n` turns. -/
def options (argv : List String) (n : ℕ) : CommandLine :=
  (List.range' 1 n).foldl option (init argv)

/-- The whole loop, for `argc = argv.length`. -/
def optionLoop (argv : List String) : CommandLine := options argv (argv.length - 1)

/-- `argc` and `argv` as the rest of `main` sees them. -/
def remaining (c : CommandLine) : List String := c.argv.take c.j

end CommandLine

/-- Whether an option is meant for `main` alone. -/
def removed (arg : String) : Bool := arg == "-viewonly" || arg == "-joystick"

def renamed (arg : String) : String := if arg = "-listen" then "-listennofork" else arg

/-- What should be left of the arguments. -/
def compacted (args : List String) : List String :=
  (args.filter fun arg => !removed arg).map renamed

/-- How many of the first `k` arguments are kept. -/
def keptBefore (args : List String) (k : ℕ) : ℕ := (args.take k).countP fun arg => !removed arg

/-- Every `-listen` finds an option of that name, or of the new one, in the place it moves to. -/
def ListenInPlace (args : List String) : Prop :=
  ∀ k, args[k]? = some "-listen" →
    args[keptBefore args k]? = some "-listen" ∨ args[keptBefore args k]? = some "-listennofork"

theorem options_succ (argv : List String) (n : ℕ) :
    CommandLine.options argv (n + 1) = (CommandLine.options argv n).option (n + 1) := by
  rw [CommandLine.options, List.range'_1_concat, List.foldl_append, Nat.add_comm 1]
  rfl

theorem keptBefore_le (args : List String) (k : ℕ) : keptBefore args k ≤ k := by
  have hcount := List.countP_le_length (l := args.take k) (p := fun arg => !removed arg)
  rw [List.length_take] at hcount
  exact le_trans hcount (Nat.min_le_left _ _)

theorem keptBefore_append {args more : List String} {k : ℕ} (h : k ≤ args.length) :
    keptBefore (args ++ more) k = keptBefore args k := by
  rw [keptBefore, keptBefore, List.take_append_of_le_length h]

theorem keptBefore_snoc (args : List String) (arg : String) :
    keptBefore (args ++ [arg]) (args ++ [arg]).length =
      keptBefore args args.length + if removed arg then 0 else 1 := by
  rw [keptBefore, keptBefore, List.take_length, List.take_length, List.countP_append,
    List.countP_singleton]
  cases removed arg <;> rfl

theorem compacted_snoc (args : List String) (arg : String) :
    compacted (args ++ [arg]) = compacted args ++ if removed arg then [] else [renamed arg] := by
  cases h : removed arg <;> simp [compacted, h]

theorem renamed_eq_iff {arg : String} :
    renamed arg = "-listennofork" ↔ arg = "-listen" ∨ arg = "-listennofork" := by
  by_cases h : arg = "-listen" <;> simp [renamed, h]

/-- The condition on the last argument alone. -/
theorem listenInPlace_snoc {args : List String} {arg : String} :
    ListenInPlace (args ++ [arg]) ↔ ListenInPlace args ∧ (arg = "-listen" →
      ((args ++ [arg]).map renamed)[keptBefore args args.length]? = some "-listennofork") := by
  have hlast {k : ℕ} : ((args ++ [arg]).map renamed)[k]? = some "-listennofork" ↔
      (args ++ [arg])[k]? = some "-listen" ∨ (args ++ [arg])[k]? = some "-listennofork" := by
    rw [List.getElem?_map]
    cases (args ++ [arg])[k]? with
    | none => simp
    | some a => simp only [Option.map_some, Option.some.injEq, renamed_eq_iff]
  have hsame {k : ℕ} (hk : k < args.length) : (args ++ [arg])[k]? = args[k]? ∧
      (args ++ [arg])[keptBefore (args ++ [arg]) k]? = args[keptBefore args k]? := by
    have hkept := keptBefore_le args k
    rw [keptBefore_append hk.le, List.getElem?_append_left hk,
      List.getElem?_append_left (by omega)]
    exact ⟨rfl, rfl⟩
  rw [hlast]
  constructor
  · intro h
    refine ⟨?_, ?_⟩
    · intro k hk
      have hlt := (List.getElem?_eq_some_iff.mp hk).1
      have hplace := h k ((hsame hlt).1.trans hk)
      rwa [(hsame hlt).2] at hplace
    · rintro rfl
      have hplace := h args.length (by simp)
      rwa [keptBefore_append (le_refl _)] at hplace
  · rintro ⟨hold, hnew⟩ k hk
    rcases Lib.getElem?_snoc hk with hk | ⟨rfl, harg⟩
    · have hlt := (List.getElem?_eq_some_iff.mp hk).1
      rw [(hsame hlt).2]
      exact hold k hk
    · rw [keptBefore_append (le_refl _)]
      exact hnew harg.symm

/-- The loop after the arguments `done`: `out` is what it has written, and the slots between the
two indices hold what was read there, renamed. -/
structure CommandLine.After (c : CommandLine) (prog : String) (done rest out : List String) :
    Prop where
  argv : c.argv = prog :: (out ++ (done.map renamed).drop out.length ++ rest)
  j : c.j = out.length + 1
  length_out : out.length = keptBefore done done.length
  out_eq : out = compacted done ↔ ListenInPlace done

namespace CommandLine

variable {c : CommandLine} {prog arg : String} {done rest out : List String}

theorem After.length_le (h : c.After prog done rest out) : out.length ≤ done.length := by
  rw [h.length_out]
  exact keptBefore_le done done.length

/-- The argument about to be read, and the slots from the write index on. -/
theorem After.argv_eq (h : c.After prog done (arg :: rest) out) :
    c.argv.getD (done.length + 1) "" = arg ∧
    ∀ x, c.argv.set (done.length + 1) x =
      prog :: (out ++ ((done.map renamed).drop out.length ++ x :: rest)) := by
  have hlen : (out ++ (done.map renamed).drop out.length).length = done.length := by
    have := h.length_le
    simp
    omega
  rw [h.argv]
  constructor
  · rw [List.getD_cons_succ, ← hlen, List.getD_append_right _ _ _ _ (le_refl _), Nat.sub_self]
    rfl
  · intro x
    rw [List.set_cons_succ, ← hlen, List.set_append_right _ _ (le_refl _)]
    simp

/-- The slot the write index points to, once the argument behind it has been read. -/
theorem After.slot (h : c.After prog done (arg :: rest) out) :
    ∃ x, ((done ++ [arg]).map renamed)[out.length]? = some x ∧
      (done.map renamed).drop out.length ++ renamed arg :: rest =
        x :: (((done ++ [arg]).map renamed).drop (out.length + 1) ++ rest) := by
  have hlt : out.length < ((done ++ [arg]).map renamed).length := by
    have := h.length_le
    simp
    omega
  refine ⟨_, List.getElem?_eq_getElem hlt, ?_⟩
  rw [← List.cons_append, ← List.drop_eq_getElem_cons hlt, List.map_append,
    List.drop_append_of_le_length (by simpa using h.length_le)]
  simp

theorem After.remove (h : c.After prog done (arg :: rest) out) (harg : removed arg = true)
    (hname : arg ≠ "-listen") : c.After prog (done ++ [arg]) rest out := by
  have hren : renamed arg = arg := if_neg hname
  refine ⟨?_, h.j, ?_, ?_⟩
  · have hdrop : ((done ++ [arg]).map renamed).drop out.length =
        (done.map renamed).drop out.length ++ [arg] := by
      rw [List.map_append, List.drop_append_of_le_length (by simpa using h.length_le),
        List.map_singleton, hren]
    rw [h.argv, hdrop]
    simp
  · rw [keptBefore_snoc, harg, h.length_out]
    rfl
  · rw [compacted_snoc, harg, listenInPlace_snoc]
    simp [hname, h.out_eq]

/-- A kept argument: the written part grows by what is then in the slot. -/
theorem After.keep {x : String} (h : c.After prog done (arg :: rest) out)
    (harg : removed arg = false) {c' : CommandLine}
    (hargv : c'.argv = prog :: (out ++ x :: (((done ++ [arg]).map renamed).drop (out.length + 1) ++
      rest)))
    (hj : c'.j = c.j + 1)
    (hx : x = renamed arg ↔ arg = "-listen" →
      ((done ++ [arg]).map renamed)[out.length]? = some "-listennofork") :
    c'.After prog (done ++ [arg]) rest (out ++ [x]) := by
  refine ⟨?_, ?_, ?_, ?_⟩
  · rw [hargv]
    simp
  · rw [hj, h.j]
    simp
  · rw [keptBefore_snoc, harg, ← h.length_out]
    simp
  · rw [compacted_snoc, harg, listenInPlace_snoc, ← h.length_out, ← hx, ← h.out_eq]
    constructor
    · intro heq
      obtain ⟨hout, hlast⟩ := List.append_inj' heq rfl
      exact ⟨hout, List.singleton_inj.mp hlast⟩
    · rintro ⟨hout, hlast⟩
      rw [hlast, hout]
      rfl

theorem After.option (h : c.After prog done (arg :: rest) out) :
    ∃ out', (c.option (done.length + 1)).After prog (done ++ [arg]) rest out' := by
  obtain ⟨hread, hset⟩ := h.argv_eq
  obtain ⟨x, hx, hslot⟩ := h.slot
  unfold CommandLine.option
  rw [hread]
  by_cases hview : arg = "-viewonly"
  · rw [if_pos hview]
    have hrest := h.remove (by simp [removed, hview]) (by rw [hview]; decide)
    exact ⟨out, hrest.argv, hrest.j, hrest.length_out, hrest.out_eq⟩
  rw [if_neg hview]
  by_cases hlisten : arg = "-listen"
  · rw [if_pos hlisten]
    refine ⟨out ++ [x], h.keep (by rw [hlisten]; decide) ?_ rfl ?_⟩
    · have hren : renamed arg = "-listennofork" := if_pos hlisten
      rw [hren] at hslot
      simp only [hset, hslot]
    · rw [hx, Option.some.injEq, renamed, if_pos hlisten]
      exact ⟨fun h _ => h, fun h => h hlisten⟩
  rw [if_neg hlisten]
  have hren : renamed arg = arg := if_neg hlisten
  rw [hren] at hslot
  by_cases hjoy : arg = "-joystick"
  · rw [if_pos hjoy]
    have hrest := h.remove (by simp [removed, hjoy]) hlisten
    exact ⟨out, hrest.argv, hrest.j, hrest.length_out, hrest.out_eq⟩
  rw [if_neg hjoy]
  refine ⟨out ++ [arg], h.keep (by simp [removed, hview, hjoy]) ?_ rfl (by simp [hren, hlisten])⟩
  have hargv : c.argv =
      prog :: (out ++ x :: (((done ++ [arg]).map renamed).drop (out.length + 1) ++ rest)) := by
    rw [h.argv, List.append_assoc, hslot]
  by_cases hij : done.length + 1 ≠ c.j
  · rw [if_pos hij, h.j, hargv, List.set_cons_succ, List.set_append_right _ _ (le_refl _)]
    simp
  · -- Nothing was removed so far: the slot holds the argument itself.
    rw [if_neg hij, hargv]
    have hout : out.length = done.length := by
      rw [h.j] at hij
      omega
    rw [hout, List.map_append, List.getElem?_append_right (by simp)] at hx
    simp [hren] at hx
    rw [hx]

theorem after_options (prog : String) (done rest : List String) :
    ∃ out, (options (prog :: (done ++ rest)) done.length).After prog done rest out := by
  induction done using List.reverseRecOn generalizing rest with
  | nil => exact ⟨[], rfl, rfl, rfl, by simp [compacted, ListenInPlace]⟩
  | append_singleton done arg ih =>
    obtain ⟨out, h⟩ := ih (arg :: rest)
    obtain ⟨out', h'⟩ := h.option
    refine ⟨out', ?_⟩
    rw [List.length_append, List.length_singleton, options_succ, List.append_assoc]
    exact h'

end CommandLine

/-- The entries that are kept are the right ones exactly when every `-listen` is in place. -/
theorem optionLoop_compacts_iff (prog : String) (args : List String) :
    (CommandLine.optionLoop (prog :: args)).remaining = prog :: compacted args ↔
      ListenInPlace args := by
  obtain ⟨out, h⟩ := CommandLine.after_options prog args []
  rw [List.append_nil] at h
  have hremaining : (CommandLine.optionLoop (prog :: args)).remaining = prog :: out := by
    change (CommandLine.options (prog :: args) args.length).remaining = prog :: out
    rw [CommandLine.remaining, h.argv, h.j]
    simp
  rw [hremaining, List.cons_inj_right, h.out_eq]

/-- An option that was removed comes back in the place of the `-listen` behind it. -/
theorem listen_after_viewonly_lost :
    (CommandLine.optionLoop ["drcvncclient", "-viewonly", "-listen"]).remaining =
        ["drcvncclient", "-viewonly"] ∧
      ¬ ((CommandLine.optionLoop ["drcvncclient", "-viewonly", "-listen"]).remaining =
        "drcvncclient" :: compacted ["-viewonly", "-listen"]) := by
  decide

end Pc2Drc
