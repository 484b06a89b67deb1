import Mathlib.Data.List.Basic
import Mathlib.Data.List.Chain

/-!
# Throttled series

A throttle thins a series of readings: a reading is kept when it is the first, when its value
differs from that of the last reading kept, or when at least `interval` has passed since then.
What is kept ends with the value of the last reading (`map_getLast?_kept`), and two readings kept
in succession with one value are at least `interval` apart (`isChain_kept`).
-/

namespace TtLedger

namespace Throttle

variable {α τ ν : Type*} [Sub τ] [LE τ] [DecidableLE τ] [DecidableEq ν] (time : α → τ)
  (value : α → ν) (interval : τ)

/-- Whether a reading is kept after the last one that was. -/
def admits (last : Option α) (a : α) : Bool :=
  match last with
  | none => true
  | some p => interval ≤ time a - time p || value a ≠ value p

/-- Take one reading. -/
def step (kept : List α) (a : α) : List α :=
  if admits time value interval kept.getLast? a then kept ++ [a] else kept

/-- The readings of a series that are kept. -/
def kept (l : List α) : List α := l.foldl (step time value interval) []

variable {time value interval}

theorem kept_concat (l : List α) (a : α) :
    kept time value interval (l ++ [a]) =
      step time value interval (kept time value interval l) a := by
  rw [kept, List.foldl_append, List.foldl_cons, List.foldl_nil, kept]

/-- A reading with a new value is kept. -/
theorem admits_of_ne {last : Option α} {a : α} (h : last.map value ≠ some (value a)) :
    admits time value interval last a = true := by
  cases last with
  | none => rfl
  | some p =>
    have hne : value a ≠ value p := fun heq => h (congrArg some heq.symm)
    simp [admits, hne]

/-- A reading that is not kept repeats the value of the last one that was. -/
theorem map_eq_of_not_admits {last : Option α} {a : α}
    (h : admits time value interval last a = false) : last.map value = some (value a) := by
  by_contra hne
  rw [admits_of_ne hne] at h
  cases h

theorem sublist_kept (l : List α) : (kept time value interval l).Sublist l := by
  induction l using List.reverseRecOn with
  | nil => exact List.Sublist.refl []
  | append_singleton l a ih =>
    rw [kept_concat, step]
    split
    · exact ih.append_right [a]
    · exact ih.trans (List.sublist_append_left l [a])

/-- **The kept series ends with the value of the last reading.** -/
theorem map_getLast?_kept (l : List α) :
    (kept time value interval l).getLast?.map value = l.getLast?.map value := by
  induction l using List.reverseRecOn with
  | nil => rfl
  | append_singleton l a ih =>
    rw [kept_concat, step, List.getLast?_concat, Option.map_some]
    split
    · rw [List.getLast?_concat, Option.map_some]
    · rename_i hskip
      exact map_eq_of_not_admits (Bool.eq_false_iff.mpr hskip)

/-- **Readings kept with one value are apart.** -/
theorem isChain_kept (l : List α) :
    (kept time value interval l).IsChain
      fun a b => value a = value b → interval ≤ time b - time a := by
  induction l using List.reverseRecOn with
  | nil => exact List.IsChain.nil
  | append_singleton l a ih =>
    rw [kept_concat, step]
    split
    · rename_i hadm
      refine List.isChain_append.mpr ⟨ih, List.IsChain.singleton a, fun p hp b hb hsame => ?_⟩
      obtain rfl := Option.some.inj hb
      rw [Option.mem_def.mp hp, admits] at hadm
      simpa [hsame] using hadm
    · exact ih

end Throttle

end TtLedger
