/-
  Ring buffers.

  A ring buffer is an array of `cap` slots, the `count` used ones starting at
  `head` and wrapping around; the next free one is `(head + count) % cap`.
  `contents` is the queue it stands for; appending writes the free slot,
  removing moves `head`.
-/
import Mathlib.Data.List.Range
import Mathlib.Data.Nat.ModEq
import Mathlib.Logic.Function.Basic

namespace Lib

namespace RingBuffer
variable {β : Type*} {slot slot' : ℕ → β} {cap head count : ℕ}

/-- The elements of the queue, oldest first. -/
def contents (slot : ℕ → β) (cap head count : ℕ) : List β :=
  (List.range count).map fun i => slot ((head + i) % cap)

@[simp] theorem contents_length : (contents slot cap head count).length = count := by
  simp [contents]

/-- Slots fewer than `cap` apart are different. -/
theorem index_inj {i j : ℕ} (hi : i < cap) (hj : j < cap)
    (h : (head + i) % cap = (head + j) % cap) : i = j := by
  have hij : i % cap = j % cap := Nat.ModEq.add_left_cancel' head h
  rwa [Nat.mod_eq_of_lt hi, Nat.mod_eq_of_lt hj] at hij

/-- **Appending**: writing the free slot. -/
theorem contents_push (hc : count < cap) {v : β} (hv : slot' ((head + count) % cap) = v)
    (hs : ∀ i < cap, i ≠ (head + count) % cap → slot' i = slot i) :
    contents slot' cap head (count + 1) = contents slot cap head count ++ [v] := by
  have hpos : 0 < cap := by omega
  unfold contents
  rw [List.range_succ, List.map_append, List.map_singleton, hv]
  congr 1
  refine List.map_congr_left fun i hi => hs _ (Nat.mod_lt _ hpos) fun he => ?_
  have hi := List.mem_range.1 hi
  have := index_inj (by omega) hc he
  omega

/-- **Removing**: the element at `head`. -/
theorem contents_pop (hh : head < cap) (hc : 0 < count) :
    contents slot cap head count = slot head :: contents slot cap ((head + 1) % cap) (count - 1) := by
  obtain ⟨n, rfl⟩ : ∃ n, count = n + 1 := ⟨count - 1, by omega⟩
  unfold contents
  rw [List.range_succ_eq_map, List.map_cons, List.map_map, Nat.add_zero, Nat.mod_eq_of_lt hh,
    Nat.add_sub_cancel]
  congr 1
  refine List.map_congr_left fun i _ => ?_
  simp only [Function.comp_apply, Nat.mod_add_mod]
  congr 2
  omega

theorem tail_push : ((head + count) % cap + 1) % cap = (head + (count + 1)) % cap := by
  rw [Nat.mod_add_mod, Nat.add_assoc]

theorem tail_pop (hc : 0 < count) :
    ((head + 1) % cap + (count - 1)) % cap = (head + count) % cap := by
  rw [Nat.mod_add_mod]
  congr 1
  omega

end RingBuffer

end Lib
