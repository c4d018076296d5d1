/-
  Association lists.

  A list of pairs of a key and a value is a sequence of assignments.
  `l.lookup k` is the first value of `k`, and `latest l k` the last: that of the
  map in which each assignment replaces the one before.

  A table of `n` places that takes each assignment as it comes keeps `l.take n`.
  If no key repeats there and there are at most `n` keys in all, it has a place
  for each key (`mem_keys_take`), with its first value (`lookup_take`).
-/
import Mathlib.Data.Finset.Card
import Mathlib.Data.List.AList

namespace Lib

namespace Assoc
variable {κ ν : Type*} [DecidableEq κ] {l : List (κ × ν)} {k : κ} {n : ℕ}

/-- The keys of a list of pairs, in order. -/
def keys (l : List (κ × ν)) : List κ := l.map Prod.fst

/-- The last value of a key. -/
def latest (l : List (κ × ν)) (k : κ) : Option ν := l.reverse.lookup k

theorem lookup_eq_none : l.lookup k = none ↔ k ∉ keys l := by
  rw [List.lookup_eq_none_iff, keys, List.mem_map, not_exists]
  constructor
  · rintro h p ⟨hp, rfl⟩
    have hne := h p hp
    simp at hne
  · intro h p hp
    exact bne_iff_ne.2 fun he => h p ⟨hp, he.symm⟩

theorem latest_eq_none : latest l k = none ↔ k ∉ keys l := by
  rw [latest, lookup_eq_none, keys, List.map_reverse, List.mem_reverse]
  exact Iff.rfl

theorem latest_concat (l : List (κ × ν)) (p : κ × ν) :
    latest (l ++ [p]) k = if k = p.1 then some p.2 else latest l k := by
  rw [latest, List.reverse_append, List.reverse_singleton, List.singleton_append,
    List.lookup_cons]
  split_ifs with hk
  · rw [beq_iff_eq.2 hk]
  · rw [beq_eq_false_iff_ne.2 hk]
    rfl

/-- The last value is that of an assignment with no later one of its key. -/
theorem latest_eq_some_iff {v : ν} : latest l k = some v ↔
    ∃ i : ℕ, l[i]? = some (k, v) ∧ ∀ j, i < j → ∀ p, l[j]? = some p → p.1 ≠ k := by
  induction l using List.reverseRecOn with
  | nil => simp [latest]
  | append_singleton l p ih =>
    rw [latest_concat]
    constructor
    · split_ifs with hk
      · rintro ⟨⟩
        refine ⟨l.length, by simp [hk], fun j hj q hq => ?_⟩
        rw [List.getElem?_eq_none (by simp; omega)] at hq
        cases hq
      · intro h
        obtain ⟨i, hi, hlast⟩ := ih.1 h
        obtain ⟨hlt, -⟩ := List.getElem?_eq_some_iff.1 hi
        refine ⟨i, by rwa [List.getElem?_append_left hlt], fun j hj q hq => ?_⟩
        rcases Nat.lt_trichotomy j l.length with hj' | rfl | hj'
        · rw [List.getElem?_append_left hj'] at hq
          exact hlast j hj q hq
        · rw [List.getElem?_concat_length] at hq
          cases hq
          exact fun hp => hk hp.symm
        · rw [List.getElem?_eq_none (by simp; omega)] at hq
          cases hq
    · rintro ⟨i, hi, hlast⟩
      rcases Nat.lt_trichotomy i l.length with hlt | rfl | hgt
      · have hp := hlast l.length hlt p List.getElem?_concat_length
        rw [if_neg hp.symm, ih]
        rw [List.getElem?_append_left hlt] at hi
        refine ⟨i, hi, fun j hj q hq => hlast j hj q ?_⟩
        obtain ⟨hj', -⟩ := List.getElem?_eq_some_iff.1 hq
        rwa [List.getElem?_append_left hj']
      · rw [List.getElem?_concat_length] at hi
        cases hi
        rw [if_pos rfl]
      · rw [List.getElem?_eq_none (by simp; omega)] at hi
        cases hi

/-- The map after assignments to an empty one. -/
theorem lookup_foldl_insert (l : List (κ × ν)) (k : κ) :
    (l.foldl (fun m p => m.insert p.1 p.2) (∅ : AList fun _ : κ => ν)).lookup k = latest l k := by
  induction l using List.reverseRecOn with
  | nil => rfl
  | append_singleton l p ih =>
    rw [List.foldl_append, List.foldl_cons, List.foldl_nil, latest_concat]
    split_ifs with hk
    · rw [hk, AList.lookup_insert]
    · rw [AList.lookup_insert_ne hk, ih]

/-- **A table with room for all keys** has each of them. -/
theorem mem_keys_take (hnodup : (keys (l.take n)).Nodup) (hcard : (keys l).toFinset.card ≤ n)
    (hk : k ∈ keys l) : k ∈ keys (l.take n) := by
  rcases Nat.lt_or_ge l.length n with hlen | hlen
  · rw [List.take_of_length_le (Nat.le_of_lt hlen)]
    exact hk
  have hsub : (keys (l.take n)).toFinset ⊆ (keys l).toFinset := by
    intro j hj
    rw [List.mem_toFinset] at hj ⊢
    exact ((List.take_sublist n l).map Prod.fst).subset hj
  have htake : (keys (l.take n)).toFinset.card = n := by
    rw [List.toFinset_card_of_nodup hnodup, keys, List.length_map, List.length_take_of_le hlen]
  have heq := Finset.eq_of_subset_of_card_le hsub (hcard.trans htake.ge)
  rw [← List.mem_toFinset, heq, List.mem_toFinset]
  exact hk

/-- Then it has their first values. -/
theorem lookup_take (hnodup : (keys (l.take n)).Nodup) (hcard : (keys l).toFinset.card ≤ n)
    (k : κ) : (l.take n).lookup k = l.lookup k := by
  by_cases hk : k ∈ keys l
  · have hsome : (l.take n).lookup k ≠ none := fun h =>
      lookup_eq_none.1 h (mem_keys_take hnodup hcard hk)
    obtain ⟨v, hv⟩ := Option.ne_none_iff_exists'.1 hsome
    have happend : l.lookup k = ((l.take n).lookup k).or ((l.drop n).lookup k) := by
      rw [← List.lookup_append, List.take_append_drop]
    rw [happend, hv, Option.some_or]
  · have hnone : k ∉ keys (l.take n) := fun h =>
      hk (((List.take_sublist n l).map Prod.fst).subset h)
    rw [lookup_eq_none.2 hk, lookup_eq_none.2 hnone]

end Assoc

end Lib
