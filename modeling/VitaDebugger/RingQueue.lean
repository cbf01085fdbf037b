import Mathlib.Data.List.Range
import Mathlib.Logic.Function.Basic

/-! A bounded queue in a circular array, with head, tail and count stored apart. The
view as a list is what its users reason about: a push appends, a pop removes the
first element. -/

namespace VitaDebugger.RingQueue
open List Nat

structure Ring (α : Type) (n : ℕ) where
  slots : Fin n → α
  head : ℕ
  tail : ℕ
  count : ℕ
  head_lt : head < n
  tail_eq : tail = (head + count) % n
  count_le : count ≤ n

namespace Ring
variable {α : Type} {n : ℕ}

theorem pos (ring : Ring α n) : 0 < n := zero_lt_of_lt ring.head_lt

theorem tail_lt (ring : Ring α n) : ring.tail < n := by
  rw [ring.tail_eq]
  exact mod_lt _ ring.pos

/-- The element `k` places behind the head. -/
def get (ring : Ring α n) (k : ℕ) : α := ring.slots ⟨(ring.head + k) % n, mod_lt _ ring.pos⟩

def toList (ring : Ring α n) : List α := (List.range ring.count).map ring.get

def front? (ring : Ring α n) : Option α := if ring.count = 0 then none else some (ring.get 0)

def empty (fill : α) (positive : 0 < n) : Ring α n where
  slots _ := fill
  head := 0
  tail := 0
  count := 0
  head_lt := positive
  tail_eq := (zero_mod n).symm
  count_le := zero_le n

def push (ring : Ring α n) (value : α) (free : ring.count < n) : Ring α n where
  slots := Function.update ring.slots ⟨ring.tail, ring.tail_lt⟩ value
  head := ring.head
  tail := (ring.tail + 1) % n
  count := ring.count + 1
  head_lt := ring.head_lt
  tail_eq := by rw [ring.tail_eq, Nat.mod_add_mod, Nat.add_assoc]
  count_le := free

/-- The slot of a removed element keeps its old value. -/
def pop (ring : Ring α n) (filled : 0 < ring.count) : Ring α n where
  slots := ring.slots
  head := (ring.head + 1) % n
  tail := ring.tail
  count := ring.count - 1
  head_lt := mod_lt _ ring.pos
  tail_eq := by rw [mod_add_mod, ring.tail_eq]; congr 1; omega
  count_le := by have := ring.count_le; omega

def clear (ring : Ring α n) : Ring α n where
  slots := ring.slots
  head := 0
  tail := 0
  count := 0
  head_lt := ring.pos
  tail_eq := (zero_mod n).symm
  count_le := zero_le n

@[simp] theorem length_toList (ring : Ring α n) : ring.toList.length = ring.count := by
  simp [toList]

theorem toList_eq_nil {ring : Ring α n} : ring.toList = [] ↔ ring.count = 0 := by
  rw [← length_toList, length_eq_zero_iff]

theorem index_ne {hd k c : ℕ} (hb : k < c) (hf : c < n) : (hd + k) % n ≠ (hd + c) % n := by
  intro hs
  have ha : (hd + c - (hd + k)) % n = 0 := sub_mod_eq_zero_of_mod_eq hs.symm
  rw [mod_eq_of_lt (by omega)] at ha
  omega

@[simp] theorem toList_push (r : Ring α n) (value : α) (hf : r.count < n) :
    (r.push value hf).toList = r.toList ++ [value] := by
  have hl : (r.push value hf).get r.count = value := by
    simp [get, push, ← r.tail_eq]
  have he {k : ℕ} (hb : k < r.count) : (r.push value hf).get k = r.get k := by
    have ha : (r.head + k) % n ≠ (r.head + r.count) % n := index_ne hb hf
    rw [← r.tail_eq] at ha
    simp [get, push, ha]
  change (List.range (r.count + 1)).map _ = _
  rw [range_succ, map_append, map_singleton, hl]
  congr 1
  exact map_congr_left fun k mem => he (mem_range.mp mem)

@[simp] theorem toList_pop (r : Ring α n) (hf : 0 < r.count) :
    (r.pop hf).toList = r.toList.tail := by
  have hs (k : ℕ) : (r.pop hf).get k = r.get (k + 1) := by
    have hi : r.head + 1 + k = r.head + (k + 1) := by omega
    simp only [get, pop, mod_add_mod, hi]
  obtain ⟨rest, hc⟩ : ∃ rest, r.count = rest + 1 := ⟨r.count - 1, by omega⟩
  have hsi : (r.pop hf).count = rest := by simp [pop, hc]
  simp only [toList, hsi, hc, range_succ_eq_map, map_cons, map_map, tail_cons]
  exact map_congr_left fun k _ => hs k

theorem toList_eq_cons (r : Ring α n) (hf : 0 < r.count) : r.toList = r.get 0 :: r.toList.tail := by
  obtain ⟨rest, hc⟩ : ∃ rest, r.count = rest + 1 := ⟨r.count - 1, by omega⟩
  simp [toList, hc, range_succ_eq_map]

theorem front?_eq (ring : Ring α n) : ring.front? = ring.toList.head? := by
  unfold front? toList
  cases ring.count with
  | zero => rfl
  | succ rest => simp [range_succ_eq_map]

end Ring
end VitaDebugger.RingQueue
