import SelectiveReject.Parameters

/-!
# Rings of slots

A ring has a fixed, positive number of slots, and packet `seq` belongs to slot `seq % size`.  The
number of slots is positive by type, so every number has a slot.

Setting the slot of `i` changes what `j` finds exactly when both have the same slot:

```
get_set : (r.set i a).get j = if i % r.size = j % r.size then a else r.get j
```
-/

namespace SelectiveReject

structure SlotRing (α : Type) where
  slots : Array α
  nonempty : 0 < slots.size
  deriving DecidableEq

namespace SlotRing

variable {α : Type}

/-- A ring with the same value in every slot. -/
def filled (size : Nat) (h : 0 < size) (a : α) : SlotRing α :=
  ⟨Array.replicate size a, by simpa using h⟩

/-- A ring for a window of `size` packets, with the same value in every slot. -/
def forWindow (size : Nat) (a : α) : Except Error (SlotRing α) :=
  if h : 0 < size ∧ size ≤ Parameters.maxWindow then .ok (filled size h.1 a)
  else .error (.invalidWindow size)

def size (r : SlotRing α) : Nat := r.slots.size

/-- The slot that a number belongs to. -/
def index (r : SlotRing α) (seq : Nat) : Fin r.slots.size :=
  ⟨seq % r.slots.size, Nat.mod_lt _ r.nonempty⟩

def get (r : SlotRing α) (seq : Nat) : α := r.slots[r.index seq]

def set (r : SlotRing α) (seq : Nat) (a : α) : SlotRing α :=
  ⟨r.slots.set (r.index seq) a (r.index seq).isLt, by simpa using r.nonempty⟩

@[simp] theorem size_filled (size : Nat) (h : 0 < size) (a : α) :
    (filled size h a).size = size := by
  simp [filled, SlotRing.size]

@[simp] theorem size_set (r : SlotRing α) (seq : Nat) (a : α) : (r.set seq a).size = r.size := by
  simp [set, SlotRing.size]

@[simp] theorem get_filled (size : Nat) (h : 0 < size) (a : α) (seq : Nat) :
    (filled size h a).get seq = a := by
  simp [filled, get]

theorem get_set (r : SlotRing α) (i j : Nat) (a : α) :
    (r.set i a).get j = if i % r.size = j % r.size then a else r.get j := by
  simp only [set, get, index, Fin.getElem_fin, Array.size_set, Array.getElem_set, SlotRing.size]
  rfl

@[simp] theorem get_set_self (r : SlotRing α) (i : Nat) (a : α) : (r.set i a).get i = a := by
  rw [get_set, if_pos rfl]

/-- Numbers less than a ring apart have slots of their own. -/
theorem eq_of_mod_eq {m i j : Nat} (h : i % m = j % m) (hij : i < j + m) (hji : j < i + m) :
    i = j := by
  rcases Nat.le_total i j with hle | hle
  · have := Nat.sub_mod_eq_zero_of_mod_eq h.symm
    rw [Nat.mod_eq_of_lt (by omega)] at this
    omega
  · have := Nat.sub_mod_eq_zero_of_mod_eq h
    rw [Nat.mod_eq_of_lt (by omega)] at this
    omega

/-- Among numbers in a row, as many as there are slots, each slot has one. -/
theorem exists_index_eq (r : SlotRing α) (lo : Nat) (slot : Fin r.slots.size) :
    ∃ seq, lo ≤ seq ∧ seq < lo + r.size ∧ r.index seq = slot := by
  have hlo : r.slots.size * (lo / r.slots.size) + lo % r.slots.size = lo := Nat.div_add_mod _ _
  have hmod : lo % r.slots.size < r.slots.size := Nat.mod_lt _ r.nonempty
  have hslot := slot.isLt
  have hindex : ∀ turn, r.index (r.slots.size * turn + slot) = slot := fun turn =>
    Fin.ext ((Nat.mul_add_mod _ _ _).trans (Nat.mod_eq_of_lt hslot))
  unfold SlotRing.size
  by_cases hle : lo % r.slots.size ≤ slot
  · exact ⟨_, by omega, by omega, hindex (lo / r.slots.size)⟩
  · refine ⟨_, ?_, ?_, hindex (lo / r.slots.size + 1)⟩ <;> rw [Nat.mul_succ] <;> omega

theorem get_set_near {r : SlotRing α} {i j : Nat} (a : α) (hne : i ≠ j) (hij : i < j + r.size)
    (hji : j < i + r.size) : (r.set i a).get j = r.get j := by
  rw [get_set, if_neg fun h => hne (eq_of_mod_eq h hij hji)]

theorem get_congr (r : SlotRing α) {i j : Nat} (h : i % r.size = j % r.size) : r.get i = r.get j := by
  unfold SlotRing.size at h
  simp only [get, index, h]

/-- A slot that is changed in place changes for every number that shares it. -/
theorem get_set_map (r : SlotRing α) (f : α → α) (i j : Nat) :
    (r.set i (f (r.get i))).get j = if i % r.size = j % r.size then f (r.get j) else r.get j := by
  rw [get_set]
  split
  · rename_i h
    rw [r.get_congr h]
  · rfl

theorem get_add_size (r : SlotRing α) (seq : Nat) : r.get (seq + r.size) = r.get seq := by
  simp only [get, index, SlotRing.size, Nat.add_mod_right]

/-- Numbers in a row, as many as there are slots, find every slot once. -/
theorem countP_row (r : SlotRing α) (p : α → Bool) (lo : Nat) :
    (List.range' lo r.size).countP (fun seq => p (r.get seq)) = r.slots.countP p := by
  induction lo with
  | zero =>
      have hmap : (List.range' 0 r.size).countP (fun seq => p (r.get seq)) =
          ((List.range' 0 r.size).map r.get).countP p := List.countP_map.symm
      rw [hmap, ← Array.countP_toList]
      congr 1
      refine List.ext_getElem (by simp [SlotRing.size]) fun i hi hi' => ?_
      rw [Array.length_toList] at hi'
      simp [get, index, Nat.mod_eq_of_lt hi']
  | succ lo ih =>
      have hround := r.get_add_size lo
      obtain ⟨m, hm⟩ : ∃ m, r.size = m + 1 := Nat.exists_eq_succ_of_ne_zero (Nat.ne_of_gt r.nonempty)
      rw [hm] at ih hround ⊢
      rw [List.range'_succ, List.countP_cons] at ih
      -- the number that comes in behind finds the slot of the one that has gone
      rw [List.range'_concat, List.countP_append, List.countP_singleton, Nat.one_mul,
        show lo + 1 + m = lo + (m + 1) by omega, hround]
      exact ih

/-- Two rings with the same number of slots that agree on every number are equal. -/
theorem ext_get {r s : SlotRing α} (hsize : r.size = s.size) (h : ∀ seq, r.get seq = s.get seq) :
    r = s := by
  obtain ⟨a, ha⟩ := r
  obtain ⟨b, hb⟩ := s
  simp only [SlotRing.size] at hsize
  have : a = b := by
    apply Array.ext hsize
    intro i hi hj
    have := h i
    simpa [get, index, Nat.mod_eq_of_lt hi, Nat.mod_eq_of_lt hj] using this
  subst this
  rfl

/-- Slots of different numbers may be set in any order. -/
theorem set_comm {r : SlotRing α} {i j : Nat} (hne : i % r.size ≠ j % r.size) (a b : α) :
    (r.set i a).set j b = (r.set j b).set i a := by
  refine ext_get (by simp only [size_set]) fun k => ?_
  simp only [get_set, size_set]
  by_cases hi : i % r.size = k % r.size
  · have hj : j % r.size ≠ k % r.size := fun hj => hne (hi.trans hj.symm)
    rw [if_pos hi, if_pos hi, if_neg hj]
  · rw [if_neg hi, if_neg hi]

end SlotRing

end SelectiveReject
