/-!
# Lists that are counted and looked up

What the elements of a list count for in sum (`total`), and what is found in a list under a key that no two
of its elements share.
-/

namespace SelectiveReject

/-! ## Sums -/

/-- The numbers of all elements, added up. -/
def total {α : Type} (f : α → Nat) : List α → Nat
  | [] => 0
  | x :: rest => f x + total f rest

theorem total_append {α : Type} (f : α → Nat) (l more : List α) :
    total f (l ++ more) = total f l + total f more := by
  induction l with
  | nil => exact (Nat.zero_add _).symm
  | cons x l ih =>
      show f x + total f (l ++ more) = f x + total f l + total f more
      omega

theorem total_eraseIdx {α : Type} (f : α → Nat) {l : List α} {i : Nat} {x : α}
    (h : l[i]? = some x) : f x + total f (l.eraseIdx i) = total f l := by
  induction l generalizing i with
  | nil => simp at h
  | cons y l ih =>
      cases i with
      | zero =>
          rw [List.getElem?_cons_zero, Option.some.injEq] at h
          subst h
          rfl
      | succ i =>
          rw [List.getElem?_cons_succ] at h
          have := ih h
          show f x + (f y + total f (l.eraseIdx i)) = f y + total f l
          omega

theorem le_total_of_mem {α : Type} (f : α → Nat) {l : List α} {x : α} (h : x ∈ l) : f x ≤ total f l := by
  induction h with
  | head l => exact Nat.le_add_right _ _
  | tail y _ ih => exact Nat.le_trans ih (Nat.le_add_left _ _)

/-! ## Elements that stand once -/

/-- Taking out what stands in a list once leaves the rest. -/
theorem filter_ne_of_nodup {α : Type} [DecidableEq α] {before after : List α} {a : α}
    (h : (before ++ a :: after).Nodup) :
    (before ++ a :: after).filter (· ≠ a) = before ++ after := by
  obtain ⟨-, hafter, hapart⟩ := List.nodup_append.mp h
  have hkept : ∀ b ∈ before ++ after, decide (b ≠ a) = true := by
    intro b hb
    rw [decide_eq_true_iff]
    rcases List.mem_append.mp hb with hb | hb
    · exact hapart b hb a List.mem_cons_self
    · rintro rfl
      exact (List.nodup_cons.mp hafter).1 hb
  rw [List.filter_append, List.filter_cons, if_neg (by simp), ← List.filter_append]
  exact List.filter_eq_self.mpr hkept

/-! ## Keys -/

section
variable {α β κ : Type} {key : α → κ} {l : List α}

/-- A partial map that keeps the keys leaves some of them, in their order. -/
theorem filterMap_keys {f : α → Option α} (hkey : ∀ x ∈ l, ∀ y, f x = some y → key y = key x) :
    ((l.filterMap f).map key).Sublist (l.map key) := by
  induction l with
  | nil => exact .slnil
  | cons x l ih =>
      have hrest := ih fun x' hx' => hkey x' (List.mem_cons_of_mem _ hx')
      rw [List.map_cons]
      cases hx : f x with
      | none =>
          rw [List.filterMap_cons_none hx]
          exact hrest.cons _
      | some y =>
          rw [List.filterMap_cons_some hx, List.map_cons, hkey x List.mem_cons_self y hx]
          exact hrest.cons_cons _

variable [DecidableEq κ] {c : κ}

theorem find?_key_cons (x : α) : (x :: l).find? (fun x => key x = c) =
    if key x = c then some x else l.find? fun x => key x = c := by
  by_cases hc : key x = c <;> simp [hc]

/-- No element is found under a key that is not there. -/
theorem find?_key_eq_none (h : c ∉ l.map key) : l.find? (fun x => key x = c) = none := by
  rw [List.find?_eq_none]
  intro x hx hc
  exact h (List.mem_map.mpr ⟨x, hx, of_decide_eq_true hc⟩)

/-- What is found under a key after a partial map is what it makes of what was found before. -/
theorem find?_filterMap_key {f : α → Option α} (hkey : ∀ x ∈ l, ∀ y, f x = some y → key y = key x)
    (hnodup : (l.map key).Nodup) (c : κ) :
    (l.filterMap f).find? (fun x => key x = c) = (l.find? fun x => key x = c).bind f := by
  induction l with
  | nil => rfl
  | cons x l ih =>
      have hkeys : ∀ x' ∈ l, ∀ y, f x' = some y → key y = key x' := fun x' hx' =>
        hkey x' (List.mem_cons_of_mem _ hx')
      obtain ⟨hx, hl⟩ := List.nodup_cons.mp hnodup
      rw [find?_key_cons]
      cases hf : f x with
      | none =>
          rw [List.filterMap_cons_none hf]
          split
          · rename_i hc
            rw [Option.bind_some, hf]
            exact find?_key_eq_none fun hmem => hx (hc ▸ (filterMap_keys hkeys).subset hmem)
          · exact ih hkeys hl
      | some y =>
          rw [List.filterMap_cons_some hf, find?_key_cons, hkey x List.mem_cons_self y hf]
          split
          · rw [Option.bind_some, hf]
          · exact ih hkeys hl

/-- Of what elements come to that is marked with their keys, a key picks what its own element came to. -/
theorem filter_flatMap_key {f : α → List β} {mark : β → κ} (hmark : ∀ x ∈ l, ∀ y ∈ f x, mark y = key x)
    (hnodup : (l.map key).Nodup) (c : κ) :
    (l.flatMap f).filter (fun y => mark y = c) = ((l.find? fun x => key x = c).map f).getD [] := by
  induction l with
  | nil => rfl
  | cons x l ih =>
      have hmarks : ∀ x' ∈ l, ∀ y ∈ f x', mark y = key x' := fun x' hx' =>
        hmark x' (List.mem_cons_of_mem _ hx')
      obtain ⟨hx, hl⟩ := List.nodup_cons.mp hnodup
      rw [List.flatMap_cons, List.filter_append, ih hmarks hl, find?_key_cons]
      split
      · rename_i hc
        have hown : (f x).filter (fun y => mark y = c) = f x :=
          List.filter_eq_self.mpr fun y hy =>
            decide_eq_true ((hmark x List.mem_cons_self y hy).trans hc)
        rw [hown, find?_key_eq_none (hc ▸ hx)]
        exact List.append_nil _
      · rename_i hc
        have hother : (f x).filter (fun y => mark y = c) = [] := by
          rw [List.filter_eq_nil_iff]
          intro y hy hmarked
          exact hc ((hmark x List.mem_cons_self y hy).symm.trans (of_decide_eq_true hmarked))
        rw [hother, List.nil_append]

/-- A partial map under which no element counts for more leaves no more in sum, and less if one element
counts for less or goes. -/
theorem total_filterMap (count : α → Nat) {f : α → Option α}
    (hle : ∀ x ∈ l, ∀ y, f x = some y → count y ≤ count x) :
    total count (l.filterMap f) ≤ total count l ∧
      ∀ x ∈ l, 0 < count x → (∀ y, f x = some y → count y < count x) →
        total count (l.filterMap f) < total count l := by
  induction l with
  | nil => exact ⟨Nat.le_refl 0, nofun⟩
  | cons x l ih =>
      obtain ⟨hall, hone⟩ := ih fun x' hx' => hle x' (List.mem_cons_of_mem _ hx')
      have hx := hle x List.mem_cons_self
      have htotal : total count (x :: l) = count x + total count l := rfl
      rw [htotal]
      cases hf : f x with
      | none =>
          rw [List.filterMap_cons_none hf]
          refine ⟨by omega, fun x' hx' hpos hless => ?_⟩
          rcases List.mem_cons.mp hx' with rfl | hx'
          · omega
          · have := hone x' hx' hpos hless
            omega
      | some y =>
          have hy := hx y hf
          have hrest : total count (y :: l.filterMap f) = count y + total count (l.filterMap f) := rfl
          rw [List.filterMap_cons_some hf, hrest]
          refine ⟨by omega, fun x' hx' hpos hless => ?_⟩
          rcases List.mem_cons.mp hx' with rfl | hx'
          · have := hless y hf
            omega
          · have := hone x' hx' hpos hless
            omega

end

/-! ## Look-ups -/

section
variable {α β : Type} [DecidableEq α] {l : List (α × β)} {k : α}

/-- What is found behind one more pair with a new key. -/
theorem lookup_append_new (hnew : l.lookup k = none) (v : β) (c : α) :
    (l ++ [(k, v)]).lookup c = if c = k then some v else l.lookup c := by
  rw [List.lookup_append]
  by_cases hc : c = k
  · rw [if_pos hc, hc, hnew]
    simp
  · rw [if_neg hc]
    simp [List.lookup_cons, beq_false_of_ne hc]

/-- The keys are still distinct. -/
theorem nodup_append_new (hnodup : (l.map Prod.fst).Nodup) (hnew : l.lookup k = none) (v : β) :
    ((l ++ [(k, v)]).map Prod.fst).Nodup := by
  rw [List.map_append, List.nodup_append]
  refine ⟨hnodup, List.nodup_cons.mpr ⟨List.not_mem_nil, List.nodup_nil⟩, ?_⟩
  rintro a ha b hb rfl
  obtain rfl := List.mem_singleton.mp hb
  obtain ⟨p, hp, rfl⟩ := List.mem_map.mp ha
  simpa using List.lookup_eq_none_iff.mp hnew p hp

end

/-! ## Rows -/

/-- A row of values that are there goes on with a row of more of them. -/
theorem map_range'_append {α : Type} {f : Nat → Option α} {next : Nat} {row more : List α}
    (hfirst : 1 ≤ next) (hrow : (List.range' 1 (next - 1)).map f = row.map some)
    (hmore : ∀ i, i < more.length → f (next + i) = more[i]?) :
    (List.range' 1 (next + more.length - 1)).map f = (row ++ more).map some := by
  have hsplit := @List.range'_append_1 1 (next - 1) more.length
  rw [Nat.add_sub_cancel' hfirst, show next - 1 + more.length = next + more.length - 1 by omega] at hsplit
  rw [← hsplit, List.map_append, List.map_append, hrow]
  congr 1
  refine List.ext_getElem (by simp) fun i hi hi' => ?_
  rw [List.length_map] at hi'
  have hvalue := hmore i hi'
  rw [List.getElem?_eq_getElem hi'] at hvalue
  simp only [List.getElem_map, List.getElem_range', Nat.one_mul]
  exact hvalue

end SelectiveReject
