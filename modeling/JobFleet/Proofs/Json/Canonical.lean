/-
  JobFleet.Proofs.Json.Canonical: values whose members stand in order.

  A value that a program holds is not a text: its objects are maps, and the members of a map stand
  in the order of their names, each name once.  `canonical` makes such a value of any tree, and
  leaves it as it is if it is one already.  It makes no whole number larger and nests nothing
  deeper.

  Main results:
    * `ordered_canonical`, `canonical_of_ordered` — the members stand in order just where
      `canonical` changes nothing.
    * `wellFormed_canonical` — whole numbers still fit.
    * `depth_canonical_le` — nothing is nested deeper.
-/
import JobFleet.Json.Value
import JobFleet.Proofs.Text.Tokens

namespace JobFleet.Json

open JobFleet.Text

/-! ## Properties of trees -/

mutual

/-- Whole numbers fit a signed or an unsigned 64-bit word. -/
def WellFormed : Json → Prop
  | .int n => -(wordSize 63 : Int) ≤ n ∧ n < (wordSize 64 : Int)
  | .arr items => WellFormedItems items
  | .obj members => WellFormedMembers members
  | _ => True

/-- The items of an array are well formed. -/
def WellFormedItems : List Json → Prop
  | [] => True
  | item :: rest => item.WellFormed ∧ WellFormedItems rest

/-- The values of members are well formed. -/
def WellFormedMembers : List (String × Json) → Prop
  | [] => True
  | (_, value) :: rest => value.WellFormed ∧ WellFormedMembers rest

end

mutual

/-- Members stand in the order of their names, each name once. -/
def Ordered : Json → Prop
  | .arr items => OrderedItems items
  | .obj members => (members.map (·.1)).Pairwise (· < ·) ∧ OrderedMembers members
  | _ => True

/-- They do in the items of an array. -/
def OrderedItems : List Json → Prop
  | [] => True
  | item :: rest => item.Ordered ∧ OrderedItems rest

/-- They do in the values of members. -/
def OrderedMembers : List (String × Json) → Prop
  | [] => True
  | (_, value) :: rest => value.Ordered ∧ OrderedMembers rest

end

mutual

/-- How deep arrays and objects are nested. -/
def depth : Json → Nat
  | .arr items => depthOfItems items + 1
  | .obj members => depthOfMembers members + 1
  | _ => 0

/-- How deep they are in the items of an array. -/
def depthOfItems : List Json → Nat
  | [] => 0
  | item :: rest => max item.depth (depthOfItems rest)

/-- How deep they are in the values of members. -/
def depthOfMembers : List (String × Json) → Nat
  | [] => 0
  | (_, value) :: rest => max value.depth (depthOfMembers rest)

end

/-- Items are well formed if each of them is. -/
theorem wellFormedItems_iff {items : List Json} : WellFormedItems items ↔
    ∀ j ∈ items, j.WellFormed := by
  induction items with
  | nil => simp [WellFormedItems]
  | cons item rest ih => simp [WellFormedItems, ih]

/-- Members are well formed if each value is. -/
theorem wellFormedMembers_iff {members : List (String × Json)} :
    WellFormedMembers members ↔ ∀ m ∈ members, m.2.WellFormed := by
  induction members with
  | nil => simp [WellFormedMembers]
  | cons m rest ih => simp [WellFormedMembers, ih]

/-- A record is well formed if its fields are. -/
theorem wellFormed_obj {members : List (String × Json)} (h : ∀ m ∈ members, m.2.WellFormed) :
    (Json.obj members).WellFormed := wellFormedMembers_iff.mpr h

/-- Members stand in order in items if they do in each item. -/
theorem orderedItems_iff {items : List Json} : OrderedItems items ↔ ∀ j ∈ items, j.Ordered := by
  induction items with
  | nil => simp [OrderedItems]
  | cons item rest ih => simp [OrderedItems, ih]

theorem orderedMembers_iff {members : List (String × Json)} : OrderedMembers members ↔
    ∀ m ∈ members, m.2.Ordered := by
  induction members with
  | nil => simp [OrderedMembers]
  | cons m rest ih => simp [OrderedMembers, ih]

/-- Items are nested as deep as the deepest of them. -/
theorem depthOfItems_le_iff {items : List Json} {n : Nat} : depthOfItems items ≤ n ↔
    ∀ j ∈ items, j.depth ≤ n := by
  induction items with
  | nil => simp [depthOfItems]
  | cons item rest ih => rw [depthOfItems, Nat.max_le, ih, List.forall_mem_cons]

theorem depthOfMembers_le_iff {members : List (String × Json)} {n : Nat} :
    depthOfMembers members ≤ n ↔ ∀ m ∈ members, m.2.depth ≤ n := by
  induction members with
  | nil => simp [depthOfMembers]
  | cons m rest ih => rw [depthOfMembers, Nat.max_le, ih, List.forall_mem_cons]

/-- Induction over a value: a property of all items holds of the array, and one of all members of
    the object. -/
theorem induct {p : Json → Prop}
    (hleaf : ∀ j, (∀ items, j ≠ .arr items) → (∀ members, j ≠ .obj members) → p j)
    (harr : ∀ items, (∀ j ∈ items, p j) → p (.arr items))
    (hobj : ∀ members : List (String × Json), (∀ m ∈ members, p m.2) → p (.obj members)) : ∀ j, p j
  | .arr items => harr items (fun j _ => induct hleaf harr hobj j)
  | .obj members => hobj members (fun m _ => induct hleaf harr hobj m.2)
  | .null | .bool _ | .int _ | .float _ | .str _ => hleaf _ (by simp) (by simp)
termination_by j => sizeOf j
decreasing_by
  · have hlt := List.sizeOf_lt_of_mem ‹_›
    simp
    omega
  · have hlt := List.sizeOf_lt_of_mem ‹_›
    have hpair : sizeOf m = 1 + sizeOf m.1 + sizeOf m.2 := by
      cases m
      rfl
    simp
    omega

/-! ## Adding a member -/

/-- A member of the object after it is the one added or one from before. -/
theorem mem_insertMember {name : String} {j : Json} {members : List (String × Json)}
    {m : String × Json} (h : m ∈ insertMember name j members) : m = (name, j) ∨ m ∈ members := by
  induction members with
  | nil => exact .inl (List.mem_singleton.mp h)
  | cons first rest ih =>
    unfold insertMember at h
    split at h
    · exact (List.mem_cons.mp h).imp_right (List.mem_cons_of_mem _)
    · split at h
      · exact List.mem_cons.mp h
      · obtain hfirst | hrest := List.mem_cons.mp h
        · exact .inr (hfirst ▸ List.mem_cons_self)
        · exact (ih hrest).imp_right (List.mem_cons_of_mem _)

/-- The names stay in order. -/
theorem pairwise_insertMember (name : String) (j : Json) {members : List (String × Json)}
    (h : (members.map (·.1)).Pairwise (· < ·)) :
    ((insertMember name j members).map (·.1)).Pairwise (· < ·) := by
  rw [List.pairwise_map] at h ⊢
  induction members with
  | nil => exact List.pairwise_singleton _ _
  | cons first rest ih =>
    obtain ⟨hfirst, hrest⟩ := List.pairwise_cons.mp h
    unfold insertMember
    split
    · next hname =>
      subst hname
      exact List.pairwise_cons.mpr ⟨hfirst, hrest⟩
    · next hne =>
      split
      · next hlt =>
        refine List.pairwise_cons.mpr ⟨List.forall_mem_cons.mpr ⟨hlt, fun m hm => ?_⟩, h⟩
        exact String.lt_trans hlt (hfirst m hm)
      · next hnot =>
        refine List.pairwise_cons.mpr ⟨fun m hm => ?_, ih hrest⟩
        obtain rfl | hm := mem_insertMember hm
        · exact lt_of_not_lt hnot (Ne.symm hne)
        · exact hfirst m hm

/-- A name that comes after all others goes to the end. -/
theorem insertMember_of_last {name : String} {members : List (String × Json)}
    (h : ∀ m ∈ members, m.1 < name) (j : Json) :
    insertMember name j members = members ++ [(name, j)] := by
  induction members with
  | nil => rfl
  | cons first rest ih =>
    obtain ⟨hfirst, hrest⟩ := List.forall_mem_cons.mp h
    have hne : first.1 ≠ name := fun heq => String.lt_irrefl _ (heq ▸ hfirst)
    have hnot : ¬ name < first.1 := fun hlt => String.lt_irrefl _ (String.lt_trans hlt hfirst)
    unfold insertMember
    rw [if_neg hne, if_neg hnot, ih hrest]
    rfl

/-! ## Canonical values -/

/-- A leaf is not nested. -/
theorem depth_leaf {j : Json} (harr : ∀ items, j ≠ .arr items)
    (hobj : ∀ members, j ≠ .obj members) : j.depth = 0 := by
  cases j with
  | arr items => exact absurd rfl (harr items)
  | obj members => exact absurd rfl (hobj members)
  | null | bool _ | int _ | float _ | str _ => rfl

theorem canonical_leaf {j : Json} (harr : ∀ items, j ≠ .arr items)
    (hobj : ∀ members, j ≠ .obj members) :
    j.canonical = j := by
  cases j with
  | arr items => exact absurd rfl (harr items)
  | obj members => exact absurd rfl (hobj members)
  | null | bool _ | int _ | float _ | str _ => rfl

/-- Items are made canonical one by one. -/
theorem canonicalItems_eq (items : List Json) : canonicalItems items = items.map canonical := by
  induction items with
  | nil => rfl
  | cons item rest ih => rw [canonicalItems, ih, List.map_cons]

/-- What adding one canonical member after the other keeps holds of all of them. -/
theorem canonicalMembers_induct {p : List (String × Json) → Prop}
    {members before : List (String × Json)} (h : p before)
    (hstep : ∀ m ∈ members, ∀ before, p before → p (insertMember m.1 m.2.canonical before)) :
    p (canonicalMembers before members) := by
  induction members generalizing before with
  | nil => exact h
  | cons m rest ih =>
    rw [canonicalMembers]
    exact ih (hstep m List.mem_cons_self before h) (fun m' hm =>
      hstep m' (List.mem_cons_of_mem _ hm))

/-- The members are in order. -/
theorem ordered_canonical (j : Json) : j.canonical.Ordered := by
  induction j using induct with
  | hleaf j harr hobj =>
    rw [canonical_leaf harr hobj]
    cases j with
    | arr items => exact absurd rfl (harr items)
    | obj members => exact absurd rfl (hobj members)
    | null | bool _ | int _ | float _ | str _ => trivial
  | harr items ih =>
    rw [canonical, canonicalItems_eq]
    exact orderedItems_iff.mpr (List.forall_mem_map.mpr ih)
  | hobj members ih =>
    rw [canonical]
    refine canonicalMembers_induct (p := fun before => (Json.obj before).Ordered)
      ⟨List.Pairwise.nil, trivial⟩ ?_
    intro m hm before hbefore
    refine ⟨pairwise_insertMember _ _ hbefore.1, orderedMembers_iff.mpr fun m' hm' => ?_⟩
    obtain rfl | hm' := mem_insertMember hm'
    · exact ih m hm
    · exact orderedMembers_iff.mp hbefore.2 m' hm'

/-- Members that are in order and come after all others are added at the end. -/
theorem canonicalMembers_of_ordered {before members : List (String × Json)}
    (horder : ((before ++ members).map (·.1)).Pairwise (· < ·))
    (hvalues : ∀ m ∈ members, m.2.canonical = m.2) :
    canonicalMembers before members = before ++ members := by
  induction members generalizing before with
  | nil => rw [canonicalMembers, List.append_nil]
  | cons m rest ih =>
    obtain ⟨hvalue, hrest⟩ := List.forall_mem_cons.mp hvalues
    have hlast : ∀ m' ∈ before, m'.1 < m.1 := by
      rw [List.pairwise_map, List.pairwise_append] at horder
      exact fun m' hm' => horder.2.2 m' hm' m List.mem_cons_self
    have happend : before ++ [(m.1, m.2)] ++ rest = before ++ m :: rest := by simp
    rw [canonicalMembers, hvalue, insertMember_of_last hlast, ih (by rwa [happend]) hrest, happend]

/-- A value whose members are in order is left as it is. -/
theorem canonical_of_ordered {j : Json} (h : j.Ordered) : j.canonical = j := by
  induction j using induct with
  | hleaf j harr hobj => exact canonical_leaf harr hobj
  | harr items ih =>
    have hitems := orderedItems_iff.mp h
    rw [canonical, canonicalItems_eq, List.map_congr_left (fun j hj => ih j hj (hitems j hj)),
      List.map_id']
  | hobj members ih =>
    obtain ⟨horder, hmembers⟩ := h
    have hvalues : ∀ m ∈ members, m.2.canonical = m.2 :=
      fun m hm => ih m hm (orderedMembers_iff.mp hmembers m hm)
    have hall : canonicalMembers [] members = [] ++ members :=
      canonicalMembers_of_ordered horder hvalues
    rw [canonical, hall, List.nil_append]

/-- Whole numbers still fit. -/
theorem wellFormed_canonical {j : Json} (h : j.WellFormed) : j.canonical.WellFormed := by
  induction j using induct with
  | hleaf j harr hobj => rwa [canonical_leaf harr hobj]
  | harr items ih =>
    rw [canonical, canonicalItems_eq]
    exact wellFormedItems_iff.mpr (List.forall_mem_map.mpr fun j hj =>
      ih j hj (wellFormedItems_iff.mp h j hj))
  | hobj members ih =>
    rw [canonical]
    refine canonicalMembers_induct (p := fun before => (Json.obj before).WellFormed) trivial ?_
    intro m hm before hbefore
    refine wellFormedMembers_iff.mpr fun m' hm' => ?_
    obtain rfl | hm' := mem_insertMember hm'
    · exact ih m hm (wellFormedMembers_iff.mp h m hm)
    · exact wellFormedMembers_iff.mp hbefore m' hm'

/-- Nothing is nested deeper. -/
theorem depth_canonical_le (j : Json) : j.canonical.depth ≤ j.depth := by
  induction j using induct with
  | hleaf j harr hobj => rw [canonical_leaf harr hobj]
  | harr items ih =>
    rw [canonical, canonicalItems_eq]
    refine Nat.succ_le_succ (depthOfItems_le_iff.mpr (List.forall_mem_map.mpr fun j hj => ?_))
    exact Nat.le_trans (ih j hj) (depthOfItems_le_iff.mp (Nat.le_refl _) j hj)
  | hobj members ih =>
    rw [canonical]
    refine Nat.succ_le_succ (depthOfMembers_le_iff.mpr ?_)
    refine canonicalMembers_induct (p := fun before => ∀ m ∈ before, m.2.depth ≤
      depthOfMembers members) nofun ?_
    intro m hm before hbefore m' hm'
    obtain rfl | hm' := mem_insertMember hm'
    · exact Nat.le_trans (ih m hm) (depthOfMembers_le_iff.mp (Nat.le_refl _) m hm)
    · exact hbefore m' hm'

/-- Nothing but `null` becomes `null`. -/
theorem canonical_ne_null {j : Json} (h : j ≠ .null) : j.canonical ≠ .null := by
  cases j with
  | null => exact absurd rfl h
  | arr items => exact Json.noConfusion
  | obj members => exact Json.noConfusion
  | bool _ | int _ | float _ | str _ => exact h

end JobFleet.Json
