/-
  JobFleet.Proofs.Form.Slots: what stands in the slots of a record.

  The slots of a record hold children of its tree.  So whatever holds of all children holds in all
  slots, and what is made of a slot is nested less deep than the record.

  Main results:
    * `slots?_self` — a record that is written with all its fields has them in their slots.
    * `slots?_canonical` — the value that is made of a record has the values of its fields in the
      same slots.
    * `wellFormed_slots`, `depth_slots` — slots hold well-formed values if the record is well
      formed, and values that are nested less deep.
    * `IsFieldOf.isFree` — free JSON that is read has none of the values that are not written back.
-/
import Mathlib.Data.List.Nodup
import JobFleet.Proofs.Form.Fields

namespace JobFleet

open JobFleet.Json JobFleet.Text JobFleet.Time

namespace Json

/-! ## Slots -/

/-- If no name is there twice, no field is. -/
theorem givenOnce_of_nodup {members : List (String × Json)} (h : (members.map (·.1)).Nodup)
    (names : List String) :
    givenOnce names members = true :=
  List.all_eq_true.mpr fun name _ => decide_eq_true (List.nodup_iff_count_le_one.mp h name)

/-- An object whose members have distinct names has slots for all names. -/
theorem slots?_obj {members : List (String × Json)} (h : (members.map (·.1)).Nodup)
    (names : List String) :
    slots? names (.obj members) = some (memberSlots names members) :=
  if_pos (givenOnce_of_nodup h names)

/-- Slots depend only on what the names stand for. -/
theorem memberSlots_congr {names : List String} {members members' : List (String × Json)}
    (h : ∀ name ∈ names, lookup name members = lookup name members') :
    memberSlots names members = memberSlots names members' :=
  List.map_congr_left (fun name hname => by rw [h name hname])

/-- What the first members name is found there. -/
theorem lookup_append {name : String} {members : List (String × Json)}
    (h : name ∈ members.map (·.1)) (rest : List (String × Json)) :
    lookup name (members ++ rest) = lookup name members := by
  induction members with
  | nil => exact absurd h List.not_mem_nil
  | cons m members ih =>
    rw [List.cons_append, lookup, lookup]
    split
    · rfl
    · next hne => exact ih ((List.mem_cons.mp h).resolve_left (Ne.symm hne))

/-- What they do not name is looked for in the others. -/
theorem lookup_append_of_not_mem {name : String} {members : List (String × Json)}
    (h : name ∉ members.map (·.1)) (rest : List (String × Json)) :
    lookup name (members ++ rest) = lookup name rest := by
  induction members with
  | nil => rfl
  | cons m members ih =>
    rw [List.map_cons, List.mem_cons, not_or] at h
    rw [List.cons_append, lookup, if_neg (Ne.symm h.1), ih h.2]

/-- A name that no member has stands for nothing. -/
theorem lookup_eq_none {name : String} {members : List (String × Json)}
    (h : name ∉ members.map (·.1)) :
    lookup name members = none := by
  have hlookup := lookup_append_of_not_mem h []
  rwa [List.append_nil] at hlookup

/-- With distinct names every member is found. -/
theorem lookup_of_mem {members : List (String × Json)} (hdistinct : (members.map (·.1)).Nodup)
    {m : String × Json} (hm : m ∈ members) : lookup m.1 members = some m.2 := by
  induction members with
  | nil => exact absurd hm List.not_mem_nil
  | cons first rest ih =>
    obtain ⟨hfresh, hrest⟩ := List.nodup_cons.mp hdistinct
    obtain rfl | hmem := List.mem_cons.mp hm
    · exact if_pos rfl
    · have hne : first.1 ≠ m.1 := fun heq => hfresh (List.mem_map.mpr ⟨m, hmem, heq.symm⟩)
      rw [lookup, if_neg hne, ih hrest hmem]

/-- Every field of a record stands in its own slot. -/
theorem memberSlots_self {members : List (String × Json)} {names : List String}
    (hnames : members.map (·.1) = names) (hdistinct : names.Nodup) :
    memberSlots names members = members.map (fun m => .given m.2) := by
  subst hnames
  -- names and members are mapped alike: the first member of a name is the only one
  unfold memberSlots
  rw [List.map_map]
  refine List.map_congr_left (fun m hm => ?_)
  simp only [Function.comp_apply, lookup_of_mem hdistinct hm]

/-- A record that is written with all its fields in order has them in their slots. -/
theorem slots?_self {members : List (String × Json)} {names : List String}
    (hnames : members.map (·.1) = names) (hdistinct : names.Nodup) :
    slots? names (.obj members) = some (members.map (fun m => .given m.2)) := by
  rw [slots?_obj (hnames ▸ hdistinct), memberSlots_self hnames hdistinct]

/-! ## Children -/

/-- The items of an array, or the values of the members of an object. -/
def children : Json → List Json
  | .arr items => items
  | .obj members => members.map (·.2)
  | _ => []

/-- Children are well formed if the tree is. -/
theorem wellFormed_of_mem_children {j child : Json} (hj : j.WellFormed) (h : child ∈ j.children) :
    child.WellFormed := by
  cases j with
  | arr items => exact wellFormedItems_iff.mp hj child h
  | obj members =>
    obtain ⟨m, hm, rfl⟩ := List.mem_map.mp h
    exact wellFormedMembers_iff.mp hj m hm
  | null | bool _ | int _ | float _ | str _ => exact absurd h List.not_mem_nil

/-- They are nested less deep. -/
theorem depth_of_mem_children {j child : Json} (h : child ∈ j.children) :
    child.depth < j.depth := by
  cases j with
  | arr items => exact Nat.lt_succ_of_le (depthOfItems_le_iff.mp (Nat.le_refl _) child h)
  | obj members =>
    obtain ⟨m, hm, rfl⟩ := List.mem_map.mp h
    exact Nat.lt_succ_of_le (depthOfMembers_le_iff.mp (Nat.le_refl _) m hm)
  | null | bool _ | int _ | float _ | str _ => exact absurd h List.not_mem_nil

/-- What is found under a name is a member. -/
theorem mem_of_lookup {name : String} {members : List (String × Json)} {j : Json}
    (h : lookup name members = some j) :
    (name, j) ∈ members := by
  induction members with
  | nil => contradiction
  | cons m rest ih =>
    unfold lookup at h
    split at h
    · next hname =>
      obtain rfl := Option.some.inj h
      exact hname ▸ List.mem_cons_self
    · exact List.mem_cons_of_mem _ (ih h)

/-- What stands in the slot of a member is its value. -/
theorem mem_of_mem_memberSlots {names : List String} {members : List (String × Json)} {j : Json}
    (h : .given j ∈ memberSlots names members) : j ∈ members.map (·.2) := by
  obtain ⟨name, -, hslot⟩ := List.mem_map.mp h
  split at hslot
  · next value hvalue =>
    obtain rfl := Slot.given.inj hslot
    exact List.mem_map.mpr ⟨(name, value), mem_of_lookup hvalue, rfl⟩
  · cases hslot

/-- What stands in the slot of an item is the item. -/
theorem mem_of_mem_itemSlots {names : List String} {items : List Json} {j : Json}
    (h : .given j ∈ itemSlots names items) :
    j ∈ items := by
  induction names generalizing items with
  | nil => exact absurd h List.not_mem_nil
  | cons name names ih =>
    cases items with
    | nil =>
      obtain hfirst | hrest := List.mem_cons.mp h
      · cases hfirst
      · exact ih hrest
    | cons item items =>
      obtain hfirst | hrest := List.mem_cons.mp h
      · obtain rfl := Slot.given.inj hfirst
        exact List.mem_cons_self
      · exact List.mem_cons_of_mem _ (ih hrest)

/-- A record is an object or an array, and its slots hold children of it. -/
theorem mem_children_of_slots {names : List String} {j : Json} {slots : List Slot}
    (h : slots? names j = some slots) :
    0 < j.depth ∧ ∀ child, .given child ∈ slots → child ∈ j.children := by
  unfold slots? at h
  split at h
  · split at h
    · obtain rfl := Option.some.inj h
      exact ⟨Nat.succ_pos _, fun _ => mem_of_mem_memberSlots⟩
    · contradiction
  · split at h
    · obtain rfl := Option.some.inj h
      exact ⟨Nat.succ_pos _, fun _ => mem_of_mem_itemSlots⟩
    · contradiction
  · contradiction

/-- Slots hold well-formed values if the record is well formed. -/
theorem wellFormed_slots {names : List String} {j : Json} {slots : List Slot} (h : j.WellFormed)
    (hslots : slots? names j = some slots) : ∀ slot ∈ slots, slot.WellFormed := by
  intro slot hslot
  cases slot with
  | given child => exact wellFormed_of_mem_children h ((mem_children_of_slots hslots).2 child hslot)
  | absent | beyond => trivial

/-! ## Depth -/

/-- How deep what stands in a slot is nested. -/
def Slot.depth : Slot → Nat
  | .given j => j.depth
  | _ => 0

/-- What stands in the slots of a record is nested less deep than the record. -/
theorem depth_slots {names : List String} {j : Json} {slots : List Slot}
    (h : slots? names j = some slots) :
    0 < j.depth ∧ ∀ slot ∈ slots, slot.depth < j.depth := by
  obtain ⟨hpos, hchildren⟩ := mem_children_of_slots h
  refine ⟨hpos, fun slot hslot => ?_⟩
  cases slot with
  | given child => exact depth_of_mem_children (hchildren child hslot)
  | absent | beyond => exact hpos

section Depth

-- not by `rfl`: `simp` could not use such a lemma for the condition of `depth_ofOption_leaf`
@[simp] theorem depth_str (s : String) : (Json.str s).depth = 0 := depth_leaf nofun nofun

@[simp] theorem depth_bool (b : Bool) : (Json.bool b).depth = 0 := depth_leaf nofun nofun

@[simp] theorem depth_int (n : Int) : (Json.int n).depth = 0 := depth_leaf nofun nofun

@[simp] theorem depth_ofNat (n : Nat) : (Json.ofNat n).depth = 0 := depth_int n

@[simp] theorem depth_float (x : Float) : (Json.float x).depth = 0 := depth_leaf nofun nofun

@[simp] theorem depth_ofInstant (t : Instant) : (ofInstant t).depth = 0 := depth_str _

variable {α : Type} {encode : α → Json} {decode : Json → Option α} {o : Option α} {n : Nat}

/-- An optional field is nested as deep as its value at most. -/
theorem depth_ofOption_le (h : ∀ a ∈ o, (encode a).depth ≤ n) : (ofOption encode o).depth ≤ n := by
  cases o with
  | none => exact Nat.zero_le n
  | some a => exact h a rfl

@[simp] theorem depth_ofOption_leaf (h : ∀ a, (encode a).depth = 0) :
    (ofOption encode o).depth = 0 :=
  Nat.le_zero.mp (depth_ofOption_le fun a _ => Nat.le_of_eq (h a))

/-- A record is nested one deeper than its fields. -/
theorem depth_obj_le {members : List (String × Json)} (hn : 0 < n)
    (h : ∀ m ∈ members, m.2.depth < n) :
    (Json.obj members).depth ≤ n := by
  obtain ⟨n, rfl⟩ := Nat.exists_eq_succ_of_ne_zero (Nat.ne_of_gt hn)
  exact Nat.succ_le_succ (depthOfMembers_le_iff.mpr fun m hm => Nat.le_of_lt_succ (h m hm))

/-- A record of leaves is nested no deeper than any tree that has slots. -/
theorem depth_leaves_le {names : List String} {j : Json} {slots : List Slot}
    {members : List (String × Json)} (h : slots? names j = some slots)
    (hleaves : ∀ m ∈ members, m.2.depth = 0) :
    (Json.obj members).depth ≤ j.depth := by
  have hpos := (depth_slots h).1
  exact depth_obj_le hpos (fun m hm => Nat.lt_of_le_of_lt (Nat.le_of_eq (hleaves m hm)) hpos)

/-- What is written for the items of a list is nested no deeper than what they were read from. -/
theorem depth_of_asList (hdecode : ∀ {j a}, decode j = some a → (encode a).depth ≤ j.depth)
    {j : Json} {l : List α} (h : asList decode j = some l) :
    (Json.arr (l.map encode)).depth ≤ j.depth := by
  unfold asList at h
  split at h
  · next items =>
    refine Nat.succ_le_succ ?_
    induction items generalizing l with
    | nil =>
      obtain rfl := Option.some.inj h
      exact Nat.le_refl _
    | cons item items ih =>
      simp only [List.mapM_cons, Option.bind_eq_bind, Option.bind_eq_some_iff, Option.pure_def,
        Option.some.injEq] at h
      obtain ⟨a, ha, rest, hdecoded, rfl⟩ := h
      exact Nat.max_le.mpr ⟨Nat.le_trans (hdecode ha) (Nat.le_max_left _ _),
        Nat.le_trans (ih hdecoded) (Nat.le_max_right _ _)⟩
  · contradiction

namespace Slot

/-- What is written for a field is nested no deeper than what it was read from. -/
theorem depth_of_required (hdecode : ∀ {j a}, decode j = some a → (encode a).depth ≤ j.depth)
    {slot : Slot} {a : α} (h : slot.required decode = some a) : (encode a).depth ≤ slot.depth := by
  obtain ⟨j, rfl, hj⟩ := exists_of_required h
  exact hdecode hj

/-- Nor is what is written for an optional one. -/
theorem depth_of_optional (hdecode : ∀ {j a}, decode j = some a → (encode a).depth ≤ j.depth)
    {slot : Slot} (h : slot.optional decode = some o) : (ofOption encode o).depth ≤ slot.depth := by
  refine depth_ofOption_le fun a ha => ?_
  obtain rfl := Option.mem_def.mp ha
  obtain ⟨j, rfl, -, hj⟩ := exists_of_optional h
  exact hdecode hj

/-- Nor is free JSON. -/
theorem depth_free {slot : Slot} {data : Option Json} (h : slot.optional asAny = some data) :
    (ofOption id data).depth ≤ slot.depth := by
  refine depth_of_optional (fun {j a} ha => ?_) h
  obtain rfl := Option.some.inj ha
  exact depth_canonical_le j

end Slot

end Depth

/-! ## Free JSON -/

/-- Free JSON that is what stands in a field of a record. -/
def IsFieldOf (data : Option Json) (j : Json) : Prop :=
  ∃ names slots, slots? names j = some slots ∧ ∃ slot ∈ slots, slot.optional asAny = some data

namespace IsFieldOf

variable {data : Option Json} {j : Json}

/-- It is never `null`, and its members are in order. -/
theorem isFree (h : IsFieldOf data j) (hj : j.WellFormed) : IsFree data := by
  obtain ⟨names, slots, hslots, slot, hslot, hdata⟩ := h
  exact Slot.isFree_of_optional (wellFormed_slots hj hslots slot hslot) hdata

/-- It is nested less deep than the record. -/
theorem depth_lt (h : IsFieldOf data j) : (ofOption id data).depth < j.depth := by
  obtain ⟨names, slots, hslots, slot, hslot, hdata⟩ := h
  exact Nat.lt_of_le_of_lt (Slot.depth_free hdata) ((depth_slots hslots).2 slot hslot)

/-- Whatever has a field is nested one level at least. -/
theorem depth_pos (h : IsFieldOf data j) : 0 < j.depth := Nat.zero_lt_of_lt h.depth_lt

end IsFieldOf

/-! ## Records as values -/

/-- The slot with what stands in it as a value. -/
def Slot.canonical : Slot → Slot
  | .given j => .given j.canonical
  | empty => empty

/-- The names of a value are different. -/
theorem nodup_canonicalMembers (members : List (String × Json)) :
    ((canonicalMembers [] members).map (·.1)).Nodup := by
  have hordered : (Json.obj members).canonical.Ordered := ordered_canonical _
  rw [List.Nodup]
  refine hordered.1.imp ?_
  intro a b hlt heq
  rw [heq] at hlt
  exact String.lt_irrefl _ hlt

/-- A name has the value that it was given last, as a value of its own. -/
theorem lookup_canonicalMembers {members : List (String × Json)} (h : (members.map (·.1)).Nodup)
    (name : String) (before : List (String × Json)) :
    lookup name (canonicalMembers before members) =
      ((lookup name members).map canonical).or (lookup name before) := by
  induction members generalizing before with
  | nil => rfl
  | cons m rest ih =>
    obtain ⟨hfresh, hrest⟩ := List.nodup_cons.mp h
    rw [canonicalMembers, ih hrest, lookup]
    split
    · next hname =>
      subst hname
      rw [lookup_eq_none hfresh, lookup_insertMember_self]
      rfl
    · next hne => rw [lookup_insertMember_ne (Ne.symm hne)]

/-- A record as a value has its fields as values in their slots. -/
theorem slots?_canonical {members : List (String × Json)} (h : (members.map (·.1)).Nodup)
    (names : List String) :
    slots? names (Json.obj members).canonical =
      some ((memberSlots names members).map Slot.canonical) := by
  rw [canonical, slots?_obj (nodup_canonicalMembers members)]
  congr 1
  unfold memberSlots
  rw [List.map_map]
  refine List.map_congr_left fun name _ => ?_
  have hlookup : lookup name (canonicalMembers [] members) = (lookup name members).map canonical :=
    (lookup_canonicalMembers h name []).trans Option.or_none
  rw [hlookup, Function.comp_apply]
  cases lookup name members <;> rfl

/-- A record that is written with all its fields has the values of them in their slots. -/
theorem slots?_canonical_self {members : List (String × Json)} {names : List String}
    (hnames : members.map (·.1) = names) (hdistinct : names.Nodup) :
    slots? names (Json.obj members).canonical =
      some (members.map (fun m => .given m.2.canonical)) := by
  rw [slots?_canonical (hnames ▸ hdistinct), memberSlots_self hnames hdistinct, List.map_map]
  rfl

/-- If its fields are values already, it has just them in their slots. -/
theorem slots?_canonical_of_ordered {members : List (String × Json)} (h : (members.map (·.1)).Nodup)
    (hordered : ∀ m ∈ members, m.2.Ordered) (names : List String) :
    slots? names (Json.obj members).canonical = slots? names (.obj members) := by
  rw [slots?_canonical h, slots?_obj h]
  refine congrArg some ((List.map_congr_left fun slot hslot => ?_).trans (List.map_id _))
  cases slot with
  | given j =>
    obtain ⟨m, hm, rfl⟩ := List.mem_map.mp (mem_of_mem_memberSlots hslot)
    exact congrArg Slot.given (canonical_of_ordered (hordered m hm))
  | absent | beyond => rfl

/-- So a record that is written with all its fields, which are values, has them in their slots. -/
theorem slots?_values {members : List (String × Json)} {names : List String}
    (hnames : members.map (·.1) = names) (hdistinct : names.Nodup)
    (hordered : ∀ m ∈ members, m.2.Ordered) :
    slots? names (Json.obj members).canonical = some (members.map (fun m => .given m.2)) := by
  rw [slots?_canonical_of_ordered (hnames ▸ hdistinct) hordered, slots?_self hnames hdistinct]

end Json

end JobFleet
