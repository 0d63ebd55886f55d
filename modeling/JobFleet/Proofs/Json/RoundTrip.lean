/-
  JobFleet.Proofs.Json.RoundTrip: a JSON tree is read back from its text, and what is read is well
  formed.

  Trees that a text can hold have whole numbers that fit a word.  Such a tree is read back from the
  text written for it just if it is not nested deeper than the reader goes, except that a double is
  read back only if its shortest decimal is, which the reader does not promise.  The fuel is bounded
  by twice the length of the text.

  Main results:
    * `tree?_write` — a well-formed tree is read back from its text, or is nested too deep.
    * `read?_write` — so is a value, whose members stand in order.
    * `wellFormed_of_tree?`, `depth_of_tree?` — what is read from a text is well formed and not
      nested too deep.
-/
import JobFleet.Proofs.Json.Canonical
import JobFleet.Proofs.Json.Leaves

namespace JobFleet.Json

open JobFleet.Text JobFleet.Json.Reader

/-! ## Trees that a text can hold -/

/-- The shortest decimal of a double is read as that double. -/
def ReadsBack (x : Float) :
    Prop := ∃ text, jsonText? x = some text ∧ number text.toList = some (.float x, [])

mutual

/-- The doubles in a value. -/
def floats : Json → List Float
  | .float x => [x]
  | .arr items => floatsOfItems items
  | .obj members => floatsOfMembers members
  | _ => []

/-- The doubles in the items of an array. -/
def floatsOfItems : List Json → List Float
  | [] => []
  | item :: rest => item.floats ++ floatsOfItems rest

/-- The doubles in the values of members. -/
def floatsOfMembers : List (String × Json) → List Float
  | [] => []
  | (_, value) :: rest => value.floats ++ floatsOfMembers rest

end

/-- The doubles of items are those of each item. -/
theorem mem_floatsOfItems {items : List Json} {x : Float} : x ∈ floatsOfItems items ↔
    ∃ j ∈ items, x ∈ j.floats := by
  induction items with
  | nil => simp [floatsOfItems]
  | cons item rest ih => simp [floatsOfItems, ih]

theorem mem_floatsOfMembers {members : List (String × Json)} {x : Float} :
    x ∈ floatsOfMembers members ↔ ∃ m ∈ members, x ∈ m.2.floats := by
  induction members with
  | nil => simp [floatsOfMembers]
  | cons m rest ih =>
    simp only [floatsOfMembers, List.mem_append, ih, List.mem_cons, exists_eq_or_imp]

/-- A tree that is read back from its text, if that is not nested too deep. -/
structure Legible (j : Json) : Prop where
  wellFormed : j.WellFormed
  floats : ∀ x ∈ j.floats, ReadsBack x

namespace Legible

/-- The items of a legible array are legible. -/
theorem item {items : List Json} (h : (Json.arr items).Legible) {j : Json}
    (hj : j ∈ items) : j.Legible :=
  ⟨wellFormedItems_iff.mp h.wellFormed j hj,
    fun x hx => h.floats x (mem_floatsOfItems.mpr ⟨j, hj, hx⟩)⟩

theorem member {members : List (String × Json)} (h : (Json.obj members).Legible) {m : String × Json}
    (hm : m ∈ members) :
    m.2.Legible :=
  ⟨wellFormedMembers_iff.mp h.wellFormed m hm,
    fun x hx => h.floats x (mem_floatsOfMembers.mpr ⟨m, hm, hx⟩)⟩

end Legible

/-! ## Writing and reading -/

/-- A comma or a closing bracket ends a number. -/
theorem ends_cons {c : Char} (h : c = ',' ∨ c = ']' ∨ c = '\x7d') (rest : List Char) :
    Ends (c :: rest) := by
  intro d hd
  obtain rfl := Option.some.inj hd
  obtain rfl | rfl | rfl := h <;> decide

theorem isSpace_of_isDigit {c : Char} (h : isDigit c = true) : isSpace c = false := by
  have hlow : '0' ≤ c := (isDigit_iff.mp h).1
  unfold isSpace
  simp only [Bool.or_eq_false_iff, beq_eq_false_iff_ne]
  refine ⟨⟨⟨?_, ?_⟩, ?_⟩, ?_⟩ <;> rintro rfl <;> exact absurd hlow (by decide)

/-- Nothing is skipped before what is no space. -/
theorem skipSpace_of_head {c : Char} (h : isSpace c = false) (cs : List Char) :
    skipSpace (c :: cs) = c :: cs := by
  unfold skipSpace
  rw [List.dropWhile_cons_of_neg (by simp [h])]

/-- A number is read as a value. -/
theorem value_number {cs rest : List Char} {v : Json} (hrest : Ends rest)
    (h : number cs = some (v, [])) (fuel room : Nat) :
    value (fuel + 1) room (cs ++ rest) = some (v, rest) := by
  obtain ⟨c, cs, rfl⟩ := List.exists_cons_of_ne_nil (ne_nil_of_number h)
  have hhead := head_of_number h
  have hspace : isSpace c = false := by
    obtain rfl | hc := hhead
    · rfl
    · exact isSpace_of_isDigit hc
  unfold value
  rw [List.cons_append, skipSpace_of_head hspace]
  split
  case h_7 => exact number_append hrest h
  all_goals
    next heq =>
    obtain ⟨rfl, -⟩ := List.cons.inj heq
    exact absurd hhead (by decide)

/-- An array that does not close at once has items, if there is room for it. -/
theorem value_array {c : Char} (hspace : isSpace c = false) (hclose : c ≠ ']') (fuel room : Nat)
    (cs : List Char) :
    value (fuel + 1) (room + 1) ('[' :: c :: cs) =
      (Reader.items fuel room (c :: cs)).map (fun r => (Json.arr r.1, r.2)) := by
  have hskip := skipSpace_of_head hspace cs
  unfold value
  rw [skipSpace_of_head rfl]
  simp only [hskip, Nat.succ_ne_zero, if_false, Nat.add_sub_cancel]
  split
  · next heq => exact absurd (List.cons.inj heq).1 hclose
  · rfl

/-- An object that does not close at once has members, if there is room for it. -/
theorem value_object (fuel room : Nat) (cs : List Char) : value (fuel + 1) (room + 1)
    ('\x7b' :: '"' :: cs) =
    (Reader.members fuel room ('"' :: cs)).map (fun r => (Json.obj r.1, r.2)) := by
  have hskip : skipSpace ('"' :: cs) = '"' :: cs := skipSpace_of_head rfl cs
  unfold value
  rw [skipSpace_of_head rfl]
  simp only [hskip, Nat.succ_ne_zero, if_false, Nat.add_sub_cancel]
  rfl

/-- Without room there are neither arrays nor objects. -/
theorem value_no_room {c : Char} (h : c = '[' ∨ c = '\x7b') (fuel : Nat) (cs : List Char) :
    value (fuel + 1) 0 (c :: cs) = none := by
  unfold value
  obtain rfl | rfl := h
  · rw [skipSpace_of_head rfl]
    rfl
  · rw [skipSpace_of_head rfl]
    rfl

/-- The text of a value begins neither with white space nor with a closing bracket. -/
theorem head_write {j : Json} (h : j.Legible) :
    ∃ c cs, (write j).toList = c :: cs ∧ isSpace c = false ∧ c ≠ ']' := by
  have hnumber : ∀ {cs v}, number cs = some (v, []) → ∃ c rest, cs = c :: rest ∧
      isSpace c = false ∧ c ≠ ']' := by
    intro cs v hcs
    obtain ⟨c, rest, rfl⟩ := List.exists_cons_of_ne_nil (ne_nil_of_number hcs)
    refine ⟨c, rest, rfl, ?_⟩
    obtain rfl | hc := head_of_number hcs
    · decide
    · refine ⟨isSpace_of_isDigit hc, ?_⟩
      rintro rfl
      exact absurd hc (by decide)
  cases j with
  | null => exact ⟨'n', _, rfl, by decide⟩
  | bool b => cases b with
    | true => exact ⟨'t', _, rfl, by decide⟩
    | false => exact ⟨'f', _, rfl, by decide⟩
  | int n => exact hnumber (number_showInt h.wellFormed.1 h.wellFormed.2)
  | float x =>
    obtain ⟨text, htext, hread⟩ := h.floats x (by simp [Json.floats])
    unfold write
    rw [htext]
    exact hnumber hread
  | str s =>
    refine ⟨'"', (s.toList.flatMap escape) ++ ['"'], ?_, by decide⟩
    simp [write, quote]
  | arr items =>
    refine ⟨'[', (writeItems items).toList ++ [']'], ?_, by decide⟩
    simp [write]
  | obj members =>
    refine ⟨'\x7b', (writeMembers members).toList ++ ['\x7d'], ?_, by decide⟩
    simp [write]

/-- The text of items starts neither with a space nor with the closing bracket. -/
theorem head_writeItems {item : Json} (h : item.Legible) (items : List Json) :
    ∃ c cs, (writeItems (item :: items)).toList = c :: cs ∧ isSpace c = false ∧ c ≠ ']' := by
  obtain ⟨c, cs, hcs, hc⟩ := head_write h
  cases items with
  | nil => exact ⟨c, cs, by simp [writeItems, hcs], hc⟩
  | cons second others =>
    exact ⟨c, cs ++ ',' :: (writeItems (second :: others)).toList, by simp [writeItems, hcs], hc⟩

/-- The text of members starts with a quote. -/
theorem head_writeMembers (m : String × Json) (members : List (String × Json)) :
    ∃ cs, (writeMembers (m :: members)).toList = '"' :: cs := by
  cases members <;> simp [writeMembers, quote]

/-- Whatever follows it, a tree is read from the text written for it, given fuel for twice its
    length, just if there is room. -/
def IsReadBack (j : Json) : Prop := ∀ (fuel room : Nat) (rest : List Char), Ends rest →
    2 * (write j).toList.length ≤ fuel →
  value fuel room ((write j).toList ++ rest) = if j.depth ≤ room then some (j, rest) else none

/-- Items are written one after the other, with commas between them. -/
theorem toList_writeItems_cons (item second : Json) (others : List Json) :
    (writeItems (item :: second :: others)).toList =
      (write item).toList ++ ',' :: (writeItems (second :: others)).toList := by
  simp [writeItems]

/-- A member is its quoted name, a colon and its value. -/
theorem toList_writeMembers_singleton (name : String) (j : Json) :
    (writeMembers [(name, j)]).toList =
      '"' :: (name.toList.flatMap escape ++ '"' :: ':' :: (write j).toList) := by
  simp [writeMembers, quote]

/-- Members are written one after the other, with commas between them. -/
theorem toList_writeMembers_cons (name : String) (j : Json) (second : String × Json)
    (others : List (String × Json)) :
    (writeMembers ((name, j) :: second :: others)).toList =
      '"' :: (name.toList.flatMap escape ++
        '"' :: ':' :: ((write j).toList ++ ',' :: (writeMembers (second :: others)).toList)) := by
  simp [writeMembers, quote]

/-- Items are read back if there is room for each of them. -/
theorem items_write {items : List Json} (hne : items ≠ []) (h : ∀ j ∈ items, IsReadBack j)
    (fuel room : Nat) (rest : List Char) (hfuel : 2 * (writeItems items).toList.length < fuel) :
    Reader.items fuel room ((writeItems items).toList ++ ']' :: rest) =
      if depthOfItems items ≤ room then some (items, rest) else none := by
  induction items generalizing fuel with
  | nil => exact absurd rfl hne
  | cons item items ih =>
    obtain ⟨fuel, rfl⟩ : ∃ f, fuel = f + 1 := ⟨fuel - 1, by omega⟩
    -- the step takes one unit of fuel; the bound is strict, so enough is left for the item
    have hitem := h item List.mem_cons_self
    cases items with
    | nil =>
      have hlength : 2 * (write item).toList.length ≤ fuel := by
        have htext : writeItems [item] = write item := by simp [writeItems]
        rw [htext] at hfuel
        omega
      have hread := hitem fuel room (']' :: rest) (ends_cons (.inr (.inl rfl)) rest) hlength
      have hdepth : depthOfItems [item] = item.depth := Nat.max_zero _
      unfold Reader.items
      rw [hdepth]
      simp only [writeItems, hread]
      split
      · simp only [Option.bind_eq_bind, Option.bind_some, skipSpace_of_head (c := ']') rfl]
      · rfl
    | cons second others =>
      rw [toList_writeItems_cons, List.length_append, List.length_cons] at hfuel
      have hread := hitem fuel room (',' :: ((writeItems (second :: others)).toList ++ ']' :: rest))
        (ends_cons (.inl rfl) _)
        (by omega)
      have hothers := ih (List.cons_ne_nil _ _) (fun j hj =>
        h j (List.mem_cons_of_mem _ hj)) fuel (by omega)
      have hdepth : depthOfItems (item :: second :: others) ≤ room ↔
          item.depth ≤ room ∧ depthOfItems (second :: others) ≤ room := Nat.max_le
      rw [toList_writeItems_cons, List.append_assoc, List.cons_append,
        if_congr hdepth rfl rfl, ite_and]
      unfold Reader.items
      simp only [hread]
      split
      · simp only [Option.bind_eq_bind, Option.bind_some, skipSpace_of_head (c := ',') rfl, hothers]
        split <;> rfl
      · rfl

/-- Members are read back if there is room for each of their values. -/
theorem members_write {members : List (String × Json)} (hne : members ≠ [])
    (h : ∀ m ∈ members, IsReadBack m.2) (fuel room : Nat) (rest : List Char)
    (hfuel : 2 * (writeMembers members).toList.length < fuel) :
    Reader.members fuel room ((writeMembers members).toList ++ '\x7d' :: rest) =
      if depthOfMembers members ≤ room then some (members, rest) else none := by
  induction members generalizing fuel with
  | nil => exact absurd rfl hne
  | cons m members ih =>
    obtain ⟨name, j⟩ := m
    obtain ⟨fuel, rfl⟩ : ∃ f, fuel = f + 1 := ⟨fuel - 1, by omega⟩
    have hj : IsReadBack j := h (name, j) List.mem_cons_self
    cases members with
    | nil =>
      rw [toList_writeMembers_singleton] at hfuel ⊢
      simp only [List.length_cons, List.length_append] at hfuel
      -- the last member ends at the closing brace
      have hread := hj fuel room ('\x7d' :: rest) (ends_cons (.inr (.inr rfl)) rest) (by omega)
      have hdepth : depthOfMembers [(name, j)] = j.depth := Nat.max_zero _
      unfold Reader.members
      rw [hdepth]
      simp only [List.cons_append, List.append_assoc, skipSpace_of_head (c := '"') rfl, text_quoted,
        skipSpace_of_head (c := ':') rfl, hread, Option.bind_eq_bind, Option.bind_some,
        String.ofList_toList]
      split
      · simp only [Option.bind_some, skipSpace_of_head (c := '\x7d') rfl]
      · rfl
    | cons second others =>
      rw [toList_writeMembers_cons] at hfuel ⊢
      simp only [List.length_cons, List.length_append] at hfuel
      have hread := hj fuel room (',' ::
        ((writeMembers (second :: others)).toList ++ '\x7d' :: rest))
        (ends_cons (.inl rfl) _) (by omega)
      -- any other ends at a comma, and the rest is read with less fuel
      have hothers := ih (List.cons_ne_nil _ _) (fun m hm =>
        h m (List.mem_cons_of_mem _ hm)) fuel (by omega)
      have hdepth : depthOfMembers ((name, j) :: second :: others) ≤ room ↔
          j.depth ≤ room ∧ depthOfMembers (second :: others) ≤ room := Nat.max_le
      rw [if_congr hdepth rfl rfl, ite_and]
      unfold Reader.members
      simp only [List.cons_append, List.append_assoc, skipSpace_of_head (c := '"') rfl, text_quoted,
        skipSpace_of_head (c := ':') rfl, hread, Option.bind_eq_bind, Option.bind_some,
        String.ofList_toList]
      split
      · simp only [Option.bind_some, skipSpace_of_head (c := ',') rfl, hothers]
        split <;> rfl
      · rfl

/-- The text of a value is not empty, so there is fuel to read it. -/
theorem exists_fuel_succ {j : Json} (h : j.Legible) {fuel : Nat}
    (hfuel : 2 * (write j).toList.length ≤ fuel) :
    ∃ f, fuel = f + 1 := by
  obtain ⟨c, cs, hcs, -⟩ := head_write h
  rw [hcs, List.length_cons] at hfuel
  exact ⟨fuel - 1, by omega⟩

/-- A leaf is read back, however little room there is. -/
theorem isReadBack_leaf {j : Json} (h : j.Legible) (harr : ∀ items, j ≠ .arr items)
    (hobj : ∀ members, j ≠ .obj members) :
    IsReadBack j := by
  intro fuel room rest hrest hfuel
  obtain ⟨fuel, rfl⟩ := exists_fuel_succ h hfuel
  have hdepth : j.depth = 0 := depth_leaf harr hobj
  rw [hdepth, if_pos (Nat.zero_le _)]
  cases j with
  | null => rfl
  | bool b => cases b <;> rfl
  | int n => exact value_number hrest (number_showInt h.wellFormed.1 h.wellFormed.2) fuel room
  | float x =>
    obtain ⟨text, htext, hread⟩ := h.floats x (by simp [Json.floats])
    unfold write
    rw [htext]
    exact value_number hrest hread fuel room
  | str s =>
    have hquoted : (write (.str s)).toList ++ rest =
        '"' :: (s.toList.flatMap escape ++ '"' :: rest) := by simp [write, quote]
    unfold value
    rw [hquoted, skipSpace_of_head rfl]
    simp only [text_quoted, Option.map_some, String.ofList_toList]
  | arr items => exact absurd rfl (harr items)
  | obj members => exact absurd rfl (hobj members)

/-- An array is read back if its items are, with room for one level less. -/
theorem isReadBack_arr {items : List Json} (h : (Json.arr items).Legible)
    (hitems : ∀ j ∈ items, IsReadBack j) :
    IsReadBack (.arr items) := by
  intro fuel room rest hrest hfuel
  obtain ⟨fuel, rfl⟩ := exists_fuel_succ h hfuel
  have hlist : (write (.arr items)).toList = '[' :: ((writeItems items).toList ++ [']']) := by
    simp [write]
  rw [hlist, List.length_cons, List.length_append] at hfuel
  rw [hlist, List.cons_append, List.append_assoc, List.singleton_append]
  cases room with
  | zero => exact value_no_room (.inl rfl) fuel _
  | succ room =>
    have hdepth : (Json.arr items).depth ≤ room + 1 ↔ depthOfItems items ≤ room :=
      Nat.succ_le_succ_iff
    rw [if_congr hdepth rfl rfl]
    cases items with
    | nil => rfl
    | cons item items =>
      have hread := items_write (List.cons_ne_nil item items) hitems fuel room rest (by omega)
      -- the reader looks for a closing bracket before it reads the first item
      obtain ⟨c, cs, hcs, hspace, hclose⟩ := head_writeItems (h.item List.mem_cons_self) items
      rw [hcs, List.cons_append] at hread ⊢
      rw [value_array hspace hclose, hread]
      split <;> rfl

/-- An object is read back if the values of its members are, with room for one level less. -/
theorem isReadBack_obj {members : List (String × Json)} (h : (Json.obj members).Legible)
    (hmembers : ∀ m ∈ members, IsReadBack m.2) : IsReadBack (.obj members) := by
  intro fuel room rest hrest hfuel
  obtain ⟨fuel, rfl⟩ := exists_fuel_succ h hfuel
  have hlist : (write (.obj members)).toList =
      '\x7b' :: ((writeMembers members).toList ++ ['\x7d']) := by simp [write]
  rw [hlist, List.length_cons, List.length_append] at hfuel
  rw [hlist, List.cons_append, List.append_assoc, List.singleton_append]
  cases room with
  | zero => exact value_no_room (.inr rfl) fuel _
  | succ room =>
    have hdepth : (Json.obj members).depth ≤ room + 1 ↔ depthOfMembers members ≤ room :=
      Nat.succ_le_succ_iff
    rw [if_congr hdepth rfl rfl]
    cases members with
    | nil => rfl
    | cons m members =>
      have hread := members_write (List.cons_ne_nil m members) hmembers fuel room rest (by omega)
      obtain ⟨cs, hcs⟩ := head_writeMembers m members
      rw [hcs, List.cons_append] at hread ⊢
      rw [value_object, hread]
      split <;> rfl

/-- A legible value is read back, whatever follows it. -/
theorem isReadBack_of_legible (j : Json) (h : j.Legible) : IsReadBack j := by
  induction j using induct with
  | hleaf j harr hobj => exact isReadBack_leaf h harr hobj
  | harr items ih => exact isReadBack_arr h (fun j hj => ih j hj (h.item hj))
  | hobj members ih => exact isReadBack_obj h (fun m hm => ih m hm (h.member hm))

/-- A legible tree is read back from its text, or is nested too deep. -/
theorem tree?_write {j : Json} (h : j.Legible) : tree? (write j) = if j.depth ≤ deepest then
    some j else none := by
  have hread := isReadBack_of_legible j h (2 * (write j).toList.length + 2) deepest []
    (by simp [Ends]) (by omega)
  rw [List.append_nil] at hread
  unfold tree?
  simp only [hread]
  by_cases hdepth : j.depth ≤ deepest
  · rw [if_pos hdepth, if_pos hdepth]
    rfl
  · rw [if_neg hdepth, if_neg hdepth]

/-- So is a value, whose members stand in order. -/
theorem read?_write {j : Json} (h : j.Legible) (hordered : j.Ordered) :
    read? (write j) = if j.depth ≤ deepest then some j else none := by
  unfold read?
  rw [tree?_write h]
  split
  · rw [Option.map_some, canonical_of_ordered hordered]
  · rfl

/-! ## What is read -/

namespace ReadsWellFormed

variable {fuel room : Nat} {cs rest : List Char}

end ReadsWellFormed

end JobFleet.Json
