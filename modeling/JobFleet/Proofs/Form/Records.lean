/-
  JobFleet.Proofs.Form.Records: the forms of reports, rows and views.

  Each type of record has a form: how it is written, how it is read, and which values it has.  A
  form has laws: a record is read back from the tree that is written for it, and from the value of
  its own that is made of that; whatever is read is a record, and writing it goes no deeper than
  what it was read from.  A form nests in the forms of other records by these laws alone.

  Texts are nested so deep at most.  So a record whose free JSON goes deeper has a text that is not
  read back, while no text that is read has such a record.

  Main results:
    * `Form.read?_text` — a record is read back from its text, or is nested too deep.
    * `Form.read?_text_of_read?` — what is written for the record of a text is read back.
    * `StatusView.ofJson?_toJson` — a status is told apart from the members of its job beside it.
-/
import JobFleet.Form.View
import JobFleet.Proofs.Form.Slots

namespace JobFleet

open JobFleet.Json JobFleet.Text JobFleet.Time

/-! ## Forms -/

/-- How a type is written as JSON and read from it.  The records of the type are the proper ones:
    instants lie in the calendar, whole numbers fit, and free JSON is a value other than `null`. -/
structure Form (α : Type) where
  toJson : α → Json
  ofJson? : Json → Option α
  IsProper : α → Prop
  wellFormed_toJson : ∀ {a}, IsProper a → (toJson a).WellFormed
  ofJson?_toJson : ∀ {a}, IsProper a → ofJson? (toJson a) = some a
  ofJson?_canonical : ∀ {a}, IsProper a → ofJson? (toJson a).canonical = some a
  isProper_of_ofJson? : ∀ {j a}, j.WellFormed → ofJson? j = some a → IsProper a
  depth_toJson : ∀ {j a}, ofJson? j = some a → (toJson a).depth ≤ j.depth

namespace Form

variable {α : Type} (f : Form α)

/-- The JSON value of a record, with members in the order of their names. -/
def value (a : α) : Json := (f.toJson a).canonical

/-- The text of a record. -/
def text (a : α) : String := Json.write (f.toJson a)

/-- How deep a record is nested. -/
def depth (a : α) : Nat := (f.toJson a).depth

/-- The record that a text holds. -/
def read? (s : String) : Option α := (Json.tree? s).bind f.ofJson?

/-- The doubles in a record. -/
def floats (a : α) : List Float := (f.toJson a).floats

variable {f}

end Form

/-! ## Reports and rows -/

namespace Report

/-- Instants lie in the calendar, and data is free. -/
structure IsProper (r : Report) : Prop where
  startedAt : r.startedAt.inCalendar = true
  finishedAt : r.finishedAt.inCalendar = true
  resultData : IsFree r.resultData

theorem names_members (r : Report) : r.members.map (·.1) = fieldNames := rfl

/-- The fields of a proper report are well formed. -/
theorem wellFormed_members {r : Report} (h : r.IsProper) : ∀ m ∈ r.members, m.2.WellFormed := by
  simp [members, wellFormed_free h.resultData]

/-- They are values. -/
theorem ordered_members {r : Report} (h : r.IsProper) : ∀ m ∈ r.members, m.2.Ordered := by
  simp [members, ordered_free h.resultData]

/-- Only the data is nested. -/
theorem depth_members {r : Report} {n : Nat} (h : (ofOption id r.resultData).depth < n) :
    ∀ m ∈ r.members, m.2.depth < n := by
  simp [members, h, Nat.zero_lt_of_lt h]

/-- A proper report is read from the slots of its fields. -/
theorem ofSlots?_members {r : Report} (h : r.IsProper) :
    ofSlots? (r.members.map (fun m => .given m.2)) = some r := by
  simp [members, ofSlots?, asInstant_ofInstant h.startedAt, asInstant_ofInstant h.finishedAt,
    optional_free h.resultData]

/-- Instants that are read lie in the calendar, and the data stands in one of the slots. -/
theorem of_ofSlots? {slots : List Slot} {r : Report} (h : ofSlots? slots = some r) :
    r.startedAt.inCalendar = true ∧ r.finishedAt.inCalendar = true ∧
      ∃ slot ∈ slots, slot.optional asAny = some r.resultData := by
  unfold ofSlots? at h
  split at h
  · next job startedAt finishedAt duration success message trace data =>
    simp only [Option.bind_eq_bind, Option.bind_eq_some_iff, Option.pure_def,
      Option.some.injEq] at h
    obtain ⟨_, -, started, hs, finished, hf, _, -, _, -, _, -, _, -, free, hd, rfl⟩ := h
    -- named before the constructor: its goals would show the assembled record
    have hstarted := Slot.inCalendar_of_required hs
    have hfinished := Slot.inCalendar_of_required hf
    exact ⟨hstarted, hfinished, data, by simp, hd⟩
  · contradiction

/-- The data of a report stands in a field of it. -/
theorem isFieldOf_of_ofJson? {j : Json} {r : Report} (h : ofJson? j = some r) :
    IsFieldOf r.resultData j := by
  obtain ⟨slots, hslots, h⟩ := Option.bind_eq_some_iff.mp h
  exact ⟨_, slots, hslots, (of_ofSlots? h).2.2⟩

/-- A proper report is read back. -/
theorem ofJson?_toJson {r : Report} (h : r.IsProper) : ofJson? r.toJson = some r := by
  unfold ofJson? toJson
  rw [slots?_self r.names_members (by decide), Option.bind_some, ofSlots?_members h]

/-- Reports as JSON. -/
def form : Form Report where
  toJson := toJson
  ofJson? := ofJson?
  IsProper := IsProper
  wellFormed_toJson {r} h := wellFormed_obj (wellFormed_members h)
  ofJson?_toJson := ofJson?_toJson
  ofJson?_canonical {r} h := by
    show (slots? fieldNames (Json.obj r.members).canonical).bind ofSlots? = some r
    rw [slots?_values r.names_members (by decide) (ordered_members h), Option.bind_some,
      ofSlots?_members h]
  isProper_of_ofJson? {j r} hj h := by
    have hfield := isFieldOf_of_ofJson? h
    obtain ⟨slots, -, h⟩ := Option.bind_eq_some_iff.mp h
    obtain ⟨hstarted, hfinished, -⟩ := of_ofSlots? h
    exact ⟨hstarted, hfinished, hfield.isFree hj⟩
  depth_toJson {j r} h := by
    have hfield := isFieldOf_of_ofJson? h
    exact depth_obj_le hfield.depth_pos (depth_members hfield.depth_lt)

end Report

namespace Row

/-- The report is proper, and the times of entry lie in the calendar. -/
structure IsProper (r : Row) : Prop where
  report : r.toReport.IsProper
  createdAt : r.createdAt.inCalendar = true
  updatedAt : r.updatedAt.inCalendar = true

theorem names_members (r : Row) : r.members.map (·.1) = fieldNames := rfl

/-- What holds of the fields of the report and of leaves holds of all fields. -/
theorem forall_members {p : Json → Prop} {r : Row} (hleaf : ∀ s, p (.str s))
    (hreport : ∀ m ∈ r.toReport.members, p m.2) : ∀ m ∈ r.members, p m.2 := by
  simp only [members, List.forall_mem_cons, List.forall_mem_append]
  exact ⟨hleaf _, hreport, hleaf _, hleaf _, nofun⟩

/-- A proper row is read from the slots of its fields. -/
theorem ofSlots?_members {r : Row} (h : r.IsProper) :
    ofSlots? (r.members.map (fun m => .given m.2)) = some r := by
  have hid : Uuid.ofJson? (.str r.id.write) = some r.id := Uuid.read?_write r.id
  have hlength : (r.toReport.members.map (fun m => Slot.given m.2)).length = 8 := rfl
  -- the slots after the first are cut where those of the report end
  simp [members, ofSlots?, hid, List.take_left' hlength, List.drop_left' hlength,
    Report.ofSlots?_members h.report, asInstant_ofInstant h.createdAt,
    asInstant_ofInstant h.updatedAt]

/-- So a row is read back. -/
theorem ofJson?_toJson {r : Row} (h : r.IsProper) : ofJson? r.toJson = some r := by
  show (slots? fieldNames (.obj r.members)).bind ofSlots? = some r
  rw [slots?_self r.names_members (by decide), Option.bind_some, ofSlots?_members h]

/-- The value that is made of it is read as well. -/
theorem ofJson?_canonical {r : Row} (h : r.IsProper) : ofJson? r.toJson.canonical = some r := by
  have hordered : ∀ m ∈ r.members, m.2.Ordered :=
    forall_members (fun _ => trivial) (Report.ordered_members h.report)
  show (slots? fieldNames (Json.obj r.members).canonical).bind ofSlots? = some r
  rw [slots?_values r.names_members (by decide) hordered, Option.bind_some, ofSlots?_members h]

/-- What is read is a row: its report stands in slots of its own, and its data in a field of it. -/
theorem of_ofJson? {j : Json} {r : Row} (h : ofJson? j = some r) :
    r.startedAt.inCalendar = true ∧ r.finishedAt.inCalendar = true ∧ IsFieldOf r.resultData j ∧
      r.createdAt.inCalendar = true ∧ r.updatedAt.inCalendar = true := by
  obtain ⟨slots, hslots, h⟩ := Option.bind_eq_some_iff.mp h
  unfold ofSlots? at h
  split at h
  · next id rest =>
    simp only [Option.bind_eq_bind, Option.bind_eq_some_iff] at h
    obtain ⟨id, -, report, hreport, h⟩ := h
    split at h
    · simp only [Option.bind_eq_some_iff, Option.pure_def, Option.some.injEq] at h
      obtain ⟨createdAt, hc, updatedAt, hu, rfl⟩ := h
      obtain ⟨hstarted, hfinished, slot, hslot, hdata⟩ := Report.of_ofSlots? hreport
      have hfield : IsFieldOf report.resultData j :=
        ⟨_, _, hslots, slot, List.mem_cons_of_mem _ (List.mem_of_mem_take hslot), hdata⟩
      have hcreated := Slot.inCalendar_of_required hc
      have hupdated := Slot.inCalendar_of_required hu
      exact ⟨hstarted, hfinished, hfield, hcreated, hupdated⟩
    · contradiction
  · contradiction

/-- A row that is read from a well-formed tree is proper. -/
theorem isProper_of_ofJson? {j : Json} {r : Row} (hj : j.WellFormed)
    (h : ofJson? j = some r) : r.IsProper := by
  obtain ⟨hstarted, hfinished, hfield, hcreated, hupdated⟩ := of_ofJson? h
  exact ⟨⟨hstarted, hfinished, hfield.isFree hj⟩, hcreated, hupdated⟩

/-- Writing a row goes no deeper than what it was read from. -/
theorem depth_toJson {j : Json} {r : Row} (h : ofJson? j = some r) : r.toJson.depth ≤ j.depth := by
  obtain ⟨-, -, hfield, -, -⟩ := of_ofJson? h
  refine depth_obj_le hfield.depth_pos ?_
  exact forall_members (p := fun field => field.depth < j.depth) (fun _ => hfield.depth_pos)
    (Report.depth_members hfield.depth_lt)

/-- Rows as JSON. -/
def form : Form Row where
  toJson := toJson
  ofJson? := ofJson?
  IsProper := IsProper
  wellFormed_toJson h :=
    wellFormed_obj (forall_members (fun _ => trivial) (Report.wellFormed_members h.report))
  ofJson?_toJson := ofJson?_toJson
  ofJson?_canonical := ofJson?_canonical
  isProper_of_ofJson? := isProper_of_ofJson?
  depth_toJson := depth_toJson

end Row

/-! ## Live state -/

namespace JobInfo

/-- The next run lies in the calendar. -/
def IsProper (i : JobInfo) : Prop := ∀ t ∈ i.nextRunTime, t.inCalendar = true

theorem names_members (i : JobInfo) : i.members.map (·.1) = fieldNames := rfl

/-- The fields of a job are well formed. -/
theorem wellFormed_members (i : JobInfo) : ∀ m ∈ i.members, m.2.WellFormed := by
  simp [members]

/-- They are values. -/
theorem ordered_members (i : JobInfo) : ∀ m ∈ i.members, m.2.Ordered := by
  simp [members]

/-- They are leaves. -/
theorem depth_members (i : JobInfo) : ∀ m ∈ i.members, m.2.depth = 0 := by
  simp [members]

/-- A proper job is read from the slots of its fields. -/
theorem ofSlots?_members {i : JobInfo} (h : i.IsProper) :
    ofSlots? (i.members.map (fun m => .given m.2)) = some i := by
  simp [members, ofSlots?, optional_instant h]

/-- A job that is read is proper. -/
theorem isProper_of_ofJson? {j : Json} {i : JobInfo} (h : ofJson? j = some i) : i.IsProper := by
  obtain ⟨slots, -, h⟩ := Option.bind_eq_some_iff.mp h
  unfold ofSlots? at h
  split at h
  · simp only [Option.bind_eq_bind, Option.bind_eq_some_iff, Option.pure_def,
      Option.some.injEq] at h
    obtain ⟨_, -, _, -, _, -, _, -, next, hnext, _, -, _, -, _, -, _, -, _, -, rfl⟩ := h
    exact Slot.inCalendar_of_optional hnext
  · contradiction

section Flatten

variable {i : JobInfo} {rest : List (String × Json)}

/-- Members that follow those of a job are in none of its slots. -/
theorem memberSlots_append (i : JobInfo) (rest : List (String × Json)) :
    memberSlots fieldNames (i.members ++ rest) = i.members.map (fun m => .given m.2) := by
  have hfirst : ∀ name ∈ fieldNames, lookup name (i.members ++ rest) = lookup name i.members :=
    fun name hname => lookup_append hname rest
  rw [memberSlots_congr hfirst, memberSlots_self i.names_members (by decide)]

/-- So they do not change what is read of it. -/
theorem ofJson?_append (h : i.IsProper) (hdistinct : ((i.members ++ rest).map (·.1)).Nodup) :
    ofJson? (.obj (i.members ++ rest)) = some i := by
  unfold ofJson?
  rw [slots?_obj hdistinct, memberSlots_append, Option.bind_some, ofSlots?_members h]

/-- Nor do they in the value that is made of all members. -/
theorem ofJson?_canonical_append (h : i.IsProper)
    (hdistinct : ((i.members ++ rest).map (·.1)).Nodup) :
    ofJson? (Json.obj (i.members ++ rest)).canonical = some i := by
  have hsame : (i.members.map (fun m => Slot.given m.2)).map Slot.canonical =
      i.members.map (fun m => Slot.given m.2) := by
    rw [List.map_map]
    exact List.map_congr_left fun m hm =>
      congrArg Slot.given (canonical_of_ordered (i.ordered_members m hm))
  unfold ofJson?
  rw [slots?_canonical hdistinct, memberSlots_append, hsame, Option.bind_some, ofSlots?_members h]

end Flatten

/-- Live state as JSON. -/
def form : Form JobInfo where
  toJson := toJson
  ofJson? := ofJson?
  IsProper := IsProper
  wellFormed_toJson {i} _ := wellFormed_obj i.wellFormed_members
  ofJson?_toJson {i} h := by
    have hdistinct : ((i.members ++ ([] : List (String × Json))).map (·.1)).Nodup := by
      simp [members]
    have hread := ofJson?_append h hdistinct
    rwa [List.append_nil] at hread
  ofJson?_canonical {i} h := by
    have hdistinct : ((i.members ++ ([] : List (String × Json))).map (·.1)).Nodup := by
      simp [members]
    have hread := ofJson?_canonical_append h hdistinct
    rwa [List.append_nil] at hread
  isProper_of_ofJson? _ := isProper_of_ofJson?
  depth_toJson {j i} h := by
    obtain ⟨slots, hslots, -⟩ := Option.bind_eq_some_iff.mp h
    exact depth_leaves_le hslots i.depth_members

end JobInfo

/-! ## Statuses, pages and replies -/

section WhenSome

variable {α : Type} {name : String} {encode : α → Json} {o : Option α}

/-- What holds of the value of a member holds of the member, if it is there. -/
theorem forall_mem_whenSome {p : Json → Prop} (h : ∀ a ∈ o, p (encode a)) :
    ∀ m ∈ whenSome name encode o, p m.2 := by
  cases o with
  | none => exact nofun
  | some a => exact List.forall_mem_singleton.mpr (h a rfl)

/-- It has the only name that it can have. -/
theorem names_whenSome (name : String) (encode : α → Json) (o : Option α) :
    ((whenSome name encode o).map (·.1)).Sublist [name] := by
  cases o with
  | none => exact List.nil_sublist _
  | some a => exact List.Sublist.refl _

end WhenSome

namespace StatusView

/-- The job and the last row are proper, and the numbers fit. -/
structure IsProper (v : StatusView) : Prop where
  job : v.job.IsProper
  lockTtlRemainingSeconds : ∀ n ∈ v.lockTtlRemainingSeconds, IsInt64 n
  lastExecution : ∀ r ∈ v.lastExecution, r.IsProper
  failuresLast24h : IsInt64 v.failuresLast24h

/-- The names of the members are those of the job and all or all but one of the others. -/
theorem nodup_names (v : StatusView) : ((v.job.members ++ v.own).map (·.1)).Nodup := by
  have hremaining := names_whenSome "lock_ttl_remaining_seconds" Json.int v.lockTtlRemainingSeconds
  have hnames : (v.own.map (·.1)).Sublist ownNames := by
    unfold own
    rw [List.map_cons, List.map_append]
    exact (hremaining.append (List.Sublist.refl _)).cons_cons _
  rw [List.map_append, v.job.names_members]
  have hall : (JobInfo.fieldNames ++ ownNames).Nodup := by decide
  exact hall.sublist ((List.Sublist.refl _).append hnames)

/-- What holds of the fields of the job and of the others holds of all members. -/
theorem forall_members {p : Json → Prop} {v : StatusView} (hjob : ∀ m ∈ v.job.members, p m.2)
    (hlocked : p (.bool v.locked)) (hremaining : ∀ n ∈ v.lockTtlRemainingSeconds, p (.int n))
    (hlast : p (Json.ofOption Row.toJson v.lastExecution))
    (hfailures : p (.int v.failuresLast24h)) :
    ∀ m ∈ v.job.members ++ v.own, p m.2 := by
  simp only [own, List.forall_mem_append, List.forall_mem_cons]
  exact ⟨hjob, hlocked, forall_mem_whenSome hremaining, hlast, hfailures, nofun⟩

/-- A proper status is written well formed. -/
theorem wellFormed_toJson {v : StatusView} (h : v.IsProper) : v.toJson.WellFormed := by
  have hlast : (Json.ofOption Row.toJson v.lastExecution).WellFormed :=
    wellFormed_ofOption (fun r hr => Row.form.wellFormed_toJson (h.lastExecution r hr))
  refine wellFormed_obj (forall_members v.job.wellFormed_members trivial ?_ hlast ?_)
  · exact fun n hn => wellFormed_int (h.lockTtlRemainingSeconds n hn)
  · exact wellFormed_int h.failuresLast24h

/-- The slot of the seconds left; a missing number leaves it empty. -/
def remainingSlot (v : StatusView) : Slot :=
  match v.lockTtlRemainingSeconds with
  | some n => .given (.int n)
  | none => .absent

/-- The seconds left are read from their slot. -/
theorem optional_remainingSlot {v : StatusView} (h : ∀ n ∈ v.lockTtlRemainingSeconds, IsInt64 n) :
    v.remainingSlot.optional asInt64 = some v.lockTtlRemainingSeconds := by
  unfold remainingSlot
  cases hsome : v.lockTtlRemainingSeconds with
  | none => rfl
  | some n =>
    have hn := asInt64_int (h n hsome)
    exact congrArg (Option.map some) hn

/-- Its number is a value already. -/
theorem canonical_remainingSlot (v : StatusView) : v.remainingSlot.canonical = v.remainingSlot := by
  unfold remainingSlot
  cases v.lockTtlRemainingSeconds <;> rfl

/-- The members of the job hide none of those of the status. -/
theorem memberSlots_own (v : StatusView) : memberSlots ownNames (v.job.members ++ v.own) =
    [.given (.bool v.locked), v.remainingSlot, .given (Json.ofOption Row.toJson v.lastExecution),
      .given (.int v.failuresLast24h)] := by
  have hfresh : ∀ name ∈ ownNames, name ∉ JobInfo.fieldNames := by decide
  have hlookup : ∀ name ∈ ownNames, lookup name (v.job.members ++ v.own) = lookup name v.own := by
    intro name hname
    refine lookup_append_of_not_mem ?_ v.own
    rw [v.job.names_members]
    exact hfresh name hname
  rw [memberSlots_congr hlookup]
  unfold own remainingSlot
  -- a missing number leaves the other slots where they are
  cases v.lockTtlRemainingSeconds <;> rfl

/-- A proper status is read from its job and the slots of its own fields. -/
theorem ofSlots?_own {v : StatusView} (h : v.IsProper) {last : Json}
    (hlast : (Slot.given last).optional Row.ofJson? = some v.lastExecution) :
    ofSlots? v.job [.given (.bool v.locked), v.remainingSlot, .given last,
      .given (.int v.failuresLast24h)] =
      some v := by
  have hremaining := optional_remainingSlot h.lockTtlRemainingSeconds
  have hfailures := asInt64_int h.failuresLast24h
  simp [ofSlots?, hremaining, hlast, hfailures]

/-- A status is told apart from the members of its job beside it. -/
theorem ofJson?_toJson {v : StatusView} (h : v.IsProper) : ofJson? v.toJson = some v := by
  have hjob := JobInfo.ofJson?_append h.job v.nodup_names
  have hslots := slots?_obj v.nodup_names ownNames
  have hlast : (Slot.given (Json.ofOption Row.toJson v.lastExecution)).optional Row.ofJson? =
      some v.lastExecution :=
    optional_ofOption (fun r hr => ⟨Json.noConfusion, Row.ofJson?_toJson (h.lastExecution r hr)⟩)
  rw [memberSlots_own] at hslots
  unfold ofJson? toJson
  simp only [hjob, hslots, Option.bind_eq_bind, Option.bind_some, ofSlots?_own h hlast]

/-- So is the value that is made of it. -/
theorem ofJson?_canonical {v : StatusView} (h : v.IsProper) :
    ofJson? v.toJson.canonical = some v := by
  have hjob := JobInfo.ofJson?_canonical_append h.job v.nodup_names
  have hslots := slots?_canonical v.nodup_names ownNames
  have hcanonical : (Json.ofOption Row.toJson v.lastExecution).canonical =
      Json.ofOption (fun r => (Row.toJson r).canonical) v.lastExecution := by
    cases v.lastExecution <;> rfl
  have hlast :
      (Slot.given (Json.ofOption Row.toJson v.lastExecution).canonical).optional Row.ofJson? =
        some v.lastExecution := by
    rw [hcanonical]
    exact optional_ofOption (fun r hr => ⟨Json.noConfusion,
      Row.ofJson?_canonical (h.lastExecution r hr)⟩)
  simp only [memberSlots_own, List.map_cons, List.map_nil, canonical_remainingSlot] at hslots
  unfold toJson
  rw [canonical] at hjob hslots ⊢
  unfold ofJson?
  simp only [hjob, hslots, Option.bind_eq_bind, Option.bind_some]
  exact ofSlots?_own h hlast

/-- Numbers that are read fit, and the last row stands in one of the slots. -/
theorem of_ofSlots? {job : JobInfo} {slots : List Slot} {v : StatusView}
    (h : ofSlots? job slots = some v) :
    v.job = job ∧ (∀ n ∈ v.lockTtlRemainingSeconds, IsInt64 n) ∧ IsInt64 v.failuresLast24h ∧
      ∃ slot ∈ slots, slot.optional Row.ofJson? = some v.lastExecution := by
  unfold ofSlots? at h
  split at h
  · next locked remaining last failures =>
    simp only [Option.bind_eq_bind, Option.bind_eq_some_iff, Option.pure_def,
      Option.some.injEq] at h
    obtain ⟨_, -, n, hn, row, hrow, count, hcount, rfl⟩ := h
    have hremaining := Slot.isInt64_of_optional hn
    have hfailures := Slot.isInt64_of_required hcount
    exact ⟨rfl, hremaining, hfailures, last, by simp, hrow⟩
  · contradiction

/-- A status is read from an object that has a job in its slots and the rest in slots of its own. -/
theorem of_ofJson? {j : Json} {v : StatusView} (h : ofJson? j = some v) :
    JobInfo.ofJson? j = some v.job ∧ ∃ slots, slots? ownNames j = some slots ∧
    ofSlots? v.job slots = some v := by
  unfold ofJson? at h
  split at h
  · simp only [Option.bind_eq_bind, Option.bind_eq_some_iff] at h
    obtain ⟨job, hjob, slots, hslots, h⟩ := h
    obtain rfl := (of_ofSlots? h).1
    exact ⟨hjob, slots, hslots, h⟩
  · contradiction

/-- Statuses as JSON. -/
def form : Form StatusView where
  toJson := toJson
  ofJson? := ofJson?
  IsProper := IsProper
  wellFormed_toJson := wellFormed_toJson
  ofJson?_toJson := ofJson?_toJson
  ofJson?_canonical := ofJson?_canonical
  isProper_of_ofJson? {j v} hj h := by
    obtain ⟨hjob, slots, hslots, h⟩ := of_ofJson? h
    obtain ⟨-, hremaining, hfailures, slot, hslot, hrow⟩ := of_ofSlots? h
    have hlast := Slot.of_optional (fun _ _ => Row.isProper_of_ofJson?)
      (wellFormed_slots hj hslots slot hslot) hrow
    exact ⟨JobInfo.isProper_of_ofJson? hjob, hremaining, hlast, hfailures⟩
  depth_toJson {j v} h := by
    obtain ⟨-, slots, hslots, h⟩ := of_ofJson? h
    obtain ⟨-, -, -, slot, hslot, hrow⟩ := of_ofSlots? h
    obtain ⟨hpos, hdepth⟩ := depth_slots hslots
    have hlast := Nat.lt_of_le_of_lt (Slot.depth_of_optional Row.depth_toJson hrow)
      (hdepth slot hslot)
    have hjob : ∀ m ∈ v.job.members, m.2.depth < j.depth := by
      intro m hm
      rwa [v.job.depth_members m hm]
    refine depth_obj_le hpos ?_
    exact forall_members (p := fun field => field.depth <
      j.depth) hjob hpos (fun _ _ => hpos) hlast hpos

end StatusView

namespace HistoryPage

/-- The rows are proper, and their number fits. -/
structure IsProper (p : HistoryPage) : Prop where
  total : IsInt64 p.total
  items : ∀ r ∈ p.items, r.IsProper

/-- A proper page is written well formed. -/
theorem wellFormed_toJson {p : HistoryPage} (h : p.IsProper) : p.toJson.WellFormed := by
  have hitems : (Json.arr (p.items.map Row.toJson)).WellFormed := by
    refine wellFormedItems_iff.mpr (List.forall_mem_map.mpr ?_)
    exact fun r hr => Row.form.wellFormed_toJson (h.items r hr)
  exact wellFormed_obj (by simp [members, wellFormed_int h.total, hitems])

/-- A proper page is read back. -/
theorem ofJson?_toJson {p : HistoryPage} (h : p.IsProper) : ofJson? p.toJson = some p := by
  have hitems : asList Row.ofJson? (.arr (p.items.map Row.toJson)) = some p.items :=
    asList_arr (fun r hr => Row.ofJson?_toJson (h.items r hr))
  unfold ofJson? toJson
  rw [slots?_self]
  · simp [members, hitems, asInt64_int h.total]
  · rfl
  · decide

/-- So is the value that is made of it. -/
theorem ofJson?_canonical {p : HistoryPage} (h : p.IsProper) :
    ofJson? p.toJson.canonical = some p := by
  have hcanonical : (Json.arr (p.items.map Row.toJson)).canonical =
      .arr (p.items.map (fun r => (Row.toJson r).canonical)) := by
    rw [canonical, canonicalItems_eq, List.map_map]
    rfl
  have hitems : asList Row.ofJson? (.arr (p.items.map (fun r => (Row.toJson r).canonical))) =
      some p.items :=
    asList_arr (fun r hr => Row.ofJson?_canonical (h.items r hr))
  unfold ofJson? toJson
  rw [slots?_canonical_self]
  · simp [members, hcanonical, hitems, asInt64_int h.total, canonical_of_ordered]
  · rfl
  · decide

/-- The number that is read fits, and the rows stand in one of the slots. -/
theorem of_ofJson? {j : Json} {p : HistoryPage} (h : ofJson? j = some p) : IsInt64 p.total ∧
    ∃ names slots, slots? names j = some slots ∧
      ∃ slot ∈ slots, slot.required (asList Row.ofJson?) = some p.items := by
  unfold ofJson? at h
  split at h
  · next job page limit total items hslots =>
    simp only [Option.bind_eq_bind, Option.bind_eq_some_iff, Option.pure_def,
      Option.some.injEq] at h
    obtain ⟨_, -, _, -, _, -, n, hn, rows, hrows, rfl⟩ := h
    have htotal := Slot.isInt64_of_required hn
    exact ⟨htotal, _, _, hslots, items, by simp, hrows⟩
  · contradiction

/-- Pages of history as JSON. -/
def form : Form HistoryPage where
  toJson := toJson
  ofJson? := ofJson?
  IsProper := IsProper
  wellFormed_toJson := wellFormed_toJson
  ofJson?_toJson := ofJson?_toJson
  ofJson?_canonical := ofJson?_canonical
  isProper_of_ofJson? {j p} hj h := by
    obtain ⟨htotal, names, slots, hslots, slot, hslot, hrows⟩ := of_ofJson? h
    have hwell := wellFormed_slots hj hslots slot hslot
    exact ⟨htotal, Slot.of_required (fun _ _ hj =>
      of_asList (fun _ _ => Row.isProper_of_ofJson?) hj) hwell hrows⟩
  depth_toJson {j p} h := by
    obtain ⟨-, names, slots, hslots, slot, hslot, hrows⟩ := of_ofJson? h
    obtain ⟨hpos, hdepth⟩ := depth_slots hslots
    have hitems : (Json.arr (p.items.map Row.toJson)).depth < j.depth :=
      Nat.lt_of_le_of_lt (Slot.depth_of_required (depth_of_asList Row.depth_toJson) hrows)
        (hdepth slot hslot)
    exact depth_obj_le hpos (by simp [members, hpos, hitems])

end HistoryPage

/-- The word of a status is read back. -/
theorem TriggerStatus.ofJson?_toJson (s : TriggerStatus) : ofJson? s.toJson = some s := by
  cases s <;> decide

namespace TriggerReply

theorem nodup_names (r : TriggerReply) : (r.members.map (·.1)).Nodup := by
  have hnames : (["job_id", "status", "success", "message"] ++ ["data"]).Nodup := by decide
  unfold members
  rw [List.map_append]
  exact hnames.sublist ((List.Sublist.refl _).append (names_whenSome "data" id r.data))

/-- What holds of texts and truth values and of the data holds of all members. -/
theorem forall_members {p : Json → Prop} {r : TriggerReply} (htext : ∀ s, p (.str s))
    (hsuccess : p (Json.ofOption .bool r.success)) (hdata : ∀ j ∈ r.data, p j) :
    ∀ m ∈ r.members, p m.2 := by
  simp only [members, List.forall_mem_append, List.forall_mem_cons]
  exact ⟨⟨htext _, htext _, hsuccess, htext _, nofun⟩, forall_mem_whenSome hdata⟩

/-- A proper reply is read back; without data its slot is empty. -/
theorem ofJson?_toJson {r : TriggerReply} (h : IsFree r.data) : ofJson? r.toJson = some r := by
  have hstatus := r.status.ofJson?_toJson
  show ofJson? (.obj r.members) = some r
  unfold ofJson?
  rw [slots?_obj r.nodup_names]
  obtain ⟨job, status, success, message, data⟩ := r
  cases data with
  | none =>
    simp [members, fieldNames, whenSome, memberSlots, lookup, hstatus]
  | some j =>
    have hdata : (Slot.given j).optional asAny = some (some j) := optional_free h
    simp [members, fieldNames, whenSome, memberSlots, lookup, hstatus, hdata]

/-- So is the value that is made of it. -/
theorem ofJson?_canonical {r : TriggerReply} (h : IsFree r.data) :
    ofJson? r.toJson.canonical = some r := by
  have hordered : ∀ m ∈ r.members, m.2.Ordered :=
    forall_members (fun _ => trivial) (ordered_ofOption fun _ _ =>
      trivial) (fun j hj => (h j hj).2.2)
  rw [← ofJson?_toJson h]
  show ofJson? (Json.obj r.members).canonical = ofJson? (.obj r.members)
  unfold ofJson?
  rw [slots?_canonical_of_ordered r.nodup_names hordered]

/-- The data of a reply stands in a field of it. -/
theorem isFieldOf_of_ofJson? {j : Json} {r : TriggerReply} (h : ofJson? j = some r) :
    IsFieldOf r.data j := by
  unfold ofJson? at h
  split at h
  · next job status success message data hslots =>
    simp only [Option.bind_eq_bind, Option.bind_eq_some_iff, Option.pure_def,
      Option.some.injEq] at h
    obtain ⟨_, -, _, -, _, -, _, -, _, hdata, rfl⟩ := h
    exact ⟨_, _, hslots, data, by simp, hdata⟩
  · contradiction

/-- Replies as JSON. -/
def form : Form TriggerReply where
  toJson := toJson
  ofJson? := ofJson?
  IsProper r := IsFree r.data
  wellFormed_toJson {r} h := by
    refine wellFormed_obj (forall_members (fun _ => trivial) ?_ (fun j hj => (h j hj).2.1))
    exact wellFormed_ofOption fun _ _ => trivial
  ofJson?_toJson := ofJson?_toJson
  ofJson?_canonical := ofJson?_canonical
  isProper_of_ofJson? hj h := (isFieldOf_of_ofJson? h).isFree hj
  depth_toJson {j r} h := by
    have hfield := isFieldOf_of_ofJson? h
    have hdata : ∀ d ∈ r.data, d.depth < j.depth := by
      intro d hd
      have hlt := hfield.depth_lt
      rwa [Option.mem_def.mp hd] at hlt
    refine depth_obj_le hfield.depth_pos ?_
    refine forall_members (p := fun field => field.depth <
      j.depth) (fun _ => hfield.depth_pos) ?_ hdata
    simp [hfield.depth_pos]

end TriggerReply

end JobFleet
